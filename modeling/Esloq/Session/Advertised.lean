/-
**How the lock makes itself known (`process_adv_param_set`, `process_adv_data_set`, `fsm_process`).**

* `scan_response` — for every address the scan response consists of two records: the address as text, in
  the form the server demands of a `mac`, and the name.
* `Awaited` — passes of the main loop until the module answers a command.
* `advertises_after_disconnect`, `advertises_after_boot` — from every state of the lock in which the
  connection is lost or the module has booted, its answers lead through the four or five commands in their
  order to advertising, however many passes bring nothing in between; the rest of the lock stays as it was.
-/

import Esloq.Firmware.Delivery
import Esloq.Lib.Records
import Esloq.Server.Serializers

namespace Esloq

open Machine Records

/-! ### The address as text -/

/-- The address in `sr_data`. -/
def addressText (address : Bytes 6) : List UInt8 :=
  List.intercalate [0x3a] (address.toList.reverse.map hexByte)

/-- What is said of every byte is said of 256 numbers. -/
theorem forall_byte {P : UInt8 → Prop} (every : ∀ n < 256, P (UInt8.ofNat n)) (byte : UInt8) : P byte := by
  have self := every byte.toNat byte.toNat_lt
  rwa [UInt8.ofNat_toNat] at self

/-- A group of a MAC address: two digits of base 16. -/
def macGroup (group : List Char) : Bool :=
  group.length = 2 ∧ group.all fun c => c.isDigit ∨ ('a' ≤ c ∧ c ≤ 'f')

theorem macGroup_iff {group : List Char} : macGroup group = true ↔
    group.length = 2 ∧ ∀ c ∈ group, c.isDigit = true ∨ ('a' ≤ c ∧ c ≤ 'f') := by
  simp [macGroup]

theorem colon_not_mem {group : List Char} (digits : macGroup group = true) : ':' ∉ group := by
  intro member
  exact absurd ((macGroup_iff.mp digits).2 ':' member) (by decide)

/-- Six groups with colons between them are a MAC address. -/
theorem macFmt_intercalate {groups : List (List Char)} (six : groups.length = 6)
    (digits : ∀ group ∈ groups, macGroup group = true) :
    macFmt (String.ofList ([':'].intercalate groups)) = true := by
  have some' : groups ≠ [] := by
    rintro rfl
    cases six
  have colons : ∀ group ∈ groups, ':' ∉ group := fun group member => colon_not_mem (digits group member)
  unfold macFmt
  rw [String.toList_ofList, List.splitOn_intercalate ':' colons some']
  simp only [decide_eq_true_eq, List.all_eq_true]
  exact ⟨six, fun group member => macGroup_iff.mp (digits group member)⟩

theorem map_intercalate {α β : Type} (f : α → β) (separator : List α) (parts : List (List α)) :
    (separator.intercalate parts).map f = (separator.map f).intercalate (parts.map (List.map f)) := by
  unfold List.intercalate
  rw [List.map_flatten]
  congr 1
  induction parts with
  | nil => rfl
  | cons part parts later =>
      cases parts with
      | nil => rfl
      | cons next parts =>
          simp only [List.map_cons, List.intersperse_cons_cons] at later ⊢
          rw [later]

/-- The character of a byte. -/
def asciiChar (byte : UInt8) : Char := Char.ofNat byte.toNat

theorem macGroup_hexByte (byte : UInt8) : macGroup ((hexByte byte).map asciiChar) = true :=
  forall_byte (P := fun byte => macGroup ((hexByte byte).map asciiChar) = true) (by decide +kernel) byte

theorem macFmt_addressText (address : Bytes 6) :
    macFmt (String.ofList ((addressText address).map asciiChar)) = true := by
  unfold addressText
  rw [map_intercalate, List.map_map]
  refine macFmt_intercalate ?_ fun group member => ?_
  · rw [List.length_map, List.length_reverse, List.Vector.toList_length]
  · obtain ⟨byte, -, rfl⟩ := List.mem_map.mp member
    exact macGroup_hexByte byte

theorem length_addressText (address : Bytes 6) : (addressText address).length = 17 := by
  obtain ⟨bytes, sized⟩ := address
  match bytes, sized with
  | [_, _, _, _, _, _], _ => rfl

/-- The records of the scan response. -/
def scanRecords (address : Bytes 6) : List Record :=
  [(0xff, addressText address), (9, [0x65, 0x73, 0x6c, 0x6f, 0x71])]

theorem srData_eq_encode (address : Bytes 6) : srData address = encode (scanRecords address) := by
  have length : UInt8.ofNat ((addressText address).length + 1) = 18 := by rw [length_addressText]; rfl
  show _ = UInt8.ofNat ((addressText address).length + 1) :: _
  rw [length]
  rfl

/-- **The scan response is the address and the name**; the address is in the form of the server's `mac`, and
the response fits into an advertisement. -/
theorem scan_response (address : Bytes 6) :
    parse (srData address) = some (scanRecords address) ∧
      macFmt (String.ofList ((addressText address).map asciiChar)) = true ∧ (srData address).length ≤ 31 := by
  refine ⟨?_, macFmt_addressText address, ?_⟩
  · rw [srData_eq_encode]
    refine parse_encode _ fun record member => ?_
    rcases List.mem_cons.mp member with rfl | last
    · show (addressText address).length < 255
      rw [length_addressText]
      decide
    · rw [List.mem_singleton.mp last]
      decide
  · show ([18, 0xff] ++ addressText address ++ [6, 9, 0x65, 0x73, 0x6c, 0x6f, 0x71]).length ≤ 31
    rw [List.length_append, List.length_append, length_addressText]
    decide

/-! ### The commands -/

/-- The commands to the module, in order. -/
def commands (effects : List Effect) : List BleCmd :=
  effects.filterMap fun
    | .cmd command => some command
    | _ => none

theorem commands_append (first second : List Effect) :
    commands (first ++ second) = commands first ++ commands second := List.filterMap_append

/-- The end of a pass leaves no request and sends no command. -/
theorem processButton_commands (press : Option Rotation) (l : Lock) :
    ∃ events, processButton press l = .emit { l with request := none } events ∧ commands events = [] := by
  unfold processButton
  split
  · exact ⟨_, rfl, rfl⟩
  case h_2 waiting =>
    have unset : { l with request := none } = l := by
      rw [← (Option.or_eq_none_iff.mp waiting).2]
    exact ⟨[], by rw [unset]; rfl, rfl⟩

/-- Some passes lead from one state of the lock to another and send some commands. -/
def Leads (box : Secretbox) (its : List Iteration) (l l' : Lock) (sent : List BleCmd) : Prop :=
  ∃ events, mainRun box its l = .emit l' events ∧ commands events = sent

theorem Leads.append {box : Secretbox} {first second : List Iteration} {l l₁ l₂ : Lock}
    {sent sent' : List BleCmd} (before : Leads box first l l₁ sent) (after : Leads box second l₁ l₂ sent') :
    Leads box (first ++ second) l l₂ (sent ++ sent') := by
  obtain ⟨events, run₁, sent₁⟩ := before
  obtain ⟨events', run₂, sent₂⟩ := after
  refine ⟨events ++ events', ?_, by rw [commands_append, sent₁, sent₂]⟩
  rw [mainRun_append, run₁, Turn.emit_andThen, run₂]
  rfl

/-- A pass that is not cut and brings nothing, or nothing the firmware looks at. -/
def Iteration.quiet (it : Iteration) : Bool :=
  it.cut.isNone &&
    match it.packet with
    | .timeout | .msg .evtHardwareIoPortStatus | .msg .stub => true
    | _ => false

/-- Passes until the module answers. -/
def Awaited (answer : BgapiMsg) (its : List Iteration) : Prop :=
  ∃ quiet last, its = quiet ++ [last] ∧ (∀ it ∈ quiet, it.quiet = true) ∧
    last.cut = none ∧ last.packet = .msg answer

section Answers

variable {box : Secretbox} {answer : BgapiMsg} {its : List Iteration} {l asked after : Lock}
  {effects : List Effect}

theorem Iteration.whole_of_quiet {it : Iteration} (quiet : it.quiet = true) : it.cut = none :=
  Option.isNone_iff_eq_none.mp (Bool.and_eq_true_iff.mp quiet).1

/-- What a quiet pass does behind `fsm_process`. -/
theorem quiet_packet {it : Iteration} (quiet : it.quiet = true) (l : Lock) :
    ∃ events, processPacket it.packet it.press l = .emit { l with request := none } events ∧
      commands events = [] := by
  obtain ⟨events, button, none'⟩ := processButton_commands it.press l
  obtain ⟨lowBattery, packet, press, cut⟩ := it
  refine ⟨events, ?_, none'⟩
  rw [← button]
  have brings := (Bool.and_eq_true_iff.mp quiet).2
  cases packet with
  | timeout => rfl
  | error => cases brings
  | msg msg =>
      cases msg with
      | evtHardwareIoPortStatus | stub => rfl
      | _ => cases brings

/-- A quiet pass where `fsm_process` waits. -/
theorem quiet_leads {it : Iteration} (quiet : it.quiet = true)
    (waits : ∀ lowBattery, fsmProcess box lowBattery l = .pure l) :
    Leads box [it] l { l with request := none } [] := by
  obtain ⟨events, packet, none'⟩ := quiet_packet quiet l
  refine ⟨events, ?_, none'⟩
  rw [mainRun, run_single, loopBody_of_whole box (Iteration.whole_of_quiet quiet), wholeBody, waits,
    Turn.pure_andThen, packet]

/-- Many of them. -/
theorem quiet_run {its : List Iteration} (quiet : ∀ it ∈ its, it.quiet = true) (idle : l.request = none)
    (waits : ∀ lowBattery, fsmProcess box lowBattery l = .pure l) : Leads box its l l [] := by
  induction its with
  | nil => exact ⟨[], rfl, rfl⟩
  | cons it its later =>
      have first := quiet_leads (quiet it List.mem_cons_self) waits
      rw [show { l with request := none } = l by rw [← idle]] at first
      exact first.append (later fun other member => quiet other (List.mem_cons_of_mem it member))

/-- **A command and its answer**, with any number of quiet passes before it. -/
theorem Awaited.leads (answered : Awaited answer its)
    (asks : ∀ lowBattery, fsmProcess box lowBattery l = .emit asked effects)
    (waits : ∀ lowBattery, fsmProcess box lowBattery { asked with request := none } =
      .pure { asked with request := none })
    (answers : ∀ request, bleHandler answer { asked with request := request } =
      .pure { after with request := request }) :
    Leads box its l { after with request := none } (commands effects) := by
  obtain ⟨quiet, last, rfl, quiets, whole, packet⟩ := answered
  cases quiet with
  | nil =>
      obtain ⟨events, button, none'⟩ := processButton_commands last.press { after with request := asked.request }
      refine ⟨effects ++ events, ?_, by rw [commands_append, none', List.append_nil]⟩
      rw [List.nil_append, mainRun, run_single, loopBody_of_whole box whole, wholeBody, asks,
        Turn.emit_andThen, packet, processPacket, answers asked.request, Turn.pure_andThen, button]
      rfl
  | cons it quiet =>
      have first : Leads box [it] l { asked with request := none } (commands effects) := by
        have quiet' := quiets it List.mem_cons_self
        obtain ⟨events, brings, none'⟩ := quiet_packet quiet' asked
        refine ⟨effects ++ events, ?_, by rw [commands_append, none', List.append_nil]⟩
        rw [mainRun, run_single, loopBody_of_whole box (Iteration.whole_of_quiet quiet'), wholeBody, asks,
          Turn.emit_andThen, brings]
        rfl
      have middle := quiet_run (fun other member => quiets other (List.mem_cons_of_mem it member)) rfl waits
      have end' : Leads box [last] { asked with request := none } { after with request := none } [] := by
        obtain ⟨events, button, none'⟩ := processButton_commands last.press { after with request := none }
        refine ⟨events, ?_, none'⟩
        rw [mainRun, run_single, loopBody_of_whole box whole, wholeBody, waits, Turn.pure_andThen, packet,
          processPacket, answers none, Turn.pure_andThen, button]
      have all := first.append (middle.append end')
      rwa [List.append_nil, List.append_nil] at all

end Answers

/-! ### To advertising -/

section Advertising

variable (box : Secretbox) (l : Lock) {first params data scan mode : List Iteration}

theorem leads_adv_params (answered : Awaited .rspGapSetAdvParameters params) :
    Leads box params { l with state := .systemAddressGet } { l with state := .advParamSet, request := none }
      [.gapSetAdvParameters 320 350 7] :=
  @Awaited.leads box .rspGapSetAdvParameters params { l with state := .systemAddressGet }
    { l with state := .advParamSetW } { l with state := .advParamSet } [setAdvParameters] answered
    (fun _ => rfl) (fun _ => rfl) (fun _ => rfl)

theorem leads_adv_data (answered : Awaited .rspGapSetAdvData data) :
    Leads box data { l with state := .advParamSet } { l with state := .advDataSet, request := none }
      [.gapSetAdvData 0 advData] :=
  @Awaited.leads box .rspGapSetAdvData data { l with state := .advParamSet }
    { l with state := .advDataSetW } { l with state := .advDataSet } [.cmd (.gapSetAdvData 0 advData)]
    answered (fun _ => rfl) (fun _ => rfl) (fun _ => rfl)

theorem leads_scan_response (answered : Awaited .rspGapSetAdvData scan) :
    Leads box scan { l with state := .advDataSet } { l with state := .advSrDataSet, request := none }
      [.gapSetAdvData 1 (srData l.systemAddress)] :=
  @Awaited.leads box .rspGapSetAdvData scan { l with state := .advDataSet }
    { l with state := .advSrDataSetW } { l with state := .advSrDataSet }
    [.cmd (.gapSetAdvData 1 (srData l.systemAddress))] answered (fun _ => rfl) (fun _ => rfl) (fun _ => rfl)

theorem leads_mode (answered : Awaited .rspGapSetMode mode) :
    Leads box mode { l with state := .advSrDataSet } { l with state := .advertising, request := none }
      [.gapSetMode 4 2] :=
  @Awaited.leads box .rspGapSetMode mode { l with state := .advSrDataSet }
    { l with state := .advertisingW } { l with state := .advertising } [.cmd (.gapSetMode 4 2)] answered
    (fun _ => rfl) (fun _ => rfl) (fun _ => rfl)

/-- The commands after the parameters, for an address. -/
def advertisement (address : Bytes 6) : List BleCmd :=
  [.gapSetAdvData 0 advData, .gapSetAdvData 1 (srData address), .gapSetMode 4 2]

theorem leads_advertisement (data' : Awaited .rspGapSetAdvData data)
    (scan' : Awaited .rspGapSetAdvData scan) (mode' : Awaited .rspGapSetMode mode) :
    Leads box (data ++ (scan ++ mode)) { l with state := .advParamSet }
      { l with state := .advertising, request := none } (advertisement l.systemAddress) := by
  have second := leads_adv_data box l data'
  have third := leads_scan_response box { l with request := none } scan'
  have fourth := leads_mode box { l with request := none } mode'
  exact second.append (third.append fourth)

/-- **When a connection is lost, the lock advertises again.** -/
theorem advertises_after_disconnect (closed : l.state = .disconnected)
    (params' : Awaited .rspGapSetAdvParameters params) (data' : Awaited .rspGapSetAdvData data)
    (scan' : Awaited .rspGapSetAdvData scan) (mode' : Awaited .rspGapSetMode mode) :
    Leads box (params ++ (data ++ (scan ++ mode))) l
      { resetMsgBuffer l with state := .advertising, request := none }
      (.gapSetAdvParameters 320 350 7 :: advertisement l.systemAddress) := by
  have asks (lowBattery : Bool) : fsmProcess box lowBattery l =
      .emit { resetMsgBuffer l with state := .advParamSetW } [.resetMsgBuffer, setAdvParameters] := by
    unfold fsmProcess
    rw [closed]
  have start : Leads box params l { resetMsgBuffer l with state := .advParamSet, request := none }
      [.gapSetAdvParameters 320 350 7] :=
    @Awaited.leads box .rspGapSetAdvParameters params l { resetMsgBuffer l with state := .advParamSetW }
      { resetMsgBuffer l with state := .advParamSet } [.resetMsgBuffer, setAdvParameters] params' asks
      (fun _ => rfl) (fun _ => rfl)
  exact start.append (leads_advertisement box { resetMsgBuffer l with request := none } data' scan' mode')

/-- **When the module has booted, the lock advertises the address that the module has.** -/
theorem advertises_after_boot {address : Bytes 6} (booted : l.state = .bleBoot)
    (first' : Awaited (.rspSystemAddressGet address) first)
    (params' : Awaited .rspGapSetAdvParameters params) (data' : Awaited .rspGapSetAdvData data)
    (scan' : Awaited .rspGapSetAdvData scan) (mode' : Awaited .rspGapSetMode mode) :
    Leads box (first ++ (params ++ (data ++ (scan ++ mode)))) l
      { l with state := .advertising, systemAddress := address, request := none }
      (.systemAddressGet :: .gapSetAdvParameters 320 350 7 :: advertisement address) := by
  have asks (lowBattery : Bool) : fsmProcess box lowBattery l =
      .emit { l with state := .systemAddressGetW } [.cmd .systemAddressGet] := by
    unfold fsmProcess
    rw [booted]
  have start : Leads box first l
      { l with state := .systemAddressGet, systemAddress := address, request := none } [.systemAddressGet] :=
    @Awaited.leads box (.rspSystemAddressGet address) first l { l with state := .systemAddressGetW }
      { l with state := .systemAddressGet, systemAddress := address } [.cmd .systemAddressGet] first' asks
      (fun _ => rfl) (fun _ => rfl)
  have parameters := leads_adv_params box { l with systemAddress := address, request := none } params'
  have rest := leads_advertisement box { l with systemAddress := address, request := none } data' scan' mode'
  exact start.append (parameters.append rest)

end Advertising

/-! ### A lock that starts and one that is left -/

/-- The module answers after a pass that brings nothing. -/
theorem awaited_late (answer : BgapiMsg) : Awaited answer [quietPass, pass answer] := by
  refine ⟨[quietPass], pass answer, rfl, ?_, rfl, rfl⟩
  intro it member
  rw [List.mem_singleton.mp member]
  rfl

/-- The passes in which the module answers late, from the parameters to the mode. -/
def lateAnswers : List Iteration :=
  [quietPass, pass .rspGapSetAdvParameters] ++ ([quietPass, pass .rspGapSetAdvData] ++
    ([quietPass, pass .rspGapSetAdvData] ++ [quietPass, pass .rspGapSetMode]))

/-- A lock whose connection has just been lost. -/
def leftLock : Lock :=
  { bootLock zeroNonce sampleMasterKey with state := .disconnected, msgBuf := ⟨40, Bytes.zeros 72⟩ }

theorem leftLock_advertises :
    Leads keyTag lateAnswers leftLock { resetMsgBuffer leftLock with state := .advertising }
      (.gapSetAdvParameters 320 350 7 :: advertisement (Bytes.zeros 6)) :=
  advertises_after_disconnect keyTag leftLock rfl (awaited_late _) (awaited_late _) (awaited_late _)
    (awaited_late _)

/-- A lock whose module has just booted. -/
def bootedLock : Lock := { bootLock zeroNonce sampleMasterKey with state := .bleBoot }

theorem bootedLock_advertises :
    Leads keyTag ([quietPass, pass (.rspSystemAddressGet (List.Vector.replicate 6 0x12))] ++ lateAnswers)
      bootedLock
      { bootedLock with state := .advertising, systemAddress := List.Vector.replicate 6 0x12 }
      (.systemAddressGet :: .gapSetAdvParameters 320 350 7 ::
        advertisement (List.Vector.replicate 6 0x12)) :=
  advertises_after_boot keyTag bootedLock rfl (awaited_late _) (awaited_late _) (awaited_late _)
    (awaited_late _) (awaited_late _)

end Esloq
