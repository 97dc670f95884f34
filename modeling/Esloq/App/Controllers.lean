/-
**Controllers that share one service and one session key (`LockControllerImpl.java`,
`LockDataRepositoryImpl.java`, `Cryptography.java`, `BluetoothService.java`).**

The ticket and the session key are static fields, and the service has one GATT connection, whichever
controller has asked for it. A controller asks the server for a session key when it is told that a
connection is ready; the reply comes at any time later, sets both fields, and sends the ticket over
whatever connection there is then.

* `Phone.step` — a step of a controller, the service, the connection or the server.
* `Announced` — a controller is told of a connection, and asks on it, at most once.
* `Traced` — what is stored and sent comes from such a request, where the steps are `Apt`: a reply fits the
  connection there is when it comes, and a rotation is asked for under a key for this connection.
-/

import Mathlib.Data.List.Perm.Subperm
import Mathlib.Data.List.Nodup
import Mathlib.Logic.Function.Basic
import Esloq.App.Service
import Esloq.Lib.Prefixes

namespace Esloq

open Prefixes
open scoped List

/-! ### The app on a phone -/

/-- A link to the GATT server of a lock, from when it comes up until it is lost. -/
structure Connection where
  number : Nat
  address : String
  deriving DecidableEq

/-- `bluetoothGatt`: the lock it is for, whether its services are known, and its link, with whether the
descriptor has been written. -/
structure Gatt where
  address : String
  discovered : Bool
  link : Option (Nat × Bool)
  deriving DecidableEq

section Types

variable (ι : Type)

/-- A call of `requestSessionKey` when a connection is ready. -/
structure SessionRequest where
  number : Nat
  controller : ι
  lockMac : String
  connection : Connection
  /-- How often the controller has been closed before. -/
  closes : Nat
  deriving DecidableEq

/-- The array in a static field, and the request whose reply has put it there. -/
structure Stored where
  request : SessionRequest ι
  bytes : List UInt8
  deriving DecidableEq

/-- What the app does that is seen outside. -/
inductive PhoneEvent
  | requested (request : SessionRequest ι)
  | ticket (via : Connection) (stored : Stored ι)
  | encrypted (via : Connection) (stored : Stored ι) (code : LockRequestCode)
  | nullPointer
  | illegalArgument
  | initializationError
  deriving DecidableEq

/-- The controllers, the service and the static fields. -/
structure Phone where
  /-- Whether the broadcast receiver of a controller is registered. -/
  registered : ι → Bool
  /-- The controllers with a binding to the service. -/
  bound : List ι
  /-- Whether `bluetoothService` of a controller is set. -/
  service : ι → Bool
  closes : ι → Nat
  /-- `ACTION_COMMUNICATION_READY` on its way to the receiver of a controller. -/
  intents : ι → List Connection
  gatt : Option Gatt
  /-- Connections that another one has replaced while their descriptor was being written. -/
  replaced : List Connection
  connections : Nat
  requests : Nat
  pending : List (SessionRequest ι)
  sessionKey : Option (Stored ι)
  lockTicket : Option (Stored ι)
  trace : List (PhoneEvent ι)

/-- What `requestSessionKey` gets from the server: no success, a success without one of the two fields,
one whose fields are no Base64, or both arrays. -/
inductive SessionReply
  | failed
  | incomplete
  | undecodable
  | decoded (sessionKey lockTicket : List UInt8)
  deriving DecidableEq

/-- A step of one of the parties. -/
inductive PhoneInput
  | initialized (c : ι)
  /-- `onServiceConnected`, with or without network and Bluetooth. -/
  | serviceConnected (c : ι) (online : Bool)
  /-- A broadcast on which a controller connects again. -/
  | reconnect (c : ι) (online : Bool)
  | linked
  | unlinked
  /-- `onServicesDiscovered`; a replaced client has the services of the current one discovered once
  more. -/
  | discovered
  /-- `onDescriptorWrite` of the current connection. -/
  | ready
  /-- `onDescriptorWrite` of a connection that has been replaced. -/
  | replacedReady (connection : Connection)
  /-- The broadcast reaches a controller. -/
  | receive (c : ι)
  | result (number : Nat) (reply : SessionReply)
  | lock (c : ι) (locksClockwise : Bool)
  | unlock (c : ι) (locksClockwise : Bool)
  | close (c : ι)
  deriving DecidableEq

end Types

variable {ι : Type}

namespace Phone

/-- The app before anything has been opened. -/
def start : Phone ι where
  registered _ := false
  bound := []
  service _ := false
  closes _ := 0
  intents _ := []
  gatt := none
  replaced := []
  connections := 0
  requests := 0
  pending := []
  sessionKey := none
  lockTicket := none
  trace := []

def emit (event : PhoneEvent ι) (phone : Phone ι) : Phone ι :=
  { phone with trace := phone.trace ++ [event] }

/-- The connection over which a characteristic is written. -/
def current (phone : Phone ι) : Option Connection :=
  match phone.gatt with
  | some ⟨address, true, some (number, _)⟩ => some ⟨number, address⟩
  | _ => none

/-- `writeCharacteristic`: without a link nothing is sent, and without services it raises. -/
def writeCharacteristic (value : Connection → Option (PhoneEvent ι)) (phone : Phone ι) : Phone ι :=
  match phone.gatt with
  | some ⟨_, false, _⟩ => phone.emit .nullPointer
  | _ =>
      match phone.current.bind value with
      | some event => phone.emit event
      | none => phone

/-- `BluetoothService.sendTicket`. -/
def sendTicket (phone : Phone ι) : Phone ι :=
  phone.writeCharacteristic fun via => phone.lockTicket.map (.ticket via)

/-- `BluetoothService.sendEncryptedMessage`; encryption without a key raises. -/
def sendEncryptedMessage (code : LockRequestCode) (phone : Phone ι) : Phone ι :=
  match phone.sessionKey with
  | none => phone.emit .nullPointer
  | some stored => phone.writeCharacteristic fun via => some (.encrypted via stored code)

/-- The connection whose descriptor is being written. -/
def writing (phone : Phone ι) : List Connection :=
  match phone.gatt with
  | some ⟨address, true, some (number, false)⟩ => [⟨number, address⟩]
  | _ => []

/-- `BluetoothService.connect`. -/
def connect (address : String) (phone : Phone ι) : Phone ι :=
  if (phone.gatt.map Gatt.address) = some address then phone
  else { phone with
    gatt := some ⟨address, false, none⟩
    replaced := phone.replaced ++ phone.writing }

/-- `onConnectToLock`. -/
def onConnectToLock (mac : ι → String) (c : ι) (online : Bool) (phone : Phone ι) : Phone ι :=
  if phone.service c && online then phone.connect (mac c) else phone

/-- `ACTION_COMMUNICATION_READY` is broadcast. -/
def broadcastReady (connection : Connection) (phone : Phone ι) : Phone ι :=
  { phone with intents := fun c =>
      if phone.registered c then phone.intents c ++ [connection] else phone.intents c }

/-- `Cryptography.setLockTicket`, and the end of the callback. -/
def onTicket (request : SessionRequest ι) (lockTicket : List UInt8) (phone : Phone ι) : Phone ι :=
  if lockTicket.length = 72 then
    let phone := { phone with lockTicket := some ⟨request, lockTicket⟩ }
    if phone.service request.controller then phone.sendTicket else phone.emit .nullPointer
  else phone.emit .illegalArgument

/-- The callbacks of `requestSessionKey`. -/
def onResult (request : SessionRequest ι) (reply : SessionReply) (phone : Phone ι) : Phone ι :=
  match reply with
  | .failed => phone.emit .initializationError
  | .undecodable => phone.emit .illegalArgument
  | .incomplete =>
      if phone.service request.controller then phone.sendTicket else phone.emit .nullPointer
  | .decoded sessionKey lockTicket =>
      if sessionKey.length = 32 then
        { phone with sessionKey := some ⟨request, sessionKey⟩ }.onTicket request lockTicket
      else phone.emit .illegalArgument

/-- `rotateClockwise` or `rotateCounterClockwise` of a controller. -/
def rotate (c : ι) (clockwise : Bool) (phone : Phone ι) : Phone ι :=
  if phone.service c then
    phone.sendEncryptedMessage (if clockwise then .rotateClockwise else .rotateCounterClockwise)
  else phone.emit .nullPointer

variable [DecidableEq ι]

/-- `close`; the service closes its GATT client when nothing is bound to it. -/
def close (c : ι) (phone : Phone ι) : Phone ι :=
  let phone := { phone with
    registered := Function.update phone.registered c false
    closes := Function.update phone.closes c (phone.closes c + 1)
    intents := Function.update phone.intents c [] }
  if phone.service c then
    let bound := phone.bound.erase c
    { phone with
      bound := bound
      service := Function.update phone.service c false
      gatt := if bound = [] then none else phone.gatt }
  else phone

/-- A controller that is told of a connection asks for a session key. -/
def requestSessionKey (mac : ι → String) (c : ι) (connection : Connection) (phone : Phone ι) :
    Phone ι :=
  let request := ⟨phone.requests, c, mac c, connection, phone.closes c⟩
  { phone with
    requests := phone.requests + 1
    pending := phone.pending ++ [request] }.emit (.requested request)

/-- A step; nothing happens where it cannot be taken. -/
def step (mac : ι → String) (input : PhoneInput ι) (phone : Phone ι) : Phone ι :=
  match input with
  | .initialized c =>
      if phone.registered c then phone
      else { phone with
        registered := Function.update phone.registered c true
        bound := if c ∈ phone.bound then phone.bound else phone.bound ++ [c] }
  | .serviceConnected c online =>
      if c ∈ phone.bound ∧ phone.service c = false then
        { phone with service := Function.update phone.service c true }.onConnectToLock mac c online
      else phone
  | .reconnect c online => if phone.registered c then phone.onConnectToLock mac c online else phone
  | .linked =>
      match phone.gatt with
      | some ⟨address, discovered, none⟩ => { phone with
          gatt := some ⟨address, discovered, some (phone.connections, false)⟩
          connections := phone.connections + 1 }
      | _ => phone
  | .unlinked => { phone with gatt := phone.gatt.map fun gatt => { gatt with link := none } }
  | .discovered =>
      match phone.gatt with
      | some ⟨address, _, some (number, _)⟩ =>
          { phone with gatt := some ⟨address, true, some (number, false)⟩ }
      | _ => phone
  | .ready =>
      match phone.gatt with
      | some ⟨address, true, some (number, false)⟩ =>
          { phone with gatt := some ⟨address, true, some (number, true)⟩ }.broadcastReady
            ⟨number, address⟩
      | _ => phone
  | .replacedReady connection =>
      if connection ∈ phone.replaced then
        { phone with replaced := phone.replaced.erase connection }.broadcastReady connection
      else phone
  | .receive c =>
      match phone.intents c with
      | [] => phone
      | connection :: rest =>
          { phone with intents := Function.update phone.intents c rest }.requestSessionKey mac c
            connection
  | .result number reply =>
      match phone.pending.find? fun request => request.number = number with
      | none => phone
      | some request =>
          { phone with pending := phone.pending.erase request }.onResult request reply
  | .lock c locksClockwise => phone.rotate c locksClockwise
  | .unlock c locksClockwise => phone.rotate c !locksClockwise
  | .close c => if phone.registered c then phone.close c else phone

end Phone

/-! ### Whose keys -/

/-- The request was made for the lock of a connection, when this was ready. -/
def SessionRequest.For (request : SessionRequest ι) (via : Connection) : Prop :=
  request.connection = via ∧ request.lockMac = via.address

/-- A message that is sent, with the array it uses. -/
def PhoneEvent.sent : PhoneEvent ι → Option (Connection × Stored ι)
  | .ticket via stored | .encrypted via stored _ => some (via, stored)
  | _ => none

/-- What is in a static field was requested on the current connection. -/
def Phone.Fresh (phone : Phone ι) (field : Option (Stored ι)) : Prop :=
  ∀ via ∈ phone.current, ∀ stored ∈ field, stored.request.connection = via

/-- A reply that is stored while there is a connection was requested on this, for its lock; and one
that is not stored makes a ticket be sent only on the connection this was requested on. -/
def SessionReply.Fits (reply : SessionReply) (request : SessionRequest ι) (phone : Phone ι) : Prop :=
  match reply with
  | .decoded sessionKey _ => sessionKey.length = 32 → ∀ via ∈ phone.current, request.For via
  | .incomplete => phone.service request.controller = true → phone.Fresh phone.lockTicket
  | _ => True

/-- The services of a connection are discovered once, a reply fits, and a rotation is asked for under a key for
the connection. -/
def PhoneInput.Apt (input : PhoneInput ι) (phone : Phone ι) : Prop :=
  match input with
  | .discovered => ∀ gatt ∈ phone.gatt, ∀ link ∈ gatt.link, link.2 = false
  | .result number reply => ∀ request ∈ phone.pending, request.number = number → reply.Fits request phone
  | .lock c _ | .unlock c _ => phone.service c = true → phone.Fresh phone.sessionKey
  | _ => True

/-- The requests of a controller so far. -/
def requestsOf [DecidableEq ι] (c : ι) (trace : List (PhoneEvent ι)) : List (SessionRequest ι) :=
  trace.filterMap fun
    | .requested request => if request.controller = c then some request else none
    | _ => none

/-! ### The invariant -/

/-- The numbers of the connections a controller has been told of or is being told of. -/
def Phone.told [DecidableEq ι] (c : ι) (phone : Phone ι) : List Nat :=
  (requestsOf c phone.trace).map (·.connection.number) ++ (phone.intents c).map Connection.number

/-- The number of the current link, while its descriptor has not been written, and those of replaced
connections whose descriptor is being written. -/
def Phone.waiting (phone : Phone ι) : List Nat :=
  (match phone.gatt with
    | some ⟨_, _, some (number, false)⟩ => [number]
    | _ => []) ++ phone.replaced.map Connection.number

/-- Every connection is announced to a controller at most once. -/
structure Phone.Announced [DecidableEq ι] (phone : Phone ι) : Prop where
  nodup : ∀ c, (phone.told c ++ phone.waiting).Nodup
  below : ∀ c, ∀ number ∈ phone.told c ++ phone.waiting, number < phone.connections

/-- An array that is in one of the static fields. -/
def Phone.Stores (phone : Phone ι) (stored : Stored ι) : Prop :=
  phone.sessionKey = some stored ∨ phone.lockTicket = some stored

/-- What is stored comes from requests, and from one for the lock of the current connection if it was
requested on this; and what is sent comes from a request for its connection. -/
structure Phone.Traced (mac : ι → String) (phone : Phone ι) : Prop where
  lockMac : ∀ request, .requested request ∈ phone.trace → request.lockMac = mac request.controller
  pending : ∀ request ∈ phone.pending, .requested request ∈ phone.trace
  stored : ∀ stored, phone.Stores stored → .requested stored.request ∈ phone.trace
  own : ∀ stored, phone.Stores stored → stored.request.connection ∈ phone.current →
    stored.request.For stored.request.connection
  sent : ∀ event ∈ phone.trace, ∀ via stored, event.sent = some (via, stored) →
    stored.request.For via ∧ .requested stored.request ∈ phone.trace

/-! ### Announcements -/

section Announced

variable [DecidableEq ι] {phone phone' : Phone ι}

theorem announced_of_subperm (announced : phone.Announced)
    (fewer : ∀ c, phone'.told c ++ phone'.waiting <+~ phone.told c ++ phone.waiting)
    (same : phone'.connections = phone.connections) : phone'.Announced where
  nodup c := by
    obtain ⟨list, perm, sub⟩ := fewer c
    exact perm.nodup_iff.mp ((announced.nodup c).sublist sub)
  below c number member := by
    rw [same]
    exact announced.below c number ((fewer c).subset member)

/-- The parts that the announcements depend on. -/
structure SameLinks (phone phone' : Phone ι) : Prop where
  intents : phone'.intents = phone.intents
  gatt : phone'.gatt = phone.gatt
  replaced : phone'.replaced = phone.replaced
  connections : phone'.connections = phone.connections
  requests : ∀ c, requestsOf c phone'.trace = requestsOf c phone.trace

theorem sameLinks_refl (phone : Phone ι) : SameLinks phone phone :=
  ⟨rfl, rfl, rfl, rfl, fun _ => rfl⟩

theorem announced_of_same (announced : phone.Announced) (same : SameLinks phone phone') :
    phone'.Announced := by
  refine announced_of_subperm announced (fun c => ?_) same.connections
  have told : phone'.told c = phone.told c := by
    rw [Phone.told, same.requests, same.intents, Phone.told]
  have waiting : phone'.waiting = phone.waiting := by
    rw [Phone.waiting, same.gatt, same.replaced, Phone.waiting]
  rw [told, waiting]

theorem requestsOf_append (c : ι) (first second : List (PhoneEvent ι)) :
    requestsOf c (first ++ second) = requestsOf c first ++ requestsOf c second :=
  List.filterMap_append

theorem sameLinks_emit {event : PhoneEvent ι} (other : ∀ request, event ≠ .requested request) :
    SameLinks phone (phone.emit event) := by
  refine ⟨rfl, rfl, rfl, rfl, fun c => ?_⟩
  rw [Phone.emit, requestsOf_append]
  cases event with
  | requested request => exact absurd rfl (other request)
  | _ => exact List.append_nil _

theorem announced_connect (announced : phone.Announced) (address : String) :
    (phone.connect address).Announced := by
  unfold Phone.connect
  split
  · exact announced
  · refine announced_of_subperm announced (fun c => ?_) rfl
    refine (List.subperm_append_left _).mpr ?_
    rw [Phone.waiting, Phone.waiting, List.nil_append, List.map_append]
    refine List.perm_append_comm.subperm.trans ((List.subperm_append_right _).mpr ?_)
    unfold Phone.writing
    split <;> simp_all

theorem announced_broadcastReady {connection : Connection}
    (nodup : ∀ c, (phone.told c ++ connection.number :: phone.waiting).Nodup)
    (below : ∀ c, ∀ number ∈ phone.told c ++ connection.number :: phone.waiting,
      number < phone.connections) : (phone.broadcastReady connection).Announced := by
  have told : ∀ c, (phone.broadcastReady connection).told c =
      phone.told c ++ if phone.registered c then [connection.number] else [] := by
    intro c
    rw [Phone.told, Phone.told, Phone.broadcastReady]
    dsimp only
    split
    · rw [List.map_append, List.append_assoc]
      rfl
    · rw [List.append_nil]
  have sub : ∀ c, (phone.broadcastReady connection).told c ++
      (phone.broadcastReady connection).waiting <+ phone.told c ++ connection.number :: phone.waiting := by
    intro c
    rw [told, List.append_assoc]
    refine (List.append_sublist_append_left _).mpr ?_
    split
    · exact List.Sublist.refl _
    · exact List.sublist_cons_self _ _
  exact ⟨fun c => (nodup c).sublist (sub c), fun c number member => below c number ((sub c).subset member)⟩

theorem announced_onConnectToLock (announced : phone.Announced) (mac : ι → String) (c : ι)
    (online : Bool) : (phone.onConnectToLock mac c online).Announced := by
  unfold Phone.onConnectToLock
  split
  · exact announced_connect announced _
  · exact announced

theorem sameLinks_writeCharacteristic {value : Connection → Option (PhoneEvent ι)}
    (other : ∀ via request, value via ≠ some (.requested request)) :
    SameLinks phone (phone.writeCharacteristic value) := by
  unfold Phone.writeCharacteristic
  split
  · exact sameLinks_emit (by simp)
  · split
    · rename_i event written
      obtain ⟨via, -, isEvent⟩ := Option.bind_eq_some_iff.mp written
      exact sameLinks_emit fun request same => other via request (same ▸ isEvent)
    · exact sameLinks_refl phone

theorem sameLinks_sendTicket : SameLinks phone phone.sendTicket :=
  sameLinks_writeCharacteristic fun via request same => by
    obtain ⟨stored, -, same⟩ := Option.map_eq_some_iff.mp same
    cases same

theorem SameLinks.trans {phone'' : Phone ι} (first : SameLinks phone phone')
    (second : SameLinks phone' phone'') : SameLinks phone phone'' :=
  ⟨second.intents.trans first.intents, second.gatt.trans first.gatt,
    second.replaced.trans first.replaced, second.connections.trans first.connections,
    fun c => (second.requests c).trans (first.requests c)⟩

theorem sameLinks_onResult (request : SessionRequest ι) (reply : SessionReply) :
    SameLinks phone (phone.onResult request reply) := by
  cases reply with
  | failed => exact sameLinks_emit (by simp)
  | undecodable => exact sameLinks_emit (by simp)
  | incomplete =>
      rw [Phone.onResult]
      split
      · exact sameLinks_sendTicket
      · exact sameLinks_emit (by simp)
  | decoded sessionKey lockTicket =>
      rw [Phone.onResult]
      split
      · rw [Phone.onTicket]
        have stores : ∀ key ticket, SameLinks phone
            { phone with sessionKey := key, lockTicket := ticket } :=
          fun _ _ => ⟨rfl, rfl, rfl, rfl, fun _ => rfl⟩
        split
        · dsimp only
          split
          · exact (stores _ _).trans sameLinks_sendTicket
          · exact (stores _ _).trans (sameLinks_emit (by simp))
        · exact (stores _ _).trans (sameLinks_emit (by simp))
      · exact sameLinks_emit (by simp)

theorem sameLinks_rotate (c : ι) (clockwise : Bool) : SameLinks phone (phone.rotate c clockwise) := by
  unfold Phone.rotate
  split
  · unfold Phone.sendEncryptedMessage
    split
    · exact sameLinks_emit (by simp)
    · exact sameLinks_writeCharacteristic (by simp)
  · exact sameLinks_emit (by simp)

/-- A new link is not known to anyone. -/
theorem announced_linked (announced : phone.Announced) {address : String} {discovered : Bool}
    (unlinked : phone.gatt = some ⟨address, discovered, none⟩) :
    Phone.Announced { phone with
      gatt := some ⟨address, discovered, some (phone.connections, false)⟩
      connections := phone.connections + 1 } := by
  have waiting : phone.waiting = phone.replaced.map Connection.number := by
    rw [Phone.waiting, unlinked]
    rfl
  constructor
  · intro c
    refine List.nodup_middle.mpr (List.nodup_cons.mpr ⟨fun member => ?_, ?_⟩)
    · rw [← waiting] at member
      exact Nat.lt_irrefl _ (announced.below c _ member)
    · rw [← waiting]
      exact announced.nodup c
  · intro c number member
    rcases List.mem_cons.mp (List.perm_middle.mem_iff.mp member) with rfl | old
    · exact Nat.lt_succ_self _
    · rw [← waiting] at old
      exact Nat.lt_succ_of_lt (announced.below c number old)

/-- A link whose descriptor is written waits no longer. -/
theorem announced_ready (announced : phone.Announced) {address : String} {number : Nat}
    (writing : phone.gatt = some ⟨address, true, some (number, false)⟩) :
    ({ phone with gatt := some ⟨address, true, some (number, true)⟩ }.broadcastReady
      ⟨number, address⟩).Announced := by
  have waiting : phone.waiting = number :: phone.replaced.map Connection.number := by
    rw [Phone.waiting, writing]
    rfl
  refine announced_broadcastReady (fun c => ?_) fun c => ?_
  · exact waiting ▸ announced.nodup c
  · exact waiting ▸ announced.below c

theorem announced_replacedReady (announced : phone.Announced) {connection : Connection}
    (member : connection ∈ phone.replaced) :
    ({ phone with replaced := phone.replaced.erase connection }.broadcastReady
      connection).Announced := by
  have perm : ∀ c, phone.told c ++ phone.waiting ~ phone.told c ++ connection.number ::
      Phone.waiting { phone with replaced := phone.replaced.erase connection } := by
    intro c
    refine List.Perm.append_left _ ?_
    rw [Phone.waiting, Phone.waiting]
    refine (List.Perm.append_left _ ((List.perm_cons_erase member).map _)).trans ?_
    exact List.perm_middle
  refine announced_broadcastReady (fun c => ?_) fun c number inside => ?_
  · exact (perm c).nodup_iff.mp (announced.nodup c)
  · exact announced.below c number ((perm c).mem_iff.mpr inside)

/-- A controller that asks has been told of the connection. -/
theorem announced_receive (announced : phone.Announced) (mac : ι → String) {c : ι}
    {connection : Connection} {rest : List Connection} (next : phone.intents c = connection :: rest) :
    ({ phone with intents := Function.update phone.intents c rest }.requestSessionKey mac c
      connection).Announced := by
  refine announced_of_subperm announced (fun other => ?_) rfl
  refine (List.subperm_append_right _).mpr (List.Perm.subperm ?_)
  simp only [Phone.told, Phone.requestSessionKey, Phone.emit, requestsOf_append, List.map_append,
    List.append_assoc]
  refine List.Perm.append_left _ ?_
  by_cases same : other = c
  · subst same
    simp [requestsOf, next]
  · simp [requestsOf, same, Ne.symm same]

/-- A controller that is closed is told no more, and the connection may be gone. -/
theorem announced_close (announced : phone.Announced) (c : ι) : (phone.close c).Announced := by
  have told : ∀ other, Phone.told other (phone.close c) <+ phone.told other := by
    intro other
    rw [Phone.close]
    split <;> refine (List.append_sublist_append_left _).mpr ?_
    all_goals
      by_cases same : other = c
      · subst same
        simp
      · simp [same]
  have waiting : (phone.close c).waiting <+ phone.waiting := by
    rw [Phone.close]
    split
    · rw [Phone.waiting, Phone.waiting]
      refine (List.append_sublist_append_right _).mpr ?_
      dsimp only
      split <;> simp_all
    · exact List.Sublist.refl _
  refine announced_of_subperm announced (fun other => ?_) ?_
  · exact ((told other).append waiting).subperm
  · rw [Phone.close]
    split <;> rfl

theorem announced_step (announced : phone.Announced) (mac : ι → String) {input : PhoneInput ι}
    (apt : input.Apt phone) : (phone.step mac input).Announced := by
  cases input with
  | initialized c =>
      rw [Phone.step]
      split
      · exact announced
      · exact announced_of_same announced ⟨rfl, rfl, rfl, rfl, fun _ => rfl⟩
  | serviceConnected c online =>
      rw [Phone.step]
      split
      · refine announced_onConnectToLock ?_ mac c online
        exact announced_of_same announced ⟨rfl, rfl, rfl, rfl, fun _ => rfl⟩
      · exact announced
  | reconnect c online =>
      rw [Phone.step]
      split
      · exact announced_onConnectToLock announced mac c online
      · exact announced
  | linked =>
      rw [Phone.step]
      split
      · rename_i unlinked
        exact announced_linked announced unlinked
      · exact announced
  | unlinked =>
      rw [Phone.step]
      refine announced_of_subperm announced (fun c => (List.subperm_append_left _).mpr ?_) rfl
      refine List.Sublist.subperm ((List.append_sublist_append_right _).mpr ?_)
      cases phone.gatt <;> simp
  | discovered =>
      rw [Phone.step]
      split
      · rename_i same
        refine announced_of_subperm announced (fun c => (List.subperm_append_left _).mpr ?_) rfl
        obtain rfl : _ = false := apt _ same _ rfl
        rw [Phone.waiting, Phone.waiting, same]
      · exact announced
  | ready =>
      rw [Phone.step]
      split
      · rename_i writing
        exact announced_ready announced writing
      · exact announced
  | replacedReady connection =>
      rw [Phone.step]
      split
      · rename_i member
        exact announced_replacedReady announced member
      · exact announced
  | receive c =>
      rw [Phone.step]
      split
      · exact announced
      · rename_i next
        exact announced_receive announced mac next
  | result number reply =>
      rw [Phone.step]
      split
      · exact announced
      · refine announced_of_same ?_ (sameLinks_onResult _ reply)
        exact announced_of_same announced ⟨rfl, rfl, rfl, rfl, fun _ => rfl⟩
  | lock c locksClockwise => exact announced_of_same announced (sameLinks_rotate c _)
  | unlock c locksClockwise => exact announced_of_same announced (sameLinks_rotate c _)
  | close c =>
      rw [Phone.step]
      split
      · exact announced_close announced c
      · exact announced

end Announced

/-! ### Where the keys come from -/

section Traced

variable {mac : ι → String} {phone phone' : Phone ι}

/-- A connection that is current now has been so before, or is in no request. -/
def Phone.Follows (phone' phone : Phone ι) : Prop :=
  ∀ via ∈ phone'.current, via ∈ phone.current ∨
    ∀ request, .requested request ∈ phone.trace → request.connection ≠ via

/-- What the requests and the messages depend on, but for the connection. -/
structure SameKeys (phone phone' : Phone ι) : Prop where
  pending : phone'.pending = phone.pending
  sessionKey : phone'.sessionKey = phone.sessionKey
  lockTicket : phone'.lockTicket = phone.lockTicket
  trace : phone'.trace = phone.trace

theorem traced_of_same (traced : phone.Traced mac) (same : SameKeys phone phone')
    (follows : phone'.Follows phone) : phone'.Traced mac := by
  have stores : ∀ stored, phone'.Stores stored ↔ phone.Stores stored := by
    intro stored
    rw [Phone.Stores, same.sessionKey, same.lockTicket, Phone.Stores]
  refine ⟨?_, ?_, fun stored holds => ?_, fun stored holds current => ?_, ?_⟩
  · exact same.trace ▸ traced.lockMac
  · exact same.trace ▸ same.pending ▸ traced.pending
  · exact same.trace ▸ traced.stored stored ((stores stored).mp holds)
  · rcases follows _ current with before | never
    · exact traced.own stored ((stores stored).mp holds) before
    · exact absurd rfl (never _ (traced.stored stored ((stores stored).mp holds)))
  · exact same.trace ▸ traced.sent

/-- An event that is no request, and sends nothing but what it may. -/
theorem traced_emit (traced : phone.Traced mac) {event : PhoneEvent ι}
    (other : ∀ request, event ≠ .requested request)
    (sent : ∀ via stored, event.sent = some (via, stored) →
      stored.request.For via ∧ .requested stored.request ∈ phone.trace) :
    (phone.emit event).Traced mac := by
  have asked : ∀ request, .requested request ∈ (phone.emit event).trace ↔
      .requested request ∈ phone.trace := by
    intro request
    rw [Phone.emit, List.mem_append, List.mem_singleton]
    exact or_iff_left fun same => other request same.symm
  refine ⟨fun request member => traced.lockMac request ((asked request).mp member),
    fun request member => (asked request).mpr (traced.pending request member),
    fun stored holds => (asked _).mpr (traced.stored stored holds), traced.own, ?_⟩
  intro emitted member via stored sends
  rw [asked]
  rcases List.mem_append.mp member with old | new
  · exact traced.sent emitted old via stored sends
  · exact sent via stored (List.mem_singleton.mp new ▸ sends)

theorem traced_raise (traced : phone.Traced mac) {event : PhoneEvent ι}
    (other : ∀ request, event ≠ .requested request) (silent : event.sent = none) :
    (phone.emit event).Traced mac := by
  refine traced_emit traced other fun via stored sends => ?_
  rw [silent] at sends
  cases sends

theorem traced_writeCharacteristic (traced : phone.Traced mac)
    {value : Connection → Option (PhoneEvent ι)}
    (other : ∀ via request, value via ≠ some (.requested request))
    (sent : ∀ via ∈ phone.current, ∀ event ∈ value via, ∀ used stored,
      event.sent = some (used, stored) →
        stored.request.For used ∧ .requested stored.request ∈ phone.trace) :
    (phone.writeCharacteristic value).Traced mac := by
  unfold Phone.writeCharacteristic
  split
  · exact traced_raise traced (by simp) rfl
  · split
    · rename_i event written
      obtain ⟨via, current, isEvent⟩ := Option.bind_eq_some_iff.mp written
      refine traced_emit traced ?_ (sent via current event isEvent)
      exact fun request same => other via request (same ▸ isEvent)
    · exact traced

/-- What is stored is sent to the lock it was requested for. -/
theorem traced_sendTicket (traced : phone.Traced mac) (fresh : phone.Fresh phone.lockTicket) :
    phone.sendTicket.Traced mac := by
  refine traced_writeCharacteristic traced (by simp) fun via current event isEvent => ?_
  obtain ⟨ticket, stored, rfl⟩ := Option.map_eq_some_iff.mp isEvent
  rintro used used' ⟨⟩
  have same := fresh via current ticket stored
  refine ⟨?_, traced.stored ticket (Or.inr stored)⟩
  rw [← same] at current ⊢
  exact traced.own ticket (Or.inr stored) current

/-- The arrays of a reply to a request for the current connection. -/
theorem traced_stored (traced : phone.Traced mac) {request : SessionRequest ι}
    {sessionKey lockTicket : Option (Stored ι)} (asked : .requested request ∈ phone.trace)
    (fits : ∀ via ∈ phone.current, request.For via)
    (each : ∀ stored, sessionKey = some stored ∨ lockTicket = some stored →
      stored.request = request ∨ phone.Stores stored) :
    Phone.Traced mac { phone with sessionKey := sessionKey, lockTicket := lockTicket } := by
  refine ⟨traced.lockMac, traced.pending, fun stored holds => ?_, fun stored holds current => ?_,
    traced.sent⟩
  · rcases each stored holds with same | before
    · exact same ▸ asked
    · exact traced.stored stored before
  · rcases each stored holds with same | before
    · rw [same] at current ⊢
      exact fits _ current
    · exact traced.own stored before current

theorem traced_onTicket (traced : phone.Traced mac) {request : SessionRequest ι}
    (asked : .requested request ∈ phone.trace) (fits : ∀ via ∈ phone.current, request.For via)
    (bytes : List UInt8) : (phone.onTicket request bytes).Traced mac := by
  unfold Phone.onTicket
  split
  · have ticket : Phone.Traced mac { phone with lockTicket := some ⟨request, bytes⟩ } := by
      refine traced_stored traced asked fits fun stored holds => ?_
      rcases holds with key | ticket
      · exact Or.inr (Or.inl key)
      · exact Or.inl (by rw [← Option.some.inj ticket])
    dsimp only
    split
    · refine traced_sendTicket ticket fun via current stored isTicket => ?_
      rw [← Option.some.inj isTicket]
      exact (fits via current).1
    · exact traced_raise ticket (by simp) rfl
  · exact traced_raise traced (by simp) rfl

theorem traced_onResult (traced : phone.Traced mac) {request : SessionRequest ι}
    (asked : .requested request ∈ phone.trace) {reply : SessionReply}
    (fits : reply.Fits request phone) : (phone.onResult request reply).Traced mac := by
  cases reply with
  | failed => exact traced_raise traced (by simp) rfl
  | undecodable => exact traced_raise traced (by simp) rfl
  | incomplete =>
      rw [Phone.onResult]
      split
      · rename_i service
        exact traced_sendTicket traced (fits service)
      · exact traced_raise traced (by simp) rfl
  | decoded sessionKey lockTicket =>
      rw [Phone.onResult]
      split
      · rename_i length
        have fits : ∀ via ∈ phone.current, request.For via := fits length
        have key : Phone.Traced mac { phone with sessionKey := some ⟨request, sessionKey⟩ } := by
          refine traced_stored traced asked fits fun stored holds => ?_
          rcases holds with key | ticket
          · exact Or.inl (by rw [← Option.some.inj key])
          · exact Or.inr (Or.inr ticket)
        exact traced_onTicket key asked fits lockTicket
      · exact traced_raise traced (by simp) rfl

/-- A rotation is encrypted under the key of the lock it is sent to. -/
theorem traced_rotate (traced : phone.Traced mac) {c : ι}
    (fresh : phone.service c = true → phone.Fresh phone.sessionKey) (clockwise : Bool) :
    (phone.rotate c clockwise).Traced mac := by
  unfold Phone.rotate
  split
  · rename_i service
    unfold Phone.sendEncryptedMessage
    split
    · exact traced_raise traced (by simp) rfl
    · rename_i key stored
      refine traced_writeCharacteristic traced (by simp) fun via current event isEvent => ?_
      obtain rfl := Option.some.inj isEvent
      rintro used used' ⟨⟩
      have same := fresh service via current key stored
      refine ⟨?_, traced.stored key (Or.inl stored)⟩
      rw [← same] at current ⊢
      exact traced.own key (Or.inl stored) current
  · exact traced_raise traced (by simp) rfl

/-- The controller that is told of a connection asks. -/
theorem traced_requestSessionKey (traced : phone.Traced mac) (c : ι) (connection : Connection) :
    (phone.requestSessionKey mac c connection).Traced mac := by
  refine ⟨fun request member => ?_, fun request member => ?_, fun stored holds => ?_, traced.own,
    fun event member via stored sends => ?_⟩
  · rcases List.mem_append.mp member with old | new
    · exact traced.lockMac request old
    · cases List.mem_singleton.mp new
      rfl
  · rcases List.mem_append.mp member with old | new
    · exact List.mem_append_left _ (traced.pending request old)
    · exact List.mem_append_right _ (List.mem_singleton.mpr (by rw [List.mem_singleton.mp new]))
  · exact List.mem_append_left _ (traced.stored stored holds)
  · rcases List.mem_append.mp member with old | new
    · obtain ⟨fits, asked⟩ := traced.sent event old via stored sends
      exact ⟨fits, List.mem_append_left _ asked⟩
    · cases List.mem_singleton.mp new
      cases sends

theorem follows_of_current (same : phone'.current = phone.current) : phone'.Follows phone :=
  fun _ member => Or.inl (same ▸ member)

theorem follows_of_none (none : phone'.current = none) : phone'.Follows phone :=
  fun _ member => absurd (none ▸ member) (Option.not_mem_none _)

theorem traced_connect (traced : phone.Traced mac) (address : String) :
    (phone.connect address).Traced mac := by
  unfold Phone.connect
  split
  · exact traced
  · exact traced_of_same traced ⟨rfl, rfl, rfl, rfl⟩ (follows_of_none rfl)

theorem traced_onConnectToLock (traced : phone.Traced mac) (c : ι) (online : Bool) :
    (phone.onConnectToLock mac c online).Traced mac := by
  unfold Phone.onConnectToLock
  split
  · exact traced_connect traced _
  · exact traced

variable [DecidableEq ι]

theorem mem_requestsOf {c : ι} {trace : List (PhoneEvent ι)} {request : SessionRequest ι} :
    request ∈ requestsOf c trace ↔ .requested request ∈ trace ∧ request.controller = c := by
  rw [requestsOf, List.mem_filterMap]
  constructor
  · rintro ⟨event, member, found⟩
    cases event with
    | requested other =>
        obtain ⟨own, same⟩ := Option.ite_none_right_eq_some.mp found
        obtain rfl := Option.some.inj same
        exact ⟨member, own⟩
    | _ => cases found
  · rintro ⟨member, own⟩
    exact ⟨_, member, if_pos own⟩

/-- A request is for a connection its controller has been told of. -/
theorem told_of_requested {request : SessionRequest ι} (asked : .requested request ∈ phone.trace) :
    request.connection.number ∈ phone.told request.controller :=
  List.mem_append_left _ (List.mem_map_of_mem (mem_requestsOf.mpr ⟨asked, rfl⟩))

/-- The connection of a number that nobody has been told of is in no request. -/
theorem follows_of_untold (announced : phone.Announced)
    (untold : ∀ via ∈ phone'.current, via.number ∈ phone.waiting ∨ phone.connections ≤ via.number) :
    phone'.Follows phone := by
  refine fun via member => Or.inr fun request asked same => ?_
  have told := told_of_requested asked
  rw [same] at told
  rcases untold via member with waiting | new
  · exact List.disjoint_of_nodup_append (announced.nodup request.controller) told waiting
  · have below := announced.below request.controller _ (List.mem_append_left _ told)
    exact absurd below (Nat.not_lt.mpr new)

theorem traced_close (traced : phone.Traced mac) (c : ι) : (phone.close c).Traced mac := by
  rw [Phone.close]
  split
  · refine traced_of_same traced ⟨rfl, rfl, rfl, rfl⟩ ?_
    by_cases last : phone.bound.erase c = []
    · refine follows_of_none ?_
      simp [Phone.current, last]
    · refine follows_of_current ?_
      simp [Phone.current, last]
  · exact traced_of_same traced ⟨rfl, rfl, rfl, rfl⟩ (follows_of_current rfl)

theorem traced_result (traced : phone.Traced mac) {number : Nat} {reply : SessionReply}
    (apt : (PhoneInput.result number reply).Apt phone) :
    (phone.step mac (.result number reply)).Traced mac := by
  rw [Phone.step]
  split
  · exact traced
  · rename_i request found
    have pending := List.mem_of_find?_eq_some found
    have numbered : request.number = number := by simpa using List.find?_some found
    have erased : Phone.Traced mac { phone with pending := phone.pending.erase request } :=
      ⟨traced.lockMac, fun other member => traced.pending other (List.mem_of_mem_erase member),
        traced.stored, traced.own, traced.sent⟩
    exact traced_onResult erased (traced.pending request pending) (apt request pending numbered)

/-- **What an apt step sends comes from a request for the lock on the connection.** -/
theorem traced_step (announced : phone.Announced) (traced : phone.Traced mac) {input : PhoneInput ι}
    (apt : input.Apt phone) : (phone.step mac input).Traced mac := by
  cases input with
  | initialized c =>
      rw [Phone.step]
      split
      · exact traced
      · exact traced_of_same traced ⟨rfl, rfl, rfl, rfl⟩ (follows_of_current rfl)
  | serviceConnected c online =>
      rw [Phone.step]
      split
      · refine traced_onConnectToLock ?_ c online
        exact traced_of_same traced ⟨rfl, rfl, rfl, rfl⟩ (follows_of_current rfl)
      · exact traced
  | reconnect c online =>
      rw [Phone.step]
      split
      · exact traced_onConnectToLock traced c online
      · exact traced
  | linked =>
      rw [Phone.step]
      split
      · rename_i address discovered unlinked
        refine traced_of_same traced ⟨rfl, rfl, rfl, rfl⟩ (follows_of_untold announced ?_)
        intro via member
        cases discovered with
        | false => cases member
        | true =>
            cases member
            exact Or.inr le_rfl
      · exact traced
  | unlinked =>
      refine traced_of_same traced ⟨rfl, rfl, rfl, rfl⟩ (follows_of_none ?_)
      rw [Phone.step, Phone.current]
      rcases phone.gatt with _ | ⟨_, _ | _, _⟩ <;> rfl
  | discovered =>
      rw [Phone.step]
      split
      · rename_i address discovered number written linked
        refine traced_of_same traced ⟨rfl, rfl, rfl, rfl⟩ (follows_of_untold announced ?_)
        rintro via ⟨⟩
        obtain rfl : written = false := apt _ linked _ rfl
        rw [Phone.waiting, linked]
        exact Or.inl List.mem_cons_self
      · exact traced
  | ready =>
      rw [Phone.step]
      split
      · rename_i writing
        refine traced_of_same traced ⟨rfl, rfl, rfl, rfl⟩ (follows_of_current ?_)
        rw [Phone.current, Phone.current, writing]
        rfl
      · exact traced
  | replacedReady connection =>
      rw [Phone.step]
      split
      · exact traced_of_same traced ⟨rfl, rfl, rfl, rfl⟩ (follows_of_current rfl)
      · exact traced
  | receive c =>
      rw [Phone.step]
      split
      · exact traced
      · refine traced_requestSessionKey ?_ c _
        exact traced_of_same traced ⟨rfl, rfl, rfl, rfl⟩ (follows_of_current rfl)
  | result number reply => exact traced_result traced apt
  | lock c locksClockwise => exact traced_rotate traced apt _
  | unlock c locksClockwise => exact traced_rotate traced apt _
  | close c =>
      rw [Phone.step]
      split
      · exact traced_close traced c
      · exact traced

end Traced

end Esloq
