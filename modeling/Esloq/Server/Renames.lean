/-
**Renames and tickets of one lock (`LockSerializer.update`, `getlockticket`).**

Both requests save every column of the row they read. A ticket request, and a `PATCH` without a name, write
back the name that they read.

* `saveOf`, `lastName` — who saved the row, from which copy; the name of the rename whose save came last.
* `lineage` — the order of reads and saves, followed back from the end: from a save that sets no name to its
  read, and from there to the save before it.
* `fixed_run` — no schedule changes the mac or the key of a row.
* `rename_kept_iff` — the stored name is that of the last rename exactly if no rename is overtaken on this way,
  or the last of them sets the name at which the way ends.
-/

import Esloq.Server.Ticket

namespace Esloq

open Machine

/-! ### Saves -/

/-- The name that a request stores, if it has one. -/
def Request.newName : Request → Option String
  | .ticket _ => none
  | .rename _ name => name

/-- An access that saves the row of a lock, with the copy that the request holds. -/
def saveOf (requests : Nat → Request) (lock : Nat) : Access → Rows → Option (Request × EsloqRow)
  | .read _, _ => none
  | .save r, s => if (requests r).lock = lock then (s.copies r).map (requests r, ·) else none

/-- The name of the rename whose save of the row came last. -/
def lastName (requests : Nat → Request) (lock : Nat) (schedule : List Access) (s : Rows) : Option String :=
  latest (serverStep requests) (fun access s => (saveOf requests lock access s).bind (·.1.newName)) schedule s

section Saves

variable {requests : Nat → Request} {lock : Nat} {schedule : List Access} {s : Rows}

/-- A request that has read no row saves nothing. -/
theorem serverStep_save_none {r : Nat} (held : s.copies r = none) :
    serverStep requests (.save r) s = .pure s := by
  simp only [serverStep, held]

theorem serverStep_save_some {r : Nat} {copy : EsloqRow} (held : s.copies r = some copy) :
    (serverStep requests (.save r) s).state =
      { table := Function.update s.table (requests r).lock (some ((requests r).update copy))
        copies := Function.update s.copies r none } := by
  simp only [serverStep, held]
  rfl

/-- A request that saves has finished. -/
theorem not_held_after_save {r other : Nat} (others : other ≠ r → s.copies other = none) :
    (serverStep requests (.save r) s).state.copies other = none := by
  by_cases own : other = r
  · subst own
    cases held : s.copies other with
    | none => rwa [serverStep_save_none held]
    | some copy =>
        rw [serverStep_save_some held]
        exact Function.update_self other none s.copies
  · cases held : s.copies r with
    | none =>
        rw [serverStep_save_none held]
        exact others own
    | some copy =>
        rw [serverStep_save_some held]
        exact (Function.update_of_ne own _ _).trans (others own)

/-- A read saves nothing. -/
theorem serverStep_read_table (r : Nat) (s : Rows) :
    (serverStep requests (.read r) s).state.table = s.table := by
  cases found : s.table (requests r).lock with
  | none =>
      simp only [serverStep, found]
      rfl
  | some row =>
      simp only [serverStep, found]
      rfl

/-- A read of a row that is there takes a copy of it. -/
theorem serverStep_read_copies {r : Nat} {row : EsloqRow} (found : s.table (requests r).lock = some row) :
    (serverStep requests (.read r) s).state.copies = Function.update s.copies r (some row) := by
  simp only [serverStep, found]
  rfl

/-- An access of another request leaves a copy. -/
theorem serverStep_copies_ne {r r' : Nat} (other : r ≠ r') :
    (serverStep requests (.read r') s).state.copies r = s.copies r ∧
      (serverStep requests (.save r') s).state.copies r = s.copies r := by
  constructor
  · cases found : s.table (requests r').lock with
    | none =>
        simp only [serverStep, found]
        rfl
    | some row =>
        rw [serverStep_read_copies found]
        exact Function.update_of_ne other _ _
  · cases held : s.copies r' with
    | none =>
        rw [serverStep_save_none held]
        rfl
    | some copy =>
        rw [serverStep_save_some held]
        exact Function.update_of_ne other _ _

end Saves

/-! ### What no request changes -/

/-- The mac and the key of two rows are the same. -/
def EsloqRow.SameLock (row other : EsloqRow) : Prop := row.mac = other.mac ∧ row.key = other.key

/-- The rows and the copies have the mac and the key of the row in a table. -/
structure Fixed (requests : Nat → Request) (table : Nat → Option EsloqRow) (s : Rows) : Prop where
  stored : ∀ lock row, s.table lock = some row → ∃ first, table lock = some first ∧ row.SameLock first
  copied : ∀ r copy, s.copies r = some copy →
    ∃ first, table (requests r).lock = some first ∧ copy.SameLock first

theorem update_sameLock (request : Request) {copy first : EsloqRow} (same : copy.SameLock first) :
    (request.update copy).SameLock first := by
  cases request with
  | ticket lock => exact same
  | rename lock name => exact same

theorem fixed_step {requests : Nat → Request} {table : Nat → Option EsloqRow} (access : Access) {s : Rows}
    (fixed : Fixed requests table s) : Fixed requests table (serverStep requests access s).state := by
  obtain ⟨stored, copied⟩ := fixed
  cases access with
  | read r =>
      refine ⟨fun lock row found => ?_, fun other copy held => ?_⟩
      · rw [serverStep_read_table] at found
        exact stored lock row found
      · revert held
        cases found : s.table (requests r).lock with
        | none =>
            simp only [serverStep, found]
            exact copied other copy
        | some row =>
            simp only [serverStep, found]
            show Function.update s.copies r (some row) other = some copy → _
            by_cases own : other = r
            · subst own
              rw [Function.update_self]
              rintro ⟨⟩
              exact stored _ copy found
            · rw [Function.update_of_ne own]
              exact copied other copy
  | save r =>
      cases held : s.copies r with
      | none =>
          rw [serverStep_save_none held]
          exact ⟨stored, copied⟩
      | some copy =>
          rw [serverStep_save_some held]
          refine ⟨fun lock row found => ?_, fun other copy' held' => ?_⟩
          · by_cases own : lock = (requests r).lock
            · subst own
              have saved := Option.some.inj ((Function.update_self _ _ s.table).symm.trans found)
              obtain ⟨first, there, same⟩ := copied r copy held
              rw [← saved]
              exact ⟨first, there, update_sameLock (requests r) same⟩
            · exact stored lock row ((Function.update_of_ne own _ _).symm.trans found)
          · by_cases own : other = r
            · subst own
              have nothing := (Function.update_self other none s.copies).symm.trans held'
              cases nothing
            · exact copied other copy' ((Function.update_of_ne own _ _).symm.trans held')

theorem fixed_run (requests : Nat → Request) (table : Nat → Option EsloqRow) (schedule : List Access) :
    Fixed requests table (run (serverStep requests) schedule (restingRows table)).state := by
  induction schedule using List.reverseRecOn with
  | nil =>
      refine ⟨fun lock row found => ⟨row, found, rfl, rfl⟩, fun r copy held => ?_⟩
      cases held
  | append_singleton schedule access fixed =>
      rw [run_concat]
      exact fixed_step access fixed

/-! ### The way back -/

/-- The request has read the row and not saved it since; the accesses are given from the last to the first. -/
def reads (r : Nat) : List Access → Bool
  | [] => false
  | .read r' :: past => r' == r || reads r past
  | .save r' :: past => r' != r && reads r past

/-- Where a name comes from: the renames that were saved between the read and the save of a request which wrote
back what it had read, from the last to the first, and the rename that set the name, if one did. -/
structure Lineage where
  overtaken : List Nat
  origin : Option Nat
  deriving DecidableEq

/-- Another rename was saved between a read and its save. -/
def Lineage.overtake (r : Nat) (lineage : Lineage) : Lineage :=
  { lineage with overtaken := r :: lineage.overtaken }

/-- The way back through the accesses to the row, from the last to the first. It goes from a save that sets no
name on to the read of this request (which is then looked for), and from a read to the save before it. -/
def lineage (requests : Nat → Request) (lock : Nat) : Option Nat → List Access → Lineage
  | _, [] => ⟨[], none⟩
  | none, .read _ :: past => lineage requests lock none past
  | none, .save r :: past =>
      if (requests r).lock = lock ∧ reads r past then
        if (requests r).newName.isSome then ⟨[], some r⟩
        else lineage requests lock (some r) past
      else lineage requests lock none past
  | some r, .read r' :: past => lineage requests lock (if r' = r then none else some r) past
  | some r, .save r' :: past =>
      if (requests r').lock = lock ∧ reads r' past ∧ (requests r').newName.isSome then
        (lineage requests lock (some r) past).overtake r'
      else lineage requests lock (some r) past

/-- The name at which the way ends. -/
def Lineage.name (requests : Nat → Request) (first : EsloqRow) (lineage : Lineage) : String :=
  (lineage.origin.bind fun r => (requests r).newName).getD first.name

section Lineages

variable {requests : Nat → Request} {lock : Nat} {first : EsloqRow} {past : List Access}

/-- The name of the rename that comes last on the way. -/
def Lineage.lastName (requests : Nat → Request) (lineage : Lineage) : Option String :=
  (lineage.overtaken.head?.or lineage.origin).bind fun r => (requests r).newName

/-- What an interleaving has made of the row and of the copies of it. -/
structure Carried (requests : Nat → Request) (lock : Nat) (first : EsloqRow) (past : List Access) (s : Rows) :
    Prop where
  stored : ∃ row, s.table lock = some row ∧ row.name = (lineage requests lock none past).name requests first
  held : ∀ r, (requests r).lock = lock → reads r past →
    ∃ copy, s.copies r = some copy ∧ copy.name = (lineage requests lock (some r) past).name requests first
  done : ∀ r, (requests r).lock = lock → reads r past = false → s.copies r = none

theorem carried_read (r : Nat) {s : Rows} (carried : Carried requests lock first past s) :
    Carried requests lock first (.read r :: past) (serverStep requests (.read r) s).state where
  stored := by
    rw [serverStep_read_table]
    exact carried.stored
  held other own read := by
    by_cases same : other = r
    · subst same
      obtain ⟨row, found, name⟩ := carried.stored
      rw [← own] at found
      rw [serverStep_read_copies found, Function.update_self, lineage, if_pos rfl]
      exact ⟨row, rfl, name⟩
    · rw [(serverStep_copies_ne same).1, lineage, if_neg (Ne.symm same)]
      refine carried.held other own ?_
      rwa [reads, beq_false_of_ne (Ne.symm same), Bool.false_or] at read
  done other own unread := by
    obtain ⟨distinct, unread⟩ := Bool.or_eq_false_iff.mp unread
    rw [(serverStep_copies_ne (Ne.symm (ne_of_beq_false distinct))).1]
    exact carried.done other own unread

theorem name_update (request : Request) (copy : EsloqRow) :
    (request.update copy).name = request.newName.getD copy.name := by
  cases request with
  | ticket => rfl
  | rename => rfl

/-- What a save leaves of the row. -/
theorem stored_save (r : Nat) {s : Rows} (carried : Carried requests lock first past s) :
    ∃ row, (serverStep requests (.save r) s).state.table lock = some row ∧
      row.name = (lineage requests lock none (.save r :: past)).name requests first := by
  by_cases saved : (requests r).lock = lock ∧ reads r past
  · obtain ⟨copy, held, name⟩ := carried.held r saved.1 saved.2
    rw [serverStep_save_some held, lineage, if_pos saved, ← saved.1]
    refine ⟨_, Function.update_self _ _ _, ?_⟩
    rw [name_update]
    cases naming : (requests r).newName with
    | none =>
        rw [saved.1]
        exact name
    | some newName =>
        show newName = ((requests r).newName).getD first.name
        rw [naming]
        rfl
  · rw [lineage, if_neg saved]
    cases held : s.copies r with
    | none =>
        rw [serverStep_save_none held]
        exact carried.stored
    | some copy =>
        have other : lock ≠ (requests r).lock := by
          rintro rfl
          have unread := carried.done r rfl (eq_false_of_ne_true fun read => saved ⟨rfl, read⟩)
          rw [held] at unread
          cases unread
        obtain ⟨row, found, name⟩ := carried.stored
        rw [serverStep_save_some held]
        exact ⟨row, (Function.update_of_ne other _ _).trans found, name⟩

/-- A save between a read and a later save leaves the name that was read. -/
theorem name_overtaken (r r' : Nat) : (lineage requests lock (some r) (.save r' :: past)).name requests first =
    (lineage requests lock (some r) past).name requests first := by
  rw [lineage]
  split <;> rfl

theorem carried_save (r : Nat) {s : Rows} (carried : Carried requests lock first past s) :
    Carried requests lock first (.save r :: past) (serverStep requests (.save r) s).state where
  stored := stored_save r carried
  held other own read := by
    obtain ⟨distinct, read⟩ := Bool.and_eq_true_iff.mp read
    rw [(serverStep_copies_ne (Ne.symm (bne_iff_ne.mp distinct))).2, name_overtaken]
    exact carried.held other own read
  done other own unread := by
    refine not_held_after_save fun distinct => carried.done other own ?_
    rwa [reads, bne_iff_ne.mpr (Ne.symm distinct), Bool.true_and] at unread

theorem carried_run {table : Nat → Option EsloqRow} (there : table lock = some first)
    (schedule : List Access) :
    Carried requests lock first schedule.reverse
      (run (serverStep requests) schedule (restingRows table)).state := by
  induction schedule using List.reverseRecOn with
  | nil => exact ⟨⟨first, there, rfl⟩, fun _ _ => nofun, fun _ _ _ => rfl⟩
  | append_singleton schedule access earlier =>
      rw [run_concat, List.reverse_concat]
      cases access with
      | read r => exact carried_read r earlier
      | save r => exact carried_save r earlier

/-- What a save sets. -/
theorem newName_saveOf (r : Nat) {s : Rows} (carried : Carried requests lock first past s) :
    ((saveOf requests lock (.save r) s).bind fun save => save.1.newName) =
      if (requests r).lock = lock ∧ reads r past then (requests r).newName else none := by
  rw [saveOf]
  by_cases own : (requests r).lock = lock
  · rw [if_pos own]
    cases read : reads r past with
    | false =>
        rw [carried.done r own read, if_neg (by simp)]
        rfl
    | true =>
        obtain ⟨copy, held, -⟩ := carried.held r own read
        rw [held, if_pos ⟨own, rfl⟩]
        rfl
  · rw [if_neg own, if_neg fun saved => own saved.1]
    rfl

theorem lastName_read (r : Nat) (past : List Access) (s : Rows) :
    lastName requests lock (.read r :: past).reverse s = lastName requests lock past.reverse s := by
  rw [List.reverse_cons, lastName, latest_concat]
  rfl

theorem lastName_save {table : Nat → Option EsloqRow} (there : table lock = some first) (r : Nat)
    (past : List Access) :
    lastName requests lock (.save r :: past).reverse (restingRows table) =
      ((if (requests r).lock = lock ∧ reads r past then (requests r).newName else none).or
        (lastName requests lock past.reverse (restingRows table))) := by
  have before := @carried_run requests lock first table there past.reverse
  rw [List.reverse_reverse] at before
  rw [List.reverse_cons, lastName, latest_concat, newName_saveOf r before]
  rfl

/-- The last rename is the last one that is overtaken, or the end of the way. -/
theorem lastName_lineage {table : Nat → Option EsloqRow} (there : table lock = some first) :
    ∀ (past : List Access) (sought : Option Nat),
      (∀ r ∈ sought, (requests r).lock = lock ∧ reads r past) →
      (lineage requests lock sought past).lastName requests =
        lastName requests lock past.reverse (restingRows table)
  | [], none, _ => rfl
  | [], some r, busy => nomatch (busy r rfl).2
  | .read r :: past, none, _ => by
      rw [lastName_read]
      exact lastName_lineage there past none nofun
  | .read r' :: past, some r, busy => by
      obtain ⟨own, read⟩ := busy r rfl
      rw [lastName_read, lineage]
      by_cases same : r' = r
      · rw [if_pos same]
        exact lastName_lineage there past none nofun
      · rw [if_neg same]
        refine lastName_lineage there past (some r) fun _ sought => ?_
        obtain rfl := Option.some.inj sought
        rw [reads, beq_false_of_ne same, Bool.false_or] at read
        exact ⟨own, read⟩
  | .save r :: past, none, _ => by
      rw [lastName_save there, lineage]
      by_cases saved : (requests r).lock = lock ∧ reads r past
      · rw [if_pos saved, if_pos saved]
        cases naming : (requests r).newName with
        | none =>
            refine lastName_lineage there past (some r) fun _ sought => ?_
            obtain rfl := Option.some.inj sought
            exact saved
        | some name => exact naming
      · rw [if_neg saved, if_neg saved]
        exact lastName_lineage there past none nofun
  | .save r' :: past, some r, busy => by
      have further := lastName_lineage there past (some r) fun _ sought => by
        obtain rfl := Option.some.inj sought
        exact ⟨(busy r rfl).1, (Bool.and_eq_true_iff.mp (busy r rfl).2).2⟩
      rw [lastName_save there, lineage]
      by_cases saved : (requests r').lock = lock ∧ reads r' past
      · rw [if_pos saved]
        cases naming : (requests r').newName with
        | none =>
            rw [if_neg fun renames => Bool.false_ne_true renames.2.2]
            exact further
        | some name =>
            rw [if_pos ⟨saved.1, saved.2, rfl⟩]
            exact naming
      · rw [if_neg saved, if_neg fun renames => saved ⟨renames.1, renames.2.1⟩]
        exact further

/-- Only renames are overtaken. -/
theorem newName_overtaken : ∀ (past : List Access) (sought : Option Nat),
    ∀ r ∈ (lineage requests lock sought past).overtaken, (requests r).newName.isSome
  | [], _, _, among => nomatch among
  | .read _ :: past, none, r, among => newName_overtaken past none r among
  | .read r' :: past, some sought, r, among => by
      rw [lineage] at among
      exact newName_overtaken past _ r among
  | .save r' :: past, none, r, among => by
      rw [lineage] at among
      split at among
      · split at among
        · cases among
        · exact newName_overtaken past _ r among
      · exact newName_overtaken past _ r among
  | .save r' :: past, some sought, r, among => by
      rw [lineage] at among
      split at among
      · rename_i renames
        rcases List.mem_cons.mp among with rfl | earlier
        · exact renames.2.2
        · exact newName_overtaken past _ r earlier
      · exact newName_overtaken past _ r among

end Lineages

/-! ### The name after a schedule -/

/-- What the row of a lock should be: named by the last rename, and else as it was. -/
structure RenameKept (requests : Nat → Request) (schedule : List Access) (table : Nat → Option EsloqRow)
    (lock : Nat) (first row : EsloqRow) : Prop where
  name : row.name = (lastName requests lock schedule (restingRows table)).getD first.name
  mac : row.mac = first.mac
  key : row.key = first.key

/-- **A rename is kept exactly if no rename is overtaken, or the last one that is sets the name that was
read.** -/
theorem rename_kept_iff (requests : Nat → Request) (table : Nat → Option EsloqRow) (schedule : List Access)
    (lock : Nat) (first : EsloqRow) (there : table lock = some first) :
    (∃ row, (run (serverStep requests) schedule (restingRows table)).state.table lock = some row ∧
        RenameKept requests schedule table lock first row) ↔
      ∀ rename ∈ (lineage requests lock none schedule.reverse).overtaken.head?,
        (requests rename).newName = some ((lineage requests lock none schedule.reverse).name requests first) := by
  obtain ⟨row, found, name⟩ := (@carried_run requests lock first table there schedule).stored
  obtain ⟨first', there', mac, key⟩ := (fixed_run requests table schedule).stored lock row found
  obtain rfl := Option.some.inj (there.symm.trans there')
  have last := @lastName_lineage requests lock first table there schedule.reverse none nofun
  rw [List.reverse_reverse] at last
  have only : (∃ row', (run (serverStep requests) schedule (restingRows table)).state.table lock = some row' ∧
      RenameKept requests schedule table lock first row') ↔
        row.name = (lastName requests lock schedule (restingRows table)).getD first.name := by
    constructor
    · rintro ⟨row', found', kept⟩
      rw [Option.some.inj (found.symm.trans found')]
      exact kept.name
    · exact fun named => ⟨row, found, named, mac, key⟩
  rw [only, name, ← last, Lineage.lastName]
  cases overtaken : (lineage requests lock none schedule.reverse).overtaken.head? with
  | none => exact iff_of_true rfl nofun
  | some rename =>
      have renames := newName_overtaken schedule.reverse none rename (List.mem_of_mem_head? overtaken)
      obtain ⟨newName, naming⟩ := Option.isSome_iff_exists.mp renames
      rw [Option.some_or, Option.bind_some, naming]
      constructor
      · intro same rename' found'
        obtain rfl := Option.some.inj found'
        rw [same]
        exact naming
      · intro every
        have set := every rename rfl
        rw [naming] at set
        exact (Option.some.inj set).symm

/-- A ticket request and a rename read the row, the rename is saved after it, and another ticket request writes
its name back. -/
theorem rename_kept_late :
    (∃ row, (run (serverStep sampleRequests) [.read 0, .read 2, .save 0, .save 2, .read 1, .save 1]
        (restingRows sampleTable)).state.table 1 = some row ∧
      RenameKept sampleRequests [.read 0, .read 2, .save 0, .save 2, .read 1, .save 1] sampleTable 1
        ⟨1, "00:07:80:00:00:01", List.Vector.replicate 32 7, "lock", 0⟩ row) ∧
      sampleTable 1 = some ⟨1, "00:07:80:00:00:01", List.Vector.replicate 32 7, "lock", 0⟩ :=
  ⟨(rename_kept_iff sampleRequests sampleTable [.read 0, .read 2, .save 0, .save 2, .read 1, .save 1] 1 _
    rfl).mpr nofun, rfl⟩

/-- A ticket request reads the row, a rename runs, and the ticket request saves. -/
def racingTicket : List Access := [.read 0, .read 2, .save 2, .save 0]

/-- All requests have finished, and the name is the old one. -/
theorem rename_undone :
    ¬ ∀ (requests : Nat → Request) (table : Nat → Option EsloqRow) (schedule : List Access) (lock : Nat)
        (first : EsloqRow), table lock = some first →
      (∀ r, (run (serverStep requests) schedule (restingRows table)).state.copies r = none) →
      ∃ row, (run (serverStep requests) schedule (restingRows table)).state.table lock = some row ∧
        RenameKept requests schedule table lock first row := by
  intro every
  have finished : ∀ r, (run (serverStep sampleRequests) racingTicket
      (restingRows sampleTable)).state.copies r = none := by
    intro r
    show (serverStep sampleRequests (.save 0) (serverStep sampleRequests (.save 2)
      (run (serverStep sampleRequests) [.read 0, .read 2] (restingRows sampleTable)).state).state).state.copies r
        = none
    refine not_held_after_save fun ticket => not_held_after_save fun rename' => ?_
    exact (Function.update_of_ne rename' _ _).trans (Function.update_of_ne ticket _ _)
  obtain ⟨row, found, kept⟩ := every sampleRequests sampleTable racingTicket 1 _ rfl finished
  have old : row.name = "lock" := by
    rw [← Option.some.inj found]
    rfl
  have renamed : row.name = "door" := kept.name
  rw [old] at renamed
  revert renamed
  decide

end Esloq
