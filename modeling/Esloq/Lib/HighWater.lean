/-
**High-water marks, and numbers used under keys.**

* `mark number start trace` — the largest of `start` and the numbers of a trace; it is below a number
  exactly when all of them are (`mark_lt_iff`). Numbers that each exceed the mark before them
  strictly increase (`pairwise_of_marks`).

* `Ledger` — which events of a trace open a session under a key, and which use a number under a key.
* `Ledger.session` — the session a trace has reached: the key opened last and its mark, the number
  used last.
* `Ledger.Rises` — the rule an event follows: it uses a number only under the key of the session and
  above the mark.
* `Ledger.ordered` — on a trace that follows the rule and opens no key twice, the numbers used under
  each key strictly increase, across all its sessions.
-/

import Esloq.Lib.Machine

namespace Machine

variable {ε κ : Type}

/-! ### Marks -/

/-- The largest of a start and the numbers of a trace. -/
def mark (number : ε → Option Nat) (start : Nat) (trace : List ε) : Nat :=
  trace.foldl (fun high event => max high ((number event).getD 0)) start

theorem mark_append (number : ε → Option Nat) (start : Nat) (first second : List ε) :
    mark number start (first ++ second) = mark number (mark number start first) second :=
  List.foldl_append

theorem mark_lt_iff {number : ε → Option Nat} {bound : Nat} : ∀ {start : Nat} {trace : List ε},
    mark number start trace < bound ↔
      start < bound ∧ ∀ event ∈ trace, ∀ n, number event = some n → n < bound
  | start, [] => by simp [mark]
  | start, event :: rest => by
      have later : mark number (max start ((number event).getD 0)) rest < bound ↔ _ := mark_lt_iff
      rw [show mark number start (event :: rest) =
        mark number (max start ((number event).getD 0)) rest from rfl, later, List.forall_mem_cons,
        Nat.max_lt, and_assoc]
      refine and_congr_right fun positive => and_congr_left fun _ => ?_
      cases number event with
      | none => simpa using Nat.zero_lt_of_lt positive
      | some n => simp

/-- Events without a number leave the mark. -/
theorem mark_of_none {number : ε → Option Nat} {start : Nat} : ∀ {trace : List ε},
    (∀ event ∈ trace, number event = none) → mark number start trace = start
  | [], _ => rfl
  | event :: rest, silent => by
      have here : mark number start (event :: rest) = mark number start rest := by
        simp [mark, silent event List.mem_cons_self]
      rw [here]
      exact mark_of_none fun other member => silent other (List.mem_cons_of_mem event member)

theorem mark_append_of_none {number : ε → Option Nat} {start : Nat} (trace : List ε) {events : List ε}
    (silent : ∀ event ∈ events, number event = none) :
    mark number start (trace ++ events) = mark number start trace := by
  rw [mark_append, mark_of_none silent]

/-- Numbers that each exceed the mark before them strictly increase. -/
theorem pairwise_of_marks {number : ε → Option Nat} {trace : List ε}
    (climbs : Always (fun past event => ∀ n, number event = some n → mark number 0 past < n) trace) :
    (trace.filterMap number).Pairwise (· < ·) := by
  induction trace using List.reverseRecOn with
  | nil => exact List.Pairwise.nil
  | append_singleton trace event ih =>
      rw [always_append, alwaysFrom_cons] at climbs
      rw [List.filterMap_append, List.pairwise_append]
      refine ⟨ih climbs.1, ?_, fun n earlier later member => ?_⟩
      · cases numbered : number event <;> simp [numbered]
      · obtain ⟨other, among, numbered⟩ := List.mem_filterMap.mp earlier
        obtain ⟨last, isLast, numberedLast⟩ := List.mem_filterMap.mp member
        rw [List.mem_singleton] at isLast
        subst isLast
        exact (mark_lt_iff.mp (climbs.2.1 later numberedLast)).2 other among n numbered

/-! ### Ledgers -/

/-- How events open sessions and use numbers. -/
structure Ledger (ε κ : Type) where
  opens : ε → Option κ
  uses : ε → Option (κ × Nat)

namespace Ledger

variable (ledger : Ledger ε κ)

/-- The session after one more event. -/
def advance (session : Option (κ × Nat)) (event : ε) : Option (κ × Nat) :=
  match ledger.opens event with
  | some key => some (key, 0)
  | none => (ledger.uses event).or session

/-- The key a trace opened last, and the number it used last under it. -/
def session (trace : List ε) : Option (κ × Nat) := trace.foldl ledger.advance none

/-- The keys a trace opens, in order. -/
def opened (trace : List ε) : List κ := trace.filterMap ledger.opens

/-- An event uses a number only under the key of the session and above its mark. -/
def Rises (past : List ε) (event : ε) : Prop :=
  ∀ key number, ledger.uses event = some (key, number) →
    ledger.opens event = none ∧ ∃ mark, ledger.session past = some (key, mark) ∧ mark < number

/-- Where two events use numbers under one key, the first number is the smaller one. -/
def Before (first second : ε) : Prop :=
  ∀ key number later, ledger.uses first = some (key, number) →
    ledger.uses second = some (key, later) → number < later

variable {ledger}

@[simp] theorem session_nil : ledger.session [] = none := rfl

@[simp] theorem session_concat (trace : List ε) (event : ε) :
    ledger.session (trace ++ [event]) = ledger.advance (ledger.session trace) event := by
  rw [session, List.foldl_append]
  rfl

theorem session_append (first second : List ε) :
    ledger.session (first ++ second) = second.foldl ledger.advance (ledger.session first) :=
  List.foldl_append

@[simp] theorem opened_append (first second : List ε) :
    ledger.opened (first ++ second) = ledger.opened first ++ ledger.opened second :=
  List.filterMap_append

/-- What a trace that follows the rule has done with its keys. -/
structure Kept (ledger : Ledger ε κ) (trace : List ε) : Prop where
  ordered : trace.Pairwise ledger.Before
  under : ∀ event ∈ trace, ∀ key number, ledger.uses event = some (key, number) →
    key ∈ ledger.opened trace
  marked : ∀ key mark, ledger.session trace = some (key, mark) → key ∈ ledger.opened trace ∧
    ∀ event ∈ trace, ∀ number, ledger.uses event = some (key, number) → number ≤ mark

theorem opened_subset (trace : List ε) (event : ε) :
    ledger.opened trace ⊆ ledger.opened (trace ++ [event]) := by
  rw [opened_append]
  exact List.subset_append_left _ _

/-- An event that opens a key nothing has been used under starts its mark. -/
theorem Kept.marked_of_opens {trace : List ε} {event : ε} {key : κ} (kept : ledger.Kept trace)
    (rises : ledger.Rises trace event) (opens : ledger.opens event = some key)
    (fresh : key ∉ ledger.opened trace) :
    ∀ earlier ∈ trace ++ [event], ∀ number, ledger.uses earlier = some (key, number) → number ≤ 0 := by
  refine List.forall_mem_append.mpr ⟨fun earlier member number uses => ?_, ?_⟩
  · exact absurd (kept.under earlier member key number uses) fresh
  · refine List.forall_mem_singleton.mpr fun number uses => ?_
    rw [(rises key number uses).1] at opens
    cases opens

/-- Any other event moves the mark to the number it uses. -/
theorem Kept.marked_of_uses {trace : List ε} {event : ε} {key : κ} {mark : Nat}
    (kept : ledger.Kept trace) (rises : ledger.Rises trace event)
    (current : (ledger.uses event).or (ledger.session trace) = some (key, mark)) :
    key ∈ ledger.opened trace ∧
      ∀ earlier ∈ trace ++ [event], ∀ number, ledger.uses earlier = some (key, number) →
        number ≤ mark := by
  cases usesLast : ledger.uses event with
  | none =>
      rw [usesLast, Option.none_or] at current
      obtain ⟨member, bounded⟩ := kept.marked key mark current
      refine ⟨member, List.forall_mem_append.mpr ⟨bounded, ?_⟩⟩
      refine List.forall_mem_singleton.mpr fun number uses => ?_
      rw [usesLast] at uses
      cases uses
  | some used =>
      rw [usesLast, Option.some_or, Option.some.injEq] at current
      subst current
      obtain ⟨-, before, session, above⟩ := rises key mark usesLast
      obtain ⟨member, bounded⟩ := kept.marked key before session
      refine ⟨member, List.forall_mem_append.mpr ⟨fun earlier among number uses => ?_, ?_⟩⟩
      · exact Nat.le_trans (bounded earlier among number uses) (Nat.le_of_lt above)
      · refine List.forall_mem_singleton.mpr fun number uses => ?_
        rw [usesLast] at uses
        cases uses
        exact Nat.le_refl _

/-- One more event that follows the rule and opens no key a second time. -/
theorem Kept.concat {trace : List ε} {event : ε} (kept : ledger.Kept trace)
    (rises : ledger.Rises trace event)
    (fresh : ∀ key, ledger.opens event = some key → key ∉ ledger.opened trace) :
    ledger.Kept (trace ++ [event]) := by
  refine ⟨?_, ?_, ?_⟩
  · refine List.pairwise_append.mpr ⟨kept.ordered, List.pairwise_singleton _ _, ?_⟩
    intro earlier member
    refine List.forall_mem_singleton.mpr fun key number later usesEarlier usesLast => ?_
    obtain ⟨-, mark, current, above⟩ := rises key later usesLast
    have atMost := (kept.marked key mark current).2 earlier member number usesEarlier
    exact Nat.lt_of_le_of_lt atMost above
  · refine List.forall_mem_append.mpr ⟨fun earlier member key number uses => ?_, ?_⟩
    · exact opened_subset trace event (kept.under earlier member key number uses)
    · refine List.forall_mem_singleton.mpr fun key number uses => ?_
      obtain ⟨-, mark, current, -⟩ := rises key number uses
      exact opened_subset trace event (kept.marked key mark current).1
  · intro key mark current
    rw [session_concat, advance] at current
    cases opens : ledger.opens event with
    | some opening =>
        rw [opens] at current
        cases current
        exact ⟨by simp [opened, opens], kept.marked_of_opens rises opens (fresh _ opens)⟩
    | none =>
        rw [opens] at current
        obtain ⟨member, bounded⟩ := kept.marked_of_uses rises current
        exact ⟨opened_subset trace event member, bounded⟩

/-- **A trace that follows the rule and opens no key twice keeps its numbers apart.** -/
theorem kept_of_rises {trace : List ε} (rises : Always ledger.Rises trace)
    (distinct : (ledger.opened trace).Nodup) : ledger.Kept trace := by
  induction trace using List.reverseRecOn with
  | nil => exact ⟨List.Pairwise.nil, by simp, by simp⟩
  | append_singleton trace event ih =>
      rw [opened_append, List.nodup_append] at distinct
      rw [always_append, alwaysFrom_cons] at rises
      refine (ih rises.1 distinct.1).concat rises.2.1 fun key opens member => ?_
      exact distinct.2.2 key member key (by simp [opened, opens]) rfl

theorem ordered {trace : List ε} (rises : Always ledger.Rises trace)
    (distinct : (ledger.opened trace).Nodup) : trace.Pairwise ledger.Before :=
  (kept_of_rises rises distinct).ordered

/-- Two events of such a trace that use one number under one key are the same event. -/
theorem eq_of_uses {trace : List ε} (ordered : trace.Pairwise ledger.Before) {first second : ε}
    {key : κ} {number : Nat} (memberFirst : first ∈ trace) (memberSecond : second ∈ trace)
    (usesFirst : ledger.uses first = some (key, number))
    (usesSecond : ledger.uses second = some (key, number)) : first = second := by
  rcases pairwise_total ordered memberFirst memberSecond with same | before | before
  · exact same
  · exact absurd (before key number number usesFirst usesSecond) (Nat.lt_irrefl _)
  · exact absurd (before key number number usesSecond usesFirst) (Nat.lt_irrefl _)

end Ledger

end Machine
