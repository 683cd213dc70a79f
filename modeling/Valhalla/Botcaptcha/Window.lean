import Valhalla.Lib.Maps
import Valhalla.Botcaptcha.Challenge

/-!
# The one-use window (`window.rs`)

A window holds the consumed scopes whose challenges have not expired, and how many of them each subject holds.
The counts always agree with the entries, and both stay within their limits.
-/

namespace Valhalla.Botcaptcha
open Fallible FixedWidth

def maxOpenChallenges : Nat := 4096
def maxOpenPerSubject : Nat := 64

inductive WindowError
  | replay | equivocation | capacity | subjectCapacity
deriving DecidableEq, Repr

structure Entry where
  responseHash : Bytes32
  expiresAt : UInt64
  subjectKey : Bytes32
deriving DecidableEq

structure OneUseWindow where
  entries : Std.ExtTreeMap Bytes32 Entry compare
  perSubject : Std.ExtTreeMap Bytes32 Nat compare
deriving DecidableEq

namespace OneUseWindow

def new : OneUseWindow := ⟨∅, ∅⟩

variable (w : OneUseWindow)

/-- What consuming `scopeKey` for `responseHash` would return, without changing anything. -/
def peek (scopeKey responseHash : Bytes32) : Option WindowError :=
  match w.entries[scopeKey]? with
  | some entry => some (if entry.responseHash = responseHash then .replay else .equivocation)
  | none => none

/-- The checks of `consume`; the number of entries the subject holds. -/
def admissible (scopeKey subjectKey responseHash : Bytes32) : Except WindowError Nat := do
  match w.peek scopeKey responseHash with
  | some error => throw error
  | none => pure ()
  Check.require .capacity !decide (w.entries.size ≥ maxOpenChallenges)
  let held := w.perSubject[subjectKey]?.getD 0
  Check.require .subjectCapacity !decide (held ≥ maxOpenPerSubject)
  pure held

/-- Consumes `scopeKey` for `responseHash`, retaining the entry until `expiresAt`. -/
def consume (scopeKey subjectKey responseHash : Bytes32) (expiresAt : UInt64) : Fallible WindowError OneUseWindow Unit := do
  let held ← examine fun w => w.admissible scopeKey subjectKey responseHash
  update fun w => { w with entries := w.entries.insert scopeKey ⟨responseHash, expiresAt, subjectKey⟩ }
  update fun w => { w with perSubject := w.perSubject.insert subjectKey (held + 1) }

/-- Removes the entries whose `expiresAt < now`, in key order, each with its count. -/
def prune (now : UInt64) : OneUseWindow where
  entries := w.entries.filter fun _ entry => entry.expiresAt ≥ now
  perSubject := (w.entries.toList.filter fun (_, entry) => !decide (entry.expiresAt ≥ now)).foldl
    (fun perSubject (_, entry) => Maps.uncount perSubject entry.subjectKey) w.perSubject

def heldBy (subjectKey : Bytes32) : Nat := w.perSubject[subjectKey]?.getD 0

/-! ### Accounting -/

def subjects : List Bytes32 := w.entries.toList.map (·.2.subjectKey)

def openOf (subjectKey : Bytes32) : Nat := w.subjects.count subjectKey

/-- The counts are right and within the limits. -/
structure Accounted : Prop where
  tally : Maps.Tally w.perSubject w.subjects
  perSubject : ∀ subjectKey, w.openOf subjectKey ≤ maxOpenPerSubject
  total : w.entries.size ≤ maxOpenChallenges

/-- The windows that can be built. -/
inductive Reachable : OneUseWindow → Prop
  | new : Reachable new
  | consume {w w' : OneUseWindow} {r : Except WindowError Unit} {scopeKey subjectKey responseHash : Bytes32}
    {expiresAt : UInt64} : Reachable w → exec (consume scopeKey subjectKey responseHash expiresAt) w = (r, w') →
      Reachable w'
  | prune {w : OneUseWindow} (now : UInt64) : Reachable w → Reachable (w.prune now)

variable {w} {w' : OneUseWindow} {scopeKey subjectKey responseHash : Bytes32} {expiresAt now : UInt64}

theorem Accounted.heldBy_eq (h : w.Accounted) (subjectKey : Bytes32) : w.heldBy subjectKey = w.openOf subjectKey :=
  h.tally.counted_eq subjectKey

theorem peek_eq_none : w.peek scopeKey responseHash = none ↔ w.entries[scopeKey]? = none := by
  unfold peek
  cases w.entries[scopeKey]? <;> simp

def inserted (w : OneUseWindow) (scopeKey subjectKey responseHash : Bytes32) (expiresAt : UInt64) : OneUseWindow where
  entries := w.entries.insert scopeKey ⟨responseHash, expiresAt, subjectKey⟩
  perSubject := Maps.count w.perSubject subjectKey

theorem exec_consume (w : OneUseWindow) (scopeKey subjectKey responseHash : Bytes32) (expiresAt : UInt64) :
    (∃ error, exec (consume scopeKey subjectKey responseHash expiresAt) w = (.error error, w)) ∨
      (exec (consume scopeKey subjectKey responseHash expiresAt) w =
          (.ok (), w.inserted scopeKey subjectKey responseHash expiresAt) ∧
        w.entries[scopeKey]? = none ∧ w.entries.size < maxOpenChallenges ∧ w.heldBy subjectKey < maxOpenPerSubject) := by
  rw [consume, exec_examine_bind]
  unfold admissible
  cases hpeek : w.peek scopeKey responseHash with
  | some error => exact .inl ⟨error, rfl⟩
  | none =>
    by_cases hsize : w.entries.size ≥ maxOpenChallenges
    · refine .inl ⟨.capacity, ?_⟩
      simp [Check.require, hsize]
      rfl
    by_cases hheld : w.perSubject[subjectKey]?.getD 0 ≥ maxOpenPerSubject
    · refine .inl ⟨.subjectCapacity, ?_⟩
      simp [Check.require, hsize, hheld]
      rfl
    · refine .inr ⟨?_, peek_eq_none.1 hpeek, Nat.lt_of_not_ge hsize, Nat.lt_of_not_ge hheld⟩
      simp [Check.require, hsize, hheld]
      rfl

theorem subjects_inserted (subjectKey responseHash : Bytes32) (expiresAt : UInt64) (h : w.entries[scopeKey]? = none) :
    (w.inserted scopeKey subjectKey responseHash expiresAt).subjects.Perm (subjectKey :: w.subjects) := by
  have hperm := (Maps.toList_insert_perm (v := Entry.mk responseHash expiresAt subjectKey) h).map (·.2.subjectKey)
  exact hperm

theorem Accounted.inserted (h : w.Accounted) (hnone : w.entries[scopeKey]? = none)
    (hsize : w.entries.size < maxOpenChallenges) (hheld : w.heldBy subjectKey < maxOpenPerSubject) :
    (w.inserted scopeKey subjectKey responseHash expiresAt).Accounted := by
  have hperm := subjects_inserted subjectKey responseHash expiresAt hnone
  refine ⟨h.tally.count.perm hperm.symm, fun s => ?_, ?_⟩
  · rw [openOf, hperm.count_eq, List.count_cons]
    by_cases hs : subjectKey = s
    · subst hs
      rw [h.heldBy_eq, openOf] at hheld
      simp only [beq_self_eq_true, if_true]
      omega
    · have hle := h.perSubject s
      rw [openOf] at hle
      simpa [hs] using hle
  · have hle := Std.ExtTreeMap.size_insert_le (t := w.entries) (k := scopeKey) (v := ⟨responseHash, expiresAt, subjectKey⟩)
    show (w.entries.insert scopeKey _).size ≤ _
    omega

theorem subjects_prune (w : OneUseWindow) (now : UInt64) :
    ((w.entries.toList.filter fun e => !decide (e.2.expiresAt ≥ now)).map (·.2.subjectKey) ++
      (w.prune now).subjects).Perm w.subjects := by
  have h := (Maps.toList_filter_append_perm (m := w.entries) fun _ entry => decide (entry.expiresAt ≥ now)).map
    (·.2.subjectKey)
  rw [List.map_append] at h
  exact h

theorem Accounted.prune (h : w.Accounted) (now : UInt64) : (w.prune now).Accounted := by
  have hperm := subjects_prune w now
  refine ⟨?_, fun s => ?_, ?_⟩
  · have htally := (h.tally.perm hperm.symm).uncountAll
    rw [List.foldl_map] at htally
    exact htally
  · refine Nat.le_trans ?_ (h.perSubject s)
    rw [openOf, openOf, ← hperm.count_eq, List.count_append]
    exact Nat.le_add_left _ _
  · exact Nat.le_trans Std.ExtTreeMap.size_filter_le_size h.total

theorem Accounted.new : OneUseWindow.new.Accounted where
  tally := .empty
  perSubject _ := Nat.zero_le _
  total := by simp [OneUseWindow.new]

theorem Accounted.consume (h : w.Accounted) {r : Except WindowError Unit}
    (he : exec (OneUseWindow.consume scopeKey subjectKey responseHash expiresAt) w = (r, w')) : w'.Accounted := by
  rcases exec_consume w scopeKey subjectKey responseHash expiresAt with
    ⟨error, hexec⟩ | ⟨hexec, hnone, hsize, hheld⟩
  · rw [hexec] at he
    cases he
    exact h
  · rw [hexec] at he
    cases he
    exact h.inserted hnone hsize hheld

theorem Reachable.accounted (h : w.Reachable) : w.Accounted := by
  induction h with
  | new => exact .new
  | consume _ he ih => exact ih.consume he
  | prune now _ ih => exact ih.prune now

theorem getElem?_prune {entry : Entry} (now : UInt64) (h : w.entries[scopeKey]? = some entry) :
    (w.prune now).entries[scopeKey]? = some entry ∨ entry.expiresAt < now := by
  by_cases hle : entry.expiresAt ≥ now
  · refine .inl ?_
    rw [prune, Std.ExtTreeMap.getElem?_filter', h]
    simp [hle]
  · exact .inr (UInt64.not_le.1 hle)

end OneUseWindow

end Valhalla.Botcaptcha
