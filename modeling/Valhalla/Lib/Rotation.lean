import Mathlib.Data.List.Basic
import Std.Data.ExtTreeMap

/-!
# Round robin over an ascending list

A cursor remembers the entry it visited last and goes on to the next greater one, or to the first again. The
entries it has ahead of it form a queue, and a visit moves the head of the queue to its end.
-/

namespace Rotation
variable {α : Type} (cmp : α → α → Ordering)

def nextAfter (ids : List α) (last : Option α) : Option α :=
  (last.bind fun last => ids.find? fun id => cmp id last == .gt).or ids.head?

/-- The entries in the order in which they come up. -/
def queue (ids : List α) : Option α → List α
  | none => ids
  | some last => (ids.filter fun id => cmp id last == .gt) ++ ids.filter fun id => !(cmp id last == .gt)

variable {cmp} {ids rest : List α} {last : Option α} {k : α}

theorem head?_queue : (queue cmp ids last).head? = nextAfter cmp ids last := by
  cases last with
  | none => rfl
  | some last =>
    rw [queue, nextAfter, List.head?_append, List.head?_filter, Option.bind_some]
    cases hfind : ids.find? fun id => cmp id last == .gt with
    | some k => rfl
    | none =>
      have hall : (ids.filter fun id => !(cmp id last == .gt)) = ids := by
        rw [List.filter_eq_self]
        intro id hid
        have hnot := List.find?_eq_none.1 hfind id hid
        simpa using hnot
      rw [hall]

theorem queue_perm : (queue cmp ids last).Perm ids := by
  cases last with
  | none => exact List.Perm.refl _
  | some last => exact List.filter_append_perm _ _

theorem nextAfter_mem (h : nextAfter cmp ids last = some k) : k ∈ ids := by
  rw [← head?_queue] at h
  exact queue_perm.mem_iff.1 (List.mem_of_head? h)

theorem nextAfter_eq_none : nextAfter cmp ids last = none ↔ ids = [] := by
  rw [← head?_queue, List.head?_eq_none_iff]
  exact ⟨fun h => List.Perm.nil_eq (h ▸ queue_perm) |>.symm, fun h => by subst h; cases last <;> rfl⟩

theorem nextAfter_nil : nextAfter cmp [] last = none := nextAfter_eq_none.2 rfl

theorem nextAfter_singleton : nextAfter cmp [k] last = some k := by
  rw [← head?_queue, List.perm_singleton.1 queue_perm]
  rfl

variable [Std.TransCmp cmp]

/-- The queue behind an entry: what is greater, then the entries up to it. -/
theorem queue_split {l r : List α} (h : (l ++ k :: r).Pairwise (cmp · · = .lt)) :
    queue cmp (l ++ k :: r) (some k) = r ++ (l ++ [k]) := by
  obtain ⟨-, hr, hl⟩ := List.pairwise_append.1 h
  have hself : cmp k k = .eq := Std.ReflCmp.compare_self
  have hlow : ∀ x ∈ l, cmp x k = .lt := fun x hx => hl x hx k List.mem_cons_self
  have hhigh : ∀ x ∈ r, cmp x k = .gt := fun x hx => Std.OrientedCmp.gt_of_lt ((List.pairwise_cons.1 hr).1 x hx)
  have h1 : (l.filter fun id => cmp id k == .gt) = [] := List.filter_eq_nil_iff.2 fun x hx => by simp [hlow x hx]
  have h2 : (r.filter fun id => cmp id k == .gt) = r := List.filter_eq_self.2 fun x hx => by simp [hhigh x hx]
  have h3 : (l.filter fun id => !(cmp id k == .gt)) = l := List.filter_eq_self.2 fun x hx => by simp [hlow x hx]
  have h4 : (r.filter fun id => !(cmp id k == .gt)) = [] := List.filter_eq_nil_iff.2 fun x hx => by simp [hhigh x hx]
  simp [queue, h1, h2, h3, h4, hself]

theorem filter_append_of_ascending (h : ids.Pairwise (cmp · · = .lt)) (last : α) :
    (ids.filter fun id => !(cmp id last == .gt)) ++ (ids.filter fun id => cmp id last == .gt) = ids := by
  induction ids with
  | nil => rfl
  | cons a ids ih =>
    obtain ⟨ha, h⟩ := List.pairwise_cons.1 h
    by_cases hgt : cmp a last = .gt
    · have hall : ∀ x ∈ a :: ids, cmp x last = .gt := by
        intro x hx
        obtain rfl | hx := List.mem_cons.1 hx
        · exact hgt
        · exact Std.TransCmp.gt_trans (Std.OrientedCmp.gt_of_lt (ha x hx)) hgt
      have hnone : ((a :: ids).filter fun id => !(cmp id last == .gt)) = [] :=
        List.filter_eq_nil_iff.2 fun x hx => by simp [hall x hx]
      rw [hnone, List.nil_append, List.filter_eq_self.2 fun x hx => by simp [hall x hx]]
    · have hf : (!(cmp a last == .gt)) = true := by simpa using hgt
      have hf' : (cmp a last == .gt) = false := by simpa using hgt
      rw [List.filter_cons_of_pos (by exact hf), List.filter_cons_of_neg (by simp [hgt]), List.cons_append, ih h]

theorem queue_rotate (h : ids.Pairwise (cmp · · = .lt)) (hq : queue cmp ids last = k :: rest) :
    queue cmp ids (some k) = rest ++ [k] := by
  obtain ⟨l, r, hids, hrest⟩ : ∃ l r, ids = l ++ k :: r ∧ rest = r ++ l := by
    cases last with
    | none => exact ⟨[], rest, hq, by simp⟩
    | some last =>
      have hsplit := filter_append_of_ascending h last
      rw [queue] at hq
      cases hhigh : ids.filter fun id => cmp id last == .gt with
      | nil =>
        rw [hhigh, List.nil_append] at hq
        rw [hhigh, hq, List.append_nil] at hsplit
        exact ⟨[], rest, hsplit.symm, by simp⟩
      | cons k' r =>
        rw [hhigh, List.cons_append] at hq
        obtain ⟨rfl, rfl⟩ := List.cons.inj hq
        rw [hhigh] at hsplit
        exact ⟨_, r, hsplit.symm, rfl⟩
  subst hids hrest
  rw [queue_split h, List.append_assoc]

/-- A visit further down the queue takes what stands before it along. -/
theorem queue_skip (h : ids.Pairwise (cmp · · = .lt)) {skipped : List α} (hq : queue cmp ids last = skipped ++ k :: rest) :
    queue cmp ids (some k) = rest ++ skipped ++ [k] := by
  induction skipped generalizing last rest with
  | nil =>
    rw [List.append_nil]
    exact queue_rotate h hq
  | cons j skipped ih =>
    have hq : queue cmp ids last = j :: (skipped ++ k :: rest) := hq
    have hrotated : queue cmp ids (some j) = skipped ++ k :: (rest ++ [j]) := by
      rw [queue_rotate h hq]
      simp
    rw [ih hrotated]
    simp

/-! ### The turns that an entry waits for -/

section
variable [DecidableEq α] {p : α → Bool} {j : α}

/-- How many entries come up before this one. -/
def ahead (cmp : α → α → Ordering) (ids : List α) (last : Option α) (k : α) : Nat := (queue cmp ids last).idxOf k

omit [Std.TransCmp cmp] in
theorem ahead_lt (hk : k ∈ ids) : ahead cmp ids last k < ids.length := by
  have hperm : (queue cmp ids last).Perm ids := queue_perm
  rw [ahead, ← hperm.length_eq]
  exact List.idxOf_lt_length_of_mem (hperm.mem_iff.2 hk)

omit [Std.TransCmp cmp] [DecidableEq α] in
theorem queue_filter : queue cmp (ids.filter p) last = (queue cmp ids last).filter p := by
  cases last with
  | none => rfl
  | some last =>
    rw [queue, queue, List.filter_append, List.filter_filter, List.filter_filter, List.filter_filter, List.filter_filter]
    simp only [Bool.and_comm]

theorem ahead_next (h : ids.Pairwise (cmp · · = .lt)) (hk : k ∈ ids) (hp : p k = true) (hnext : nextAfter cmp (ids.filter p) last = some j) :
    j = k ∨ ahead cmp ids (some j) k < ahead cmp ids last k := by
  rw [← head?_queue, queue_filter, List.head?_filter, List.find?_eq_some_iff_append] at hnext
  obtain ⟨-, skipped, rest, hqueue, hskipped⟩ := hnext
  have hmem : k ∈ skipped ++ j :: rest := hqueue ▸ queue_perm.mem_iff.2 hk
  have hnot : k ∉ skipped := by
    intro hmem
    have hrefused := hskipped k hmem
    rw [hp] at hrefused
    cases hrefused
  by_cases hkj : j = k
  · exact .inl hkj
  · refine .inr ?_
    have hrest : k ∈ rest := by
      rcases List.mem_append.1 hmem with hmem | hmem
      · exact absurd hmem hnot
      · rcases List.mem_cons.1 hmem with rfl | hmem
        · exact absurd rfl hkj
        · exact hmem
    rw [ahead, ahead, queue_skip h hqueue, hqueue, List.append_assoc, List.idxOf_append_of_mem hrest, List.idxOf_append_of_notMem hnot,
      List.idxOf_cons_ne _ hkj]
    omega

theorem ahead_rotate (h : ids.Pairwise (cmp · · = .lt)) (hk : k ∈ ids) (hnext : nextAfter cmp ids last = some j) :
    j = k ∨ ahead cmp ids (some j) k < ahead cmp ids last k := by
  refine ahead_next (p := fun _ => true) h hk rfl ?_
  rwa [List.filter_true]

end

end Rotation
