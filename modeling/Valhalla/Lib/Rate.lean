import Mathlib.Data.List.TakeWhile
import Mathlib.Tactic.Common

/-!
# Sliding windows

A limiter that remembers recent times only. What it has forgotten is too old to share a window with anything that
is still to come, so a bound on what it remembers bounds every window.
-/

namespace Rate
variable {span limit clock now : Nat} {times kept : List Nat}

/-- The times from `t` on, for a span. -/
def during (span t : Nat) (times : List Nat) : List Nat := times.filter fun x => decide (t ≤ x) && decide (x < t + span)

/-- No window holds more times than the limit. -/
def Limited (span limit : Nat) (times : List Nat) : Prop := ∀ t, (during span t times).length ≤ limit

/-- The limiter remembers all times but old ones. -/
def Kept (span clock : Nat) (times kept : List Nat) : Prop :=
  ∃ dropped : List Nat, times.Perm (dropped ++ kept) ∧ ∀ x ∈ dropped, x + span ≤ clock

theorem limited_nil : Limited span limit [] := fun _ => Nat.zero_le _

theorem Limited.perm {times' : List Nat} (h : Limited span limit times) (hperm : times'.Perm times) : Limited span limit times' :=
  fun t => (hperm.filter _).length_eq ▸ h t

theorem kept_nil : Kept span clock [] [] := ⟨[], .nil, fun _ hx => nomatch hx⟩

theorem Kept.perm {times' : List Nat} (h : Kept span clock times kept) (hperm : times'.Perm times) : Kept span clock times' kept := by
  obtain ⟨dropped, hsplit, hold⟩ := h
  exact ⟨dropped, hperm.trans hsplit, hold⟩

theorem Kept.later (h : Kept span clock times kept) (hle : clock ≤ now) : Kept span now times kept := by
  obtain ⟨dropped, hperm, hold⟩ := h
  exact ⟨dropped, hperm, fun x hx => Nat.le_trans (hold x hx) hle⟩

theorem Kept.dropWhile {p : Nat → Bool} (h : Kept span now times kept) (hp : ∀ x, p x = true → x + span ≤ now) :
    Kept span now times (kept.dropWhile p) := by
  obtain ⟨dropped, hperm, hold⟩ := h
  refine ⟨dropped ++ kept.takeWhile p, ?_, fun x hx => ?_⟩
  · rw [List.append_assoc, List.takeWhile_append_dropWhile]
    exact hperm
  · rcases List.mem_append.1 hx with hx | hx
    · exact hold x hx
    · exact hp x (List.mem_takeWhile_imp hx)

theorem Kept.push (h : Kept span now times kept) : Kept span now (now :: times) (kept ++ [now]) := by
  obtain ⟨dropped, hperm, hold⟩ := h
  refine ⟨dropped, ?_, hold⟩
  rw [← List.append_assoc]
  exact (hperm.cons now).trans (List.perm_append_singleton now _).symm

theorem Limited.push (h : Limited span limit times) (hkept : Kept span now times kept) (hroom : kept.length < limit) :
    Limited span limit (now :: times) := by
  intro t
  rw [during, List.filter_cons]
  split
  · rename_i hnow
    simp only [Bool.and_eq_true, decide_eq_true_eq] at hnow
    obtain ⟨dropped, hperm, hold⟩ := hkept
    -- A forgotten time lies a whole span before `now`.
    have hdropped : dropped.filter (fun x => decide (t ≤ x) && decide (x < t + span)) = [] := by
      rw [List.filter_eq_nil_iff]
      intro x hx hin
      simp only [Bool.and_eq_true, decide_eq_true_eq] at hin
      have hle := hold x hx
      omega
    have hlen : (times.filter fun x => decide (t ≤ x) && decide (x < t + span)).length ≤ kept.length := by
      rw [(hperm.filter _).length_eq, List.filter_append, hdropped, List.nil_append]
      exact List.length_filter_le _ _
    rw [List.length_cons]
    omega
  · exact h t

/-- What a filter keeps of a list is not among what is dropped from its front. -/
theorem filter_dropWhile {α : Type} {p q : α → Bool} (h : ∀ x, q x = true → p x = false) (l : List α) :
    (l.dropWhile q).filter p = l.filter p := by
  have hdropped : (l.takeWhile q).filter p = [] := by
    rw [List.filter_eq_nil_iff]
    intro x hx
    rw [h x (List.mem_takeWhile_imp hx)]
    exact Bool.false_ne_true
  rw [← List.takeWhile_append_dropWhile (p := q) (l := l), List.filter_append, hdropped, List.nil_append,
    List.takeWhile_append_dropWhile]

end Rate
