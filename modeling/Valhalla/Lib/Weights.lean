import Mathlib.Data.List.Basic
import Mathlib.Algebra.BigOperators.Group.List.Basic
import Mathlib.Algebra.Ring.Nat
import Mathlib.Tactic.Common

/-!
# Weighted majorities

The weight of a list of voters, and the intersection of two majorities: voters that together hold more than two
thirds of the weight have, in any two such selections, more than one third of it in common.
-/

namespace Weights
variable {α : Type} {w : α → Nat} {l l' : List α} {p q : α → Bool}

def total (w : α → Nat) (l : List α) : Nat := (l.map w).sum

@[simp] theorem total_nil : total w [] = 0 := rfl

@[simp] theorem total_cons (a : α) : total w (a :: l) = w a + total w l := List.sum_cons

theorem total_append : total w (l ++ l') = total w l + total w l' := by
  rw [total, List.map_append, List.sum_append]
  rfl

theorem total_perm (h : l.Perm l') : total w l = total w l' := (h.map w).sum_eq

theorem total_map {β : Type} {f : β → α} {l : List β} : total w (l.map f) = total (fun b => w (f b)) l := by
  rw [total, total, List.map_map]
  rfl

theorem total_congr {w' : α → Nat} (h : ∀ a ∈ l, w a = w' a) : total w l = total w' l := by
  rw [total, total, List.map_congr_left h]

theorem total_sublist_le (h : l.Sublist l') : total w l ≤ total w l' := by
  induction h with
  | slnil => exact Nat.le_refl _
  | cons a _ ih => exact Nat.le_trans ih (by rw [total_cons]; exact Nat.le_add_left ..)
  | cons_cons a _ ih => rw [total_cons, total_cons]; exact Nat.add_le_add_left ih _

/-- A selection without repetitions weighs no more than what it is taken from. -/
theorem total_le_of_nodup (h : l.Nodup) (hsub : ∀ a ∈ l, a ∈ l') : total w l ≤ total w l' := by
  obtain ⟨l₁, hperm, hsublist⟩ := List.subperm_of_subset h hsub
  rw [← total_perm hperm]
  exact total_sublist_le hsublist

theorem total_filter_le : total w (l.filter p) ≤ total w l := by
  induction l with
  | nil => exact Nat.le_refl _
  | cons a l ih =>
    rw [List.filter_cons]
    split
    · rw [total_cons, total_cons]
      omega
    · rw [total_cons]
      omega

/-- Two selections weigh at most the whole and what they have in common. -/
theorem total_filter_add_le :
    total w (l.filter p) + total w (l.filter q) ≤ total w l + total w (l.filter fun a => p a && q a) := by
  induction l with
  | nil => exact Nat.le_refl _
  | cons a l ih =>
    simp only [List.filter_cons, total_cons]
    cases hp : p a <;> cases hq : q a <;>
      simp only [Bool.and_self, Bool.and_true, Bool.and_false, if_true, if_false, Bool.false_eq_true, total_cons] <;> omega

/-- Two majorities of more than two thirds share more than one third. -/
theorem third_lt_common (hp : 2 * total w l < 3 * total w (l.filter p)) (hq : 2 * total w l < 3 * total w (l.filter q)) :
    total w l < 3 * total w (l.filter fun a => p a && q a) := by
  have h := total_filter_add_le (w := w) (l := l) (p := p) (q := q)
  omega

end Weights
