import Mathlib.Data.List.TakeWhile
import Mathlib.Data.List.Induction
import Mathlib.Order.Lattice
import Mathlib.Tactic.Common
import Mathlib.Data.List.Basic

/-!
# Shortlists

The first few of a stream in the order of a key, kept sorted while the stream is read: a newcomer goes to its place if that
is on the list, and the last one makes room. Where no two keys are equal this is the start of the whole stream sorted
(`foldl_offer`), and that is the only list with the members and the order it has (`Ranked.unique`).
-/

namespace Shortlist
variable {α κ : Type} [LinearOrder κ] {key : α → κ} {limit : Nat} {a : α} {l l' xs : List α}

/-- A newcomer to a sorted list of at most `limit`. -/
def offer (key : α → κ) (limit : Nat) (l : List α) (a : α) : List α :=
  let place := (l.takeWhile fun b => decide (key b < key a)).length
  if place < limit then (if l.length = limit then l.dropLast else l).insertIdx place a else l

/-- The members of `xs`, by ascending key. -/
structure Ranked (key : α → κ) (xs l : List α) : Prop where
  perm : l.Perm xs
  sorted : l.Pairwise fun a b => key a < key b

def place (key : α → κ) (a : α) (l : List α) : List α :=
  l.takeWhile (fun b => decide (key b < key a)) ++ a :: l.dropWhile fun b => decide (key b < key a)

theorem Ranked.nil : Ranked key [] [] := ⟨.nil, .nil⟩

theorem Ranked.unique (h : Ranked key xs l) (h' : Ranked key xs l') : l = l' := by
  refine (h.perm.trans h'.perm.symm).eq_of_pairwise (fun a b _ _ hab hba => ?_) h.sorted h'.sorted
  exact absurd hab (lt_asymm hba)

theorem Ranked.congr {ys : List α} (h : Ranked key xs l) (hperm : xs.Perm ys) : Ranked key ys l := ⟨h.perm.trans hperm, h.sorted⟩

theorem Ranked.place (h : Ranked key xs l) (hnew : ∀ b ∈ xs, key b ≠ key a) : Ranked key (a :: xs) (Shortlist.place key a l) := by
  have hsplit := List.takeWhile_append_dropWhile (p := fun b => decide (key b < key a)) (l := l)
  have hsorted := h.sorted
  rw [← hsplit, List.pairwise_append] at hsorted
  obtain ⟨hfront, hback, hcross⟩ := hsorted
  have hless : ∀ b ∈ l.takeWhile fun b => decide (key b < key a), key b < key a := by
    intro b hb
    have htrue := List.mem_takeWhile_imp hb
    exact of_decide_eq_true htrue
  have hmore : ∀ b ∈ l.dropWhile fun b => decide (key b < key a), key a < key b := by
    intro b hb
    have hne := hnew b (h.perm.subset (List.dropWhile_subset _ hb))
    cases hdrop : l.dropWhile fun b => decide (key b < key a) with
    | nil => rw [hdrop] at hb; exact absurd hb List.not_mem_nil
    | cons c rest =>
      have hc : ¬ key c < key a := by
        have hhead := List.head_dropWhile_not (fun b => decide (key b < key a)) (l := l) (by rw [hdrop]; exact List.cons_ne_nil _ _)
        simp only [hdrop, List.head_cons] at hhead
        exact of_decide_eq_false hhead
      rw [hdrop] at hb hback
      rcases List.mem_cons.1 hb with rfl | hrest
      · exact lt_of_le_of_ne (not_lt.1 hc) (Ne.symm hne)
      · exact (not_lt.1 hc).trans_lt ((List.pairwise_cons.1 hback).1 b hrest)
  refine ⟨?_, List.pairwise_append.2 ⟨hfront, List.pairwise_cons.2 ⟨hmore, hback⟩, fun b hb c hc => ?_⟩⟩
  · refine List.perm_middle.trans (.cons a ?_)
    rw [hsplit]
    exact h.perm
  · rcases List.mem_cons.1 hc with rfl | hc
    · exact hless b hb
    · exact (hless b hb).trans (hmore c hc)

theorem insertIdx_length_append (front back : List α) : (front ++ back).insertIdx front.length a = front ++ a :: back := by
  induction front with
  | nil => rfl
  | cons b front ih => exact congrArg (b :: ·) ih

theorem dropLast_take : (if (l.take limit).length = limit then (l.take limit).dropLast else l.take limit) = l.take (limit - 1) := by
  by_cases hfull : (l.take limit).length = limit
  · rw [if_pos hfull, List.dropLast_eq_take, hfull, List.take_take, Nat.min_eq_left (Nat.sub_le _ _)]
  · rw [if_neg hfull]
    rw [List.length_take] at hfull
    rw [List.take_of_length_le (by omega), List.take_of_length_le (by omega)]

theorem offer_take : offer key limit (l.take limit) a = (place key a l).take limit := by
  have hsplit := List.takeWhile_append_dropWhile (p := fun b => decide (key b < key a)) (l := l)
  unfold offer place
  rw [← List.take_takeWhile, List.length_take, dropLast_take]
  dsimp only
  generalize l.takeWhile (fun b => decide (key b < key a)) = front at hsplit ⊢
  generalize l.dropWhile (fun b => decide (key b < key a)) = back at hsplit ⊢
  subst hsplit
  by_cases hplace : front.length < limit
  · rw [Nat.min_eq_right hplace.le, if_pos hplace, List.take_append, List.take_of_length_le (by omega), insertIdx_length_append, List.take_append,
      List.take_of_length_le hplace.le]
    have hone : limit - front.length = (limit - 1 - front.length) + 1 := by omega
    rw [hone, List.take_succ_cons]
  · rw [Nat.min_eq_left (not_lt.1 hplace), if_neg (lt_irrefl _), List.take_append_of_le_length (not_lt.1 hplace),
      List.take_append_of_le_length (not_lt.1 hplace)]

theorem exists_ranked (hdistinct : xs.Pairwise fun a b => key a ≠ key b) : ∃ l, Ranked key xs l := by
  induction xs with
  | nil => exact ⟨[], .nil⟩
  | cons a xs ih =>
    rw [List.pairwise_cons] at hdistinct
    obtain ⟨l, hl⟩ := ih hdistinct.2
    exact ⟨place key a l, hl.place fun b hb => (hdistinct.1 b hb).symm⟩

theorem mergeSort_ranked (hdistinct : xs.Pairwise fun a b => key a ≠ key b) : Ranked key xs (xs.mergeSort fun a b => decide (key a ≤ key b)) := by
  have hperm := List.mergeSort_perm xs fun a b => decide (key a ≤ key b)
  have hsorted := List.pairwise_mergeSort (show ∀ a b c : α, decide (key a ≤ key b) = true → decide (key b ≤ key c) = true → decide (key a ≤ key c) = true from fun a b c hab hbc => by
    rw [decide_eq_true_eq] at hab hbc ⊢
    exact hab.trans hbc) (fun a b => by
    rw [Bool.or_eq_true, decide_eq_true_eq, decide_eq_true_eq]
    exact le_total _ _) xs
  have hne := hdistinct.perm hperm.symm fun h => h.symm
  refine ⟨hperm, (hsorted.and hne).imp fun hab => ?_⟩
  exact lt_of_le_of_ne (of_decide_eq_true hab.1) hab.2

/-- Offering one after the other gives the start of the list of all. -/
theorem foldl_offer (hdistinct : xs.Pairwise fun a b => key a ≠ key b) (h : Ranked key xs l) : xs.foldl (offer key limit) [] = l.take limit := by
  induction xs using List.reverseRecOn generalizing l with
  | nil => rw [h.unique .nil, List.take_nil, List.foldl_nil]
  | append_singleton xs a ih =>
    rw [List.pairwise_append] at hdistinct
    obtain ⟨l', hl'⟩ := exists_ranked hdistinct.1
    have hplace := (hl'.place fun b hb => hdistinct.2.2 b hb a (List.mem_singleton.2 rfl)).congr (List.perm_append_singleton a xs).symm
    rw [List.foldl_append, ih hdistinct.1 hl', List.foldl_cons, List.foldl_nil, offer_take, h.unique hplace]

end Shortlist

/-!
## Picking what is not barred

Going through a list, an item is picked unless those picked before bar it. Nothing else keeps an item out (`bars_of_not_mem`), and
whatever a pick preserves holds of all the picked ones (`pick_keeps`).
-/

namespace Picking
variable {α : Type} {bars : List α → α → Bool} {shown l front back : List α} {a : α} {limit : Nat}

def pick (bars : List α → α → Bool) (shown : List α) : List α → List α
  | [] => []
  | a :: l => if bars shown a then pick bars shown l else a :: pick bars (shown ++ [a]) l

theorem pick_cons_of_bars (h : bars shown a = true) : pick bars shown (a :: l) = pick bars shown l := if_pos h

theorem pick_cons_of_free (h : bars shown a = false) : pick bars shown (a :: l) = a :: pick bars (shown ++ [a]) l :=
  if_neg (Bool.eq_false_iff.1 h)

theorem pick_sublist : (pick bars shown l).Sublist l := by
  induction l generalizing shown with
  | nil => exact .slnil
  | cons a l ih =>
    unfold pick
    split
    · exact ih.cons a
    · exact ih.cons_cons a

theorem pick_append : pick bars shown (front ++ back) = pick bars shown front ++ pick bars (shown ++ pick bars shown front) back := by
  induction front generalizing shown with
  | nil => rw [pick, List.nil_append, List.nil_append, List.append_nil]
  | cons a front ih =>
    rw [List.cons_append]
    cases hbars : bars shown a with
    | true =>
      rw [pick_cons_of_bars hbars, pick_cons_of_bars hbars]
      exact ih
    | false => rw [pick_cons_of_free hbars, pick_cons_of_free hbars, ih, List.cons_append, List.append_assoc, List.singleton_append]

theorem pick_all (h : ∀ shown a, bars shown a = false) : pick bars shown l = l := by
  induction l generalizing shown with
  | nil => rfl
  | cons a l ih => rw [pick_cons_of_free (h shown a), ih]

theorem pick_ne_nil (h : ∀ a, bars [] a = false) (hl : l ≠ []) : pick bars [] l ≠ [] := by
  cases l with
  | nil => exact absurd rfl hl
  | cons a l =>
    rw [pick_cons_of_free (h a)]
    exact List.cons_ne_nil _ _

theorem pick_keeps {P : List α → Prop} (hstep : ∀ shown a, P shown → bars shown a = false → P (shown ++ [a])) (h : P shown) :
    P (shown ++ pick bars shown l) := by
  induction l generalizing shown with
  | nil =>
    rw [pick, List.append_nil]
    exact h
  | cons a l ih =>
    cases hbars : bars shown a with
    | true =>
      rw [pick_cons_of_bars hbars]
      exact ih h
    | false =>
      rw [pick_cons_of_free hbars, List.append_cons]
      exact ih (hstep shown a h hbars)

/-- An item that was not picked was barred, unless there was no room before it. -/
theorem bars_of_not_mem (h : a ∉ (pick bars [] (front ++ a :: back)).take limit) :
    bars (pick bars [] front) a = true ∨ limit ≤ (pick bars [] front).length := by
  by_contra hnot
  rw [not_or, Bool.not_eq_true, Nat.not_le] at hnot
  obtain ⟨hfree, hroom⟩ := hnot
  rw [pick_append, List.nil_append, pick_cons_of_free hfree, List.take_append, List.take_of_length_le (Nat.le_of_lt hroom)] at h
  obtain ⟨k, hk⟩ : ∃ k, limit - (pick bars [] front).length = k + 1 := ⟨_, (Nat.succ_pred_eq_of_pos (Nat.sub_pos_of_lt hroom)).symm⟩
  rw [hk, List.take_succ_cons] at h
  exact h (List.mem_append_right _ List.mem_cons_self)

end Picking
