import Mathlib.Data.List.Nodup
import Mathlib.Tactic.Common

/-!
# Association lists

A finite map as a list of entries with distinct keys, for keys without an order. `put` and `remove` keep the keys
distinct; `get` sees exactly the entry written last; counting keys bounds what a map can hold.
-/

namespace Assoc
variable {κ ν : Type} [DecidableEq κ] {m : List (κ × ν)} {k a : κ} {v : ν}

def get (m : List (κ × ν)) (k : κ) : Option ν := (m.find? fun e => e.1 = k).map Prod.snd
def remove (m : List (κ × ν)) (k : κ) : List (κ × ν) := m.filter fun e => e.1 ≠ k
def put (m : List (κ × ν)) (k : κ) (v : ν) : List (κ × ν) := (k, v) :: remove m k

/-- No key has two entries. -/
def Distinct (m : List (κ × ν)) : Prop := (m.map Prod.fst).Nodup

@[simp] theorem get_nil : get ([] : List (κ × ν)) k = none := rfl

theorem get_cons {e : κ × ν} : get (e :: m) k = if e.1 = k then some e.2 else get m k := by
  unfold get
  by_cases he : e.1 = k
  · rw [if_pos he, List.find?_cons_of_pos (by simpa using he)]
    rfl
  · rw [if_neg he, List.find?_cons_of_neg (by simpa using he)]

theorem get_remove : get (remove m k) a = if k = a then none else get m a := by
  induction m with
  | nil => simp [remove]
  | cons e m ih =>
    rw [remove, List.filter_cons, get_cons]
    by_cases he : e.1 = k
    · rw [if_neg (by simpa using he)]
      refine ih.trans ?_
      rw [he]
      split <;> rfl
    · rw [if_pos (by simpa using he), get_cons]
      by_cases hk : k = a
      · rw [if_pos hk, if_neg (hk ▸ he)]
        exact ih.trans (if_pos hk)
      · rw [if_neg hk]
        refine congrArg (ite _ _) (ih.trans (if_neg hk))

theorem get_put : get (put m k v) a = if k = a then some v else get m a := by
  rw [put, get_cons, get_remove]
  split <;> rfl

theorem mem_of_get (h : get m k = some v) : (k, v) ∈ m := by
  obtain ⟨⟨k', v'⟩, he, rfl⟩ := Option.map_eq_some_iff.1 h
  obtain rfl : k' = k := by simpa using List.find?_some he
  exact List.mem_of_find?_eq_some he

theorem get_of_mem (hm : Distinct m) (h : (k, v) ∈ m) : get m k = some v := by
  induction m with
  | nil => cases h
  | cons e m ih =>
    obtain ⟨hnot, hdistinct⟩ : e.1 ∉ m.map Prod.fst ∧ Distinct m := List.nodup_cons.1 hm
    rw [get_cons]
    rcases List.mem_cons.1 h with rfl | h
    · exact if_pos rfl
    · have hne : e.1 ≠ k := fun he => hnot (he ▸ List.mem_map_of_mem (f := Prod.fst) h)
      rw [if_neg hne]
      exact ih hdistinct h

theorem get_eq_some (hm : Distinct m) : get m k = some v ↔ (k, v) ∈ m := ⟨mem_of_get, get_of_mem hm⟩

omit [DecidableEq κ] in
theorem Distinct.filter {p : κ × ν → Bool} (hm : Distinct m) : Distinct (m.filter p) :=
  hm.sublist (List.filter_sublist.map Prod.fst)

theorem Distinct.remove (hm : Distinct m) : Distinct (remove m k) := hm.filter

theorem Distinct.put (hm : Distinct m) : Distinct (put m k v) := by
  refine List.nodup_cons.2 ⟨fun h => ?_, hm.remove⟩
  obtain ⟨e, he, hk⟩ := List.mem_map.1 h
  exact absurd hk (by simpa using (List.mem_filter.1 he).2)

theorem get_filter {p : κ × ν → Bool} (hm : Distinct m) : get (m.filter p) k = (get m k).filter fun v => p (k, v) := by
  ext v
  rw [get_eq_some hm.filter, List.mem_filter, Option.filter_eq_some_iff, get_eq_some hm]

/-! ### Counting keys -/

/-- How many keys satisfy `p`. -/
def count (p : κ → Bool) (m : List (κ × ν)) : Nat := (m.filter fun e => p e.1).length

theorem count_remove_le {p : κ → Bool} : count p (remove m k) ≤ count p m :=
  (List.filter_sublist.filter _).length_le

omit [DecidableEq κ] in
theorem count_filter_le {p : κ → Bool} {q : κ × ν → Bool} : count p (m.filter q) ≤ count p m :=
  (List.filter_sublist.filter _).length_le

theorem count_put_le {p : κ → Bool} : count p (put m k v) ≤ count p m + 1 := by
  have h := count_remove_le (p := p) (m := m) (k := k)
  unfold count at h ⊢
  rw [put, List.filter_cons]
  split
  · exact Nat.succ_le_succ h
  · omega

theorem count_put_of_not {p : κ → Bool} (hk : p k = false) : count p (put m k v) ≤ count p m := by
  have h := count_remove_le (p := p) (m := m) (k := k)
  unfold count at h ⊢
  rw [put, List.filter_cons_of_neg (by simp [hk])]
  exact h

theorem count_put_of_get {p : κ → Bool} {v' : ν} (h : get m k = some v') : count p (put m k v) ≤ count p m := by
  cases hk : p k with
  | false => exact count_put_of_not hk
  | true =>
    have hmem : (k, v') ∈ m.filter fun e => p e.1 := List.mem_filter.2 ⟨mem_of_get h, hk⟩
    have hlt : count p (remove m k) < count p m := by
      have hsub : ((remove m k).filter fun e => p e.1).Sublist (m.filter fun e => p e.1) := List.filter_sublist.filter _
      refine Nat.lt_of_le_of_ne hsub.length_le fun he => ?_
      have heq := hsub.eq_of_length he
      rw [← heq] at hmem
      have hne : k ≠ k := by simpa using (List.mem_filter.1 (List.mem_filter.1 hmem).1).2
      exact hne rfl
    unfold count at hlt ⊢
    rw [put, List.filter_cons_of_pos (by simpa using hk)]
    exact hlt

end Assoc
