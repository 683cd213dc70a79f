import Mathlib.Algebra.BigOperators.Group.List.Basic
import Mathlib.Data.List.Nodup
import Mathlib.Tactic.Abel

/-!
# Lists of keyed entries

What `List.modify` and `List.eraseIdx` do to maps and sums, and when a lookup by position or by key
finds an entry. `sum_map_modify` is the balance law: replacing one entry changes the sum over the list
by the change at that entry.
-/

namespace List
variable {α β M : Type}

theorem map_modify_of (f : α → α) (g : α → β) (i : Nat) (l : List α) (h : ∀ a, g (f a) = g a) :
    (l.modify i f).map g = l.map g := by
  induction l generalizing i with
  | nil => simp
  | cons a l ih => cases i <;> simp [h, ih]

theorem sum_map_modify [AddCommMonoid M] (f : α → α) (g : α → M) {i : Nat} {l : List α} {a : α}
    (h : l[i]? = some a) : ((l.modify i f).map g).sum + g a = (l.map g).sum + g (f a) := by
  induction l generalizing i with
  | nil => simp at h
  | cons b l ih =>
    cases i with
    | zero =>
      obtain rfl : b = a := by simpa using h
      simp only [modify_zero_cons, map_cons, sum_cons]
      abel
    | succ i =>
      have := ih (i := i) (by simpa using h)
      simp only [modify_succ_cons, map_cons, sum_cons, add_assoc, this]

/-- Entries at different positions have different keys where the keys are distinct. -/
theorem key_ne_of_nodup {g : α → β} {l : List α} {i j : Nat} {a b : α} (h : (l.map g).Nodup)
    (hi : l[i]? = some a) (hj : l[j]? = some b) (hne : i ≠ j) : g a ≠ g b := by
  intro he
  obtain ⟨hli, rfl⟩ := getElem?_eq_some_iff.1 hi
  obtain ⟨hlj, rfl⟩ := getElem?_eq_some_iff.1 hj
  have hmi : i < (l.map g).length := by simpa using hli
  have hmj : j < (l.map g).length := by simpa using hlj
  have he' : (l.map g)[i] = (l.map g)[j] := by simpa using he
  exact hne ((Nodup.getElem_inj_iff h).1 he')

/-! ### Every entry with the entries before it -/

theorem forall_split_nil {P : List α → α → Prop} : ∀ before a after, [] = before ++ a :: after → P before a :=
  fun before a after h => by cases before <;> cases h

theorem forall_split_cons {P : List α → α → Prop} {x : α} {xs : List α} (head : P [] x)
    (tail : ∀ before a after, xs = before ++ a :: after → P (x :: before) a) :
    ∀ before a after, x :: xs = before ++ a :: after → P before a := by
  intro before a after h
  cases before with
  | nil => cases h; exact head
  | cons y before => cases h; exact tail before a after rfl

theorem snoc_eq_split {l before after : List α} {a b : α} (h : l ++ [b] = before ++ a :: after) :
    (after = [] ∧ a = b ∧ before = l) ∨ ∃ after', after = after' ++ [b] ∧ l = before ++ a :: after' := by
  rcases eq_nil_or_concat after with rfl | ⟨after', c, rfl⟩
  · obtain ⟨rfl, he⟩ := append_inj' h rfl
    cases he
    exact .inl ⟨rfl, rfl, rfl⟩
  · rw [concat_eq_append] at h ⊢
    rw [← cons_append, ← append_assoc] at h
    obtain ⟨rfl, he⟩ := append_inj' h rfl
    cases he
    exact .inr ⟨after', rfl, rfl⟩

/-! ### Lookups -/

section lookup
variable {κ : Type} [BEq κ] [LawfulBEq κ] {g : α → κ} {l : List α} {k : κ} {i : Nat}

theorem exists_getElem? (h : i < l.length) : ∃ a, l[i]? = some a := ⟨l[i], getElem?_eq_getElem h⟩

theorem exists_find? (h : k ∈ l.map g) : ∃ a, l.find? (fun a => g a == k) = some a := by
  obtain ⟨a, ha, rfl⟩ := mem_map.1 h
  exact Option.isSome_iff_exists.1 (find?_isSome.2 ⟨a, ha, by simp⟩)

theorem exists_findIdx? (h : k ∈ l.map g) : ∃ i, l.findIdx? (fun a => g a == k) = some i := by
  obtain ⟨a, ha, rfl⟩ := mem_map.1 h
  exact Option.isSome_iff_exists.1 (by simpa [findIdx?_isSome] using ⟨a, ha, rfl⟩)

theorem findIdx?_missing (h : k ∉ l.map g) : l.findIdx? (fun a => g a == k) = none := by
  simp only [findIdx?_eq_none_iff, beq_eq_false_iff_ne]
  exact fun a ha he => h (mem_map.2 ⟨a, ha, he⟩)

theorem findIdx?_lt {p : α → Bool} (h : l.findIdx? p = some i) : i < l.length :=
  (findIdx?_eq_some_iff_getElem.1 h).1

end lookup

/-- A list of entries is determined by its keys and any list that has all its entries, one for each key. -/
theorem eq_of_keys {κ : Type} {l l' : List (κ × β)} (hkeys : l'.map (·.1) = l.map (·.1)) (hnd : (l.map (·.1)).Nodup)
    (hmem : ∀ e ∈ l', e ∈ l) : l' = l := by
  induction l generalizing l' with
  | nil => exact map_eq_nil_iff.1 hkeys
  | cons a l ih =>
    cases l' with
    | nil => cases hkeys
    | cons a' l' =>
      rw [map_cons, map_cons, cons.injEq] at hkeys
      rw [map_cons, nodup_cons] at hnd
      have hhead : a' = a := by
        rcases mem_cons.1 (hmem a' mem_cons_self) with he | hm
        · exact he
        · exact absurd (hkeys.1 ▸ mem_map_of_mem hm) hnd.1
      rw [hhead, ih hkeys.2 hnd.2 fun e he => ?_]
      rcases mem_cons.1 (hmem e (mem_cons_of_mem _ he)) with rfl | hm
      · exact absurd (hkeys.2 ▸ mem_map_of_mem he) hnd.1
      · exact hm

theorem mem_modify {f : α → α} {i : Nat} {l : List α} {b : α} (h : b ∈ l.modify i f) :
    b ∈ l ∨ ∃ a, l[i]? = some a ∧ b = f a := by
  obtain ⟨j, hj⟩ := List.mem_iff_getElem?.1 h
  rw [List.getElem?_modify] at hj
  cases hl : l[j]? with
  | none => simp [hl] at hj
  | some a =>
    simp only [hl, Option.map_eq_map, Option.map_some, Option.some.injEq] at hj
    split at hj
    · subst_vars; exact .inr ⟨a, hl, rfl⟩
    · subst hj; exact .inl (List.mem_of_getElem? hl)

end List
