import Std.Data.ExtTreeMap
import Std.Data.ExtTreeSet
import Mathlib.Data.List.Nodup
import Mathlib.Tactic.Common
import Mathlib.Data.Finset.Card
import Mathlib.Order.Defs.LinearOrder

/-!
# Ordered maps

Lookups in ordered maps whose comparison decides equality of keys, with `if k = a` in place of a comparison.
-/

namespace Maps

/-- The order of keys and digests. -/
instance transCmpBytes32 : Std.TransCmp (compare : Vector UInt8 32 → Vector UInt8 32 → Ordering) := inferInstance

instance lawfulEqCmpBytes32 : Std.LawfulEqCmp (compare : Vector UInt8 32 → Vector UInt8 32 → Ordering) := inferInstance

variable {κ ν ε : Type} {cmp : κ → κ → Ordering} [Std.TransCmp cmp] {m : Std.ExtTreeMap κ ν cmp} {k a : κ} {v : ν}

omit [Std.TransCmp cmp] in
@[simp] theorem toList_empty [Std.TransCmp cmp] : (∅ : Std.ExtTreeMap κ ν cmp).toList = [] := rfl

theorem nodup_toList : m.toList.Nodup :=
  Std.ExtTreeMap.distinct_keys_toList.imp fun {a b} hne => by
    rintro rfl
    exact hne Std.ReflCmp.compare_self

theorem toList_filter_append_perm (p : κ → ν → Bool) :
    (m.toList.filter (fun e => !p e.1 e.2) ++ (m.filter p).toList).Perm m.toList := by
  rw [Std.ExtTreeMap.toList_filter]
  exact List.perm_append_comm.trans (List.filter_append_perm _ _)

variable [Std.LawfulEqCmp cmp] [DecidableEq κ]

theorem getElem?_insert : (m.insert k v)[a]? = if k = a then some v else m[a]? := by
  rw [Std.ExtTreeMap.getElem?_insert]
  exact if_congr Std.LawfulEqCmp.compare_eq_iff_eq rfl rfl

theorem getElem?_erase : (m.erase k)[a]? = if k = a then none else m[a]? := by
  rw [Std.ExtTreeMap.getElem?_erase]
  exact if_congr Std.LawfulEqCmp.compare_eq_iff_eq rfl rfl

omit [Std.LawfulEqCmp cmp] [DecidableEq κ] in
theorem size_insert_new (h : m[k]? = none) : (m.insert k v).size = m.size + 1 := by
  rw [Std.ExtTreeMap.size_insert, Std.ExtTreeMap.contains_eq_isSome_getElem?, h]
  rfl

theorem toList_insert_perm (h : m[k]? = none) : (m.insert k v).toList.Perm ((k, v) :: m.toList) := by
  refine (List.perm_ext_iff_of_nodup nodup_toList (List.nodup_cons.2 ⟨fun hmem => ?_, nodup_toList⟩)).2 fun ⟨a, w⟩ => ?_
  · rw [Std.ExtTreeMap.mem_toList_iff_getElem?_eq_some, h] at hmem
    cases hmem
  · rw [List.mem_cons, Std.ExtTreeMap.mem_toList_iff_getElem?_eq_some, Std.ExtTreeMap.mem_toList_iff_getElem?_eq_some,
      getElem?_insert, Prod.mk.injEq]
    by_cases hk : k = a
    · subst hk
      simp [h, eq_comm]
    · simp [hk, Ne.symm hk]

theorem toList_insert_perm_erase : (m.insert k v).toList.Perm ((k, v) :: (m.erase k).toList) := by
  have hnone : (m.erase k)[k]? = none := by rw [getElem?_erase, if_pos rfl]
  have hinsert : (m.erase k).insert k v = m.insert k v := by
    refine Std.ExtTreeMap.ext_getElem? fun {a} => ?_
    rw [getElem?_insert, getElem?_insert, getElem?_erase]
    split <;> rfl
  rw [← hinsert]
  exact toList_insert_perm hnone

theorem insert_of_some (h : m[k]? = some v) : m.insert k v = m := by
  refine Std.ExtTreeMap.ext_getElem? fun {a} => ?_
  rw [getElem?_insert]
  split
  · rename_i hk
    rw [← hk, h]
  · rfl

theorem toList_perm_erase (h : m[k]? = some v) : m.toList.Perm ((k, v) :: (m.erase k).toList) := by
  have hperm : (m.insert k v).toList.Perm ((k, v) :: (m.erase k).toList) := toList_insert_perm_erase
  rwa [insert_of_some h] at hperm

theorem erase_of_none (h : m[k]? = none) : m.erase k = m := by
  refine Std.ExtTreeMap.ext_getElem? fun {a} => ?_
  rw [getElem?_erase]
  split
  · rename_i hk
    rw [← hk, h]
  · rfl

omit [DecidableEq κ] in
theorem all_toList {p : κ × ν → Bool} : m.toList.all p = true ↔ ∀ (k : κ) (v : ν), m[k]? = some v → p (k, v) = true := by
  rw [List.all_eq_true]
  exact ⟨fun h k v hk => h (k, v) (Std.ExtTreeMap.mem_toList_iff_getElem?_eq_some.2 hk),
    fun h e he => h e.1 e.2 (Std.ExtTreeMap.mem_toList_iff_getElem?_eq_some.1 he)⟩

omit [DecidableEq κ] in
theorem all_toList_set {t : Std.ExtTreeSet κ cmp} {p : κ → Bool} :
    t.toList.all p = true ↔ ∀ k, t.contains k = true → p k = true := by
  simp only [List.all_eq_true, Std.ExtTreeSet.mem_toList, Std.ExtTreeSet.mem_iff_contains]

omit [DecidableEq κ] in
theorem toList_insert_new_perm {t : Std.ExtTreeSet κ cmp} (h : t.contains k = false) : (t.insert k).toList.Perm (k :: t.toList) := by
  have hnodup : ∀ t : Std.ExtTreeSet κ cmp, t.toList.Nodup := fun t => Std.ExtTreeSet.distinct_toList.imp fun {a b} hne => by
    rintro rfl
    exact hne Std.ReflCmp.compare_self
  have hmem : k ∉ t.toList := by
    rw [Std.ExtTreeSet.mem_toList, Std.ExtTreeSet.mem_iff_contains, h]
    exact Bool.false_ne_true
  refine (List.perm_ext_iff_of_nodup (hnodup _) (List.nodup_cons.2 ⟨hmem, hnodup _⟩)).2 fun a => ?_
  rw [List.mem_cons, Std.ExtTreeSet.mem_toList, Std.ExtTreeSet.mem_toList, Std.ExtTreeSet.mem_insert,
    Std.LawfulEqCmp.compare_eq_iff_eq, eq_comm]

/-- `insert` for every entry of a list. -/
def insertAll (key : ε → κ) (value : ε → ν) (m : Std.ExtTreeMap κ ν cmp) (entries : List ε) : Std.ExtTreeMap κ ν cmp :=
  entries.foldl (fun m e => m.insert (key e) (value e)) m

section
variable {key : ε → κ} {value : ε → ν} {entries : List ε}

theorem getElem?_insertAll_of_notMem (h : a ∉ entries.map key) : (insertAll key value m entries)[a]? = m[a]? := by
  induction entries generalizing m with
  | nil => rfl
  | cons e entries ih =>
    rw [List.map_cons, List.mem_cons, not_or] at h
    show (insertAll key value (m.insert (key e) (value e)) entries)[a]? = m[a]?
    rw [ih h.2, getElem?_insert, if_neg (Ne.symm h.1)]

theorem getElem?_insertAll_of_mem (hnd : (entries.map key).Nodup) {e : ε} (he : e ∈ entries) :
    (insertAll key value m entries)[key e]? = some (value e) := by
  induction entries generalizing m with
  | nil => cases he
  | cons e' entries ih =>
    rw [List.map_cons, List.nodup_cons] at hnd
    show (insertAll key value (m.insert (key e') (value e')) entries)[key e]? = some (value e)
    rcases List.mem_cons.1 he with rfl | he
    · rw [getElem?_insertAll_of_notMem hnd.1, getElem?_insert, if_pos rfl]
    · exact ih hnd.2 he

end

/-! ### Maps and their ascending lists of entries -/

def ofEntries (cmp : κ → κ → Ordering) [Std.TransCmp cmp] (entries : List (κ × ν)) : Std.ExtTreeMap κ ν cmp :=
  insertAll Prod.fst Prod.snd ∅ entries

omit [Std.TransCmp cmp] [DecidableEq κ] in
theorem nodup_keys_of_ascending {entries : List (κ × ν)} (h : entries.Pairwise fun a b => cmp a.1 b.1 = .lt) :
    (entries.map Prod.fst).Nodup := by
  refine List.pairwise_map.2 (h.imp fun {a b} hlt he => ?_)
  have hself : cmp b.1 b.1 = .eq := Std.ReflCmp.compare_self
  rw [he, hself] at hlt
  cases hlt

theorem getElem?_ofEntries {entries : List (κ × ν)} (h : entries.Pairwise fun a b => cmp a.1 b.1 = .lt) :
    (ofEntries cmp entries)[k]? = some v ↔ (k, v) ∈ entries := by
  have hnd := nodup_keys_of_ascending h
  constructor
  · intro hk
    by_cases hmem : k ∈ entries.map Prod.fst
    · obtain ⟨e, he, rfl⟩ := List.mem_map.1 hmem
      rw [ofEntries, getElem?_insertAll_of_mem hnd he] at hk
      cases hk
      exact he
    · rw [ofEntries, getElem?_insertAll_of_notMem hmem] at hk
      simp at hk
  · intro he
    exact getElem?_insertAll_of_mem hnd he

theorem toList_ofEntries {entries : List (κ × ν)} (h : entries.Pairwise fun a b => cmp a.1 b.1 = .lt) :
    (ofEntries cmp entries).toList = entries := by
  refine List.Perm.eq_of_pairwise (fun a b _ _ hab hba => ?_) Std.ExtTreeMap.ordered_keys_toList h ?_
  · rw [Std.OrientedCmp.gt_of_lt hab] at hba
    cases hba
  · refine (List.perm_ext_iff_of_nodup nodup_toList ?_).2 fun ⟨a, w⟩ => ?_
    · exact List.Nodup.of_map Prod.fst (nodup_keys_of_ascending h)
    · rw [Std.ExtTreeMap.mem_toList_iff_getElem?_eq_some, getElem?_ofEntries h]

theorem ofEntries_toList : ofEntries cmp m.toList = m := by
  refine Std.ExtTreeMap.ext_getElem? fun {a} => ?_
  refine Option.ext fun w => ?_
  rw [getElem?_ofEntries Std.ExtTreeMap.ordered_keys_toList, Std.ExtTreeMap.mem_toList_iff_getElem?_eq_some]

/-- The set with these members. -/
def ofKeys (cmp : κ → κ → Ordering) [Std.TransCmp cmp] (keys : List κ) : Std.ExtTreeSet κ cmp :=
  keys.foldl (fun m k => m.insert k) ∅

omit [DecidableEq κ] in
theorem mem_ofKeys {keys : List κ} : a ∈ ofKeys cmp keys ↔ a ∈ keys := by
  suffices H : ∀ m : Std.ExtTreeSet κ cmp, a ∈ keys.foldl (fun m k => m.insert k) m ↔ a ∈ m ∨ a ∈ keys by
    rw [ofKeys, H, or_iff_right (Std.ExtTreeSet.not_mem_empty)]
  induction keys with
  | nil => simp
  | cons k keys ih =>
    intro m
    rw [List.foldl_cons, ih, Std.ExtTreeSet.mem_insert, Std.LawfulEqCmp.compare_eq_iff_eq, List.mem_cons, or_assoc, or_left_comm,
      eq_comm]

omit [DecidableEq κ] in
theorem ofKeys_toList {t : Std.ExtTreeSet κ cmp} : ofKeys cmp t.toList = t :=
  Std.ExtTreeSet.ext_mem fun {a} => by rw [mem_ofKeys, Std.ExtTreeSet.mem_toList]

omit [DecidableEq κ] in
theorem toList_ofKeys {keys : List κ} (h : keys.Pairwise (cmp · · = .lt)) : (ofKeys cmp keys).toList = keys := by
  have hnd : keys.Nodup := h.imp fun {a b} hlt he => by
    have hself : cmp b b = .eq := Std.ReflCmp.compare_self
    rw [he, hself] at hlt
    cases hlt
  refine List.Perm.eq_of_pairwise (fun a b _ _ hab hba => ?_) Std.ExtTreeSet.ordered_toList h ?_
  · rw [Std.OrientedCmp.gt_of_lt hab] at hba
    cases hba
  · refine (List.perm_ext_iff_of_nodup ?_ hnd).2 fun a => by rw [Std.ExtTreeSet.mem_toList, mem_ofKeys]
    exact Std.ExtTreeSet.distinct_toList.imp fun {a b} hne he => hne (by rw [he]; exact Std.ReflCmp.compare_self)

/-- Two lists that agree under one function agree under those that it determines. -/
theorem map_eq_map_of {α β γ δ : Type} {f : α → γ} {f' : β → γ} {g : α → δ} {g' : β → δ} {l : List α} {l' : List β}
    (h : l.map f = l'.map f') (hg : ∀ a ∈ l, ∀ b ∈ l', f a = f' b → g a = g' b) : l.map g = l'.map g' := by
  induction l generalizing l' with
  | nil =>
    cases l' with
    | nil => rfl
    | cons => cases h
  | cons a l ih =>
    cases l' with
    | nil => cases h
    | cons b l' =>
      rw [List.map_cons, List.map_cons, List.cons.injEq] at h ⊢
      refine ⟨hg a List.mem_cons_self b List.mem_cons_self h.1, ih h.2 fun a ha b hb => ?_⟩
      exact hg a (List.mem_cons_of_mem _ ha) b (List.mem_cons_of_mem _ hb)

theorem getElem?_map_eq_of_toList {ν' ρ : Type} {m' : Std.ExtTreeMap κ ν' cmp} {row : ν → ρ} {row' : ν' → ρ}
    (h : m.toList.map (fun e => (e.1, row e.2)) = m'.toList.map fun e => (e.1, row' e.2)) (k : κ) :
    m[k]?.map row = m'[k]?.map row' := by
  have hlist : (m.map fun _ => row).toList = (m'.map fun _ => row').toList := by
    rw [Std.ExtTreeMap.toList_map, Std.ExtTreeMap.toList_map]
    exact h
  have hmap : (m.map fun _ => row) = m'.map fun _ => row' := by
    rw [← ofEntries_toList (m := m.map fun _ => row), hlist, ofEntries_toList]
  have hget : (m.map fun _ => row)[k]? = (m'.map fun _ => row')[k]? := by rw [hmap]
  rwa [Std.ExtTreeMap.getElem?_map, Std.ExtTreeMap.getElem?_map] at hget

end Maps

/-!
## Key sets

The keys of an ordered map as a finite set, and the linear order that a lawful comparison is.
-/

namespace Keys

abbrev linearOrder (κ : Type) [Ord κ] [DecidableEq κ] [Std.TransCmp (compare : κ → κ → Ordering)]
    [Std.LawfulEqCmp (compare : κ → κ → Ordering)] : LinearOrder κ where
  le a b := (compare a b).isLE
  lt a b := compare a b = .lt
  le_refl a := by
    have hself : compare a a = .eq := Std.ReflCmp.compare_self
    rw [hself]
    rfl
  le_trans _ _ _ := Std.TransCmp.isLE_trans
  lt_iff_le_not_ge a b := by
    have hswap : compare b a = (compare a b).swap := Std.OrientedCmp.eq_swap
    rw [hswap]
    cases compare a b <;> decide
  le_antisymm a b hab hba := by
    have hswap : compare b a = (compare a b).swap := Std.OrientedCmp.eq_swap
    have heq : compare a b = .eq := by
      rw [hswap] at hba
      cases h : compare a b with
      | lt => exact absurd (h ▸ hba) (by decide)
      | eq => rfl
      | gt => exact absurd (h ▸ hab) (by decide)
    exact Std.LawfulEqCmp.eq_of_compare heq
  le_total a b := by
    have hswap : compare b a = (compare a b).swap := Std.OrientedCmp.eq_swap
    rw [hswap]
    cases compare a b <;> decide
  toDecidableLE a b := inferInstanceAs (Decidable ((compare a b).isLE = true))
  toDecidableEq := inferInstance
  toDecidableLT a b := inferInstanceAs (Decidable (compare a b = .lt))
  compare_eq_compareOfLessAndEq a b := by
    have heq : compare a b = .eq ↔ a = b := Std.LawfulEqCmp.compare_eq_iff_eq
    rw [compareOfLessAndEq]
    split
    · assumption
    · rename_i hlt
      split
      · exact heq.2 ‹_›
      · rename_i hne
        cases h : compare a b with
        | lt => exact absurd h hlt
        | eq => exact absurd (heq.1 h) hne
        | gt => rfl

variable {κ ν : Type} [LinearOrder κ] [Std.TransCmp (compare : κ → κ → Ordering)]
  {m : Std.ExtTreeMap κ ν compare} {k a : κ} {v : ν}

def ofMap (m : Std.ExtTreeMap κ ν compare) : Finset κ := m.keys.toFinset

theorem card_ofMap : (ofMap m).card = m.size := by
  rw [ofMap, List.toFinset_card_of_nodup Std.ExtTreeMap.nodup_keys, Std.ExtTreeMap.length_keys]

theorem getLast?_filter {p : κ → Bool} (h : (m.keys.filter p).getLast? = some k) :
    (k ∈ ofMap m ∧ p k = true) ∧ ∀ a ∈ ofMap m, p a = true → a ≤ k := by
  have hsorted : (m.keys.filter p).Pairwise (· ≤ ·) :=
    (Std.ExtTreeMap.ordered_keys.filter p).imp fun hlt => (compare_lt_iff_lt.1 hlt).le
  have hmem : ∀ a, a ∈ m.keys.filter p ↔ a ∈ ofMap m ∧ p a = true := fun a => by
    rw [List.mem_filter, ofMap, List.mem_toFinset]
  obtain ⟨before, heq⟩ := List.getLast?_eq_some_iff.1 h
  refine ⟨(hmem k).1 (List.mem_of_getLast? h), fun a ha hp => ?_⟩
  have ha' : a ∈ before ++ [k] := heq ▸ (hmem a).2 ⟨ha, hp⟩
  rw [heq, List.pairwise_append] at hsorted
  rcases List.mem_append.1 ha' with hbefore | hlast
  · exact hsorted.2.2 a hbefore k (List.mem_singleton.2 rfl)
  · exact (List.mem_singleton.1 hlast).le

theorem length_filter {p : κ → Bool} : (m.keys.filter p).length = ((ofMap m).filter (p · = true)).card := by
  rw [ofMap, ← List.toFinset_filter, List.toFinset_card_of_nodup (Std.ExtTreeMap.nodup_keys.filter _)]

theorem maxKey?_spec (h : m.maxKey? = some k) : k ∈ ofMap m ∧ ∀ a ∈ ofMap m, a ≤ k := by
  rw [Std.ExtTreeMap.maxKey?_eq_getLast?_keys] at h
  obtain ⟨⟨hmem, -⟩, hmax⟩ := getLast?_filter (m := m) (p := fun _ => true) (by rwa [List.filter_true])
  exact ⟨hmem, fun a ha => hmax a ha rfl⟩

variable [Std.LawfulEqCmp (compare : κ → κ → Ordering)]

theorem mem_ofMap : a ∈ ofMap m ↔ ∃ v, m[a]? = some v := by
  rw [ofMap, List.mem_toFinset, Std.ExtTreeMap.mem_keys, Std.ExtTreeMap.mem_iff_isSome_getElem?, Option.isSome_iff_exists]

theorem contains_iff : m.contains a = true ↔ a ∈ ofMap m := by
  rw [ofMap, List.mem_toFinset, Std.ExtTreeMap.mem_keys, Std.ExtTreeMap.mem_iff_contains]

theorem ofMap_insert : ofMap (m.insert k v) = insert k (ofMap m) := by
  ext a
  rw [Finset.mem_insert, mem_ofMap, mem_ofMap, Maps.getElem?_insert]
  by_cases hk : k = a
  · simp [hk]
  · simp [hk, Ne.symm hk]

theorem ofMap_erase : ofMap (m.erase k) = (ofMap m).erase k := by
  ext a
  rw [Finset.mem_erase, mem_ofMap, mem_ofMap, Maps.getElem?_erase]
  by_cases hk : k = a
  · simp [hk]
  · simp [hk, Ne.symm hk]

end Keys

/-!
## Counters kept in an ordered map

`Tally m l` says that the map `m` holds how often each key occurs in the list `l`, and no entry for the keys
that do not occur. `count` and `uncount` keep it when an occurrence is added or removed.
-/

namespace Maps
variable {κ : Type} {cmp : κ → κ → Ordering} [Std.TransCmp cmp] [BEq κ]

/-- The number of occurrences counted for a key. -/
def counted (m : Std.ExtTreeMap κ Nat cmp) (k : κ) : Nat := m[k]?.getD 0

def count (m : Std.ExtTreeMap κ Nat cmp) (k : κ) : Std.ExtTreeMap κ Nat cmp := m.insert k (counted m k + 1)

/-- One occurrence less; the last one takes its entry along. -/
def uncount (m : Std.ExtTreeMap κ Nat cmp) (k : κ) : Std.ExtTreeMap κ Nat cmp :=
  match m[k]? with
  | some n => if n - 1 = 0 then m.erase k else m.insert k (n - 1)
  | none => m

def Tally (m : Std.ExtTreeMap κ Nat cmp) (l : List κ) : Prop := ∀ k, m[k]? = if l.count k = 0 then none else some (l.count k)

namespace Tally
variable {m : Std.ExtTreeMap κ Nat cmp} {l l' : List κ} {k : κ}

theorem empty : Tally (∅ : Std.ExtTreeMap κ Nat cmp) [] := fun k => by simp

theorem perm (h : Tally m l) (hp : l.Perm l') : Tally m l' := fun k => by rw [h k, hp.count_eq]

theorem counted_eq (h : Tally m l) (k : κ) : counted m k = l.count k := by
  rw [counted, h k]
  split <;> simp_all

variable [Std.LawfulEqCmp cmp] [DecidableEq κ] [LawfulBEq κ]

theorem count (h : Tally m l) : Tally (Maps.count m k) (k :: l) := by
  intro a
  rw [Maps.count, getElem?_insert, h.counted_eq, List.count_cons]
  by_cases ha : k = a
  · subst ha
    simp
  · rw [if_neg ha, h a]
    simp [ha]

theorem uncount (h : Tally m (k :: l)) : Tally (Maps.uncount m k) l := by
  have hk := h k
  rw [if_neg (by simp), List.count_cons_self] at hk
  intro a
  have ha := h a
  rw [List.count_cons] at ha
  simp only [Maps.uncount, hk, Nat.add_sub_cancel]
  by_cases hak : k = a
  · subst hak
    split
    · rw [getElem?_erase, if_pos rfl]
    · rw [getElem?_insert, if_pos rfl]
  · have hbeq : (k == a) = false := by simp [hak]
    rw [hbeq] at ha
    split
    · rw [getElem?_erase, if_neg hak, ha]
      rfl
    · rw [getElem?_insert, if_neg hak, ha]
      rfl

theorem uncountAll (h : Tally m (l ++ l')) : Tally (l.foldl Maps.uncount m) l' := by
  induction l generalizing m with
  | nil => exact h
  | cons a l ih => exact ih h.uncount

end Tally

end Maps
