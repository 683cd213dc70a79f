import Mathlib.Algebra.BigOperators.Group.Finset.Basic
import Mathlib.Algebra.Order.BigOperators.Group.Finset
import Mathlib.Data.Finset.Max

/-!
# Choices that do not depend on the order of arrival

A choice that only ever drops what a larger offer drops too (`substitutable`) and does not look at what it drops
(`indifferent`) can be made online: choosing from what was kept so far and the next arrival gives what choosing from
everything at once gives. The bounded choices of a linear order are such: the first few of all, and the first few
of the first few of each class.
-/

namespace Choice
variable {κ ω : Type}

structure PathIndependent (choose : Finset κ → Finset κ) : Prop where
  subset : ∀ s, choose s ⊆ s
  substitutable : ∀ s t x, s ⊆ t → x ∈ s → x ∈ choose t → x ∈ choose s
  indifferent : ∀ s t, choose t ⊆ s → s ⊆ t → choose s = choose t

theorem PathIndependent.insert_eq [DecidableEq κ] {choose : Finset κ → Finset κ} (h : PathIndependent choose) (x : κ) (s : Finset κ) :
    choose (insert x (choose s)) = choose (insert x s) := by
  refine h.indifferent _ _ (fun y hy => ?_) (Finset.insert_subset_insert x (h.subset s))
  rcases Finset.mem_insert.1 (h.subset _ hy) with rfl | hs
  · exact Finset.mem_insert_self _ _
  · exact Finset.mem_insert_of_mem (h.substitutable _ _ y (Finset.subset_insert x s) hs hy)

/-! ### The first few -/

section
variable [LinearOrder κ] {n : Nat} {s t : Finset κ} {x y : κ}

/-- How many are smaller. -/
def rank (s : Finset κ) (x : κ) : Nat := (s.filter (· < x)).card

/-- Those with fewer than `n` smaller ones. -/
def firsts (n : Nat) (s : Finset κ) : Finset κ := s.filter fun x => rank s x < n

theorem mem_firsts : x ∈ firsts n s ↔ x ∈ s ∧ rank s x < n := Finset.mem_filter

theorem rank_mono (h : s ⊆ t) : rank s x ≤ rank t x := Finset.card_le_card (Finset.filter_subset_filter _ h)

theorem rank_le_rank (h : x ≤ y) : rank s x ≤ rank s y :=
  Finset.card_le_card (Finset.monotone_filter_right s fun _ _ hlt => lt_of_lt_of_le hlt h)

theorem rank_filter_lt (h : y < x) : rank (s.filter (· < x)) y = rank s y := by
  have hfilter : (s.filter (· < x)).filter (· < y) = s.filter (· < y) := by
    ext z
    simp only [Finset.mem_filter]
    exact ⟨fun hz => ⟨hz.1.1, hz.2⟩, fun hz => ⟨⟨hz.1, hz.2.trans h⟩, hz.2⟩⟩
  rw [rank, rank, hfilter]

theorem filter_firsts : (firsts n s).filter (· < x) = firsts n (s.filter (· < x)) := by
  ext y
  simp only [Finset.mem_filter, mem_firsts]
  constructor
  · rintro ⟨⟨hmem, hrank⟩, hlt⟩
    exact ⟨⟨hmem, hlt⟩, by rwa [rank_filter_lt hlt]⟩
  · rintro ⟨⟨hmem, hlt⟩, hrank⟩
    exact ⟨⟨hmem, by rwa [rank_filter_lt hlt] at hrank⟩, hlt⟩

theorem firsts_insert_max (h : ∀ y ∈ s, y < x) : firsts n (insert x s) = if s.card < n then insert x (firsts n s) else firsts n s := by
  have hrank : ∀ y ∈ insert x s, rank (insert x s) y = rank s y := by
    intro y hy
    have hle : ¬ x < y := by
      rcases Finset.mem_insert.1 hy with rfl | hy
      · exact lt_irrefl _
      · exact (h y hy).le.not_gt
    rw [rank, rank, Finset.filter_insert, if_neg hle]
  have hlast : rank s x = s.card := by
    rw [rank, Finset.filter_true_of_mem h]
  ext y
  by_cases hroom : s.card < n
  · rw [if_pos hroom, Finset.mem_insert, mem_firsts, mem_firsts, Finset.mem_insert]
    constructor
    · rintro ⟨rfl | hy, hn⟩
      · exact .inl rfl
      · exact .inr ⟨hy, by rwa [hrank y (Finset.mem_insert_of_mem hy)] at hn⟩
    · rintro (rfl | ⟨hy, hn⟩)
      · exact ⟨.inl rfl, by rwa [hrank y (Finset.mem_insert_self _ _), hlast]⟩
      · exact ⟨.inr hy, by rwa [hrank y (Finset.mem_insert_of_mem hy)]⟩
  · rw [if_neg hroom, mem_firsts, mem_firsts, Finset.mem_insert]
    constructor
    · rintro ⟨rfl | hy, hn⟩
      · rw [hrank y (Finset.mem_insert_self _ _), hlast] at hn
        exact absurd hn hroom
      · exact ⟨hy, by rwa [hrank y (Finset.mem_insert_of_mem hy)] at hn⟩
    · rintro ⟨hy, hn⟩
      exact ⟨.inr hy, by rwa [hrank y (Finset.mem_insert_of_mem hy)]⟩

theorem card_firsts (n : Nat) (s : Finset κ) : (firsts n s).card = min n s.card := by
  induction s using Finset.induction_on_max with
  | empty => simp [firsts]
  | insert x s hmax ih =>
    have hnew : x ∉ s := fun hx => lt_irrefl _ (hmax x hx)
    have hout : x ∉ firsts n s := fun hx => hnew (mem_firsts.1 hx).1
    rw [firsts_insert_max hmax, Finset.card_insert_of_notMem hnew]
    split
    · rw [Finset.card_insert_of_notMem hout, ih]
      omega
    · rw [ih]
      omega

theorem rank_firsts : rank (firsts n s) x = min n (rank s x) := by
  rw [rank, filter_firsts, card_firsts, rank]

theorem firsts_eq_self (h : s.card ≤ n) : firsts n s = s := by
  refine Finset.eq_of_subset_of_card_le (Finset.filter_subset _ _) ?_
  rw [card_firsts]
  exact le_min h le_rfl

theorem firsts_eq_erase (hmem : x ∈ s) (hmax : ∀ y ∈ s, y ≤ x) (hcard : s.card = n + 1) : firsts n s = s.erase x := by
  have hrest : (s.erase x).card = n := by rw [Finset.card_erase_of_mem hmem, hcard, Nat.add_sub_cancel]
  have hlt : ∀ y ∈ s.erase x, y < x := fun y hy => lt_of_le_of_ne (hmax y (Finset.mem_of_mem_erase hy)) (Finset.ne_of_mem_erase hy)
  rw [← Finset.insert_erase hmem, firsts_insert_max hlt, if_neg hrest.not_lt, Finset.erase_insert (Finset.notMem_erase x s)]
  exact firsts_eq_self hrest.le

end

/-! ### The first few of each class -/

section
variable [DecidableEq ω] {owner : κ → ω} {s t : Finset κ} {x y : κ} {o : ω}

def fiber (owner : κ → ω) (s : Finset κ) (o : ω) : Finset κ := s.filter (owner · = o)

theorem mem_fiber : x ∈ fiber owner s o ↔ x ∈ s ∧ owner x = o := Finset.mem_filter

theorem fiber_mono (h : s ⊆ t) (o : ω) : fiber owner s o ⊆ fiber owner t o := Finset.filter_subset_filter _ h

theorem eq_of_fibers (owner : κ → ω) (h : ∀ o, fiber owner s o = fiber owner t o) : s = t := by
  ext x
  have hx : x ∈ fiber owner s (owner x) ↔ x ∈ fiber owner t (owner x) := by rw [h]
  simpa only [mem_fiber, and_true] using hx

variable [LinearOrder κ] {n m : Nat}

def firstsBy (owner : κ → ω) (n : Nat) (s : Finset κ) : Finset κ := s.filter fun x => rank (fiber owner s (owner x)) x < n

/-- The first `m` of the first `n` of each class. -/
def select (owner : κ → ω) (n m : Nat) (s : Finset κ) : Finset κ := firsts m (firstsBy owner n s)

theorem mem_firstsBy : x ∈ firstsBy owner n s ↔ x ∈ s ∧ rank (fiber owner s (owner x)) x < n := Finset.mem_filter

theorem fiber_firstsBy (o : ω) : fiber owner (firstsBy owner n s) o = firsts n (fiber owner s o) := by
  ext x
  simp only [mem_fiber, mem_firstsBy, mem_firsts]
  constructor
  · rintro ⟨⟨hmem, hrank⟩, rfl⟩
    exact ⟨⟨hmem, rfl⟩, hrank⟩
  · rintro ⟨⟨hmem, rfl⟩, hrank⟩
    exact ⟨⟨hmem, hrank⟩, rfl⟩

theorem rank_eq_sum {os : Finset ω} (h : ∀ y ∈ s, owner y ∈ os) : rank s x = ∑ o ∈ os, rank (fiber owner s o) x := by
  rw [rank, Finset.card_eq_sum_card_fiberwise (f := owner) fun y hy => h y (Finset.mem_filter.1 hy).1]
  refine Finset.sum_congr rfl fun o _ => ?_
  rw [rank, fiber, Finset.filter_comm]

/-- A larger offer has at least as many chosen ones below `x`. -/
theorem rank_firstsBy_mono (h : s ⊆ t) : rank (firstsBy owner n s) x ≤ rank (firstsBy owner n t) x := by
  have hmem : ∀ u ⊆ t, ∀ y ∈ firstsBy owner n u, owner y ∈ t.image owner := fun u hu y hy =>
    Finset.mem_image_of_mem _ (hu (mem_firstsBy.1 hy).1)
  rw [rank_eq_sum (hmem s h), rank_eq_sum (hmem t subset_rfl)]
  refine Finset.sum_le_sum fun o _ => ?_
  rw [fiber_firstsBy, fiber_firstsBy, rank_firsts, rank_firsts]
  exact min_le_min_left n (rank_mono (fiber_mono h o))

theorem firstsBy_substitutable (h : s ⊆ t) (hx : x ∈ s) (hchosen : x ∈ firstsBy owner n t) : x ∈ firstsBy owner n s :=
  mem_firstsBy.2 ⟨hx, (rank_mono (fiber_mono h _)).trans_lt (mem_firstsBy.1 hchosen).2⟩

theorem mem_select : x ∈ select owner n m s ↔ x ∈ firstsBy owner n s ∧ rank (firstsBy owner n s) x < m := mem_firsts

theorem select_subset : select owner n m s ⊆ s := fun _ hx => (mem_firstsBy.1 (mem_select.1 hx).1).1

theorem select_substitutable (h : s ⊆ t) (hx : x ∈ s) (hchosen : x ∈ select owner n m t) : x ∈ select owner n m s := by
  obtain ⟨hclass, hrank⟩ := mem_select.1 hchosen
  exact mem_select.2 ⟨firstsBy_substitutable h hx hclass, (rank_firstsBy_mono h).trans_lt hrank⟩

theorem select_indifferent (hkept : select owner n m t ⊆ s) (h : s ⊆ t) : select owner n m s = select owner n m t := by
  refine Finset.Subset.antisymm (fun x hx => ?_) fun x hx => select_substitutable h (hkept hx) hx
  obtain ⟨hclass, hrank⟩ := mem_select.1 hx
  -- `m` chosen ones of `t` below `x` would all be in `s`
  have hroom : rank (firstsBy owner n t) x < m := by
    by_contra hfull
    have hsub : select owner n m t ⊆ firstsBy owner n s := fun y hy => firstsBy_substitutable h (hkept hy) (mem_select.1 hy).1
    have hle : rank (select owner n m t) x ≤ rank (firstsBy owner n s) x := rank_mono hsub
    rw [select, rank_firsts, min_eq_left (not_lt.1 hfull)] at hle
    omega
  refine mem_select.2 ⟨mem_firstsBy.2 ⟨h (mem_firstsBy.1 hclass).1, ?_⟩, hroom⟩
  -- and so would `n` of its own class, none of which ranks above `x`
  by_contra hfull
  have hsub : (firsts n (fiber owner t (owner x))).filter (· < x) ⊆ (fiber owner s (owner x)).filter (· < x) := by
    intro y hy
    rw [Finset.mem_filter, ← fiber_firstsBy, mem_fiber] at hy
    obtain ⟨⟨hy, howner⟩, hlt⟩ := hy
    have hchosen : y ∈ select owner n m t := mem_select.2 ⟨hy, (rank_le_rank hlt.le).trans_lt hroom⟩
    exact Finset.mem_filter.2 ⟨mem_fiber.2 ⟨hkept hchosen, howner⟩, hlt⟩
  have hle : rank (firsts n (fiber owner t (owner x))) x ≤ rank (fiber owner s (owner x)) x := Finset.card_le_card hsub
  rw [rank_firsts, min_eq_left (not_lt.1 hfull)] at hle
  exact absurd (mem_firstsBy.1 hclass).2 hle.not_gt

theorem pathIndependent_select : PathIndependent (select owner n m) where
  subset _ := select_subset
  substitutable _ _ _ := select_substitutable
  indifferent _ _ := select_indifferent

theorem card_select_le : (select owner n m s).card ≤ m := by
  rw [select, card_firsts]
  exact min_le_left _ _

theorem card_fiber_select_le (o : ω) : (fiber owner (select owner n m s) o).card ≤ n := by
  have hle : (fiber owner (select owner n m s) o).card ≤ (fiber owner (firstsBy owner n s) o).card :=
    Finset.card_le_card (fiber_mono (Finset.filter_subset _ _) o)
  rw [fiber_firstsBy, card_firsts] at hle
  exact hle.trans (min_le_left _ _)

/-! ### One more -/

theorem fiber_insert : fiber owner (insert x s) o = if owner x = o then insert x (fiber owner s o) else fiber owner s o :=
  Finset.filter_insert ..

theorem fiber_erase : fiber owner (s.erase x) o = (fiber owner s o).erase x := Finset.filter_erase ..

/-- The first few of the classes after an arrival: only its own class can change. -/
theorem firstsBy_insert (hle : ∀ o, (fiber owner s o).card ≤ n)
    (hown : fiber owner t (owner x) = firsts n (insert x (fiber owner s (owner x))))
    (hother : ∀ o, owner x ≠ o → fiber owner t o = fiber owner s o) : firstsBy owner n (insert x s) = t := by
  refine eq_of_fibers owner fun o => ?_
  rw [fiber_firstsBy, fiber_insert]
  by_cases ho : owner x = o
  · subst ho
    rw [if_pos rfl, hown]
  · rw [if_neg ho, hother o ho, firsts_eq_self (hle o)]

theorem firstsBy_insert_room (hle : ∀ o, (fiber owner s o).card ≤ n) (hroom : (fiber owner s (owner x)).card < n) :
    firstsBy owner n (insert x s) = insert x s := by
  refine firstsBy_insert hle ?_ fun o ho => by rw [fiber_insert, if_neg ho]
  rw [fiber_insert, if_pos rfl, firsts_eq_self]
  exact (Finset.card_insert_le _ _).trans hroom

/-- A full class drops its last member for a smaller one, and nothing else. -/
theorem firstsBy_insert_full (hle : ∀ o, (fiber owner s o).card ≤ n) (hfull : n ≤ (fiber owner s (owner x)).card) (hnew : x ∉ s)
    (hlast : y ∈ fiber owner s (owner x)) (hmax : ∀ z ∈ fiber owner s (owner x), z ≤ y) :
    firstsBy owner n (insert x s) = if x < y then insert x (s.erase y) else s := by
  have hout : x ∉ fiber owner s (owner x) := fun hx => hnew (mem_fiber.1 hx).1
  have hcard : (insert x (fiber owner s (owner x))).card = n + 1 := by
    rw [Finset.card_insert_of_notMem hout, le_antisymm (hle _) hfull]
  have howner : owner y = owner x := (mem_fiber.1 hlast).2
  split
  · rename_i hlt
    have hne : x ≠ y := hlt.ne
    refine firstsBy_insert hle ?_ fun o ho => ?_
    · rw [fiber_insert, if_pos rfl, fiber_erase, ← Finset.erase_insert_of_ne hne]
      refine (firsts_eq_erase (Finset.mem_insert_of_mem hlast) (fun z hz => ?_) hcard).symm
      rcases Finset.mem_insert.1 hz with rfl | hz
      exacts [hlt.le, hmax z hz]
    · rw [fiber_insert, if_neg ho, fiber_erase]
      exact Finset.erase_eq_of_notMem fun hy => ho (howner.symm.trans (mem_fiber.1 hy).2)
  · rename_i hle'
    refine firstsBy_insert hle ?_ fun _ _ => rfl
    have hlater : ∀ z ∈ insert x (fiber owner s (owner x)), z ≤ x := by
      intro z hz
      rcases Finset.mem_insert.1 hz with rfl | hz
      exacts [le_rfl, (hmax z hz).trans (not_lt.1 hle')]
    rw [firsts_eq_erase (Finset.mem_insert_self _ _) hlater hcard, Finset.erase_insert hout]

end
end Choice
