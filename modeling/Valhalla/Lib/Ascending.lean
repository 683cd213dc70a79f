import Mathlib.Data.List.Destutter
import Mathlib.Data.List.Nodup
import Valhalla.Lib.Wire

/-!
# Canonical lists

Sorted lists without repetitions as normal forms of lists, and readers that accept nothing but them: an item
is refused unless it comes strictly after the one before it.
-/

namespace Ascending
variable {α κ ε : Type}

/-- The items in the order of `cmp`. -/
def sorted (cmp : α → α → Ordering) (l : List α) : List α := l.mergeSort fun a b => (cmp a b).isLE

/-- Sorted, each item once. -/
def canonical [DecidableEq α] (cmp : α → α → Ordering) (l : List α) : List α := (sorted cmp l).destutter (· ≠ ·)

section
variable {cmp : α → α → Ordering} {l : List α}

theorem sorted_perm : (sorted cmp l).Perm l := List.mergeSort_perm _ _

theorem sorted_of_ascending (h : l.Pairwise (cmp · · = .lt)) : sorted cmp l = l :=
  List.mergeSort_of_pairwise (h.imp fun {a b} hlt => by rw [hlt]; rfl)

theorem isChain_and {R S : α → α → Prop} (hR : l.IsChain R) (hS : l.IsChain S) : l.IsChain fun a b => R a b ∧ S a b := by
  induction l with
  | nil => exact .nil
  | cons a l ih =>
    cases l with
    | nil => exact .singleton a
    | cons b l =>
      rw [List.isChain_cons_cons] at hR hS ⊢
      exact ⟨⟨hR.1, hS.1⟩, ih hR.2 hS.2⟩

theorem mem_destutter' [DecidableEq α] {a b : α} : a ∈ l.destutter' (· ≠ ·) b ↔ a = b ∨ a ∈ l := by
  induction l generalizing b with
  | nil => simp
  | cons c l ih =>
    by_cases hbc : b ≠ c
    · rw [List.destutter'_cons_pos _ hbc, List.mem_cons, ih, List.mem_cons]
    · rw [List.destutter'_cons_neg _ hbc, ih, List.mem_cons, Decidable.not_not.1 hbc]
      simp

variable [Std.TransCmp cmp]

theorem pairwise_sorted : (sorted cmp l).Pairwise fun a b => (cmp a b).isLE = true := by
  refine List.pairwise_mergeSort (fun a b c hab hbc => ?_) (fun a b => ?_) l
  · exact Std.TransCmp.isLE_trans hab hbc
  · rw [(Std.OrientedCmp.eq_swap : cmp b a = (cmp a b).swap)]
    cases cmp a b <;> rfl

theorem ascending_sorted {lt : α → α → Prop} (hlt : ∀ a ∈ l, ∀ b ∈ l, a ≠ b → (cmp a b).isLE = true → lt a b)
    (hnd : l.Nodup) : (sorted cmp l).Pairwise lt := by
  have hne : (sorted cmp l).Pairwise (· ≠ ·) := sorted_perm.nodup_iff.2 hnd
  refine (pairwise_sorted.and hne).imp_of_mem fun {a b} ha hb h => ?_
  exact hlt a (sorted_perm.mem_iff.1 ha) b (sorted_perm.mem_iff.1 hb) h.2 h.1

variable [DecidableEq α]

theorem canonical_of_ascending (h : l.Pairwise (cmp · · = .lt)) : canonical cmp l = l := by
  rw [canonical, sorted_of_ascending h]
  refine List.destutter_of_isChain _ _ (List.Pairwise.isChain (h.imp fun {a b} hlt he => ?_))
  have hself : cmp b b = .eq := Std.ReflCmp.compare_self
  rw [he, hself] at hlt
  cases hlt

theorem ascending_canonical [Std.LawfulEqCmp cmp] : (canonical cmp l).Pairwise (cmp · · = .lt) := by
  have hle : (canonical cmp l).Pairwise fun a b => (cmp a b).isLE = true :=
    pairwise_sorted.sublist (List.destutter_sublist _ _)
  have hchain : (canonical cmp l).IsChain (· ≠ ·) := List.isChain_destutter _ _
  have htrans : IsTrans α (cmp · · = .lt) := ⟨fun _ _ _ => Std.TransCmp.lt_trans⟩
  rw [← List.isChain_iff_pairwise]
  refine (isChain_and hchain hle.isChain).imp fun a b h => ?_
  cases hab : cmp a b with
  | lt => rfl
  | eq => exact absurd (Std.LawfulEqCmp.eq_of_compare hab) h.1
  | gt =>
    rw [hab] at h
    exact absurd h.2 Bool.false_ne_true

omit [Std.TransCmp cmp] in
theorem mem_canonical {a : α} : a ∈ canonical cmp l ↔ a ∈ l := by
  rw [← (sorted_perm : (sorted cmp l).Perm l).mem_iff, canonical]
  cases sorted cmp l with
  | nil => rfl
  | cons b l => rw [List.destutter_cons', mem_destutter', List.mem_cons]

end

/-! ### Readers of ascending lists -/

section
variable {cmp : κ → κ → Ordering} [Std.TransCmp cmp] {key : α → κ}

/-- An item behind the one with the key `last`. -/
def follows (cmp : κ → κ → Ordering) (last : Option κ) (k : κ) : Bool :=
  match last with
  | none => true
  | some l => cmp l k == .lt

theorem chained_follows {ok : α → Prop} {last : Option κ} {l : List α} :
    Codec.Chained (fun last a => ok a ∧ follows cmp last (key a) = true) (fun _ a => some (key a)) last l ↔
      (∀ a ∈ l, ok a) ∧ (∀ a ∈ l, follows cmp last (key a) = true) ∧ (l.map key).Pairwise (cmp · · = .lt) := by
  induction l generalizing last with
  | nil => simp [Codec.Chained]
  | cons a l ih =>
    simp only [Codec.Chained, ih, List.map_cons, List.pairwise_cons, List.forall_mem_cons, List.forall_mem_map]
    constructor
    · rintro ⟨⟨hok, hfirst⟩, hoks, hrest, hsorted⟩
      simp only [follows, beq_iff_eq] at hrest
      refine ⟨⟨hok, hoks⟩, ⟨hfirst, fun b hb => ?_⟩, hrest, hsorted⟩
      cases last with
      | none => rfl
      | some last =>
        simp only [follows, beq_iff_eq] at hfirst ⊢
        exact Std.TransCmp.lt_trans hfirst (hrest b hb)
    · rintro ⟨⟨hok, hoks⟩, ⟨hfirst, -⟩, hrest, hsorted⟩
      refine ⟨⟨hok, hfirst⟩, hoks, fun b hb => ?_, hsorted⟩
      simp only [follows, beq_iff_eq]
      exact hrest b hb

/-- Read `n` items with strictly ascending keys. -/
def items (cmp : κ → κ → Ordering) (key : α → κ) (e : ε) (get : Reader ε α) (n : Nat) : Reader ε (List α) :=
  Reader.many (fun _ a => some (key a)) (fun last => do
    let a ← get
    if ¬ follows cmp last (key a) = true then throw e else pure a) n none

theorem codec_items {e : ε} {get : Reader ε α} {put : α → List UInt8} {ok : α → Prop} (h : Codec get put ok) (n : Nat) :
    Codec (items cmp key e get n) (List.flatMap put) fun l =>
      l.length = n ∧ (∀ a ∈ l, ok a) ∧ (l.map key).Pairwise (cmp · · = .lt) := by
  have hitem : ∀ last, Codec (do let a ← get; if ¬ follows cmp last (key a) = true then throw e else pure a) put
      fun a => ok a ∧ follows cmp last (key a) = true := fun last =>
    h.check.congr (fun a => by rw [Decidable.not_not]) fun _ _ => rfl
  refine (Codec.many hitem n none).congr (fun l => and_congr_right fun _ => ?_) fun _ _ => rfl
  rw [chained_follows]
  simp [follows]

theorem codec_counted {e : ε} {getCount : Reader ε Nat} {putCount : Nat → List UInt8} {okCount : Nat → Prop}
    {get : Reader ε α} {put : α → List UInt8} {ok : α → Prop} (hc : Codec getCount putCount okCount) (h : Codec get put ok) :
    Codec (do let n ← getCount; items cmp key e get n) (fun l => putCount l.length ++ l.flatMap put) fun l =>
      okCount l.length ∧ (∀ a ∈ l, ok a) ∧ (l.map key).Pairwise (cmp · · = .lt) := by
  refine hc.bind List.length (fun l hl => hl.1) fun n hn => (codec_items h n).congr (fun l => ?_) fun _ _ => rfl
  constructor
  · rintro ⟨⟨-, hl⟩, hlen⟩
    exact ⟨hlen, hl⟩
  · rintro ⟨rfl, hl⟩
    exact ⟨⟨hn, hl⟩, rfl⟩

end

end Ascending
