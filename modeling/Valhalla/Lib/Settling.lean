import Mathlib.Logic.Function.Basic
import Mathlib.Logic.Relation
import Mathlib.Tactic.Common

/-!
# Verdicts that settle

Items are settled one at a time, each by the verdict that follows from what is settled before. A verdict is *final* if it
stays when more is settled. Then the order does not matter: every run that leaves no verdict open ends in the same place
(`Settles.unique`), which is the verdict on itself (`Settles.fixed`), and items that wait for each other are never settled
(`Settles.stuck`, `Settles.grounded`).
-/

namespace Settling
variable {ι ν : Type} {σ τ τ' ρ : ι → Option ν} {verdict : (ι → Option ν) → ι → Option ν}

/-- What `σ` settles, `τ` settles in the same way. -/
def Extends (σ τ : ι → Option ν) : Prop := ∀ i x, σ i = some x → τ i = some x

/-- More that is settled changes no verdict. -/
def Final (verdict : (ι → Option ν) → ι → Option ν) : Prop := ∀ σ τ, Extends σ τ → Extends (verdict σ) (verdict τ)

def Closed (verdict : (ι → Option ν) → ι → Option ν) (σ : ι → Option ν) : Prop := Extends (verdict σ) σ

theorem Extends.refl (σ : ι → Option ν) : Extends σ σ := fun _ _ h => h

theorem Extends.trans (h : Extends σ τ) (h' : Extends τ ρ) : Extends σ ρ := fun i x hi => h' i x (h i x hi)

theorem Extends.antisymm (h : Extends σ τ) (h' : Extends τ σ) : σ = τ := by
  funext i
  cases hσ : σ i with
  | some x => exact (h i x hσ).symm
  | none =>
    cases hτ : τ i with
    | none => rfl
    | some x =>
      rw [h' i x hτ] at hσ
      cases hσ

section
variable [DecidableEq ι]

theorem extends_update {i : ι} (x : ν) (hopen : σ i = none) : Extends σ (Function.update σ i (some x)) := by
  intro j y hj
  by_cases hji : j = i
  · rw [hji, hopen] at hj
    cases hj
  · rwa [Function.update_of_ne hji]

theorem Extends.update {i : ι} {x : ν} (h : Extends σ τ) (hi : τ i = some x) : Extends (Function.update σ i (some x)) τ := by
  intro j y hj
  by_cases hji : j = i
  · subst hji
    rw [Function.update_self] at hj
    rw [hi, hj]
  · rw [Function.update_of_ne hji] at hj
    exact h j y hj

/-- Open items that get the verdict on them, one after another. -/
inductive Settles (verdict : (ι → Option ν) → ι → Option ν) (σ : ι → Option ν) : (ι → Option ν) → Prop
  | refl : Settles verdict σ σ
  | step {ρ : ι → Option ν} {i : ι} {x : ν} : Settles verdict σ ρ → ρ i = none → verdict ρ i = some x →
      Settles verdict σ (Function.update ρ i (some x))

namespace Settles

theorem extended (h : Settles verdict σ τ) : Extends σ τ := by
  induction h with
  | refl => exact .refl σ
  | step _ hopen _ ih => exact ih.trans (extends_update _ hopen)

theorem sound (hfinal : Final verdict) (hσ : Extends σ (verdict σ)) (h : Settles verdict σ τ) : Extends τ (verdict τ) := by
  induction h with
  | refl => exact hσ
  | @step ρ i x _ hopen hx ih =>
    have hmore := hfinal ρ _ (extends_update x hopen)
    exact (ih.trans hmore).update (hmore i x hx)

theorem stays_below (hfinal : Final verdict) (hclosed : Closed verdict τ') (hσ : Extends σ τ') (h : Settles verdict σ τ) : Extends τ τ' := by
  induction h with
  | refl => exact hσ
  | @step ρ i x _ _ hx ih => exact ih.update (hclosed i x (hfinal ρ τ' ih i x hx))

theorem unique (hfinal : Final verdict) (h : Settles verdict σ τ) (h' : Settles verdict σ τ') (hτ : Closed verdict τ)
    (hτ' : Closed verdict τ') : τ = τ' :=
  (h.stays_below hfinal hτ' h'.extended).antisymm (h'.stays_below hfinal hτ h.extended)

theorem fixed (hfinal : Final verdict) (hσ : Extends σ (verdict σ)) (h : Settles verdict σ τ) (hτ : Closed verdict τ) :
    verdict τ = τ :=
  hτ.antisymm (h.sound hfinal hσ)

/-- Items that have no verdict as long as all of them are open stay open. -/
theorem stuck (hfinal : Final verdict) (h : Settles verdict σ τ) {s : Set ι} [DecidablePred (· ∈ s)] (hσ : ∀ i ∈ s, σ i = none)
    (hs : ∀ i ∈ s, verdict (fun j => if j ∈ s then none else τ j) i = none) : ∀ i ∈ s, τ i = none := by
  have hbelow : ∀ ρ, Settles verdict σ ρ → Extends ρ τ → Extends ρ fun j => if j ∈ s then none else τ j := by
    intro ρ hρ
    induction hρ with
    | refl =>
      intro hext i x hi
      have hnot : i ∉ s := fun his => by
        rw [hσ i his] at hi
        cases hi
      exact (if_neg hnot).trans (hext i x hi)
    | @step ρ i x _ hopen hx ih =>
      intro hext
      have hρ := ih ((extends_update x hopen).trans hext)
      have hverdict := hfinal _ _ hρ i x hx
      have hnot : i ∉ s := fun his => by
        rw [hs i his] at hverdict
        cases hverdict
      exact hρ.update ((if_neg hnot).trans (hext i x (Function.update_self i (some x) ρ)))
  intro i his
  cases hi : τ i with
  | none => rfl
  | some x =>
    cases (if_pos his).symm.trans (hbelow τ h (.refl τ) i x hi)

/-- Items that are settled in a certain way only behind another one of them are not settled in this way. -/
theorem grounded (h : Settles verdict σ τ) {s : Set ι} (good : ν → Prop) (hσ : ∀ i ∈ s, ∀ x, σ i = some x → ¬ good x)
    (hs : ∀ ρ, ∀ i ∈ s, ∀ x, verdict ρ i = some x → good x → ∃ j ∈ s, ∃ y, ρ j = some y ∧ good y) :
    ∀ i ∈ s, ∀ x, τ i = some x → ¬ good x := by
  induction h with
  | refl => exact hσ
  | @step ρ i x _ _ hx ih =>
    intro j hj y hy hgood
    by_cases hji : j = i
    · subst hji
      rw [Function.update_self] at hy
      obtain rfl := Option.some.inj hy
      obtain ⟨k, hk, z, hz, hgood'⟩ := hs ρ j hj x hx hgood
      exact ih k hk z hz hgood'
    · rw [Function.update_of_ne hji] at hy
      exact ih j hj y hy hgood

/-- Nothing that is settled in a certain way refers back to itself, if all that it refers to was settled so before. -/
theorem acyclic (h : Settles verdict σ τ) {r : ι → ι → Prop} (good : ν → Prop) (hσ : ∀ i x, σ i = some x → ¬ good x)
    (hr : ∀ ρ i x, verdict ρ i = some x → good x → ∀ j, r i j → ∃ y, ρ j = some y ∧ good y) {i : ι} {x : ν} (hi : τ i = some x)
    (hgood : good x) : ¬ Relation.TransGen r i i := by
  intro hcycle
  have hnext : ∀ j ∈ {j | Relation.TransGen r j i}, ∃ k, r j k ∧ k ∈ {j | Relation.TransGen r j i} := by
    intro j hj
    rcases Relation.TransGen.head'_iff.1 hj with ⟨k, hjk, hki⟩
    refine ⟨k, hjk, ?_⟩
    rcases Relation.reflTransGen_iff_eq_or_transGen.1 hki with rfl | hki
    · exact hcycle
    · exact hki
  refine h.grounded (s := {j | Relation.TransGen r j i}) good (fun j _ y hy => hσ j y hy) (fun ρ j hj y hy hgood => ?_) i hcycle x hi hgood
  obtain ⟨k, hjk, hk⟩ := hnext j hj
  obtain ⟨z, hz, hgood'⟩ := hr ρ j y hy hgood k hjk
  exact ⟨k, hk, z, hz, hgood'⟩

end Settles
end
end Settling

/-! ### Computations that wait -/

namespace Settling
variable {ε α β : Type} {e : ε} {x y : Except ε α}

/-- `y` is what becomes of `x` when more is settled: the same, unless `x` waits, with the error `e`. -/
def Refines (e : ε) (x y : Except ε α) : Prop := x = y ∨ x = .error e

namespace Refines

theorem refl (e : ε) (x : Except ε α) : Refines e x x := .inl rfl

theorem antisymm (h : Refines e x y) (h' : Refines e y x) : x = y := by
  rcases h with h | h
  · exact h
  · rcases h' with h' | h'
    · exact h'.symm
    · rw [h, h']

theorem bind {f g : α → Except ε β} (h : Refines e x y) (hf : ∀ a, Refines e (f a) (g a)) : Refines e (x >>= f) (y >>= g) := by
  rcases h with rfl | rfl
  · cases x with
    | error e' => exact refl e _
    | ok a => exact hf a
  · exact .inr rfl

theorem forM {l : List α} {f g : α → Except ε PUnit} (h : ∀ a ∈ l, Refines e (f a) (g a)) : Refines e (forM l f) (ForM.forM l g) := by
  induction l with
  | nil => exact refl e _
  | cons a l ih =>
    rw [List.forall_mem_cons] at h
    rw [List.forM_cons, List.forM_cons]
    exact (h.1).bind fun _ => ih h.2

theorem optionForM {o : Option α} {f g : α → Except ε PUnit} (h : ∀ a, Refines e (f a) (g a)) :
    Refines e (ForM.forM o f) (ForM.forM o g) := by
  cases o with
  | none => exact refl e _
  | some a => exact h a

end Refines
end Settling
