import Valhalla.Lib.Fallible
import Mathlib.Algebra.GroupWithZero.Nat

/-!
# Metered work

A metered state says how much work is left and whether any was refused, and it can be given more. `Takes` bounds what a computation uses
wherever that much is left, `Spends` what a step uses from one state; both say that more work would change nothing else. Bounds add up
along `bind`, composition and folds.
-/

structure Meter (σ : Type) where
  left : σ → Nat
  refused : σ → Bool
  more : Nat → σ → σ

namespace Meter
open Fallible
variable {σ ε δ α β ρ : Type} (M : Meter σ)

/-- From `s` to `s'` at most `n` is used, and nothing is refused. -/
structure Within (n : Nat) (s s' : σ) : Prop where
  refused : M.refused s' = M.refused s
  left : M.left s ≤ M.left s' + n

/-- What a step does from `s` on. -/
structure Spends (f : σ → σ) (n : Nat) (s : σ) : Prop extends Within M n s (f s) where
  more : ∀ k, f (M.more k s) = M.more k (f s)

/-- What a computation does wherever `n` is left. -/
def Takes (m : Fallible ε σ α) (n : Nat) : Prop :=
  ∀ s, n ≤ M.left s → M.Within n s (exec m s).2 ∧ ∀ k, exec m (M.more k s) = ((exec m s).1, M.more k (exec m s).2)

section
variable {M} {s s' s'' : σ} {n k : Nat} {m : Fallible ε σ α} {f : α → Fallible ε σ β}

theorem Within.refl : M.Within n s s := ⟨rfl, Nat.le_add_right _ _⟩

theorem Within.trans (h : M.Within n s s') (h' : M.Within k s' s'') : M.Within (n + k) s s'' where
  refused := h'.refused.trans h.refused
  left := by
    have hn := h.left
    have hk := h'.left
    omega

theorem Within.mono (h : M.Within n s s') (hle : n ≤ k) : M.Within k s s' := ⟨h.refused, Nat.le_trans h.left (Nat.add_le_add_left hle _)⟩

namespace Takes

theorem mono (h : M.Takes m n) (hle : n ≤ k) : M.Takes m k := fun s hs =>
  ⟨(h s (Nat.le_trans hle hs)).1.mono hle, (h s (Nat.le_trans hle hs)).2⟩

theorem congr {m' : Fallible ε σ α} (h : M.Takes m' n) (he : ∀ s, exec m s = exec m' s) : M.Takes m n := by
  intro s hs
  rw [he s]
  exact ⟨(h s hs).1, fun k => (he _).trans ((h s hs).2 k)⟩

protected theorem pure (a : α) : M.Takes (pure a : Fallible ε σ α) 0 := fun _ _ => ⟨.refl, fun _ => rfl⟩

protected theorem throw (e : ε) : M.Takes (throw e : Fallible ε σ α) 0 := fun _ _ => ⟨.refl, fun _ => rfl⟩

theorem examine (x : Except ε α) : M.Takes (examine fun _ => x) 0 := fun _ _ => ⟨.refl, fun _ => rfl⟩

theorem bind (hm : M.Takes m n) (hf : ∀ a s s', exec m s = (.ok a, s') → M.Takes (f a) k) : M.Takes (m >>= f) (n + k) := by
  intro s hs
  obtain ⟨hwithin, hmore⟩ := hm s (by omega)
  cases hexec : exec m s with
  | mk result s₁ =>
    rw [hexec] at hwithin hmore
    cases result with
    | error e =>
      rw [exec_bind_error hexec]
      exact ⟨hwithin.mono (Nat.le_add_right _ _), fun j => exec_bind_error (hmore j)⟩
    | ok a =>
      have hleft : M.left s ≤ M.left s₁ + n := hwithin.left
      obtain ⟨hwithin', hmore'⟩ := hf a s s₁ hexec s₁ (by omega)
      rw [exec_bind_ok hexec]
      exact ⟨hwithin.trans hwithin', fun j => (exec_bind_ok (hmore j)).trans (hmore' j)⟩

theorem check {x : Except ε α} (hf : ∀ a, x = .ok a → M.Takes (f a) k) : M.Takes (Fallible.examine (fun _ => x) >>= f) k := by
  have h := (Takes.examine (M := M) x).bind fun a s s' he => hf a (by rw [exec_examine] at he; exact (Prod.mk.inj he).1)
  rwa [Nat.zero_add] at h

theorem attempt {catches : ε → Option δ} (h : M.Takes m n) : M.Takes (Fallible.attempt catches m) n := by
  intro s hs
  obtain ⟨hwithin, hmore⟩ := h s hs
  refine ⟨hwithin, fun j => ?_⟩
  show (caught catches (exec m (M.more j s)).1, (exec m (M.more j s)).2) = _
  rw [hmore j]
  rfl

end Takes

namespace Spends
variable {g h : σ → σ}

theorem refl : M.Spends (fun s => s) n s := ⟨.refl, fun _ => rfl⟩

theorem comp (hg : M.Spends g n s) (hh : M.Spends h k (g s)) : M.Spends (fun s => h (g s)) (n + k) s where
  toWithin := hg.toWithin.trans hh.toWithin
  more j := by rw [hg.more, hh.more]

theorem congr (hg : M.Spends g n s) (hs : h s = g s) (hmore : ∀ k, h (M.more k s) = g (M.more k s)) : M.Spends h n s where
  refused := by rw [hs]; exact hg.refused
  left := by rw [hs]; exact hg.left
  more k := by rw [hmore, hs]; exact hg.more k

theorem mono (hg : M.Spends g n s) (hle : n ≤ k) : M.Spends g k s := ⟨hg.toWithin.mono hle, hg.more⟩

/-- A fold spends what its items cost together, and keeps an invariant that each of them keeps. -/
theorem foldl {I : σ → Prop} {f : σ → ρ → σ} {cost : ρ → Nat} {l : List ρ}
    (hstep : ∀ s r, r ∈ l → I s → cost r ≤ M.left s → M.Spends (fun s => f s r) (cost r) s ∧ I (f s r)) (hs : I s)
    (hleft : (l.map cost).sum ≤ M.left s) : M.Spends (fun s => l.foldl f s) (l.map cost).sum s ∧ I (l.foldl f s) := by
  induction l generalizing s with
  | nil => exact ⟨.refl, hs⟩
  | cons r l ih =>
    rw [List.map_cons, List.sum_cons] at hleft
    obtain ⟨hone, hinv⟩ := hstep s r List.mem_cons_self hs (Nat.le_trans (Nat.le_add_right _ _) hleft)
    have hrest := hone.left
    obtain ⟨hmany, hinv'⟩ := ih (fun s r hr => hstep s r (List.mem_cons_of_mem _ hr)) hinv (by omega)
    rw [List.map_cons, List.sum_cons]
    exact ⟨hone.comp hmany, hinv'⟩

end Spends

end

end Meter

/-!
## Exact costs

`Costs m n a` says that a computation that is paid from its state costs exactly `n`: whoever has that much gets `a` and
keeps the rest, whoever has less is refused. Costs add up along `bind`, so that whether a whole run is paid for depends on
its total alone.
-/

namespace Costs
open Fallible
variable {ε β α γ : Type} [AddMonoid β]

/-- Something that `b` has enough of. -/
def Fits (n b : β) : Prop := ∃ c, b = n + c

end Costs

open Costs Fallible in
structure Costs {ε β α : Type} [AddMonoid β] (m : Fallible ε β α) (n : β) (a : α) : Prop where
  paid : ∀ c, exec m (n + c) = (.ok a, c)
  short : ∀ b, ¬ Fits n b → ∃ e r, exec m b = (.error e, r) ∧ ∃ d, b = d + r

namespace Costs
open Fallible
variable {ε β α γ : Type} [AddMonoid β] {m : Fallible ε β α} {f : α → Fallible ε β γ} {n k : β} {a : α} {c : γ}

protected theorem pure (a : α) : Costs (pure a : Fallible ε β α) 0 a where
  paid c := by rw [zero_add, exec_pure]
  short b h := (h ⟨b, (zero_add b).symm⟩).elim

theorem bind (hm : Costs m n a) (hf : Costs (f a) k c) : Costs (m >>= f) (n + k) c where
  paid r := by
    rw [add_assoc, exec_bind_ok (hm.paid _)]
    exact hf.paid r
  short b h := by
    by_cases hn : Fits n b
    · obtain ⟨rest, rfl⟩ := hn
      have hk : ¬ Fits k rest := by
        rintro ⟨r, rfl⟩
        exact h ⟨r, (add_assoc n k r).symm⟩
      obtain ⟨e, r, hexec, d, rfl⟩ := hf.short rest hk
      exact ⟨e, r, by rw [exec_bind_ok (hm.paid _)]; exact hexec, n + d, (add_assoc n d r).symm⟩
    · obtain ⟨e, r, hexec, hd⟩ := hm.short b hn
      exact ⟨e, r, exec_bind_error hexec, hd⟩

theorem congr {m' : Fallible ε β α} {n' : β} (h : Costs m n a) (hm : m' = m) (hn : n' = n) : Costs m' n' a := by
  rw [hm, hn]
  exact h

/-- Either it is paid for, or it is refused and something may be gone. -/
theorem cases (h : Costs m n a) (b : β) : (∃ r, b = n + r ∧ exec m b = (.ok a, r)) ∨ (¬ Fits n b ∧ ∃ e r, exec m b = (.error e, r) ∧ ∃ d, b = d + r) := by
  by_cases hn : Fits n b
  · obtain ⟨r, rfl⟩ := hn
    exact .inl ⟨r, rfl, h.paid r⟩
  · exact .inr ⟨hn, h.short b hn⟩

end Costs
