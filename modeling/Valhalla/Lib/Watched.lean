import Mathlib.Data.List.Chain
import Valhalla.Lib.Fallible
import Valhalla.Lib.Trace

/-!
# Programs that change a watched part of the state at most once

`Keeps obs m`: whatever `m` returns, it leaves what `obs` reads. `Moves obs R b m`: from the reading `b` it leaves it, or
takes it to a reading that `R b` allows, also when it fails later. A program that first reads and checks, then changes once,
and then reads again, is put together from these. `Steps.chain` is about runs of such programs: the values they record are a chain
from the first one.
-/

namespace Fallible
variable {ε δ σ α β ω : Type}

/-- A computation that does not look at the state. -/
def lift (x : Except ε α) : Fallible ε σ α := examine fun _ => x

@[simp] theorem exec_lift (x : Except ε α) (s : σ) : exec (lift x : Fallible ε σ α) s = (x, s) := rfl

def Keeps (obs : σ → ω) (m : Fallible ε σ α) : Prop := ∀ s, obs (exec m s).2 = obs s

def Moves (obs : σ → ω) (R : ω → ω → Prop) (b : ω) (m : Fallible ε σ α) : Prop :=
  ∀ s, obs s = b → obs (exec m s).2 = b ∨ R b (obs (exec m s).2)

variable {obs : σ → ω} {R R' : ω → ω → Prop} {b : ω} {m : Fallible ε σ α} {f : α → Fallible ε σ β}

namespace Keeps

theorem pure (a : α) : Keeps obs (pure a : Fallible ε σ α) := fun _ => rfl

theorem throw (e : ε) : Keeps obs (throw e : Fallible ε σ α) := fun _ => rfl

theorem view (g : σ → α) : Keeps obs (view g : Fallible ε σ α) := fun _ => rfl

theorem lift (x : Except ε α) : Keeps obs (lift x : Fallible ε σ α) := fun _ => rfl

theorem update {g : σ → σ} (h : ∀ s, obs (g s) = obs s) : Keeps obs (update g : Fallible ε σ Unit) := h

theorem okOr (e : ε) (o : Option α) : Keeps obs (okOr e o : Fallible ε σ α) := by
  cases o with
  | none => exact throw e
  | some a => exact pure a

theorem bind (hm : Keeps obs m) (hf : ∀ a, Keeps obs (f a)) : Keeps obs (m >>= f) := by
  intro s
  rw [exec_bind]
  have hms := hm s
  cases hexec : exec m s with
  | mk r s' =>
    rw [hexec] at hms
    cases r with
    | error e => exact hms
    | ok a => exact (hf a s').trans hms

theorem attempt {catches : ε → Option δ} (hm : Keeps obs m) : Keeps obs (attempt catches m) := hm

theorem ite {c : Prop} [Decidable c] {m m' : Fallible ε σ α} (hm : Keeps obs m) (hm' : Keeps obs m') : Keeps obs (if c then m else m') := by
  split
  · exact hm
  · exact hm'

theorem forM {l : List α} {f : α → Fallible ε σ PUnit} (h : ∀ a, Keeps obs (f a)) : Keeps obs (forM l f) := by
  induction l with
  | nil => exact pure _
  | cons a l ih =>
    rw [List.forM_cons]
    exact (h a).bind fun _ => ih

end Keeps

namespace Moves

theorem of_keeps (hm : Keeps obs m) : Moves obs R b m := fun s hs => .inl ((hm s).trans hs)

theorem mono (hm : Moves obs R b m) (h : ∀ b', R b b' → R' b b') : Moves obs R' b m :=
  fun s hs => (hm s hs).imp id (h _)

theorem pure (a : α) : Moves obs R b (pure a : Fallible ε σ α) := of_keeps (.pure a)

theorem throw (e : ε) : Moves obs R b (throw e : Fallible ε σ α) := of_keeps (.throw e)

/-- A first part that only reads: of what it returns, `P` is known. -/
theorem bind_read {P : α → Prop} (hm : Keeps obs m) (hP : ∀ s a s', obs s = b → exec m s = (.ok a, s') → P a)
    (hf : ∀ a, P a → Moves obs R b (f a)) : Moves obs R b (m >>= f) := by
  intro s hs
  rw [exec_bind]
  have hms := hm s
  cases hexec : exec m s with
  | mk r s' =>
    rw [hexec] at hms
    cases r with
    | error e => exact .inl (hms.trans hs)
    | ok a => exact hf a (hP s a s' hs hexec) s' (hms.trans hs)

theorem bind (hm : Keeps obs m) (hf : ∀ a, Moves obs R b (f a)) : Moves obs R b (m >>= f) :=
  bind_read (P := fun _ => True) hm (fun _ _ _ _ _ => trivial) fun a _ => hf a

theorem bind_lift {x : Except ε α} (hf : ∀ a, x = .ok a → Moves obs R b (f a)) : Moves obs R b (lift x >>= f) :=
  bind_read (Keeps.lift x) (fun _ _ _ _ h => (Prod.mk.inj h).1) hf

/-- What follows the change only reads. -/
theorem andThen (hm : Moves obs R b m) (hf : ∀ a, Keeps obs (f a)) : Moves obs R b (m >>= f) := by
  intro s hs
  rw [exec_bind]
  have hms := hm s hs
  cases hexec : exec m s with
  | mk r s' =>
    rw [hexec] at hms
    cases r with
    | error e => exact hms
    | ok a =>
      dsimp only at hms ⊢
      rw [hf a s']
      exact hms

theorem ite {c : Prop} [Decidable c] {m m' : Fallible ε σ α} (hm : c → Moves obs R b m) (hm' : ¬ c → Moves obs R b m') :
    Moves obs R b (if c then m else m') := by
  split
  · rename_i h
    exact hm h
  · rename_i h
    exact hm' h

end Moves

end Fallible

namespace Steps
variable {σ α : Type} {step : σ → List α → σ → Prop} {obs : σ → Option α} {R : α → α → Prop} {s t : σ} {h : List α} {a : α}

theorem chain (hp : Steps step s h t) (init : obs s = some a)
    (keep : ∀ s n t a, obs s = some a → step s n t → (n = [] ∧ obs t = some a) ∨ ∃ b, n = [b] ∧ obs t = some b ∧ R a b) :
    (a :: h).IsChain R ∧ obs t = (a :: h).getLast? := by
  refine hp.recorded (I := fun h t => (a :: h).IsChain R ∧ obs t = (a :: h).getLast?) ⟨.singleton a, init⟩ ?_
  rintro h s n t ⟨hchain, hlast⟩ hstep
  obtain ⟨b, hb⟩ : ∃ b, (a :: h).getLast? = some b := ⟨_, List.getLast?_eq_some_getLast (List.cons_ne_nil a h)⟩
  rcases keep s n t b (hlast.trans hb) hstep with ⟨rfl, ht⟩ | ⟨c, rfl, ht, hr⟩
  · rw [List.append_nil]
    exact ⟨hchain, ht.trans hb.symm⟩
  · rw [← List.cons_append]
    refine ⟨hchain.append (.singleton c) ?_, ht.trans List.getLast?_concat.symm⟩
    rintro x hx y hy
    cases hy
    rw [hb] at hx
    cases hx
    exact hr

end Steps
