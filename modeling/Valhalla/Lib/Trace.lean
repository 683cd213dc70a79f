import Mathlib.Tactic.Common

/-!
# Labelled transition systems

`step s n t` says that the system can go from `s` to `t` and record the notes `n`. `Steps` is a
finite run with everything it recorded, in order. `Steps.invariant` is the one induction: a property
of the state and of the whole record that holds at the start and is kept by every step holds at the
end.
-/

/-- The runs of a transition system, with what they record. -/
inductive Steps {σ ν : Type} (step : σ → List ν → σ → Prop) : σ → List ν → σ → Prop
  | refl (s : σ) : Steps step s [] s
  | tail {s t u : σ} {h n : List ν} : Steps step s h t → step t n u → Steps step s (h ++ n) u

namespace Steps
variable {σ ν : Type} {step : σ → List ν → σ → Prop} {s t u : σ} {h n : List ν}

theorem single (hs : step s n t) : Steps step s n t := by
  simpa using (Steps.refl s).tail hs

theorem trans (hst : Steps step s h t) (htu : Steps step t n u) : Steps step s (h ++ n) u := by
  induction htu with
  | refl => simpa using hst
  | tail _ hlast ih => rw [← List.append_assoc]; exact ih.tail hlast

theorem invariant {I : List ν → σ → Prop} {g : List ν} (hp : Steps step s h t) (init : I g s)
    (keep : ∀ h s n t, I h s → step s n t → I (h ++ n) t) : I (g ++ h) t := by
  induction hp with
  | refl => simpa using init
  | tail _ hlast ih => rw [← List.append_assoc]; exact keep _ _ _ _ ih hlast

/-- An invariant of the state and of everything recorded since the start. -/
theorem recorded {I : List ν → σ → Prop} (hp : Steps step s h t) (init : I [] s)
    (keep : ∀ h s n t, I h s → step s n t → I (h ++ n) t) : I h t := by
  simpa using hp.invariant (g := []) init keep

theorem preserves {I : σ → Prop} (hp : Steps step s h t) (init : I s)
    (keep : ∀ s n t, I s → step s n t → I t) : I t :=
  hp.recorded (I := fun _ => I) init fun _ s n t => keep s n t

end Steps
