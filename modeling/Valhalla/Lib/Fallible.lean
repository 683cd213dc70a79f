import Mathlib.Tactic.Common

/-!
# Stateful computations that may fail

`Fallible ε σ` is Rust's `fn(&mut σ) -> Result<_, ε>`: a failure keeps the state as it was when the
failing operation returned. `wp` is its weakest precondition; `Post I E` splits a postcondition into
the part for normal returns and the part for failures, with rules for loops (`wp_foldlM`, `wp_forM`).
`Sim` compares two programs: the second one agrees with the first one unless that ends badly.
-/

abbrev Fallible (ε σ : Type) := ExceptT ε (StateM σ)

namespace Fallible
variable {ε δ σ τ α β : Type}

/-- The result and the final state of a run from `s`. -/
def exec (m : Fallible ε σ α) (s : σ) : Except ε α × σ := m.run.run s

/-- A primitive operation given by its run. -/
def of (f : σ → Except ε α × σ) : Fallible ε σ α := ExceptT.mk fun s => f s

/-- Read a projection of the state. -/
def view (f : σ → α) : Fallible ε σ α := of fun s => (.ok (f s), s)

def update (f : σ → σ) : Fallible ε σ Unit := of fun s => (.ok (), f s)

/-- A validation of the state that leaves it as it is (a `&self` method). -/
def examine (f : σ → Except ε α) : Fallible ε σ α := of fun s => (f s, s)

/-- The value of an option, or the failure `e` (`ok_or`). -/
def okOr (e : ε) : Option α → Fallible ε σ α
  | some a => pure a
  | none => throw e

@[simp] theorem okOr_some (e : ε) (a : α) : okOr (σ := σ) e (some a) = pure a := rfl
@[simp] theorem okOr_none (e : ε) : okOr (σ := σ) e (none : Option α) = throw e := rfl

/-- Run `m` on a component of the state. -/
def zoom (get : σ → τ) (set : τ → σ → σ) (m : Fallible ε τ α) : Fallible ε σ α :=
  of fun s => let (r, t) := exec m (get s); (r, set t s)

/-- A result with the failures selected by `catches` turned into values. -/
def caught (catches : ε → Option δ) : Except ε α → Except ε (Except δ α)
  | .ok a => .ok (.ok a)
  | .error e =>
    match catches e with
    | some d => .ok (.error d)
    | none => .error e

/-- Run `m` and hand the failures selected by `catches` to the caller as values. -/
def attempt (catches : ε → Option δ) (m : Fallible ε σ α) : Fallible ε σ (Except δ α) :=
  of fun s => (caught catches (exec m s).1, (exec m s).2)

/-- A postcondition from its normal and its failing part. -/
def Post (I : α → σ → Prop) (E : ε → σ → Prop) : Except ε α → σ → Prop
  | .ok a, s => I a s
  | .error e, s => E e s

@[simp] theorem Post_ok (I : α → σ → Prop) (E : ε → σ → Prop) (a : α) (s : σ) :
    Post I E (.ok a) s ↔ I a s := Iff.rfl

@[simp] theorem Post_error (I : α → σ → Prop) (E : ε → σ → Prop) (e : ε) (s : σ) :
    Post I E (.error e) s ↔ E e s := Iff.rfl

/-- `Q` holds of the result and the state after running `m` from `s`. -/
def wp (m : Fallible ε σ α) (Q : Except ε α → σ → Prop) (s : σ) : Prop :=
  Q (exec m s).1 (exec m s).2

section
variable {m : Fallible ε σ α} {f : α → Fallible ε σ β} {s : σ}

@[simp] theorem exec_of (f : σ → Except ε α × σ) : exec (of f) s = f s := rfl
@[simp] theorem exec_view (f : σ → α) : exec (view (ε := ε) f) s = (.ok (f s), s) := rfl
@[simp] theorem exec_update (f : σ → σ) : exec (update (ε := ε) f) s = (.ok (), f s) := rfl
@[simp] theorem exec_pure (a : α) : exec (pure a : Fallible ε σ α) s = (.ok a, s) := rfl
@[simp] theorem exec_throw (e : ε) : exec (throw e : Fallible ε σ α) s = (.error e, s) := rfl

theorem exec_bind : exec (m >>= f) s =
    match exec m s with
    | (.ok a, s') => exec (f a) s'
    | (.error e, s') => (.error e, s') := by
  show (ExceptT.bindCont f (exec m s).1 (exec m s).2 : Except ε β × σ) = _
  rcases exec m s with ⟨_ | _, _⟩ <;> rfl

@[simp] theorem exec_examine (f : σ → Except ε α) : exec (examine f) s = (f s, s) := rfl

theorem exec_examine_bind {g : σ → Except ε α} :
    exec (examine g >>= f) s =
      match g s with
      | .ok a => exec (f a) s
      | .error e => (.error e, s) := by
  rw [exec_bind, exec_examine]
  cases g s <;> rfl

theorem exec_bind_ok {a : α} {s' : σ} (h : exec m s = (.ok a, s')) : exec (m >>= f) s = exec (f a) s' := by
  rw [exec_bind, h]

theorem exec_bind_eq_ok {s' : σ} {b : β} :
    exec (m >>= f) s = (.ok b, s') ↔ ∃ a mid, exec m s = (.ok a, mid) ∧ exec (f a) mid = (.ok b, s') := by
  rw [exec_bind]
  rcases exec m s with ⟨e | a, mid⟩ <;> simp

theorem exec_bind_eq_error {s' : σ} {e : ε} :
    exec (m >>= f) s = (.error e, s') ↔
      exec m s = (.error e, s') ∨ ∃ a mid, exec m s = (.ok a, mid) ∧ exec (f a) mid = (.error e, s') := by
  rw [exec_bind]
  rcases exec m s with ⟨e | a, mid⟩ <;> simp

theorem exec_bind_error {e : ε} {s' : σ} (h : exec m s = (.error e, s')) :
    exec (m >>= f) s = (.error e, s') := by
  rw [exec_bind, h]

end

/-! ### Weakest preconditions -/

section
variable {m : Fallible ε σ α} {f : α → Fallible ε σ β} {s : σ}

theorem wp.mono {Q Q' : Except ε α → σ → Prop} (h : wp m Q s) (hQ : ∀ r s', Q r s' → Q' r s') :
    wp m Q' s := hQ _ _ h

theorem wp.post {I I' : α → σ → Prop} {E E' : ε → σ → Prop} (h : wp m (Post I E) s)
    (hI : ∀ a s', I a s' → I' a s') (hE : ∀ e s', E e s' → E' e s') : wp m (Post I' E') s := by
  refine h.mono fun r s' hr => ?_
  cases r with
  | ok a => exact hI a s' hr
  | error e => exact hE e s' hr

@[simp] theorem wp_pure (a : α) (Q : Except ε α → σ → Prop) : wp (pure a) Q s ↔ Q (.ok a) s := Iff.rfl

@[simp] theorem wp_throw (e : ε) (Q : Except ε α → σ → Prop) : wp (throw e) Q s ↔ Q (.error e) s :=
  Iff.rfl

@[simp] theorem wp_view (f : σ → α) (Q : Except ε α → σ → Prop) : wp (view f) Q s ↔ Q (.ok (f s)) s :=
  Iff.rfl

@[simp] theorem wp_update (f : σ → σ) (Q : Except ε Unit → σ → Prop) :
    wp (update f) Q s ↔ Q (.ok ()) (f s) := Iff.rfl

theorem wp_bind (Q : Except ε β → σ → Prop) :
    wp (m >>= f) Q s ↔ wp m (Post (fun a s' => wp (f a) Q s') fun e s' => Q (.error e) s') s := by
  simp only [wp, exec_bind]
  rcases exec m s with ⟨_ | _, _⟩ <;> rfl

theorem wp_okOr (e : ε) (o : Option α) (Q : Except ε α → σ → Prop) :
    wp (okOr e o) Q s ↔ (∀ a, o = some a → Q (.ok a) s) ∧ (o = none → Q (.error e) s) := by
  cases o <;> simp [okOr]

theorem wp_zoom (get : σ → τ) (set : τ → σ → σ) (n : Fallible ε τ α) (Q : Except ε α → σ → Prop) :
    wp (zoom get set n) Q s ↔ wp n (fun r t => Q r (set t s)) (get s) := Iff.rfl

theorem wp_attempt (catches : ε → Option δ) (Q : Except ε (Except δ α) → σ → Prop) :
    wp (attempt catches m) Q s ↔ wp m (Post (fun a s' => Q (.ok (.ok a)) s') fun e s' =>
      (∀ d, catches e = some d → Q (.ok (.error d)) s') ∧ (catches e = none → Q (.error e) s')) s := by
  simp only [wp, attempt, exec_of]
  rcases exec m s with ⟨e | a, s'⟩
  · cases h : catches e <;> simp [caught, Post, h]
  · simp [caught, Post]

/-- A loop with an accumulator keeps an invariant that every iteration keeps. -/
theorem wp_foldlM {f : β → α → Fallible ε σ β} {I : β → σ → Prop} {E : ε → σ → Prop} {l : List α}
    (step : ∀ a ∈ l, ∀ b s, I b s → wp (f b a) (Post I E) s) {b : β} (h : I b s) :
    wp (l.foldlM f b) (Post I E) s := by
  induction l generalizing b s with
  | nil => exact h
  | cons a l ih =>
    rw [List.foldlM_cons, wp_bind]
    refine (step a (by simp) b s h).post (fun b' s' hb => ?_) fun _ _ he => he
    exact ih (fun a' ha' => step a' (by simp [ha'])) hb

/-- A loop establishes the invariant of the whole list from the invariant of the empty prefix. -/
theorem wp_forM {f : α → Fallible ε σ PUnit} {I : List α → σ → Prop} {E : ε → σ → Prop} {l : List α}
    (step : ∀ done a rest, l = done ++ a :: rest → ∀ s, I done s →
      wp (f a) (Post (fun _ => I (done ++ [a])) E) s)
    (h : I [] s) : wp (forM l f) (Post (fun _ => I l) E) s := by
  suffices H : ∀ rest done s, l = done ++ rest → I done s → wp (forM rest f) (Post (fun _ => I l) E) s from
    H l [] s rfl h
  intro rest
  induction rest with
  | nil => intro done s hl hs; rw [hl, List.append_nil]; exact hs
  | cons a rest ih =>
    intro done s hl hs
    rw [List.forM_cons, wp_bind]
    refine (step done a rest hl s hs).post (fun _ s' hs' => ?_) fun _ _ he => he
    exact ih (done ++ [a]) s' (by simp [hl]) hs'

end

/-! ### Agreement of two runs up to a fatal outcome -/

/-- Unless `m` ends badly, `m` and `m'` run from `R`-related states return the same and end in
`R`-related states. -/
def Sim (R : σ → σ → Prop) (bad : Except ε α → Prop) (m m' : Fallible ε σ α) : Prop :=
  ∀ s s', R s s' → bad (exec m s).1 ∨
    (exec m' s').1 = (exec m s).1 ∧ R (exec m s).2 (exec m' s').2

/-- The failures that `fatal` names. -/
def Fails (fatal : ε → Prop) : Except ε α → Prop
  | .ok _ => False
  | .error e => fatal e

namespace Sim
variable {R : σ → σ → Prop} {bad : Except ε α → Prop} {bad' : Except ε β → Prop} {fatal : ε → Prop}
  {m m' : Fallible ε σ α} {f f' : α → Fallible ε σ β}

theorem pure (a : α) : Sim R bad (pure a) (pure a : Fallible ε σ α) := fun _ _ h => .inr ⟨rfl, h⟩

theorem throw (e : ε) : Sim R bad (throw e) (throw e : Fallible ε σ α) := fun _ _ h => .inr ⟨rfl, h⟩

theorem view {g : σ → α} (h : ∀ s s', R s s' → g s' = g s) : Sim R bad (view g) (Fallible.view g) :=
  fun s s' hs => .inr ⟨congrArg Except.ok (h s s' hs), hs⟩

theorem update {bad : Except ε Unit → Prop} {g : σ → σ} (h : ∀ s s', R s s' → R (g s) (g s')) :
    Sim R bad (update g) (Fallible.update g) := fun s s' hs => .inr ⟨rfl, h s s' hs⟩

theorem okOr (e : ε) (o : Option α) : Sim R bad (okOr e o) (Fallible.okOr e o) := by
  cases o with
  | none => exact throw e
  | some a => exact pure a

/-- The rest of the program is compared where `m` returned; a bad outcome of `m` must stay bad. -/
theorem bind (hm : Sim R bad m m') (hbad : ∀ s, bad (exec m s).1 → bad' (exec (m >>= f) s).1)
    (hf : ∀ a, Sim R bad' (f a) (f' a)) : Sim R bad' (m >>= f) (m' >>= f') := by
  intro s s' hs
  obtain h | ⟨h, hR⟩ := hm s s' hs
  · exact .inl (hbad s h)
  · rw [exec_bind, exec_bind]
    revert h hR
    rcases exec m s with ⟨e | a, t⟩ <;> rcases exec m' s' with ⟨e' | a', t'⟩ <;> intro h hR <;> cases h
    · exact .inr ⟨rfl, hR⟩
    · exact hf a t t' hR

theorem view_bind {g : σ → α} (h : ∀ s s', R s s' → g s' = g s) (hf : ∀ a, Sim R bad' (f a) (f' a)) :
    Sim R bad' (Fallible.view g >>= f) (Fallible.view g >>= f') :=
  (show Sim R (fun _ => False) _ _ from view h).bind (fun _ h => h.elim) hf

theorem update_bind {f f' : Unit → Fallible ε σ β} {g : σ → σ} (h : ∀ s s', R s s' → R (g s) (g s'))
    (hf : ∀ u, Sim R bad' (f u) (f' u)) : Sim R bad' (Fallible.update g >>= f) (Fallible.update g >>= f') :=
  (show Sim R (fun _ => False) _ _ from update h).bind (fun _ h => h.elim) hf

theorem okOr_bind {e : ε} {o : Option α} (hf : ∀ a, Sim R bad' (f a) (f' a)) :
    Sim R bad' (Fallible.okOr e o >>= f) (Fallible.okOr e o >>= f') :=
  (show Sim R (fun _ => False) _ _ from okOr e o).bind (fun _ h => h.elim) hf

theorem andThen (hm : Sim R (Fails fatal) m m') (hf : ∀ a, Sim R (Fails fatal) (f a) (f' a)) :
    Sim R (Fails fatal) (m >>= f) (m' >>= f') := by
  refine hm.bind (fun s h => ?_) hf
  rw [exec_bind]
  revert h
  rcases exec m s with ⟨e | a, t⟩ <;> intro h
  · exact h
  · cases h

theorem attempt {catches : ε → Option δ} (hc : ∀ e, fatal e → catches e = none) (hm : Sim R (Fails fatal) m m') :
    Sim R (Fails fatal) (attempt catches m) (Fallible.attempt catches m') := by
  intro s s' hs
  simp only [Fallible.attempt, exec_of]
  obtain h | ⟨h, hR⟩ := hm s s' hs
  · revert h
    cases (exec m s).1 with
    | ok a => exact False.elim
    | error e => exact fun h => .inl (by simp only [caught, hc e h]; exact h)
  · exact .inr ⟨congrArg _ h, hR⟩

theorem foldlM {g g' : β → α → Fallible ε σ β} (h : ∀ b a, Sim R (Fails fatal) (g b a) (g' b a)) (l : List α) (b : β) :
    Sim R (Fails fatal) (l.foldlM g b) (l.foldlM g' b) := by
  induction l generalizing b with
  | nil => exact pure b
  | cons a l ih =>
    rw [List.foldlM_cons, List.foldlM_cons]
    exact (h b a).andThen ih

theorem forM {g g' : α → Fallible ε σ PUnit} (h : ∀ a, Sim R (Fails fatal) (g a) (g' a)) (l : List α) :
    Sim R (Fails fatal) (forM l g) (forM l g') := by
  induction l with
  | nil => exact pure _
  | cons a l ih =>
    rw [List.forM_cons, List.forM_cons]
    exact (h a).andThen fun _ => ih

theorem zoom {S : τ → τ → Prop} {get : σ → τ} {set : τ → σ → σ} {n n' : Fallible ε τ α} (hn : Sim S bad n n')
    (hget : ∀ s s', R s s' → S (get s) (get s'))
    (hset : ∀ s s' t t', R s s' → S t t' → R (set t s) (set t' s')) :
    Sim R bad (zoom get set n) (Fallible.zoom get set n') := by
  intro s s' hs
  obtain h | ⟨h, hS⟩ := hn (get s) (get s') (hget s s' hs)
  · exact .inl h
  · exact .inr ⟨h, hset s s' _ _ hs hS⟩

end Sim

end Fallible
