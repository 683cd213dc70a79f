import Valhalla.Lib.Watched
import Valhalla.Lib.Wire

/-!
# Programs with more checks, growth, and unique parsing

`Agrees m m' s`: run from `s`, the two programs do the same. A program that makes more checks agrees with the one that makes fewer
where the checks pass; the rules follow the common sequencing and look at a check only where it stands. `Grows size n m` bounds
what a program adds to a measured part of the state, which is what such checks are about. `Unambiguous put ok`: bytes that start
with an encoding determine the value and what follows it.
-/

namespace Fallible
variable {ε δ σ τ α β : Type}

/-! ### Agreement -/

def Agrees (m m' : Fallible ε σ α) (s : σ) : Prop := exec m s = exec m' s

namespace Agrees
variable {m m' : Fallible ε σ α} {f f' : α → Fallible ε σ β} {s : σ}

theorem refl (m : Fallible ε σ α) (s : σ) : Agrees m m s := rfl

theorem bind (hm : Agrees m m' s) (h : wp m' (Post (fun a s' => Agrees (f a) (f' a) s') fun _ _ => True) s) :
    Agrees (m >>= f) (m' >>= f') s := by
  unfold Agrees at hm ⊢
  rw [exec_bind, exec_bind, hm]
  unfold wp at h
  revert h
  rcases exec m' s with ⟨e | a, s'⟩ <;> intro h
  · rfl
  · exact h

theorem congr (hm : Agrees m m' s) : Agrees (m >>= f) (m' >>= f) s := by
  unfold Agrees at hm ⊢
  rw [exec_bind, exec_bind, hm]

theorem okOr {e : ε} {o : Option α} (h : ∀ a, o = some a → Agrees (f a) (f' a) s) :
    Agrees (okOr e o >>= f) (Fallible.okOr e o >>= f') s := by
  refine bind (refl _ _) ?_
  cases o with
  | none => trivial
  | some a => exact h a rfl

theorem view {g : σ → α} (h : Agrees (f (g s)) (f' (g s)) s) : Agrees (view g >>= f) (Fallible.view g >>= f') s := bind (refl _ _) h

theorem update {f f' : Unit → Fallible ε σ β} {g : σ → σ} (h : Agrees (f ()) (f' ()) (g s)) :
    Agrees (update g >>= f) (Fallible.update g >>= f') s := bind (refl _ _) h

/-- A look at the state that only the first program takes. -/
theorem look {g : σ → α} {n : Fallible ε σ β} (h : Agrees (f (g s)) n s) : Agrees (Fallible.view g >>= f) n s := by
  unfold Agrees at h ⊢
  rw [exec_bind, exec_view]
  exact h

theorem zoom {get : σ → τ} {set : τ → σ → σ} {n n' : Fallible ε τ α} (h : Agrees n n' (get s)) :
    Agrees (zoom get set n) (Fallible.zoom get set n') s := by
  unfold Agrees at h ⊢
  simp only [Fallible.zoom, exec_of, h]

theorem attempt {catches : ε → Option δ} (h : Agrees m m' s) : Agrees (attempt catches m) (Fallible.attempt catches m') s := by
  unfold Agrees at h ⊢
  simp only [Fallible.attempt, exec_of, h]

theorem foldlM {g g' : β → α → Fallible ε σ β} {I : List α → σ → Prop} {l : List α}
    (step : ∀ done a rest, l = done ++ a :: rest → ∀ b s, I done s →
      Agrees (g b a) (g' b a) s ∧ wp (g' b a) (Post (fun _ => I (done ++ [a])) fun _ _ => True) s)
    (b : β) (h : I [] s) : Agrees (l.foldlM g b) (l.foldlM g' b) s := by
  suffices H : ∀ rest done b s, l = done ++ rest → I done s → Agrees (rest.foldlM g b) (rest.foldlM g' b) s from H l [] b s rfl h
  intro rest
  induction rest with
  | nil => exact fun _ b s _ _ => refl _ s
  | cons a rest ih =>
    intro done b s hl hs
    obtain ⟨hagree, hkeep⟩ := step done a rest hl b s hs
    rw [List.foldlM_cons, List.foldlM_cons]
    exact bind hagree (hkeep.post (fun b' s' hs' => ih (done ++ [a]) b' s' (by simp [hl]) hs') fun _ _ _ => trivial)

protected theorem forM {g g' : α → Fallible ε σ PUnit} {I : List α → σ → Prop} {l : List α}
    (step : ∀ done a rest, l = done ++ a :: rest → ∀ s, I done s →
      Agrees (g a) (g' a) s ∧ wp (g' a) (Post (fun _ => I (done ++ [a])) fun _ _ => True) s)
    (h : I [] s) : Agrees (forM l g) (forM l g') s := by
  suffices H : ∀ rest done s, l = done ++ rest → I done s → Agrees (forM rest g) (forM rest g') s from H l [] s rfl h
  intro rest
  induction rest with
  | nil => exact fun _ s _ _ => refl _ s
  | cons a rest ih =>
    intro done s hl hs
    obtain ⟨hagree, hkeep⟩ := step done a rest hl s hs
    rw [List.forM_cons, List.forM_cons]
    exact bind hagree (hkeep.post (fun _ s' hs' => ih (done ++ [a]) s' (by simp [hl]) hs') fun _ _ _ => trivial)

end Agrees

/-! ### Postconditions -/

theorem wp.both {m : Fallible ε σ α} {s : σ} {I I' : α → σ → Prop} {E E' : ε → σ → Prop} (h : wp m (Post I E) s) (h' : wp m (Post I' E') s) :
    wp m (Post (fun a s' => I a s' ∧ I' a s') fun _ _ => True) s := by
  unfold wp at h h' ⊢
  revert h h'
  rcases exec m s with ⟨e | a, s'⟩ <;> intro h h'
  · trivial
  · exact ⟨h, h'⟩

theorem wp.final {m : Fallible ε σ α} {s : σ} {P : σ → Prop} (h : P (exec m s).2) : wp m (Post (fun _ => P) fun _ _ => True) s := by
  unfold wp
  revert h
  rcases exec m s with ⟨e | a, s'⟩ <;> intro h
  · trivial
  · exact h

theorem Keeps.wp {ω : Type} {obs : σ → ω} {m : Fallible ε σ α} (h : Keeps obs m) (s : σ) :
    wp m (Post (fun _ s' => obs s' = obs s) fun _ _ => True) s := wp.final (P := fun s' => obs s' = obs s) (h s)

/-! ### Growth -/

/-- However the program ends, it adds at most `n` to what `size` measures. -/
def Grows (size : σ → Nat) (n : Nat) (m : Fallible ε σ α) : Prop := ∀ s, size (exec m s).2 ≤ size s + n

namespace Grows
variable {size : σ → Nat} {n k : Nat} {m : Fallible ε σ α} {f : α → Fallible ε σ β} {s : σ}

theorem pure (a : α) : Grows size n (pure a : Fallible ε σ α) := fun _ => Nat.le_add_right _ _

theorem throw (e : ε) : Grows size n (throw e : Fallible ε σ α) := fun _ => Nat.le_add_right _ _

theorem update {g : σ → σ} (h : ∀ s, size (g s) ≤ size s + n) : Grows size n (update g : Fallible ε σ Unit) := h

theorem of_keeps (h : Keeps size m) : Grows size n m := fun s => (h s).le.trans (Nat.le_add_right _ _)

theorem mono (h : Grows size n m) (hle : n ≤ k) : Grows size k m := fun s => (h s).trans (Nat.add_le_add_left hle _)

theorem bind (hm : Grows size n m) (hf : ∀ a, Grows size k (f a)) : Grows size (n + k) (m >>= f) := by
  intro s
  rw [exec_bind]
  have hs := hm s
  revert hs
  rcases exec m s with ⟨e | a, s'⟩ <;> intro hs
  · exact hs.trans (Nat.add_le_add_left (Nat.le_add_right n k) _)
  · have hs' := hf a s'
    simp only at hs ⊢
    omega

theorem after (hm : Keeps size m) (hf : ∀ a, Grows size n (f a)) : Grows size n (m >>= f) :=
  (Grows.bind (of_keeps (n := 0) hm) hf).mono (Nat.zero_add n).le

theorem andThen (hm : Grows size n m) (hf : ∀ a, Keeps size (f a)) : Grows size n (m >>= f) :=
  hm.bind (k := 0) fun a => of_keeps (hf a)

theorem ite {c : Prop} [Decidable c] {m m' : Fallible ε σ α} (hm : Grows size n m) (hm' : Grows size n m') :
    Grows size n (if c then m else m') := by
  split
  · exact hm
  · exact hm'

theorem foldlM {g : β → α → Fallible ε σ β} (h : ∀ b a, Grows size n (g b a)) (l : List α) (b : β) :
    Grows size (l.length * n) (l.foldlM g b) := by
  induction l generalizing b with
  | nil => exact pure b
  | cons a l ih =>
    rw [List.foldlM_cons, List.length_cons, Nat.succ_mul, Nat.add_comm]
    exact (h b a).bind ih

protected theorem forM {g : α → Fallible ε σ PUnit} (h : ∀ a, Grows size n (g a)) (l : List α) : Grows size (l.length * n) (forM l g) := by
  induction l with
  | nil => exact pure _
  | cons a l ih =>
    rw [List.forM_cons, List.length_cons, Nat.succ_mul, Nat.add_comm]
    exact (h a).bind fun _ => ih

protected theorem wp (h : Grows size n m) {b : Nat} (hs : size s ≤ b) :
    wp m (Post (fun _ s' => size s' ≤ b + n) fun _ _ => True) s :=
  wp.final (P := fun s' => size s' ≤ b + n) ((h s).trans (Nat.add_le_add_right hs n))

end Grows

end Fallible

/-! ### Unique parsing -/

def Unambiguous {α : Type} (put : α → List UInt8) (ok : α → Prop) : Prop :=
  ∀ ⦃a b rest rest'⦄, ok a → ok b → put a ++ rest = put b ++ rest' → a = b ∧ rest = rest'

namespace Unambiguous
variable {ε α : Type} {get : Reader ε α} {put : α → List UInt8} {ok : α → Prop}

theorem of_codec (h : Codec get put ok) : Unambiguous put ok := fun _ _ _ _ ha hb he => h.append_inj ha hb he

theorem eq (h : Unambiguous put ok) {a b : α} (ha : ok a) (hb : ok b) (he : put a = put b) : a = b :=
  (h ha hb (congrArg (· ++ []) he)).1

section
variable {β : Type} {put' : β → List UInt8} {ok' : β → Prop} {proj : β → α}

theorem bind (proj : β → α) (h : Unambiguous put ok) (hok : ∀ r, ok' r → ok (proj r))
    (hrest : ∀ a, Unambiguous put' fun r => ok' r ∧ proj r = a) : Unambiguous (fun r => put (proj r) ++ put' r) ok' := by
  intro r r' rest rest' hr hr' he
  simp only [List.append_assoc] at he
  obtain ⟨hproj, he⟩ := h (hok r hr) (hok r' hr') he
  exact hrest (proj r) ⟨hr, rfl⟩ ⟨hr', hproj.symm⟩ he

theorem field (proj : β → α) (h : Unambiguous put fun _ => True) (hrest : ∀ a, Unambiguous put' fun r => ok' r ∧ proj r = a) :
    Unambiguous (fun r => put (proj r) ++ put' r) ok' := h.bind proj (fun _ _ => trivial) hrest

theorem last (proj : β → α) (h : Unambiguous put ok) (hok : ∀ r, ok' r → ok (proj r))
    (hext : ∀ r r', ok' r → ok' r' → proj r = proj r' → r = r') : Unambiguous (fun r => put (proj r)) ok' := by
  intro r r' rest rest' hr hr' he
  obtain ⟨hproj, he⟩ := h (hok r hr) (hok r' hr') he
  exact ⟨hext r r' hr hr' hproj, he⟩

theorem lastField (proj : β → α) (h : Unambiguous put fun _ => True) (hext : ∀ r r', ok' r → ok' r' → proj r = proj r' → r = r') :
    Unambiguous (fun r => put (proj r)) ok' := h.last proj (fun _ _ => trivial) hext

end

theorem flatMap (h : Unambiguous put ok) (n : Nat) :
    Unambiguous (fun l : List α => l.flatMap put) fun l => l.length = n ∧ ∀ a ∈ l, ok a := by
  intro l l' rest rest' hl hl' he
  induction l generalizing l' n with
  | nil =>
    obtain rfl := List.eq_nil_of_length_eq_zero (hl'.1.trans hl.1.symm)
    exact ⟨rfl, he⟩
  | cons a l ih =>
    cases l' with
    | nil => cases hl.1.trans hl'.1.symm
    | cons b l' =>
      simp only [List.flatMap_cons, List.append_assoc] at he
      obtain ⟨rfl, hrest⟩ := h (hl.2 a List.mem_cons_self) (hl'.2 b List.mem_cons_self) he
      obtain ⟨rfl, hrest'⟩ := ih l.length ⟨rfl, fun x hx => hl.2 x (List.mem_cons_of_mem _ hx)⟩
        ⟨Nat.succ.inj (hl'.1.trans hl.1.symm), fun x hx => hl'.2 x (List.mem_cons_of_mem _ hx)⟩ hrest
      exact ⟨rfl, hrest'⟩

theorem vector (h : Unambiguous put fun _ => True) (n : Nat) : Unambiguous (fun v : Vector α n => v.toList.flatMap put) fun _ => True := by
  intro v v' rest rest' _ _ he
  obtain ⟨hv, he⟩ := h.flatMap n ⟨v.length_toList, fun _ _ => trivial⟩ ⟨v'.length_toList, fun _ _ => trivial⟩ he
  exact ⟨Vector.toList_inj.1 hv, he⟩

end Unambiguous
