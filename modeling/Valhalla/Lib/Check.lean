import Mathlib.Tactic.Common
import Mathlib.Data.List.Basic

/-!
# Validators

A validator is a computation in `Except ε` that returns early with the first error. `bind_eq_ok`,
`require_eq_ok`, `okOr_eq_ok` and `forM_eq_ok` turn "the validator accepted" into the list of facts
it checked; `distinct` is the usual duplicate scan with a list of the keys seen so far.
-/

namespace Check
variable {ε α β κ : Type}

/-- Go on only if the condition holds. -/
def require (e : ε) (b : Bool) : Except ε Unit := if b then .ok () else .error e

/-- The value of an option, or the error `e` (`ok_or`). -/
def okOr (e : ε) : Option α → Except ε α
  | some a => .ok a
  | none => .error e

@[simp] theorem bind_eq_ok {x : Except ε α} {f : α → Except ε β} {b : β} :
    (x >>= f) = .ok b ↔ ∃ a, x = .ok a ∧ f a = .ok b := by
  cases x <;> simp [bind, Except.bind]

@[simp] theorem require_eq_ok {e : ε} {b : Bool} {u : Unit} : require e b = .ok u ↔ b = true := by
  unfold require; split <;> simp_all

@[simp] theorem require_eq_error {e e' : ε} {b : Bool} : require e b = .error e' ↔ b = false ∧ e = e' := by
  unfold require; split <;> simp_all

@[simp] theorem bind_eq_error {x : Except ε α} {f : α → Except ε β} {e : ε} :
    (x >>= f) = .error e ↔ x = .error e ∨ ∃ a, x = .ok a ∧ f a = .error e := by
  cases x <;> simp [bind, Except.bind]

@[simp] theorem okOr_eq_ok {e : ε} {o : Option α} {a : α} : okOr e o = .ok a ↔ o = some a := by
  cases o <;> simp [okOr]

@[simp] theorem mapError_eq_ok {ε' : Type} {f : ε → ε'} {x : Except ε α} {a : α} : x.mapError f = .ok a ↔ x = .ok a := by
  cases x <;> simp [Except.mapError]

@[simp] theorem forM_eq_ok {l : List α} {f : α → Except ε Unit} {u : Unit} :
    forM l f = .ok u ↔ ∀ a ∈ l, f a = .ok () := by
  induction l with
  | nil => simp [pure, Except.pure]
  | cons a l ih =>
    simp only [List.forM_cons, bind_eq_ok, ih, List.mem_cons, forall_eq_or_imp]
    exact ⟨fun ⟨(), ha, hl⟩ => ⟨ha, hl⟩, fun ⟨ha, hl⟩ => ⟨(), ha, hl⟩⟩

theorem mapM_eq_ok {l : List α} {f : α → Except ε β} {bs : List β} :
    l.mapM f = .ok bs ↔ List.Forall₂ (fun a b => f a = .ok b) l bs := by
  induction l generalizing bs with
  | nil =>
    cases bs with
    | nil => exact ⟨fun _ => .nil, fun _ => rfl⟩
    | cons b bs => exact ⟨fun h => (nomatch h), fun h => (nomatch h)⟩
  | cons a l ih =>
    simp only [List.mapM_cons, bind_eq_ok, ih]
    constructor
    · rintro ⟨b, hb, bs', hbs, he⟩
      cases he
      exact .cons hb hbs
    · rintro (_ | ⟨hb, hbs⟩)
      exact ⟨_, hb, _, hbs, rfl⟩

theorem mapM_total {f : α → Except ε β} {l : List α} (h : ∀ a ∈ l, ∃ b, f a = .ok b) : ∃ bs, l.mapM f = .ok bs := by
  induction l with
  | nil => exact ⟨[], rfl⟩
  | cons a l ih =>
    obtain ⟨b, hb⟩ := h a List.mem_cons_self
    obtain ⟨bs, hbs⟩ := ih fun a ha => h a (List.mem_cons_of_mem _ ha)
    exact ⟨b :: bs, mapM_eq_ok.2 (.cons hb (mapM_eq_ok.1 hbs))⟩

/-- Every accumulator of an accepted scan satisfies an invariant that each accepted item keeps. -/
theorem foldlM_invariant {f : β → α → Except ε β} {I : List α → β → Prop} {l : List α} {b b' : β}
    (step : ∀ done a b b', I done b → f b a = .ok b' → I (done ++ [a]) b')
    (h : I [] b) (hf : l.foldlM f b = .ok b') : I l b' := by
  suffices H : ∀ (rest done : List α) (b : β), I done b → rest.foldlM f b = .ok b' →
      I (done ++ rest) b' by simpa using H l [] b h hf
  intro rest
  induction rest with
  | nil => intro done b h hf; cases hf; simpa using h
  | cons a rest ih =>
    intro done b h hf
    rw [List.foldlM_cons, bind_eq_ok] at hf
    obtain ⟨b₁, h₁, hf⟩ := hf
    simpa using ih (done ++ [a]) b₁ (step done a b b₁ h h₁) hf

/-! ### The errors of a validator -/

/-- Every error of a computation satisfies `p`. -/
def ThrowsOnly (p : ε → Prop) (x : Except ε α) : Prop := ∀ e, x = .error e → p e

namespace ThrowsOnly
variable {p : ε → Prop} {x : Except ε α} {e : ε}

theorem ok {a : α} : ThrowsOnly p (.ok a : Except ε α) := fun _ h => by cases h

theorem error (h : p e) : ThrowsOnly p (.error e : Except ε α) := fun _ he => by
  cases he
  exact h

theorem bind {f : α → Except ε β} (hx : ThrowsOnly p x) (hf : ∀ a, ThrowsOnly p (f a)) : ThrowsOnly p (x >>= f) := by
  intro e he
  rcases bind_eq_error.1 he with he | ⟨a, -, he⟩
  · exact hx e he
  · exact hf a e he

theorem require {b : Bool} (h : p e) : ThrowsOnly p (Check.require e b) := fun _ he => (require_eq_error.1 he).2 ▸ h

theorem okOr {o : Option α} (h : p e) : ThrowsOnly p (Check.okOr e o) := by
  cases o with
  | none => exact error h
  | some a => exact ok

theorem mapError {ε' : Type} {y : Except ε' α} {f : ε' → ε} (h : ∀ e, p (f e)) : ThrowsOnly p (y.mapError f) := by
  cases y with
  | error e => exact error (h e)
  | ok a => exact ok

end ThrowsOnly

section distinct
variable [BEq κ] [LawfulBEq κ]

/-- No key occurs twice, nor among the keys already `seen`. -/
def distinctFrom (seen : List κ) : List κ → Bool
  | [] => true
  | k :: ks => if seen.contains k then false else distinctFrom (seen ++ [k]) ks

def distinct (ks : List κ) : Bool := distinctFrom [] ks

theorem distinctFrom_iff {seen ks : List κ} :
    distinctFrom seen ks = true ↔ ks.Nodup ∧ ∀ k ∈ ks, k ∉ seen := by
  induction ks generalizing seen with
  | nil => simp [distinctFrom]
  | cons k ks ih =>
    simp only [distinctFrom]
    split
    · rename_i h
      simp only [List.contains_iff_mem] at h
      simp [h]
    · rename_i h
      simp only [List.contains_iff_mem] at h
      rw [ih, List.nodup_cons]
      constructor
      · rintro ⟨hnd, hks⟩
        have hk : k ∉ ks := fun hk => hks k hk (by simp)
        exact ⟨⟨hk, hnd⟩, fun k' hk' hs => by
          rcases List.mem_cons.1 hk' with rfl | hk'
          · exact h hs
          · exact hks k' hk' (by simp [hs])⟩
      · rintro ⟨⟨hk, hnd⟩, hks⟩
        refine ⟨hnd, fun k' hk' hs => ?_⟩
        rcases List.mem_append.1 hs with hs | hs
        · exact hks k' (by simp [hk']) hs
        · exact hk (List.mem_singleton.1 hs ▸ hk')

@[simp] theorem distinct_iff {ks : List κ} : distinct ks = true ↔ ks.Nodup := by
  simp [distinct, distinctFrom_iff]

end distinct

/-- Neighbours are strictly increasing. -/
def ascending [LT κ] [DecidableLT κ] : List κ → Bool
  | a :: b :: rest => decide (a < b) && ascending (b :: rest)
  | _ => true

theorem ascending_iff [LT κ] [DecidableLT κ] [IsTrans κ (· < ·)] {ks : List κ} :
    ascending ks = true ↔ ks.Pairwise (· < ·) := by
  rw [← List.isChain_iff_pairwise]
  induction ks with
  | nil => simp [ascending]
  | cons a ks ih =>
    cases ks with
    | nil => simp [ascending]
    | cons b ks => simp [ascending, ih, List.isChain_cons_cons]

/-- Neighbours are strictly increasing in a comparison. -/
def ascendingBy (cmp : κ → κ → Ordering) : List κ → Bool
  | a :: b :: rest => cmp a b == .lt && ascendingBy cmp (b :: rest)
  | _ => true

theorem ascendingBy_iff {cmp : κ → κ → Ordering} [Std.TransCmp cmp] {ks : List κ} :
    ascendingBy cmp ks = true ↔ ks.Pairwise (cmp · · = .lt) := by
  have : IsTrans κ (cmp · · = .lt) := ⟨fun _ _ _ => Std.TransCmp.lt_trans⟩
  rw [← List.isChain_iff_pairwise]
  induction ks with
  | nil => simp [ascendingBy]
  | cons a ks ih =>
    cases ks with
    | nil => simp [ascendingBy]
    | cons b ks => simp [ascendingBy, ih, List.isChain_cons_cons]

theorem nodup_of_ascendingBy {cmp : κ → κ → Ordering} [Std.TransCmp cmp] {ks : List κ} (h : ascendingBy cmp ks = true) :
    ks.Nodup :=
  (ascendingBy_iff.1 h).imp fun {a b} hlt he => by
    have hself : cmp a a = .eq := Std.ReflCmp.compare_self
    rw [← he, hself] at hlt
    cases hlt

end Check
