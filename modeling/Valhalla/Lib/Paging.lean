import Mathlib.Data.List.Basic
import Mathlib.Tactic.Common

/-!
# Paged reading

A server answers a cursor with some records and, where there are more, with the cursor for them. `Serves` says that
what is left from a cursor is the page and what is left from the next one, and that no page is empty on the way;
then following the cursors gives every record once, in order, and ends (`Serves.follow`).
-/

namespace Paging
variable {ε κ α : Type}

/-- The pages from a cursor on, or `none` if one is refused or there are `n` of them already. -/
def follow (serve : κ → Except ε (List α × Option κ)) : Nat → κ → Option (List (List α))
  | 0, _ => none
  | n + 1, c =>
    match serve c with
    | .error _ => none
    | .ok (records, none) => some [records]
    | .ok (records, some c') => (follow serve n c').map (records :: ·)

/-- Every page from a good cursor is the start of what is left there. -/
structure Serves (serve : κ → Except ε (List α × Option κ)) (good : κ → Prop) (rest : κ → List α) : Prop where
  answer : ∀ c, good c → ∃ records next, serve c = .ok (records, next) ∧
    match next with
    | none => records = rest c
    | some c' => good c' ∧ records ≠ [] ∧ rest c = records ++ rest c'

theorem Serves.congr {serve serve' : κ → Except ε (List α × Option κ)} {good : κ → Prop} {rest : κ → List α}
    (h : Serves serve good rest) (heq : ∀ c, good c → serve' c = serve c) : Serves serve' good rest := by
  refine ⟨fun c hc => ?_⟩
  rw [heq c hc]
  exact h.answer c hc

theorem Serves.follow {serve : κ → Except ε (List α × Option κ)} {good : κ → Prop} {rest : κ → List α} {c : κ} {n : Nat}
    (h : Serves serve good rest) (hc : good c) (hn : (rest c).length < n) :
    ∃ pages, Paging.follow serve n c = some pages ∧ pages.flatten = rest c := by
  induction n generalizing c with
  | zero => exact absurd hn (Nat.not_lt_zero _)
  | succ n ih =>
    obtain ⟨records, next, hserve, hanswer⟩ := h.answer c hc
    cases next with
    | none =>
      refine ⟨[records], by rw [Paging.follow, hserve], ?_⟩
      rw [List.flatten_cons, List.flatten_nil, List.append_nil]
      exact hanswer
    | some c' =>
      obtain ⟨hgood, hne, hrest⟩ := hanswer
      have hpos : 0 < records.length := List.length_pos_iff.2 hne
      rw [hrest, List.length_append] at hn
      obtain ⟨pages, hpages, hflat⟩ := ih hgood (by omega)
      refine ⟨records :: pages, ?_, by rw [List.flatten_cons, hflat, hrest]⟩
      rw [Paging.follow, hserve]
      exact congrArg (Option.map (records :: ·)) hpages

end Paging
