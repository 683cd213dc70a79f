import Mathlib.Tactic.Common
import Mathlib.Data.List.Induction

/-!
# Hash-linked chains

The entries of a chain are numbered and name the entry before them. `Path p es q` says that `es` leads from the
position `p` to the position `q`. Two chains that meet in one position agree backwards from there as far as
equal identities mean equal predecessors (`Path.passes`).
-/

/-- What links the entries of a chain. -/
structure Linking (ε ι : Type) where
  sequence : ε → Nat
  id : ε → ι
  previous : ε → ι

namespace Linking
variable {ε ι : Type} {L : Linking ε ι} {p q r : Nat × ι} {es fs : List ε} {e : ε}

/-- The position after an entry. -/
def position (L : Linking ε ι) (e : ε) : Nat × ι := (L.sequence e, L.id e)

/-- The entries lead from one position to the other, each one linked to the entry before it. -/
def Path (L : Linking ε ι) : Nat × ι → List ε → Nat × ι → Prop
  | p, [], q => p = q
  | p, e :: es, q => L.sequence e = p.1 + 1 ∧ L.previous e = p.2 ∧ L.Path (L.position e) es q

theorem path_append : L.Path p (es ++ fs) q ↔ ∃ m, L.Path p es m ∧ L.Path m fs q := by
  induction es generalizing p with
  | nil => simp [Path]
  | cons e es ih => simp [Path, ih, and_assoc]

theorem path_snoc :
    L.Path p (es ++ [e]) q ↔ ∃ m, L.Path p es m ∧ L.sequence e = m.1 + 1 ∧ L.previous e = m.2 ∧ L.position e = q := by
  rw [path_append]
  rfl

namespace Path

theorem snoc (h : L.Path p es q) (hs : L.sequence e = q.1 + 1) (hp : L.previous e = q.2) :
    L.Path p (es ++ [e]) (L.position e) :=
  path_snoc.2 ⟨q, h, hs, hp, rfl⟩

theorem length (h : L.Path p es q) : q.1 = p.1 + es.length := by
  induction es generalizing p with
  | nil =>
    obtain rfl := h
    rfl
  | cons e es ih =>
    obtain ⟨hs, -, hes⟩ := h
    have hlen := ih hes
    rw [position, hs] at hlen
    rw [hlen, List.length_cons]
    omega

theorem unique (h : L.Path p es q) (h' : L.Path p es r) : q = r := by
  induction es generalizing p with
  | nil => exact Eq.trans (Eq.symm h) h'
  | cons e es ih => exact ih h.2.2 h'.2.2

theorem last (h : L.Path p es q) (he : es.getLast? = some e) : L.position e = q := by
  obtain ⟨before, rfl⟩ := List.getLast?_eq_some_iff.1 he
  obtain ⟨-, -, -, -, hq⟩ := path_snoc.1 h
  exact hq

theorem ne_nil (h : L.Path p es q) (hlt : p.1 < q.1) : es ≠ [] := by
  rintro rfl
  obtain rfl := h
  exact Nat.lt_irrefl _ hlt

end Path

/-- A chain from the start has an entry at this position. -/
def Passes (L : Linking ε ι) (es : List ε) (p : Nat × ι) : Prop := 1 ≤ p.1 ∧ ∃ e, es[p.1 - 1]? = some e ∧ L.id e = p.2

theorem Passes.append (h : L.Passes es p) : L.Passes (es ++ fs) p := by
  obtain ⟨hpos, e, he, hid⟩ := h
  exact ⟨hpos, e, List.getElem?_append_left (List.getElem?_eq_some_iff.1 he).1 ▸ he, hid⟩

namespace Path
variable {start : ι}

theorem passes_end (h : L.Path (0, start) es q) (hq : 1 ≤ q.1) : L.Passes es q := by
  have hlen := h.length
  rcases List.eq_nil_or_concat es with rfl | ⟨before, e, rfl⟩
  · simp only [List.length_nil] at hlen
    omega
  · rw [List.concat_eq_append] at h ⊢
    obtain ⟨m, hbefore, hs, -, rfl⟩ := path_snoc.1 h
    have hm := hbefore.length
    refine ⟨hq, e, ?_, rfl⟩
    rw [position, hs, hm]
    simp

theorem passes_before (h : L.Path (0, start) es q) {i : Nat} (he : es[i + 1]? = some e) :
    L.Passes es (i + 1, L.previous e) := by
  obtain ⟨hlt, -⟩ := List.getElem?_eq_some_iff.1 he
  have hsplit : es = es.take (i + 1) ++ e :: es.drop (i + 2) := by
    rw [← (List.getElem?_eq_some_iff.1 he).2, List.getElem_cons_drop, List.take_append_drop]
  rw [hsplit] at h ⊢
  obtain ⟨m, hbefore, -, hprev, -⟩ := path_append.1 h
  have hm := hbefore.length
  rw [List.length_take_of_le (Nat.le_of_lt hlt)] at hm
  have hmi : m = (i + 1, L.previous e) := Prod.ext (by simpa using hm) hprev.symm
  rw [← hmi]
  exact (hbefore.passes_end (by omega)).append

/-- Backwards from a common position: where equal identities on two chains mean equal predecessors, a chain
from the start that passes the end of the other chain also passes its beginning. -/
theorem passes (h : L.Path (0, start) es q) (hwalk : L.Path p fs r) (hp : 1 ≤ p.1)
    (hfree : ∀ e ∈ es, ∀ f ∈ fs, L.id e = L.id f → L.previous e = L.previous f) (hr : L.Passes es r) : L.Passes es p := by
  induction fs using List.reverseRecOn generalizing r with
  | nil =>
    obtain rfl := hwalk
    exact hr
  | append_singleton fs f ih =>
    obtain ⟨m, hbefore, hs, hprev, rfl⟩ := path_snoc.1 hwalk
    refine ih hbefore (fun e he f' hf' => hfree e he f' (by simp [hf'])) ?_
    have hm := hbefore.length
    obtain ⟨-, e, he, hid⟩ := hr
    rw [position] at he
    have hidx : es[m.1 - 1 + 1]? = some e := by
      rw [show m.1 - 1 + 1 = L.sequence f - 1 by omega]
      exact he
    have hpass := h.passes_before hidx
    rw [hfree e (List.mem_of_getElem? he) f (by simp) hid, hprev, show m.1 - 1 + 1 = m.1 by omega] at hpass
    exact hpass

end Path

end Linking
