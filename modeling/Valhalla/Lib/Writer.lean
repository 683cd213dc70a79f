import Valhalla.Lib.Fallible

/-!
# Bounded writers

A writer appends to a buffer and fails where the buffer would outgrow its limit. `Writes m raw ok` says that
`m` succeeds exactly when `ok` holds and `raw` still fits, and what it then appended; the rules below follow
the writer's own sequencing, so that one derivation gives the bytes of an encoder and when it succeeds.
-/

structure WriteBuffer where
  limit : Nat
  bytes : List UInt8

abbrev Writing (ε : Type) := Fallible ε WriteBuffer

namespace Writing
open Fallible
variable {ε α : Type}

/-- Append `raw`, or fail with `e` when it does not fit. -/
def put (e : ε) (raw : List UInt8) : Writing ε Unit :=
  of fun w =>
    if w.bytes.length + raw.length > w.limit then (.error e, w) else (.ok (), { w with bytes := w.bytes ++ raw })

/-- A value that does not depend on the buffer, or the failure to compute it. -/
def lift (x : Except ε α) : Writing ε α := of fun w => (x, w)

/-- The bytes that `m` writes into an empty buffer. -/
def finish (limit : Nat) (m : Writing ε Unit) : Except ε (List UInt8) :=
  match exec m ⟨limit, []⟩ with
  | (.ok (), w) => .ok w.bytes
  | (.error e, _) => .error e

end Writing

/-- `m` appends `raw` when that fits and `ok` holds, and fails otherwise. -/
structure Writes {ε : Type} (m : Writing ε Unit) (raw : List UInt8) (ok : Prop) : Prop where
  iff : ∀ w w', w.bytes.length ≤ w.limit →
    (Fallible.exec m w = (.ok (), w') ↔ w' = ⟨w.limit, w.bytes ++ raw⟩ ∧ w.bytes.length + raw.length ≤ w.limit ∧ ok)

namespace Writes
open Fallible Writing
variable {ε α : Type} {m m' : Writing ε Unit} {raw raw' : List UInt8} {ok ok' : Prop}

theorem congr (h : Writes m raw ok) (hok : ok' ↔ ok) (hraw : ok → raw' = raw) : Writes m raw' ok' := by
  refine ⟨fun w w' hw => ?_⟩
  rw [h.iff w w' hw, hok]
  constructor
  · rintro ⟨rfl, hlen, ho⟩
    rw [hraw ho]
    exact ⟨rfl, hlen, ho⟩
  · rintro ⟨rfl, hlen, ho⟩
    rw [hraw ho] at hlen ⊢
    exact ⟨rfl, hlen, ho⟩

theorem pure : Writes (Pure.pure () : Writing ε Unit) [] True := by
  refine ⟨fun w w' hw => ?_⟩
  rw [exec_pure]
  constructor
  · rintro ⟨⟩
    simp [hw]
  · rintro ⟨rfl, -, -⟩
    simp

theorem put (e : ε) (raw : List UInt8) : Writes (Writing.put e raw) raw True := by
  refine ⟨fun w w' _ => ?_⟩
  simp only [Writing.put, exec_of]
  split
  · rename_i h
    exact ⟨fun he => (nomatch he), fun ⟨_, hle, _⟩ => absurd hle (by omega)⟩
  · rename_i h
    constructor
    · rintro ⟨⟩
      exact ⟨rfl, by omega, trivial⟩
    · rintro ⟨rfl, -, -⟩
      rfl

theorem bind (h : Writes m raw ok) (h' : Writes m' raw' ok') : Writes (do m; m') (raw ++ raw') (ok ∧ ok') := by
  refine ⟨fun w w' hw => ?_⟩
  rw [exec_bind_eq_ok]
  constructor
  · rintro ⟨⟨⟩, mid, hm, hm'⟩
    obtain ⟨rfl, hlen, ho⟩ := (h.iff w mid hw).1 hm
    obtain ⟨rfl, hlen', ho'⟩ := (h'.iff _ w' (by simpa using hlen)).1 hm'
    exact ⟨by simp, by simp only [List.length_append] at hlen' ⊢; omega, ho, ho'⟩
  · rintro ⟨rfl, hlen, ho, ho'⟩
    rw [List.length_append] at hlen
    refine ⟨(), _, (h.iff w _ hw).2 ⟨rfl, by omega, ho⟩, (h'.iff _ _ ?_).2 ⟨by simp, ?_, ho'⟩⟩
    · dsimp only
      rw [List.length_append]
      omega
    · dsimp only
      rw [List.length_append]
      omega

theorem check {x : Except ε Unit} (hx : x = .ok () ↔ ok) : Writes (Writing.lift x) [] ok := by
  refine ⟨fun w w' hw => ?_⟩
  rw [← hx]
  simp only [Writing.lift, exec_of, Prod.mk.injEq, List.append_nil, List.length_nil]
  constructor
  · rintro ⟨he, rfl⟩
    exact ⟨rfl, hw, he⟩
  · rintro ⟨rfl, -, he⟩
    exact ⟨he, rfl⟩

theorem lift {x : Except ε α} {f : α → Writing ε Unit} {a : α} (hx : x = .ok a) (h : Writes (f a) raw ok) :
    Writes (Writing.lift x >>= f) raw ok := by
  refine ⟨fun w w' hw => ?_⟩
  rw [← h.iff w w' hw, hx]
  rfl

theorem forM {f : α → Writing ε Unit} {put : α → List UInt8} {ok : α → Prop} (h : ∀ a, Writes (f a) (put a) (ok a))
    (l : List α) : Writes (forM l f) (l.flatMap put) (∀ a ∈ l, ok a) := by
  induction l with
  | nil => exact pure.congr (by simp) fun _ => rfl
  | cons a l ih =>
    rw [List.forM_cons]
    exact ((h a).bind ih).congr (by simp) fun _ => List.flatMap_cons

theorem finish_eq_ok {limit : Nat} {out : List UInt8} (h : Writes m raw ok) :
    finish limit m = .ok out ↔ out = raw ∧ raw.length ≤ limit ∧ ok := by
  have hiff := fun w' => h.iff ⟨limit, []⟩ w' (Nat.zero_le _)
  simp only [List.nil_append, List.length_nil, Nat.zero_add] at hiff
  unfold finish
  constructor
  · intro he
    rcases hrun : exec m ⟨limit, []⟩ with ⟨e | u, w⟩
    · rw [hrun] at he
      cases he
    · rw [hrun] at he
      cases he
      obtain ⟨rfl, hlen, ho⟩ := (hiff w).1 hrun
      exact ⟨rfl, hlen, ho⟩
  · rintro ⟨rfl, hlen, ho⟩
    rw [(hiff _).2 ⟨rfl, hlen, ho⟩]

end Writes
