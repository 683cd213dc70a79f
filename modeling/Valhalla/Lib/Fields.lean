import Valhalla.Lib.FixedWidth
import Mathlib.Tactic.Common

/-!
# Length-prefixed fields

A field is written as its length, a little-endian `u64`, and its bytes; a region is fields one after another. A reader that
takes eight bytes, and then as many as they say, takes exactly one field (`put_take`, `put_of_take`), and a region spells its
fields (`region_inj`).
-/

namespace FixedWidth
variable {α : Type} [FixedWidth α]

/-- The little-endian bytes of a value. -/
def toLe (a : α) : List UInt8 := (toBe a).reverse

/-- The value of little-endian bytes. -/
def fromLe (bs : List UInt8) : α := fromBe bs.reverse

@[simp] theorem length_toLe (a : α) : (toLe a).length = bytes α := by simp [toLe]

@[simp] theorem fromLe_toLe (a : α) : fromLe (toLe a) = a := by simp [fromLe, toLe]

theorem toLe_fromLe {bs : List UInt8} (h : bs.length = bytes α) : toLe (fromLe bs : α) = bs := by
  rw [toLe, fromLe, toBe_fromBe (by simpa using h), List.reverse_reverse]

theorem toLe_inj {a b : α} (h : toLe a = toLe b) : a = b := by
  rw [← fromLe_toLe a, h, fromLe_toLe]

end FixedWidth

namespace Fields
open FixedWidth

/-- A field behind its length. -/
def put (f : List UInt8) : List UInt8 := toLe (ofNat f.length : UInt64) ++ f

def region (l : List (List UInt8)) : List UInt8 := l.flatMap put

/-- A length that a `u64` holds. -/
def Short (f : List UInt8) : Prop := f.length < 2 ^ 64

variable {f g rest tail tail' : List UInt8} {l l' : List (List UInt8)}

@[simp] theorem length_put : (put f).length = 8 + f.length := by simp [put]

@[simp] theorem region_nil : region [] = [] := rfl

@[simp] theorem region_cons : region (f :: l) = put f ++ region l := rfl

theorem length_region : (region l).length = (l.map fun f => 8 + f.length).sum := by
  induction l with
  | nil => rfl
  | cons f l ih => rw [region_cons, List.length_append, length_put, ih, List.map_cons, List.sum_cons]

/-- What the first eight bytes of a field say, and what follows them. -/
theorem put_take (tail : List UInt8) (h : Short f) :
    (fromLe ((put f ++ tail).take 8) : UInt64).toNat = f.length ∧ (put f ++ tail).drop 8 = f ++ tail := by
  have hlen : (toLe (ofNat f.length : UInt64)).length = 8 := by simp
  rw [put, List.append_assoc]
  refine ⟨?_, List.drop_left' hlen⟩
  rw [List.take_left' hlen, fromLe_toLe]
  exact toNat_ofNat (α := UInt64) f.length h

theorem put_of_take (h8 : 8 ≤ rest.length) (hlen : f.length = (fromLe (rest.take 8) : UInt64).toNat) (hf : rest.drop 8 = f ++ tail) :
    rest = put f ++ tail ∧ Short f := by
  have htake : (rest.take 8).length = bytes UInt64 := by simpa using h8
  have hcount : (ofNat f.length : UInt64) = fromLe (rest.take 8) := by
    rw [hlen]
    exact ofNat_toNat (fromLe (rest.take 8) : UInt64)
  refine ⟨?_, ?_⟩
  · rw [put, hcount, toLe_fromLe htake, List.append_assoc, ← hf, List.take_append_drop]
  · rw [Short, hlen]
    exact (fromLe (rest.take 8) : UInt64).toNat_lt

theorem put_append_inj (hf : Short f) (hg : Short g) (h : put f ++ tail = put g ++ tail') : f = g ∧ tail = tail' := by
  obtain ⟨hlen, hdrop⟩ := put_take tail hf
  rw [h, (put_take tail' hg).2] at hdrop
  rw [h, (put_take tail' hg).1] at hlen
  obtain ⟨hgf, htail⟩ := List.append_inj hdrop hlen
  exact ⟨hgf.symm, htail.symm⟩

theorem region_inj (hl : ∀ f ∈ l, Short f) (hl' : ∀ f ∈ l', Short f) (h : region l = region l') : l = l' := by
  induction l generalizing l' with
  | nil =>
    cases l' with
    | nil => rfl
    | cons g l' =>
      have hlen := congrArg List.length h
      simp at hlen
      omega
  | cons f l ih =>
    cases l' with
    | nil =>
      have hlen := congrArg List.length h
      simp at hlen
    | cons g l' =>
      rw [List.forall_mem_cons] at hl hl'
      obtain ⟨rfl, hrest⟩ := put_append_inj hl.1 hl'.1 h
      rw [ih hl.2 hl'.2 hrest]

end Fields
