import Mathlib.Tactic.Ring

/-!
# Fixed-width unsigned integers through their value

`FixedWidth α` reads a fixed-width integer type as the numbers below `256 ^ bytes α`. Over it:
checked addition and subtraction (`none` where the machine operation would wrap), saturating
subtraction, and the big-endian byte form. Every operation has one lemma saying what it does to the
value, so that proofs about counters are `omega` goals over `toNat`.
-/

/-- A type of unsigned integers `bytes` bytes wide. -/
class FixedWidth (α : Type) where
  bytes : Nat
  toNat : α → Nat
  ofNat : Nat → α
  toNat_lt : ∀ a, toNat a < 256 ^ bytes
  toNat_ofNat : ∀ n, n < 256 ^ bytes → toNat (ofNat n) = n
  ofNat_toNat : ∀ a, ofNat (toNat a) = a

namespace FixedWidth

instance : FixedWidth UInt8 where
  bytes := 1
  toNat := UInt8.toNat
  ofNat := UInt8.ofNat
  toNat_lt a := a.toNat_lt
  toNat_ofNat _ h := UInt8.toNat_ofNat_of_lt' h
  ofNat_toNat _ := UInt8.ofNat_toNat

instance : FixedWidth UInt16 where
  bytes := 2
  toNat := UInt16.toNat
  ofNat := UInt16.ofNat
  toNat_lt a := a.toNat_lt
  toNat_ofNat _ h := UInt16.toNat_ofNat_of_lt' h
  ofNat_toNat _ := UInt16.ofNat_toNat

instance : FixedWidth UInt32 where
  bytes := 4
  toNat := UInt32.toNat
  ofNat := UInt32.ofNat
  toNat_lt a := a.toNat_lt
  toNat_ofNat _ h := UInt32.toNat_ofNat_of_lt' h
  ofNat_toNat _ := UInt32.ofNat_toNat

instance : FixedWidth UInt64 where
  bytes := 8
  toNat := UInt64.toNat
  ofNat := UInt64.ofNat
  toNat_lt a := a.toNat_lt
  toNat_ofNat _ h := UInt64.toNat_ofNat_of_lt' h
  ofNat_toNat _ := UInt64.ofNat_toNat

instance : FixedWidth (BitVec 128) where
  bytes := 16
  toNat := BitVec.toNat
  ofNat := BitVec.ofNat 128
  toNat_lt a := a.isLt
  toNat_ofNat _ h := Nat.mod_eq_of_lt h
  ofNat_toNat a := BitVec.ofNat_toNat 128 a ▸ BitVec.setWidth_eq a

@[simp] theorem toNat_uInt8 (a : UInt8) : toNat a = a.toNat := rfl
@[simp] theorem toNat_uInt16 (a : UInt16) : toNat a = a.toNat := rfl
@[simp] theorem toNat_uInt32 (a : UInt32) : toNat a = a.toNat := rfl
@[simp] theorem toNat_uInt64 (a : UInt64) : toNat a = a.toNat := rfl
@[simp] theorem bytes_uInt8 : bytes UInt8 = 1 := rfl
@[simp] theorem bytes_uInt16 : bytes UInt16 = 2 := rfl
@[simp] theorem bytes_uInt32 : bytes UInt32 = 4 := rfl
@[simp] theorem bytes_uInt64 : bytes UInt64 = 8 := rfl
@[simp] theorem bytes_bitVec128 : bytes (BitVec 128) = 16 := rfl

section
variable {α : Type} [FixedWidth α] {a b c : α}

theorem toNat_injective (h : toNat a = toNat b) : a = b := by
  rw [← ofNat_toNat a, h, ofNat_toNat]

/-- Addition, or `none` on overflow. -/
def checkedAdd (a b : α) : Option α :=
  if toNat a + toNat b < 256 ^ bytes α then some (ofNat (toNat a + toNat b)) else none

/-- Subtraction, or `none` on underflow. -/
def checkedSub (a b : α) : Option α :=
  if toNat b ≤ toNat a then some (ofNat (toNat a - toNat b)) else none

/-- Multiplication, or `none` on overflow. -/
def checkedMul (a b : α) : Option α :=
  if toNat a * toNat b < 256 ^ bytes α then some (ofNat (toNat a * toNat b)) else none

/-- Remainder, or `none` for a zero divisor. -/
def checkedRem (a b : α) : Option α :=
  if toNat b = 0 then none else some (ofNat (toNat a % toNat b))

/-- Subtraction, or zero on underflow. -/
def saturatingSub (a b : α) : α := ofNat (toNat a - toNat b)

/-- Addition, or the largest value on overflow. -/
def saturatingAdd (a b : α) : α := ofNat (min (toNat a + toNat b) (256 ^ bytes α - 1))

/-- The smaller of two values. -/
def least (a b : α) : α := if toNat a ≤ toNat b then a else b

theorem checkedAdd_eq_some : checkedAdd a b = some c ↔ toNat c = toNat a + toNat b := by
  unfold checkedAdd
  constructor
  · intro h
    split at h
    · rw [← Option.some.inj h, toNat_ofNat _ ‹_›]
    · cases h
  · intro h
    rw [if_pos (h ▸ toNat_lt c), ← h, ofNat_toNat]

theorem checkedAdd_isSome (h : toNat a + toNat b < 256 ^ bytes α) : ∃ c, checkedAdd a b = some c :=
  ⟨_, if_pos h⟩

theorem checkedSub_eq_some : checkedSub a b = some c ↔ toNat c + toNat b = toNat a := by
  unfold checkedSub
  have ha := toNat_lt a
  constructor
  · intro h
    split at h
    · rw [← Option.some.inj h, toNat_ofNat _ (by omega)]; omega
    · cases h
  · intro h
    rw [if_pos (by omega), show toNat a - toNat b = toNat c by omega, ofNat_toNat]

theorem checkedSub_isSome (h : toNat b ≤ toNat a) : ∃ c, checkedSub a b = some c :=
  ⟨_, if_pos h⟩

theorem checkedRem_isSome (h : toNat b ≠ 0) : ∃ c, checkedRem a b = some c :=
  ⟨_, if_neg h⟩

@[simp] theorem toNat_saturatingSub : toNat (saturatingSub a b) = toNat a - toNat b :=
  toNat_ofNat _ (Nat.lt_of_le_of_lt (Nat.sub_le _ _) (toNat_lt a))

@[simp] theorem toNat_saturatingAdd :
    toNat (saturatingAdd a b) = min (toNat a + toNat b) (256 ^ bytes α - 1) := by
  have hpos : 0 < 256 ^ bytes α := Nat.pow_pos (by decide)
  exact toNat_ofNat _ (by omega)

@[simp] theorem toNat_least : toNat (least a b) = min (toNat a) (toNat b) := by
  unfold least; split <;> omega

end

/-! ### Big-endian bytes -/

/-- The `k` low bytes of `n`, most significant first. -/
def beBytes : Nat → Nat → List UInt8
  | 0, _ => []
  | k + 1, n => UInt8.ofNat (n / 256 ^ k) :: beBytes k n

/-- The number a byte string spells, most significant byte first. -/
def ofBeBytes : List UInt8 → Nat
  | [] => 0
  | b :: bs => b.toNat * 256 ^ bs.length + ofBeBytes bs

@[simp] theorem length_beBytes (k n : Nat) : (beBytes k n).length = k := by
  induction k with
  | zero => rfl
  | succ k ih => simp [beBytes, ih]

/-- A byte array from the number it spells. -/
def beVector (k n : Nat) : Vector UInt8 k := ⟨(beBytes k n).toArray, by simp⟩

theorem ofBeBytes_lt (bs : List UInt8) : ofBeBytes bs < 256 ^ bs.length := by
  induction bs with
  | nil => simp [ofBeBytes]
  | cons b bs ih =>
    have hb : b.toNat < 256 := b.toNat_lt
    calc b.toNat * 256 ^ bs.length + ofBeBytes bs
        < b.toNat * 256 ^ bs.length + 256 ^ bs.length := by omega
      _ = (b.toNat + 1) * 256 ^ bs.length := by ring
      _ ≤ 256 * 256 ^ bs.length := Nat.mul_le_mul_right _ hb
      _ = 256 ^ (b :: bs).length := by rw [List.length_cons, Nat.pow_succ, Nat.mul_comm]

/-- Only the low bytes count: a multiple of `256 ^ k` is invisible to the last `k` bytes. -/
theorem beBytes_add_mul (k m n : Nat) : beBytes k (m * 256 ^ k + n) = beBytes k n := by
  induction k generalizing m with
  | zero => rfl
  | succ k ih =>
    have hm : m * 256 ^ (k + 1) = m * 256 * 256 ^ k := by ring
    simp only [beBytes, hm, ih]
    congr 1
    rw [Nat.add_comm, Nat.add_mul_div_right _ _ (Nat.pow_pos (by decide))]
    apply UInt8.toNat_inj.mp
    simp

theorem ofBeBytes_beBytes {k n : Nat} (h : n < 256 ^ k) : ofBeBytes (beBytes k n) = n := by
  induction k generalizing n with
  | zero => simp at h; simp [beBytes, ofBeBytes, h]
  | succ k ih =>
    have hpos : 0 < 256 ^ k := Nat.pow_pos (by decide)
    have hq : n / 256 ^ k < 256 := by
      rw [Nat.div_lt_iff_lt_mul hpos, Nat.mul_comm, ← Nat.pow_succ]; exact h
    have hn : n / 256 ^ k * 256 ^ k + n % 256 ^ k = n := by
      rw [Nat.mul_comm]; exact Nat.div_add_mod n (256 ^ k)
    have hlow : beBytes k n = beBytes k (n % 256 ^ k) := by
      conv_lhs => rw [← hn]
      exact beBytes_add_mul k _ _
    simp only [beBytes, ofBeBytes, length_beBytes, hlow, ih (Nat.mod_lt n hpos)]
    rw [UInt8.toNat_ofNat_of_lt' hq, hn]

theorem beBytes_ofBeBytes (bs : List UInt8) : beBytes bs.length (ofBeBytes bs) = bs := by
  induction bs with
  | nil => rfl
  | cons b bs ih =>
    have hpos : 0 < 256 ^ bs.length := Nat.pow_pos (by decide)
    simp only [List.length_cons, beBytes, ofBeBytes, beBytes_add_mul, ih]
    congr 1
    rw [Nat.mul_comm, Nat.mul_add_div hpos, Nat.div_eq_of_lt (ofBeBytes_lt bs), Nat.add_zero]
    exact UInt8.ofNat_toNat

section
variable {α : Type} [FixedWidth α]

/-- The big-endian bytes of a value. -/
def toBe (a : α) : List UInt8 := beBytes (bytes α) (toNat a)

/-- The value of big-endian bytes. -/
def fromBe (bs : List UInt8) : α := ofNat (ofBeBytes bs)

@[simp] theorem length_toBe (a : α) : (toBe a).length = bytes α := length_beBytes _ _

@[simp] theorem fromBe_toBe (a : α) : fromBe (toBe a) = a := by
  rw [fromBe, toBe, ofBeBytes_beBytes (toNat_lt a), ofNat_toNat]

@[simp] theorem toBe_uInt8 (a : UInt8) : toBe a = [a] := by
  simp [toBe, beBytes]

theorem toBe_fromBe {bs : List UInt8} (h : bs.length = bytes α) : toBe (fromBe bs : α) = bs := by
  have hlt : ofBeBytes bs < 256 ^ bytes α := h ▸ ofBeBytes_lt bs
  rw [toBe, fromBe, toNat_ofNat _ hlt, ← h, beBytes_ofBeBytes]

end

end FixedWidth
