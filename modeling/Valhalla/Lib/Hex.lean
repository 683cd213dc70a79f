import Mathlib.Tactic.Common

/-!
# Lowercase hexadecimal

Two digits a byte. Reading accepts exactly what writing produces.
-/

namespace Hex

def digit (n : UInt8) : UInt8 := if n < 10 then 48 + n else 87 + n

/-- The value of a lowercase digit. -/
def value (c : UInt8) : Option UInt8 :=
  if 48 ≤ c ∧ c ≤ 57 then some (c - 48)
  else if 97 ≤ c ∧ c ≤ 102 then some (c - 87)
  else none

def encode (bytes : List UInt8) : List UInt8 := bytes.flatMap fun b => [digit (b / 16), digit (b % 16)]

/-- The bytes of an even number of digits. -/
def pairs : List UInt8 → Option (List UInt8)
  | [] => some []
  | [_] => none
  | high :: low :: rest => do
    let high ← value high
    let low ← value low
    let bytes ← pairs rest
    pure ((high * 16 + low) :: bytes)

theorem value_digit {n : UInt8} (h : n < 16) : value (digit n) = some n := by
  have hall : ∀ k : Fin 16, value (digit (UInt8.ofNat k)) = some (UInt8.ofNat k) := by decide
  have hk := hall ⟨n.toNat, UInt8.lt_iff_toNat_lt.1 h⟩
  rwa [UInt8.ofNat_toNat] at hk

theorem digit_value {c n : UInt8} (h : value c = some n) : n < 16 ∧ c = digit n := by
  have hall : ∀ k : Fin 256, (value (UInt8.ofNat k)).all fun n => decide (n < 16 ∧ UInt8.ofNat k = digit n) := by decide +kernel
  have hk := hall ⟨c.toNat, c.toNat_lt⟩
  rw [UInt8.ofNat_toNat, h] at hk
  exact of_decide_eq_true hk

theorem value_eq_some {c n : UInt8} : value c = some n ↔ n < 16 ∧ c = digit n :=
  ⟨digit_value, fun ⟨hn, hc⟩ => hc ▸ value_digit hn⟩

theorem length_encode (bytes : List UInt8) : (encode bytes).length = bytes.length * 2 := by
  induction bytes with
  | nil => rfl
  | cons b bytes ih =>
    have hcons : encode (b :: bytes) = digit (b / 16) :: digit (b % 16) :: encode bytes := rfl
    rw [hcons, List.length_cons, List.length_cons, ih, List.length_cons]
    omega

theorem halves {high low : UInt8} (hh : high < 16) (hl : low < 16) : (high * 16 + low) / 16 = high ∧ (high * 16 + low) % 16 = low := by
  have hh' : high.toNat < 16 := hh
  have hl' : low.toNat < 16 := hl
  constructor <;> rw [← UInt8.toNat_inj]
  · rw [UInt8.toNat_div, UInt8.toNat_add, UInt8.toNat_mul]
    show (high.toNat * 16 % 256 + low.toNat) % 256 / 16 = high.toNat
    omega
  · rw [UInt8.toNat_mod, UInt8.toNat_add, UInt8.toNat_mul]
    show (high.toNat * 16 % 256 + low.toNat) % 256 % 16 = low.toNat
    omega

theorem whole (b : UInt8) : b / 16 < 16 ∧ b % 16 < 16 ∧ b / 16 * 16 + b % 16 = b := by
  have hb := b.toNat_lt
  refine ⟨?_, ?_, ?_⟩
  · rw [UInt8.lt_iff_toNat_lt, UInt8.toNat_div]
    show b.toNat / 16 < 16
    omega
  · rw [UInt8.lt_iff_toNat_lt, UInt8.toNat_mod]
    exact Nat.mod_lt _ (by decide)
  · rw [← UInt8.toNat_inj, UInt8.toNat_add, UInt8.toNat_mul, UInt8.toNat_div, UInt8.toNat_mod]
    show (b.toNat / 16 * 16 % 256 + b.toNat % 16) % 256 = b.toNat
    omega

theorem pairs_eq_some {raw bytes : List UInt8} : pairs raw = some bytes ↔ raw = encode bytes := by
  fun_induction pairs raw generalizing bytes with
  | case1 =>
    cases bytes with
    | nil => simp [encode]
    | cons b bytes => simp [encode]
  | case2 c =>
    constructor
    · intro h
      cases h
    · intro h
      have hlength := congrArg List.length h
      rw [length_encode, List.length_singleton] at hlength
      omega
  | case3 high low rest ih =>
    simp only [Option.bind_eq_bind, Option.bind_eq_some_iff, value_eq_some, ih]
    constructor
    · rintro ⟨h, ⟨hh, rfl⟩, l, ⟨hl, rfl⟩, bytes', rfl, he⟩
      cases he
      obtain ⟨hdiv, hmod⟩ := halves hh hl
      show _ = digit ((h * 16 + l) / 16) :: digit ((h * 16 + l) % 16) :: encode bytes'
      rw [hdiv, hmod]
    · intro h
      cases bytes with
      | nil => cases h
      | cons b bytes =>
        obtain ⟨hdiv, hmod, hsum⟩ := whole b
        cases h
        exact ⟨b / 16, ⟨hdiv, rfl⟩, b % 16, ⟨hmod, rfl⟩, bytes, rfl, by rw [hsum]; rfl⟩

end Hex
