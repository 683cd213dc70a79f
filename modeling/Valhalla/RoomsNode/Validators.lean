import Mathlib.Data.List.Nodup
import Valhalla.Core
import Valhalla.Lib.Check
import Valhalla.Lib.Weights

/-!
# Validator sets (`context.rs` of `vhalla-rooms-node`)

Consensus addresses, validators and the checks of a trusted set. Keys, signatures and the scheme over them
are parameters; 64 and 128 bit sums wrap, and a valid set never lets them.
-/

namespace Valhalla.RoomsNode
open FixedWidth Check

def maxCertSignatures : Nat := 64

abbrev Address := Vector UInt8 20

/-- Ed25519 as the signing crate gives it, and the Keccak address of a key. -/
structure Scheme (PublicKey Signature : Type) where
  fromPublicKey : PublicKey → Address
  verify : PublicKey → List UInt8 → Signature → Bool
  encodeSignature : Signature → List UInt8
  decodeSignature : List UInt8 → Option Signature

structure Scheme.Lawful {PublicKey Signature : Type} (scheme : Scheme PublicKey Signature) : Prop where
  length : ∀ signature, (scheme.encodeSignature signature).length = 64
  decode_encode : ∀ signature, scheme.decodeSignature (scheme.encodeSignature signature) = some signature
  encode_decode : ∀ bytes signature, scheme.decodeSignature bytes = some signature → scheme.encodeSignature signature = bytes

structure RoomValidator (PublicKey : Type) where
  address : Address
  publicKey : PublicKey
  power : UInt64

structure RoomValidatorSet (PublicKey : Type) where
  validators : List (RoomValidator PublicKey)

inductive ValidatorSetError
  | empty | tooManyValidators | invalidValidator | conflictingPower | powerOverflow
deriving DecidableEq, Repr

variable {PublicKey Signature : Type}

namespace RoomValidatorSet
variable (scheme : Scheme PublicKey Signature) (set : RoomValidatorSet PublicKey)

def ordered : List (RoomValidator PublicKey) → Bool
  | a :: b :: rest =>
    !(decide (a.power < b.power) || (a.power == b.power && compare a.address b.address != .lt)) && ordered (b :: rest)
  | _ => true

/-- One validator of `validate`: the addresses seen and the power summed up before it. -/
def validateNext (acc : List Address × UInt64) (validator : RoomValidator PublicKey) :
    Except ValidatorSetError (List Address × UInt64) := do
  require .invalidValidator !(validator.power == 0 || validator.address != scheme.fromPublicKey validator.publicKey ||
    acc.1.contains validator.address)
  let total ← okOr .powerOverflow
    ((checkedAdd acc.2 validator.power).filter fun total => decide (total.toNat ≤ (UInt64.size - 1) / 3))
  pure (validator.address :: acc.1, total)

def validate : Except ValidatorSetError Unit := do
  require .empty !set.validators.isEmpty
  require .tooManyValidators (decide (set.validators.length ≤ maxCertSignatures))
  require .invalidValidator (ordered set.validators)
  let _ ← set.validators.foldlM (validateNext scheme) ([], 0)

def totalVotingPower : UInt64 := set.validators.foldl (fun total validator => total + validator.power) 0

def getByAddress (address : Address) : Option (RoomValidator PublicKey) :=
  set.validators.find? fun validator => validator.address == address

end RoomValidatorSet

/-! ### What a valid set satisfies -/

def powerOf (validator : RoomValidator PublicKey) : Nat := validator.power.toNat

structure RoomValidatorSet.Sound (set : RoomValidatorSet PublicKey) : Prop where
  nonempty : set.validators ≠ []
  addresses : (set.validators.map RoomValidator.address).Nodup
  total : 3 * Weights.total powerOf set.validators < 2 ^ 64

theorem sound_of_validate {scheme : Scheme PublicKey Signature} {set : RoomValidatorSet PublicKey}
    (h : set.validate scheme = .ok ()) : set.Sound := by
  simp only [RoomValidatorSet.validate, bind_eq_ok, require_eq_ok, Bool.not_eq_true', List.isEmpty_eq_false_iff,
    exists_const] at h
  obtain ⟨hne, -, -, acc, hfold, -⟩ := h
  have hinv := foldlM_invariant (I := fun done acc => acc.1 = (done.map RoomValidator.address).reverse ∧ acc.1.Nodup ∧
    acc.2.toNat = Weights.total powerOf done ∧ 3 * acc.2.toNat < 2 ^ 64) ?_ ⟨rfl, List.nodup_nil, rfl, by decide⟩ hfold
  · obtain ⟨hseen, hnodup, htotal, hbound⟩ := hinv
    rw [hseen, List.nodup_reverse] at hnodup
    exact ⟨hne, hnodup, htotal ▸ hbound⟩
  · intro done validator acc acc' hI hnext
    obtain ⟨hseen, hnodup, htotal, -⟩ := hI
    simp only [RoomValidatorSet.validateNext, bind_eq_ok, require_eq_ok, okOr_eq_ok, Bool.not_eq_true',
      Bool.or_eq_false_iff, Option.filter_eq_some_iff, checkedAdd_eq_some, toNat_uInt64, decide_eq_true_eq,
      exists_const] at hnext
    obtain ⟨⟨-, hnew⟩, total, ⟨hadd, hle⟩, he⟩ := hnext
    cases he
    refine ⟨by simp [hseen], ?_, ?_, ?_⟩
    · refine List.nodup_cons.2 ⟨fun hmem => ?_, hnodup⟩
      rw [List.contains_iff_mem.2 hmem] at hnew
      cases hnew
    · rw [Weights.total_append, Weights.total_cons, Weights.total_nil, hadd, htotal]
      rfl
    · show 3 * total.toNat < 2 ^ 64
      simp only [UInt64.size] at hle
      omega

theorem toNat_foldl_power (validators : List (RoomValidator PublicKey)) (start : UInt64)
    (h : start.toNat + Weights.total powerOf validators < 2 ^ 64) :
    (validators.foldl (fun total validator => total + validator.power) start).toNat =
      start.toNat + Weights.total powerOf validators := by
  induction validators generalizing start with
  | nil => rfl
  | cons validator rest ih =>
    rw [Weights.total_cons] at h ⊢
    have hadd : (start + validator.power).toNat = start.toNat + powerOf validator := by
      rw [UInt64.toNat_add, Nat.mod_eq_of_lt (by simp only [powerOf] at h ⊢; omega)]
      rfl
    rw [List.foldl_cons, ih _ (by omega), hadd, Nat.add_assoc]

namespace RoomValidatorSet.Sound
variable {set : RoomValidatorSet PublicKey} (h : set.Sound)
include h

theorem toNat_totalVotingPower : set.totalVotingPower.toNat = Weights.total powerOf set.validators := by
  have htotal := h.total
  have hfold := toNat_foldl_power set.validators 0 (by simp; omega)
  rw [RoomValidatorSet.totalVotingPower, hfold]
  exact Nat.zero_add _

theorem getByAddress_eq_some {address : Address} {validator : RoomValidator PublicKey} :
    set.getByAddress address = some validator ↔ validator ∈ set.validators ∧ validator.address = address := by
  unfold RoomValidatorSet.getByAddress
  constructor
  · intro hfind
    exact ⟨List.mem_of_find?_eq_some hfind, by simpa using List.find?_some hfind⟩
  · rintro ⟨hmem, rfl⟩
    obtain ⟨found, hfound⟩ : ∃ found, set.validators.find? (fun v => v.address == validator.address) = some found :=
      Option.isSome_iff_exists.1 (List.find?_isSome.2 ⟨validator, hmem, beq_self_eq_true _⟩)
    have haddress : found.address = validator.address := by simpa using List.find?_some hfound
    rw [hfound, List.inj_on_of_nodup_map h.addresses (List.mem_of_find?_eq_some hfound) hmem haddress]

end RoomValidatorSet.Sound

end Valhalla.RoomsNode
