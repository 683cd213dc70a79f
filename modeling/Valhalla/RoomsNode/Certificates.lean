import Valhalla.RoomsNode.Validators

/-!
# Commit certificates (`cert.rs` of `vhalla-rooms-node`)

The engine's certificates, their canonical bytes, and the three readers of these bytes. The main result says
that the two verifiers accept the same certificates, and that any two accepted ones share signers of more than
a third of the power.
-/

namespace Valhalla.RoomsNode
open FixedWidth Check

inductive Round
  | nil
  | some (round : UInt32)
deriving DecidableEq

def maxRound : UInt32 := 4294967295

/-- The wire form of a round, which reserves the largest number for `nil`. -/
def Round.code : Round → UInt32
  | .nil => maxRound
  | .some round => round

inductive VoteType
  | prevote | precommit
deriving DecidableEq

structure RoomVote where
  voteType : VoteType
  height : UInt64
  round : Round
  value : Option Bytes32
  address : Address

def voteSignBytes (vote : RoomVote) : List UInt8 :=
  [82, 86, 49] ++ [match vote.voteType with | .prevote => (0 : UInt8) | .precommit => 1] ++ toBe vote.height ++ toBe vote.round.code ++
    (match vote.value with | none => [0] | some id => 1 :: id.toList) ++ vote.address.toList

structure CommitSignature (Signature : Type) where
  address : Address
  signature : Signature
deriving DecidableEq

structure CommitCertificate (Signature : Type) where
  height : UInt64
  round : Round
  valueId : Bytes32
  commitSignatures : List (CommitSignature Signature)
deriving DecidableEq

structure ExtendedCommitSignature (Signature Extension : Type) where
  address : Address
  signature : Signature
  extension : Option Extension

structure ExtendedCommitCertificate (Signature Extension : Type) where
  height : UInt64
  round : Round
  valueId : Bytes32
  commitSignatures : List (ExtendedCommitSignature Signature Extension)

def ExtendedCommitCertificate.commit {Signature Extension : Type} (c : ExtendedCommitCertificate Signature Extension) :
    CommitCertificate Signature :=
  ⟨c.height, c.round, c.valueId, c.commitSignatures.map fun s => ⟨s.address, s.signature⟩⟩

inductive CertError
  | invalidValidatorSet | nilRound | reservedRound | tooManySignatures | duplicateSigner | unknownSigner | badSignature
  | belowQuorum
deriving DecidableEq, Repr

structure AcceptedCertificate where
  bytes : List UInt8
  height : UInt64
  valueId : Bytes32
deriving DecidableEq

def certMagic : List UInt8 := [86, 67, 50]

abbrev Power := BitVec 128

def widen (power : UInt64) : Power := BitVec.ofNat 128 power.toNat

section
variable {PublicKey Signature : Type} (scheme : Scheme PublicKey Signature)

def putSpan (s : CommitSignature Signature) : List UInt8 := s.address.toList ++ scheme.encodeSignature s.signature

def putHead (height : UInt64) (round : UInt32) (valueId : Bytes32) (count : UInt16) : List UInt8 :=
  certMagic ++ (toBe height ++ (toBe round ++ (valueId.toList ++ toBe count)))

def canonicalBytes (c : CommitCertificate Signature) : List UInt8 :=
  putHead c.height c.round.code c.valueId (UInt16.ofNat c.commitSignatures.length) ++ c.commitSignatures.flatMap (putSpan scheme)

structure Collected where
  seen : List Address
  signedPower : Power

def checkSigner (set : RoomValidatorSet PublicKey) (height : UInt64) (round : Round) (valueId : Bytes32) (acc : Collected)
    (s : CommitSignature Signature) : Except CertError Collected := do
  let validator ← okOr .unknownSigner (set.getByAddress s.address)
  require .duplicateSigner !(acc.seen.contains s.address)
  require .badSignature (scheme.verify validator.publicKey
    (voteSignBytes ⟨.precommit, height, round, some valueId, s.address⟩) s.signature)
  pure ⟨s.address :: acc.seen, acc.signedPower + widen validator.power⟩

/-- Strictly more than two thirds of the power. -/
def reachesQuorum (set : RoomValidatorSet PublicKey) (signedPower : Power) : Bool :=
  decide (widen set.totalVotingPower * 2#128 < signedPower * 3#128)

def verifyCommitCertificate (c : CommitCertificate Signature) (set : RoomValidatorSet PublicKey) :
    Except CertError AcceptedCertificate := do
  (set.validate scheme).mapError fun _ => .invalidValidatorSet
  require .nilRound (c.round != .nil)
  require .reservedRound (c.round != .some maxRound)
  require .tooManySignatures !(c.commitSignatures.isEmpty || decide (c.commitSignatures.length > maxCertSignatures))
  let acc ← c.commitSignatures.foldlM (checkSigner scheme set c.height c.round c.valueId) ⟨[], 0⟩
  require .belowQuorum (reachesQuorum set acc.signedPower)
  pure ⟨canonicalBytes scheme c, c.height, c.valueId⟩

/-! ### Reading canonical bytes -/

/-- `raw[start..start + n]` -/
def slice (raw : List UInt8) (start n : Nat) : List UInt8 := (raw.drop start).take n

def bytesOf (n : Nat) (bytes : List UInt8) : Vector UInt8 n := Vector.ofFn fun i => bytes.getD i 0

def decodeHead (raw : List UInt8) (height : UInt64) (valueId : Bytes32) : Option (Nat × List UInt8) :=
  if decide (raw.length < 49) || slice raw 0 3 != certMagic then none
  else if (fromBe (slice raw 3 8) : UInt64) ≠ height then none
  else if slice raw 11 4 = toBe maxRound then none
  else if slice raw 15 32 ≠ valueId.toList then none
  else some ((fromBe (slice raw 47 2) : UInt16).toNat, raw.drop 49)

def roundOf (raw : List UInt8) : Round := .some (fromBe (slice raw 11 4))

/-- The loop of `verify_canonical_certificate`. -/
def checkSpans (set : RoomValidatorSet PublicKey) (height : UInt64) (round : Round) (valueId : Bytes32) :
    Nat → List UInt8 → Collected → Option Collected
  | 0, _, acc => some acc
  | n + 1, rest, acc => do
    let signature ← scheme.decodeSignature (slice rest 20 64)
    let acc ← (checkSigner scheme set height round valueId acc ⟨bytesOf 20 (rest.take 20), signature⟩).toOption
    checkSpans set height round valueId n (rest.drop 84) acc

def verifyCanonicalCertificate (raw : List UInt8) (height : UInt64) (valueId : Bytes32) (set : RoomValidatorSet PublicKey) :
    Bool :=
  if (set.validate scheme).toOption.isNone then false
  else match decodeHead raw height valueId with
    | none => false
    | some (count, rest) =>
      if count = 0 ∨ count > maxCertSignatures ∨ rest.length ≠ count * 84 then false
      else match checkSpans scheme set height (roundOf raw) valueId count rest ⟨[], 0⟩ with
        | none => false
        | some acc => reachesQuorum set acc.signedPower

/-- The loop of `ext_certificate_from_canonical`. -/
def readSpans {Extension : Type} : Nat → List UInt8 → Option (List (ExtendedCommitSignature Signature Extension))
  | 0, _ => some []
  | n + 1, rest => do
    let signature ← scheme.decodeSignature (slice rest 20 64)
    let signatures ← readSpans n (rest.drop 84)
    some (⟨bytesOf 20 (rest.take 20), signature, none⟩ :: signatures)

def extCertificateFromCanonical {Extension : Type} (raw : List UInt8) :
    Option (ExtendedCommitCertificate Signature Extension) :=
  if decide (raw.length < 49) || slice raw 0 3 != certMagic then none
  else
    let height : UInt64 := fromBe (slice raw 3 8)
    let round : UInt32 := fromBe (slice raw 11 4)
    if round = maxRound then none
    else
      let valueId := bytesOf 32 (slice raw 15 32)
      let count := (fromBe (slice raw 47 2) : UInt16).toNat
      let sigs := raw.drop 49
      if count = 0 ∨ count > maxCertSignatures ∨ sigs.length ≠ count * 84 then none
      else (readSpans scheme count sigs).map fun signatures => ⟨height, .some round, valueId, signatures⟩

end

/-! ### Slices of a head -/

theorem slice_middle {raw mid back : List UInt8} {start n : Nat} (front : List UInt8) (h : raw = front ++ (mid ++ back))
    (hstart : front.length = start) (hn : mid.length = n) : slice raw start n = mid := by
  subst hstart hn
  rw [slice, h, List.drop_left, List.take_left]

theorem bytesOf_toList {n : Nat} (v : Vector UInt8 n) : bytesOf n v.toList = v := by
  refine Vector.ext fun i hi => ?_
  simp [bytesOf, List.getD]

theorem toList_bytesOf {n : Nat} {bytes : List UInt8} (h : bytes.length = n) : (bytesOf n bytes).toList = bytes := by
  have hv : bytesOf n (Vector.toList ⟨bytes.toArray, h⟩) = ⟨bytes.toArray, h⟩ := bytesOf_toList _
  have hlist : Vector.toList (⟨bytes.toArray, h⟩ : Vector UInt8 n) = bytes := rfl
  rw [hlist] at hv
  rw [hv]
  rfl

section
variable (height : UInt64) (round : UInt32) (valueId : Bytes32) (count : UInt16) (rest : List UInt8) {raw : List UInt8}

theorem length_putHead : (putHead height round valueId count).length = 49 := by
  have hh : (toBe height).length = 8 := length_toBe _
  have hr : (toBe round).length = 4 := length_toBe _
  have hc : (toBe count).length = 2 := length_toBe _
  simp [putHead, certMagic, hh, hr, hc]

theorem slices_putHead :
    slice (putHead height round valueId count ++ rest) 0 3 = certMagic ∧
    slice (putHead height round valueId count ++ rest) 3 8 = toBe height ∧
    slice (putHead height round valueId count ++ rest) 11 4 = toBe round ∧
    slice (putHead height round valueId count ++ rest) 15 32 = valueId.toList ∧
    slice (putHead height round valueId count ++ rest) 47 2 = toBe count := by
  have hh : (toBe height).length = 8 := length_toBe _
  have hr : (toBe round).length = 4 := length_toBe _
  have hc : (toBe count).length = 2 := length_toBe _
  have hv : valueId.toList.length = 32 := valueId.length_toList
  refine ⟨slice_middle [] (by simp [putHead]; rfl) rfl rfl, ?_, ?_, ?_, ?_⟩
  · exact slice_middle certMagic (by simp [putHead]; rfl) rfl hh
  · exact slice_middle (certMagic ++ toBe height) (by simp [putHead]; rfl) (by simp [certMagic, hh]) hr
  · exact slice_middle (certMagic ++ (toBe height ++ toBe round)) (by simp [putHead]; rfl)
      (by simp [certMagic, hh, hr]) hv
  · exact slice_middle (certMagic ++ (toBe height ++ (toBe round ++ valueId.toList))) (by simp [putHead]; rfl)
      (by simp [certMagic, hh, hr]) hc

theorem exists_putHead (hlen : 49 ≤ raw.length) (hmagic : slice raw 0 3 = certMagic) :
    raw = putHead (fromBe (slice raw 3 8)) (fromBe (slice raw 11 4)) (bytesOf 32 (slice raw 15 32)) (fromBe (slice raw 47 2)) ++
      raw.drop 49 := by
  have hslice : ∀ start n, start + n ≤ 49 → (slice raw start n).length = n := by
    intro start n h
    rw [slice, List.length_take, List.length_drop]
    omega
  have hh : toBe (fromBe (slice raw 3 8) : UInt64) = slice raw 3 8 := toBe_fromBe (hslice 3 8 (by decide))
  have hr : toBe (fromBe (slice raw 11 4) : UInt32) = slice raw 11 4 := toBe_fromBe (hslice 11 4 (by decide))
  have hc : toBe (fromBe (slice raw 47 2) : UInt16) = slice raw 47 2 := toBe_fromBe (hslice 47 2 (by decide))
  have hsplit : ∀ start n, raw.drop start = slice raw start n ++ raw.drop (start + n) := by
    intro start n
    rw [slice, ← List.drop_drop, List.take_append_drop]
  rw [putHead, hh, hr, hc, toList_bytesOf (hslice 15 32 (by decide)), ← hmagic]
  simp only [List.append_assoc]
  rw [← hsplit 47 2, ← hsplit 15 32, ← hsplit 11 4, ← hsplit 3 8]
  exact hsplit 0 3

end

/-! ### Spans of signatures -/

section
variable {PublicKey Signature Extension : Type} {scheme : Scheme PublicKey Signature} (hscheme : scheme.Lawful)
  {set : RoomValidatorSet PublicKey} {height : UInt64} {round : Round} {valueId : Bytes32}
include hscheme

theorem length_putSpan (s : CommitSignature Signature) : (putSpan scheme s).length = 84 := by
  simp [putSpan, hscheme.length]

theorem length_flatMap_putSpan (signatures : List (CommitSignature Signature)) :
    (signatures.flatMap (putSpan scheme)).length = signatures.length * 84 := by
  induction signatures with
  | nil => rfl
  | cons s signatures ih =>
    rw [List.flatMap_cons, List.length_append, length_putSpan hscheme, ih, List.length_cons]
    omega

theorem first_span {rest : List UInt8} {signature : Signature} (hlen : 84 ≤ rest.length)
    (hsig : scheme.decodeSignature (slice rest 20 64) = some signature) :
    rest = putSpan scheme ⟨bytesOf 20 (rest.take 20), signature⟩ ++ rest.drop 84 := by
  rw [putSpan, toList_bytesOf (by rw [List.length_take]; omega), hscheme.encode_decode _ _ hsig, List.append_assoc]
  have hdrop : slice rest 20 64 ++ rest.drop 84 = rest.drop 20 := by
    rw [slice, ← List.drop_drop (i := 64) (j := 20), List.take_append_drop]
  rw [hdrop, List.take_append_drop]

theorem span_fields (s : CommitSignature Signature) (rest : List UInt8) :
    bytesOf 20 ((putSpan scheme s ++ rest).take 20) = s.address ∧
    scheme.decodeSignature (slice (putSpan scheme s ++ rest) 20 64) = some s.signature ∧
    (putSpan scheme s ++ rest).drop 84 = rest := by
  refine ⟨?_, ?_, ?_⟩
  · rw [putSpan, List.append_assoc, List.take_left' s.address.length_toList, bytesOf_toList]
  · rw [slice_middle s.address.toList (by rw [putSpan, List.append_assoc]) s.address.length_toList (hscheme.length _),
      hscheme.decode_encode]
  · exact List.drop_left' (length_putSpan hscheme s)

theorem checkSpans_eq_some {n : Nat} {rest : List UInt8} {acc acc' : Collected} (hlen : rest.length = n * 84) :
    checkSpans scheme set height round valueId n rest acc = some acc' ↔ ∃ signatures : List (CommitSignature Signature),
      signatures.length = n ∧ rest = signatures.flatMap (putSpan scheme) ∧
      signatures.foldlM (checkSigner scheme set height round valueId) acc = .ok acc' := by
  induction n generalizing rest acc with
  | zero =>
    obtain rfl := List.eq_nil_of_length_eq_zero (hlen.trans (Nat.zero_mul _))
    constructor
    · intro h
      cases h
      exact ⟨[], rfl, rfl, rfl⟩
    · rintro ⟨signatures, hn, -, hfold⟩
      obtain rfl := List.eq_nil_of_length_eq_zero hn
      cases hfold
      rfl
  | succ n ih =>
    have hdrop : (rest.drop 84).length = n * 84 := by
      rw [List.length_drop]
      omega
    simp only [checkSpans, Option.bind_eq_bind, Option.bind_eq_some_iff]
    constructor
    · rintro ⟨signature, hsig, acc₁, hcheck, hrest⟩
      obtain ⟨signatures, rfl, hbytes, hfold⟩ := (ih hdrop).1 hrest
      refine ⟨⟨bytesOf 20 (rest.take 20), signature⟩ :: signatures, rfl, ?_, ?_⟩
      · rw [List.flatMap_cons, ← hbytes]
        exact first_span hscheme (by omega) hsig
      · rw [List.foldlM_cons, bind_eq_ok]
        refine ⟨acc₁, ?_, hfold⟩
        revert hcheck
        rcases checkSigner scheme set height round valueId acc ⟨bytesOf 20 (rest.take 20), signature⟩ with e | a
        · exact fun h => (nomatch h)
        · intro h
          cases h
          rfl
    · rintro ⟨signatures, hn, rfl, hfold⟩
      cases signatures with
      | nil => cases hn
      | cons s signatures =>
        rw [List.foldlM_cons, bind_eq_ok] at hfold
        obtain ⟨acc₁, hcheck, hfold⟩ := hfold
        obtain ⟨haddress, hsig, hdrop'⟩ := span_fields hscheme s (signatures.flatMap (putSpan scheme))
        rw [List.flatMap_cons] at hdrop ⊢
        refine ⟨s.signature, hsig, acc₁, by rw [haddress, hcheck]; rfl, ?_⟩
        rw [hdrop'] at hdrop ⊢
        exact (ih hdrop).2 ⟨signatures, Nat.succ.inj hn, rfl, hfold⟩

theorem readSpans_flatMap (signatures : List (CommitSignature Signature)) :
    readSpans scheme signatures.length (signatures.flatMap (putSpan scheme)) =
      some (signatures.map fun s => (⟨s.address, s.signature, none⟩ : ExtendedCommitSignature Signature Extension)) := by
  induction signatures with
  | nil => rfl
  | cons s signatures ih =>
    obtain ⟨haddress, hsig, hdrop⟩ := span_fields hscheme s (signatures.flatMap (putSpan scheme))
    simp only [List.length_cons, readSpans, List.flatMap_cons, haddress, hsig, hdrop, ih, Option.bind_eq_bind,
      Option.bind_some, List.map_cons]

end

/-! ### The collected power -/

section
variable {PublicKey Signature : Type} {scheme : Scheme PublicKey Signature} {set : RoomValidatorSet PublicKey}
  {height : UInt64} {round : Round} {valueId : Bytes32}

def powerAt (set : RoomValidatorSet PublicKey) (addresses : List Address) : Nat :=
  Weights.total powerOf (set.validators.filter fun validator => addresses.contains validator.address)

theorem powerAt_cons {validator : RoomValidator PublicKey} {addresses : List Address} (hsound : set.Sound)
    (hmem : validator ∈ set.validators) (hnew : validator.address ∉ addresses) :
    powerAt set (validator.address :: addresses) = powerAt set addresses + powerOf validator := by
  have hall : ∀ validators : List (RoomValidator PublicKey), (validators.map RoomValidator.address).Nodup →
      validator ∈ validators →
      Weights.total powerOf (validators.filter fun v => (validator.address :: addresses).contains v.address) =
        Weights.total powerOf (validators.filter fun v => addresses.contains v.address) + powerOf validator := by
    intro validators hnodup hmem
    induction validators with
    | nil => cases hmem
    | cons v rest ih =>
      rw [List.map_cons, List.nodup_cons] at hnodup
      rcases List.mem_cons.1 hmem with rfl | hrest
      · have hsame : rest.filter (fun v => (validator.address :: addresses).contains v.address) =
            rest.filter fun v => addresses.contains v.address := by
          refine List.filter_congr fun v hv => ?_
          have hne : v.address ≠ validator.address := fun he => hnodup.1 (he ▸ List.mem_map_of_mem hv)
          simp [hne]
        rw [List.filter_cons_of_pos (by simp), List.filter_cons_of_neg (by simpa using hnew), hsame, Weights.total_cons]
        omega
      · have hne : v.address ≠ validator.address := fun he => hnodup.1 (he ▸ List.mem_map_of_mem hrest)
        have hhead : (validator.address :: addresses).contains v.address = addresses.contains v.address := by simp [hne]
        have hih := ih hnodup.2 hrest
        rw [List.filter_cons, List.filter_cons, hhead]
        split
        · rw [Weights.total_cons, Weights.total_cons, hih]
          omega
        · exact hih
  exact hall set.validators hsound.addresses hmem

theorem checkSigner_eq_ok {acc acc' : Collected} {s : CommitSignature Signature} :
    checkSigner scheme set height round valueId acc s = .ok acc' ↔ ∃ validator, set.getByAddress s.address = some validator ∧
      s.address ∉ acc.seen ∧ scheme.verify validator.publicKey
        (voteSignBytes ⟨.precommit, height, round, some valueId, s.address⟩) s.signature = true ∧
      acc' = ⟨s.address :: acc.seen, acc.signedPower + widen validator.power⟩ := by
  simp only [checkSigner, bind_eq_ok, okOr_eq_ok, require_eq_ok, Bool.not_eq_true', exists_const]
  refine exists_congr fun validator => and_congr_right fun _ => and_congr ?_ (and_congr_right fun _ => ?_)
  · rw [← Bool.not_eq_true, List.contains_iff_mem]
  · exact ⟨fun h => by cases h; rfl, fun h => h ▸ rfl⟩

/-- The signers collected so far, with their power: no addition wraps. -/
structure Collects (set : RoomValidatorSet PublicKey) (signatures : List (CommitSignature Signature)) (acc : Collected) :
    Prop where
  seen : acc.seen = (signatures.map CommitSignature.address).reverse
  nodup : acc.seen.Nodup
  known : ∀ s ∈ signatures, ∃ validator, set.getByAddress s.address = some validator
  power : acc.signedPower.toNat = powerAt set acc.seen

theorem toNat_widen (power : UInt64) : (widen power).toNat = power.toNat := by
  have hlt : power.toNat < 2 ^ 64 := power.toNat_lt
  rw [widen, BitVec.toNat_ofNat, Nat.mod_eq_of_lt (Nat.lt_of_lt_of_le hlt (by decide))]

theorem powerAt_le (set : RoomValidatorSet PublicKey) (addresses : List Address) : powerAt set addresses ≤ Weights.total powerOf set.validators :=
  Weights.total_filter_le

theorem Collects.of_fold (hsound : set.Sound) {signatures : List (CommitSignature Signature)} {acc : Collected}
    (hfold : signatures.foldlM (checkSigner scheme set height round valueId) ⟨[], 0⟩ = .ok acc) :
    Collects set signatures acc := by
  refine foldlM_invariant (I := fun done acc => Collects set done acc) ?_ ⟨rfl, List.nodup_nil, by simp, ?_⟩ hfold
  · intro done s acc acc' hI hcheck
    obtain ⟨validator, hget, hnew, -, rfl⟩ := checkSigner_eq_ok.1 hcheck
    obtain ⟨hmem, haddress⟩ := hsound.getByAddress_eq_some.1 hget
    refine ⟨by simp [hI.seen], List.nodup_cons.2 ⟨hnew, hI.nodup⟩, fun t ht => ?_, ?_⟩
    · rcases List.mem_append.1 ht with ht | ht
      · exact hI.known t ht
      · exact ⟨validator, List.mem_singleton.1 ht ▸ hget⟩
    · have hcons := powerAt_cons hsound hmem (haddress ▸ hnew)
      rw [haddress] at hcons
      have hle := powerAt_le set (s.address :: acc.seen)
      have htotal := hsound.total
      show (acc.signedPower + widen validator.power).toNat = powerAt set (s.address :: acc.seen)
      rw [BitVec.toNat_add, toNat_widen, hI.power, hcons, powerOf, Nat.mod_eq_of_lt]
      rw [powerOf] at hcons
      omega
  · show (0 : Power).toNat = powerAt set []
    rw [powerAt, List.filter_eq_nil_iff.2 (by simp)]
    rfl

theorem Collects.reachesQuorum_iff (hsound : set.Sound) {signatures : List (CommitSignature Signature)} {acc : Collected}
    (h : Collects set signatures acc) :
    reachesQuorum set acc.signedPower = true ↔
      2 * Weights.total powerOf set.validators < 3 * powerAt set acc.seen := by
  have hle := powerAt_le set acc.seen
  have htotal := hsound.total
  have htwo : (2#128).toNat = 2 := rfl
  have hthree : (3#128).toNat = 3 := rfl
  rw [reachesQuorum, decide_eq_true_eq, BitVec.lt_def, BitVec.toNat_mul, BitVec.toNat_mul, toNat_widen,
    hsound.toNat_totalVotingPower, h.power, htwo, hthree, Nat.mod_eq_of_lt (by omega), Nat.mod_eq_of_lt (by omega)]
  omega

/-- What the engine-side verifier checked. -/
structure Verifies (scheme : Scheme PublicKey Signature) (set : RoomValidatorSet PublicKey) (c : CommitCertificate Signature)
    (acc : Collected) : Prop where
  valid : set.validate scheme = .ok ()
  round : ∃ round, c.round = .some round ∧ round ≠ maxRound
  signatures : 1 ≤ c.commitSignatures.length ∧ c.commitSignatures.length ≤ maxCertSignatures
  collected : c.commitSignatures.foldlM (checkSigner scheme set c.height c.round c.valueId) ⟨[], 0⟩ = .ok acc
  quorum : reachesQuorum set acc.signedPower = true

theorem verifyCommitCertificate_eq_ok {c : CommitCertificate Signature} {a : AcceptedCertificate} :
    verifyCommitCertificate scheme c set = .ok a ↔
      (∃ acc, Verifies scheme set c acc) ∧ a = ⟨canonicalBytes scheme c, c.height, c.valueId⟩ := by
  have hlen : (!(c.commitSignatures.isEmpty || decide (c.commitSignatures.length > maxCertSignatures))) = true ↔
      1 ≤ c.commitSignatures.length ∧ c.commitSignatures.length ≤ maxCertSignatures := by
    cases c.commitSignatures <;> simp
  have hround : (c.round ≠ .nil ∧ c.round ≠ .some maxRound) ↔ ∃ round, c.round = .some round ∧ round ≠ maxRound := by
    cases c.round with
    | nil => simp
    | some round => simp
  simp only [verifyCommitCertificate, bind_eq_ok, mapError_eq_ok, require_eq_ok, bne_iff_ne, hlen, exists_const]
  constructor
  · rintro ⟨_, hvalid, hnil, hreserved, hcount, acc, hfold, hquorum, h⟩
    cases h
    exact ⟨⟨acc, hvalid, hround.1 ⟨hnil, hreserved⟩, hcount, hfold, hquorum⟩, rfl⟩
  · rintro ⟨⟨acc, hvalid, hr, hcount, hfold, hquorum⟩, rfl⟩
    exact ⟨(), hvalid, (hround.2 hr).1, (hround.2 hr).2, hcount, acc, hfold, hquorum, rfl⟩

end

/-! ### The verifiers agree -/

section
variable {PublicKey Signature Extension : Type} {scheme : Scheme PublicKey Signature} {set : RoomValidatorSet PublicKey}

def CommitCertificate.signers (c : CommitCertificate Signature) : List Address :=
  c.commitSignatures.map CommitSignature.address

theorem powerAt_congr {addresses addresses' : List Address} (h : ∀ a, a ∈ addresses ↔ a ∈ addresses') :
    powerAt set addresses = powerAt set addresses' := by
  rw [powerAt, powerAt, List.filter_congr fun validator _ => ?_]
  rw [Bool.eq_iff_iff, List.contains_iff_mem, List.contains_iff_mem, h]

theorem Verifies.power {c : CommitCertificate Signature} {acc : Collected} (h : Verifies scheme set c acc) :
    2 * Weights.total powerOf set.validators < 3 * powerAt set c.signers := by
  have hsound := sound_of_validate h.valid
  have hcollects := Collects.of_fold hsound h.collected
  have hquorum := (hcollects.reachesQuorum_iff hsound).1 h.quorum
  rwa [hcollects.seen, powerAt_congr fun a => List.mem_reverse] at hquorum

def commonPower (set : RoomValidatorSet PublicKey) (c c' : CommitCertificate Signature) : Nat :=
  Weights.total powerOf (set.validators.filter fun validator =>
    c.signers.contains validator.address && c'.signers.contains validator.address)

theorem decodeHead_putHead {height : UInt64} {round : UInt32} {valueId : Bytes32} {count : UInt16} {rest : List UInt8}
    (h : round ≠ maxRound) :
    decodeHead (putHead height round valueId count ++ rest) height valueId = some (count.toNat, rest) := by
  obtain ⟨hmagic, hheight, hround, hvalue, hcount⟩ := slices_putHead height round valueId count rest
  have hlen : ¬ (putHead height round valueId count ++ rest).length < 49 := by
    rw [List.length_append, length_putHead]
    omega
  have hne : toBe round ≠ toBe maxRound := fun he => h (by rw [← fromBe_toBe round, he, fromBe_toBe])
  have hhead : ¬ (decide ((putHead height round valueId count ++ rest).length < 49) || certMagic != certMagic) = true := by
    rw [decide_eq_false hlen, bne_self_eq_false]
    exact Bool.false_ne_true
  rw [decodeHead, hmagic, hheight, hround, hvalue, hcount, if_neg hhead, fromBe_toBe, if_neg (not_not_intro rfl),
    if_neg hne, if_neg (not_not_intro rfl), fromBe_toBe, List.drop_left' (length_putHead ..)]

theorem of_decodeHead {raw : List UInt8} {height : UInt64} {valueId : Bytes32} {count : Nat} {rest : List UInt8}
    (h : decodeHead raw height valueId = some (count, rest)) :
    ∃ round c, round ≠ maxRound ∧ raw = putHead height round valueId c ++ rest ∧ count = c.toNat := by
  unfold decodeHead at h
  split at h
  · cases h
  · rename_i hhead
    simp only [Bool.or_eq_true, decide_eq_true_eq, bne_iff_ne, not_or, Nat.not_lt, Decidable.not_not] at hhead
    obtain ⟨hlen, hmagic⟩ := hhead
    have hraw := exists_putHead hlen hmagic
    split at h
    · cases h
    · rename_i hheight
      split at h
      · cases h
      · rename_i hround
        split at h
        · cases h
        · rename_i hvalue
          cases h
          rw [Decidable.not_not] at hheight hvalue
          refine ⟨fromBe (slice raw 11 4), fromBe (slice raw 47 2), fun he => hround ?_, ?_, rfl⟩
          · rw [← he, toBe_fromBe]
            rw [slice, List.length_take, List.length_drop]
            show min 4 (raw.length - 11) = 4
            omega
          · rw [hheight, hvalue, bytesOf_toList] at hraw
            exact hraw

theorem toNat_count {signatures : List (CommitSignature Signature)} (h : signatures.length ≤ maxCertSignatures) :
    (UInt16.ofNat signatures.length).toNat = signatures.length :=
  UInt16.toNat_ofNat_of_lt' (Nat.lt_of_le_of_lt h (by decide))

theorem verifyCanonicalCertificate_eq_true (hscheme : scheme.Lawful) {raw : List UInt8} {height : UInt64} {valueId : Bytes32} :
    verifyCanonicalCertificate scheme raw height valueId set = true ↔ ∃ c acc, Verifies scheme set c acc ∧
      c.height = height ∧ c.valueId = valueId ∧ raw = canonicalBytes scheme c := by
  unfold verifyCanonicalCertificate
  constructor
  · intro h
    rcases hvalid : set.validate scheme with e | ⟨⟩
    · rw [hvalid] at h
      cases h
    rw [hvalid] at h
    rcases hhead : decodeHead raw height valueId with _ | ⟨count, rest⟩
    · rw [hhead] at h
      cases h
    obtain ⟨round, n, hround, hraw, rfl⟩ := of_decodeHead hhead
    rw [hhead] at h
    by_cases hcount : n.toNat = 0 ∨ n.toNat > maxCertSignatures ∨ rest.length ≠ n.toNat * 84
    · simp only [if_pos hcount] at h
      cases h
    simp only [if_neg hcount] at h
    obtain ⟨hzero, hmax, hlen⟩ : n.toNat ≠ 0 ∧ ¬ n.toNat > maxCertSignatures ∧ rest.length = n.toNat * 84 := by
      simpa only [not_or, Decidable.not_not] using hcount
    have hroundOf : roundOf raw = .some round := by
      rw [roundOf, hraw, (slices_putHead ..).2.2.1, fromBe_toBe]
    rw [hroundOf] at h
    rcases hspans : checkSpans scheme set height (.some round) valueId n.toNat rest ⟨[], 0⟩ with _ | acc
    · rw [hspans] at h
      cases h
    rw [hspans] at h
    obtain ⟨signatures, hn, hrest, hfold⟩ := (checkSpans_eq_some hscheme hlen).1 hspans
    refine ⟨⟨height, .some round, valueId, signatures⟩, acc, ⟨hvalid, ⟨round, rfl, hround⟩, ⟨?_, ?_⟩, hfold, h⟩, rfl, rfl, ?_⟩
    · show 1 ≤ signatures.length
      omega
    · show signatures.length ≤ maxCertSignatures
      omega
    · show raw = putHead height round valueId (UInt16.ofNat signatures.length) ++ signatures.flatMap (putSpan scheme)
      rw [hraw, hrest, hn, UInt16.ofNat_toNat]
  · rintro ⟨⟨height, _, valueId, signatures⟩, acc, ⟨hvalid, ⟨round, rfl, hround⟩, ⟨hone, hmax⟩, hfold, hquorum⟩, rfl, rfl, rfl⟩
    have hcount := toNat_count hmax
    have hlen := length_flatMap_putSpan hscheme signatures
    have hraw : canonicalBytes scheme ⟨height, .some round, valueId, signatures⟩ =
        putHead height round valueId (UInt16.ofNat signatures.length) ++ signatures.flatMap (putSpan scheme) := rfl
    have hroundOf : roundOf (canonicalBytes scheme ⟨height, .some round, valueId, signatures⟩) = .some round := by
      rw [roundOf, hraw, (slices_putHead ..).2.2.1, fromBe_toBe]
    have hbounds : ¬ (signatures.length = 0 ∨ signatures.length > maxCertSignatures ∨
        (signatures.flatMap (putSpan scheme)).length ≠ signatures.length * 84) := by
      simp only [not_or, Decidable.not_not]
      exact ⟨Nat.ne_of_gt hone, Nat.not_lt.2 hmax, hlen⟩
    have hspans := (checkSpans_eq_some hscheme hlen).2 ⟨signatures, rfl, rfl, hfold⟩
    rw [hvalid, hroundOf, hraw, decodeHead_putHead hround]
    dsimp only
    rw [hcount, if_neg hbounds, hspans]
    exact hquorum

theorem extCertificateFromCanonical_canonicalBytes (hscheme : scheme.Lawful) {c : CommitCertificate Signature} {acc : Collected}
    (h : Verifies scheme set c acc) :
    extCertificateFromCanonical scheme (canonicalBytes scheme c) = some (⟨c.height, c.round, c.valueId,
      c.commitSignatures.map fun s => ⟨s.address, s.signature, none⟩⟩ : ExtendedCommitCertificate Signature Extension) := by
  obtain ⟨height, _, valueId, signatures⟩ := c
  obtain ⟨-, ⟨round, rfl, hround⟩, ⟨hone, hmax⟩, -, -⟩ := h
  have hcount := toNat_count hmax
  have hlen := length_flatMap_putSpan hscheme signatures
  have hraw : canonicalBytes scheme ⟨height, .some round, valueId, signatures⟩ =
      putHead height round valueId (UInt16.ofNat signatures.length) ++ signatures.flatMap (putSpan scheme) := rfl
  have hbounds : ¬ (signatures.length = 0 ∨ signatures.length > maxCertSignatures ∨
      (signatures.flatMap (putSpan scheme)).length ≠ signatures.length * 84) := by
    simp only [not_or, Decidable.not_not]
    exact ⟨Nat.ne_of_gt hone, Nat.not_lt.2 hmax, hlen⟩
  have hlong : ¬ (decide ((putHead height round valueId (UInt16.ofNat signatures.length) ++
      signatures.flatMap (putSpan scheme)).length < 49) || certMagic != certMagic) = true := by
    rw [bne_self_eq_false, Bool.or_false, decide_eq_true_eq, List.length_append, length_putHead]
    omega
  obtain ⟨hmagic, hheight, hr, hvalue, hn⟩ := slices_putHead height round valueId (UInt16.ofNat signatures.length)
    (signatures.flatMap (putSpan scheme))
  rw [hraw, extCertificateFromCanonical, hmagic, hheight, hr, hvalue, hn, if_neg hlong]
  simp only [fromBe_toBe, if_neg hround, hcount, bytesOf_toList, List.drop_left' (length_putHead ..), if_neg hbounds]
  rw [readSpans_flatMap hscheme]
  rfl

theorem commit_of_map (c : CommitCertificate Signature) :
    (⟨c.height, c.round, c.valueId, c.commitSignatures.map fun s => ⟨s.address, s.signature, none⟩⟩ :
      ExtendedCommitCertificate Signature Extension).commit = c := by
  simp [ExtendedCommitCertificate.commit, Function.comp_def]

/-- No sum of the verifiers wraps, neither the total nor the collected power nor their products. -/
structure NoOverflow (scheme : Scheme PublicKey Signature) (set : RoomValidatorSet PublicKey) : Prop where
  total : set.totalVotingPower.toNat = Weights.total powerOf set.validators
  twice : (widen set.totalVotingPower).toNat * 2 < 2 ^ 128
  collected : ∀ height round valueId (signatures : List (CommitSignature Signature)) acc,
    signatures.foldlM (checkSigner scheme set height round valueId) ⟨[], 0⟩ = .ok acc →
      acc.signedPower.toNat = powerAt set (signatures.map CommitSignature.address) ∧ acc.signedPower.toNat * 3 < 2 ^ 128

theorem noOverflow_of_sound (hsound : set.Sound) : NoOverflow scheme set := by
  have htotal := hsound.total
  refine ⟨hsound.toNat_totalVotingPower, ?_, fun height round valueId signatures acc hfold => ?_⟩
  · rw [toNat_widen, hsound.toNat_totalVotingPower]
    omega
  · have hcollects := Collects.of_fold hsound hfold
    have hpower : acc.signedPower.toNat = powerAt set (signatures.map CommitSignature.address) := by
      rw [hcollects.power, hcollects.seen, powerAt_congr fun a => List.mem_reverse]
    have hle := powerAt_le set (signatures.map CommitSignature.address)
    exact ⟨hpower, by omega⟩

theorem third_lt_commonPower {c c' : CommitCertificate Signature} {acc acc' : Collected} (h : Verifies scheme set c acc)
    (h' : Verifies scheme set c' acc') : Weights.total powerOf set.validators < 3 * commonPower set c c' :=
  Weights.third_lt_common h.power h'.power

structure CertificatesAgree (scheme : Scheme PublicKey Signature) (Extension : Type) (set : RoomValidatorSet PublicKey) : Prop where
  canonical : ∀ c a, verifyCommitCertificate scheme c set = .ok a →
    a.bytes = canonicalBytes scheme c ∧ verifyCanonicalCertificate scheme a.bytes c.height c.valueId set = true
  rebuilt : ∀ raw height valueId, verifyCanonicalCertificate scheme raw height valueId set = true →
    ∃ (c : ExtendedCommitCertificate Signature Extension) (a : AcceptedCertificate),
      extCertificateFromCanonical scheme raw = some c ∧ c.height = height ∧ c.valueId = valueId ∧
      verifyCommitCertificate scheme c.commit set = .ok a ∧ canonicalBytes scheme c.commit = raw
  intersect : ∀ c a c' a', verifyCommitCertificate scheme c set = .ok a → verifyCommitCertificate scheme c' set = .ok a' →
    Weights.total powerOf set.validators < 3 * commonPower set c c'
  exact : NoOverflow scheme set

theorem certificates_agree (Extension : Type) (hscheme : scheme.Lawful) (hvalid : set.validate scheme = .ok ()) :
    CertificatesAgree scheme Extension set := by
  refine ⟨?_, ?_, ?_, noOverflow_of_sound (sound_of_validate hvalid)⟩
  · intro c a h
    obtain ⟨⟨acc, hacc⟩, rfl⟩ := verifyCommitCertificate_eq_ok.1 h
    exact ⟨rfl, (verifyCanonicalCertificate_eq_true hscheme).2 ⟨c, acc, hacc, rfl, rfl, rfl⟩⟩
  · intro raw height valueId h
    obtain ⟨c, acc, hacc, rfl, rfl, rfl⟩ := (verifyCanonicalCertificate_eq_true hscheme).1 h
    refine ⟨_, ⟨canonicalBytes scheme c, c.height, c.valueId⟩, extCertificateFromCanonical_canonicalBytes hscheme hacc,
      rfl, rfl, ?_, ?_⟩
    · rw [commit_of_map]
      exact verifyCommitCertificate_eq_ok.2 ⟨⟨acc, hacc⟩, rfl⟩
    · rw [commit_of_map]
  · intro c a c' a' h h'
    obtain ⟨⟨acc, hacc⟩, -⟩ := verifyCommitCertificate_eq_ok.1 h
    obtain ⟨⟨acc', hacc'⟩, -⟩ := verifyCommitCertificate_eq_ok.1 h'
    exact third_lt_commonPower hacc hacc'

end

/-! ### A set of one validator -/

def sampleKey : Bytes32 :=
  #v[
    138, 136, 227, 221, 116, 9, 241, 149, 253, 82, 219, 45, 60, 186, 93, 114, 202, 103, 9, 191, 29, 148, 18, 27,
    243, 116, 136, 1, 180, 15, 111, 92]

def sampleAddress : Address :=
  #v[
    138, 192, 19, 186, 172, 111, 211, 146, 239, 197, 123, 176, 151, 177, 200, 19, 234, 231, 2, 51]

def sampleSignature : Vector UInt8 64 :=
  #v[
    178, 255, 243, 198, 138, 167, 66, 189, 141, 48, 164, 44, 253, 20, 11, 98, 124, 186, 32, 47, 141, 247, 250, 235,
    200, 160, 184, 71, 237, 250, 94, 94, 128, 238, 161, 5, 58, 51, 20, 10, 114, 174, 228, 19, 44, 217, 140, 96,
    145, 175, 215, 89, 65, 52, 244, 107, 102, 252, 243, 181, 100, 169, 1, 15]

def sampleValue : Bytes32 := Vector.replicate 32 7

def sampleScheme : Scheme Bytes32 (Vector UInt8 64) where
  fromPublicKey key := if key = sampleKey then sampleAddress else Vector.replicate 20 0
  verify key bytes signature := decide (key = sampleKey ∧ signature = sampleSignature ∧
    bytes = voteSignBytes ⟨.precommit, 5, .some 0, some sampleValue, sampleAddress⟩)
  encodeSignature signature := signature.toList
  decodeSignature bytes := if bytes.length = 64 then some (bytesOf 64 bytes) else none

theorem sampleScheme_lawful : sampleScheme.Lawful := by
  refine ⟨fun signature => signature.length_toList, fun signature => ?_, fun bytes signature h => ?_⟩
  · show (if signature.toList.length = 64 then some (bytesOf 64 signature.toList) else none) = some signature
    rw [if_pos signature.length_toList, bytesOf_toList]
  · obtain ⟨hlen, h⟩ := Option.ite_none_right_eq_some.1 h
    show signature.toList = bytes
    rw [← Option.some.inj h, toList_bytesOf hlen]

def sampleSet : RoomValidatorSet Bytes32 := ⟨[⟨sampleAddress, sampleKey, 3⟩]⟩

def sampleCertificate : CommitCertificate (Vector UInt8 64) := ⟨5, .some 0, sampleValue, [⟨sampleAddress, sampleSignature⟩]⟩

theorem sample_certificates_agree : sampleSet.validate sampleScheme = .ok () ∧
    (∃ a, verifyCommitCertificate sampleScheme sampleCertificate sampleSet = .ok a) ∧
    CertificatesAgree sampleScheme Unit sampleSet :=
  ⟨by decide +kernel, ⟨⟨canonicalBytes sampleScheme sampleCertificate, 5, sampleValue⟩, by decide +kernel⟩,
    certificates_agree Unit sampleScheme_lawful (by decide +kernel)⟩

end Valhalla.RoomsNode
