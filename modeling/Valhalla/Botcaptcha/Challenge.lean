import Valhalla.Core
import Valhalla.Witness.Replay

/-!
# Signed challenges (`challenge.rs` of `vhalla-botcaptcha`)

An issuer signs a challenge for one subject key. Its dedup scope is the issuer, the challenge id and the
subject. A `VerifiedChallenge` carries the fact that the signature was checked.
-/

namespace Valhalla.Botcaptcha
open Fallible FixedWidth Check
open Valhalla.Witness hiding version

def version : UInt8 := 1
def maxChallengeLifetime : UInt64 := 15 * 60
def challengeDomain : List UInt8 := "vhalla/botcaptcha/challenge/v1".toUTF8.toList
def responseDomain : List UInt8 := "vhalla/botcaptcha/response/v1".toUTF8.toList
def dedupDomain : List UInt8 := "vhalla/botcaptcha/dedup/v1".toUTF8.toList
def rewardDomain : List UInt8 := "vhalla/botcaptcha/reward/v1".toUTF8.toList
def workDomain : List UInt8 := "vhalla/botcaptcha/pow/v1".toUTF8.toList
def hashcashResponseDomain : List UInt8 := "vhalla/botcaptcha/hashcash-response/v1".toUTF8.toList

/-- `domain || u32 length || bytes`: the message a key signs. -/
def transcript (domain body : List UInt8) : List UInt8 :=
  domain ++ (toBe (UInt32.ofNat (min body.length (2 ^ 32 - 1))) ++ body)

/-! ### Challenges -/

inductive Algorithm
  | hashcash | witness
deriving DecidableEq, Repr

inductive Purpose
  | rateLimitRelief | gameQualification
deriving DecidableEq, Repr

/-- The fields a verifier expects a challenge to carry. -/
structure ChallengeContext where
  issuerKey : Bytes32
  subjectKey : Bytes32
  realm : RealmId
  room : RoomId
  purpose : Purpose
deriving DecidableEq

def maxDifficulty : UInt8 := 48

/-- A leading-zero-bit target. -/
structure Difficulty where
  bits : UInt8
  valid : 1 ≤ bits ∧ bits ≤ maxDifficulty
deriving DecidableEq

def Difficulty.new (bits : UInt8) : Option Difficulty :=
  if h : 1 ≤ bits ∧ bits ≤ maxDifficulty then some ⟨bits, h⟩ else none

/-- What the subject must achieve. -/
inductive Requirement
  | witness (contract : WorkContract)
  | hashcash (difficulty : Difficulty)
deriving DecidableEq

def challengeBytes : Nat := 1 + 1 + 32 + 32 + 32 + 16 + 16 + 1 + 32 + 8 + 8 + 8 + 8 + 1 + 64

structure Challenge where
  version : UInt8
  algorithm : Algorithm
  challengeId : Bytes32
  issuerKey : Bytes32
  subjectKey : Bytes32
  realm : RealmId
  room : RoomId
  purpose : Purpose
  taskManifestHash : ManifestHash
  issuedAt : UInt64
  expiresAt : UInt64
  requirement : Requirement
  signature : Signature
deriving DecidableEq

def Algorithm.tag : Algorithm → UInt8
  | .hashcash => 1
  | .witness => 2

def Purpose.tag : Purpose → UInt8
  | .rateLimitRelief => 1
  | .gameQualification => 2

/-- Both variants take the same seventeen bytes. -/
def putRequirement : Requirement → List UInt8
  | .witness contract => putContract contract
  | .hashcash difficulty => putU64 difficulty.bits.toUInt64 ++ (putU64 0 ++ putBool false)

def getSignature : GetM Signature := do
  let low ← getHash
  let high ← getHash
  pure (low ++ high)

def readU128 : GetM (BitVec 128) := do
  let hi ← getU64 .contract
  let lo ← getU64 .contract
  pure (hi.toBitVec ++ lo.toBitVec)

def getVersion : GetM UInt8 := do
  let found ← getU8 .version
  if found ≠ version then throw (.unsupportedVersion found) else pure found

def getAlgorithm : GetM Algorithm := do
  match ← getU8 .language with
  | 1 => pure .hashcash
  | 2 => pure .witness
  | found => throw (.discriminant .language found)

def getPurpose : GetM Purpose := do
  match ← getU8 .contract with
  | 1 => pure .rateLimitRelief
  | 2 => pure .gameQualification
  | found => throw (.discriminant .contract found)

/-- `u8::try_from(first).ok().and_then(Difficulty::new)`. -/
def difficultyOf (first : UInt64) : Option Difficulty :=
  if first.toNat < 256 then Difficulty.new first.toUInt8 else none

def requirementOf (algorithm : Algorithm) (first second : UInt64) (third : Bool) : Except CodecError Requirement :=
  match algorithm with
  | .witness => .ok (.witness ⟨first, second, third⟩)
  | .hashcash =>
    match difficultyOf first with
    | some difficulty => if second = 0 ∧ third = false then .ok (.hashcash difficulty) else .error (.bound .contract)
    | none => .error (.bound .contract)

def getRequirement (algorithm : Algorithm) : GetM Requirement := do
  let first ← getU64 .contract
  let second ← getU64 .contract
  let third ← getBool .contract
  examine fun _ => requirementOf algorithm first second third

namespace Challenge
variable (crypto : Crypto) (challenge : Challenge)

/-- Every field except the signature. -/
def body : List UInt8 :=
  putU8 challenge.version ++ (putU8 challenge.algorithm.tag ++ (challenge.challengeId.toList ++
    (challenge.issuerKey.toList ++ (challenge.subjectKey.toList ++ (toBe challenge.realm.value ++
    (toBe challenge.room.value ++ (putU8 challenge.purpose.tag ++ (challenge.taskManifestHash.bytes.toList ++
    (putU64 challenge.issuedAt ++ (putU64 challenge.expiresAt ++ putRequirement challenge.requirement))))))))))

def transcript : List UInt8 := Botcaptcha.transcript challengeDomain challenge.body

def encode : List UInt8 := challenge.body ++ challenge.signature.toList

def get : GetM Challenge := do
  let version ← getVersion
  let algorithm ← getAlgorithm
  let challengeId ← getHash
  let issuerKey ← getHash
  let subjectKey ← getHash
  let realm ← readU128
  let room ← readU128
  let purpose ← getPurpose
  let taskManifestHash ← getHash
  let issuedAt ← getU64 .contract
  let expiresAt ← getU64 .contract
  let requirement ← getRequirement algorithm
  let signature ← getSignature
  pure ⟨version, algorithm, challengeId, issuerKey, subjectKey, ⟨realm⟩, ⟨room⟩, purpose, ⟨taskManifestHash⟩, issuedAt,
    expiresAt, requirement, signature⟩

def decode (raw : List UInt8) : Except CodecError Challenge := decodeBounded challengeBytes get raw

def contract : Option WorkContract :=
  match challenge.requirement with
  | .witness contract => some contract
  | .hashcash _ => none

/-- The leading-zero-bit target, in Hashcash mode. -/
def difficulty : Option Difficulty :=
  match challenge.requirement with
  | .witness _ => none
  | .hashcash difficulty => some difficulty

def hash : Bytes32 := digest crypto.sha256 challengeDomain challenge.body

def context : ChallengeContext :=
  ⟨challenge.issuerKey, challenge.subjectKey, challenge.realm, challenge.room, challenge.purpose⟩

def scope : Bytes32 × Bytes32 × Bytes32 := (challenge.issuerKey, challenge.challengeId, challenge.subjectKey)

def scopeKey : Bytes32 :=
  digest crypto.sha256 dedupDomain
    (challenge.issuerKey.toList ++ (challenge.challengeId.toList ++ challenge.subjectKey.toList))

end Challenge

/-! ### Verification -/

/-- Why a challenge or response is refused. -/
inductive WitnessError
  | codec (error : CodecError)
  | algorithm | weakIssuerKey | issuerSignature | context | notYetValid | expired | beforeVerifierStart | lifetime
  | manifest | weakSubjectKey | subjectSignature | binding | claim | candidate | program | allowance | run | receipt
  | floor | ceiling | notPassed | replay | equivocation | capacity | subjectCapacity | insufficientWork
deriving DecidableEq, Repr

def checkSignature (crypto : Crypto) (weak invalid : WitnessError) (key : Bytes32) (message : List UInt8)
    (signature : Signature) : Except WitnessError Unit := do
  require invalid (crypto.decodesKey key)
  require weak !(crypto.isWeak key)
  require invalid (crypto.verifyStrict key message signature)

namespace Challenge
variable (crypto : Crypto) (challenge : Challenge)

def authenticate : Except WitnessError Unit :=
  checkSignature crypto .weakIssuerKey .issuerSignature challenge.issuerKey challenge.transcript challenge.signature

def Signed : Prop := challenge.authenticate crypto = .ok ()

instance : Decidable (challenge.Signed crypto) := inferInstanceAs (Decidable (_ = _))

def checkWindow (expected : ChallengeContext) (startedAt now : UInt64) : Except WitnessError Unit := do
  require .context (challenge.context == expected)
  let lifetime ← okOr .lifetime (checkedSub challenge.expiresAt challenge.issuedAt)
  require .lifetime !(lifetime == 0 || decide (lifetime > maxChallengeLifetime))
  require .notYetValid !decide (now < challenge.issuedAt)
  require .expired !decide (now > challenge.expiresAt)
  require .beforeVerifierStart !decide (challenge.issuedAt < startedAt)

end Challenge

/-- A challenge whose issuer signature, context and time window were checked. -/
structure VerifiedChallenge (crypto : Crypto) where
  challenge : Challenge
  scopeKey : Bytes32
  signed : challenge.Signed crypto
  derived : scopeKey = challenge.scopeKey crypto

namespace VerifiedChallenge
variable {crypto : Crypto} {challenge : Challenge} {expected : ChallengeContext} {startedAt now : UInt64}
  {verified : VerifiedChallenge crypto}

variable (crypto) in
def verify (challenge : Challenge) (expected : ChallengeContext) (startedAt now : UInt64) :
    Except WitnessError (VerifiedChallenge crypto) :=
  match h : challenge.authenticate crypto with
  | .error e => .error e
  | .ok () => do
    challenge.checkWindow expected startedAt now
    pure ⟨challenge, challenge.scopeKey crypto, h, rfl⟩

def ofSigned (h : challenge.Signed crypto) : VerifiedChallenge crypto := ⟨challenge, challenge.scopeKey crypto, h, rfl⟩

/-- A challenge is only verified up to its expiry. -/
theorem verify_ok (h : verify crypto challenge expected startedAt now = .ok verified) :
    verified.challenge = challenge ∧ challenge.Signed crypto ∧ now ≤ challenge.expiresAt := by
  unfold verify at h
  split at h
  · cases h
  · rename_i hsigned
    rw [bind_eq_ok] at h
    obtain ⟨_, hwindow, h⟩ := h
    cases h
    simp only [Challenge.checkWindow, bind_eq_ok, require_eq_ok, okOr_eq_ok] at hwindow
    obtain ⟨-, -, lifetime, -, -, -, -, -, -, hexpired, -⟩ := hwindow
    refine ⟨rfl, hsigned, ?_⟩
    simpa using hexpired

def runCapability (verified : VerifiedChallenge crypto) (program : ProgramHash) (allowance : WorkAllowance)
    (role : RunRole) : RunCapability :=
  ⟨verified.challenge.taskManifestHash, program, allowance, role⟩

def receiptBinding (verified : VerifiedChallenge crypto) : ReceiptBinding :=
  ⟨verified.challenge.challengeId, verified.challenge.subjectKey⟩

end VerifiedChallenge

end Valhalla.Botcaptcha

/-!
## Signed responses (`response.rs`, `hashcash.rs`)

A witness response carries the candidate programs and the receipt that the subject claims; a Hashcash response
carries the nonce it found.
-/

namespace Valhalla.Botcaptcha
open Fallible FixedWidth Check
open Valhalla.Witness hiding version

inductive ProofProfile
  | transparentReceipt
deriving DecidableEq, Repr

def ProofProfile.tag : ProofProfile → UInt8
  | .transparentReceipt => 1

structure MeasuredWork where
  useful : UInt64
  total : UInt64
deriving DecidableEq, Repr

def responseFixedBytes : Nat := 1 + 1 + 32 * 7 + 8 + 8 + 9 + 2
def maxResponseBytes : Nat := responseFixedBytes + maxAssignmentBytes + receiptBytes + 64

structure Response where
  version : UInt8
  proofProfile : ProofProfile
  challengeId : Bytes32
  challengeHash : Bytes32
  subjectKey : Bytes32
  taskManifestHash : ManifestHash
  programHash : ProgramHash
  outputHash : OutputHash
  receiptHash : ReceiptHash
  measuredWork : MeasuredWork
  hashcashNonce : Option UInt64
  candidate : List UInt8
  claimed : ClaimedReceipt
  signature : Signature
deriving DecidableEq

def getProofProfile : GetM ProofProfile := do
  match ← getU8 .language with
  | 1 => pure .transparentReceipt
  | found => throw (.discriminant .language found)

def getMeasuredWork : GetM MeasuredWork := do
  let useful ← getU64 .ledger
  let total ← getU64 .ledger
  pure ⟨useful, total⟩

/-- `len as u16`. -/
def putCandidateBytes (candidate : List UInt8) : List UInt8 := putU16 (UInt16.ofNat candidate.length) ++ candidate

def getCandidateBytes : GetM (List UInt8) := do
  let len ← getU16 .count
  if len.toNat > maxAssignmentBytes then throw (.bound .count) else Reader.take (.truncated .cell) len.toNat

def getClaimed : GetM ClaimedReceipt := do
  let receipt ← Reader.take (.truncated .hash) receiptBytes
  examine fun _ => ClaimedReceipt.decode receipt

namespace Response
variable (crypto : Crypto) (response : Response)

/-- Every field except the signature. -/
def body : List UInt8 :=
  putU8 response.version ++ (putU8 response.proofProfile.tag ++ (response.challengeId.toList ++
    (response.challengeHash.toList ++ (response.subjectKey.toList ++ (response.taskManifestHash.bytes.toList ++
    (response.programHash.bytes.toList ++ (response.outputHash.bytes.toList ++ (response.receiptHash.bytes.toList ++
    (putU64 response.measuredWork.useful ++ (putU64 response.measuredWork.total ++
    (putOption putU64 response.hashcashNonce ++ (putCandidateBytes response.candidate ++
    response.claimed.encode))))))))))))

def transcript : List UInt8 := Botcaptcha.transcript responseDomain response.body

def hash : Bytes32 := digest crypto.sha256 responseDomain response.body

def encode : List UInt8 := response.body ++ response.signature.toList

def get : GetM Response := do
  let version ← getVersion
  let proofProfile ← getProofProfile
  let challengeId ← getHash
  let challengeHash ← getHash
  let subjectKey ← getHash
  let taskManifestHash ← getHash
  let programHash ← getHash
  let outputHash ← getHash
  let receiptHash ← getHash
  let measuredWork ← getMeasuredWork
  let hashcashNonce ← getOption .remember (getU64 .value)
  let candidate ← getCandidateBytes
  let claimed ← getClaimed
  let signature ← getSignature
  pure ⟨version, proofProfile, challengeId, challengeHash, subjectKey, ⟨taskManifestHash⟩, ⟨programHash⟩, ⟨outputHash⟩,
    ⟨receiptHash⟩, measuredWork, hashcashNonce, candidate, claimed, signature⟩

def decode (raw : List UInt8) : Except CodecError Response := decodeBounded maxResponseBytes get raw

end Response

/-! ### Hashcash -/

/-- The digest whose leading zero bits are counted. -/
def workDigest (crypto : Crypto) (challengeHash subjectKey : Bytes32) (nonce : UInt64) : Bytes32 :=
  digest crypto.sha256 workDomain (challengeHash.toList ++ (subjectKey.toList ++ putU64 nonce))

def byteLeadingZeros (byte : UInt8) : Nat := ((List.range 8).takeWhile fun i => !byte.toNat.testBit (7 - i)).length

def leadingZeroBits : List UInt8 → Nat
  | [] => 0
  | byte :: bytes => if byte = 0 then 8 + leadingZeroBits bytes else byteLeadingZeros byte

def hashcashResponseBytes : Nat := 1 + 32 + 32 + 32 + 8 + 64

structure HashcashResponse where
  version : UInt8
  challengeId : Bytes32
  challengeHash : Bytes32
  subjectKey : Bytes32
  nonce : UInt64
  signature : Signature
deriving DecidableEq

namespace HashcashResponse
variable (crypto : Crypto) (response : HashcashResponse)

def body : List UInt8 :=
  putU8 response.version ++ (response.challengeId.toList ++ (response.challengeHash.toList ++
    (response.subjectKey.toList ++ putU64 response.nonce)))

def transcript : List UInt8 := Botcaptcha.transcript hashcashResponseDomain response.body

def hash : Bytes32 := digest crypto.sha256 hashcashResponseDomain response.body

def encode : List UInt8 := response.body ++ response.signature.toList

def get : GetM HashcashResponse := do
  let version ← getVersion
  let challengeId ← getHash
  let challengeHash ← getHash
  let subjectKey ← getHash
  let nonce ← getU64 .value
  let signature ← getSignature
  pure ⟨version, challengeId, challengeHash, subjectKey, nonce, signature⟩

def decode (raw : List UInt8) : Except CodecError HashcashResponse := decodeBounded hashcashResponseBytes get raw

end HashcashResponse

end Valhalla.Botcaptcha
