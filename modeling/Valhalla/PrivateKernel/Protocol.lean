import Valhalla.Core
import Valhalla.Lib.Check
import Valhalla.Lib.Wire

/-!
# Signed private-room records (`vhalla-private-protocol`)

Anchor, enrollment, invitation, owner control and succession grant. The `signed_record!` macro is a
`RecordKind` with the parameters it is used with. Keys, identifiers, floors and intervals carry the checks
of their constructors, a signed record those of its decoder, and a verified one its signature check.
-/

namespace Valhalla.PrivateKernel
open Fallible FixedWidth Check

def zeroBytes : Bytes32 := Vector.replicate 32 0

/-- SHA-256 and Ed25519. No message has the all-zero digest that the records use as a sentinel. -/
structure Hashing extends Crypto where
  sha256_ne_zero : ∀ m, sha256 m ≠ zeroBytes

/-- `vhalla_private_protocol::Error`. -/
inductive RecordError
  | bounds | encoding | protocol | key | identifier | signer | signature | time | sequence | membership
deriving DecidableEq, Repr

def maxRecordBytes : Nat := 4096
def maxArtifactBytes : Nat := 128 * 1024
def maxChanges : Nat := 16
def ciphersuite : UInt16 := 1
def membershipPolicy : UInt8 := 1
def recordPrefix : List UInt8 := [86, 72, 80, 82, 1]
def signDomain : List UInt8 := "vhalla/private-room/signature/v1".toUTF8.toList ++ [0]

/-! ### Keys and identifiers -/

/-- A strictly parsed, non-weak public key, without role authority. -/
structure Key (crypto : Hashing) where
  bytes : Bytes32
  valid : (crypto.decodesKey bytes && !crypto.isWeak bytes) = true
deriving DecidableEq

def Key.fromBytes {crypto : Hashing} (raw : Bytes32) : Except RecordError (Key crypto) :=
  if h : (crypto.decodesKey raw && !crypto.isWeak raw) = true then .ok ⟨raw, h⟩ else .error .key

/-- The uses of the `identifier!` macro. -/
inductive IdentifierKind
  | room | anchor | enrollment | invitation | control | succession | nonce | keyPackage | commit | welcome
deriving DecidableEq, Repr

structure Identifier (kind : IdentifierKind) where
  bytes : Bytes32
  nonzero : bytes ≠ zeroBytes
deriving DecidableEq

def Identifier.fromBytes {kind : IdentifierKind} (raw : Bytes32) : Except RecordError (Identifier kind) :=
  if h : raw = zeroBytes then .error .identifier else .ok ⟨raw, h⟩

abbrev RoomId := Identifier .room
abbrev AnchorId := Identifier .anchor
abbrev EnrollmentId := Identifier .enrollment
abbrev InvitationId := Identifier .invitation
abbrev ControlId := Identifier .control
abbrev SuccessionId := Identifier .succession
abbrev Nonce := Identifier .nonce
abbrev KeyPackageDigest := Identifier .keyPackage
abbrev CommitDigest := Identifier .commit
abbrev WelcomeDigest := Identifier .welcome

def artifactDomain (kind : IdentifierKind) : List UInt8 :=
  match kind with
  | .keyPackage => "vhalla/private-room/key-package/v1".toUTF8.toList ++ [0]
  | .commit => "vhalla/private-room/commit/v1".toUTF8.toList ++ [0]
  | .welcome => "vhalla/private-room/welcome/v1".toUTF8.toList ++ [0]
  | _ => []

/-- `KeyPackageDigest::of_bytes`, `CommitDigest::of_bytes` and `WelcomeDigest::of_bytes`. -/
def Identifier.ofBytes (crypto : Hashing) (kind : IdentifierKind) (raw : List UInt8) :
    Except RecordError (Identifier kind) := do
  require .bounds (!raw.isEmpty && decide (raw.length ≤ maxArtifactBytes))
  Identifier.fromBytes (crypto.sha256 (artifactDomain kind ++ raw))

structure PrivateRoomScope where
  room : RoomId
  anchor : AnchorId
deriving DecidableEq

/-- A half-open interval of caller-clock seconds. -/
structure Validity where
  notBefore : UInt64
  expiresAt : UInt64
  ordered : notBefore < expiresAt
deriving DecidableEq

namespace Validity

def new (notBefore expiresAt : UInt64) : Except RecordError Validity :=
  if h : notBefore < expiresAt then .ok ⟨notBefore, expiresAt, h⟩ else .error .time

def checkAt (validity : Validity) (now : UInt64) : Except RecordError Unit :=
  require .time !(decide (now < validity.notBefore) || decide (validity.expiresAt ≤ now))

end Validity

/-- An exact control predecessor: sequence zero has no identifier, every other one does. -/
structure ControlFloor where
  sequence : UInt64
  id : Option ControlId
  shape : sequence = 0 ↔ id = none
deriving DecidableEq

namespace ControlFloor

def genesis : ControlFloor := ⟨0, none, by simp⟩

def new (sequence : UInt64) (id : Option ControlId) : Except RecordError ControlFloor :=
  if h : sequence = 0 ↔ id = none then .ok ⟨sequence, id, h⟩ else .error .sequence

def nextSequence (floor : ControlFloor) : Except RecordError UInt64 :=
  Check.okOr .sequence (checkedAdd floor.sequence 1)

end ControlFloor

/-! ### Readers -/

abbrev GetM := Reader RecordError

def getArray (n : Nat) : GetM (Vector UInt8 n) := Reader.array .encoding n

def getU64 : GetM UInt64 := Reader.int .encoding

def getByte : GetM UInt8 := Reader.int .encoding

def getMagic (magic : List UInt8) : GetM Unit := do
  let found ← Reader.take .encoding magic.length
  if found ≠ magic then throw .protocol else pure ()

def getBlob (limit : Nat) : GetM (List UInt8) := do
  let length ← (Reader.int .encoding : GetM UInt32)
  if toNat length > limit then throw .bounds else Reader.take .encoding (toNat length)

def putBlob (raw : List UInt8) : List UInt8 := toBe (UInt32.ofNat raw.length) ++ raw

def getKey {crypto : Hashing} : GetM (Key crypto) := do
  let raw ← getArray 32
  Reader.lift (Key.fromBytes raw)

def getIdentifier (kind : IdentifierKind) : GetM (Identifier kind) := do
  let raw ← getArray 32
  Reader.lift (Identifier.fromBytes raw)

def putScope (scope : PrivateRoomScope) : List UInt8 := scope.room.bytes.toList ++ scope.anchor.bytes.toList

def getScope : GetM PrivateRoomScope := do
  let room ← getIdentifier .room
  let anchor ← getIdentifier .anchor
  pure ⟨room, anchor⟩

def putValidity (validity : Validity) : List UInt8 := toBe validity.notBefore ++ toBe validity.expiresAt

def getValidity : GetM Validity := do
  let notBefore ← getU64
  let expiresAt ← getU64
  Reader.lift (Validity.new notBefore expiresAt)

def floorId (id : Option ControlId) : Bytes32 := id.elim zeroBytes Identifier.bytes

def putFloor (floor : ControlFloor) : List UInt8 := toBe floor.sequence ++ (floorId floor.id).toList

def ControlFloor.read (sequence : UInt64) (raw : Bytes32) : Except RecordError ControlFloor := do
  let id ← if raw = zeroBytes then pure none else some <$> Identifier.fromBytes raw
  ControlFloor.new sequence id

def getFloor : GetM ControlFloor := do
  let sequence ← getU64
  let raw ← getArray 32
  Reader.lift (ControlFloor.read sequence raw)

/-! ### The record macro -/

/-- The parameters of the `signed_record!` macro. -/
structure RecordKind (crypto : Hashing) (C : Type) where
  kind : UInt8
  signer : C → Key crypto
  validate : C → Except RecordError Unit
  put : C → List UInt8
  get : GetM C
  idDomain : List UInt8

section
variable {crypto : Hashing} {C : Type} (kind : RecordKind crypto C)

namespace RecordKind

def unsigned (claims : C) : List UInt8 := recordPrefix ++ (kind.kind :: kind.put claims)

def signingBytes (claims : C) : List UInt8 := signDomain ++ kind.unsigned claims

end RecordKind

/-- Canonical claims and a signature that nobody has checked. -/
structure Signed where
  claims : C
  signature : Signature
  valid : kind.validate claims = .ok ()
  fits : (kind.unsigned claims).length + 64 ≤ maxRecordBytes
deriving DecidableEq

variable {kind}

namespace Signed

def encode (signed : Signed kind) : List UInt8 := kind.unsigned signed.claims ++ signed.signature.toList

def digest (signed : Signed kind) : Bytes32 := crypto.sha256 (kind.idDomain ++ signed.encode)

theorem digest_ne_zero (signed : Signed kind) : signed.digest ≠ zeroBytes := crypto.sha256_ne_zero _

def make (claims : C) (signature : Signature) : Except RecordError (Signed kind) :=
  match h : kind.validate claims with
  | .error e => .error e
  | .ok () =>
    if hfits : (kind.unsigned claims).length + 64 ≤ maxRecordBytes then .ok ⟨claims, signature, h, hfits⟩
    else .error .bounds

def getRecord (kind : RecordKind crypto C) : GetM (C × Signature) := do
  getMagic recordPrefix
  getMagic [kind.kind]
  let claims ← kind.get
  Reader.lift (kind.validate claims)
  let signature ← getArray 64
  pure (claims, signature)

def decode (raw : List UInt8) : Except RecordError (Signed kind) := do
  let (claims, signature) ← Reader.decode (fun _ _ => .bounds) (fun _ => .encoding) maxRecordBytes (getRecord kind) raw
  make claims signature

def getNested : GetM (Signed kind) := do
  let raw ← getBlob maxRecordBytes
  Reader.lift (decode raw)

end Signed

variable (kind)

structure Verified where
  signed : Signed kind
  verified : crypto.verifyStrict (kind.signer signed.claims).bytes (kind.signingBytes signed.claims) signed.signature = true
deriving DecidableEq

variable {kind}

def Signed.verify (signed : Signed kind) : Except RecordError (Verified kind) :=
  if h : crypto.verifyStrict (kind.signer signed.claims).bytes (kind.signingBytes signed.claims) signed.signature = true then
    .ok ⟨signed, h⟩
  else .error .signature

namespace Verified

def claims (record : Verified kind) : C := record.signed.claims

/-- `UnsignedX::new` followed by `attach`. -/
def attach (claims : C) (signature : Signature) : Except RecordError (Verified kind) := do
  let signed ← Signed.make claims signature
  signed.verify

/-- `Self::decode(raw)?.verify()?`. -/
def decode (raw : List UInt8) : Except RecordError (Verified kind) := do
  let signed ← Signed.decode raw
  signed.verify

def encode (record : Verified kind) : List UInt8 := record.signed.encode

end Verified

end

/-! ### Anchors and enrollments -/

section
variable (crypto : Hashing)

structure RoomAnchorClaims where
  room : RoomId
  ownerAccount : Key crypto
  ownerDevice : Key crypto
deriving DecidableEq

structure DeviceEnrollmentClaims where
  account : Key crypto
  device : Key crypto
  validity : Validity
deriving DecidableEq

def putSuite : List UInt8 := toBe ciphersuite ++ [membershipPolicy]

def anchorKind : RecordKind crypto (RoomAnchorClaims crypto) where
  kind := 1
  signer := RoomAnchorClaims.ownerAccount
  validate _ := .ok ()
  put claims := claims.room.bytes.toList ++ (claims.ownerAccount.bytes.toList ++ (claims.ownerDevice.bytes.toList ++
    putSuite))
  get := do
    let room ← getIdentifier .room
    let ownerAccount ← getKey
    let ownerDevice ← getKey
    getMagic putSuite
    pure ⟨room, ownerAccount, ownerDevice⟩
  idDomain := "vhalla/private-room/anchor-id/v1".toUTF8.toList ++ [0]

def enrollmentKind : RecordKind crypto (DeviceEnrollmentClaims crypto) where
  kind := 2
  signer := DeviceEnrollmentClaims.account
  validate _ := .ok ()
  put claims := claims.account.bytes.toList ++ (claims.device.bytes.toList ++ putValidity claims.validity)
  get := do
    let account ← getKey
    let device ← getKey
    let validity ← getValidity
    pure ⟨account, device, validity⟩
  idDomain := "vhalla/private-room/enrollment-id/v1".toUTF8.toList ++ [0]

abbrev SignedRoomAnchor := Signed (anchorKind crypto)
abbrev VerifiedRoomAnchor := Verified (anchorKind crypto)
abbrev SignedDeviceEnrollment := Signed (enrollmentKind crypto)
abbrev VerifiedDeviceEnrollment := Verified (enrollmentKind crypto)

/-! ### Invitations -/

structure InvitationClaims where
  scope : PrivateRoomScope
  ownerDevice : Key crypto
  recipientAccount : Key crypto
  recipientDevice : Key crypto
  keyPackage : KeyPackageDigest
  nonce : Nonce
  validity : Validity
  floor : ControlFloor
deriving DecidableEq

def invitationKind : RecordKind crypto (InvitationClaims crypto) where
  kind := 3
  signer := InvitationClaims.ownerDevice
  validate claims := do
    let _ ← claims.floor.nextSequence
    pure ()
  put claims := putScope claims.scope ++ (claims.ownerDevice.bytes.toList ++ (claims.recipientAccount.bytes.toList ++
    (claims.recipientDevice.bytes.toList ++ (claims.keyPackage.bytes.toList ++ (claims.nonce.bytes.toList ++
    (putValidity claims.validity ++ putFloor claims.floor))))))
  get := do
    let scope ← getScope
    let ownerDevice ← getKey
    let recipientAccount ← getKey
    let recipientDevice ← getKey
    let keyPackage ← getIdentifier .keyPackage
    let nonce ← getIdentifier .nonce
    let validity ← getValidity
    let floor ← getFloor
    pure ⟨scope, ownerDevice, recipientAccount, recipientDevice, keyPackage, nonce, validity, floor⟩
  idDomain := "vhalla/private-room/invitation-id/v1".toUTF8.toList ++ [0]

abbrev SignedInvitation := Signed (invitationKind crypto)
abbrev VerifiedInvitation := Verified (invitationKind crypto)

/-! ### Succession grants -/

structure OwnerSuccessionClaims where
  scope : PrivateRoomScope
  account : Key crypto
  predecessor : Key crypto
  successor : SignedDeviceEnrollment crypto
  sequence : UInt64
  validity : Validity
deriving DecidableEq

def successionKind : RecordKind crypto (OwnerSuccessionClaims crypto) where
  kind := 5
  signer := OwnerSuccessionClaims.account
  validate claims := do
    let successor ← claims.successor.verify
    require .sequence (claims.sequence != 0)
    require .membership (successor.claims.account == claims.account && successor.claims.device != claims.predecessor)
  put claims := putScope claims.scope ++ (claims.account.bytes.toList ++ (claims.predecessor.bytes.toList ++
    (putBlob claims.successor.encode ++ (toBe claims.sequence ++ putValidity claims.validity))))
  get := do
    let scope ← getScope
    let account ← getKey
    let predecessor ← getKey
    let successor ← Signed.getNested
    let sequence ← getU64
    let validity ← getValidity
    pure ⟨scope, account, predecessor, successor, sequence, validity⟩
  idDomain := "vhalla/private-room/succession-id/v1".toUTF8.toList ++ [0]

abbrev SignedOwnerSuccession := Signed (successionKind crypto)
abbrev VerifiedOwnerSuccession := Verified (successionKind crypto)

/-! ### Owner controls -/

structure Addition where
  invitation : InvitationId
  account : Key crypto
  device : Key crypto
  keyPackage : KeyPackageDigest
  welcome : WelcomeDigest
deriving DecidableEq

inductive ControlChange
  | membership (additions : List (Addition crypto)) (removals : List (Key crypto))
  | ownerUpdate
  | succession (grant : SignedOwnerSuccession crypto)
deriving DecidableEq

structure OwnerControlClaims where
  scope : PrivateRoomScope
  ownerDevice : Key crypto
  parent : ControlFloor
  priorEpoch : UInt64
  nextEpoch : UInt64
  commit : CommitDigest
  change : ControlChange crypto
deriving DecidableEq

variable {crypto}

def ControlChange.validate : ControlChange crypto → Except RecordError Unit
  | .ownerUpdate => .ok ()
  | .succession grant => do
    let _ ← grant.verify
    pure ()
  | .membership additions removals => do
    require .bounds (decide (additions.length ≤ maxChanges) && decide (removals.length ≤ maxChanges) &&
      decide (additions.length + removals.length ≤ maxChanges))
    require .membership !(additions.isEmpty && removals.isEmpty)
    require .membership (ascendingBy compare (additions.map (·.device.bytes)) && ascendingBy compare (removals.map (·.bytes)))
    require .membership (additions.all (fun add => !removals.contains add.device) &&
      distinct (additions.map (·.invitation)) && distinct (additions.map (·.keyPackage)))

def putAddition (add : Addition crypto) : List UInt8 :=
  add.invitation.bytes.toList ++ (add.account.bytes.toList ++ (add.device.bytes.toList ++
    (add.keyPackage.bytes.toList ++ add.welcome.bytes.toList)))

def getAddition : GetM (Addition crypto) := do
  let invitation ← getIdentifier .invitation
  let account ← getKey
  let device ← getKey
  let keyPackage ← getIdentifier .keyPackage
  let welcome ← getIdentifier .welcome
  pure ⟨invitation, account, device, keyPackage, welcome⟩

def putChange : ControlChange crypto → List UInt8
  | .ownerUpdate => [1, 0, 0]
  | .succession grant => [2, 0, 0] ++ putBlob grant.encode
  | .membership additions removals =>
    [0, UInt8.ofNat additions.length, UInt8.ofNat removals.length] ++
      (additions.flatMap putAddition ++ removals.flatMap fun key => key.bytes.toList)

/-- What follows the tag and the two counts. The source first compares what is left of the input with
the size of the two lists; an input that is too short for them fails in the loops all the same. -/
def getChangeBody (tag : UInt8) (additions removals : Nat) : GetM (ControlChange crypto) :=
  if tag = 1 ∧ additions = 0 ∧ removals = 0 then pure .ownerUpdate
  else if tag = 2 ∧ additions = 0 ∧ removals = 0 then do
    let grant ← Signed.getNested
    pure (.succession grant)
  else if tag = 0 then do
    let added ← Reader.replicate getAddition additions
    let removed ← Reader.replicate getKey removals
    pure (.membership added removed)
  else throw (if tag = 1 ∨ tag = 2 then .membership else .protocol)

def getChange : GetM (ControlChange crypto) := do
  let tag ← getByte
  let additions ← getByte
  let removals ← getByte
  if additions.toNat > maxChanges ∨ removals.toNat > maxChanges ∨ additions.toNat + removals.toNat > maxChanges then
    throw .bounds
  else getChangeBody tag additions.toNat removals.toNat

def OwnerControlClaims.sequence (claims : OwnerControlClaims crypto) : Except RecordError UInt64 := claims.parent.nextSequence

variable (crypto)

def controlKind : RecordKind crypto (OwnerControlClaims crypto) where
  kind := 4
  signer := OwnerControlClaims.ownerDevice
  validate claims := do
    let _ ← claims.parent.nextSequence
    require .sequence (checkedAdd claims.priorEpoch 1 == some claims.nextEpoch)
    claims.change.validate
  put claims := putScope claims.scope ++ (claims.ownerDevice.bytes.toList ++ (putFloor claims.parent ++
    (toBe claims.priorEpoch ++ (toBe claims.nextEpoch ++ (claims.commit.bytes.toList ++ putChange claims.change)))))
  get := do
    let scope ← getScope
    let ownerDevice ← getKey
    let parent ← getFloor
    let priorEpoch ← getU64
    let nextEpoch ← getU64
    let commit ← getIdentifier .commit
    let change ← getChange
    pure ⟨scope, ownerDevice, parent, priorEpoch, nextEpoch, commit, change⟩
  idDomain := "vhalla/private-room/control-id/v1".toUTF8.toList ++ [0]

abbrev SignedOwnerControl := Signed (controlKind crypto)
abbrev VerifiedOwnerControl := Verified (controlKind crypto)

variable {crypto}

def Verified.anchorId (anchor : VerifiedRoomAnchor crypto) : AnchorId := ⟨anchor.signed.digest, anchor.signed.digest_ne_zero⟩

/-- `VerifiedRoomAnchor::scope`. -/
def Verified.scope (anchor : VerifiedRoomAnchor crypto) : PrivateRoomScope := ⟨anchor.claims.room, anchor.anchorId⟩

def Verified.invitationId (invitation : VerifiedInvitation crypto) : InvitationId :=
  ⟨invitation.signed.digest, invitation.signed.digest_ne_zero⟩

/-- `SignedOwnerControl::id`. -/
def Signed.controlId (control : SignedOwnerControl crypto) : ControlId := ⟨control.digest, control.digest_ne_zero⟩

def Verified.controlId (control : VerifiedOwnerControl crypto) : ControlId := control.signed.controlId

/-! ### Succession proofs -/

variable (crypto) in
structure OwnerSuccessionProof where
  control : VerifiedOwnerControl crypto
  grant : VerifiedOwnerSuccession crypto
  carried : control.claims.change = .succession grant.signed
  sameScope : control.claims.scope = grant.claims.scope
  fromPredecessor : control.claims.ownerDevice = grant.claims.predecessor
  atSequence : control.claims.sequence = .ok grant.claims.sequence
  atEpoch : control.claims.nextEpoch = grant.claims.sequence
deriving DecidableEq

namespace OwnerSuccessionProof

def claims (proof : OwnerSuccessionProof crypto) : OwnerSuccessionClaims crypto := proof.grant.claims

def fromControl (control : SignedOwnerControl crypto) : Except RecordError (OwnerSuccessionProof crypto) := do
  let control ← control.verify
  match h : control.claims.change with
  | .succession signed =>
    if hg : crypto.verifyStrict signed.claims.account.bytes ((successionKind crypto).signingBytes signed.claims)
        signed.signature = true then
      let grant : VerifiedOwnerSuccession crypto := ⟨signed, hg⟩
      let _ ← control.claims.sequence
      if hm : control.claims.scope = grant.claims.scope ∧ control.claims.ownerDevice = grant.claims.predecessor ∧
          control.claims.sequence = .ok grant.claims.sequence ∧ control.claims.nextEpoch = grant.claims.sequence then
        .ok ⟨control, grant, h, hm.1, hm.2.1, hm.2.2.1, hm.2.2.2⟩
      else .error .sequence
    else .error .signature
  | _ => .error .membership

def decode (raw : List UInt8) : Except RecordError (OwnerSuccessionProof crypto) := do
  let control ← Signed.decode raw
  fromControl control

def encode (proof : OwnerSuccessionProof crypto) : List UInt8 := proof.control.encode

end OwnerSuccessionProof

end

end Valhalla.PrivateKernel
