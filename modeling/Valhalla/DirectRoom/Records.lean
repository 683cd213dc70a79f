import Valhalla.Lib.Check
import Valhalla.Lib.Wire

/-!
# Direct-room records (`records.rs` and `codec.rs` of `vhalla-direct-room`)

Genesis, policy and event records. The `record!` macro is a `RecordKind` with the parameters it is used
with; unsigned, signed and verified records carry the checks they passed. SHA-256 and Ed25519 are
parameters.
-/

namespace Valhalla.DirectRoom
open Fallible FixedWidth Check

abbrev Bytes32 := Vector UInt8 32
abbrev Signature := Vector UInt8 64

/-- What the records use of the `sha2` and `ed25519_dalek` crates. -/
structure Crypto where
  sha256 : List UInt8 → Bytes32
  /-- A valid public key that is not weak. -/
  validKey : Bytes32 → Bool
  verifyStrict : Bytes32 → List UInt8 → Signature → Bool

/-- Structural, cryptographic, policy or continuity refusal. -/
inductive Error
  | bounds | capacity | encoding | protocol | key | signer | signature | scope | owner | policy
  | policyPending | author | sequence | duplicate | gap | fork | replay | exhausted | staleBase | stalePolicy
deriving DecidableEq, Repr

def maxWriters : Nat := 64
def maxTextBytes : Nat := 4096
def maxGenesisBytes : Nat := 5 + 32 + 32 + 2 + 32 * maxWriters + 64
def maxPolicyBytes : Nat := 5 + 32 + 32 + 8 + 32 + 2 + 32 * maxWriters + 2 + 72 * maxWriters + 64
def maxEventBytes : Nat := 5 + 32 + 32 + 32 + 8 + 32 + 8 + 4 + maxTextBytes + 64

def genesisMagic : List UInt8 := [86, 72, 68, 71, 1]
def policyMagic : List UInt8 := [86, 72, 68, 80, 1]
def eventMagic : List UInt8 := [86, 72, 68, 69, 1]
def genesisDomain : List UInt8 := "vhalla/direct-room/genesis/v1".toUTF8.toList ++ [0]
def policyDomain : List UInt8 := "vhalla/direct-room/policy/v1".toUTF8.toList ++ [0]
def eventDomain : List UInt8 := "vhalla/direct-room/event/v1".toUTF8.toList ++ [0]
def policyRootDomain : List UInt8 := "vhalla/direct-room/policy-root/v1".toUTF8.toList ++ [0]

def zeroBytes : Bytes32 := Vector.replicate 32 0

/-- Full genesis commitment. -/
structure RoomId where
  bytes : Bytes32
deriving DecidableEq

/-- Full owner-policy commitment. -/
structure PolicyId where
  bytes : Bytes32
deriving DecidableEq

/-- Full signed-content commitment. -/
structure EventId where
  bytes : Bytes32
deriving DecidableEq

def RoomId.zero : RoomId := ⟨zeroBytes⟩
def PolicyId.zero : PolicyId := ⟨zeroBytes⟩
def EventId.zero : EventId := ⟨zeroBytes⟩

def RoomId.initialPolicy (crypto : Crypto) (room : RoomId) : PolicyId :=
  ⟨crypto.sha256 (policyRootDomain ++ room.bytes.toList)⟩

def checkedKey (crypto : Crypto) (key : Bytes32) : Except Error Unit := require .key (crypto.validKey key)

/-! ### Claims -/

/-- `char::is_control`: the general category Cc. -/
def isControl (c : Char) : Bool := decide (c.toNat < 32) || (decide (127 ≤ c.toNat) && decide (c.toNat < 160))

def checkText (text : String) : Except Error Unit := do
  require .bounds (text.utf8ByteSize != 0 && decide (text.utf8ByteSize ≤ maxTextBytes))
  require .encoding !(text.toList.any fun c => isControl c && c != '\n' && c != '\t')

/-- Nonempty inert text. -/
structure Text where
  str : String
  valid : checkText str = .ok ()
deriving DecidableEq

def Text.new (text : String) : Except Error Text :=
  match h : checkText text with
  | .ok () => .ok ⟨text, h⟩
  | .error e => .error e

structure GenesisClaims where
  owner : Bytes32
  nonce : Bytes32
  writers : List Bytes32
deriving DecidableEq

/-- Exact author-chain terminal endorsed for a policy being closed. -/
structure SealHead where
  author : Bytes32
  sequence : UInt64
  event : EventId
deriving DecidableEq

structure PolicyClaims where
  room : RoomId
  owner : Bytes32
  revision : UInt64
  previous : PolicyId
  writers : List Bytes32
  sealedHeads : List SealHead
deriving DecidableEq

structure EventClaims where
  room : RoomId
  policy : PolicyId
  author : Bytes32
  sequence : UInt64
  previous : EventId
  createdAt : UInt64
  text : Text
deriving DecidableEq

section
variable (crypto : Crypto)

/-- `binary_search` for the owner runs on a list that was found to be sorted. -/
def writersCheck (writers : List Bytes32) (owner : Bytes32) : Except Error Unit := do
  checkedKey crypto owner
  require .bounds (!writers.isEmpty && decide (writers.length ≤ maxWriters))
  forM writers (checkedKey crypto)
  require .encoding (ascendingBy compare writers)
  require .owner (writers.contains owner)

def GenesisClaims.check (claims : GenesisClaims) : Except Error Unit := do
  require .encoding (claims.nonce != zeroBytes)
  writersCheck crypto claims.writers claims.owner

def SealHead.check (head : SealHead) : Except Error Unit := do
  checkedKey crypto head.author
  require .sequence (head.sequence != 0 && head.event != .zero)

def PolicyClaims.check (claims : PolicyClaims) : Except Error Unit := do
  require .scope (claims.room != .zero && claims.previous != .zero)
  require .sequence (claims.revision != 0)
  writersCheck crypto claims.writers claims.owner
  require .bounds (decide (claims.sealedHeads.length ≤ maxWriters))
  forM claims.sealedHeads (SealHead.check crypto)
  require .encoding (ascendingBy compare (claims.sealedHeads.map (·.author)))

def EventClaims.check (claims : EventClaims) : Except Error Unit := do
  require .scope (claims.room != .zero && claims.policy != .zero)
  checkedKey crypto claims.author
  require .sequence (claims.sequence != 0 && (claims.sequence == 1) == (claims.previous == .zero))

end

/-! ### Canonical bytes -/

abbrev GetM := Reader Error

def getU64 : GetM UInt64 := Reader.int .encoding

/-- `reader.array()`. -/
def getArray (n : Nat) : GetM (Vector UInt8 n) := Reader.array .encoding n

/-- `Reader::new`: the magic of the record kind. -/
def getMagic (magic : List UInt8) : GetM Unit := do
  let found ← Reader.take .encoding magic.length
  if found ≠ magic then throw .protocol else pure ()

def putCount (len : Nat) : List UInt8 := toBe (UInt16.ofNat len)

def getCount (max : Nat) : GetM Nat := do
  let count ← (Reader.int .encoding : GetM UInt16)
  if toNat count > max then throw .bounds else pure (toNat count)

def putWriters (writers : List Bytes32) : List UInt8 := putCount writers.length ++ writers.flatMap Vector.toList

def getWriters : GetM (List Bytes32) := do
  let count ← getCount maxWriters
  Reader.replicate (getArray 32) count

def putGenesis (claims : GenesisClaims) : List UInt8 :=
  claims.owner.toList ++ (claims.nonce.toList ++ putWriters claims.writers)

def getGenesis : GetM GenesisClaims := do
  let owner ← getArray 32
  let nonce ← getArray 32
  let writers ← getWriters
  pure ⟨owner, nonce, writers⟩

def putSealHead (head : SealHead) : List UInt8 := head.author.toList ++ (toBe head.sequence ++ head.event.bytes.toList)

def getSealHead : GetM SealHead := do
  let author ← getArray 32
  let sequence ← getU64
  let event ← getArray 32
  pure ⟨author, sequence, ⟨event⟩⟩

def putSealedHeads (heads : List SealHead) : List UInt8 := putCount heads.length ++ heads.flatMap putSealHead

def getSealedHeads : GetM (List SealHead) := do
  let count ← getCount maxWriters
  Reader.replicate getSealHead count

def putPolicy (claims : PolicyClaims) : List UInt8 :=
  claims.room.bytes.toList ++ (claims.owner.toList ++ (toBe claims.revision ++ (claims.previous.bytes.toList ++
    (putWriters claims.writers ++ putSealedHeads claims.sealedHeads))))

def getPolicy : GetM PolicyClaims := do
  let room ← getArray 32
  let owner ← getArray 32
  let revision ← getU64
  let previous ← getArray 32
  let writers ← getWriters
  let sealedHeads ← getSealedHeads
  pure ⟨⟨room⟩, owner, revision, ⟨previous⟩, writers, sealedHeads⟩

def textBytes (text : Text) : List UInt8 := text.str.toUTF8.data.toList

def putText (text : Text) : List UInt8 := toBe (UInt32.ofNat text.str.utf8ByteSize) ++ textBytes text

def getTextLength : GetM Nat := do
  let length ← (Reader.int .encoding : GetM UInt32)
  if toNat length > maxTextBytes then throw .bounds else pure (toNat length)

def getText : GetM Text := do
  let length ← getTextLength
  let bytes ← Reader.take .encoding length
  match String.fromUTF8? ⟨bytes.toArray⟩ with
  | none => throw .encoding
  | some text =>
    match Text.new text with
    | .ok text => pure text
    | .error e => throw e

def putEvent (claims : EventClaims) : List UInt8 :=
  claims.room.bytes.toList ++ (claims.policy.bytes.toList ++ (claims.author.toList ++ (toBe claims.sequence ++
    (claims.previous.bytes.toList ++ (toBe claims.createdAt ++ putText claims.text)))))

def getEvent : GetM EventClaims := do
  let room ← getArray 32
  let policy ← getArray 32
  let author ← getArray 32
  let sequence ← getU64
  let previous ← getArray 32
  let createdAt ← getU64
  let text ← getText
  pure ⟨⟨room⟩, ⟨policy⟩, author, sequence, ⟨previous⟩, createdAt, text⟩

/-! ### Records -/

/-- The parameters of the `record!` macro. -/
structure RecordKind (C I : Type) where
  magic : List UInt8
  put : C → List UInt8
  get : GetM C
  check : Crypto → C → Except Error Unit
  id : Bytes32 → I
  signer : C → Bytes32
  domain : List UInt8
  max : Nat

def genesisKind : RecordKind GenesisClaims RoomId where
  magic := genesisMagic
  put := putGenesis
  get := getGenesis
  check := GenesisClaims.check
  id := RoomId.mk
  signer := GenesisClaims.owner
  domain := genesisDomain
  max := maxGenesisBytes

def policyKind : RecordKind PolicyClaims PolicyId where
  magic := policyMagic
  put := putPolicy
  get := getPolicy
  check := PolicyClaims.check
  id := PolicyId.mk
  signer := PolicyClaims.owner
  domain := policyDomain
  max := maxPolicyBytes

def eventKind : RecordKind EventClaims EventId where
  magic := eventMagic
  put := putEvent
  get := getEvent
  check := EventClaims.check
  id := EventId.mk
  signer := EventClaims.author
  domain := eventDomain
  max := maxEventBytes

section
variable {C I : Type} (crypto : Crypto) (kind : RecordKind C I)

namespace RecordKind

def encode (claims : C) : List UInt8 := kind.magic ++ kind.put claims

def commit (claims : C) : I := kind.id (crypto.sha256 (kind.domain ++ kind.encode claims))

end RecordKind

structure Unsigned where
  claims : C
  id : I
  valid : kind.check crypto claims = .ok ()
  commits : id = kind.commit crypto claims
deriving DecidableEq

namespace Unsigned
variable {crypto kind}

def new (claims : C) : Except Error (Unsigned crypto kind) :=
  match h : kind.check crypto claims with
  | .ok () => .ok ⟨claims, kind.commit crypto claims, h, rfl⟩
  | .error e => .error e

def decode (raw : List UInt8) : Except Error (Unsigned crypto kind) := do
  let claims ← Reader.decode (fun _ _ => .bounds) (fun _ => .encoding) (kind.max - 64)
    (do getMagic kind.magic; kind.get) raw
  new claims

variable (record : Unsigned crypto kind)

def encode : List UInt8 := kind.encode record.claims

def signingBytes : List UInt8 := kind.domain ++ record.encode

end Unsigned

/-- A record with a signature that is not checked yet. -/
structure Signed where
  unsigned : Unsigned crypto kind
  signature : Signature
deriving DecidableEq

namespace Signed
variable {crypto kind}

def decode (raw : List UInt8) : Except Error (Signed crypto kind) := do
  require .bounds (decide (raw.length ≤ kind.max))
  if h : 64 ≤ raw.length then do
    let unsigned ← Unsigned.decode (raw.take (raw.length - 64))
    pure ⟨unsigned, ⟨(raw.drop (raw.length - 64)).toArray, by simp; omega⟩⟩
  else .error .encoding

variable (record : Signed crypto kind)

def encode : List UInt8 := record.unsigned.encode ++ record.signature.toList

/-- The check of `verify` and of `attach_signature`. -/
def authenticate : Except Error Unit := do
  checkedKey crypto (kind.signer record.unsigned.claims)
  require .signature
    (crypto.verifyStrict (kind.signer record.unsigned.claims) record.unsigned.signingBytes record.signature)

end Signed

/-- Strictly authenticated content. -/
structure Verified where
  signed : Signed crypto kind
  authentic : signed.authenticate = .ok ()
deriving DecidableEq

variable {crypto kind}

def Signed.verify (record : Signed crypto kind) : Except Error (Verified crypto kind) :=
  match h : record.authenticate with
  | .ok () => .ok ⟨record, h⟩
  | .error e => .error e

namespace Verified
variable (record : Verified crypto kind)

def claims : C := record.signed.unsigned.claims
def id : I := record.signed.unsigned.id
def encode : List UInt8 := record.signed.encode

theorem claims_check : kind.check crypto record.claims = .ok () := record.signed.unsigned.valid

end Verified

end

abbrev SignedPolicy (crypto : Crypto) := Signed crypto policyKind
abbrev VerifiedGenesis (crypto : Crypto) := Verified crypto genesisKind
abbrev VerifiedPolicy (crypto : Crypto) := Verified crypto policyKind
abbrev VerifiedEvent (crypto : Crypto) := Verified crypto eventKind

/-- A genesis that matches the caller's room. -/
structure PinnedGenesis (crypto : Crypto) where
  verified : VerifiedGenesis crypto
deriving DecidableEq

def verifyPin {crypto : Crypto} (record : Signed crypto genesisKind) (expected : RoomId) :
    Except Error (PinnedGenesis crypto) := do
  let verified ← record.verify
  require .scope (verified.id == expected)
  pure ⟨verified⟩

end Valhalla.DirectRoom
