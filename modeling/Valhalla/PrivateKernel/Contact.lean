import Valhalla.PrivateKernel.PacketCodec

/-!
# Handoff chains and one-use contact offers (`contact.rs`, and `check_succession_chain` of `model.rs`)

A chain of handoffs starts at the anchor's owner device; every proof names the device before it and raises
the control sequence. An offer carries its chain, the two keys of one contact exchange and the owner's signature.
-/

namespace Valhalla.PrivateKernel
open Fallible FixedWidth Check

variable {crypto : Hashing}

/-! ### Handoff chains -/

def followSuccession (anchor : VerifiedRoomAnchor crypto) (limit : Option UInt64) (reached : Key crypto × UInt64)
    (grant : OwnerSuccessionProof crypto) : Except Error (Key crypto × UInt64) := do
  let claims := grant.claims
  require .policy (claims.scope == anchor.scope && claims.account == anchor.claims.ownerAccount &&
    claims.predecessor == reached.1 && decide (reached.2 < claims.sequence) &&
    limit.all fun last => decide (claims.sequence ≤ last))
  .ok (claims.successor.claims.device, claims.sequence)

def followSuccessions (anchor : VerifiedRoomAnchor crypto) (limit : Option UInt64)
    (grants : List (OwnerSuccessionProof crypto)) : Except Error (Key crypto) := do
  let (owner, _) ← grants.foldlM (followSuccession anchor limit) (anchor.claims.ownerDevice, 0)
  .ok owner

def checkSuccessionChain (anchor : VerifiedRoomAnchor crypto) (grants : List (OwnerSuccessionProof crypto)) :
    Except Error (Key crypto) := do
  require .bounds (decide (grants.length ≤ maxSuccessions))
  followSuccessions anchor none grants

def Handoffs (anchor : VerifiedRoomAnchor crypto) : Key crypto × UInt64 → List (OwnerSuccessionProof crypto) →
    Key crypto × UInt64 → Prop
  | reached, [], final => final = reached
  | reached, grant :: grants, final =>
    (grant.claims.scope = anchor.scope ∧ grant.claims.account = anchor.claims.ownerAccount ∧
      grant.claims.predecessor = reached.1 ∧ reached.2 < grant.claims.sequence) ∧
    Handoffs anchor (grant.claims.successor.claims.device, grant.claims.sequence) grants final

/-! ### Offers -/

def maxContactOffers : Nat := 64
def maxContactTtl : UInt64 := 24 * 60 * 60
def anchorBytes : Nat := 6 + 96 + 3 + 64
def successionBytes : Nat := 637
def maxOfferBytes : Nat := 10 + 32 + 64 + 128 + 24 + 64 + 4 + anchorBytes + 4 + enrollmentBytes + 1 +
  maxSuccessions * (4 + successionBytes) + 64
def offerDomain : List UInt8 := "vhalla/private/contact/owner-offer/v1".toUTF8.toList ++ [0]
def offerMagic : List UInt8 := [86, 72, 80, 75, 79, 70, 70, 69, 82, 3]

/-- `owner_record_basis`. -/
def ownerRecordBasis (owner : VerifiedDeviceEnrollment crypto) : Bytes32 :=
  hash crypto ("vhalla/private/contact/owner-basis/v1".toUTF8.toList ++ [0]) owner.encode

/-- `contact::request_hash`. -/
def contactRequestHash (crypto : Hashing) (raw : List UInt8) : Bytes32 :=
  hash crypto ("vhalla/private/contact/request/v1".toUTF8.toList ++ [0]) raw

/-- `contact::response_hash`. -/
def contactResponseHash (crypto : Hashing) (raw : List UInt8) : Bytes32 :=
  hash crypto ("vhalla/private/contact/response/v1".toUTF8.toList ++ [0]) raw

/-- An offer before its signature. -/
structure OfferClaims (crypto : Hashing) where
  id : Bytes32
  scope : PrivateRoomScope
  ownerAccount : Key crypto
  ownerDevice : Key crypto
  ownerBasis : Bytes32
  recipient : Key crypto
  issued : UInt64
  validity : Validity
  anchor : VerifiedRoomAnchor crypto
  owner : VerifiedDeviceEnrollment crypto
  successions : List (OwnerSuccessionProof crypto)
  requestKey : Bytes32
  responseKey : Bytes32
deriving DecidableEq

namespace OfferClaims

def validate (claims : OfferClaims crypto) : Except Error Unit := do
  ofRecord (claims.validity.checkAt claims.issued)
  ofRecord (claims.owner.claims.validity.checkAt claims.issued)
  let owner ← if claims.anchor.scope = claims.scope ∧ claims.anchor.claims.ownerAccount = claims.ownerAccount then
      checkSuccessionChain claims.anchor claims.successions
    else .error .scope
  require .scope (owner == claims.ownerDevice && claims.owner.claims.account == claims.ownerAccount &&
    claims.owner.claims.device == claims.ownerDevice && claims.ownerBasis == ownerRecordBasis claims.owner &&
    decide (claims.validity.expiresAt ≤ claims.owner.claims.validity.expiresAt))
  require .policy (claims.id != zeroBytes && decide (claims.issued ≤ claims.validity.expiresAt) &&
    decide (claims.validity.expiresAt - claims.issued ≤ maxContactTtl) && claims.requestKey != zeroBytes &&
    claims.responseKey != zeroBytes && claims.requestKey != claims.responseKey)

/-- What both the binding and the file start with. -/
def putHead (claims : OfferClaims crypto) : List UInt8 :=
  claims.id.toList ++ (putScope claims.scope ++ (claims.ownerAccount.bytes.toList ++ (claims.ownerDevice.bytes.toList ++
    (claims.ownerBasis.toList ++ (claims.recipient.bytes.toList ++ (toBe claims.issued ++ putValidity claims.validity))))))

def binding (claims : OfferClaims crypto) : List UInt8 :=
  "vhalla/private/contact/binding/v1".toUTF8.toList ++ (0 :: claims.putHead)

def put (claims : OfferClaims crypto) : List UInt8 :=
  offerMagic ++ (claims.putHead ++ (putBlob claims.anchor.encode ++ (putBlob claims.owner.encode ++
    (([UInt8.ofNat claims.successions.length] ++ claims.successions.flatMap fun grant => putBlob grant.encode) ++
    (claims.requestKey.toList ++ claims.responseKey.toList)))))

def unsignedBytes (claims : OfferClaims crypto) : Except Error (List UInt8) := do
  claims.validate
  require .encoding (claims.anchor.encode.length == anchorBytes && claims.owner.encode.length == enrollmentBytes)
  require .bounds (decide (claims.successions.length < 256))
  forM claims.successions fun grant => require .encoding (decide (grant.encode.length ≤ successionBytes))
  require .encoding (decide (claims.put.length ≤ maxOfferBytes - 64))
  .ok claims.put

def signingBytes (claims : OfferClaims crypto) : Except Error (List UInt8) := do
  let raw ← claims.unsignedBytes
  .ok (offerDomain ++ raw)

/-- `verify_signature`: the key was parsed when the claims were built. -/
def verifySignature (claims : OfferClaims crypto) (signature : Signature) : Except Error Unit := do
  let message ← claims.signingBytes
  require .authentication (crypto.verifyStrict claims.ownerDevice.bytes message signature)

end OfferClaims

/-- A committed offer: valid claims under the owner device's signature. -/
structure Offer (crypto : Hashing) where
  claims : OfferClaims crypto
  signature : Signature
  verified : claims.verifySignature signature = .ok ()
deriving DecidableEq

namespace Offer

/-- The end of `new` and of `decode`. -/
def attach (claims : OfferClaims crypto) (signature : Signature) : Except Error (Offer crypto) :=
  match h : claims.verifySignature signature with
  | .ok () => .ok ⟨claims, signature, h⟩
  | .error e => .error e

def checkTime (offer : Offer crypto) (now : UInt64) : Except Error Unit := do
  require .time (decide (offer.claims.issued ≤ now))
  ofRecord (offer.claims.validity.checkAt now)

def encode (offer : Offer crypto) : Except Error (List UInt8) := do
  offer.claims.verifySignature offer.signature
  let raw ← offer.claims.unsignedBytes
  .ok (raw ++ offer.signature.toList)

def readClaims : ReadM (OfferClaims crypto) := do
  readMagic offerMagic
  let id ← readArray 32
  let scope ← readScope
  let ownerAccount ← readKey
  let ownerDevice ← readKey
  let ownerBasis ← readArray 32
  let recipient ← readKey
  let issued ← readU64
  let validity ← readValidity
  let anchor ← readVerified (anchorKind crypto) anchorBytes
  let owner ← readVerified (enrollmentKind crypto) enrollmentBytes
  let successions ← readProofs successionBytes
  let requestKey ← readArray 32
  let responseKey ← readArray 32
  pure ⟨id, scope, ownerAccount, ownerDevice, ownerBasis, recipient, issued, validity, anchor, owner, successions, requestKey,
    responseKey⟩

def read : ReadM (OfferClaims crypto × Signature) := do
  let claims ← readClaims
  let signature ← readArray 64
  pure (claims, signature)

def decode (raw : List UInt8) : Except Error (Offer crypto) := do
  let (claims, signature) ← decodeWith maxOfferBytes read raw
  attach claims signature

end Offer

structure PendingContact (crypto : Hashing) where
  offer : Offer crypto
  request : Bytes32
deriving DecidableEq

/-! ### Contact frames -/

def frameMagic : List UInt8 := [86, 72, 80, 75, 67, 79, 78, 84, 65, 67, 84, 1]
def frameHeader : Nat := frameMagic.length + 1 + 32 + 32 + 24 + 4

/-- One encrypted request or response. -/
structure Frame where
  direction : UInt8
  id : Bytes32
  request : Bytes32
  nonce : Vector UInt8 24
  cipher : List UInt8
deriving DecidableEq

namespace Frame

def header (frame : Frame) : List UInt8 :=
  frameMagic ++ ([frame.direction] ++ (frame.id.toList ++ (frame.request.toList ++ (frame.nonce.toList ++
    toBe (UInt32.ofNat frame.cipher.length)))))

def put (frame : Frame) : List UInt8 :=
  frameMagic ++ ([frame.direction] ++ (frame.id.toList ++ (frame.request.toList ++ (frame.nonce.toList ++ putBlob frame.cipher))))

def read : ReadM Frame := do
  readMagic frameMagic
  let direction ← readByte
  Reader.lift (require .encoding (decide (1 ≤ direction.toNat) && decide (direction.toNat ≤ 2)))
  let id ← readArray 32
  Reader.lift (require .encoding (id != zeroBytes))
  let request ← readArray 32
  Reader.lift (require .encoding ((direction == 1) == (request == zeroBytes)))
  let nonce ← readArray 24
  let cipher ← readBlob (maxPacket - frameHeader)
  Reader.lift (require .encoding (decide (16 < cipher.length)))
  pure ⟨direction, id, request, nonce, cipher⟩

def decode (raw : List UInt8) : Except Error Frame := decodeWith maxPacket read raw

end Frame

namespace Offer
variable (cipher : Cipher)

def direction (responseTo : Option Bytes32) : UInt8 := if responseTo.isSome then 2 else 1

def directionKey (offer : Offer crypto) (responseTo : Option Bytes32) : Bytes32 :=
  if responseTo.isSome then offer.claims.responseKey else offer.claims.requestKey

/-- `seal`. -/
def sealFrame (offer : Offer crypto) (draw : Except Error (Vector UInt8 24)) (responseTo : Option Bytes32)
    (clear : List UInt8) : Except Error (List UInt8) := do
  require .bounds (!clear.isEmpty && decide (clear.length + 16 + frameHeader ≤ maxPacket))
  let nonce ← draw
  let header := frameMagic ++ ([direction responseTo] ++ (offer.claims.id.toList ++ ((responseTo.getD zeroBytes).toList ++
    (nonce.toList ++ toBe (UInt32.ofNat (clear.length + 16))))))
  .ok (header ++ cipher.encrypt (offer.directionKey responseTo) nonce (offer.claims.binding ++ header) clear)

/-- `open`. -/
def openFrame (offer : Offer crypto) (frame : Frame) (expected : Option Bytes32) : Except Error (List UInt8) := do
  require .scope (frame.id == offer.claims.id && frame.direction == direction expected &&
    frame.request == expected.getD zeroBytes)
  Check.okOr .authentication
    (cipher.decrypt (offer.directionKey expected) frame.nonce (offer.claims.binding ++ frame.header) frame.cipher)

end Offer

end Valhalla.PrivateKernel
