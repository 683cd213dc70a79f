import Valhalla.Core
import Valhalla.Lib.Check
import Valhalla.Lib.Maps
import Valhalla.Lib.Wire

/-!
# Signed envelopes (`vhalla-wire` and `vhalla-crypto`)

The unsigned envelope, the signed one around it with its context, and the window that admits every sequence of a key
at most once.
-/

namespace Valhalla.Session
open Fallible FixedWidth Check

structure PeerId where
  value : BitVec 128
deriving DecidableEq

structure EventId where
  value : BitVec 128
deriving DecidableEq

structure SessionId where
  value : BitVec 128
deriving DecidableEq

abbrev Epoch := UInt64
abbrev Sequence := UInt64

def maxEnvelopeBytes : Nat := 64 * 1024
def wireVersion : UInt8 := 1
def kindChat : UInt8 := 1
def headerBytes : Nat := 78
def maxBodyBytes : Nat := maxEnvelopeBytes - headerBytes

/-! ### Unsigned envelopes -/

inductive DecodeField
  | version | kind | author | realm | room | event | sequence | bodyLength | body
deriving DecidableEq, Repr

inductive DecodeError
  | tooLarge (actual limit : Nat)
  | truncated (field : DecodeField)
  | unsupportedVersion (found : UInt8)
  | invalidKind
  | bodyTooLarge (actual limit : Nat)
  | trailingBytes (count : Nat)
deriving DecidableEq, Repr

/-- A structurally valid message. -/
structure Envelope where
  kind : UInt8
  author : PeerId
  realm : RealmId
  room : RoomId
  event : EventId
  sequence : Sequence
  body : List UInt8
  valid : kind ≠ 0 ∧ body.length ≤ maxBodyBytes
deriving DecidableEq

namespace Envelope

def encodedLen (envelope : Envelope) : Nat := headerBytes + envelope.body.length

def new (kind : UInt8) (author : PeerId) (realm : RealmId) (room : RoomId) (event : EventId) (sequence : Sequence) (body : List UInt8) :
    Option Envelope :=
  if h : kind ≠ 0 ∧ body.length ≤ maxBodyBytes then some ⟨kind, author, realm, room, event, sequence, body, h⟩ else none

def chat (author : PeerId) (realm : RealmId) (room : RoomId) (event : EventId) (sequence : Sequence) (body : List UInt8) :
    Option Envelope :=
  new kindChat author realm room event sequence body

def encode (envelope : Envelope) : List UInt8 :=
  wireVersion :: envelope.kind :: (toBe envelope.author.value ++ (toBe envelope.realm.value ++ (toBe envelope.room.value ++
    (toBe envelope.event.value ++ (toBe envelope.sequence ++ (toBe (UInt32.ofNat envelope.body.length) ++ envelope.body))))))

/-- An integer at a fixed place of the input (`read_u128`, `read_u64`, `read_u32`). -/
def readInt {α : Type} [FixedWidth α] (raw : List UInt8) (start : Nat) (field : DecodeField) : Except DecodeError α :=
  if start + bytes α ≤ raw.length then .ok (fromBe ((raw.drop start).take (bytes α))) else .error (.truncated field)

def decodeBody (raw : List UInt8) (kind : UInt8) (hkind : kind ≠ 0) (author : PeerId) (realm : RealmId) (room : RoomId) (event : EventId)
    (sequence : Sequence) (bodyLen : Nat) : Except DecodeError Envelope :=
  if hlen : bodyLen > maxBodyBytes then .error (.bodyTooLarge bodyLen maxBodyBytes)
  else if raw.length < headerBytes + bodyLen then .error (.truncated .body)
  else if raw.length > headerBytes + bodyLen then .error (.trailingBytes (raw.length - (headerBytes + bodyLen)))
  else .ok ⟨kind, author, realm, room, event, sequence, (raw.drop headerBytes).take bodyLen, hkind,
    Nat.le_trans (List.length_take_le _ _) (Nat.le_of_not_lt hlen)⟩

def decode (raw : List UInt8) : Except DecodeError Envelope := do
  require (.tooLarge raw.length maxEnvelopeBytes) (decide (raw.length ≤ maxEnvelopeBytes))
  let version ← Check.okOr (.truncated .version) raw[0]?
  require (.unsupportedVersion version) (version == wireVersion)
  let kind ← Check.okOr (.truncated .kind) raw[1]?
  if hkind : kind = 0 then .error .invalidKind
  else do
    let author ← readInt raw 2 .author
    let realm ← readInt raw 18 .realm
    let room ← readInt raw 34 .room
    let event ← readInt raw 50 .event
    let sequence ← readInt raw 66 .sequence
    let bodyLen : UInt32 ← readInt raw 74 .bodyLength
    decodeBody raw kind hkind ⟨author⟩ ⟨realm⟩ ⟨room⟩ ⟨event⟩ sequence bodyLen.toNat

end Envelope

/-! ### Signed envelopes -/

def envelopeDomain : List UInt8 := "vhalla/signed-envelope/v2".toUTF8.toList
def signedVersion : UInt8 := 2
def maxSignedBytes : Nat := maxEnvelopeBytes
def signedOverheadBytes : Nat := 1 + 4 + 16 + 8 + 16 + 8 + 64
def maxSignedBodyBytes : Nat := maxSignedBytes - signedOverheadBytes - headerBytes
def maxReplayAuthors : Nat := 256

/-- Owner-selected authentication context. -/
structure VerificationContext where
  audience : PeerId
  realm : RealmId
  room : RoomId
  epoch : Epoch
  session : SessionId
deriving DecidableEq

/-- An untrusted signed claim. -/
structure SignedEnvelope where
  envelope : Envelope
  audience : PeerId
  epoch : Epoch
  session : SessionId
  expiresAt : UInt64
  signature : Signature
deriving DecidableEq

/-- The exact message, context and key that were checked. -/
structure VerifiedEnvelope where
  envelope : Envelope
  signerKey : Bytes32
  context : VerificationContext
  expiresAt : UInt64
deriving DecidableEq

inductive SignError
  | tooLarge | authorMismatch
deriving DecidableEq, Repr

inductive DecodeSignedError
  | tooLarge
  | unsupportedVersion
  | wire (e : DecodeError)
  | truncated
  | trailingBytes
deriving DecidableEq, Repr

inductive VerifyError
  | invalidBound | tooLarge | weakKey | authorMismatch | audienceMismatch | realmMismatch | roomMismatch | epochMismatch
  | sessionMismatch | expired | invalidSignature | replay | capacity
deriving DecidableEq, Repr

structure SigningKey where
  verifyingKey : Bytes32
  sign : List UInt8 → Signature

/-- The routing handle of a key: the front of its hash. -/
def peerIdFromKey (crypto : Crypto) (key : Bytes32) : PeerId := ⟨fromBe ((crypto.sha256 key.toList).toList.take 16)⟩

namespace SignedEnvelope

def validateSize (signed : SignedEnvelope) : Except SignError Unit :=
  require .tooLarge (decide (signed.envelope.encodedLen ≤ maxSignedBytes - signedOverheadBytes))

def encodeUnsigned (signed : SignedEnvelope) : List UInt8 :=
  signedVersion :: (toBe (UInt32.ofNat signed.envelope.encodedLen) ++ (signed.envelope.encode ++ (toBe signed.audience.value ++
    (toBe signed.epoch ++ (toBe signed.session.value ++ toBe signed.expiresAt)))))

def encode (signed : SignedEnvelope) : Except SignError (List UInt8) := do
  signed.validateSize
  pure (signed.encodeUnsigned ++ signed.signature.toList)

def transcript (signed : SignedEnvelope) : Except SignError (List UInt8) := do
  signed.validateSize
  pure (envelopeDomain ++ signed.encodeUnsigned)

def getContext (envelope : Envelope) : Reader DecodeSignedError SignedEnvelope := do
  let audience ← Reader.int .truncated
  let epoch ← Reader.int .truncated
  let session ← Reader.int .truncated
  let expiresAt ← Reader.int .truncated
  let signature ← Reader.array .truncated 64
  pure ⟨envelope, ⟨audience⟩, epoch, ⟨session⟩, expiresAt, signature⟩

def decode (raw : List UInt8) : Except DecodeSignedError SignedEnvelope := do
  require .tooLarge (decide (raw.length ≤ maxSignedBytes))
  let version ← Check.okOr .truncated raw.head?
  require .unsupportedVersion (version == signedVersion)
  require .truncated (decide (5 ≤ raw.length))
  let envelopeLen := (fromBe ((raw.drop 1).take 4) : UInt32).toNat
  require .tooLarge (decide (envelopeLen ≤ maxSignedBytes - signedOverheadBytes))
  require .truncated (decide (envelopeLen + signedOverheadBytes ≤ raw.length))
  require .trailingBytes (decide (raw.length ≤ envelopeLen + signedOverheadBytes))
  let envelope ← (Envelope.decode ((raw.drop 5).take envelopeLen)).mapError .wire
  Reader.complete .trailingBytes (getContext envelope) (raw.drop (5 + envelopeLen))

end SignedEnvelope

/-- `sign` with the key of a seed. -/
def sign (crypto : Crypto) (envelope : Envelope) (audience : PeerId) (epoch : Epoch) (session : SessionId) (expiresAt : UInt64)
    (key : SigningKey) : Except SignError SignedEnvelope := do
  let signed : SignedEnvelope := ⟨envelope, audience, epoch, session, expiresAt, Vector.replicate 64 0⟩
  signed.validateSize
  require .authorMismatch (envelope.author == peerIdFromKey crypto key.verifyingKey)
  let transcript ← signed.transcript
  pure { signed with signature := key.sign transcript }

/-! ### Replay windows -/

structure ReplayWindow where
  context : VerificationContext
  maxAuthors : Nat
  last : Std.ExtTreeMap Bytes32 Sequence compare := ∅

namespace ReplayWindow

def new (context : VerificationContext) (maxAuthors : Nat) : Except VerifyError ReplayWindow := do
  require .invalidBound (decide (1 ≤ maxAuthors ∧ maxAuthors ≤ maxReplayAuthors))
  pure { context, maxAuthors }

def verify (crypto : Crypto) (window : ReplayWindow) (signed : SignedEnvelope) (key : Bytes32) (now : UInt64) : Except VerifyError Unit := do
  signed.validateSize.mapError fun _ => .tooLarge
  require .weakKey !crypto.isWeak key
  require .authorMismatch (peerIdFromKey crypto key == signed.envelope.author)
  require .audienceMismatch (signed.audience == window.context.audience)
  require .realmMismatch (signed.envelope.realm == window.context.realm)
  require .roomMismatch (signed.envelope.room == window.context.room)
  require .epochMismatch (signed.epoch == window.context.epoch)
  require .sessionMismatch (signed.session == window.context.session)
  require .expired (decide (now ≤ signed.expiresAt))
  let transcript ← signed.transcript.mapError fun _ => .tooLarge
  require .invalidSignature (crypto.verifyStrict key transcript signed.signature)

def admits (window : ReplayWindow) (key : Bytes32) (sequence : Sequence) : Except VerifyError Unit :=
  match window.last[key]? with
  | some last => require .replay (decide (last < sequence))
  | none => require .capacity (decide (window.last.size < window.maxAuthors))

def verifyAndAccept (crypto : Crypto) (signed : SignedEnvelope) (key : Bytes32) (now : UInt64) : Fallible VerifyError ReplayWindow VerifiedEnvelope := do
  examine fun window => window.verify crypto signed key now
  examine fun window => window.admits key signed.envelope.sequence
  let context ← view (·.context)
  update fun window => { window with last := window.last.insert key signed.envelope.sequence }
  pure ⟨signed.envelope, key, context, signed.expiresAt⟩

end ReplayWindow

end Valhalla.Session
