import Valhalla.Session.Envelope

/-!
# Paired chat sessions (`lib.rs` of `vhalla-session`)

The three packets of the handshake of two paired peers, the pending handshakes of both roles, and the chat session
that a completed one establishes.
-/

namespace Valhalla.Session
open Fallible FixedWidth Check

def magic : List UInt8 := [86, 72, 83, 49]
def hello : UInt8 := 1
def response : UInt8 := 2
def confirm : UInt8 := 3
def handshakeDomain : List UInt8 := "vhalla/paired-chat/handshake/v1".toUTF8.toList
def configDomain : List UInt8 := "vhalla/paired-chat/config/v1".toUTF8.toList
def sessionDomain : List UInt8 := "vhalla/paired-chat/session/v1".toUTF8.toList
def eventDomain : List UInt8 := "vhalla/paired-chat/event/v1".toUTF8.toList

def zeroBytes : Bytes32 := Vector.replicate 32 0

inductive Role
  | initiator | responder
deriving DecidableEq, Repr

inductive Reject
  | malformed | key | localKey | transport | context | signature | expired | clockRollback | closed | kind
  | verify (e : VerifyError)
  | capacity
deriving DecidableEq, Repr

/-- A locally pinned pair and a bounded lifetime. -/
structure Pairing where
  initiator : Bytes32
  responder : Bytes32
  initiatorTransport : Bytes32
  responderTransport : Bytes32
  realm : RealmId
  room : RoomId
  epoch : Epoch
  expiresAt : UInt64
deriving DecidableEq

section
variable (crypto : Crypto)

def checkedKey (key : Bytes32) : Except Reject Unit := do
  require .key (crypto.decodesKey key)
  require .key !crypto.isWeak key

def freshNonce (nonce : Bytes32) : Except Reject Unit := require .malformed (nonce != zeroBytes)

namespace Pairing
variable (pairing : Pairing)

def validate : Except Reject Unit := do
  require .key (pairing.initiator != pairing.responder)
  forM [pairing.initiator, pairing.responder, pairing.initiatorTransport, pairing.responderTransport] (checkedKey crypto)

/-- What the digest covers. -/
def bytes : List UInt8 :=
  configDomain ++ (pairing.initiator.toList ++ (pairing.responder.toList ++ (pairing.initiatorTransport.toList ++
    (pairing.responderTransport.toList ++ (toBe pairing.realm.value ++ (toBe pairing.room.value ++ (toBe pairing.epoch ++
      toBe pairing.expiresAt)))))))

def digest : Bytes32 := crypto.sha256 pairing.bytes

/-- `local`. -/
def own : Role → Bytes32
  | .initiator => pairing.initiator
  | .responder => pairing.responder

def remote : Role → Bytes32
  | .initiator => pairing.responder
  | .responder => pairing.initiator

def transports : Role → Bytes32 × Bytes32
  | .initiator => (pairing.initiatorTransport, pairing.responderTransport)
  | .responder => (pairing.responderTransport, pairing.initiatorTransport)

def checkLocal (role : Role) (key : SigningKey) (observedLocal observedRemote : Bytes32) : Except Reject Unit := do
  pairing.validate crypto
  require .localKey (key.verifyingKey == pairing.own role)
  require .transport ((observedLocal, observedRemote) == pairing.transports role)

end Pairing

end

/-! ### Packets -/

structure Packet where
  kind : UInt8
  pairing : Bytes32
  initiatorNonce : Bytes32
  responderNonce : Bytes32
  signature : Signature
deriving DecidableEq

namespace Packet

def unsigned (packet : Packet) : List UInt8 :=
  magic ++ (packet.kind :: (packet.pairing.toList ++ (packet.initiatorNonce.toList ++
    (if packet.kind = hello then [] else packet.responderNonce.toList))))

def transcript (packet : Packet) : List UInt8 := handshakeDomain ++ packet.unsigned

def signed (packet : Packet) (key : SigningKey) : List UInt8 := packet.unsigned ++ (key.sign packet.transcript).toList

/-- `&raw[..4] != MAGIC`. -/
def getMagic : Reader Reject Unit := do
  let found ← Reader.take .malformed magic.length
  if found ≠ magic then throw .malformed else pure ()

/-- `raw[4] != kind`. -/
def getKind (kind : UInt8) : Reader Reject UInt8 := do
  let found ← Reader.int .malformed
  if ¬ found = kind then throw .malformed else pure found

def getNonce : Reader Reject Bytes32 := do
  let nonce ← Reader.array .malformed 32
  if nonce = zeroBytes then throw .malformed else pure nonce

def getResponderNonce (kind : UInt8) : Reader Reject Bytes32 := if kind = hello then pure zeroBytes else getNonce

/-- Every refusal is the same, so the order of the checks does not matter. -/
def get (kind : UInt8) : Reader Reject Packet := do
  getMagic
  let kind ← getKind kind
  let pairing ← Reader.array .malformed 32
  let initiatorNonce ← getNonce
  let responderNonce ← getResponderNonce kind
  let signature ← Reader.array .malformed 64
  pure ⟨kind, pairing, initiatorNonce, responderNonce, signature⟩

def decode (raw : List UInt8) (kind : UInt8) : Except Reject Packet := Reader.complete .malformed (get kind) raw

section
variable (crypto : Crypto) (packet : Packet)

def verify (key : Bytes32) : Except Reject Unit := do
  checkedKey crypto key
  require .signature (crypto.verifyStrict key packet.transcript packet.signature)

def sessionBytes : List UInt8 :=
  sessionDomain ++ (packet.pairing.toList ++ (packet.initiatorNonce.toList ++ packet.responderNonce.toList))

def sessionId : SessionId := ⟨fromBe ((crypto.sha256 packet.sessionBytes).toList.take 16)⟩

end

end Packet

/-! ### Chat sessions -/

structure ChatSession where
  pairing : Pairing
  peer : Bytes32
  inbound : ReplayWindow
  outbound : VerificationContext
  nextSequence : UInt64
  lastNow : UInt64
  closed : Bool

namespace ChatSession

def establish (crypto : Crypto) (pairing : Pairing) (role : Role) (session : SessionId) (now : UInt64) : Except Reject ChatSession := do
  checkedKey crypto (pairing.own role)
  checkedKey crypto (pairing.remote role)
  let context : VerificationContext := ⟨peerIdFromKey crypto (pairing.own role), pairing.realm, pairing.room, pairing.epoch, session⟩
  let inbound ← (ReplayWindow.new context 1).mapError .verify
  pure { pairing, peer := pairing.remote role, inbound,
         outbound := { context with audience := peerIdFromKey crypto (pairing.remote role) }, nextSequence := 1, lastNow := now, closed := false }

def checkLive (now : UInt64) : Fallible Reject ChatSession Unit := do
  examine fun session => require .closed !session.closed
  let session ← view id
  if now < session.lastNow then do
    update fun session => { session with closed := true }
    throw .clockRollback
  else if session.pairing.expiresAt < now then do
    update fun session => { session with closed := true }
    throw .expired
  else update fun session => { session with lastNow := now }

def eventBytes (session : SessionId) (author : PeerId) (sequence : UInt64) : List UInt8 :=
  eventDomain ++ (toBe session.value ++ (toBe author.value ++ toBe sequence))

def eventId (crypto : Crypto) (session : SessionId) (author : PeerId) (sequence : UInt64) : EventId :=
  ⟨fromBe ((crypto.sha256 (eventBytes session author sequence)).toList.take 16)⟩

def prepareChat (crypto : Crypto) (body : List UInt8) (now : UInt64) : Fallible Reject ChatSession Envelope := do
  checkLive now
  examine fun _ => require .capacity (decide (body.length ≤ maxSignedBodyBytes))
  let next ← examine fun session => Check.okOr .capacity (checkedAdd session.nextSequence 1)
  let envelope ← examine fun session => Check.okOr .capacity (Envelope.chat session.inbound.context.audience session.pairing.realm
    session.pairing.room (eventId crypto session.outbound.session session.inbound.context.audience session.nextSequence)
    session.nextSequence body)
  update fun session => { session with nextSequence := next }
  pure envelope

def checkReceived (session : ChatSession) (raw : List UInt8) : Except Reject SignedEnvelope := do
  let signed ← (SignedEnvelope.decode raw).mapError fun _ => .malformed
  require .kind (signed.envelope.kind == kindChat)
  require .expired (decide (signed.expiresAt ≤ session.pairing.expiresAt))
  pure signed

def admitClaim (crypto : Crypto) (signed : SignedEnvelope) (now : UInt64) : Fallible Reject ChatSession VerifiedEnvelope :=
  of fun session =>
    let (result, inbound) := exec (ReplayWindow.verifyAndAccept crypto signed session.peer now) session.inbound
    (result.mapError .verify, { session with inbound })

def receive (crypto : Crypto) (raw : List UInt8) (now : UInt64) : Fallible Reject ChatSession VerifiedEnvelope := do
  checkLive now
  let signed ← examine fun session => session.checkReceived raw
  admitClaim crypto signed now

def close (session : ChatSession) : ChatSession := { session with closed := true }

end ChatSession

/-! ### Pending handshakes -/

structure Pending where
  pairing : Pairing
  role : Role
  packet : Packet
  startedAt : UInt64
  deadline : UInt64
deriving DecidableEq

def checkDeadline (pairing : Pairing) (now deadline : UInt64) : Except Reject UInt64 := do
  require .expired !(decide (deadline ≤ now) || decide (pairing.expiresAt < now))
  pure (min deadline pairing.expiresAt)

namespace Pending

def checkTime (pending : Pending) (now : UInt64) : Except Reject Unit := do
  require .clockRollback (decide (pending.startedAt ≤ now))
  require .expired (decide (now ≤ pending.deadline))

section
variable (crypto : Crypto)

def initiate (pairing : Pairing) (key : SigningKey) (observedLocal observedRemote : Bytes32) (nonce : Bytes32) (now deadline : UInt64) :
    Except Reject (Pending × List UInt8) := do
  pairing.checkLocal crypto .initiator key observedLocal observedRemote
  let deadline ← checkDeadline pairing now deadline
  freshNonce nonce
  let packet : Packet := ⟨hello, pairing.digest crypto, nonce, zeroBytes, Vector.replicate 64 0⟩
  pure (⟨pairing, .initiator, packet, now, deadline⟩, packet.signed key)

def respond (pairing : Pairing) (key : SigningKey) (observedLocal observedRemote : Bytes32) (raw : List UInt8) (nonce : Bytes32)
    (now deadline : UInt64) : Except Reject (Pending × List UInt8) := do
  pairing.checkLocal crypto .responder key observedLocal observedRemote
  let deadline ← checkDeadline pairing now deadline
  freshNonce nonce
  let packet ← Packet.decode raw hello
  require .context (packet.pairing == pairing.digest crypto)
  packet.verify crypto pairing.initiator
  let packet := { packet with kind := response, responderNonce := nonce }
  pure (⟨pairing, .responder, packet, now, deadline⟩, packet.signed key)

def confirm (pending : Pending) (raw : List UInt8) (key : SigningKey) (now : UInt64) : Except Reject (ChatSession × List UInt8) := do
  pending.checkTime now
  require .localKey (pending.role == .initiator && key.verifyingKey == pending.pairing.initiator)
  let packet ← Packet.decode raw response
  require .context (packet.pairing == pending.packet.pairing && packet.initiatorNonce == pending.packet.initiatorNonce)
  packet.verify crypto pending.pairing.responder
  let packet := { packet with kind := Session.confirm }
  let session ← ChatSession.establish crypto pending.pairing pending.role (packet.sessionId crypto) now
  pure (session, packet.signed key)

def finish (pending : Pending) (raw : List UInt8) (now : UInt64) : Except Reject ChatSession := do
  pending.checkTime now
  require .context (pending.role == .responder)
  let packet ← Packet.decode raw Session.confirm
  require .context (packet.pairing == pending.packet.pairing && packet.initiatorNonce == pending.packet.initiatorNonce &&
    packet.responderNonce == pending.packet.responderNonce)
  packet.verify crypto pending.pairing.initiator
  ChatSession.establish crypto pending.pairing pending.role (packet.sessionId crypto) now

end

end Pending

end Valhalla.Session
