import Valhalla.PrivateKernel.Checkpoint

/-!
# Packets and retained records (`packets.rs`, and the framing of `transport.rs`)

Join requests, invitation and control packets, the retained outbox and inbox records, the confidential
control envelope and the control retained with it.
-/

namespace Valhalla.PrivateKernel
open Fallible FixedWidth Check

def maxPacket : Nat := maxStoredRecordBytes - 256

def OutboxKind.byte : OutboxKind → UInt8
  | .keyPackage => 0
  | .invitation => 1
  | .application => 2
  | .removal => 3
  | .ownerUpdate => 4
  | .contactOffer => 5
  | .contactRequest => 6
  | .contactInvitation => 7
  | .succession => 8

/-- `decode_kind`. -/
def OutboxKind.ofByte : UInt8 → Except Error OutboxKind
  | 0 => .ok .keyPackage
  | 1 => .ok .invitation
  | 2 => .ok .application
  | 3 => .ok .removal
  | 4 => .ok .ownerUpdate
  | 5 => .ok .contactOffer
  | 6 => .ok .contactRequest
  | 7 => .ok .contactInvitation
  | 8 => .ok .succession
  | _ => .error .encoding

def nonempty (raw : List UInt8) : Except Error (List UInt8) := if raw.isEmpty then .error .bounds else .ok raw

/-- `nonempty(r.blob(limit)?)?`. -/
def readNonempty (limit : Nat) : ReadM (List UInt8) := do
  let raw ← readBlob limit
  Reader.lift (nonempty raw)

variable {crypto : Hashing}

/-! ### Requests -/

/-- The commitment to the typed inputs of an operation. -/
def request (context : Context crypto) (kind : OutboxKind) (parts : List (List UInt8)) : Except Error Bytes32 := do
  let raw ← Writing.finish (maxPacket + 256) do
    writeBytes ("VHPKREQ".toUTF8.toList ++ [1])
    writeBytes context.encode
    writeByte kind.byte
    forM parts (writeBlob maxPacket)
  .ok (hash crypto ("vhalla/private-kernel/request/v1".toUTF8.toList ++ [0]) raw)

/-! ### Packets -/

def joinRequestMagic : List UInt8 := [86, 72, 80, 75, 74, 79, 73, 78, 82, 69, 81, 1]

structure JoinRequest (crypto : Hashing) where
  scope : PrivateRoomScope
  enrollment : VerifiedDeviceEnrollment crypto
  package : List UInt8

namespace JoinRequest

def encode (join : JoinRequest crypto) : Except Error (List UInt8) :=
  Writing.finish maxPacket do
    writeBytes joinRequestMagic
    writeBytes (putScope join.scope)
    writeBlob maxRecordBytes join.enrollment.encode
    writeBlob maxWireBytes join.package

def read : ReadM (JoinRequest crypto) := do
  readMagic joinRequestMagic
  let scope ← readScope
  let enrollment ← readVerified (enrollmentKind crypto) maxRecordBytes
  let package ← readNonempty maxWireBytes
  pure ⟨scope, enrollment, package⟩

def decode (raw : List UInt8) : Except Error (JoinRequest crypto) := decodeWith maxPacket read raw

end JoinRequest

def invitePacketMagic : List UInt8 := [86, 72, 80, 75, 73, 78, 86, 73, 84, 69, 4]

def readProof (limit : Nat) : ReadM (OwnerSuccessionProof crypto) := do
  let raw ← readBlob limit
  Reader.lift (ofRecord (OwnerSuccessionProof.decode raw))

def readProofs (limit : Nat) : ReadM (List (OwnerSuccessionProof crypto)) := do
  let count ← readByte
  if count.toNat > maxSuccessions then throw .bounds else Reader.replicate (readProof limit) count.toNat

def readCheckpoint : ReadM (Checkpoint crypto) := do
  let raw ← readBlob maxRecordBytes
  Reader.lift (Checkpoint.decode raw)

structure InvitePacket (crypto : Hashing) where
  invitation : VerifiedInvitation crypto
  control : VerifiedOwnerControl crypto
  owner : VerifiedDeviceEnrollment crypto
  successions : List (OwnerSuccessionProof crypto)
  member : VerifiedDeviceEnrollment crypto
  commit : List UInt8
  welcome : List UInt8
  checkpoint : Checkpoint crypto

namespace InvitePacket

def encode (packet : InvitePacket crypto) : Except Error (List UInt8) :=
  Writing.finish maxPacket do
    writeBytes invitePacketMagic
    writeBlob maxRecordBytes packet.invitation.encode
    writeBlob maxRecordBytes packet.control.encode
    writeBlob maxRecordBytes packet.owner.encode
    Writing.lift (require .bounds (decide (packet.successions.length < 256)))
    writeByte (UInt8.ofNat packet.successions.length)
    forM packet.successions fun grant => writeBlob maxRecordBytes grant.encode
    writeBlob maxRecordBytes packet.member.encode
    writeBlob maxWireBytes packet.commit
    writeBlob maxWireBytes packet.welcome
    let checkpoint ← Writing.lift packet.checkpoint.encode
    writeBlob maxRecordBytes checkpoint

def read : ReadM (InvitePacket crypto) := do
  readMagic invitePacketMagic
  let invitation ← readVerified (invitationKind crypto) maxRecordBytes
  let control ← readVerified (controlKind crypto) maxRecordBytes
  let owner ← readVerified (enrollmentKind crypto) maxRecordBytes
  let successions ← readProofs maxRecordBytes
  let member ← readVerified (enrollmentKind crypto) maxRecordBytes
  let commit ← readNonempty maxWireBytes
  let welcome ← readNonempty maxWireBytes
  let checkpoint ← readCheckpoint
  pure ⟨invitation, control, owner, successions, member, commit, welcome, checkpoint⟩

def decode (raw : List UInt8) : Except Error (InvitePacket crypto) := decodeWith maxPacket read raw

end InvitePacket

def controlPacketMagic : List UInt8 := [86, 72, 80, 75, 67, 79, 78, 84, 82, 79, 76, 1]

/-- Canonical private control artifact. -/
structure ControlPacket (crypto : Hashing) where
  control : VerifiedOwnerControl crypto
  commit : List UInt8
  invitation : Option (VerifiedInvitation crypto)
  enrollment : Option (VerifiedDeviceEnrollment crypto)

namespace ControlPacket

def admits (claims : OwnerControlClaims crypto) (a : Addition crypto) (invite : VerifiedInvitation crypto)
    (member : VerifiedDeviceEnrollment crypto) : Bool :=
  let i := invite.claims
  let e := member.claims
  i.scope == claims.scope && i.ownerDevice == claims.ownerDevice && i.floor == claims.parent &&
    a.invitation == invite.invitationId && a.device == i.recipientDevice && a.account == i.recipientAccount &&
    a.keyPackage == i.keyPackage && a.device == e.device && a.account == e.account

def validate (packet : ControlPacket crypto) : Except Error Unit := do
  let c := packet.control.claims
  let commit ← ofRecord (Identifier.ofBytes crypto .commit packet.commit)
  require .policy (c.commit == commit)
  match c.change with
  | .membership [a] [] => do
    let invite ← Check.okOr .policy packet.invitation
    let member ← Check.okOr .policy packet.enrollment
    require .policy (admits c a invite member)
  | .membership [] [_] => require .policy (packet.invitation.isNone && packet.enrollment.isNone)
  | .ownerUpdate => do
    let enrollment ← Check.okOr .policy packet.enrollment
    require .policy (packet.invitation.isNone && enrollment.device == c.ownerDevice)
  | .succession grant => do
    require .policy (packet.invitation.isNone && packet.enrollment.isNone)
    let sequence ← ofRecord c.sequence
    require .policy (grant.claims.sequence == sequence && grant.claims.scope == c.scope)
  | .membership _ _ => .error .unsupported

def writeParts (packet : ControlPacket crypto) : WriteM Unit :=
  match packet.invitation, packet.enrollment with
  | some i, some e => do
    writeByte 1
    writeBlob maxRecordBytes i.encode
    writeBlob maxRecordBytes e.encode
  | none, none => writeByte 0
  | none, some e => do
    writeByte 2
    writeBlob maxRecordBytes e.encode
  | some _, none => Writing.lift (.error .policy)

def encode (packet : ControlPacket crypto) : Except Error (List UInt8) := do
  packet.validate
  Writing.finish maxPacket do
    writeBytes controlPacketMagic
    let sequence ← Writing.lift (ofRecord packet.control.claims.sequence)
    writeU64 sequence
    writeBlob maxRecordBytes packet.control.encode
    let commit ← Writing.lift (nonempty packet.commit)
    writeBlob maxWireBytes commit
    packet.writeParts

def readParts : ReadM (Option (VerifiedInvitation crypto) × Option (VerifiedDeviceEnrollment crypto)) := do
  let tag ← readByte
  if tag = 0 then pure (none, none)
  else if tag = 1 then do
    let invitation ← readVerified (invitationKind crypto) maxRecordBytes
    let enrollment ← readVerified (enrollmentKind crypto) maxRecordBytes
    pure (some invitation, some enrollment)
  else if tag = 2 then do
    let enrollment ← readVerified (enrollmentKind crypto) maxRecordBytes
    pure (none, some enrollment)
  else throw .encoding

def read : ReadM (ControlPacket crypto) := do
  readMagic controlPacketMagic
  let sequence ← readU64
  let control ← readVerified (controlKind crypto) maxRecordBytes
  Reader.lift (do
    let own ← ofRecord control.claims.sequence
    require .encoding (sequence == own))
  let commit ← readNonempty maxWireBytes
  let parts ← readParts
  pure ⟨control, commit, parts.1, parts.2⟩

def decode (raw : List UInt8) : Except Error (ControlPacket crypto) := do
  let packet ← decodeWith maxPacket read raw
  packet.validate
  .ok packet

end ControlPacket

def Verified.floor (control : VerifiedOwnerControl crypto) : Except Error ControlFloor := do
  let sequence ← ofRecord control.claims.sequence
  ofRecord (ControlFloor.new sequence (some control.controlId))

/-! ### Retained outbox and inbox records -/

def sentMagic : List UInt8 := [86, 72, 80, 75, 79, 85, 84, 1]

structure Sent where
  sequence : UInt64
  operation : OperationId
  request : Bytes32
  kind : OutboxKind
  bytes : List UInt8
deriving DecidableEq

namespace Sent

def put (sent : Sent) : List UInt8 :=
  sentMagic ++ (toBe sent.sequence ++ (sent.operation.bytes.toList ++ (sent.request.toList ++ ([sent.kind.byte] ++
    putBlob sent.bytes))))

def encode (sent : Sent) : Except Error (List UInt8) := do
  require .encoding (sent.sequence != 0)
  Writing.finish (maxStoredRecordBytes - 40) do
    writeBytes sentMagic
    writeU64 sent.sequence
    writeBytes sent.operation.bytes.toList
    writeBytes sent.request.toList
    writeByte sent.kind.byte
    let bytes ← Writing.lift (nonempty sent.bytes)
    writeBlob maxPacket bytes

def read : ReadM Sent := do
  readMagic sentMagic
  let sequence ← readU64
  Reader.lift (require .encoding (sequence != 0))
  let operation ← readOperation
  let request ← readArray 32
  let kind ← readKind
  let bytes ← readNonempty maxPacket
  pure ⟨sequence, operation, request, kind, bytes⟩
where
  readOperation : ReadM OperationId := do
    let raw ← readArray 16
    Reader.lift (OperationId.fromBytes raw)
  readKind : ReadM OutboxKind := do
    let byte ← readByte
    Reader.lift (OutboxKind.ofByte byte)

def decode (raw : List UInt8) : Except Error Sent := decodeWith (maxStoredRecordBytes - 40) read raw

end Sent

def receivedMagic : List UInt8 := [86, 72, 80, 75, 73, 78, 1]

structure Received (crypto : Hashing) where
  sequence : UInt64
  wire : List UInt8
  sender : Key crypto
  body : List UInt8
deriving DecidableEq

namespace Received

def put (received : Received crypto) : List UInt8 :=
  receivedMagic ++ (toBe received.sequence ++ (received.sender.bytes.toList ++ (putBlob received.wire ++ putBlob received.body)))

def encode (received : Received crypto) : Except Error (List UInt8) := do
  require .encoding (received.sequence != 0)
  Writing.finish (maxStoredRecordBytes - 40) do
    writeBytes receivedMagic
    writeU64 received.sequence
    writeBytes received.sender.bytes.toList
    let wire ← Writing.lift (nonempty received.wire)
    writeBlob maxWireBytes wire
    let body ← Writing.lift (nonempty received.body)
    writeBlob maxBodyBytes body

def read : ReadM (Received crypto) := do
  readMagic receivedMagic
  let sequence ← readU64
  Reader.lift (require .encoding (sequence != 0))
  let sender ← readKey
  let wire ← readNonempty maxWireBytes
  let body ← readNonempty maxBodyBytes
  pure ⟨sequence, wire, sender, body⟩

def decode (raw : List UInt8) : Except Error (Received crypto) := decodeWith (maxStoredRecordBytes - 40) read raw

end Received

/-! ### Control envelopes -/

def envelopeMagic : List UInt8 := [86, 72, 80, 75, 67, 84, 82, 76, 1]
def envelopeHeader : Nat := envelopeMagic.length + 1 + 8 + 8 + 24 + 4

/-- `transport::kind`. -/
def controlKindByte (control : VerifiedOwnerControl crypto) : Except Error UInt8 :=
  match control.claims.change with
  | .membership [_] [] => .ok 1
  | .membership [] [_] => .ok 2
  | .ownerUpdate => .ok 3
  | .succession _ => .ok 4
  | .membership _ _ => .error .unsupported

structure Envelope where
  kind : UInt8
  prior : UInt64
  sequence : UInt64
  nonce : Vector UInt8 24
  ciphertext : List UInt8
deriving DecidableEq

namespace Envelope

def header (envelope : Envelope) : List UInt8 :=
  envelopeMagic ++ ([envelope.kind] ++ (toBe envelope.prior ++ (toBe envelope.sequence ++ (envelope.nonce.toList ++
    toBe (UInt32.ofNat envelope.ciphertext.length)))))

def put (envelope : Envelope) : List UInt8 :=
  envelopeMagic ++ ([envelope.kind] ++ (toBe envelope.prior ++ (toBe envelope.sequence ++ (envelope.nonce.toList ++
    putBlob envelope.ciphertext))))

def read : ReadM Envelope := do
  readMagic envelopeMagic
  let kind ← readByte
  Reader.lift (require .encoding (decide (1 ≤ kind.toNat) && decide (kind.toNat ≤ 4)))
  let prior ← readU64
  let sequence ← readU64
  Reader.lift (require .encoding (checkedAdd prior 1 == some sequence))
  let nonce ← readArray 24
  let ciphertext ← readBlob (maxPacket - envelopeHeader)
  Reader.lift (require .encoding (decide (16 ≤ ciphertext.length)))
  pure ⟨kind, prior, sequence, nonce, ciphertext⟩

def decode (raw : List UInt8) : Except Error Envelope := decodeWith maxPacket read raw

/-- `Envelope::matches`. -/
def agrees (envelope : Envelope) (control : VerifiedOwnerControl crypto) : Except Error Unit := do
  let kind ← controlKindByte control
  let sequence ← ofRecord control.claims.sequence
  require .policy (envelope.kind == kind && envelope.prior == control.claims.priorEpoch && envelope.sequence == sequence)

end Envelope

def retainedMagic : List UInt8 := [86, 72, 80, 75, 67, 84, 82, 76, 82, 69, 67, 1]

def checkEnvelope (control : VerifiedOwnerControl crypto) : Option (List UInt8) → Except Error Unit
  | none => .ok ()
  | some raw => do
    let envelope ← Envelope.decode raw
    envelope.agrees control

structure RetainedControl (crypto : Hashing) where
  control : VerifiedOwnerControl crypto
  envelope : Option (List UInt8)
  agrees : checkEnvelope control envelope = .ok ()
deriving DecidableEq

namespace RetainedControl

def new (control : VerifiedOwnerControl crypto) (envelope : Option (List UInt8)) : Except Error (RetainedControl crypto) :=
  match h : checkEnvelope control envelope with
  | .ok () => .ok ⟨control, envelope, h⟩
  | .error e => .error e

def floor (retained : RetainedControl crypto) : Except Error ControlFloor := retained.control.floor

def put (retained : RetainedControl crypto) : List UInt8 :=
  retainedMagic ++ (putBlob retained.control.encode ++ putOption putBlob retained.envelope)

def encode (retained : RetainedControl crypto) : Except Error (List UInt8) :=
  Writing.finish (maxStoredRecordBytes - 40) do
    writeBytes retainedMagic
    writeBlob maxRecordBytes retained.control.encode
    writeOption (fun raw => do
      Writing.lift (checkEnvelope retained.control (some raw))
      writeBlob maxPacket raw) retained.envelope

def read : ReadM (VerifiedOwnerControl crypto × Option (List UInt8)) := do
  readMagic retainedMagic
  let control ← readVerified (controlKind crypto) maxRecordBytes
  let envelope ← readOption (readBlob maxPacket)
  pure (control, envelope)

def decode (raw : List UInt8) : Except Error (RetainedControl crypto) := do
  let (control, envelope) ← decodeWith (maxStoredRecordBytes - 40) read raw
  new control envelope

end RetainedControl

end Valhalla.PrivateKernel
