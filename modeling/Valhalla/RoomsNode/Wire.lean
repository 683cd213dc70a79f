import Valhalla.Lib.Wire
import Valhalla.RoomsNode.Certificates

/-!
# The wire codec (`codec.rs` of `vhalla-rooms-node`)

Every message the engine moves, in one bounded big-endian format: streamed proposal parts, signed consensus
messages, liveness rebroadcasts, certificates, validator proofs, sync messages and the proposed values of the log.
The signing crate and the peer ids of the network library are parameters.
-/

namespace Valhalla.RoomsNode
open FixedWidth Fallible

def maxSignatures : Nat := 64
def maxSyncValues : Nat := 128
def maxValueBytes : Nat := 256 * 1024

structure CodecError where
  text : String
deriving DecidableEq, Repr

/-- Peer ids as the network library gives them. -/
structure PeerIds (PeerId : Type) where
  toBytes : PeerId → List UInt8
  fromBytes : List UInt8 → Option PeerId

structure PeerIds.Lawful {PeerId : Type} (peers : PeerIds PeerId) : Prop where
  from_to : ∀ peer, peers.fromBytes (peers.toBytes peer) = some peer
  to_from : ∀ bytes peer, peers.fromBytes bytes = some peer → peers.toBytes peer = bytes
  length : ∀ peer, (peers.toBytes peer).length ≤ 1024

/-! ### Messages -/

structure SignedMessage (Message Signature : Type) where
  message : Message
  signature : Signature

abbrev SignedExtension (Signature : Type) := SignedMessage Unit Signature

structure ExtendedVote (Signature : Type) extends RoomVote where
  extension : Option (SignedExtension Signature)

structure RoomValue where
  id : Bytes32
  bytes : List UInt8

structure RoomProposal where
  height : UInt64
  round : Round
  value : RoomValue
  polRound : Round
  proposer : Address

structure ProposalInit where
  height : UInt64
  round : Round
  polRound : Round
  proposer : Address
deriving DecidableEq

structure ProposalFin (Signature : Type) where
  signature : Signature
deriving DecidableEq

inductive RoomPart (Signature : Type)
  | init (init : ProposalInit)
  | data (data : List UInt8)
  | fin (fin : ProposalFin Signature)
deriving DecidableEq

structure RoundSignature (Signature : Type) where
  voteType : VoteType
  valueId : Option Bytes32
  address : Address
  signature : Signature

inductive RoundCertificateType
  | skip | precommit
deriving DecidableEq

structure RoundCertificate (Signature : Type) where
  height : UInt64
  round : Round
  certType : RoundCertificateType
  roundSignatures : List (RoundSignature Signature)

structure PolkaSignature (Signature : Type) where
  address : Address
  signature : Signature

structure PolkaCertificate (Signature : Type) where
  height : UInt64
  round : Round
  valueId : Bytes32
  polkaSignatures : List (PolkaSignature Signature)

abbrev ExtendedCertificate (Signature : Type) := ExtendedCommitCertificate Signature (SignedExtension Signature)

inductive SignedConsensusMsg (Signature : Type)
  | vote (vote : SignedMessage (ExtendedVote Signature) Signature)
  | proposal (proposal : SignedMessage RoomProposal Signature)

inductive LivenessMsg (Signature : Type)
  | vote (vote : SignedMessage (ExtendedVote Signature) Signature)
  | polkaCertificate (certificate : PolkaCertificate Signature)
  | skipRoundCertificate (certificate : RoundCertificate Signature)

inductive StreamContent (Signature : Type)
  | data (part : RoomPart Signature)
  | fin
deriving DecidableEq

structure StreamMessage (Signature : Type) where
  streamId : List UInt8
  sequence : UInt64
  content : StreamContent Signature
deriving DecidableEq

structure ValidatorProof (Signature : Type) where
  publicKey : List UInt8
  peerId : List UInt8
  signature : Signature

structure Status (PeerId : Type) where
  peerId : PeerId
  tipHeight : UInt64
  historyMinHeight : UInt64

inductive Request
  | valueRequest (first last : UInt64)

structure RawDecidedValue (Signature : Type) where
  valueBytes : List UInt8
  certificate : ExtendedCertificate Signature

inductive Response (Signature : Type)
  | valueResponse (startHeight : UInt64) (values : List (RawDecidedValue Signature))

inductive Validity
  | valid | invalid
deriving DecidableEq

structure ProposedValue where
  height : UInt64
  round : Round
  validRound : Round
  proposer : Address
  value : RoomValue
  validity : Validity

/-! ### Encoding primitives -/

def putU32 (v : UInt32) : List UInt8 := toBe v
def putU64 (v : UInt64) : List UInt8 := toBe v
def putRound (r : Round) : List UInt8 := putU32 r.code
def putBytes (b : List UInt8) : List UInt8 := putU32 (UInt32.ofNat b.length) ++ b
def putAddr (a : Address) : List UInt8 := a.toList
def putHeight (h : UInt64) : List UInt8 := putU64 h

def putValueId : Option Bytes32 → List UInt8
  | none => [0]
  | some id => 1 :: id.toList

abbrev Rd := Reader CodecError

namespace Rd

def take (n : Nat) : Rd (List UInt8) := Reader.take ⟨"short input"⟩ n
def array (n : Nat) : Rd (Vector UInt8 n) := Reader.array ⟨"short input"⟩ n
def u8 : Rd UInt8 := Reader.int ⟨"short input"⟩
def u32 : Rd UInt32 := Reader.int ⟨"short input"⟩
def u64 : Rd UInt64 := Reader.int ⟨"short input"⟩

/-- A length up to `limit`. -/
def count (message : String) (limit : Nat) : Rd Nat := do
  let n ← u32
  if toNat n > limit then throw ⟨message⟩ else pure (toNat n)

def bytes (limit : Nat) : Rd (List UInt8) := do
  let len ← count "overlong field" limit
  take len

def addr : Rd Address := array 20
def height : Rd UInt64 := u64

def round : Rd Round := do
  let v ← u32
  pure (if v = maxRound then .nil else .some v)

def valueId : Rd (Option Bytes32) := do
  let tag ← u8
  match tag with
  | 0 => pure none
  | 1 => do
    let id ← array 32
    pure (some id)
  | _ => throw ⟨"bad nil-or-val tag"⟩

end Rd

def decodeWith {α : Type} (get : Rd α) (raw : List UInt8) : Except CodecError α :=
  Reader.complete ⟨"trailing bytes"⟩ get raw

/-! ### The shared messages -/

section
variable {PublicKey Signature : Type} (scheme : Scheme PublicKey Signature)

def putSig (s : Signature) : List UInt8 := scheme.encodeSignature s

def Rd.sig : Rd Signature := do
  let bytes ← take 64
  Reader.lift (Check.okOr ⟨"bad signature"⟩ (scheme.decodeSignature bytes))

def putVoteType : VoteType → List UInt8
  | .prevote => [0]
  | .precommit => [1]

def getVoteType (message : String) : Rd VoteType := do
  let tag ← Rd.u8
  match tag with
  | 0 => pure .prevote
  | 1 => pure .precommit
  | _ => throw ⟨message⟩

def putExtension : Option (SignedExtension Signature) → List UInt8
  | none => [0]
  | some ext => 1 :: putSig scheme ext.signature

def getExtension : Rd (Option (SignedExtension Signature)) := do
  let tag ← Rd.u8
  match tag with
  | 0 => pure none
  | 1 => do
    let signature ← Rd.sig scheme
    pure (some ⟨(), signature⟩)
  | _ => throw ⟨"bad extension tag"⟩

def putVote (v : ExtendedVote Signature) : List UInt8 :=
  putVoteType v.voteType ++ (putHeight v.height ++ (putRound v.round ++ (putValueId v.value ++ (putAddr v.address ++
    putExtension scheme v.extension))))

def getVote : Rd (ExtendedVote Signature) := do
  let voteType ← getVoteType "bad vote type"
  let height ← Rd.height
  let round ← Rd.round
  let value ← Rd.valueId
  let address ← Rd.addr
  let extension ← getExtension scheme
  pure ⟨⟨voteType, height, round, value, address⟩, extension⟩

def putProposal (p : RoomProposal) : List UInt8 :=
  putHeight p.height ++ (putRound p.round ++ (putRound p.polRound ++ (putAddr p.proposer ++ p.value.id.toList)))

def getProposal : Rd RoomProposal := do
  let height ← Rd.height
  let round ← Rd.round
  let polRound ← Rd.round
  let proposer ← Rd.addr
  let id ← Rd.array 32
  pure ⟨height, round, ⟨id, []⟩, polRound, proposer⟩

def putRoundSig (s : RoundSignature Signature) : List UInt8 :=
  putVoteType s.voteType ++ (putValueId s.valueId ++ (putAddr s.address ++ putSig scheme s.signature))

def getRoundSig : Rd (RoundSignature Signature) := do
  let voteType ← getVoteType "bad round-sig vote type"
  let valueId ← Rd.valueId
  let address ← Rd.addr
  let signature ← Rd.sig scheme
  pure ⟨voteType, valueId, address, signature⟩

def putCertType : RoundCertificateType → List UInt8
  | .skip => [0]
  | .precommit => [1]

def getCertType : Rd RoundCertificateType := do
  let tag ← Rd.u8
  match tag with
  | 0 => pure .skip
  | 1 => pure .precommit
  | _ => throw ⟨"bad cert type"⟩

def putList {α : Type} (put : α → List UInt8) (l : List α) : List UInt8 := putU32 (UInt32.ofNat l.length) ++ l.flatMap put

def getList {α : Type} (message : String) (limit : Nat) (get : Rd α) : Rd (List α) := do
  let n ← Rd.count message limit
  Reader.many (fun _ _ => ()) (fun _ => get) n ()

def putRoundCert (c : RoundCertificate Signature) : List UInt8 :=
  putHeight c.height ++ (putRound c.round ++ (putCertType c.certType ++ putList (putRoundSig scheme) c.roundSignatures))

def getRoundCert : Rd (RoundCertificate Signature) := do
  let height ← Rd.height
  let round ← Rd.round
  let certType ← getCertType
  let sigs ← getList "too many round signatures" maxSignatures (getRoundSig scheme)
  pure ⟨height, round, certType, sigs⟩

def putPolkaSig (s : PolkaSignature Signature) : List UInt8 := putAddr s.address ++ putSig scheme s.signature

def getPolkaSig : Rd (PolkaSignature Signature) := do
  let address ← Rd.addr
  let signature ← Rd.sig scheme
  pure ⟨address, signature⟩

def putPolka (c : PolkaCertificate Signature) : List UInt8 :=
  putHeight c.height ++ (putRound c.round ++ (c.valueId.toList ++ putList (putPolkaSig scheme) c.polkaSignatures))

def getPolka : Rd (PolkaCertificate Signature) := do
  let height ← Rd.height
  let round ← Rd.round
  let valueId ← Rd.array 32
  let sigs ← getList "too many polka signatures" maxSignatures (getPolkaSig scheme)
  pure ⟨height, round, valueId, sigs⟩

def putExtSig (s : ExtendedCommitSignature Signature (SignedExtension Signature)) : List UInt8 :=
  putAddr s.address ++ (putSig scheme s.signature ++ putExtension scheme s.extension)

def getExtSig : Rd (ExtendedCommitSignature Signature (SignedExtension Signature)) := do
  let address ← Rd.addr
  let signature ← Rd.sig scheme
  let extension ← getExtension scheme
  pure ⟨address, signature, extension⟩

def putExtCert (c : ExtendedCertificate Signature) : List UInt8 :=
  putHeight c.height ++ (putRound c.round ++ (c.valueId.toList ++ putList (putExtSig scheme) c.commitSignatures))

def getExtCert : Rd (ExtendedCertificate Signature) := do
  let height ← Rd.height
  let round ← Rd.round
  let valueId ← Rd.array 32
  let sigs ← getList "too many commit signatures" maxSignatures (getExtSig scheme)
  pure ⟨height, round, valueId, sigs⟩

/-! ### Whole messages -/

def encodePart : RoomPart Signature → List UInt8
  | .init init => 1 :: (putHeight init.height ++ (putRound init.round ++ (putRound init.polRound ++ putAddr init.proposer)))
  | .data data => 2 :: putBytes data
  | .fin fin => 3 :: putSig scheme fin.signature

def getInit : Rd ProposalInit := do
  let height ← Rd.height
  let round ← Rd.round
  let polRound ← Rd.round
  let proposer ← Rd.addr
  pure ⟨height, round, polRound, proposer⟩

def getPart : Rd (RoomPart Signature) := do
  let tag ← Rd.u8
  match tag with
  | 1 => do
    let init ← getInit
    pure (.init init)
  | 2 => do
    let data ← Rd.bytes maxValueBytes
    pure (.data data)
  | 3 => do
    let signature ← Rd.sig scheme
    pure (.fin ⟨signature⟩)
  | _ => throw ⟨"bad part tag"⟩

def decodePart (raw : List UInt8) : Except CodecError (RoomPart Signature) := decodeWith (getPart scheme) raw

def putSignedVote (v : SignedMessage (ExtendedVote Signature) Signature) : List UInt8 :=
  putVote scheme v.message ++ putSig scheme v.signature

def getSignedVote : Rd (SignedMessage (ExtendedVote Signature) Signature) := do
  let message ← getVote scheme
  let signature ← Rd.sig scheme
  pure ⟨message, signature⟩

def putSignedProposal (p : SignedMessage RoomProposal Signature) : List UInt8 :=
  putProposal p.message ++ putSig scheme p.signature

def getSignedProposal : Rd (SignedMessage RoomProposal Signature) := do
  let message ← getProposal
  let signature ← Rd.sig scheme
  pure ⟨message, signature⟩

def encodeConsensus : SignedConsensusMsg Signature → List UInt8
  | .vote v => 1 :: putSignedVote scheme v
  | .proposal p => 2 :: putSignedProposal scheme p

def getConsensus : Rd (SignedConsensusMsg Signature) := do
  let tag ← Rd.u8
  match tag with
  | 1 => do
    let v ← getSignedVote scheme
    pure (.vote v)
  | 2 => do
    let p ← getSignedProposal scheme
    pure (.proposal p)
  | _ => throw ⟨"bad consensus msg tag"⟩

def decodeConsensus (raw : List UInt8) : Except CodecError (SignedConsensusMsg Signature) :=
  decodeWith (getConsensus scheme) raw

def encodeLiveness : LivenessMsg Signature → List UInt8
  | .vote v => 1 :: putSignedVote scheme v
  | .polkaCertificate c => 2 :: putPolka scheme c
  | .skipRoundCertificate c => 3 :: putRoundCert scheme c

def getLiveness : Rd (LivenessMsg Signature) := do
  let tag ← Rd.u8
  match tag with
  | 1 => do
    let v ← getSignedVote scheme
    pure (.vote v)
  | 2 => do
    let c ← getPolka scheme
    pure (.polkaCertificate c)
  | 3 => do
    let c ← getRoundCert scheme
    pure (.skipRoundCertificate c)
  | _ => throw ⟨"bad liveness tag"⟩

def decodeLiveness (raw : List UInt8) : Except CodecError (LivenessMsg Signature) := decodeWith (getLiveness scheme) raw

def putContent : StreamContent Signature → List UInt8
  | .data part => 0 :: putBytes (encodePart scheme part)
  | .fin => [1]

def getContent : Rd (StreamContent Signature) := do
  let tag ← Rd.u8
  match tag with
  | 0 => do
    let part ← (do
      let inner ← Rd.bytes (maxValueBytes + 64)
      Reader.lift (decodePart scheme inner))
    pure (.data part)
  | 1 => pure .fin
  | _ => throw ⟨"bad stream content tag"⟩

def encodeStream (msg : StreamMessage Signature) : List UInt8 :=
  putBytes msg.streamId ++ (putU64 msg.sequence ++ putContent scheme msg.content)

def getStream : Rd (StreamMessage Signature) := do
  let streamId ← Rd.bytes 64
  let sequence ← Rd.u64
  let content ← getContent scheme
  pure ⟨streamId, sequence, content⟩

def decodeStream (raw : List UInt8) : Except CodecError (StreamMessage Signature) := decodeWith (getStream scheme) raw

def encodeProof (msg : ValidatorProof Signature) : List UInt8 :=
  putBytes msg.publicKey ++ (putBytes msg.peerId ++ putSig scheme msg.signature)

def getProof : Rd (ValidatorProof Signature) := do
  let publicKey ← Rd.bytes 64
  let peerId ← Rd.bytes 1024
  let signature ← Rd.sig scheme
  pure ⟨publicKey, peerId, signature⟩

def decodeProof (raw : List UInt8) : Except CodecError (ValidatorProof Signature) := decodeWith (getProof scheme) raw

def putDecided (v : RawDecidedValue Signature) : List UInt8 := putBytes v.valueBytes ++ putBytes (putExtCert scheme v.certificate)

/-- The length of a certificate has no limit of its own: its reader must use up exactly that many bytes. -/
def getNestedCert : Rd (ExtendedCertificate Signature) := do
  let inner ← (do
    let len ← Rd.u32
    Rd.take (toNat len))
  Reader.lift (decodeWith (getExtCert scheme) inner)

def getDecided : Rd (RawDecidedValue Signature) := do
  let valueBytes ← Rd.bytes (maxValueBytes + 64)
  let certificate ← getNestedCert scheme
  pure ⟨valueBytes, certificate⟩

def encodeResponse : Response Signature → List UInt8
  | .valueResponse startHeight values => 1 :: (putHeight startHeight ++ putList (putDecided scheme) values)

def getResponse : Rd (Response Signature) := do
  let tag ← Rd.u8
  match tag with
  | 1 => do
    let startHeight ← Rd.height
    let values ← getList "too many sync values" maxSyncValues (getDecided scheme)
    pure (.valueResponse startHeight values)
  | _ => throw ⟨"bad response tag"⟩

def decodeResponse (raw : List UInt8) : Except CodecError (Response Signature) := decodeWith (getResponse scheme) raw

def encodePolka (c : PolkaCertificate Signature) : List UInt8 := putPolka scheme c

def decodePolka (raw : List UInt8) : Except CodecError (PolkaCertificate Signature) := decodeWith (getPolka scheme) raw

end

section
variable {PeerId : Type} (peers : PeerIds PeerId)

def putPeerId (peer : PeerId) : List UInt8 := putBytes (peers.toBytes peer)

def Rd.peerId : Rd PeerId := do
  let bytes ← bytes 1024
  Reader.lift (Check.okOr ⟨"bad peer id"⟩ (peers.fromBytes bytes))

def encodeStatus (msg : Status PeerId) : List UInt8 :=
  putPeerId peers msg.peerId ++ (putHeight msg.tipHeight ++ putHeight msg.historyMinHeight)

def getStatus : Rd (Status PeerId) := do
  let peerId ← Rd.peerId peers
  let tipHeight ← Rd.height
  let historyMinHeight ← Rd.height
  pure ⟨peerId, tipHeight, historyMinHeight⟩

def decodeStatus (raw : List UInt8) : Except CodecError (Status PeerId) := decodeWith (getStatus peers) raw

end

def encodeRequest : Request → List UInt8
  | .valueRequest first last => 1 :: (putHeight first ++ putHeight last)

def getRequest : Rd Request := do
  let tag ← Rd.u8
  match tag with
  | 1 => do
    let first ← Rd.height
    let last ← Rd.height
    pure (.valueRequest first last)
  | _ => throw ⟨"bad request tag"⟩

def decodeRequest (raw : List UInt8) : Except CodecError Request := decodeWith getRequest raw

def putValidity : Validity → List UInt8
  | .valid => [0]
  | .invalid => [1]

def getValidity : Rd Validity := do
  let tag ← Rd.u8
  match tag with
  | 0 => pure .valid
  | 1 => pure .invalid
  | _ => throw ⟨"bad validity"⟩

def encodeValue (value : RoomValue) : List UInt8 := value.id.toList ++ putBytes value.bytes

def getValue : Rd RoomValue := do
  let id ← Rd.array 32
  let bytes ← Rd.bytes maxValueBytes
  pure ⟨id, bytes⟩

def decodeValue (raw : List UInt8) : Except CodecError RoomValue := decodeWith getValue raw

def encodeProposed (msg : ProposedValue) : List UInt8 :=
  putHeight msg.height ++ (putRound msg.round ++ (putRound msg.validRound ++ (putAddr msg.proposer ++
    (encodeValue msg.value ++ putValidity msg.validity))))

def getProposed : Rd ProposedValue := do
  let height ← Rd.height
  let round ← Rd.round
  let validRound ← Rd.round
  let proposer ← Rd.addr
  let value ← getValue
  let validity ← getValidity
  pure ⟨height, round, validRound, proposer, value, validity⟩

def decodeProposed (raw : List UInt8) : Except CodecError ProposedValue := decodeWith getProposed raw

end Valhalla.RoomsNode
