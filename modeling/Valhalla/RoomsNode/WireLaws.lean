import Valhalla.RoomsNode.Wire

/-!
# Round trips of the wire codec

What every decoder accepts, from one codec of each message. An accepted input is the encoding of what it decodes to;
and a bounded message comes back exactly when none of its rounds is the number that stands for `nil` on the wire.
-/

namespace Valhalla.RoomsNode
open FixedWidth Fallible

/-- The round that the wire takes for `nil`. -/
def Round.Reserved (r : Round) : Prop := r = .some maxRound

/-! ### Primitives -/

theorem decodeWith_eq_ok {α : Type} {get : Rd α} {put : α → List UInt8} {ok : α → Prop} {raw : List UInt8} {a : α}
    (h : Codec get put ok) : decodeWith get raw = .ok a ↔ raw = put a ∧ ok a := h.complete_eq_ok

theorem codec_u64 : Codec Rd.u64 putU64 fun _ => True := .int _

theorem codec_height : Codec Rd.height putHeight fun _ => True := .int _

theorem codec_addr : Codec Rd.addr putAddr fun _ => True := .array _ 20

theorem codec_id : Codec (Rd.array 32) Vector.toList fun _ => True := .array _ 32

theorem codec_round : Codec Rd.round putRound fun r => ¬ r.Reserved := by
  refine (Codec.int _).lastField Round.code fun v => .pure _ fun r => ?_
  by_cases hv : v = maxRound
  · rw [if_pos hv, hv]
    cases r with
    | nil => simp [Round.Reserved, Round.code]
    | some round => simp [Round.Reserved, Round.code]
  · rw [if_neg hv]
    constructor
    · rintro ⟨hr, rfl⟩
      cases r with
      | nil => exact absurd rfl hv
      | some round => rfl
    · rintro rfl
      exact ⟨fun he => hv (Round.some.inj he), rfl⟩

theorem codec_count {message : String} {limit : Nat} (h : limit < 2 ^ 32) :
    Codec (Rd.count message limit) (fun n => putU32 (UInt32.ofNat n)) (· ≤ limit) := .limited h

theorem codec_bytes {limit : Nat} (h : limit < 2 ^ 32) : Codec (Rd.bytes limit) putBytes (·.length ≤ limit) := by
  refine (codec_count h).bind List.length (fun _ hb => hb) fun n hn => (Codec.take _ n).congr (fun b => ?_) fun _ _ => rfl
  constructor
  · exact fun hb => hb.2
  · rintro rfl
    exact ⟨hn, rfl⟩

theorem codec_list {α : Type} {message : String} {limit : Nat} {get : Rd α} {put : α → List UInt8} {ok : α → Prop}
    (hlimit : limit < 2 ^ 32) (h : Codec get put ok) :
    Codec (getList message limit get) (putList put) fun l => l.length ≤ limit ∧ ∀ a ∈ l, ok a :=
  (Codec.counted (codec_count hlimit) fun _ => h).congr (fun _ => by rw [Codec.chained_of_forall]) fun _ _ => rfl

theorem codec_valueId : Codec Rd.valueId putValueId fun _ => True := by
  refine .tagged (fun o => by cases o <;> exact ⟨_, _, rfl⟩) fun t => ?_
  split
  · exact .constant (by rintro (_ | _) <;> simp [putValueId]) rfl
  · exact codec_id.map (by rintro (_ | _) <;> simp [putValueId]) fun _ => rfl
  · exact .none (fun _ => ⟨_, rfl⟩) fun o => by cases o <;> simp_all [putValueId, eq_comm]

theorem codec_voteType (message : String) : Codec (getVoteType message) putVoteType fun _ => True := by
  refine .tagged (fun v => by cases v <;> exact ⟨_, _, rfl⟩) fun t => ?_
  split
  · exact .constant (by rintro (_ | _) <;> simp [putVoteType]) rfl
  · exact .constant (by rintro (_ | _) <;> simp [putVoteType]) rfl
  · exact .none (fun _ => ⟨_, rfl⟩) fun v => by cases v <;> simp_all [putVoteType, eq_comm]

theorem codec_certType : Codec getCertType putCertType fun _ => True := by
  refine .tagged (fun v => by cases v <;> exact ⟨_, _, rfl⟩) fun t => ?_
  split
  · exact .constant (by rintro (_ | _) <;> simp [putCertType]) rfl
  · exact .constant (by rintro (_ | _) <;> simp [putCertType]) rfl
  · exact .none (fun _ => ⟨_, rfl⟩) fun v => by cases v <;> simp_all [putCertType, eq_comm]

theorem codec_validity : Codec getValidity putValidity fun _ => True := by
  refine .tagged (fun v => by cases v <;> exact ⟨_, _, rfl⟩) fun t => ?_
  split
  · exact .constant (by rintro (_ | _) <;> simp [putValidity]) rfl
  · exact .constant (by rintro (_ | _) <;> simp [putValidity]) rfl
  · exact .none (fun _ => ⟨_, rfl⟩) fun v => by cases v <;> simp_all [putValidity, eq_comm]

/-! ### Signed messages -/

section
variable {PublicKey Signature : Type} {scheme : Scheme PublicKey Signature} (hscheme : scheme.Lawful)
include hscheme

theorem codec_sig : Codec (Rd.sig scheme) (putSig scheme) fun _ => True := by
  refine (Codec.take _ 64).lift (fun s => ?_) fun bytes s hs => ?_
  · refine iff_of_true trivial ⟨scheme.encodeSignature s, hscheme.length s, ?_⟩
    rw [hscheme.decode_encode]
    rfl
  · exact hscheme.encode_decode bytes s (Check.okOr_eq_ok.1 hs)

theorem codec_extension : Codec (getExtension scheme) (putExtension scheme) fun _ => True := by
  refine .tagged (fun o => by cases o <;> exact ⟨_, _, rfl⟩) fun t => ?_
  split
  · exact .constant (by rintro (_ | _) <;> simp [putExtension]) rfl
  · refine (codec_sig hscheme).map ?_ fun _ => rfl
    rintro (_ | ⟨⟨⟩, s⟩) <;> simp [putExtension]
  · exact .none (fun _ => ⟨_, rfl⟩) fun o => by cases o <;> simp_all [putExtension, eq_comm]

theorem codec_vote : Codec (getVote scheme) (putVote scheme) fun v => ¬ v.round.Reserved :=
  (codec_voteType _).field (fun v : ExtendedVote Signature => v.voteType) fun _ =>
    codec_height.field (fun v : ExtendedVote Signature => v.height) fun _ =>
    codec_round.bind (fun v : ExtendedVote Signature => v.round) (fun _ h => h.1.1) fun _ hround =>
    codec_valueId.field (fun v : ExtendedVote Signature => v.value) fun _ =>
    codec_addr.field (fun v : ExtendedVote Signature => v.address) fun _ =>
    (codec_extension hscheme).lastField ExtendedVote.extension fun _ => .pure _ fun v => by
      obtain ⟨⟨voteType, height, round, value, address⟩, extension⟩ := v
      constructor
      · rintro ⟨⟨⟨⟨⟨⟨-, rfl⟩, rfl⟩, rfl⟩, rfl⟩, rfl⟩, rfl⟩
        rfl
      · rintro ⟨⟩
        exact ⟨⟨⟨⟨⟨⟨hround, rfl⟩, rfl⟩, rfl⟩, rfl⟩, rfl⟩, rfl⟩

theorem codec_signed {Message : Type} {get : Rd Message} {put : Message → List UInt8} {ok : Message → Prop}
    (h : Codec get put ok) : Codec (do let message ← get; let signature ← Rd.sig scheme; pure ⟨message, signature⟩)
      (fun m : SignedMessage Message Signature => put m.message ++ putSig scheme m.signature) fun m => ok m.message :=
  h.map₂ (codec_sig hscheme) (fun m => by
    constructor
    · exact fun hm => ⟨m.message, m.signature, hm, trivial, rfl⟩
    · rintro ⟨message, signature, hm, -, rfl⟩
      exact hm) fun _ _ => rfl

theorem codec_roundSig : Codec (getRoundSig scheme) (putRoundSig scheme) fun _ => True :=
  (codec_voteType _).field RoundSignature.voteType fun _ => codec_valueId.field RoundSignature.valueId fun _ =>
    codec_addr.field RoundSignature.address fun _ =>
    (codec_sig hscheme).lastField RoundSignature.signature fun _ => .pure _ fun s => by
      cases s
      simp [and_assoc]

theorem codec_polkaSig : Codec (getPolkaSig scheme) (putPolkaSig scheme) fun _ => True :=
  codec_addr.field PolkaSignature.address fun _ => (codec_sig hscheme).lastField PolkaSignature.signature fun _ => .pure _ fun s => by
      cases s
      simp

theorem codec_extSig : Codec (getExtSig scheme) (putExtSig scheme) fun _ => True :=
  codec_addr.field ExtendedCommitSignature.address fun _ => (codec_sig hscheme).field ExtendedCommitSignature.signature fun _ =>
    (codec_extension hscheme).lastField ExtendedCommitSignature.extension fun _ => .pure _ fun s => by
      cases s
      simp [and_assoc]

/-! ### Certificates -/

theorem codec_roundCert : Codec (getRoundCert scheme) (putRoundCert scheme) fun c =>
    c.roundSignatures.length ≤ maxSignatures ∧ ¬ c.round.Reserved :=
  codec_height.field RoundCertificate.height fun _ => codec_round.bind RoundCertificate.round
    (fun _ h => h.1.2) fun _ hround => codec_certType.field RoundCertificate.certType fun _ =>
    (codec_list (by decide) (codec_roundSig hscheme)).last RoundCertificate.roundSignatures
    (fun _ h => ⟨h.1.1.1.1, fun _ _ => trivial⟩) fun _ hsigs => .pure _ fun c => by
      constructor
      · rintro ⟨⟨⟨⟨-, rfl⟩, rfl⟩, rfl⟩, rfl⟩
        rfl
      · rintro rfl
        exact ⟨⟨⟨⟨⟨hsigs.1, hround⟩, rfl⟩, rfl⟩, rfl⟩, rfl⟩

theorem codec_polka : Codec (getPolka scheme) (putPolka scheme) fun c =>
    c.polkaSignatures.length ≤ maxSignatures ∧ ¬ c.round.Reserved :=
  codec_height.field PolkaCertificate.height fun _ => codec_round.bind PolkaCertificate.round
    (fun _ h => h.1.2) fun _ hround => codec_id.field PolkaCertificate.valueId fun _ =>
    (codec_list (by decide) (codec_polkaSig hscheme)).last PolkaCertificate.polkaSignatures
    (fun _ h => ⟨h.1.1.1.1, fun _ _ => trivial⟩) fun _ hsigs => .pure _ fun c => by
      constructor
      · rintro ⟨⟨⟨⟨-, rfl⟩, rfl⟩, rfl⟩, rfl⟩
        rfl
      · rintro rfl
        exact ⟨⟨⟨⟨⟨hsigs.1, hround⟩, rfl⟩, rfl⟩, rfl⟩, rfl⟩

theorem codec_extCert : Codec (getExtCert scheme) (putExtCert scheme) fun c =>
    c.commitSignatures.length ≤ maxSignatures ∧ ¬ c.round.Reserved :=
  codec_height.field ExtendedCommitCertificate.height fun _ => codec_round.bind ExtendedCommitCertificate.round
    (fun _ h => h.1.2) fun _ hround => codec_id.field ExtendedCommitCertificate.valueId fun _ =>
    (codec_list (by decide) (codec_extSig hscheme)).last ExtendedCommitCertificate.commitSignatures
    (fun _ h => ⟨h.1.1.1.1, fun _ _ => trivial⟩) fun _ hsigs => .pure _ fun c => by
      constructor
      · rintro ⟨⟨⟨⟨-, rfl⟩, rfl⟩, rfl⟩, rfl⟩
        rfl
      · rintro rfl
        exact ⟨⟨⟨⟨⟨hsigs.1, hround⟩, rfl⟩, rfl⟩, rfl⟩, rfl⟩

/-! ### Parts and streams -/

def RoomPart.Bounded : RoomPart Signature → Prop
  | .data bytes => bytes.length ≤ maxValueBytes
  | _ => True

def RoomPart.rounds : RoomPart Signature → List Round
  | .init header => [header.round, header.polRound]
  | _ => []

omit hscheme in
theorem codec_init : Codec getInit (fun init : ProposalInit => putHeight init.height ++ (putRound init.round ++
    (putRound init.polRound ++ putAddr init.proposer))) fun init => ¬ init.round.Reserved ∧ ¬ init.polRound.Reserved :=
  codec_height.field ProposalInit.height fun _ => codec_round.bind ProposalInit.round
    (fun _ h => h.1.1) fun _ hround => codec_round.bind ProposalInit.polRound (fun _ h => h.1.1.2) fun _ hpol =>
    codec_addr.lastField ProposalInit.proposer fun _ => .pure _ fun init => by
      constructor
      · rintro ⟨⟨⟨⟨-, rfl⟩, rfl⟩, rfl⟩, rfl⟩
        rfl
      · rintro rfl
        exact ⟨⟨⟨⟨⟨hround, hpol⟩, rfl⟩, rfl⟩, rfl⟩, rfl⟩

theorem codec_part : Codec (getPart scheme) (encodePart scheme) fun part =>
    part.Bounded ∧ ∀ r ∈ part.rounds, ¬ r.Reserved := by
  refine .tagged (fun part => by cases part <;> exact ⟨_, _, rfl⟩) fun t => ?_
  split
  · refine codec_init.map (fun part => ?_) fun _ => rfl
    cases part <;> simp [RoomPart.Bounded, RoomPart.rounds, encodePart]
  · refine (codec_bytes (by decide)).map (fun part => ?_) fun _ => rfl
    cases part <;> simp [RoomPart.Bounded, RoomPart.rounds, encodePart]
  · refine (codec_sig hscheme).map (fun part => ?_) fun _ => rfl
    rcases part with _ | _ | ⟨⟨s⟩⟩ <;> simp [RoomPart.Bounded, RoomPart.rounds, encodePart]
  · exact .none (fun _ => ⟨_, rfl⟩) fun part => by cases part <;> simp_all [encodePart, eq_comm]

theorem decodePart_eq_ok {raw : List UInt8} {part : RoomPart Signature} : decodePart scheme raw = .ok part ↔
    raw = encodePart scheme part ∧ part.Bounded ∧ ∀ r ∈ part.rounds, ¬ r.Reserved := decodeWith_eq_ok (codec_part hscheme)

theorem length_encodePart {part : RoomPart Signature} (h : part.Bounded) :
    (encodePart scheme part).length ≤ maxValueBytes + 64 := by
  have hlen : ∀ n : UInt32, (putU32 n).length = 4 := fun n => length_toBe n
  have hheight : ∀ n : UInt64, (putHeight n).length = 8 := fun n => length_toBe n
  cases part with
  | init init =>
    simp only [encodePart, List.length_cons, List.length_append, hheight, putRound, hlen, putAddr, Vector.length_toList,
      maxValueBytes]
    omega
  | data data =>
    have hdata : data.length ≤ maxValueBytes := h
    simp only [encodePart, putBytes, List.length_cons, List.length_append, hlen]
    omega
  | fin fin =>
    simp only [encodePart, putSig, List.length_cons, hscheme.length, maxValueBytes]
    omega

def StreamContent.Bounded : StreamContent Signature → Prop
  | .data part => part.Bounded
  | .fin => True

def StreamContent.rounds : StreamContent Signature → List Round
  | .data part => part.rounds
  | .fin => []

theorem codec_content : Codec (getContent scheme) (putContent scheme) fun content =>
    content.Bounded ∧ ∀ r ∈ content.rounds, ¬ r.Reserved := by
  refine .tagged (fun content => by cases content <;> exact ⟨_, _, rfl⟩) fun t => ?_
  split
  · have hpart : Codec (do
        let inner ← Rd.bytes (maxValueBytes + 64)
        Reader.lift (decodePart scheme inner)) (fun part => putBytes (encodePart scheme part)) fun part =>
          part.Bounded ∧ ∀ r ∈ part.rounds, ¬ r.Reserved := by
      refine (codec_bytes (by decide)).lift (fun part => ?_) fun inner part h => ?_
      · constructor
        · exact fun h => ⟨_, length_encodePart hscheme h.1, (decodePart_eq_ok hscheme).2 ⟨rfl, h⟩⟩
        · rintro ⟨inner, -, h⟩
          exact ((decodePart_eq_ok hscheme).1 h).2
      · rw [((decodePart_eq_ok hscheme).1 h).1]
    refine hpart.map (fun content => ?_) fun _ => rfl
    cases content <;> simp [StreamContent.Bounded, StreamContent.rounds, putContent]
  · refine .constant (fun content => ?_) rfl
    cases content <;> simp [StreamContent.Bounded, StreamContent.rounds, putContent]
  · exact .none (fun _ => ⟨_, rfl⟩) fun content => by cases content <;> simp_all [putContent, eq_comm]

structure StreamMessage.Bounded (msg : StreamMessage Signature) : Prop where
  streamId : msg.streamId.length ≤ 64
  content : msg.content.Bounded

theorem codec_stream : Codec (getStream scheme) (encodeStream scheme) fun msg =>
    msg.Bounded ∧ ∀ r ∈ msg.content.rounds, ¬ r.Reserved :=
  (codec_bytes (by decide)).bind StreamMessage.streamId (fun _ h => h.1.streamId) fun _ hid =>
    codec_u64.field StreamMessage.sequence fun _ => (codec_content hscheme).last StreamMessage.content
    (fun _ h => ⟨h.1.1.1.content, h.1.1.2⟩) fun _ hcontent => .pure _ fun msg => by
      constructor
      · rintro ⟨⟨⟨-, rfl⟩, rfl⟩, rfl⟩
        rfl
      · rintro rfl
        exact ⟨⟨⟨⟨⟨hid, hcontent.1⟩, hcontent.2⟩, rfl⟩, rfl⟩, rfl⟩

/-! ### Consensus and liveness messages -/

def SignedConsensusMsg.kept : SignedConsensusMsg Signature → SignedConsensusMsg Signature
  | .vote v => .vote v
  | .proposal p => .proposal { p with message := { p.message with value := ⟨p.message.value.id, []⟩ } }

def SignedConsensusMsg.rounds : SignedConsensusMsg Signature → List Round
  | .vote v => [v.message.round]
  | .proposal p => [p.message.round, p.message.polRound]

omit hscheme in
theorem codec_proposal : Codec getProposal putProposal fun p =>
    p.value.bytes = [] ∧ ¬ p.round.Reserved ∧ ¬ p.polRound.Reserved :=
  codec_height.field RoomProposal.height fun _ => codec_round.bind RoomProposal.round
    (fun _ h => h.1.2.1) fun _ hround => codec_round.bind RoomProposal.polRound (fun _ h => h.1.1.2.2) fun _ hpol =>
    codec_addr.field RoomProposal.proposer fun _ => codec_id.lastField (fun p : RoomProposal => p.value.id) fun _ => .pure _ fun p => by
      obtain ⟨height, round, ⟨id, bytes⟩, polRound, proposer⟩ := p
      constructor
      · rintro ⟨⟨⟨⟨⟨⟨hbytes, -⟩, rfl⟩, rfl⟩, rfl⟩, rfl⟩, rfl⟩
        have hnil : bytes = [] := hbytes
        rw [hnil]
      · rintro ⟨⟩
        exact ⟨⟨⟨⟨⟨⟨rfl, hround, hpol⟩, rfl⟩, rfl⟩, rfl⟩, rfl⟩, rfl⟩

theorem codec_consensus : Codec (getConsensus scheme) (encodeConsensus scheme) fun msg =>
    msg.kept = msg ∧ ∀ r ∈ msg.rounds, ¬ r.Reserved := by
  refine .tagged (fun msg => by cases msg <;> exact ⟨_, _, rfl⟩) fun t => ?_
  split
  · refine (codec_signed hscheme (codec_vote hscheme)).map (fun msg => ?_) fun _ => rfl
    cases msg <;> simp [SignedConsensusMsg.kept, SignedConsensusMsg.rounds, encodeConsensus]
  · refine (codec_signed hscheme codec_proposal).map (fun msg => ?_) fun _ => rfl
    rcases msg with _ | ⟨⟨height, round, ⟨id, bytes⟩, polRound, proposer⟩, signature⟩
    · simp [encodeConsensus]
    · have hbytes : [] = bytes ↔ bytes = [] := eq_comm
      simp [SignedConsensusMsg.kept, SignedConsensusMsg.rounds, encodeConsensus, hbytes]
  · exact .none (fun _ => ⟨_, rfl⟩) fun msg => by cases msg <;> simp_all [encodeConsensus, eq_comm]

def LivenessMsg.Bounded : LivenessMsg Signature → Prop
  | .vote _ => True
  | .polkaCertificate c => c.polkaSignatures.length ≤ maxSignatures
  | .skipRoundCertificate c => c.roundSignatures.length ≤ maxSignatures

def LivenessMsg.rounds : LivenessMsg Signature → List Round
  | .vote v => [v.message.round]
  | .polkaCertificate c => [c.round]
  | .skipRoundCertificate c => [c.round]

theorem codec_liveness : Codec (getLiveness scheme) (encodeLiveness scheme) fun msg =>
    msg.Bounded ∧ ∀ r ∈ msg.rounds, ¬ r.Reserved := by
  refine .tagged (fun msg => by cases msg <;> exact ⟨_, _, rfl⟩) fun t => ?_
  split
  · refine (codec_signed hscheme (codec_vote hscheme)).map (fun msg => ?_) fun _ => rfl
    cases msg <;> simp [LivenessMsg.Bounded, LivenessMsg.rounds, encodeLiveness]
  · refine (codec_polka hscheme).map (fun msg => ?_) fun _ => rfl
    cases msg <;> simp [LivenessMsg.Bounded, LivenessMsg.rounds, encodeLiveness]
  · refine (codec_roundCert hscheme).map (fun msg => ?_) fun _ => rfl
    cases msg <;> simp [LivenessMsg.Bounded, LivenessMsg.rounds, encodeLiveness]
  · exact .none (fun _ => ⟨_, rfl⟩) fun msg => by cases msg <;> simp_all [encodeLiveness, eq_comm]

/-! ### Proofs and decided values -/

structure ValidatorProof.Bounded (msg : ValidatorProof Signature) : Prop where
  publicKey : msg.publicKey.length ≤ 64
  peerId : msg.peerId.length ≤ 1024

theorem codec_proof : Codec (getProof scheme) (encodeProof scheme) ValidatorProof.Bounded :=
  (codec_bytes (by decide)).bind ValidatorProof.publicKey (fun _ h => h.publicKey) fun _ hkey =>
    (codec_bytes (by decide)).bind ValidatorProof.peerId (fun _ h => h.1.peerId) fun _ hpeer =>
    (codec_sig hscheme).lastField ValidatorProof.signature fun _ => .pure _ fun msg => by
      constructor
      · rintro ⟨⟨⟨-, rfl⟩, rfl⟩, rfl⟩
        rfl
      · rintro rfl
        exact ⟨⟨⟨⟨hkey, hpeer⟩, rfl⟩, rfl⟩, rfl⟩

theorem length_putExtCert {c : ExtendedCertificate Signature} (h : c.commitSignatures.length ≤ maxSignatures) :
    (putExtCert scheme c).length < 2 ^ 32 := by
  have hlen : ∀ n : UInt32, (putU32 n).length = 4 := fun n => length_toBe n
  have hheight : (putHeight c.height).length = 8 := length_toBe _
  have hsig : ∀ s ∈ c.commitSignatures, (putExtSig scheme s).length ≤ 149 := by
    intro s _
    cases he : s.extension <;>
      simp only [putExtSig, putAddr, putSig, putExtension, he, List.length_append, List.length_cons, List.length_nil,
        Vector.length_toList, hscheme.length] <;> omega
  have hsigs := Codec.length_flatMap_le hsig
  simp only [putExtCert, putList, putRound, List.length_append, hheight, hlen, Vector.length_toList]
  simp only [maxSignatures] at h
  omega

theorem codec_nestedCert : Codec (getNestedCert scheme) (fun c => putBytes (putExtCert scheme c)) fun c =>
    c.commitSignatures.length ≤ maxSignatures ∧ ¬ c.round.Reserved := by
  have hbytes : Codec (do
      let len ← Rd.u32
      Rd.take (toNat len)) putBytes (·.length < 2 ^ 32) := by
    refine (Codec.int _).field (fun b : List UInt8 => UInt32.ofNat b.length) fun len =>
      (Codec.take _ (toNat len)).congr (fun b => ?_) fun _ _ => rfl
    constructor
    · rintro ⟨hb, rfl⟩
      exact (UInt32.toNat_ofNat_of_lt' hb).symm
    · intro hb
      have hlt : toNat len < 2 ^ 32 := len.toNat_lt
      have hb' : b.length = len.toNat := hb
      refine ⟨by omega, ?_⟩
      rw [hb', UInt32.ofNat_toNat]
  refine hbytes.lift (fun c => ?_) fun inner c h => ?_
  · constructor
    · exact fun h => ⟨_, length_putExtCert hscheme h.1, (decodeWith_eq_ok (codec_extCert hscheme)).2 ⟨rfl, h⟩⟩
    · rintro ⟨inner, -, h⟩
      exact ((decodeWith_eq_ok (codec_extCert hscheme)).1 h).2
  · rw [((decodeWith_eq_ok (codec_extCert hscheme)).1 h).1]

structure RawDecidedValue.Bounded (v : RawDecidedValue Signature) : Prop where
  valueBytes : v.valueBytes.length ≤ maxValueBytes + 64
  signatures : v.certificate.commitSignatures.length ≤ maxSignatures

theorem codec_decided : Codec (getDecided scheme) (putDecided scheme) fun v =>
    v.Bounded ∧ ¬ v.certificate.round.Reserved :=
  (codec_bytes (by decide)).bind RawDecidedValue.valueBytes (fun _ h => h.1.valueBytes) fun _ hvalue =>
    (codec_nestedCert hscheme).last RawDecidedValue.certificate (fun _ h => ⟨h.1.1.signatures, h.1.2⟩) fun _ hcert =>
    .pure _ fun v => by
      constructor
      · rintro ⟨⟨-, rfl⟩, rfl⟩
        rfl
      · rintro rfl
        exact ⟨⟨⟨⟨hvalue, hcert.1⟩, hcert.2⟩, rfl⟩, rfl⟩

def Response.Bounded : Response Signature → Prop
  | .valueResponse _ values => values.length ≤ maxSyncValues ∧ ∀ v ∈ values, v.Bounded

def Response.rounds : Response Signature → List Round
  | .valueResponse _ values => values.map fun v => v.certificate.round

theorem codec_response : Codec (getResponse scheme) (encodeResponse scheme) fun msg =>
    msg.Bounded ∧ ∀ r ∈ msg.rounds, ¬ r.Reserved := by
  refine .tagged (fun msg => by cases msg; exact ⟨_, _, rfl⟩) fun t => ?_
  split
  · refine codec_height.map₂ (codec_list (by decide) (codec_decided hscheme)) (fun msg => ?_) fun _ _ => rfl
    obtain ⟨startHeight, values⟩ := msg
    simp [Response.Bounded, Response.rounds, encodeResponse, forall_and, and_assoc]
  · exact .none (fun _ => ⟨_, rfl⟩) fun msg => by cases msg; simp_all [encodeResponse, eq_comm]

end

/-! ### Messages without signatures -/

theorem codec_value : Codec getValue encodeValue fun value => value.bytes.length ≤ maxValueBytes :=
  codec_id.field RoomValue.id fun _ => (codec_bytes (by decide)).last RoomValue.bytes
    (fun _ h => h.1) fun _ hbytes => .pure _ fun value => by
      constructor
      · rintro ⟨⟨-, rfl⟩, rfl⟩
        rfl
      · rintro rfl
        exact ⟨⟨hbytes, rfl⟩, rfl⟩

theorem codec_proposed : Codec getProposed encodeProposed fun msg =>
    msg.value.bytes.length ≤ maxValueBytes ∧ ¬ msg.round.Reserved ∧ ¬ msg.validRound.Reserved :=
  codec_height.field ProposedValue.height fun _ => codec_round.bind ProposedValue.round
    (fun _ h => h.1.2.1) fun _ hround => codec_round.bind ProposedValue.validRound (fun _ h => h.1.1.2.2) fun _ hvalid =>
    codec_addr.field ProposedValue.proposer fun _ => codec_value.bind ProposedValue.value
    (fun _ h => h.1.1.1.1.1) fun _ hvalue => codec_validity.lastField ProposedValue.validity fun _ =>
    .pure _ fun msg => by
      constructor
      · rintro ⟨⟨⟨⟨⟨⟨-, rfl⟩, rfl⟩, rfl⟩, rfl⟩, rfl⟩, rfl⟩
        rfl
      · rintro rfl
        exact ⟨⟨⟨⟨⟨⟨⟨hvalue, hround, hvalid⟩, rfl⟩, rfl⟩, rfl⟩, rfl⟩, rfl⟩, rfl⟩

theorem codec_request : Codec getRequest encodeRequest fun _ => True := by
  refine .tagged (fun msg => by cases msg; exact ⟨_, _, rfl⟩) fun t => ?_
  split
  · refine codec_height.map₂ codec_height (fun msg => ?_) fun _ _ => rfl
    cases msg
    simp [encodeRequest]
  · exact .none (fun _ => ⟨_, rfl⟩) fun msg => by cases msg; simp_all [encodeRequest, eq_comm]

section
variable {PeerId : Type} {peers : PeerIds PeerId} (hpeers : peers.Lawful)
include hpeers

theorem codec_peerId : Codec (Rd.peerId peers) (putPeerId peers) fun _ => True := by
  refine (codec_bytes (by decide)).lift (fun peer => ?_) fun bytes peer h => ?_
  · refine iff_of_true trivial ⟨peers.toBytes peer, hpeers.length peer, ?_⟩
    rw [hpeers.from_to]
    rfl
  · rw [putPeerId, hpeers.to_from bytes peer (Check.okOr_eq_ok.1 h)]

theorem codec_status : Codec (getStatus peers) (encodeStatus peers) fun _ => True :=
  (codec_peerId hpeers).field Status.peerId fun _ => codec_height.field Status.tipHeight fun _ =>
    codec_height.lastField Status.historyMinHeight fun _ =>
    .pure _ fun msg => by
      cases msg
      simp [and_assoc]

end

/-! ### The laws -/

/-- A bounded message comes back, up to what its encoding drops, exactly when the wire tells its rounds apart; and
what is accepted is an encoding. -/
structure WireLaw {α : Type} (decode : List UInt8 → Except CodecError α) (encode : α → List UInt8) (bounded : α → Prop)
    (kept : α → α) (rounds : α → List Round) : Prop where
  roundTrip : ∀ m, bounded m → (decode (encode m) = .ok (kept m) ↔ ∀ r ∈ rounds m, r ≠ .some maxRound)
  canonical : ∀ raw m, decode raw = .ok m → encode m = raw

theorem WireLaw.of_codec {α : Type} {get : Rd α} {put : α → List UInt8} {bounded : α → Prop} {kept : α → α}
    {rounds : α → List Round} {ok : α → Prop} (h : Codec get put ok)
    (hok : ∀ m, bounded m → (ok (kept m) ↔ ∀ r ∈ rounds m, ¬ r.Reserved)) (hput : ∀ m, put (kept m) = put m) :
    WireLaw (decodeWith get) put bounded kept rounds := by
  refine ⟨fun m hm => ?_, fun raw m hm => ((decodeWith_eq_ok h).1 hm).1.symm⟩
  rw [decodeWith_eq_ok h, hput, hok m hm]
  exact and_iff_right rfl

structure WireLaws {PublicKey Signature PeerId : Type} (scheme : Scheme PublicKey Signature) (peers : PeerIds PeerId) :
    Prop where
  part : WireLaw (decodePart scheme) (encodePart scheme) RoomPart.Bounded id RoomPart.rounds
  consensus : WireLaw (decodeConsensus scheme) (encodeConsensus scheme) (fun _ => True) SignedConsensusMsg.kept
    SignedConsensusMsg.rounds
  liveness : WireLaw (decodeLiveness scheme) (encodeLiveness scheme) LivenessMsg.Bounded id LivenessMsg.rounds
  stream : WireLaw (decodeStream scheme) (encodeStream scheme) StreamMessage.Bounded id fun msg => msg.content.rounds
  proof : WireLaw (decodeProof scheme) (encodeProof scheme) ValidatorProof.Bounded id fun _ => []
  status : WireLaw (decodeStatus peers) (encodeStatus peers) (fun _ => True) id fun _ => []
  request : WireLaw decodeRequest encodeRequest (fun _ => True) id fun _ => []
  response : WireLaw (decodeResponse scheme) (encodeResponse scheme) Response.Bounded id Response.rounds
  proposed : WireLaw decodeProposed encodeProposed (fun msg => msg.value.bytes.length ≤ maxValueBytes) id fun msg =>
    [msg.round, msg.validRound]
  polka : WireLaw (decodePolka scheme) (encodePolka scheme) (fun c => c.polkaSignatures.length ≤ maxSignatures) id fun c =>
    [c.round]

theorem wire_codec_laws {PublicKey Signature PeerId : Type} {scheme : Scheme PublicKey Signature} {peers : PeerIds PeerId}
    (hscheme : scheme.Lawful) (hpeers : peers.Lawful) : WireLaws scheme peers where
  part := .of_codec (codec_part hscheme) (fun _ h => and_iff_right h) fun _ => rfl
  consensus := by
    refine .of_codec (codec_consensus hscheme) (fun m _ => ?_) fun m => by cases m <;> rfl
    cases m <;> exact and_iff_right rfl
  liveness := .of_codec (codec_liveness hscheme) (fun _ h => and_iff_right h) fun _ => rfl
  stream := .of_codec (codec_stream hscheme) (fun _ h => and_iff_right h) fun _ => rfl
  proof := .of_codec (codec_proof hscheme) (fun _ h => iff_of_true h (by simp)) fun _ => rfl
  status := .of_codec (codec_status hpeers) (fun _ h => iff_of_true h (by simp)) fun _ => rfl
  request := .of_codec codec_request (fun _ h => iff_of_true h (by simp)) fun _ => rfl
  response := .of_codec (codec_response hscheme) (fun _ h => and_iff_right h) fun _ => rfl
  proposed := .of_codec codec_proposed (fun _ h => by simp [h]) fun _ => rfl
  polka := .of_codec (codec_polka hscheme) (fun _ h => by simp [h]) fun _ => rfl

/-- Peer ids of Ed25519 keys: the key behind the head of its identity hash. -/
def samplePeers : PeerIds Bytes32 where
  toBytes key := [0, 36, 8, 1, 18, 32] ++ key.toList
  fromBytes bytes := if bytes.length = 38 ∧ bytes.take 6 = [0, 36, 8, 1, 18, 32] then some (bytesOf 32 (bytes.drop 6)) else none

theorem samplePeers_lawful : samplePeers.Lawful := by
  refine ⟨fun key => ?_, fun bytes key h => ?_, fun key => ?_⟩
  · have hlen : ([0, 36, 8, 1, 18, 32] ++ key.toList).length = 38 := by
      rw [List.length_append, key.length_toList]
      rfl
    refine (if_pos ⟨hlen, rfl⟩).trans ?_
    exact congrArg some (bytesOf_toList key)
  · obtain ⟨⟨hlen, htake⟩, hkey⟩ := Option.ite_none_right_eq_some.1 h
    have hdrop : (bytes.drop 6).length = 32 := by rw [List.length_drop, hlen]
    show [0, 36, 8, 1, 18, 32] ++ key.toList = bytes
    rw [← Option.some.inj hkey, toList_bytesOf hdrop, ← htake, List.take_append_drop]
  · show ([0, 36, 8, 1, 18, 32] ++ key.toList).length ≤ 1024
    rw [List.length_append, key.length_toList]
    decide

theorem sample_wire_codec_laws : WireLaws sampleScheme samplePeers := wire_codec_laws sampleScheme_lawful samplePeers_lawful

def lastRoundValue : ProposedValue := ⟨5, .some maxRound, .nil, sampleAddress, ⟨sampleValue, []⟩, .valid⟩

theorem last_round_not_kept : lastRoundValue.value.bytes.length ≤ maxValueBytes ∧
    decodeProposed (encodeProposed lastRoundValue) = .ok { lastRoundValue with round := .nil } ∧
    decodeProposed (encodeProposed lastRoundValue) ≠ .ok lastRoundValue := by
  have hdecode : decodeProposed (encodeProposed lastRoundValue) = .ok { lastRoundValue with round := .nil } :=
    (decodeWith_eq_ok codec_proposed).2 ⟨rfl, by decide, nofun, nofun⟩
  refine ⟨by decide, hdecode, fun h => ?_⟩
  rw [hdecode] at h
  cases h

end Valhalla.RoomsNode
