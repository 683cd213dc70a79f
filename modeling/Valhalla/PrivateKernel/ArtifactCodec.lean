import Valhalla.PrivateKernel.Contact

/-!
# Exchanged artifacts are canonical

Both round trips of join requests, invitation and control packets, contact offers and contact frames. The first two are
decoded under more conditions than they are encoded: artifacts that are not empty and no more handoffs than a chain may have.
-/

namespace Valhalla.PrivateKernel
open Fallible FixedWidth Check

section
variable {crypto : Hashing}

/-! ### Nested records -/

theorem codec_readProof {limit : Nat} (hl : limit < 2 ^ 32) :
    Codec (readProof limit : ReadM (OwnerSuccessionProof crypto)) (fun grant => putBlob grant.encode) fun grant => grant.encode.length ≤ limit :=
  (codec_readBlob hl).lift (fun grant => by simp [OwnerSuccessionProof.decode_eq_ok]) fun raw grant hd => by
    rw [OwnerSuccessionProof.decode_eq_ok.1 (ofRecord_eq_ok.1 hd)]

def putProofs (grants : List (OwnerSuccessionProof crypto)) : List UInt8 :=
  [UInt8.ofNat grants.length] ++ grants.flatMap fun grant => putBlob grant.encode

theorem codec_readProofs {limit : Nat} (hl : limit < 2 ^ 32) :
    Codec (readProofs limit : ReadM (List (OwnerSuccessionProof crypto))) putProofs
      fun grants => ¬ grants.length > maxSuccessions ∧ ∀ grant ∈ grants, grant.encode.length ≤ limit :=
  Checkpoint.codec_countedByte (codec_readProof hl) (p := fun n => n > maxSuccessions) fun n hn => by
    simp only [maxSuccessions] at hn
    omega

def Checkpoint.put (checkpoint : Checkpoint crypto) : List UInt8 := checkpoint.claims.put ++ checkpoint.signature.toList

theorem Checkpoint.length_put_le (checkpoint : Checkpoint crypto) : checkpoint.put.length ≤ maxRecordBytes :=
  length_encode_le checkpoint.encode_eq

theorem codec_readCheckpoint : Codec (readCheckpoint : ReadM (Checkpoint crypto)) (fun checkpoint => putBlob checkpoint.put) fun _ => True := by
  refine (codec_readBlob (by decide)).lift (fun checkpoint => ?_) fun raw checkpoint hd => ?_
  · simp only [true_iff]
    exact ⟨checkpoint.put, checkpoint.length_put_le, Checkpoint.decode_eq_ok.2 checkpoint.encode_eq⟩
  · have hraw := Checkpoint.decode_eq_ok.1 hd
    rw [checkpoint.encode_eq] at hraw
    cases hraw
    rfl

theorem Verified.length_encode_le {C : Type} {kind : RecordKind crypto C} (record : Verified kind) : record.encode.length ≤ maxRecordBytes :=
  record.signed.length_encode_le

theorem OwnerSuccessionProof.length_encode_le (grant : OwnerSuccessionProof crypto) : grant.encode.length ≤ maxRecordBytes :=
  grant.control.length_encode_le

/-! ### Join requests -/

namespace JoinRequest

def put (join : JoinRequest crypto) : List UInt8 :=
  joinRequestMagic ++ (putScope join.scope ++ (putBlob join.enrollment.encode ++ putBlob join.package))

/-- The package is there, as `decode` wants it. -/
def Complete (join : JoinRequest crypto) : Prop := join.package ≠ []

theorem codec_join : Codec (@read crypto) put fun join => join.package.length ≤ maxWireBytes ∧ join.package ≠ [] :=
  codec_readMagic.field (fun _ => ()) fun _ =>
    codec_readScope.field JoinRequest.scope fun _ =>
    (codec_readVerified enrollment_lawful (by decide)).bind JoinRequest.enrollment (fun join _ => join.enrollment.length_encode_le) fun _ _ =>
    (codec_readNonempty (by decide)).last JoinRequest.package (fun _ h => h.1.1.1) fun package hpackage => .pure _ fun ⟨_, _, _⟩ => by
      simp only [and_true]
      constructor
      · rintro ⟨⟨⟨-, rfl⟩, rfl⟩, rfl⟩
        rfl
      · rintro ⟨⟩
        exact ⟨⟨⟨hpackage, rfl⟩, rfl⟩, rfl⟩

theorem encode_eq_ok {join : JoinRequest crypto} {raw : List UInt8} :
    join.encode = .ok raw ↔ raw = join.put ∧ join.put.length ≤ maxPacket ∧ join.package.length ≤ maxWireBytes := by
  have hw : Writes _ join.put (join.package.length ≤ maxWireBytes) :=
    ((writes_bytes joinRequestMagic).bind ((writes_bytes (putScope join.scope)).bind
      ((@writes_blob maxRecordBytes (by decide) join.enrollment.encode).bind
      (@writes_blob maxWireBytes (by decide) join.package)))).congr (by simp [join.enrollment.length_encode_le]) fun _ => rfl
  rw [encode, hw.finish_eq_ok]

theorem decode_eq_ok {raw : List UInt8} {join : JoinRequest crypto} : decode raw = .ok join ↔ join.encode = .ok raw ∧ join.Complete := by
  simp only [decode, decodeWith_eq_ok codec_join, encode_eq_ok, Complete]
  constructor
  · rintro ⟨hraw, ⟨hfits, hne⟩, hlen⟩
    exact ⟨⟨hraw, hlen, hfits⟩, hne⟩
  · rintro ⟨⟨hraw, hlen, hfits⟩, hne⟩
    exact ⟨hraw, ⟨hfits, hne⟩, hlen⟩

end JoinRequest

/-! ### Invitation packets -/

namespace InvitePacket

def put (packet : InvitePacket crypto) : List UInt8 :=
  invitePacketMagic ++ (putBlob packet.invitation.encode ++ (putBlob packet.control.encode ++ (putBlob packet.owner.encode ++
    (putProofs packet.successions ++ (putBlob packet.member.encode ++ (putBlob packet.commit ++ (putBlob packet.welcome ++
    putBlob packet.checkpoint.put)))))))

/-- What `decode` wants beyond the sizes. -/
structure Complete (packet : InvitePacket crypto) : Prop where
  successions : packet.successions.length ≤ maxSuccessions
  commit : packet.commit ≠ []
  welcome : packet.welcome ≠ []

/-- What both directions want. -/
structure Sized (packet : InvitePacket crypto) : Prop where
  commit : packet.commit.length ≤ maxWireBytes
  welcome : packet.welcome.length ≤ maxWireBytes

theorem codec_invite : Codec (@read crypto) put fun packet => packet.Sized ∧ packet.Complete :=
  codec_readMagic.field (fun _ => ()) fun _ =>
    (codec_readVerified invitation_lawful (by decide)).bind InvitePacket.invitation (fun packet _ => packet.invitation.length_encode_le) fun _ _ =>
    (codec_readVerified control_lawful (by decide)).bind InvitePacket.control (fun packet _ => packet.control.length_encode_le) fun _ _ =>
    (codec_readVerified enrollment_lawful (by decide)).bind InvitePacket.owner (fun packet _ => packet.owner.length_encode_le) fun _ _ =>
    (codec_readProofs (by decide)).bind InvitePacket.successions
      (fun _ h => ⟨Nat.not_lt.2 h.1.1.1.1.2.successions, fun grant _ => grant.length_encode_le⟩) fun successions hsuccessions =>
    (codec_readVerified enrollment_lawful (by decide)).bind InvitePacket.member (fun packet _ => packet.member.length_encode_le) fun _ _ =>
    (codec_readNonempty (by decide)).bind InvitePacket.commit (fun _ h => ⟨h.1.1.1.1.1.1.1.commit, h.1.1.1.1.1.1.2.commit⟩) fun commit hcommit =>
    (codec_readNonempty (by decide)).bind InvitePacket.welcome (fun _ h => ⟨h.1.1.1.1.1.1.1.1.welcome, h.1.1.1.1.1.1.1.2.welcome⟩) fun welcome hwelcome =>
    codec_readCheckpoint.lastField InvitePacket.checkpoint fun _ => .pure _ fun ⟨_, _, _, _, _, _, _, _⟩ => by
      simp only [and_true]
      constructor
      · rintro ⟨⟨⟨⟨⟨⟨⟨⟨-, rfl⟩, rfl⟩, rfl⟩, rfl⟩, rfl⟩, rfl⟩, rfl⟩, rfl⟩
        rfl
      · rintro ⟨⟩
        refine ⟨⟨⟨⟨⟨⟨⟨⟨?_, rfl⟩, rfl⟩, rfl⟩, rfl⟩, rfl⟩, rfl⟩, rfl⟩, rfl⟩
        exact ⟨⟨hcommit.1, hwelcome.1⟩, Nat.not_lt.1 hsuccessions.1, hcommit.2, hwelcome.2⟩

theorem encode_eq_ok {packet : InvitePacket crypto} {raw : List UInt8} :
    packet.encode = .ok raw ↔ raw = packet.put ∧ packet.put.length ≤ maxPacket ∧ packet.successions.length < 256 ∧ packet.Sized := by
  have hcount : require Error.bounds (decide (packet.successions.length < 256)) = .ok () ↔ packet.successions.length < 256 := by simp
  have hproofs : Writes (do
      Writing.lift (require Error.bounds (decide (packet.successions.length < 256)))
      writeByte (UInt8.ofNat packet.successions.length)
      forM packet.successions fun grant => writeBlob maxRecordBytes grant.encode) (putProofs packet.successions)
      (packet.successions.length < 256) :=
    ((Writes.check hcount).bind ((writes_byte _).bind (Writes.forM (fun grant : OwnerSuccessionProof crypto =>
      @writes_blob maxRecordBytes (by decide) grant.encode) packet.successions))).congr
      (by simp [OwnerSuccessionProof.length_encode_le]) fun _ => rfl
  have hcheckpoint : Writes (do
      let checkpoint ← Writing.lift packet.checkpoint.encode
      writeBlob maxRecordBytes checkpoint) (putBlob packet.checkpoint.put) True :=
    (Writes.lift packet.checkpoint.encode_eq (@writes_blob maxRecordBytes (by decide) packet.checkpoint.put)).congr
      (by simp [packet.checkpoint.length_put_le]) fun _ => rfl
  have hw : Writes _ packet.put (packet.successions.length < 256 ∧ packet.Sized) :=
    ((writes_bytes invitePacketMagic).bind ((@writes_blob maxRecordBytes (by decide) packet.invitation.encode).bind
      ((@writes_blob maxRecordBytes (by decide) packet.control.encode).bind
      ((@writes_blob maxRecordBytes (by decide) packet.owner.encode).bind (hproofs.bind
      ((@writes_blob maxRecordBytes (by decide) packet.member.encode).bind
      ((@writes_blob maxWireBytes (by decide) packet.commit).bind
      ((@writes_blob maxWireBytes (by decide) packet.welcome).bind hcheckpoint)))))))).congr
      (by
        simp only [Verified.length_encode_le, true_and, and_true]
        exact ⟨fun ⟨hcount, hsized⟩ => ⟨hcount, hsized.commit, hsized.welcome⟩, fun ⟨hcount, hcommit, hwelcome⟩ => ⟨hcount, hcommit, hwelcome⟩⟩)
      fun _ => rfl
  simp only [bind_assoc] at hw
  rw [encode, hw.finish_eq_ok]

theorem decode_eq_ok {raw : List UInt8} {packet : InvitePacket crypto} :
    decode raw = .ok packet ↔ packet.encode = .ok raw ∧ packet.Complete := by
  simp only [decode, decodeWith_eq_ok codec_invite, encode_eq_ok]
  constructor
  · rintro ⟨hraw, ⟨hsized, hcomplete⟩, hlen⟩
    exact ⟨⟨hraw, hlen, Nat.lt_of_le_of_lt hcomplete.successions (by decide), hsized⟩, hcomplete⟩
  · rintro ⟨⟨hraw, hlen, -, hsized⟩, hcomplete⟩
    exact ⟨hraw, ⟨hsized, hcomplete⟩, hlen⟩

end InvitePacket

/-! ### Control packets -/

namespace ControlPacket

def sequence (packet : ControlPacket crypto) : UInt64 := packet.control.claims.sequence.toOption.getD 0

theorem sequence_eq (packet : ControlPacket crypto) : packet.control.claims.sequence = .ok packet.sequence := by
  obtain ⟨n, hn⟩ := packet.control.signed.sequence_eq_ok
  rw [sequence, show packet.control.claims.sequence = .ok n from hn]
  rfl

def putParts (parts : Option (VerifiedInvitation crypto) × Option (VerifiedDeviceEnrollment crypto)) : List UInt8 :=
  match parts with
  | (some invitation, some enrollment) => 1 :: (putBlob invitation.encode ++ putBlob enrollment.encode)
  | (none, some enrollment) => 2 :: putBlob enrollment.encode
  | (_, none) => [0]

def Paired (parts : Option (VerifiedInvitation crypto) × Option (VerifiedDeviceEnrollment crypto)) : Prop :=
  parts.1.isSome → parts.2.isSome

def put (packet : ControlPacket crypto) : List UInt8 :=
  controlPacketMagic ++ (toBe packet.sequence ++ (putBlob packet.control.encode ++ (putBlob packet.commit ++
    putParts (packet.invitation, packet.enrollment))))

theorem codec_parts : Codec (@readParts crypto) putParts Paired := by
  refine .tagged (fun parts => ?_) fun tag => ?_
  · obtain ⟨_ | _, _ | _⟩ := parts <;> exact ⟨_, _, rfl⟩
  by_cases h0 : tag = 0
  · rw [if_pos h0]
    subst h0
    refine .constant (fun parts => ?_) rfl
    obtain ⟨_ | _, _ | _⟩ := parts <;> simp [Paired, putParts]
  rw [if_neg h0]
  by_cases h1 : tag = 1
  · rw [if_pos h1]
    subst h1
    refine (codec_readVerified invitation_lawful (by decide)).map₂ (codec_readVerified enrollment_lawful (by decide)) (fun parts => ?_)
      fun _ _ => rfl
    obtain ⟨_ | _, _ | _⟩ := parts <;> simp [Paired, putParts, Verified.length_encode_le]
  rw [if_neg h1]
  by_cases h2 : tag = 2
  · rw [if_pos h2]
    subst h2
    refine (codec_readVerified enrollment_lawful (by decide)).map (fun parts => ?_) fun _ => rfl
    obtain ⟨_ | _, _ | _⟩ := parts <;> simp [Paired, putParts, Verified.length_encode_le]
  rw [if_neg h2]
  refine .none (fun bytes => ⟨_, rfl⟩) fun parts hparts => ?_
  obtain ⟨-, htag⟩ := hparts
  obtain ⟨_ | _, _ | _⟩ := parts <;> cases htag
  · exact h0 rfl
  · exact h2 rfl
  · exact h0 rfl
  · exact h1 rfl

structure Sized (packet : ControlPacket crypto) : Prop where
  commit : packet.commit.length ≤ maxWireBytes ∧ packet.commit ≠ []
  parts : Paired (packet.invitation, packet.enrollment)

theorem codec_control : Codec (@read crypto) put Sized := by
  refine codec_readMagic.field (fun _ => ()) fun _ =>
    codec_readU64.field ControlPacket.sequence fun sequence =>
    (codec_readVerified control_lawful (by decide)).bind ControlPacket.control (fun packet _ => packet.control.length_encode_le) fun control _ =>
    Codec.guard.bind (fun _ => ()) (fun packet h => ?_) fun _ hsequence =>
    (codec_readNonempty (by decide)).bind ControlPacket.commit (fun _ h => h.1.1.1.1.commit) fun commit hcommit =>
    codec_parts.last (fun packet : ControlPacket crypto => (packet.invitation, packet.enrollment)) (fun _ h => h.1.1.1.1.1.parts) fun parts hparts => .pure _ fun packet => ?_
  · obtain ⟨⟨-, hnumber⟩, rfl⟩ := h
    simp only [bind_eq_ok, ofRecord_eq_ok, packet.sequence_eq, Except.ok.injEq, require_eq_ok, beq_iff_eq]
    exact ⟨_, rfl, hnumber.symm⟩
  · obtain ⟨control', commit', invitation', enrollment'⟩ := packet
    simp only [and_true]
    constructor
    · rintro ⟨⟨⟨⟨-, -⟩, rfl⟩, rfl⟩, rfl⟩
      rfl
    · rintro ⟨⟩
      simp only [bind_eq_ok, ofRecord_eq_ok, require_eq_ok, beq_iff_eq] at hsequence
      obtain ⟨own, hown, rfl⟩ := hsequence
      refine ⟨⟨⟨⟨⟨hcommit, hparts⟩, ?_⟩, rfl⟩, rfl⟩, rfl⟩
      rw [ControlPacket.sequence, hown]
      rfl

theorem writes_parts (packet : ControlPacket crypto) :
    Writes packet.writeParts (putParts (packet.invitation, packet.enrollment)) (Paired (packet.invitation, packet.enrollment)) := by
  obtain ⟨control, commit, _ | invitation, _ | enrollment⟩ := packet
  · exact (writes_byte 0).congr (by simp [Paired]) fun _ => rfl
  · exact ((writes_byte 2).bind (@writes_blob maxRecordBytes (by decide) enrollment.encode)).congr
      (by simp [Paired, enrollment.length_encode_le]) fun _ => rfl
  · have hrefuse : (.error .policy : Except Error Unit) = .ok () ↔ False := ⟨fun h => (nomatch h), False.elim⟩
    exact (Writes.check hrefuse).congr (by simp [Paired]) False.elim
  · exact ((writes_byte 1).bind ((@writes_blob maxRecordBytes (by decide) invitation.encode).bind
      (@writes_blob maxRecordBytes (by decide) enrollment.encode))).congr
      (by simp [Paired, invitation.length_encode_le, enrollment.length_encode_le]) fun _ => rfl

theorem encode_eq_ok {packet : ControlPacket crypto} {raw : List UInt8} :
    packet.encode = .ok raw ↔ raw = packet.put ∧ packet.put.length ≤ maxPacket ∧ packet.Sized ∧ packet.validate = .ok () := by
  have hsequence : Writes (do
      let sequence ← Writing.lift (ofRecord packet.control.claims.sequence)
      writeU64 sequence) (toBe packet.sequence) True :=
    Writes.lift (ofRecord_eq_ok.2 packet.sequence_eq) (writes_u64 packet.sequence)
  have hw : Writes _ packet.put packet.Sized :=
    ((writes_bytes controlPacketMagic).bind (hsequence.bind ((@writes_blob maxRecordBytes (by decide) packet.control.encode).bind
      ((@writes_nonempty maxWireBytes (by decide) packet.commit).bind packet.writes_parts)))).congr
      (by
        simp only [packet.control.length_encode_le, true_and]
        exact ⟨fun h => ⟨h.commit, h.parts⟩, fun h => ⟨h.1, h.2⟩⟩) fun _ => rfl
  simp only [bind_assoc] at hw
  simp only [encode, bind_eq_ok, hw.finish_eq_ok]
  constructor
  · rintro ⟨_, hvalid, hraw, hlen, hsized⟩
    exact ⟨hraw, hlen, hsized, hvalid⟩
  · rintro ⟨hraw, hlen, hsized, hvalid⟩
    exact ⟨(), hvalid, hraw, hlen, hsized⟩

theorem decode_eq_ok {raw : List UInt8} {packet : ControlPacket crypto} : decode raw = .ok packet ↔ packet.encode = .ok raw := by
  simp only [decode, bind_eq_ok, decodeWith_eq_ok codec_control, encode_eq_ok]
  constructor
  · rintro ⟨found, ⟨hraw, hsized, hlen⟩, _, hvalid, hfound⟩
    cases hfound
    exact ⟨hraw, hlen, hsized, hvalid⟩
  · rintro ⟨hraw, hlen, hsized, hvalid⟩
    exact ⟨packet, ⟨hraw, hsized, hlen⟩, (), hvalid, rfl⟩

end ControlPacket

/-! ### Control envelopes -/

namespace Envelope

theorem put_inj {a b : Envelope} (h : a.put = b.put) : a = b := by
  obtain ⟨kind, prior, sequence, nonce, ciphertext⟩ := a
  obtain ⟨kind', prior', sequence', nonce', ciphertext'⟩ := b
  obtain ⟨hkind, h⟩ := List.cons.inj (List.append_cancel_left h)
  obtain ⟨rfl, h⟩ := (Codec.int ()).append_inj trivial trivial h
  obtain ⟨rfl, h⟩ := (Codec.int ()).append_inj trivial trivial h
  obtain ⟨rfl, h⟩ := (Codec.array () 24).append_inj trivial trivial h
  obtain ⟨-, rfl⟩ := (Codec.int ()).append_inj trivial trivial h
  cases hkind
  rfl

theorem length_le_of_decode {raw : List UInt8} {a : Envelope} (h : decode raw = .ok a) : raw.length ≤ maxPacket := by
  obtain ⟨rfl, -, hlen⟩ := (decodeWith_eq_ok codec_envelope).1 h
  exact hlen

end Envelope

/-! ### Contact offers -/

namespace OfferClaims

structure Encodable (claims : OfferClaims crypto) : Prop where
  valid : claims.validate = .ok ()
  anchor : claims.anchor.encode.length = anchorBytes
  owner : claims.owner.encode.length = enrollmentBytes
  grants : ∀ grant ∈ claims.successions, grant.encode.length ≤ successionBytes
  fits : claims.put.length ≤ maxOfferBytes - 64

theorem successions_of_validate {claims : OfferClaims crypto} (h : claims.validate = .ok ()) : claims.successions.length ≤ maxSuccessions := by
  by_cases hscope : claims.anchor.scope = claims.scope ∧ claims.anchor.claims.ownerAccount = claims.ownerAccount
  · simp only [validate, if_pos hscope, checkSuccessionChain, bind_eq_ok, require_eq_ok, decide_eq_true_eq] at h
    obtain ⟨_, -, _, -, owner, ⟨_, hlen, -⟩, -⟩ := h
    exact hlen
  · simp only [validate, if_neg hscope, bind_eq_ok] at h
    obtain ⟨_, -, _, -, _, hrefused, -⟩ := h
    cases hrefused

theorem unsignedBytes_eq_ok {claims : OfferClaims crypto} {raw : List UInt8} :
    claims.unsignedBytes = .ok raw ↔ raw = claims.put ∧ claims.Encodable := by
  simp only [unsignedBytes, bind_eq_ok, require_eq_ok, Bool.and_eq_true, beq_iff_eq, decide_eq_true_eq, forM_eq_ok]
  constructor
  · rintro ⟨_, hvalid, _, ⟨hanchor, howner⟩, _, -, _, hgrants, _, hfits, hraw⟩
    cases hraw
    exact ⟨rfl, hvalid, hanchor, howner, fun grant hmem => by simpa using hgrants grant hmem, hfits⟩
  · rintro ⟨rfl, hvalid, hanchor, howner, hgrants, hfits⟩
    exact ⟨(), hvalid, (), ⟨hanchor, howner⟩, (), Nat.lt_of_le_of_lt (successions_of_validate hvalid) (by decide), (),
      fun grant hmem => by simpa using hgrants grant hmem, (), hfits, rfl⟩

theorem encodable_of_verify {claims : OfferClaims crypto} {signature : Signature} (h : claims.verifySignature signature = .ok ()) :
    claims.Encodable := by
  simp only [verifySignature, signingBytes, bind_eq_ok] at h
  obtain ⟨_, ⟨raw, hraw, -⟩, -⟩ := h
  exact (unsignedBytes_eq_ok.1 hraw).2

end OfferClaims

namespace Offer

def put (offer : Offer crypto) : List UInt8 := offer.claims.put ++ offer.signature.toList

theorem encode_eq (offer : Offer crypto) : offer.encode = .ok offer.put := by
  simp only [encode, bind_eq_ok]
  exact ⟨(), offer.verified, _, OfferClaims.unsignedBytes_eq_ok.2 ⟨rfl, OfferClaims.encodable_of_verify offer.verified⟩, rfl⟩

theorem attach_eq_ok {claims : OfferClaims crypto} {signature : Signature} {offer : Offer crypto} :
    attach claims signature = .ok offer ↔ offer.claims = claims ∧ offer.signature = signature := by
  obtain ⟨claims', signature', verified⟩ := offer
  unfold attach
  constructor
  · intro h
    split at h <;> cases h
    exact ⟨rfl, rfl⟩
  · rintro ⟨rfl, rfl⟩
    split
    · rfl
    · rename_i he
      rw [verified] at he
      cases he

structure Readable (claims : OfferClaims crypto) : Prop where
  anchor : claims.anchor.encode.length ≤ anchorBytes
  owner : claims.owner.encode.length ≤ enrollmentBytes
  count : ¬ claims.successions.length > maxSuccessions
  grants : ∀ grant ∈ claims.successions, grant.encode.length ≤ successionBytes

theorem codec_head {ok : OfferClaims crypto → Prop}
    {f : Bytes32 → PrivateRoomScope → Key crypto → Key crypto → Bytes32 → Key crypto → UInt64 → Validity → ReadM (OfferClaims crypto)}
    {put : OfferClaims crypto → List UInt8}
    (h : ∀ id scope account device basis recipient issued validity, Codec (f id scope account device basis recipient issued validity) put
      fun claims => ok claims ∧ (⟨id, scope, account, device, basis, recipient, issued, validity⟩ :
        Bytes32 × PrivateRoomScope × Key crypto × Key crypto × Bytes32 × Key crypto × UInt64 × Validity) =
        (claims.id, claims.scope, claims.ownerAccount, claims.ownerDevice, claims.ownerBasis, claims.recipient, claims.issued, claims.validity)) :
    Codec (do
      let id ← readArray 32
      let scope ← readScope
      let account ← readKey
      let device ← readKey
      let basis ← readArray 32
      let recipient ← readKey
      let issued ← readU64
      let validity ← readValidity
      f id scope account device basis recipient issued validity) (fun claims => claims.putHead ++ put claims) ok := by
  refine (codec_readArray.field OfferClaims.id fun id =>
    codec_readScope.field OfferClaims.scope fun scope =>
    codec_readKey.field OfferClaims.ownerAccount fun account =>
    codec_readKey.field OfferClaims.ownerDevice fun device =>
    codec_readArray.field OfferClaims.ownerBasis fun basis =>
    codec_readKey.field OfferClaims.recipient fun recipient =>
    codec_readU64.field OfferClaims.issued fun issued =>
    codec_readValidity.field OfferClaims.validity fun validity =>
    (h id scope account device basis recipient issued validity).congr (fun claims => ?_) fun _ _ => rfl).congr (fun _ => Iff.rfl) fun claims _ => ?_
  · simp only [Prod.mk.injEq]
    constructor
    · rintro ⟨⟨⟨⟨⟨⟨⟨⟨hok, rfl⟩, rfl⟩, rfl⟩, rfl⟩, rfl⟩, rfl⟩, rfl⟩, rfl⟩
      exact ⟨hok, rfl, rfl, rfl, rfl, rfl, rfl, rfl, rfl⟩
    · rintro ⟨hok, rfl, rfl, rfl, rfl, rfl, rfl, rfl, rfl⟩
      exact ⟨⟨⟨⟨⟨⟨⟨⟨hok, rfl⟩, rfl⟩, rfl⟩, rfl⟩, rfl⟩, rfl⟩, rfl⟩, rfl⟩
  · simp only [OfferClaims.putHead, List.append_assoc]

theorem codec_claims : Codec (@readClaims crypto) OfferClaims.put Readable := by
  refine codec_readMagic.field (fun _ => ()) fun _ => codec_head fun id scope account device basis recipient issued validity =>
    (codec_readVerified anchor_lawful (by decide)).bind OfferClaims.anchor (fun _ h => h.1.1.anchor) fun anchor hanchor =>
    (codec_readVerified enrollment_lawful (by decide)).bind OfferClaims.owner (fun _ h => h.1.1.1.owner) fun owner howner =>
    (codec_readProofs (by decide)).bind OfferClaims.successions (fun _ h => ⟨h.1.1.1.1.count, h.1.1.1.1.grants⟩) fun grants hgrants =>
    codec_readArray.field OfferClaims.requestKey fun requestKey =>
    codec_readArray.lastField OfferClaims.responseKey fun responseKey => .pure _ fun claims => ?_
  obtain ⟨_, _, _, _, _, _, _, _, _, _, _, _, _⟩ := claims
  simp only [Prod.mk.injEq, and_true]
  constructor
  · rintro ⟨⟨⟨⟨⟨⟨-, rfl, rfl, rfl, rfl, rfl, rfl, rfl, rfl⟩, rfl⟩, rfl⟩, rfl⟩, rfl⟩, rfl⟩
    rfl
  · rintro ⟨⟩
    exact ⟨⟨⟨⟨⟨⟨⟨hanchor, howner, hgrants.1, hgrants.2⟩, rfl, rfl, rfl, rfl, rfl, rfl, rfl, rfl⟩, rfl⟩, rfl⟩, rfl⟩, rfl⟩, rfl⟩

theorem codec_offer : Codec (@read crypto) (fun r => r.1.put ++ r.2.toList) fun r => Readable r.1 :=
  codec_claims.pair codec_readArray |>.congr (fun _ => by simp) fun _ _ => rfl

theorem length_put_le (offer : Offer crypto) : offer.put.length ≤ maxOfferBytes := by
  have hfits := (OfferClaims.encodable_of_verify offer.verified).fits
  have hmax : 64 ≤ maxOfferBytes := by decide
  rw [put, List.length_append, Vector.length_toList]
  omega

theorem decode_eq_ok {raw : List UInt8} {offer : Offer crypto} : decode raw = .ok offer ↔ offer.encode = .ok raw := by
  rw [encode_eq, Except.ok.injEq]
  simp only [decode, bind_eq_ok, decodeWith_eq_ok codec_offer, Prod.exists, attach_eq_ok]
  constructor
  · rintro ⟨claims, signature, ⟨rfl, -, -⟩, rfl, rfl⟩
    rfl
  · rintro rfl
    have h := OfferClaims.encodable_of_verify offer.verified
    exact ⟨_, _, ⟨rfl, ⟨Nat.le_of_eq h.anchor, Nat.le_of_eq h.owner, Nat.not_lt.2 (OfferClaims.successions_of_validate h.valid), h.grants⟩,
      offer.length_put_le⟩, rfl, rfl⟩

end Offer

end

/-! ### Contact frames -/

namespace Frame

structure Encodable (frame : Frame) : Prop where
  direction : 1 ≤ frame.direction.toNat ∧ frame.direction.toNat ≤ 2
  named : frame.id ≠ zeroBytes
  request : frame.direction = 1 ↔ frame.request = zeroBytes
  fits : frame.cipher.length ≤ maxPacket - frameHeader
  long : 16 < frame.cipher.length

theorem put_eq (frame : Frame) : frame.put = frame.header ++ frame.cipher := by
  simp [put, header, putBlob]

theorem length_header (frame : Frame) : frame.header.length = frameHeader := by
  simp only [header, frameHeader, List.length_append, Vector.length_toList, length_toBe, bytes_uInt32, List.length_cons, List.length_nil]

theorem put_inj {a b : Frame} (h : a.put = b.put) : a = b := by
  obtain ⟨direction, id, request, nonce, cipher⟩ := a
  obtain ⟨direction', id', request', nonce', cipher'⟩ := b
  obtain ⟨hdirection, h⟩ := List.cons.inj (List.append_cancel_left h)
  obtain ⟨rfl, h⟩ := (Codec.array () 32).append_inj trivial trivial h
  obtain ⟨rfl, h⟩ := (Codec.array () 32).append_inj trivial trivial h
  obtain ⟨rfl, h⟩ := (Codec.array () 24).append_inj trivial trivial h
  obtain ⟨-, rfl⟩ := (Codec.int ()).append_inj trivial trivial h
  cases hdirection
  rfl

theorem codec_frame : Codec read put Encodable := by
  refine codec_readMagic.field (fun _ => ()) fun _ =>
    codec_readByte.field Frame.direction fun direction =>
    Codec.guard.bind (fun _ => ()) (fun frame h => ?_) fun _ hdirection =>
    codec_readArray.field Frame.id fun id =>
    Codec.guard.bind (fun _ => ()) (fun frame h => ?_) fun _ hnamed =>
    codec_readArray.field Frame.request fun request =>
    Codec.guard.bind (fun _ => ()) (fun frame h => ?_) fun _ hrequest =>
    codec_readArray.field Frame.nonce fun _ =>
    (codec_readBlob (by decide)).last Frame.cipher (fun _ h => ?_) fun cipher hcipher =>
    (Codec.guard.last (fun _ => ()) (fun frame h => ?_) fun _ hlong => .pure _ fun frame => ?_)
  · simpa [← h.2] using h.1.1.direction
  · simpa [← h.2] using h.1.1.1.1.named
  · have hiff := h.1.1.1.1.1.1.request
    obtain ⟨⟨⟨⟨⟨⟨-, -⟩, rfl⟩, -⟩, -⟩, -⟩, rfl⟩ := h
    by_cases hdirection : frame.direction = 1
    · simp [hdirection, hiff.1 hdirection]
    · simp [hdirection, mt hiff.2 hdirection]
  · exact h.1.1.1.1.1.1.1.1.fits
  · simpa [← h.2] using h.1.1.1.1.1.1.1.1.1.long
  · obtain ⟨_, _, _, _, _⟩ := frame
    simp only [and_true]
    constructor
    · rintro ⟨⟨⟨⟨⟨-, rfl⟩, rfl⟩, rfl⟩, rfl⟩, rfl⟩
      rfl
    · rintro ⟨⟩
      refine ⟨⟨⟨⟨⟨⟨by simpa using hdirection, by simpa using hnamed, ?_, hcipher, by simpa using hlong⟩, rfl⟩, rfl⟩, rfl⟩, rfl⟩, rfl⟩
      simp only [require_eq_ok, beq_iff_eq] at hrequest
      rw [Bool.eq_iff_iff] at hrequest
      simpa using hrequest

theorem length_le_of_decode {raw : List UInt8} {frame : Frame} (h : decode raw = .ok frame) : raw.length ≤ maxPacket := by
  obtain ⟨rfl, -, hlen⟩ := (decodeWith_eq_ok codec_frame).1 h
  exact hlen

theorem decode_eq_ok {raw : List UInt8} {frame : Frame} : decode raw = .ok frame ↔ raw = frame.put ∧ frame.Encodable := by
  simp only [decode, decodeWith_eq_ok codec_frame]
  constructor
  · rintro ⟨rfl, h, -⟩
    exact ⟨rfl, h⟩
  · rintro ⟨rfl, h⟩
    refine ⟨rfl, h, ?_⟩
    have hl := h.fits
    rw [put_eq, List.length_append, length_header]
    have hm : frameHeader ≤ maxPacket := by decide
    omega

end Frame

end Valhalla.PrivateKernel
