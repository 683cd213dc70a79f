import Valhalla.PrivateKernel.ArtifactCodec

/-!
# One byte string, one artifact

Everything that the private protocol and its kernel encode, in one type: what a decoder of one kind accepts is exactly
what the encoder of that kind returns, no other decoder accepts it, and no two statements have the same signing bytes.
-/

namespace Valhalla.PrivateKernel
open Fallible FixedWidth Check

/-! ### Artifacts -/

inductive ArtifactKind
  | anchor | enrollment | invitation | control | succession
  | joinRequest | invitePacket | controlPacket | sent | received | envelope | retained | checkpoint | offer | frame
deriving DecidableEq

section
variable (crypto : Hashing)

/-- The value of each kind. A signed record is one that `decode` builds: nobody has checked its signature. -/
inductive Artifact
  | anchor (record : SignedRoomAnchor crypto)
  | enrollment (record : SignedDeviceEnrollment crypto)
  | invitation (record : SignedInvitation crypto)
  | control (record : SignedOwnerControl crypto)
  | succession (record : SignedOwnerSuccession crypto)
  | joinRequest (join : JoinRequest crypto)
  | invitePacket (packet : InvitePacket crypto)
  | controlPacket (packet : ControlPacket crypto)
  | sent (sent : Sent)
  | received (received : Received crypto)
  | envelope (envelope : Envelope)
  | retained (retained : RetainedControl crypto)
  | checkpoint (checkpoint : Checkpoint crypto)
  | offer (offer : Offer crypto)
  | frame (frame : Frame)

end

namespace ArtifactKind

def maximum : ArtifactKind → Nat
  | .anchor | .enrollment | .invitation | .control | .succession => maxRecordBytes
  | .joinRequest | .invitePacket | .controlPacket | .envelope | .frame => maxPacket
  | .sent | .received | .retained => maxStoredRecordBytes - 40
  | .checkpoint => maxCheckpointBytes
  | .offer => maxOfferBytes

def magic : ArtifactKind → List UInt8
  | .anchor => recordPrefix ++ [1]
  | .enrollment => recordPrefix ++ [2]
  | .invitation => recordPrefix ++ [3]
  | .control => recordPrefix ++ [4]
  | .succession => recordPrefix ++ [5]
  | .joinRequest => joinRequestMagic
  | .invitePacket => invitePacketMagic
  | .controlPacket => controlPacketMagic
  | .sent => sentMagic
  | .received => receivedMagic
  | .envelope => envelopeMagic
  | .retained => retainedMagic
  | .checkpoint => checkpointMagic
  | .offer => offerMagic
  | .frame => frameMagic

def all : List ArtifactKind :=
  [.anchor, .enrollment, .invitation, .control, .succession, .joinRequest, .invitePacket, .controlPacket, .sent, .received, .envelope,
    .retained, .checkpoint, .offer, .frame]

theorem mem_all (kind : ArtifactKind) : kind ∈ all := by
  cases kind <;> decide

theorem magic_prefix {kind kind' : ArtifactKind} (h : kind.magic <+: kind'.magic) : kind = kind' := by
  have hall : ∀ kind ∈ all, ∀ kind' ∈ all, kind.magic <+: kind'.magic → kind = kind' := by decide
  exact hall kind kind.mem_all kind' kind'.mem_all h

end ArtifactKind

section
variable {crypto : Hashing}

namespace Artifact

def kind : Artifact crypto → ArtifactKind
  | .anchor _ => .anchor
  | .enrollment _ => .enrollment
  | .invitation _ => .invitation
  | .control _ => .control
  | .succession _ => .succession
  | .joinRequest _ => .joinRequest
  | .invitePacket _ => .invitePacket
  | .controlPacket _ => .controlPacket
  | .sent _ => .sent
  | .received _ => .received
  | .envelope _ => .envelope
  | .retained _ => .retained
  | .checkpoint _ => .checkpoint
  | .offer _ => .offer
  | .frame _ => .frame

/-- The encoder of each kind. Envelopes and frames are written by the functions that seal them, and checked as `seal` does. -/
def encode : Artifact crypto → Except Error (List UInt8)
  | .anchor record => .ok record.encode
  | .enrollment record => .ok record.encode
  | .invitation record => .ok record.encode
  | .control record => .ok record.encode
  | .succession record => .ok record.encode
  | .joinRequest join => join.encode
  | .invitePacket packet => packet.encode
  | .controlPacket packet => packet.encode
  | .sent item => item.encode
  | .received item => item.encode
  | .envelope item => do
    let _ ← Envelope.decode item.put
    .ok item.put
  | .retained item => item.encode
  | .checkpoint item => item.encode
  | .offer item => item.encode
  | .frame item => do
    let _ ← Frame.decode item.put
    .ok item.put

def decode (raw : List UInt8) : ArtifactKind → Except Error (Artifact crypto)
  | .anchor => .anchor <$> ofRecord (Signed.decode raw)
  | .enrollment => .enrollment <$> ofRecord (Signed.decode raw)
  | .invitation => .invitation <$> ofRecord (Signed.decode raw)
  | .control => .control <$> ofRecord (Signed.decode raw)
  | .succession => .succession <$> ofRecord (Signed.decode raw)
  | .joinRequest => .joinRequest <$> JoinRequest.decode raw
  | .invitePacket => .invitePacket <$> InvitePacket.decode raw
  | .controlPacket => .controlPacket <$> ControlPacket.decode raw
  | .sent => .sent <$> Sent.decode raw
  | .received => .received <$> Received.decode raw
  | .envelope => .envelope <$> Envelope.decode raw
  | .retained => .retained <$> RetainedControl.decode raw
  | .checkpoint => .checkpoint <$> Checkpoint.decode raw
  | .offer => .offer <$> Offer.decode raw
  | .frame => .frame <$> Frame.decode raw

def Complete : Artifact crypto → Prop
  | .joinRequest join => join.Complete
  | .invitePacket packet => packet.Complete
  | _ => True

theorem decode_iff {α : Type} {decoded : Except Error α} {encoded : α → Except Error (List UInt8)} {complete : α → Prop} {raw : List UInt8}
    {mk : α → Artifact crypto} (hmk : ∀ a b, mk a = mk b → a = b) (h : ∀ a, decoded = .ok a ↔ encoded a = .ok raw ∧ complete a) (a : α) :
    mk <$> decoded = .ok (mk a) ↔ encoded a = .ok raw ∧ complete a := by
  rw [← h]
  cases decoded with
  | error e => exact ⟨fun hd => (nomatch hd), fun hd => (nomatch hd)⟩
  | ok b => exact ⟨fun hd => congrArg _ (hmk _ _ (Except.ok.inj hd)), fun hd => congrArg (fun x => Except.ok (mk x)) (Except.ok.inj hd)⟩

theorem signed_iff {C : Type} {recordKind : RecordKind crypto C} {ok : C → Prop} (h : recordKind.Lawful ok) {raw : List UInt8}
    (record : Signed recordKind) : ofRecord (Signed.decode raw) = .ok record ↔ (.ok record.encode : Except Error (List UInt8)) = .ok raw ∧ True := by
  rw [ofRecord_eq_ok, h.decode_eq_ok, Except.ok.injEq, and_true, eq_comm]

theorem sealed_iff {α : Type} {put : α → List UInt8} {decoded : List UInt8 → Except Error α} {encodable : α → Prop} {raw : List UInt8}
    (hinj : ∀ a b, put a = put b → a = b) (h : ∀ raw a, decoded raw = .ok a ↔ raw = put a ∧ encodable a) (a : α) :
    decoded raw = .ok a ↔ (do let _ ← decoded (put a); .ok (put a) : Except Error (List UInt8)) = .ok raw ∧ True := by
  simp only [h, bind_eq_ok, Except.ok.injEq, and_true]
  constructor
  · rintro ⟨rfl, ha⟩
    exact ⟨a, ⟨rfl, ha⟩, rfl⟩
  · rintro ⟨b, ⟨hput, hb⟩, rfl⟩
    rw [hinj _ _ hput]
    exact ⟨rfl, hb⟩

theorem kind_of_decode {raw : List UInt8} {k : ArtifactKind} {x : Artifact crypto} (h : decode raw k = .ok x) : x.kind = k := by
  have hmap : ∀ {α : Type} {decoded : Except Error α} {mk : α → Artifact crypto}, (∀ a, (mk a).kind = k) → mk <$> decoded = .ok x → x.kind = k := by
    intro α decoded mk hk hd
    cases decoded with
    | error e => cases hd
    | ok a =>
      cases hd
      exact hk a
  cases k <;> exact hmap (fun _ => rfl) h

theorem decode_eq_ok {raw : List UInt8} {x : Artifact crypto} : decode raw x.kind = .ok x ↔ x.encode = .ok raw ∧ x.Complete := by
  cases x with
  | anchor record => exact decode_iff (fun _ _ h => by cases h; rfl) (signed_iff anchor_lawful) record
  | enrollment record => exact decode_iff (fun _ _ h => by cases h; rfl) (signed_iff enrollment_lawful) record
  | invitation record => exact decode_iff (fun _ _ h => by cases h; rfl) (signed_iff invitation_lawful) record
  | control record => exact decode_iff (fun _ _ h => by cases h; rfl) (signed_iff control_lawful) record
  | succession record => exact decode_iff (fun _ _ h => by cases h; rfl) (signed_iff succession_lawful) record
  | joinRequest item => exact decode_iff (fun _ _ h => by cases h; rfl) (fun _ => JoinRequest.decode_eq_ok) item
  | invitePacket item => exact decode_iff (fun _ _ h => by cases h; rfl) (fun _ => InvitePacket.decode_eq_ok) item
  | controlPacket item =>
    exact decode_iff (fun _ _ h => by cases h; rfl) (fun _ => ControlPacket.decode_eq_ok.trans (and_true _).symm.to_iff) item
  | sent item => exact decode_iff (fun _ _ h => by cases h; rfl) (fun _ => Sent.decode_eq_ok.trans (and_true _).symm.to_iff) item
  | received item => exact decode_iff (fun _ _ h => by cases h; rfl) (fun _ => Received.decode_eq_ok.trans (and_true _).symm.to_iff) item
  | envelope item => exact decode_iff (fun _ _ h => by cases h; rfl) (sealed_iff (fun _ _ => Envelope.put_inj) fun _ _ => Envelope.decode_eq_ok) item
  | retained item => exact decode_iff (fun _ _ h => by cases h; rfl) (fun _ => RetainedControl.decode_eq_ok.trans (and_true _).symm.to_iff) item
  | checkpoint item => exact decode_iff (fun _ _ h => by cases h; rfl) (fun _ => Checkpoint.decode_eq_ok.trans (and_true _).symm.to_iff) item
  | offer item => exact decode_iff (fun _ _ h => by cases h; rfl) (fun _ => Offer.decode_eq_ok.trans (and_true _).symm.to_iff) item
  | frame item => exact decode_iff (fun _ _ h => by cases h; rfl) (sealed_iff (fun _ _ => Frame.put_inj) fun _ _ => Frame.decode_eq_ok) item

structure Encodes (x : Artifact crypto) (raw : List UInt8) : Prop where
  magic : x.kind.magic <+: raw
  bounded : raw.length ≤ x.kind.maximum

theorem signed_encodes {C : Type} {recordKind : RecordKind crypto C} (record : Signed recordKind) :
    recordPrefix ++ [recordKind.kind] <+: record.encode ∧ record.encode.length ≤ maxRecordBytes := by
  refine ⟨?_, record.length_encode_le⟩
  rw [Signed.encode, RecordKind.unsigned, List.append_assoc, List.cons_append, ← List.singleton_append, ← List.append_assoc]
  exact List.prefix_append _ _

theorem encode_encodes {x : Artifact crypto} {raw : List UInt8} (h : x.encode = .ok raw) : x.Encodes raw := by
  cases x with
  | anchor record =>
    cases h
    exact ⟨(signed_encodes record).1, (signed_encodes record).2⟩
  | enrollment record =>
    cases h
    exact ⟨(signed_encodes record).1, (signed_encodes record).2⟩
  | invitation record =>
    cases h
    exact ⟨(signed_encodes record).1, (signed_encodes record).2⟩
  | control record =>
    cases h
    exact ⟨(signed_encodes record).1, (signed_encodes record).2⟩
  | succession record =>
    cases h
    exact ⟨(signed_encodes record).1, (signed_encodes record).2⟩
  | joinRequest item =>
    obtain ⟨rfl, hlen, -⟩ := JoinRequest.encode_eq_ok.1 h
    exact ⟨List.prefix_append _ _, hlen⟩
  | invitePacket item =>
    obtain ⟨rfl, hlen, -⟩ := InvitePacket.encode_eq_ok.1 h
    exact ⟨List.prefix_append _ _, hlen⟩
  | controlPacket item =>
    obtain ⟨rfl, hlen, -⟩ := ControlPacket.encode_eq_ok.1 h
    exact ⟨List.prefix_append _ _, hlen⟩
  | sent item =>
    obtain ⟨rfl, hitem⟩ := Sent.encode_eq_ok.1 h
    exact ⟨List.prefix_append _ _, hitem.length_le⟩
  | received item =>
    obtain ⟨rfl, hitem⟩ := Received.encode_eq_ok.1 h
    exact ⟨List.prefix_append _ _, hitem.length_le⟩
  | envelope item =>
    obtain ⟨other, hdecode, hraw⟩ := bind_eq_ok.1 h
    cases hraw
    exact ⟨List.prefix_append _ _, (Envelope.length_le_of_decode hdecode)⟩
  | retained item =>
    obtain ⟨rfl, hfits⟩ := RetainedControl.encode_eq_ok.1 h
    exact ⟨List.prefix_append _ _, hfits⟩
  | checkpoint item =>
    have hlen := Checkpoint.length_encode_le h
    cases item.encode_eq.symm.trans h
    refine ⟨?_, hlen⟩
    rw [CheckpointClaims.put, List.append_assoc]
    exact List.prefix_append _ _
  | offer item =>
    cases item.encode_eq.symm.trans h
    refine ⟨?_, item.length_put_le⟩
    rw [Offer.put, OfferClaims.put, List.append_assoc]
    exact List.prefix_append _ _
  | frame item =>
    obtain ⟨other, hdecode, hraw⟩ := bind_eq_ok.1 h
    cases hraw
    exact ⟨List.prefix_append _ _, Frame.length_le_of_decode hdecode⟩

theorem decode_unique {raw : List UInt8} {k k' : ArtifactKind} {x x' : Artifact crypto} (h : decode raw k = .ok x)
    (h' : decode raw k' = .ok x') : k = k' ∧ x = x' := by
  have hk := kind_of_decode h
  have hk' := kind_of_decode h'
  subst hk hk'
  have hmagic := (encode_encodes (decode_eq_ok.1 h).1).magic
  have hmagic' := (encode_encodes (decode_eq_ok.1 h').1).magic
  have hkind : x.kind = x'.kind := by
    rcases List.prefix_or_prefix_of_prefix hmagic hmagic' with hle | hle
    · exact ArtifactKind.magic_prefix hle
    · exact (ArtifactKind.magic_prefix hle).symm
  rw [hkind, h'] at h
  cases h
  exact ⟨rfl, rfl⟩

end Artifact

/-! ### Signing bytes -/

variable (crypto) in
/-- Everything that a key of a private room signs. -/
inductive Statement
  | anchor (claims : RoomAnchorClaims crypto)
  | enrollment (claims : DeviceEnrollmentClaims crypto)
  | invitation (claims : InvitationClaims crypto)
  | control (claims : OwnerControlClaims crypto)
  | succession (claims : OwnerSuccessionClaims crypto)
  | checkpoint (claims : CheckpointClaims crypto)
  | offer (claims : OfferClaims crypto)

namespace Statement

/-- `UnsignedX::new` followed by `signing_bytes`. -/
def ofClaims {C : Type} (recordKind : RecordKind crypto C) (claims : C) : Except Error (List UInt8) := do
  ofRecord (recordKind.validate claims)
  require .bounds (decide ((recordKind.unsigned claims).length + 64 ≤ maxRecordBytes))
  .ok (recordKind.signingBytes claims)

def signingBytes : Statement crypto → Except Error (List UInt8)
  | .anchor claims => ofClaims (anchorKind crypto) claims
  | .enrollment claims => ofClaims (enrollmentKind crypto) claims
  | .invitation claims => ofClaims (invitationKind crypto) claims
  | .control claims => ofClaims (controlKind crypto) claims
  | .succession claims => ofClaims (successionKind crypto) claims
  | .checkpoint claims => claims.signingBytes
  | .offer claims => claims.signingBytes

def kind : Statement crypto → ArtifactKind
  | .anchor _ => .anchor
  | .enrollment _ => .enrollment
  | .invitation _ => .invitation
  | .control _ => .control
  | .succession _ => .succession
  | .checkpoint _ => .checkpoint
  | .offer _ => .offer

end Statement

def ArtifactKind.signingHead (kind : ArtifactKind) : List UInt8 :=
  match kind with
  | .checkpoint => checkpointDomain ++ kind.magic
  | .offer => offerDomain ++ kind.magic
  | _ => signDomain ++ kind.magic

theorem ArtifactKind.signingHead_prefix {kind kind' : ArtifactKind} (h : kind.signingHead <+: kind'.signingHead) : kind = kind' := by
  have hall : ∀ kind ∈ all, ∀ kind' ∈ all, kind.signingHead <+: kind'.signingHead → kind = kind' := by decide +kernel
  exact hall kind kind.mem_all kind' kind'.mem_all h

namespace Statement

theorem ofClaims_eq_ok {C : Type} {recordKind : RecordKind crypto C} {claims : C} {raw : List UInt8} (h : ofClaims recordKind claims = .ok raw) :
    recordKind.validate claims = .ok () ∧ raw = signDomain ++ (recordPrefix ++ (recordKind.kind :: recordKind.put claims)) := by
  simp only [ofClaims, bind_eq_ok, ofRecord_eq_ok] at h
  obtain ⟨_, hvalid, _, -, hraw⟩ := h
  cases hraw
  exact ⟨hvalid, rfl⟩

theorem ofClaims_inj {C : Type} {recordKind : RecordKind crypto C} {ok : C → Prop} (hlawful : recordKind.Lawful ok) {claims claims' : C}
    {raw : List UInt8} (h : ofClaims recordKind claims = .ok raw) (h' : ofClaims recordKind claims' = .ok raw) : claims = claims' := by
  obtain ⟨hvalid, rfl⟩ := ofClaims_eq_ok h
  obtain ⟨hvalid', heq⟩ := ofClaims_eq_ok h'
  have hput := (List.cons.inj (List.append_cancel_left (List.append_cancel_left heq))).2
  exact (hlawful.codec.append_inj (hlawful.checked _ hvalid) (hlawful.checked _ hvalid') (congrArg (· ++ []) hput)).1

theorem checkpoint_eq_ok {claims : CheckpointClaims crypto} {raw : List UInt8} (h : claims.signingBytes = .ok raw) :
    claims.Encodable ∧ raw = checkpointDomain ++ claims.put := by
  simp only [CheckpointClaims.signingBytes, bind_eq_ok, CheckpointClaims.unsignedBytes_eq_ok] at h
  obtain ⟨_, ⟨rfl, hclaims⟩, hraw⟩ := h
  cases hraw
  exact ⟨hclaims, rfl⟩

theorem offer_eq_ok {claims : OfferClaims crypto} {raw : List UInt8} (h : claims.signingBytes = .ok raw) :
    claims.Encodable ∧ raw = offerDomain ++ claims.put := by
  simp only [OfferClaims.signingBytes, bind_eq_ok, OfferClaims.unsignedBytes_eq_ok] at h
  obtain ⟨_, ⟨rfl, hclaims⟩, hraw⟩ := h
  cases hraw
  exact ⟨hclaims, rfl⟩

theorem checkpoint_inj {claims claims' : CheckpointClaims crypto} {raw : List UInt8} (h : claims.signingBytes = .ok raw)
    (h' : claims'.signingBytes = .ok raw) : claims = claims' := by
  have hok : ∀ {claims : CheckpointClaims crypto}, claims.Encodable →
      ¬ (claims.roster.length = 0 ∨ claims.roster.length > maxMembers) ∧ ∀ e ∈ claims.roster, e.encode.length ≤ enrollmentBytes := fun hclaims =>
    ⟨fun hbad => hbad.elim hclaims.roster_length.1 (Nat.not_lt.2 hclaims.roster_length.2), hclaims.enrollments⟩
  obtain ⟨hclaims, rfl⟩ := checkpoint_eq_ok h
  obtain ⟨hclaims', heq⟩ := checkpoint_eq_ok h'
  exact (Checkpoint.codec_claims.append_inj (hok hclaims) (hok hclaims') (congrArg (· ++ []) (List.append_cancel_left heq))).1

theorem offer_inj {claims claims' : OfferClaims crypto} {raw : List UInt8} (h : claims.signingBytes = .ok raw)
    (h' : claims'.signingBytes = .ok raw) : claims = claims' := by
  have hok : ∀ {claims : OfferClaims crypto}, claims.Encodable → Offer.Readable claims := fun hclaims =>
    ⟨Nat.le_of_eq hclaims.anchor, Nat.le_of_eq hclaims.owner, Nat.not_lt.2 (OfferClaims.successions_of_validate hclaims.valid), hclaims.grants⟩
  obtain ⟨hclaims, rfl⟩ := offer_eq_ok h
  obtain ⟨hclaims', heq⟩ := offer_eq_ok h'
  exact (Offer.codec_claims.append_inj (hok hclaims) (hok hclaims') (congrArg (· ++ []) (List.append_cancel_left heq))).1

theorem signingBytes_head {s : Statement crypto} {raw : List UInt8} (h : s.signingBytes = .ok raw) : s.kind.signingHead <+: raw := by
  have hrecord : ∀ {C : Type} {recordKind : RecordKind crypto C} {claims : C}, ofClaims recordKind claims = .ok raw →
      signDomain ++ (recordPrefix ++ [recordKind.kind]) <+: raw := by
    intro C recordKind claims h
    obtain ⟨-, rfl⟩ := ofClaims_eq_ok h
    exact ⟨recordKind.put claims, by simp only [List.append_assoc, List.singleton_append]⟩
  cases s with
  | anchor claims => exact hrecord h
  | enrollment claims => exact hrecord h
  | invitation claims => exact hrecord h
  | control claims => exact hrecord h
  | succession claims => exact hrecord h
  | checkpoint claims =>
    obtain ⟨-, rfl⟩ := checkpoint_eq_ok h
    rw [CheckpointClaims.put, ← List.append_assoc]
    exact List.prefix_append _ _
  | offer claims =>
    obtain ⟨-, rfl⟩ := offer_eq_ok h
    rw [OfferClaims.put, ← List.append_assoc]
    exact List.prefix_append _ _

theorem signingBytes_inj {s s' : Statement crypto} {raw : List UInt8} (h : s.signingBytes = .ok raw) (h' : s'.signingBytes = .ok raw) : s = s' := by
  have hkind : s.kind = s'.kind := by
    rcases List.prefix_or_prefix_of_prefix (signingBytes_head h) (signingBytes_head h') with hle | hle
    · exact ArtifactKind.signingHead_prefix hle
    · exact (ArtifactKind.signingHead_prefix hle).symm
  cases s with
  | anchor claims =>
    cases s' with
    | anchor claims' => rw [ofClaims_inj anchor_lawful h h']
    | _ => cases hkind
  | enrollment claims =>
    cases s' with
    | enrollment claims' => rw [ofClaims_inj enrollment_lawful h h']
    | _ => cases hkind
  | invitation claims =>
    cases s' with
    | invitation claims' => rw [ofClaims_inj invitation_lawful h h']
    | _ => cases hkind
  | control claims =>
    cases s' with
    | control claims' => rw [ofClaims_inj control_lawful h h']
    | _ => cases hkind
  | succession claims =>
    cases s' with
    | succession claims' => rw [ofClaims_inj succession_lawful h h']
    | _ => cases hkind
  | checkpoint claims =>
    cases s' with
    | checkpoint claims' => rw [checkpoint_inj h h']
    | _ => cases hkind
  | offer claims =>
    cases s' with
    | offer claims' => rw [offer_inj h h']
    | _ => cases hkind

end Statement

/-- The codecs of a private room. A join request or an invitation packet that lacks an artifact is written but not read. -/
theorem codecs_canonical (crypto : Hashing) :
    (∀ (kind : ArtifactKind) (raw : List UInt8) (x : Artifact crypto),
      Artifact.decode raw kind = .ok x ↔ x.kind = kind ∧ x.encode = .ok raw ∧ x.Complete) ∧
    (∀ (x : Artifact crypto) (raw : List UInt8), x.encode = .ok raw → raw.length ≤ x.kind.maximum) ∧
    (∀ (kind kind' : ArtifactKind) (raw : List UInt8) (x x' : Artifact crypto),
      Artifact.decode raw kind = .ok x → Artifact.decode raw kind' = .ok x' → kind = kind' ∧ x = x') ∧
    ∀ (s s' : Statement crypto) (raw : List UInt8), s.signingBytes = .ok raw → s'.signingBytes = .ok raw → s = s' := by
  refine ⟨fun kind raw x => ?_, fun x raw h => (Artifact.encode_encodes h).bounded, fun _ _ _ _ _ h h' => Artifact.decode_unique h h',
    fun _ _ _ h h' => Statement.signingBytes_inj h h'⟩
  constructor
  · intro h
    have hkind := Artifact.kind_of_decode h
    subst hkind
    exact ⟨rfl, Artifact.decode_eq_ok.1 h⟩
  · rintro ⟨rfl, h⟩
    exact Artifact.decode_eq_ok.2 h

end

/-! ### A request without a key package -/

def sampleAccount : Bytes32 := beVector 32 0x66be7e332c7a453332bd9d0a7f7db055f5c5ef1a06ada66d98b39fb6810c473a
def sampleDevice : Bytes32 := beVector 32 0x0b513ad9b4924015ca0902ed079044d3ac5dbec2306f06948c10da8eb6e39f2d
def sampleEnrollmentSignature : Signature := beVector 64
  0x26e6e56405d4f32a3bfb72060da825831e48da73b9d68f4581e5bcf7a7d8e2e4edac8d90ea562b36e277d4b5f1acbd4ffe05a9ed696070a828ce0bb666dce10c

/-- Ed25519 on the enrollment of the request. Nothing is hashed. -/
def sampleHashing : Hashing where
  sha256 _ := Vector.replicate 32 1
  decodesKey key := key = sampleAccount || key = sampleDevice
  isWeak _ := false
  verifyStrict key message signature := key = sampleAccount && signature = sampleEnrollmentSignature &&
    message = signDomain ++ (recordPrefix ++ (2 :: (sampleAccount.toList ++ (sampleDevice.toList ++ (toBe (10 : UInt64) ++ toBe (20 : UInt64))))))
  sha256_ne_zero _ := by decide

def sampleEnrollment : SignedDeviceEnrollment sampleHashing where
  claims := ⟨⟨sampleAccount, by decide +kernel⟩, ⟨sampleDevice, by decide +kernel⟩, ⟨10, 20, by decide⟩⟩
  signature := sampleEnrollmentSignature
  valid := rfl
  fits := by decide +kernel

def sampleJoin : JoinRequest sampleHashing where
  scope := ⟨⟨Vector.replicate 32 1, by decide⟩, ⟨Vector.replicate 32 2, by decide⟩⟩
  enrollment := ⟨sampleEnrollment, by decide +kernel⟩
  package := []

/-- It is written, but nobody can read it. -/
theorem empty_package_unreadable : ¬ ∀ (crypto : Hashing) (x : Artifact crypto) (raw : List UInt8), x.encode = .ok raw →
    Artifact.decode raw x.kind = .ok x := by
  intro hall
  have hencode : (Artifact.joinRequest sampleJoin).encode = .ok sampleJoin.put :=
    JoinRequest.encode_eq_ok.2 ⟨rfl, by decide +kernel, Nat.zero_le _⟩
  exact (Artifact.decode_eq_ok.1 (hall sampleHashing _ _ hencode)).2 rfl

end Valhalla.PrivateKernel
