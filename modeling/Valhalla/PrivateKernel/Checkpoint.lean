import Valhalla.PrivateKernel.Codec

/-!
# Owner-signed joining checkpoints (`checkpoint.rs`)

A roster endorsement for a fresh device: the claims, their canonical bytes and the owner's signature.
-/

namespace Valhalla.PrivateKernel
open Fallible FixedWidth Check

def maxCheckpointBytes : Nat := 4096
def checkpointMagic : List UInt8 := [86, 72, 80, 75, 82, 79, 83, 84, 69, 82, 1]
def checkpointDomain : List UInt8 := "vhalla/private-kernel/roster-checkpoint/v1".toUTF8.toList ++ [0]
def enrollmentBytes : Nat := 150

structure CheckpointClaims (crypto : Hashing) where
  scope : PrivateRoomScope
  owner : Key crypto
  invitation : InvitationId
  parent : ControlFloor
  accepted : ControlFloor
  epoch : UInt64
  commit : CommitDigest
  welcome : WelcomeDigest
  groupContext : Bytes32
  roster : List (VerifiedDeviceEnrollment crypto)
deriving DecidableEq

variable {crypto : Hashing}

def Verified.device (enrollment : VerifiedDeviceEnrollment crypto) : Key crypto := enrollment.claims.device

def sortedRoster (roster : List (VerifiedDeviceEnrollment crypto)) : Bool :=
  ascendingBy compare (roster.map (·.device.bytes))

namespace CheckpointClaims

def validate (claims : CheckpointClaims crypto) : Except Error Unit := do
  require .bounds (!claims.roster.isEmpty && decide (claims.roster.length ≤ maxMembers))
  let next ← ofRecord claims.parent.nextSequence
  require .encoding (claims.accepted.sequence == next && claims.epoch == claims.accepted.sequence &&
    claims.groupContext != zeroBytes)
  require .encoding (sortedRoster claims.roster)
  require .policy (claims.roster.any (·.device == claims.owner))

def put (claims : CheckpointClaims crypto) : List UInt8 :=
  checkpointMagic ++ (putScope claims.scope ++ (claims.owner.bytes.toList ++ (claims.invitation.bytes.toList ++
    (putFloor claims.parent ++ (putFloor claims.accepted ++ (toBe claims.epoch ++ (claims.commit.bytes.toList ++
    (claims.welcome.bytes.toList ++ (claims.groupContext.toList ++ ([UInt8.ofNat claims.roster.length] ++
    claims.roster.flatMap fun enrollment => putBlob enrollment.encode))))))))))

def unsignedBytes (claims : CheckpointClaims crypto) : Except Error (List UInt8) := do
  claims.validate
  Writing.finish (maxCheckpointBytes - 64) do
    writeBytes checkpointMagic
    writeBytes (putScope claims.scope)
    writeBytes claims.owner.bytes.toList
    writeBytes claims.invitation.bytes.toList
    writeFloor claims.parent
    writeFloor claims.accepted
    writeU64 claims.epoch
    writeBytes claims.commit.bytes.toList
    writeBytes claims.welcome.bytes.toList
    writeBytes claims.groupContext.toList
    writeByte (UInt8.ofNat claims.roster.length)
    forM claims.roster fun enrollment => writeBlob enrollmentBytes enrollment.encode

def signingBytes (claims : CheckpointClaims crypto) : Except Error (List UInt8) := do
  let raw ← claims.unsignedBytes
  .ok (checkpointDomain ++ raw)

/-- `verify`: the key was parsed when the claims were built. -/
def verify (claims : CheckpointClaims crypto) (signature : Signature) : Except Error Unit := do
  let message ← claims.signingBytes
  require .authentication (crypto.verifyStrict claims.owner.bytes message signature)

end CheckpointClaims

structure Checkpoint (crypto : Hashing) where
  claims : CheckpointClaims crypto
  signature : Signature
  verified : claims.verify signature = .ok ()
deriving DecidableEq

namespace Checkpoint

/-- `UnsignedCheckpoint::attach`, and the end of `decode`. -/
def attach (claims : CheckpointClaims crypto) (signature : Signature) : Except Error (Checkpoint crypto) :=
  match h : claims.verify signature with
  | .ok () => .ok ⟨claims, signature, h⟩
  | .error e => .error e

def encode (checkpoint : Checkpoint crypto) : Except Error (List UInt8) := do
  let raw ← checkpoint.claims.unsignedBytes
  .ok (raw ++ checkpoint.signature.toList)

def readRoster : ReadM (List (VerifiedDeviceEnrollment crypto)) := do
  let count ← readByte
  if count.toNat = 0 ∨ count.toNat > maxMembers then throw .bounds
  else Reader.replicate (readVerified (enrollmentKind crypto) enrollmentBytes) count.toNat

def readClaims : ReadM (CheckpointClaims crypto) := do
  readMagic checkpointMagic
  let scope ← readScope
  let owner ← readKey
  let invitation ← readIdentifier .invitation
  let parent ← readFloor
  let accepted ← readFloor
  let epoch ← readU64
  let commit ← readIdentifier .commit
  let welcome ← readIdentifier .welcome
  let groupContext ← readArray 32
  let roster ← readRoster
  pure ⟨scope, owner, invitation, parent, accepted, epoch, commit, welcome, groupContext, roster⟩

def read : ReadM (CheckpointClaims crypto × Signature) := do
  let claims ← readClaims
  let signature ← readArray 64
  pure (claims, signature)

def decode (raw : List UInt8) : Except Error (Checkpoint crypto) := do
  let (claims, signature) ← decodeWith maxCheckpointBytes read raw
  attach claims signature

/-! ### Canonical bytes -/

theorem attach_eq_ok {claims : CheckpointClaims crypto} {signature : Signature} {checkpoint : Checkpoint crypto} :
    attach claims signature = .ok checkpoint ↔ checkpoint.claims = claims ∧ checkpoint.signature = signature := by
  obtain ⟨claims', signature', verified⟩ := checkpoint
  unfold attach
  constructor
  · intro h
    split at h <;> cases h
    exact ⟨rfl, rfl⟩
  · rintro ⟨rfl, rfl⟩
    split
    · rfl
    · rename_i he
      rw [verified] at he
      cases he

end Checkpoint

structure CheckpointClaims.Encodable (claims : CheckpointClaims crypto) : Prop where
  valid : claims.validate = .ok ()
  enrollments : ∀ e ∈ claims.roster, e.encode.length ≤ enrollmentBytes
  fits : claims.put.length ≤ maxCheckpointBytes - 64

theorem CheckpointClaims.unsignedBytes_eq_ok {claims : CheckpointClaims crypto} {raw : List UInt8} :
    claims.unsignedBytes = .ok raw ↔ raw = claims.put ∧ claims.Encodable := by
  have hw : Writes _ claims.put (∀ e ∈ claims.roster, e.encode.length ≤ enrollmentBytes) :=
    ((writes_bytes checkpointMagic).bind ((writes_bytes (putScope claims.scope)).bind
      ((writes_bytes claims.owner.bytes.toList).bind ((writes_bytes claims.invitation.bytes.toList).bind
      ((writes_floor claims.parent).bind ((writes_floor claims.accepted).bind ((writes_u64 claims.epoch).bind
      ((writes_bytes claims.commit.bytes.toList).bind ((writes_bytes claims.welcome.bytes.toList).bind
      ((writes_bytes claims.groupContext.toList).bind ((writes_byte (UInt8.ofNat claims.roster.length)).bind
      (Writes.forM (fun e : VerifiedDeviceEnrollment crypto => @writes_blob enrollmentBytes (by decide) e.encode)
        claims.roster)))))))))))).congr (by simp) fun _ => rfl
  simp only [unsignedBytes, bind_eq_ok, hw.finish_eq_ok]
  constructor
  · rintro ⟨_, hv, rfl, hlen, he⟩
    exact ⟨rfl, hv, he, hlen⟩
  · rintro ⟨rfl, hv, he, hlen⟩
    exact ⟨(), hv, rfl, hlen, he⟩

theorem CheckpointClaims.encodable_of_verify {claims : CheckpointClaims crypto} {signature : Signature}
    (h : claims.verify signature = .ok ()) : claims.Encodable := by
  simp only [verify, signingBytes, bind_eq_ok] at h
  obtain ⟨_, ⟨raw, hraw, -⟩, -⟩ := h
  exact (unsignedBytes_eq_ok.1 hraw).2

theorem CheckpointClaims.Encodable.roster_length {claims : CheckpointClaims crypto} (h : claims.Encodable) :
    claims.roster.length ≠ 0 ∧ claims.roster.length ≤ maxMembers := by
  have hv := h.valid
  simp only [CheckpointClaims.validate, bind_eq_ok, require_eq_ok, Bool.and_eq_true, decide_eq_true_eq] at hv
  obtain ⟨_, ⟨hne, hle⟩, -⟩ := hv
  refine ⟨fun h0 => ?_, hle⟩
  rw [List.eq_nil_of_length_eq_zero h0] at hne
  cases hne

namespace Checkpoint

theorem encode_eq (checkpoint : Checkpoint crypto) :
    checkpoint.encode = .ok (checkpoint.claims.put ++ checkpoint.signature.toList) := by
  simp only [encode, bind_eq_ok]
  exact ⟨_, CheckpointClaims.unsignedBytes_eq_ok.2 ⟨rfl, CheckpointClaims.encodable_of_verify checkpoint.verified⟩, rfl⟩

theorem codec_countedByte {α : Type} {get : ReadM α} {put : α → List UInt8} {ok : α → Prop} (h : Codec get put ok)
    {p : Nat → Prop} [DecidablePred p] (hp : ∀ n, ¬ p n → n < 256) :
    Codec (do
      let count ← readByte
      if p count.toNat then throw .bounds else Reader.replicate get count.toNat)
      (fun l => [UInt8.ofNat l.length] ++ l.flatMap put) fun l => ¬ p l.length ∧ ∀ a ∈ l, ok a := by
  refine codec_readByte.field (fun l : List α => UInt8.ofNat l.length) fun count => ?_
  by_cases hcount : p count.toNat
  · rw [if_pos hcount]
    refine .none (fun bytes => ⟨_, rfl⟩) fun l hl => ?_
    obtain ⟨⟨hl, -⟩, rfl⟩ := hl
    rw [UInt8.toNat_ofNat_of_lt' (hp _ hl)] at hcount
    exact hl hcount
  · rw [if_neg hcount]
    refine (Codec.many (fun _ => h) count.toNat ()).congr (fun l => ?_) fun _ _ => rfl
    rw [Codec.chained_of_forall]
    constructor
    · rintro ⟨⟨hl, ho⟩, rfl⟩
      exact ⟨(UInt8.toNat_ofNat_of_lt' (hp _ hl)).symm, ho⟩
    · rintro ⟨hl, ho⟩
      exact ⟨⟨hl ▸ hcount, ho⟩, hl ▸ UInt8.ofNat_toNat⟩

theorem codec_roster : Codec (@readRoster crypto)
    (fun roster => [UInt8.ofNat roster.length] ++ roster.flatMap fun e => putBlob e.encode)
    fun roster => ¬ (roster.length = 0 ∨ roster.length > maxMembers) ∧ ∀ e ∈ roster, e.encode.length ≤ enrollmentBytes :=
  codec_countedByte (codec_readVerified enrollment_lawful (by decide)) (p := fun n => n = 0 ∨ n > maxMembers) fun n hn => by
    simp only [maxMembers, not_or] at hn
    omega

theorem codec_claims : Codec (@readClaims crypto) CheckpointClaims.put fun claims =>
    ¬ (claims.roster.length = 0 ∨ claims.roster.length > maxMembers) ∧ ∀ e ∈ claims.roster, e.encode.length ≤ enrollmentBytes :=
  codec_readMagic.field (fun _ => ()) fun _ =>
    codec_readScope.field CheckpointClaims.scope fun _ =>
    codec_readKey.field CheckpointClaims.owner fun _ =>
    codec_readIdentifier.field CheckpointClaims.invitation fun _ =>
    codec_readFloor.field CheckpointClaims.parent fun _ =>
    codec_readFloor.field CheckpointClaims.accepted fun _ =>
    codec_readU64.field CheckpointClaims.epoch fun _ =>
    codec_readIdentifier.field CheckpointClaims.commit fun _ =>
    codec_readIdentifier.field CheckpointClaims.welcome fun _ =>
    codec_readArray.field CheckpointClaims.groupContext fun _ =>
    codec_roster.last CheckpointClaims.roster (fun _ h => h.1.1.1.1.1.1.1.1.1.1) fun roster hroster => .pure _
    fun ⟨_, _, _, _, _, _, _, _, _, _⟩ => by
      simp only
      constructor
      · rintro ⟨⟨⟨⟨⟨⟨⟨⟨⟨⟨⟨-, -⟩, rfl⟩, rfl⟩, rfl⟩, rfl⟩, rfl⟩, rfl⟩, rfl⟩, rfl⟩, rfl⟩, rfl⟩
        rfl
      · rintro ⟨⟩
        exact ⟨⟨⟨⟨⟨⟨⟨⟨⟨⟨⟨hroster, trivial⟩, rfl⟩, rfl⟩, rfl⟩, rfl⟩, rfl⟩, rfl⟩, rfl⟩, rfl⟩, rfl⟩, rfl⟩

theorem codec_signed : Codec (@read crypto) (fun r => r.1.put ++ r.2.toList) fun r =>
    ¬ (r.1.roster.length = 0 ∨ r.1.roster.length > maxMembers) ∧ ∀ e ∈ r.1.roster, e.encode.length ≤ enrollmentBytes :=
  codec_claims.pair codec_readArray |>.congr (fun _ => by simp) fun _ _ => rfl

theorem decode_eq_ok {raw : List UInt8} {checkpoint : Checkpoint crypto} :
    decode raw = .ok checkpoint ↔ checkpoint.encode = .ok raw := by
  rw [encode_eq, Except.ok.injEq]
  simp only [decode, bind_eq_ok, decodeWith_eq_ok codec_signed, Prod.exists, attach_eq_ok]
  constructor
  · rintro ⟨claims, signature, ⟨rfl, -, -⟩, rfl, rfl⟩
    rfl
  · rintro rfl
    have h := CheckpointClaims.encodable_of_verify checkpoint.verified
    have hlen := h.fits
    obtain ⟨hne, hle⟩ := h.roster_length
    refine ⟨_, _, ⟨rfl, ⟨by omega, h.enrollments⟩, ?_⟩, rfl, rfl⟩
    rw [List.length_append, Vector.length_toList]
    simp only [maxCheckpointBytes] at hlen ⊢
    omega

theorem length_encode_le {checkpoint : Checkpoint crypto} {raw : List UInt8} (h : checkpoint.encode = .ok raw) :
    raw.length ≤ maxCheckpointBytes := by
  rw [encode_eq] at h
  cases h
  have hlen := (CheckpointClaims.encodable_of_verify checkpoint.verified).fits
  rw [List.length_append, Vector.length_toList]
  simp only [maxCheckpointBytes] at hlen ⊢
  omega

end Checkpoint

end Valhalla.PrivateKernel
