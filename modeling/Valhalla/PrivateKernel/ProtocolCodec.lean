import Valhalla.PrivateKernel.Protocol

/-!
# Private-room records are canonical

The codec of every record kind, and both round trips of a signed record in one equivalence.
-/

namespace Valhalla.PrivateKernel
open Fallible FixedWidth Check

theorem codec_array {n : Nat} : Codec (getArray n) Vector.toList fun _ => True := .array _ n

theorem codec_u64 : Codec getU64 toBe fun _ => True := .int _

theorem codec_byte : Codec getByte toBe fun _ => True := .int _

theorem codec_magic {magic : List UInt8} : Codec (getMagic magic) (fun _ => magic) fun _ => True := .magic

theorem length_putBlob (raw : List UInt8) : (putBlob raw).length = 4 + raw.length := by
  rw [putBlob, List.length_append, length_toBe]
  rfl

theorem codec_blob {limit : Nat} (h : limit < 2 ^ 32) : Codec (getBlob limit) putBlob fun raw => raw.length ≤ limit := by
  refine ⟨fun bytes raw rest => ?_⟩
  simp only [getBlob, exec_bind_eq_ok, (Codec.int _).iff]
  constructor
  · rintro ⟨length, mid, ⟨rfl, -⟩, hraw⟩
    split at hraw
    · cases hraw
    · rename_i hle
      obtain ⟨rfl, hlen⟩ := ((Codec.take _ _).iff _ _ _).1 hraw
      refine ⟨?_, by omega⟩
      rw [putBlob, hlen, id, List.append_assoc]
      exact congrArg (toBe · ++ _) (ofNat_toNat length).symm
  · rintro ⟨rfl, hle⟩
    have hn : toNat (UInt32.ofNat raw.length) = raw.length := toNat_ofNat _ (Nat.lt_of_le_of_lt hle h)
    refine ⟨_, raw ++ rest, ⟨List.append_assoc .., trivial⟩, ?_⟩
    rw [hn, if_neg (Nat.not_lt.2 hle)]
    exact ((Codec.take _ _).iff _ _ _).2 ⟨rfl, rfl⟩

/-! ### Keys, identifiers, intervals and floors -/

section
variable {crypto : Hashing}

theorem Key.fromBytes_eq_ok {raw : Bytes32} {key : Key crypto} : Key.fromBytes raw = .ok key ↔ key.bytes = raw := by
  obtain ⟨bytes, valid⟩ := key
  unfold Key.fromBytes
  constructor
  · intro h
    split at h <;> cases h
    rfl
  · rintro rfl
    rw [dif_pos valid]

theorem Identifier.fromBytes_eq_ok {kind : IdentifierKind} {raw : Bytes32} {id : Identifier kind} :
    Identifier.fromBytes raw = .ok id ↔ id.bytes = raw := by
  obtain ⟨bytes, nonzero⟩ := id
  unfold Identifier.fromBytes
  constructor
  · intro h
    split at h <;> cases h
    rfl
  · rintro rfl
    rw [dif_neg nonzero]

theorem Validity.new_eq_ok {a b : UInt64} {validity : Validity} :
    Validity.new a b = .ok validity ↔ validity.notBefore = a ∧ validity.expiresAt = b := by
  obtain ⟨a', b', ordered⟩ := validity
  unfold Validity.new
  constructor
  · intro h
    split at h <;> cases h
    exact ⟨rfl, rfl⟩
  · rintro ⟨rfl, rfl⟩
    rw [dif_pos ordered]

theorem ControlFloor.new_eq_ok {sequence : UInt64} {id : Option ControlId} {floor : ControlFloor} :
    ControlFloor.new sequence id = .ok floor ↔ floor.sequence = sequence ∧ floor.id = id := by
  obtain ⟨sequence', id', shape⟩ := floor
  unfold ControlFloor.new
  constructor
  · intro h
    split at h <;> cases h
    exact ⟨rfl, rfl⟩
  · rintro ⟨rfl, rfl⟩
    rw [dif_pos shape]

theorem ControlFloor.read_eq_ok {sequence : UInt64} {raw : Bytes32} {floor : ControlFloor} :
    ControlFloor.read sequence raw = .ok floor ↔ floor.sequence = sequence ∧ floorId floor.id = raw := by
  unfold ControlFloor.read
  by_cases hraw : raw = zeroBytes
  · rw [if_pos hraw, pure_bind, ControlFloor.new_eq_ok]
    refine and_congr_right fun _ => ?_
    cases hid : floor.id with
    | none => simp [floorId, hraw]
    | some id => simp [floorId, hraw, id.nonzero]
  · rw [if_neg hraw]
    cases hid : floor.id with
    | none =>
      have hne : zeroBytes ≠ raw := fun h => hraw h.symm
      simp only [bind_eq_ok, floorId, Option.elim_none, hne, and_false, iff_false]
      rintro ⟨id, h, hnew⟩
      rw [(ControlFloor.new_eq_ok.1 hnew).2] at hid
      subst hid
      unfold Identifier.fromBytes at h
      rw [dif_neg hraw] at h
      cases h
    | some id =>
      simp only [bind_eq_ok, floorId, Option.elim_some, ← Identifier.fromBytes_eq_ok]
      constructor
      · rintro ⟨id', h, hnew⟩
        obtain ⟨hseq, hid'⟩ := ControlFloor.new_eq_ok.1 hnew
        rw [hid] at hid'
        subst hid'
        refine ⟨hseq, ?_⟩
        cases he : (Identifier.fromBytes raw : Except RecordError ControlId) with
        | error e => rw [he] at h; cases h
        | ok id'' => rw [he] at h; cases h; rfl
      · rintro ⟨hseq, h⟩
        refine ⟨some id, by rw [h]; rfl, ControlFloor.new_eq_ok.2 ⟨hseq, hid⟩⟩

theorem codec_key : Codec (getKey : GetM (Key crypto)) (fun key => key.bytes.toList) fun _ => True :=
  codec_array.lift (fun key => by simp [Key.fromBytes_eq_ok]) fun _ _ h => by rw [Key.fromBytes_eq_ok.1 h]

theorem codec_identifier {kind : IdentifierKind} :
    Codec (getIdentifier kind) (fun id => id.bytes.toList) fun _ => True :=
  codec_array.lift (fun id => by simp [Identifier.fromBytes_eq_ok]) fun _ _ h => by rw [Identifier.fromBytes_eq_ok.1 h]

theorem codec_scope : Codec getScope putScope fun _ => True :=
  codec_identifier.field PrivateRoomScope.room fun _ =>
    codec_identifier.lastField PrivateRoomScope.anchor fun _ => .pure _ fun ⟨_, _⟩ => by simp

theorem codec_validity : Codec getValidity putValidity fun _ => True := by
  refine codec_u64.field Validity.notBefore fun a =>
    codec_u64.lift (fun v => ?_) fun b v h => ?_
  · simp [Validity.new_eq_ok]
  · rw [(Validity.new_eq_ok.1 h).2]

theorem codec_floor : Codec getFloor putFloor fun _ => True := by
  refine codec_u64.field ControlFloor.sequence fun a =>
    codec_array.lift (fun v => ?_) fun b v h => ?_
  · simp [ControlFloor.read_eq_ok]
  · rw [(ControlFloor.read_eq_ok.1 h).2]

/-! ### Whole records -/

/-- The claims that pass their check are read back from what they are written as. -/
structure RecordKind.Lawful {C : Type} (kind : RecordKind crypto C) (ok : C → Prop) : Prop where
  codec : Codec kind.get kind.put ok
  checked : ∀ claims, kind.validate claims = .ok () → ok claims

section
variable {C : Type} {kind : RecordKind crypto C} {ok : C → Prop}

theorem Signed.make_eq_ok {claims : C} {signature : Signature} {signed : Signed kind} :
    Signed.make claims signature = .ok signed ↔ signed.claims = claims ∧ signed.signature = signature := by
  obtain ⟨claims', signature', valid, fits⟩ := signed
  unfold Signed.make
  constructor
  · intro h
    split at h
    · cases h
    · split at h <;> cases h
      exact ⟨rfl, rfl⟩
  · rintro ⟨rfl, rfl⟩
    dsimp only
    split
    · rename_i he
      rw [valid] at he
      cases he
    · rw [dif_pos fits]

theorem Signed.verify_eq_ok {signed : Signed kind} {record : Verified kind} :
    signed.verify = .ok record ↔ record.signed = signed := by
  obtain ⟨signed', verified⟩ := record
  unfold Signed.verify
  constructor
  · intro h
    split at h <;> cases h
    rfl
  · rintro rfl
    rw [dif_pos verified]

namespace RecordKind.Lawful
variable (h : kind.Lawful ok)
include h

theorem codec_record : Codec (Signed.getRecord kind) (fun r => kind.unsigned r.1 ++ r.2.toList)
    fun r => kind.validate r.1 = .ok () := by
  refine (codec_magic.field (fun _ => ()) fun _ =>
    codec_magic.field (fun _ => ()) fun _ =>
    h.codec.bind Prod.fst (fun r hr => h.checked _ hr.1.1) fun claims _ =>
    Codec.guard.bind (fun _ => ()) (fun r hr => hr.2 ▸ hr.1.1.1) fun _ _ =>
    codec_array.lastField Prod.snd fun signature => .pure _ fun r => ?_).congr (fun _ => Iff.rfl) fun r _ => ?_
  · obtain ⟨claims', signature'⟩ := r
    simp only [and_true]
    constructor
    · rintro ⟨⟨-, rfl⟩, rfl⟩
      rfl
    · rintro ⟨⟩
      exact ⟨⟨by assumption, rfl⟩, rfl⟩
  · simp [unsigned]

theorem decode_eq_ok {raw : List UInt8} {signed : Signed kind} : Signed.decode raw = .ok signed ↔ raw = signed.encode := by
  have hlen : signed.encode.length = (kind.unsigned signed.claims).length + 64 := by
    rw [Signed.encode, List.length_append, Vector.length_toList]
  simp only [Signed.decode, bind_eq_ok, h.codec_record.decode_eq_ok, Prod.exists, Signed.make_eq_ok]
  constructor
  · rintro ⟨claims, signature, ⟨rfl, -, -⟩, rfl, rfl⟩
    rfl
  · rintro rfl
    exact ⟨signed.claims, signed.signature, ⟨rfl, signed.valid, hlen ▸ signed.fits⟩, rfl, rfl⟩

theorem verified_decode_eq_ok {raw : List UInt8} {record : Verified kind} :
    Verified.decode raw = .ok record ↔ raw = record.encode := by
  simp only [Verified.decode, bind_eq_ok, h.decode_eq_ok, Signed.verify_eq_ok]
  constructor
  · rintro ⟨signed, rfl, rfl⟩
    rfl
  · intro hraw
    exact ⟨_, hraw, rfl⟩

end RecordKind.Lawful

theorem Signed.length_encode_le (signed : Signed kind) : signed.encode.length ≤ maxRecordBytes := by
  rw [Signed.encode, List.length_append, Vector.length_toList]
  exact signed.fits

theorem RecordKind.Lawful.codec_nested (h : kind.Lawful ok) :
    Codec (do let raw ← getBlob maxRecordBytes; Reader.lift (Signed.decode raw) : GetM (Signed kind))
      (fun signed => putBlob signed.encode) fun _ => True := by
  refine (codec_blob (by decide)).lift (fun signed => ?_) fun raw signed hd => by rw [h.decode_eq_ok.1 hd]
  simp only [true_iff]
  exact ⟨signed.encode, signed.length_encode_le, h.decode_eq_ok.2 rfl⟩

end

/-! ### The five kinds -/

theorem anchor_lawful : (anchorKind crypto).Lawful fun _ => True where
  codec := codec_identifier.field RoomAnchorClaims.room fun _ =>
    codec_key.field RoomAnchorClaims.ownerAccount fun _ =>
    codec_key.field RoomAnchorClaims.ownerDevice fun _ =>
    codec_magic.lastField (fun _ => ()) fun _ => .pure _ fun ⟨_, _, _⟩ => by simp [and_assoc]
  checked _ _ := trivial

theorem enrollment_lawful : (enrollmentKind crypto).Lawful fun _ => True where
  codec := codec_key.field DeviceEnrollmentClaims.account fun _ =>
    codec_key.field DeviceEnrollmentClaims.device fun _ =>
    codec_validity.lastField DeviceEnrollmentClaims.validity fun _ => .pure _ fun ⟨_, _, _⟩ => by
      simp [and_assoc]
  checked _ _ := trivial

theorem invitation_lawful : (invitationKind crypto).Lawful fun _ => True where
  codec := codec_scope.field InvitationClaims.scope fun _ =>
    codec_key.field InvitationClaims.ownerDevice fun _ =>
    codec_key.field InvitationClaims.recipientAccount fun _ =>
    codec_key.field InvitationClaims.recipientDevice fun _ =>
    codec_identifier.field InvitationClaims.keyPackage fun _ =>
    codec_identifier.field InvitationClaims.nonce fun _ =>
    codec_validity.field InvitationClaims.validity fun _ =>
    codec_floor.lastField InvitationClaims.floor fun _ => .pure _ fun ⟨_, _, _, _, _, _, _, _⟩ => by
      simp [and_assoc]
  checked _ _ := trivial

theorem succession_lawful : (successionKind crypto).Lawful fun _ => True where
  codec := codec_scope.field OwnerSuccessionClaims.scope fun _ =>
    codec_key.field OwnerSuccessionClaims.account fun _ =>
    codec_key.field OwnerSuccessionClaims.predecessor fun _ =>
    enrollment_lawful.codec_nested.field OwnerSuccessionClaims.successor fun _ =>
    codec_u64.field OwnerSuccessionClaims.sequence fun _ =>
    codec_validity.lastField OwnerSuccessionClaims.validity fun _ => .pure _ fun ⟨_, _, _, _, _, _⟩ => by
      simp [and_assoc]
  checked _ _ := trivial

theorem codec_addition : Codec (getAddition : GetM (Addition crypto)) putAddition fun _ => True :=
  codec_identifier.field Addition.invitation fun _ =>
    codec_key.field Addition.account fun _ =>
    codec_key.field Addition.device fun _ =>
    codec_identifier.field Addition.keyPackage fun _ =>
    codec_identifier.lastField Addition.welcome fun _ => .pure _ fun ⟨_, _, _, _, _⟩ => by
      simp [and_assoc]

def putChangeBody : ControlChange crypto → List UInt8
  | .ownerUpdate => []
  | .succession grant => putBlob grant.encode
  | .membership additions removals => additions.flatMap putAddition ++ removals.flatMap fun key => key.bytes.toList

/-- The tag and the counts. -/
def changeHeader : ControlChange crypto → UInt8 × Nat × Nat
  | .ownerUpdate => (1, 0, 0)
  | .succession _ => (2, 0, 0)
  | .membership additions removals => (0, additions.length, removals.length)

theorem codec_changeBody (tag : UInt8) (additions removals : Nat) :
    Codec (getChangeBody tag additions removals : GetM (ControlChange crypto)) putChangeBody
      fun change => changeHeader change = (tag, additions, removals) := by
  unfold getChangeBody
  by_cases h1 : tag = 1 ∧ additions = 0 ∧ removals = 0
  · rw [if_pos h1]
    obtain ⟨rfl, rfl, rfl⟩ := h1
    refine .constant (fun change => ?_) rfl
    cases change <;> simp [changeHeader]
  rw [if_neg h1]
  by_cases h2 : tag = 2 ∧ additions = 0 ∧ removals = 0
  · rw [if_pos h2]
    obtain ⟨rfl, rfl, rfl⟩ := h2
    refine succession_lawful.codec_nested.map (fun change => ?_) fun _ => rfl
    cases change <;> simp [changeHeader]
  rw [if_neg h2]
  by_cases h0 : tag = 0
  · rw [if_pos h0]
    subst h0
    refine (Codec.many (fun _ => codec_addition) additions ()).map₂ (Codec.many (fun _ => codec_key) removals ())
      (fun change => ?_) fun _ _ => rfl
    cases change with
    | ownerUpdate => simp [changeHeader]
    | succession grant => simp [changeHeader]
    | membership added removed => simp [changeHeader, Codec.chained_of_forall]
  rw [if_neg h0]
  refine .none (fun bytes => ⟨_, rfl⟩) fun change hc => ?_
  cases change with
  | ownerUpdate => exact h1 ⟨by cases hc; rfl, by cases hc; rfl, by cases hc; rfl⟩
  | succession grant => exact h2 ⟨by cases hc; rfl, by cases hc; rfl, by cases hc; rfl⟩
  | membership added removed => exact h0 (by cases hc; rfl)

/-- The counts are within the limits. -/
def ControlChange.Bounded (change : ControlChange crypto) : Prop :=
  (changeHeader change).2.1 + (changeHeader change).2.2 ≤ maxChanges

theorem codec_change : Codec (getChange : GetM (ControlChange crypto)) putChange ControlChange.Bounded := by
  have hsplit : ∀ change : ControlChange crypto, putChange change =
      toBe (changeHeader change).1 ++ (toBe (UInt8.ofNat (changeHeader change).2.1) ++
        (toBe (UInt8.ofNat (changeHeader change).2.2) ++ putChangeBody change)) := by
    intro change
    simp only [toBe_uInt8]
    cases change <;> rfl
  have hcount : ∀ {n : Nat} {b : UInt8}, n ≤ maxChanges → UInt8.ofNat n = b → b.toNat = n := by
    rintro n b hn rfl
    exact UInt8.toNat_ofNat_of_lt' (Nat.lt_of_le_of_lt hn (by decide))
  refine (codec_byte.field (fun change => (changeHeader change).1) fun tag =>
    codec_byte.field (fun change => UInt8.ofNat (changeHeader change).2.1) fun a =>
    codec_byte.field (fun change => UInt8.ofNat (changeHeader change).2.2) fun r =>
    ?_).congr (fun _ => Iff.rfl) fun change _ => hsplit change
  by_cases hbig : a.toNat > maxChanges ∨ r.toNat > maxChanges ∨ a.toNat + r.toNat > maxChanges
  · rw [if_pos hbig]
    refine .none (fun bytes => ⟨_, rfl⟩) fun change hc => ?_
    obtain ⟨⟨⟨hb, -⟩, ha⟩, hr⟩ := hc
    simp only [ControlChange.Bounded] at hb
    have ha' := hcount (by omega) ha
    have hr' := hcount (by omega) hr
    omega
  · rw [if_neg hbig]
    refine (codec_changeBody tag a.toNat r.toNat).congr (fun change => ?_) fun _ _ => rfl
    simp only [ControlChange.Bounded]
    constructor
    · rintro ⟨⟨⟨hb, rfl⟩, ha⟩, hr⟩
      rw [hcount (by omega) ha, hcount (by omega) hr]
    · intro hc
      rw [hc]
      refine ⟨⟨⟨by dsimp only; omega, rfl⟩, ?_⟩, ?_⟩ <;> exact UInt8.ofNat_toNat

theorem ControlChange.bounded_of_validate {change : ControlChange crypto} (h : change.validate = .ok ()) : change.Bounded := by
  cases change with
  | ownerUpdate => exact Nat.zero_le _
  | succession grant => exact Nat.zero_le _
  | membership additions removals =>
    simp only [ControlChange.validate, bind_eq_ok, require_eq_ok, Bool.and_eq_true, decide_eq_true_eq] at h
    obtain ⟨-, ⟨⟨-, -⟩, hle⟩, -⟩ := h
    exact hle

theorem control_lawful : (controlKind crypto).Lawful fun claims => claims.change.Bounded where
  codec := codec_scope.field OwnerControlClaims.scope fun _ =>
    codec_key.field OwnerControlClaims.ownerDevice fun _ =>
    codec_floor.field OwnerControlClaims.parent fun _ =>
    codec_u64.field OwnerControlClaims.priorEpoch fun _ =>
    codec_u64.field OwnerControlClaims.nextEpoch fun _ =>
    codec_identifier.field OwnerControlClaims.commit fun _ =>
    codec_change.last OwnerControlClaims.change (fun _ h => h.1.1.1.1.1.1) fun change hc => .pure _ fun ⟨_, _, _, _, _, _, _⟩ => by
      simp only
      constructor
      · rintro ⟨⟨⟨⟨⟨⟨⟨-, rfl⟩, rfl⟩, rfl⟩, rfl⟩, rfl⟩, rfl⟩, rfl⟩
        rfl
      · rintro ⟨⟩
        exact ⟨⟨⟨⟨⟨⟨⟨hc, rfl⟩, rfl⟩, rfl⟩, rfl⟩, rfl⟩, rfl⟩, rfl⟩
  checked claims h := by
    simp only [controlKind, bind_eq_ok] at h
    obtain ⟨-, -, -, -, h⟩ := h
    exact ControlChange.bounded_of_validate h

/-! ### Succession proofs -/

theorem OwnerSuccessionProof.fromControl_eq_ok {control : SignedOwnerControl crypto} {proof : OwnerSuccessionProof crypto} :
    fromControl control = .ok proof ↔ proof.control.signed = control := by
  simp only [fromControl, bind_eq_ok, Signed.verify_eq_ok]
  constructor
  · rintro ⟨verified, rfl, h⟩
    split at h
    · split at h
      · obtain ⟨_, -, h⟩ := bind_eq_ok.1 h
        split at h <;> cases h
        rfl
      · cases h
    · cases h
  · rintro rfl
    obtain ⟨control, ⟨grant, verified⟩, carried, sameScope, fromPredecessor, atSequence, atEpoch⟩ := proof
    refine ⟨control, rfl, ?_⟩
    split
    · rename_i signed hs
      obtain rfl : grant = signed := by
        have := carried.symm.trans hs
        cases this
        rfl
      refine (dif_pos verified).trans (bind_eq_ok.2 ⟨_, atSequence, ?_⟩)
      exact dif_pos ⟨sameScope, fromPredecessor, atSequence, atEpoch⟩
    · rename_i hne
      exact absurd carried (hne grant)

theorem OwnerSuccessionProof.decode_eq_ok {raw : List UInt8} {proof : OwnerSuccessionProof crypto} :
    decode raw = .ok proof ↔ raw = proof.encode := by
  simp only [decode, bind_eq_ok, control_lawful.decode_eq_ok, fromControl_eq_ok]
  constructor
  · rintro ⟨signed, rfl, rfl⟩
    rfl
  · intro hraw
    exact ⟨_, hraw, rfl⟩

theorem Signed.sequence_eq_ok (control : SignedOwnerControl crypto) : ∃ n, control.claims.sequence = .ok n := by
  have h := control.valid
  simp only [controlKind, bind_eq_ok] at h
  obtain ⟨n, hn, -⟩ := h
  exact ⟨n, hn⟩

end

end Valhalla.PrivateKernel
