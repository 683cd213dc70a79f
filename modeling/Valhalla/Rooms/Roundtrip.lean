import Valhalla.Rooms.Wire
import Valhalla.Social.Roundtrip

/-!
# Round trips of room records

`SignedRecord.decode` accepts exactly what `SignedRecord.encode` writes.
-/

namespace Valhalla.Rooms
open Fallible FixedWidth Check
open Social (OwnerId AgentId RecordId)

variable {crypto : Crypto} {α : Type} {kind : IdKind} {socialKind : Social.IdKind}

/-! ### Fields -/

theorem codec_int [FixedWidth α] : Codec (getInt : GetM α) toBe fun _ => True := .int _

theorem codec_array {n : Nat} : Codec (getArray n) Vector.toList fun _ => True := .array _ n

theorem codec_id : Codec (getId : GetM (Id kind)) (fun id => id.bytes.toList) fun _ => True :=
  codec_array.lastField Id.bytes fun _ => .pure _ fun id => by cases id; simp

theorem codec_socialId : Codec (getSocialId : GetM (Social.Id socialKind)) (fun id => id.bytes.toList) fun _ => True :=
  codec_array.lastField Social.Id.bytes fun _ => .pure _ fun id => by cases id; simp

theorem codec_realm : Codec getRealm (fun realm => toBe realm.value) fun _ => True :=
  codec_int.lastField RealmId.value fun _ => .pure _ fun realm => by cases realm; simp

theorem codec_bool : Codec getBool putBool fun _ => True := by
  refine .tagged (fun b => ⟨_, _, rfl⟩) fun t => ?_
  split
  · exact .constant (fun b => by cases b <;> simp [putBool]) rfl
  · exact .constant (fun b => by cases b <;> simp [putBool]) rfl
  · exact .none (fun _ => ⟨_, rfl⟩) fun b => by cases b <;> simp_all [putBool, eq_comm]

theorem Description.new_eq_ok {str : String} {description : Description} : Description.new str = .ok description ↔ description.str = str := by
  unfold Description.new
  constructor
  · intro h
    split at h <;> cases h
    rfl
  · rintro rfl
    split
    · rfl
    · rename_i he
      rw [description.valid] at he
      cases he

theorem Description.length_le (description : Description) : description.bytes.length ≤ maxDescriptionBytes := by
  have h := description.valid
  simp only [checkDescription, bind_eq_ok, require_eq_ok, Bool.not_eq_true', Bool.or_eq_false_iff, decide_eq_false_iff_not,
    Nat.not_lt, gt_iff_lt] at h
  obtain ⟨_, ⟨-, hle⟩, -⟩ := h
  exact hle

theorem codec_description : Codec getDescription putText fun _ => True := by
  have hlength : Codec getTextLength (fun n => toBe (UInt16.ofNat n)) (· ≤ maxDescriptionBytes) := .limited (by decide)
  refine hlength.bind (fun d : Description => d.bytes.length) (fun d _ => d.length_le) fun n hn =>
    (Codec.take _ n).last Description.bytes (fun d h => h.2) fun bytes hbytes => ?_
  have hutf8 : ∀ d : Description, d.bytes = bytes ↔ String.fromUTF8? ⟨bytes.toArray⟩ = some d.str := by
    intro d
    rw [String.fromUTF8?_eq_some]
    constructor
    · rintro rfl
      rfl
    · intro h
      rw [Description.bytes, h]
  cases hs : String.fromUTF8? ⟨bytes.toArray⟩ with
  | none => exact .none (fun _ => ⟨_, rfl⟩) fun d h => by rw [(hutf8 d).1 h.2] at hs; cases hs
  | some str =>
    simp only
    refine ⟨fun raw d rest => ?_⟩
    rw [Reader.lift, exec_of, Prod.mk.injEq, Description.new_eq_ok, hutf8, hs, Option.some.injEq]
    constructor
    · rintro ⟨rfl, rfl⟩
      exact ⟨rfl, ⟨trivial, by rw [(hutf8 d).2 hs, hbytes]⟩, rfl⟩
    · rintro ⟨rfl, -, rfl⟩
      exact ⟨rfl, rfl⟩

theorem Slug.new_eq_ok {bytes : List UInt8} {slug : Slug} : Slug.new bytes = .ok slug ↔ slug.bytes = bytes := by
  unfold Slug.new
  constructor
  · intro h
    split at h <;> cases h
    rfl
  · rintro rfl
    split
    · rfl
    · rename_i he
      rw [slug.valid] at he
      cases he

theorem Slug.length_le (slug : Slug) : slug.bytes.length ≤ maxSlugBytes := by
  have h := slug.valid
  simp only [checkSlug, bind_eq_ok, require_eq_ok, Bool.not_eq_true', Bool.or_eq_false_iff, decide_eq_false_iff_not,
    Nat.not_lt, gt_iff_lt] at h
  obtain ⟨_, ⟨-, hle⟩, -⟩ := h
  exact hle

theorem codec_slug : Codec getSlug putSlug fun _ => True := by
  have hlength : Codec getSlugLength (fun n => toBe (UInt8.ofNat n)) (· ≤ maxSlugBytes) := .limited (by decide)
  refine hlength.bind (fun slug : Slug => slug.bytes.length) (fun slug _ => slug.length_le) fun n hn => ?_
  refine ((Codec.take _ n).lift (fun slug => ?_) fun bytes slug h => Slug.new_eq_ok.1 h)
  constructor
  · rintro ⟨-, hlen⟩
    exact ⟨slug.bytes, hlen, Slug.new_eq_ok.2 rfl⟩
  · rintro ⟨bytes, hlen, hnew⟩
    rw [Slug.new_eq_ok] at hnew
    exact ⟨trivial, hnew ▸ hlen⟩

theorem codec_previous : Codec getPrevious putPrevious fun _ => True := by
  refine .tagged (fun p => by cases p <;> exact ⟨_, _, rfl⟩) fun t => ?_
  split
  · exact .constant (fun p => by cases p <;> simp [putPrevious]) rfl
  · exact codec_id.map (fun p => by cases p <;> simp [putPrevious]) fun _ => rfl
  · exact .none (fun _ => ⟨_, rfl⟩) fun p => by cases p <;> simp_all [putPrevious, eq_comm]

/-! ### Actions -/

theorem codec_grantCreate : Codec getGrantCreate (fun a => (putCreateAction a).tail)
    fun a => True ∧ (putCreateAction a).head? = some 0 := by
  have h : Codec (do
      let p ← (do let agent ← getSocialId; let agentKey ← getArray 32; pure (agent, agentKey))
      let q ← (do let expiresAt ← getInt; let maximumCharge ← getInt; pure (expiresAt, maximumCharge))
      let nonce ← getArray 32
      pure (.grantCreate p.1 p.2 q.1 q.2 nonce))
      (fun a => (putCreateAction a).tail) fun a => True ∧ (putCreateAction a).head? = some 0 :=
    (codec_socialId.pair codec_array).map₃ (codec_int.pair codec_int) codec_array
      (fun a => by cases a <;> simp [putCreateAction]) fun _ _ _ => by simp [putCreateAction]
  simpa only [getGrantCreate, bind_assoc, pure_bind] using h

theorem codec_createAction : Codec getCreateAction putCreateAction fun _ => True := by
  refine .tagged (fun a => by cases a <;> exact ⟨_, _, rfl⟩) fun t => ?_
  split
  · exact codec_grantCreate
  · exact codec_id.map (fun a => by cases a <;> simp [putCreateAction]) fun _ => rfl
  · exact .none (fun _ => ⟨_, rfl⟩) fun a => by cases a <;> simp_all [putCreateAction, eq_comm]

theorem codec_version : Codec getVersion (fun _ => toBe publicActivityVersion) (· = publicActivityVersion) :=
  codec_int.check.congr (fun version => by simp) fun _ hversion => by rw [Decidable.not_not.1 hversion.2]

theorem codec_updateAction : Codec getUpdateAction putUpdateAction fun _ => True := by
  refine .tagged (fun a => by cases a <;> exact ⟨_, _, rfl⟩) fun t => ?_
  split
  · exact codec_description.map (fun a => by cases a <;> simp [putUpdateAction]) fun _ => rfl
  · exact .constant (fun a => by cases a <;> simp [putUpdateAction]) rfl
  · exact codec_version.map₃ codec_array codec_bool (fun a => by cases a <;> simp [putUpdateAction]) fun _ _ _ => rfl
  · exact .none (fun _ => ⟨_, rfl⟩) fun a => by cases a <;> simp_all [putUpdateAction, eq_comm]

/-! ### Bodies -/

theorem codec_control : Codec readControl controlBytes fun _ => True := by
  refine Codec.congr (codec_id.field RoomControl.directory fun _ =>
    codec_realm.field RoomControl.realm fun _ => codec_socialId.field RoomControl.owner fun _ =>
    codec_socialId.field RoomControl.socialControl fun _ =>
    codec_array.field RoomControl.controllerKey fun _ =>
    codec_previous.field RoomControl.previous fun _ =>
    codec_int.field RoomControl.sequence fun _ =>
    codec_createAction.lastField RoomControl.action fun _ => .pure _ fun c => by cases c; simp [and_assoc])
    (fun _ => Iff.rfl) fun c _ => ?_
  simp only [controlBytes, putScope, putOwner, List.append_assoc]

theorem codec_update : Codec readUpdate updateBytes fun _ => True := by
  refine Codec.congr (codec_id.field RoomUpdate.directory fun _ =>
    codec_realm.field RoomUpdate.realm fun _ => codec_id.field RoomUpdate.genesis fun _ =>
    codec_id.field RoomUpdate.previous fun _ => codec_socialId.field RoomUpdate.owner fun _ =>
    codec_socialId.field RoomUpdate.socialControl fun _ =>
    codec_array.field RoomUpdate.controllerKey fun _ =>
    codec_int.field RoomUpdate.expiresAt fun _ => codec_array.field RoomUpdate.nonce fun _ =>
    codec_updateAction.lastField RoomUpdate.action fun _ => .pure _ fun u => by cases u; simp [and_assoc])
    (fun _ => Iff.rfl) fun u _ => ?_
  simp only [updateBytes, putScope, putOwner, List.append_assoc]

theorem codec_intent : Codec readIntent intentBytes fun _ => True := by
  refine Codec.congr (codec_id.field CreationIntent.directory fun _ =>
    codec_realm.field CreationIntent.realm fun _ => codec_id.field CreationIntent.policy fun _ =>
    codec_id.field CreationIntent.initialSettings fun _ =>
    codec_socialId.field CreationIntent.owner fun _ =>
    codec_socialId.field CreationIntent.socialControl fun _ =>
    codec_array.field CreationIntent.ownerKey fun _ =>
    codec_socialId.field CreationIntent.agent fun _ =>
    codec_array.field CreationIntent.agentKey fun _ =>
    codec_id.field CreationIntent.roomControl fun _ => codec_id.field CreationIntent.grant fun _ =>
    codec_slug.field CreationIntent.slug fun _ =>
    codec_description.field CreationIntent.description fun _ =>
    codec_int.field CreationIntent.slot fun _ => codec_int.field CreationIntent.charge fun _ =>
    codec_int.field CreationIntent.expiresAt fun _ =>
    codec_array.lastField CreationIntent.nonce fun _ => .pure _ fun i => by cases i; grind)
    (fun _ => Iff.rfl) fun i _ => ?_
  simp only [intentBytes, putScope, putOwner, List.append_assoc]

theorem codec_body (tag : UInt8) : Codec (readBody tag) Body.bytes fun b => b.tag = tag := by
  unfold readBody
  split
  · rename_i htag
    exact codec_control.map (fun b => by cases b <;> simp [Body.tag, htag, controlTag, createTag, updateTag]) fun _ => rfl
  split
  · rename_i hcontrol htag
    exact codec_intent.map (fun b => by cases b <;> simp [Body.tag, htag, controlTag, createTag, updateTag]) fun _ => rfl
  split
  · rename_i hcontrol hcreate htag
    exact codec_update.map (fun b => by cases b <;> simp [Body.tag, htag, controlTag, createTag, updateTag]) fun _ => rfl
  · rename_i hcontrol hcreate hupdate
    refine .none (fun _ => ⟨_, rfl⟩) fun b hb => ?_
    cases b with
    | control => exact hcontrol hb.symm
    | create => exact hcreate hb.symm
    | update => exact hupdate hb.symm

theorem decodeBody_eq_ok {frame : Frame} {body : Body} :
    decodeBody frame = .ok body ↔ frame.payload = body.bytes ∧ body.tag = frame.tag := by
  have hiff := (codec_body frame.tag).iff frame.payload body []
  rw [List.append_nil] at hiff
  rw [← hiff, decodeBody]
  generalize exec (readBody frame.tag) frame.payload = outcome
  obtain ⟨result, rest⟩ := outcome
  cases result with
  | error e => exact ⟨fun h => (by cases h), fun h => (by cases h)⟩
  | ok body' =>
    cases rest with
    | nil =>
      simp only [List.isEmpty_nil, bind_eq_ok, require_eq_ok, true_and, Prod.mk.injEq, Except.ok.injEq, and_true, exists_const]
      exact ⟨fun h => by cases h; rfl, fun h => by rw [h]; rfl⟩
    | cons b rest =>
      refine ⟨fun h => ?_, fun h => by cases h⟩
      rw [bind_eq_ok] at h
      obtain ⟨u, hu, -⟩ := h
      rw [require_eq_ok] at hu
      cases hu

/-! ### Records -/

theorem CreateAction.length_le (action : CreateAction) : (putCreateAction action).length ≤ 113 := by
  cases action with
  | grantCreate => simp [putCreateAction]
  | revokeGrant => simp [putCreateAction]

theorem UpdateAction.length_le (action : UpdateAction) : (putUpdateAction action).length ≤ 259 := by
  cases action with
  | describe d =>
    have hle := d.length_le
    have hmax : maxDescriptionBytes = 256 := rfl
    simp only [putUpdateAction, putText, List.length_cons, List.length_append, length_toBe, bytes_uInt16]
    omega
  | archive => simp [putUpdateAction]
  | setPublicActivityPolicy => simp [putUpdateAction, putBool]

theorem Body.length_le (body : Body) : body.bytes.length ≤ 727 := by
  cases body with
  | control c =>
    have haction := c.action.length_le
    have hprevious : (putPrevious c.previous).length ≤ 33 := by cases c.previous <;> simp [putPrevious]
    simp only [Body.bytes, controlBytes, putScope, putOwner, List.length_append, Vector.length_toList, length_toBe, bytes_uInt64,
      bytes_bitVec128]
    omega
  | create i =>
    have hslug := i.slug.length_le
    have hdescription := i.description.length_le
    have hmaxSlug : maxSlugBytes = 48 := rfl
    have hmaxDescription : maxDescriptionBytes = 256 := rfl
    simp only [Body.bytes, intentBytes, putScope, putOwner, putSlug, putText, List.length_append, Vector.length_toList, length_toBe,
      bytes_uInt8, bytes_uInt16, bytes_uInt32, bytes_uInt64, bytes_bitVec128]
    omega
  | update u =>
    have haction := u.action.length_le
    simp only [Body.bytes, updateBytes, putScope, putOwner, List.length_append, Vector.length_toList, length_toBe, bytes_uInt64,
      bytes_bitVec128]
    omega

def Frame.Formed (frame : Frame) : Prop :=
  frame.tag ∈ [controlTag, createTag, updateTag, permitTag] ∧ frame.payload.length ≤ maxRecordBytes - 8 - proofLength frame.tag ∧
    frame.secondary.isSome = decide (frame.tag = createTag)

theorem codec_secondary (tag : UInt8) : Codec (getSecondary tag) (fun s => (s.map Vector.toList).getD [])
    fun s => s.isSome = decide (tag = createTag) := by
  unfold getSecondary
  split
  · rename_i htag
    exact codec_array.map (fun s => by cases s <;> simp [htag]) fun _ => rfl
  · rename_i htag
    exact .constant (fun s => by cases s <;> simp [htag]) rfl

theorem codec_frame : Codec getFrame (fun f => frame f.tag f.payload f.primary f.secondary) Frame.Formed := by
  have htag : Codec getFrameTag toBe fun tag => tag ∈ [controlTag, createTag, updateTag, permitTag] :=
    codec_int.check.congr (fun tag => by rw [true_and, Decidable.not_not]) fun _ _ => rfl
  have hlength : ∀ tag, Codec (getPayloadLength tag) (fun n => toBe (UInt16.ofNat n)) (· ≤ maxRecordBytes - 8 - proofLength tag) :=
    fun tag => .limited (Nat.lt_of_le_of_lt (Nat.le_trans (Nat.sub_le _ _) (Nat.sub_le _ _)) (by decide))
  refine Codec.congr (Codec.magic.field (fun _ => ()) fun _ =>
    htag.bind Frame.tag (fun f hf => hf.1.1) fun tag hin =>
    (hlength tag).bind (fun f : Frame => f.payload.length) (fun f hf => hf.2 ▸ hf.1.1.2.1) fun n hn =>
    (Codec.take _ n).bind Frame.payload (fun f hf => hf.2) fun payload hpayload =>
    codec_array.field Frame.primary fun primary =>
    (codec_secondary tag).last Frame.secondary (fun f hf => ?_) fun secondary hsecondary => .pure _ fun f => ?_) (fun _ => Iff.rfl) fun f _ => ?_
  · exact hf.1.1.1.2 ▸ hf.1.1.1.1.1.2.2
  · constructor
    · rintro ⟨⟨⟨⟨⟨-, htag⟩, -⟩, hbytes⟩, hprimary⟩, hsecond⟩
      cases f
      simp only at htag hbytes hprimary hsecond
      rw [htag, hbytes, hprimary, hsecond]
    · rintro rfl
      exact ⟨⟨⟨⟨⟨⟨⟨hin, hpayload ▸ hn, hsecondary⟩, rfl⟩, rfl⟩, hpayload⟩, rfl⟩, rfl⟩, rfl⟩
  · have htoBe : toBe f.tag = [f.tag] := toBe_uInt8 _
    rw [htoBe]
    rfl

namespace SignedRecord
variable {record : SignedRecord crypto} {raw : List UInt8}

theorem build_eq_ok {body : Body} {frame : Frame} : build crypto body frame = .ok record ↔
    record.body = body ∧ record.signature = frame.primary ∧ record.acknowledgement = frame.secondary := by
  unfold build
  constructor
  · intro h
    split at h
    · split at h
      · cases h
        exact ⟨rfl, rfl, rfl⟩
      · cases h
    · cases h
  · rintro ⟨rfl, hprimary, hsecondary⟩
    rw [dif_pos (hsecondary ▸ record.acknowledged)]
    split
    · cases record
      simp only at hprimary hsecondary
      simp only [hprimary, hsecondary]
    · rename_i he
      rw [record.checked] at he
      cases he

def toFrame (record : SignedRecord crypto) : Frame := ⟨record.body.tag, record.body.bytes, record.signature, record.acknowledgement⟩

theorem formed (record : SignedRecord crypto) : record.toFrame.Formed := by
  have hlen := record.body.length_le
  have hack := record.acknowledged
  refine ⟨?_, ?_, ?_⟩
  · cases hbody : record.body <;> simp [toFrame, hbody, Body.tag]
  · show record.body.bytes.length ≤ maxRecordBytes - 8 - proofLength record.body.tag
    have hproof : proofLength record.body.tag ≤ 128 := by
      unfold proofLength
      split <;> decide
    have hmax : maxRecordBytes = 2048 := rfl
    omega
  · show record.acknowledgement.isSome = _
    rw [hack]
    cases hbody : record.body <;> simp [toFrame, hbody, Body.tag, Body.isCreate, controlTag, createTag, updateTag]

theorem length_encode_le (record : SignedRecord crypto) : record.encode.length ≤ maxRecordBytes := by
  have hlen := record.body.length_le
  have hmax : maxRecordBytes = 2048 := rfl
  have hsecondary : ((record.acknowledgement.map Vector.toList).getD []).length ≤ 64 := by
    cases record.acknowledgement <;> simp
  have hmagic : wireMagic.length = 5 := rfl
  simp only [encode, frame, List.length_append, List.length_singleton, length_toBe, bytes_uInt16, Vector.length_toList, hmagic]
  omega

theorem decode_eq_ok : decode raw = .ok record ↔ raw = record.encode := by
  have hsplit : splitFrame raw = .ok record.toFrame ↔ raw = record.encode := by
    rw [splitFrame, codec_frame.decode_eq_ok]
    exact ⟨fun h => h.1, fun h => ⟨h, record.formed, record.length_encode_le⟩⟩
  rw [decode]
  simp only [bind_eq_ok, require_eq_ok, beq_iff_eq]
  constructor
  · rintro ⟨frame, -, body, -, record', -, _, hraw, he⟩
    cases he
    exact hraw.symm
  · intro hraw
    exact ⟨record.toFrame, hsplit.2 hraw, record.body, decodeBody_eq_ok.2 ⟨rfl, rfl⟩, record, build_eq_ok.2 ⟨rfl, rfl, rfl⟩, (), hraw.symm, rfl⟩

end SignedRecord

end Valhalla.Rooms
