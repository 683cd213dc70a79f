import Valhalla.Social.Wire

/-!
# Social records are canonical

The codec of every field, and what follows for signed records: a record is decoded from its encoding and from
nothing else (`SignedRecord.decode_eq_ok`), and its bytes determine what it says (`Fact.bytes_inj`).
-/

namespace Valhalla.Social
open Fallible FixedWidth Check

/-! ### Fields -/

section
variable {α : Type} {kind : IdKind}

theorem codec_u8 : Codec getU8 putU8 fun _ => True :=
  (Codec.int _).congr (fun _ => Iff.rfl) fun a _ => (toBe_uInt8 a).symm

theorem codec_int [FixedWidth α] : Codec (getInt : GetM α) toBe fun _ => True := .int _

theorem codec_array {n : Nat} : Codec (getArray n) Vector.toList fun _ => True := .array _ n

theorem codec_bool : Codec getBool putBool fun _ => True := by
  refine .tagged (fun r => ⟨_, [], rfl⟩) fun t => ?_
  split
  · exact .constant (by decide) rfl
  · exact .constant (by decide) rfl
  · exact .none (fun _ => ⟨_, rfl⟩) fun r => by cases r <;> simp_all [putBool, putU8, eq_comm]

theorem codec_id : Codec (getId : GetM (Id kind)) putId fun _ => True :=
  codec_array.lastField Id.bytes fun _ => .pure _ fun id => by cases id; simp

theorem codec_realm : Codec getRealm putRealm fun _ => True :=
  codec_int.lastField RealmId.value fun _ => .pure _ fun realm => by cases realm; simp

theorem codec_count {limit : Nat} (h : limit < 256) : Codec (getCount limit) putCount (· ≤ limit) :=
  Codec.congr (Codec.limited h) (fun _ => Iff.rfl) fun _ _ => (toBe_uInt8 _).symm

theorem codec_option {get : GetM α} {put : α → List UInt8} (h : Codec get put fun _ => True) :
    Codec (getOption get) (putOption put) fun _ => True := by
  refine .tagged (fun o => by cases o <;> exact ⟨_, _, rfl⟩) fun t => ?_
  split
  · exact .constant (by rintro (_ | _) <;> simp [putOption, putBool, putU8]) rfl
  · exact h.map (by rintro (_ | _) <;> simp [putOption, putBool, putU8]) fun _ => rfl
  · exact .none (fun _ => ⟨_, rfl⟩) fun r => by cases r <;> simp_all [putOption, putBool, putU8, eq_comm]

theorem codec_list {get : GetM α} {put : α → List UInt8} {limit : Nat} (hlimit : limit < 256)
    (h : Codec get put fun _ => True) :
    Codec (getList limit get) (fun l => putCount l.length ++ l.flatMap put) (·.length ≤ limit) :=
  (Codec.counted (codec_count hlimit) fun _ => h).congr (fun l => by rw [Codec.chained_of_forall]; simp)
    fun _ _ => rfl

end

/-! ### Checked fields -/

theorem References.new_eq_ok {ids : List RecordId} {refs : References} : References.new ids = .ok refs ↔ refs.ids = ids := by
  unfold References.new
  constructor
  · intro h
    split at h <;> cases h
    rfl
  · rintro rfl
    rw [dif_pos refs.valid]

theorem References.length_le (refs : References) : refs.ids.length ≤ maxRefs := by
  have h := refs.valid
  simp only [checkReferences, Bool.and_eq_true, decide_eq_true_eq] at h
  exact h.1

theorem codec_refs : Codec getRefs putRefs fun _ => True := by
  refine (codec_list (by decide) codec_id).lift (fun refs => ?_) fun ids refs h => ?_
  · exact ⟨fun _ => ⟨refs.ids, refs.length_le, References.new_eq_ok.2 rfl⟩, fun _ => trivial⟩
  · rw [← References.new_eq_ok.1 h]
    rfl

theorem Rights.fromBits_eq_ok {bits : UInt8} {rights : Rights} : Rights.fromBits bits = .ok rights ↔ rights.bits = bits := by
  unfold Rights.fromBits
  constructor
  · intro h
    split at h <;> cases h
    rfl
  · rintro rfl
    rw [dif_pos rights.valid]

theorem codec_rights : Codec getRights (fun rights => putU8 rights.bits) fun _ => True := by
  refine codec_u8.lift (fun rights => ?_) fun bits rights h => ?_
  · exact ⟨fun _ => ⟨rights.bits, trivial, Rights.fromBits_eq_ok.2 rfl⟩, fun _ => trivial⟩
  · rw [Rights.fromBits_eq_ok.1 h]

theorem Text.new_eq_ok {str : String} {text : Text} : Text.new str = .ok text ↔ text.str = str := by
  unfold Text.new
  constructor
  · intro h
    split at h <;> cases h
    rfl
  · rintro rfl
    rw [dif_pos text.valid]

theorem Text.length_bytes (text : Text) : text.bytes.length = text.str.utf8ByteSize := rfl

theorem codec_textLength : Codec getTextLength (fun n => toBe (UInt16.ofNat n)) (· ≤ maxTextBytes) := .limited (by decide)

theorem codec_text : Codec getText putText fun _ => True := by
  refine codec_textLength.bind (fun text : Text => text.str.utf8ByteSize) (fun text _ => text.valid) fun n hn =>
    (Codec.take _ n).last Text.bytes (fun text h => by rw [Text.length_bytes, h.2]) fun bytes hbytes => ?_
  have hutf8 : ∀ text : Text, text.bytes = bytes ↔ String.fromUTF8? ⟨bytes.toArray⟩ = some text.str := by
    intro text
    rw [String.fromUTF8?_eq_some]
    constructor
    · rintro rfl
      rfl
    · intro h
      rw [Text.bytes, h]
  cases hs : String.fromUTF8? ⟨bytes.toArray⟩ with
  | none => exact .none (fun _ => ⟨_, rfl⟩) fun text h => by rw [(hutf8 text).1 h.2] at hs; cases hs
  | some str =>
    simp only
    refine ⟨fun raw text rest => ?_⟩
    rw [Reader.lift, exec_of, Prod.mk.injEq, Text.new_eq_ok, hutf8, hs, Option.some.injEq]
    constructor
    · rintro ⟨rfl, rfl⟩
      exact ⟨rfl, ⟨trivial, by rw [← Text.length_bytes, (hutf8 text).2 hs, hbytes]⟩, rfl⟩
    · rintro ⟨rfl, -, rfl⟩
      exact ⟨rfl, rfl⟩

/-! ### Posts, revisions and facets -/

theorem codec_postRef : Codec getPostRef putPostRef fun _ => True :=
  codec_id.field PostRef.post fun _ => codec_id.lastField PostRef.revision
    fun _ => .pure _ fun reference => by cases reference; simp

theorem codec_replyRef : Codec getReplyRef putReplyRef fun _ => True :=
  codec_id.field ReplyRef.root fun _ => codec_postRef.lastField ReplyRef.parent
    fun _ => .pure _ fun reply => by cases reply; simp

theorem codec_placement : Codec getPlacement encodePlacement fun _ => True := by
  refine .tagged (fun p => by cases p <;> exact ⟨_, _, rfl⟩) fun t => ?_
  split
  · exact .constant (by rintro (_ | _) <;> simp [encodePlacement, putU8]) rfl
  · exact codec_int.map (fun p => by rcases p with _ | ⟨⟨_⟩⟩ <;> simp [encodePlacement, putU8]) fun _ => rfl
  · exact .none (fun _ => ⟨_, rfl⟩) fun p => by cases p <;> simp_all [encodePlacement, putU8, eq_comm]

theorem codec_postFields : Codec getPostFields encodePostFields fun _ => True :=
  codec_placement.field PostFields.placement fun _ =>
    codec_text.field PostFields.text fun _ =>
    (codec_option codec_replyRef).field PostFields.reply fun _ =>
    (codec_option codec_postRef).lastField PostFields.quote fun _ => .pure _ fun fields => by
      cases fields
      simp [and_assoc]

theorem codec_revisionFields : Codec getRevisionFields encodeRevisionFields fun _ => True :=
  codec_id.field RevisionFields.post fun _ =>
    codec_text.field RevisionFields.text fun _ =>
    codec_refs.lastField RevisionFields.supersedes fun _ => .pure _ fun fields => by
      cases fields
      simp [and_assoc]

theorem CanonicalTag.new_bytes (tag : CanonicalTag) : CanonicalTag.new tag.bytes = .ok tag := by
  rw [CanonicalTag.new, dif_pos tag.tag]
  obtain ⟨bytes, htag, hlower⟩ := tag
  simp only [Except.ok.injEq, CanonicalTag.mk.injEq]
  exact hlower

theorem CanonicalTag.canonical_eq_ok {bytes : List UInt8} {tag : CanonicalTag} :
    CanonicalTag.canonical bytes = .ok tag ↔ tag.bytes = bytes := by
  simp only [CanonicalTag.canonical, bind_eq_ok, require_eq_ok, beq_iff_eq]
  constructor
  · rintro ⟨tag', -, -, hbytes, h⟩
    cases h
    exact hbytes
  · rintro rfl
    exact ⟨tag, tag.new_bytes, (), rfl, rfl⟩

theorem CanonicalTag.length_le (tag : CanonicalTag) : tag.bytes.length ≤ maxTagBytes := by
  obtain ⟨_ | ⟨first, rest⟩, htag, -⟩ := tag
  · exact Nat.zero_le _
  · simp only [isTag, Bool.and_eq_true, decide_eq_true_eq] at htag
    exact htag.1.1

theorem codec_tag : Codec getTag (fun tag => putCount tag.bytes.length ++ tag.bytes) fun _ => True := by
  refine (codec_count (by decide)).bind (fun tag : CanonicalTag => tag.bytes.length) (fun tag _ => tag.length_le)
    fun n hn => ?_
  refine (Codec.take _ n).lift (fun tag => ?_) fun bytes tag h => (CanonicalTag.canonical_eq_ok.1 h)
  constructor
  · rintro ⟨-, hlen⟩
    exact ⟨tag.bytes, hlen, CanonicalTag.canonical_eq_ok.2 rfl⟩
  · rintro ⟨bytes, hlen, h⟩
    exact ⟨trivial, by rw [CanonicalTag.canonical_eq_ok.1 h, hlen]⟩

theorem codec_facetKind : Codec getFacetKind encodeFacetKind fun _ => True := by
  refine .tagged (fun k => by rcases k with (_ | _) | _ <;> exact ⟨_, _, rfl⟩) fun t => ?_
  split
  · exact codec_id.map (fun k => by rcases k with (_ | _) | _ <;> simp [encodeFacetKind, putU8]) fun _ => rfl
  · exact codec_id.map (fun k => by rcases k with (_ | _) | _ <;> simp [encodeFacetKind, putU8]) fun _ => rfl
  · exact codec_tag.map (fun k => by rcases k with (_ | _) | _ <;> simp [encodeFacetKind, putU8]) fun _ => rfl
  · exact .none (fun _ => ⟨_, rfl⟩) fun k => by rcases k with (_ | _) | _ <;> simp_all [encodeFacetKind, putU8, eq_comm]

theorem codec_facet : Codec getFacet encodeFacet fun _ => True :=
  codec_int.field Facet.start fun _ => codec_int.field Facet.stop fun _ =>
    codec_facetKind.lastField Facet.kind fun _ => .pure _ fun facet => by cases facet; simp [and_assoc]

theorem codec_facets : Codec getFacets encodeFacets (·.length ≤ maxFacets) := codec_list (by decide) codec_facet

theorem FacetedText.new_eq_ok {text : Text} {facets : List Facet} {content : FacetedText} :
    FacetedText.new text facets = .ok content ↔ content.text = text ∧ content.facets = facets := by
  unfold FacetedText.new
  constructor
  · intro h
    split at h <;> cases h
    exact ⟨rfl, rfl⟩
  · rintro ⟨rfl, rfl⟩
    split
    · rfl
    · rename_i he
      rw [content.valid] at he
      cases he

theorem FacetedText.length_le (content : FacetedText) : content.facets.length ≤ maxFacets := by
  have h := content.valid
  simp only [checkFacets, bind_eq_ok, require_eq_ok, decide_eq_true_eq] at h
  obtain ⟨-, hlen, -⟩ := h
  exact hlen

theorem postFacetedOf_eq_ok {p : PostFields × List Facet} {operation : Operation} :
    postFacetedOf p = .ok operation ↔ ∃ content : FacetedText, content.text = p.1.text ∧ content.facets = p.2 ∧
      operation = .postFaceted p.1.placement content p.1.reply p.1.quote := by
  simp only [postFacetedOf, bind_eq_ok, FacetedText.new_eq_ok, and_assoc]
  exact exists_congr fun content => and_congr_right fun _ => and_congr_right fun _ =>
    ⟨fun h => by cases h; rfl, fun h => h ▸ rfl⟩

theorem reviseFacetedOf_eq_ok {p : RevisionFields × List Facet} {operation : Operation} :
    reviseFacetedOf p = .ok operation ↔ ∃ content : FacetedText, content.text = p.1.text ∧ content.facets = p.2 ∧
      operation = .reviseFaceted p.1.post content p.1.supersedes := by
  simp only [reviseFacetedOf, bind_eq_ok, FacetedText.new_eq_ok, and_assoc]
  exact exists_congr fun content => and_congr_right fun _ => and_congr_right fun _ =>
    ⟨fun h => by cases h; rfl, fun h => h ▸ rfl⟩

/-! ### Operations -/

theorem codec_reaction : Codec getReaction encodeReaction fun _ => True := by
  refine .tagged (fun r => by cases r <;> exact ⟨_, _, rfl⟩) fun t => ?_
  split
  · exact .constant (fun r => by cases r <;> simp [encodeReaction, putU8]) rfl
  · exact codec_id.map (fun r => by cases r <;> simp [encodeReaction, putU8]) fun _ => rfl
  · exact codec_id.map (fun r => by cases r <;> simp [encodeReaction, putU8]) fun _ => rfl
  · exact .none (fun _ => ⟨_, rfl⟩) fun r => by cases r <;> simp_all [encodeReaction, putU8, eq_comm]

theorem codec_postFaceted :
    Codec (do let fields ← getPostFields; let facets ← getFacets; Reader.lift (postFacetedOf (fields, facets)))
    (fun o => (encodeOperation o).tail) fun o => True ∧ (encodeOperation o).head? = some 8 := by
  have h : Codec (do
      let p ← (do let fields ← getPostFields; let facets ← getFacets; pure (fields, facets))
      Reader.lift (postFacetedOf p)) (fun o => (encodeOperation o).tail)
      fun o => True ∧ (encodeOperation o).head? = some 8 := by
    refine (codec_postFields.pair codec_facets).lift (fun o => ?_) fun p o ho => ?_
    · constructor
      · cases o <;> simp [encodeOperation, putU8]
        rename_i placement content reply quote
        exact ⟨⟨placement, content.text, reply, quote⟩, content.facets, content.length_le,
          postFacetedOf_eq_ok.2 ⟨content, rfl, rfl, rfl⟩⟩
      · rintro ⟨p, -, ho⟩
        obtain ⟨content, -, -, rfl⟩ := postFacetedOf_eq_ok.1 ho
        exact ⟨trivial, rfl⟩
    · obtain ⟨content, htext, hfacets, rfl⟩ := postFacetedOf_eq_ok.1 ho
      simp [encodeOperation, putU8, htext, hfacets]
  simpa only [bind_assoc, pure_bind] using h

theorem codec_reviseFaceted :
    Codec (do let fields ← getRevisionFields; let facets ← getFacets; Reader.lift (reviseFacetedOf (fields, facets)))
    (fun o => (encodeOperation o).tail) fun o => True ∧ (encodeOperation o).head? = some 9 := by
  have h : Codec (do
      let p ← (do let fields ← getRevisionFields; let facets ← getFacets; pure (fields, facets))
      Reader.lift (reviseFacetedOf p)) (fun o => (encodeOperation o).tail)
      fun o => True ∧ (encodeOperation o).head? = some 9 := by
    refine (codec_revisionFields.pair codec_facets).lift (fun o => ?_) fun p o ho => ?_
    · constructor
      · cases o <;> simp [encodeOperation, putU8]
        rename_i post content supersedes
        exact ⟨⟨post, content.text, supersedes⟩, content.facets, content.length_le,
          reviseFacetedOf_eq_ok.2 ⟨content, rfl, rfl, rfl⟩⟩
      · rintro ⟨p, -, ho⟩
        obtain ⟨content, -, -, rfl⟩ := reviseFacetedOf_eq_ok.1 ho
        exact ⟨trivial, rfl⟩
    · obtain ⟨content, htext, hfacets, rfl⟩ := reviseFacetedOf_eq_ok.1 ho
      simp [encodeOperation, putU8, htext, hfacets]
  simpa only [bind_assoc, pure_bind] using h

theorem codec_operation : Codec getOperation encodeOperation fun _ => True := by
  refine .tagged (fun o => by cases o <;> exact ⟨_, _, rfl⟩) fun t => ?_
  split
  · refine codec_postFields.map (fun o => ?_) fun _ => rfl
    cases o <;> simp [encodeOperation, putU8, postOf]
    exact ⟨⟨_, _, _, _⟩, rfl, rfl, rfl, rfl⟩
  · refine codec_revisionFields.map (fun o => ?_) fun _ => rfl
    cases o <;> simp [encodeOperation, putU8, reviseOf]
    exact ⟨⟨_, _, _⟩, rfl, rfl, rfl⟩
  · exact codec_id.map (fun o => by cases o <;> simp [encodeOperation, putU8]) fun _ => rfl
  · exact codec_id.map₃ (codec_option codec_id) codec_refs (fun o => by cases o <;> simp [encodeOperation, putU8])
      fun _ _ _ => rfl
  · exact codec_id.map₃ codec_reaction codec_refs (fun o => by cases o <;> simp [encodeOperation, putU8])
      fun _ _ _ => rfl
  · exact codec_id.map₃ codec_bool codec_refs (fun o => by cases o <;> simp [encodeOperation, putU8]) fun _ _ _ => rfl
  · exact codec_text.map₂ codec_refs (fun o => by cases o <;> simp [encodeOperation, putU8]) fun _ _ => rfl
  · exact codec_text.map₂ codec_refs (fun o => by cases o <;> simp [encodeOperation, putU8]) fun _ _ => rfl
  · exact codec_postFaceted
  · exact codec_reviseFaceted
  · exact .none (fun _ => ⟨_, rfl⟩) fun o => by cases o <;> simp_all [encodeOperation, putU8, eq_comm]

theorem codec_actor : Codec getActor encodeActor fun _ => True := by
  refine .tagged (fun a => by cases a <;> exact ⟨_, _, rfl⟩) fun t => ?_
  split
  · exact codec_id.map₂ codec_id (fun a => by cases a <;> simp [encodeActor, putU8]) fun _ _ => rfl
  · exact codec_id.map₃ codec_id codec_id (fun a => by cases a <;> simp [encodeActor, putU8]) fun _ _ _ => rfl
  · exact .none (fun _ => ⟨_, rfl⟩) fun a => by cases a <;> simp_all [encodeActor, putU8, eq_comm]

theorem codec_grant : Codec (do
      let agent ← getId; let realm ← getRealm; let rights ← getRights; let expiresAt ← getInt; let nonce ← getArray 32
      pure (.grant agent realm rights expiresAt nonce))
    (fun a => (encodeAction a).tail) fun a => True ∧ (encodeAction a).head? = some 0 := by
  have h : Codec (do
      let p ← (do let agent ← getId; let realm ← getRealm; pure (agent, realm))
      let rights ← getRights
      let q ← (do let expiresAt ← getInt; let nonce ← getArray 32; pure (expiresAt, nonce))
      pure (.grant p.1 p.2 rights q.1 q.2))
      (fun a => (encodeAction a).tail) fun a => True ∧ (encodeAction a).head? = some 0 :=
    (codec_id.pair codec_realm).map₃ codec_rights (codec_int.pair codec_array)
      (fun a => by cases a <;> simp [encodeAction, putU8]) fun _ _ _ => by simp [encodeAction, putU8]
  simpa only [bind_assoc, pure_bind] using h

theorem codec_action : Codec getAction encodeAction fun _ => True := by
  refine .tagged (fun a => by cases a <;> exact ⟨_, _, rfl⟩) fun t => ?_
  split
  · exact codec_grant
  · exact codec_id.map₂ codec_refs (fun a => by cases a <;> simp [encodeAction, putU8]) fun _ _ => rfl
  · exact codec_id.map₃ codec_realm codec_refs (fun a => by cases a <;> simp [encodeAction, putU8]) fun _ _ _ => rfl
  · exact codec_realm.map₂ codec_refs (fun a => by cases a <;> simp [encodeAction, putU8]) fun _ _ => rfl
  · exact codec_realm.map₂ codec_refs (fun a => by cases a <;> simp [encodeAction, putU8]) fun _ _ => rfl
  · exact codec_array.map (fun a => by cases a <;> simp [encodeAction, putU8]) fun _ => rfl
  · exact .none (fun _ => ⟨_, rfl⟩) fun a => by cases a <;> simp_all [encodeAction, putU8, eq_comm]

/-! ### Bodies -/

theorem codec_agentGenesis : Codec (do
      let owner ← getId; let control ← getId; let key ← getArray 32; let nonce ← getArray 32
      pure (.agentGenesis owner control key nonce))
    (fun b => (encodeBody b).tail) fun b => True ∧ (encodeBody b).head? = some 2 := by
  have h : Codec (do
      let p ← (do let owner ← getId; let control ← getId; pure (owner, control))
      let key ← getArray 32
      let nonce ← getArray 32
      pure (.agentGenesis p.1 p.2 key nonce))
      (fun b => (encodeBody b).tail) fun b => True ∧ (encodeBody b).head? = some 2 :=
    (codec_id.pair codec_id).map₃ codec_array codec_array
      (fun b => by cases b <;> simp [encodeBody, putU8]) fun _ _ _ => by simp [encodeBody, putU8]
  simpa only [bind_assoc, pure_bind] using h

theorem codec_social : Codec (do
      let actor ← getActor; let realm ← getRealm; let sequence ← getInt; let previous ← getOption getId
      let operation ← getOperation
      pure (.social actor realm sequence previous operation))
    (fun b => (encodeBody b).tail) fun b => True ∧ (encodeBody b).head? = some 3 := by
  have h : Codec (do
      let p ← (do let actor ← getActor; let realm ← getRealm; pure (actor, realm))
      let sequence ← getInt
      let q ← (do let previous ← getOption getId; let operation ← getOperation; pure (previous, operation))
      pure (.social p.1 p.2 sequence q.1 q.2))
      (fun b => (encodeBody b).tail) fun b => True ∧ (encodeBody b).head? = some 3 :=
    (codec_actor.pair codec_realm).map₃ codec_int ((codec_option codec_id).pair codec_operation)
      (fun b => by cases b <;> simp [encodeBody, putU8]) fun _ _ _ => by simp [encodeBody, putU8]
  simpa only [bind_assoc, pure_bind] using h

theorem codec_body : Codec getBody encodeBody fun _ => True := by
  refine .tagged (fun b => by cases b <;> exact ⟨_, _, rfl⟩) fun t => ?_
  split
  · exact codec_array.map₃ (codec_option codec_array) codec_array (fun b => by cases b <;> simp [encodeBody, putU8])
      fun _ _ _ => rfl
  · exact codec_id.map₃ codec_id codec_action (fun b => by cases b <;> simp [encodeBody, putU8]) fun _ _ _ => rfl
  · exact codec_agentGenesis
  · exact codec_social
  · exact .none (fun _ => ⟨_, rfl⟩) fun b => by cases b <;> simp [encodeBody, putU8]
  · exact .none (fun _ => ⟨_, rfl⟩) fun b => by cases b <;> simp_all [encodeBody, putU8, eq_comm]

/-! ### Records -/

theorem codec_fact : Codec getFact Fact.bytes fun _ => True := by
  refine Codec.magic.field (fun _ => ()) fun _ => ?_
  exact codec_array.field Fact.primary fun _ => codec_body.lastField Fact.body
    fun _ => .pure _ fun fact => by cases fact; simp

theorem Fact.bytes_inj {fact fact' : Fact} (h : fact.bytes = fact'.bytes) : fact = fact' := by
  have hread := (codec_fact.iff (fact.bytes ++ []) fact []).2 ⟨rfl, trivial⟩
  have hread' := (codec_fact.iff (fact.bytes ++ []) fact' []).2 ⟨by rw [h], trivial⟩
  rw [hread] at hread'
  cases hread'
  rfl

variable {crypto : Crypto}

theorem UnsignedRecord.ext_fact {record record' : UnsignedRecord crypto} (h : record.fact = record'.fact) : record = record' := by
  cases record
  cases record'
  cases h
  rfl

theorem UnsignedRecord.new_eq_ok {primary : Bytes32} {body : Body} {record : UnsignedRecord crypto} :
    UnsignedRecord.new primary body = .ok record ↔ record.fact = ⟨primary, body⟩ := by
  unfold UnsignedRecord.new
  constructor
  · intro h
    split at h <;> cases h
    rfl
  · intro h
    split
    · exact congrArg _ (UnsignedRecord.ext_fact h.symm)
    · rename_i he
      rw [← h, record.valid] at he
      cases he

theorem decodeUnsigned_eq_ok {canonical : List UInt8} {record : UnsignedRecord crypto} :
    decodeUnsigned canonical = .ok record ↔ canonical = record.unsignedBytes := by
  unfold decodeUnsigned
  have hiff := fun fact => codec_fact.iff canonical fact []
  rcases hget : exec getFact canonical with ⟨e | fact, rest⟩
  · refine ⟨fun h => (nomatch h), fun h => ?_⟩
    rw [((hiff record.fact).2 ⟨by rw [List.append_nil]; exact h, trivial⟩)] at hget
    cases hget
  · simp only [bind_eq_ok, require_eq_ok, List.isEmpty_iff, UnsignedRecord.new_eq_ok, beq_iff_eq]
    constructor
    · rintro ⟨-, -, record', -, -, hbytes, h⟩
      cases h
      exact hbytes.symm
    · intro h
      rw [((hiff record.fact).2 ⟨by rw [List.append_nil]; exact h, trivial⟩)] at hget
      cases hget
      exact ⟨(), rfl, record, rfl, (), h.symm, rfl⟩

theorem UnsignedRecord.length_le (record : UnsignedRecord crypto) :
    record.unsignedBytes.length ≤ maxRecordBytes - proofSize record.fact.body := by
  have h := record.valid
  simp only [Fact.check, bind_eq_ok, require_eq_ok, decide_eq_true_eq] at h
  obtain ⟨-, -, -, -, h⟩ := h
  exact h

theorem length_encodeBody_pos (body : Body) : 1 ≤ (encodeBody body).length := by
  cases body <;> simp [encodeBody, putU8]

theorem UnsignedRecord.le_length (record : UnsignedRecord crypto) : 38 ≤ record.unsignedBytes.length := by
  have h := length_encodeBody_pos record.fact.body
  simp only [UnsignedRecord.unsignedBytes, Fact.bytes, List.length_append, Vector.length_toList]
  show 38 ≤ 5 + (32 + (encodeBody record.fact.body).length)
  omega

theorem codec_canonical :
    Codec getCanonical (fun bytes => toBe (UInt32.ofNat bytes.length) ++ bytes)
      fun bytes => 38 ≤ bytes.length ∧ bytes.length ≤ maxRecordBytes - 69 := by
  have hnat : ∀ n, n ≤ maxRecordBytes - 69 → (UInt32.ofNat n).toNat = n := fun n hn =>
    UInt32.toNat_ofNat_of_lt' (Nat.lt_of_le_of_lt hn (by decide))
  refine codec_int.field (fun bytes : List UInt8 => UInt32.ofNat bytes.length) fun n => ?_
  split
  · rename_i hn
    refine (Codec.take _ _).congr (fun bytes => ?_) fun _ _ => rfl
    constructor
    · rintro ⟨⟨-, hle⟩, rfl⟩
      exact (hnat _ hle).symm
    · intro hlen
      exact ⟨hlen ▸ hn, by rw [hlen, UInt32.ofNat_toNat]⟩
  · rename_i hn
    refine .none (fun _ => ⟨_, rfl⟩) fun bytes => ?_
    rintro ⟨⟨hge, hle⟩, rfl⟩
    rw [hnat _ hle] at hn
    exact hn ⟨hge, hle⟩

theorem codec_unsigned :
    Codec (getUnsigned : GetM (UnsignedRecord crypto))
      (fun record => toBe (UInt32.ofNat record.unsignedBytes.length) ++ record.unsignedBytes) fun _ => True := by
  refine codec_canonical.lift (fun record => ?_) fun bytes record h => by rw [decodeUnsigned_eq_ok.1 h]
  have hle := record.length_le
  have hproof : 69 ≤ proofSize record.fact.body := Nat.le_add_right 69 _
  refine ⟨fun _ => ⟨record.unsignedBytes, ⟨record.le_length, by omega⟩, decodeUnsigned_eq_ok.2 rfl⟩, fun _ => trivial⟩

theorem SignedRecord.build_eq_ok {p : UnsignedRecord crypto × Signature × Option Signature} {record : SignedRecord crypto} :
    SignedRecord.build p = .ok record ↔ p = (record.unsigned, record.signature, record.acknowledgement) := by
  unfold SignedRecord.build
  constructor
  · intro h
    split at h <;> cases h
    rfl
  · rintro rfl
    rw [dif_pos record.acknowledged]

theorem codec_proof : Codec getProof (fun p => p.1.toList ++ putOption Vector.toList p.2) fun _ => True :=
  (codec_array.pair (codec_option codec_array)).congr (fun _ => by simp) fun _ _ => rfl

theorem codec_signed : Codec (getSigned : GetM (SignedRecord crypto)) SignedRecord.encode fun _ => True := by
  refine (codec_unsigned.pair codec_proof).lift (fun record => ?_) fun p record h => ?_
  · exact ⟨fun _ => ⟨_, ⟨trivial, trivial⟩, SignedRecord.build_eq_ok.2 rfl⟩, fun _ => trivial⟩
  · rw [SignedRecord.build_eq_ok.1 h]
    rfl

namespace SignedRecord
variable {record : SignedRecord crypto} {raw : List UInt8}

theorem length_encode_le (record : SignedRecord crypto) : record.encode.length ≤ maxRecordBytes := by
  have hle := record.unsigned.length_le
  have hack := record.acknowledged
  have hu : (toBe (UInt32.ofNat record.unsigned.unsignedBytes.length)).length = 4 := length_toBe _
  rw [UnsignedRecord.acknowledgementKey] at hack
  simp only [encode, List.length_append, hu, Vector.length_toList]
  rw [proofSize, ← hack] at hle
  rcases hsig : record.acknowledgement with _ | signature <;> rw [hsig] at hle
  · simp only [Option.isSome_none, Bool.false_eq_true, if_false, maxRecordBytes] at hle
    simp only [putOption, putBool, putU8, maxRecordBytes, List.length_cons, List.length_nil]
    omega
  · simp only [Option.isSome_some, if_true, maxRecordBytes] at hle
    simp only [putOption, putBool, putU8, maxRecordBytes, List.length_append, List.length_cons, List.length_nil,
      Vector.length_toList]
    omega

theorem decode_eq_ok : decode raw = .ok record ↔ raw = record.encode := by
  rw [decode, codec_signed.decode_eq_ok]
  exact ⟨fun h => h.1, fun h => ⟨h, trivial, record.length_encode_le⟩⟩

end SignedRecord

theorem VerifiedRecord.new_eq_ok {signed : SignedRecord crypto} {record : VerifiedRecord crypto} :
    VerifiedRecord.new signed = .ok record ↔ record.signed = signed := by
  unfold VerifiedRecord.new
  constructor
  · intro h
    split at h <;> cases h
    rfl
  · rintro rfl
    split
    · rfl
    · rename_i he
      rw [record.verified] at he
      cases he

end Valhalla.Social
