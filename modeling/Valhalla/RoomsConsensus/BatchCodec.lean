import Valhalla.RoomsConsensus.Batch

/-!
# Batches and bodies are canonical

The codec of every section. A batch is decoded from the encoding of its normal form and from nothing else, so a
value id stands for one normal form; and the magic tells what a byte string is.
-/

namespace Valhalla.RoomsConsensus
open Fallible FixedWidth Social Ascending
open Rooms (ValidatorMember maxOwners maxValidators)

/-! ### Sections -/

theorem codec_int {α : Type} [FixedWidth α] : Codec (getInt : GetM α) toBe fun _ => True := .int _

theorem codec_array {n : Nat} : Codec (getArray n) Vector.toList fun _ => True := .array _ n

theorem codec_count {limit : Nat} (h : limit < 2 ^ 32) :
    Codec (getCount limit) (fun n => toBe (UInt32.ofNat n)) (· ≤ limit) := .limited h

theorem codec_frontier : Codec getFrontier putFrontier fun _ => True :=
  codec_int.field Frontier.height fun _ => codec_array.field Frontier.value
    fun _ => codec_array.field Frontier.registry fun _ => codec_array.field Frontier.social fun _ =>
      codec_array.field Frontier.control fun _ => codec_int.lastField Frontier.time fun _ => .pure _ fun frontier => by
      cases frontier
      simp only [true_and, Frontier.mk.injEq, and_assoc]

theorem codec_member : Codec getMember putMember fun member => ¬ member.power = 0 := by
  have hfields : Codec getKeyPower putMember fun _ => True :=
    codec_array.field ValidatorMember.key fun _ => codec_int.lastField ValidatorMember.power fun _ => .pure _ fun member =>
      by cases member; simp
  exact (hfields.check (p := fun member => member.power = 0) (e := fun _ => .decode)).congr (fun _ => by rw [true_and])
    fun _ _ => rfl

/-- A rotation that the decoders accept. -/
structure CommittedRotation.Canonical (rotation : CommittedRotation) : Prop where
  length : rotation.validators.length ≤ maxValidators ∧ ¬ rotation.validators.length = 0
  powers : ∀ member ∈ rotation.validators, ¬ member.power = 0
  keys : (rotation.validators.map ValidatorMember.key).Pairwise (compare · · = .lt)

theorem CommittedRotation.Canonical.sorted {rotation : CommittedRotation} (h : rotation.Canonical) :
    Ascending.sorted compare rotation.validators = rotation.validators :=
  sorted_of_ascending ((List.pairwise_map.1 h.keys).imp ValidatorMember.lt_of_key_lt)

theorem codec_members : Codec getMembers (fun l => toBe (UInt32.ofNat l.length) ++ l.flatMap putMember) fun l =>
    (l.length ≤ maxValidators ∧ ¬ l.length = 0) ∧ (∀ member ∈ l, ¬ member.power = 0) ∧
      (l.map ValidatorMember.key).Pairwise (compare · · = .lt) :=
  codec_counted (codec_count (by decide)).check codec_member

theorem codec_rotation : Codec rotationPayload putRotation CommittedRotation.Canonical := by
  refine (codec_int.field CommittedRotation.fromHeight fun height => codec_members.last
    CommittedRotation.validators (fun rotation h => ?_) fun validators hok => ?_).congr (fun _ => Iff.rfl)
    fun rotation h => ?_
  · exact ⟨h.1.length, h.1.powers, h.1.keys⟩
  · refine .pure _ fun rotation => ?_
    constructor
    · rintro ⟨⟨-, rfl⟩, rfl⟩
      rfl
    · rintro rfl
      exact ⟨⟨⟨hok.1, hok.2.1, hok.2.2⟩, rfl⟩, rfl⟩
  · rw [putRotation, h.sorted]
    rfl

theorem codec_rotationOption :
    Codec rotationOption encodeRotation fun o => ∀ rotation, o = some rotation → rotation.Canonical := by
  refine .tagged (fun o => by cases o <;> exact ⟨_, _, rfl⟩) fun t => ?_
  split
  · exact .constant (by rintro (_ | _) <;> simp [encodeRotation]) rfl
  · exact codec_rotation.map (by rintro (_ | _) <;> simp [encodeRotation]) fun _ => rfl
  · exact .none (fun _ => ⟨_, rfl⟩) fun o => by cases o <;> simp_all [encodeRotation, eq_comm]

theorem codec_owner : Codec getOwner putOwner fun _ => True :=
  codec_array.lastField Id.bytes fun _ => .pure _ fun owner => by cases owner; simp

/-- An eligible set that the decoders accept. -/
structure CanonicalOwners (set : List OwnerId) : Prop where
  length : set.length ≤ maxOwners
  ascending : set.Pairwise (compare · · = .lt)

theorem codec_eligibleList : Codec eligibleList putOwners CanonicalOwners := by
  refine (codec_counted (codec_count (by decide)) codec_owner).congr (fun set => ?_) fun set h => ?_
  · rw [List.map_id]
    constructor
    · rintro ⟨hlen, hascending⟩
      exact ⟨hlen, fun _ _ => trivial, hascending⟩
    · rintro ⟨hlen, -, hascending⟩
      exact ⟨hlen, hascending⟩
  · have hascending : set.Pairwise (compare · · = .lt) := by simpa using h.2.2
    rw [putOwners, canonical_of_ascending hascending]
    rfl

theorem codec_eligibleSet : Codec eligibleSet encodeEligible fun o => ∀ set, o = some set → CanonicalOwners set := by
  refine .tagged (fun o => by cases o <;> exact ⟨_, _, rfl⟩) fun t => ?_
  split
  · exact .constant (by rintro (_ | _) <;> simp [encodeEligible]) rfl
  · exact codec_eligibleList.map (by rintro (_ | _) <;> simp [encodeEligible]) fun _ => rfl
  · exact .none (fun _ => ⟨_, rfl⟩) fun o => by cases o <;> simp_all [encodeEligible, eq_comm]

theorem codec_item : Codec getItem putItem fun item => item.length ≤ maxRecordBytes := by
  refine (codec_count (by decide)).bind List.length (fun _ h => h) fun n hn => (Codec.take _ n).congr (fun item => ?_)
    fun _ _ => rfl
  constructor
  · exact fun h => h.2
  · rintro rfl
    exact ⟨hn, rfl⟩

theorem codec_items : Codec getItems putItems fun items =>
    items.length ≤ maxBatchItems ∧ ∀ item ∈ items, item.length ≤ maxRecordBytes :=
  (Codec.counted (codec_count (by decide)) fun _ => codec_item).congr (fun _ => by rw [Codec.chained_of_forall])
    fun _ _ => rfl

theorem codec_game : Codec getGame putGame fun _ => True := by
  have hkind : Codec GameCommitmentKind.decode (fun kind => [kind.byte]) fun _ => True := by
    refine .tagged (fun kind => ⟨_, [], rfl⟩) fun t => ?_
    split
    · exact .constant (by rintro (_ | _) <;> simp [GameCommitmentKind.byte]) rfl
    · exact .constant (by rintro (_ | _) <;> simp [GameCommitmentKind.byte]) rfl
    · exact .constant (by rintro (_ | _) <;> simp [GameCommitmentKind.byte]) rfl
    · exact .constant (by rintro (_ | _) <;> simp [GameCommitmentKind.byte]) rfl
    · exact .none (fun _ => ⟨_, rfl⟩) fun kind => by cases kind <;> simp_all [GameCommitmentKind.byte, eq_comm]
  exact codec_int.field (fun game : GameCommitment => game.realm.value) fun _ =>
    codec_int.field (fun game : GameCommitment => game.room.value) fun _ => codec_array.field GameCommitment.session fun _ => codec_int.field GameCommitment.epoch fun _ =>
    hkind.field GameCommitment.kind fun _ => codec_array.lastField GameCommitment.object
    fun _ => .pure _ fun game => by
      obtain ⟨⟨realm⟩, ⟨room⟩, session, epoch, kind, object⟩ := game
      simp [and_assoc]

theorem codec_positive {limit : Nat} (h : limit < 2 ^ 32) :
    Codec (getPositive limit) (fun n => toBe (UInt32.ofNat n)) fun n => n ≤ limit ∧ ¬ n = 0 := (codec_count h).check

theorem codec_required {α : Type} {get : GetM (Option α)} {put : Option α → List UInt8} {ok : Option α → Prop}
    (h : Codec get put ok) : Codec (required get) put fun a => ok a ∧ ¬ a.isNone = true := h.check

/-! ### Versions -/

def eligibleFits : Version → Option (List OwnerId) → Bool
  | .v1, eligible => eligible.isNone
  | .v2, eligible => !eligible.isNone
  | .v3, _ | .v4, _ => true

def gamesFit : Version → List GameCommitment → Bool
  | .v1, games | .v2, games => games.length == 0
  | .v3, games => games.length != 0
  | .v4, _ => true

def rotationFits : Version → Option CommittedRotation → Bool
  | .v1, rotation | .v2, rotation | .v3, rotation => rotation.isNone
  | .v4, rotation => !rotation.isNone

theorem version_eq_iff {version : Version} {body : BatchBody} : body.version = version ↔
    eligibleFits version body.eligible = true ∧ gamesFit version body.games = true ∧
      rotationFits version body.rotation = true := by
  obtain ⟨time, evidence, records, games, eligible, rotation⟩ := body
  cases rotation <;> cases games <;> cases eligible <;> cases version <;>
    simp [BatchBody.version, eligibleFits, gamesFit, rotationFits]

theorem codec_eligible (version : Version) : Codec (getEligible version) (putEligibleOf version) fun eligible =>
    (∀ set, eligible = some set → CanonicalOwners set) ∧ eligibleFits version eligible = true := by
  cases version with
  | v1 => exact .constant (by rintro (_ | _) <;> simp [eligibleFits]) rfl
  | v2 => exact (codec_required codec_eligibleSet).congr (fun o => by cases o <;> simp [eligibleFits]) fun _ _ => rfl
  | v3 => exact codec_eligibleSet.congr (fun _ => and_iff_left rfl) fun _ _ => rfl
  | v4 => exact codec_eligibleSet.congr (fun _ => and_iff_left rfl) fun _ _ => rfl

theorem codec_games (version : Version) : Codec (getGames version) (putGamesOf version) fun games =>
    games.length ≤ maxGameCommitments ∧ gamesFit version games = true := by
  cases version with
  | v1 | v2 =>
    refine .constant (fun games => ?_) rfl
    constructor
    · rintro ⟨-, h⟩
      exact List.eq_nil_of_length_eq_zero (beq_iff_eq.1 h)
    · rintro rfl
      exact ⟨Nat.zero_le _, rfl⟩
  | v3 =>
    refine (Codec.counted (codec_positive (by decide)) fun _ => codec_game).congr (fun games => ?_) fun _ _ => rfl
    rw [Codec.chained_of_forall]
    simp [gamesFit]
  | v4 =>
    refine (Codec.counted (codec_count (by decide)) fun _ => codec_game).congr (fun games => ?_) fun _ _ => rfl
    rw [Codec.chained_of_forall]
    simp [gamesFit]

theorem codec_rotationOf (version : Version) : Codec (getRotation version) (putRotationOf version) fun rotation =>
    (∀ r, rotation = some r → r.Canonical) ∧ rotationFits version rotation = true := by
  cases version with
  | v1 | v2 | v3 => exact .constant (by rintro (_ | _) <;> simp [rotationFits]) rfl
  | v4 => exact (codec_required codec_rotationOption).congr (fun o => by cases o <;> simp [rotationFits]) fun _ _ => rfl

/-! ### Bodies and batches -/

/-- At most 32 records, none of them too long. -/
structure BoundedItems (items : List (List UInt8)) : Prop where
  length : items.length ≤ maxBatchItems
  sizes : ∀ item ∈ items, item.length ≤ maxRecordBytes

/-- A body in the form that the decoders accept. -/
structure BatchBody.Canonical (body : BatchBody) : Prop where
  evidence : BoundedItems body.evidence
  records : BoundedItems body.records
  games : body.games.length ≤ maxGameCommitments
  eligible : ∀ set, body.eligible = some set → CanonicalOwners set
  rotation : ∀ r, body.rotation = some r → r.Canonical

theorem codec_body (version : Version) :
    Codec (getBody version) (putBody version) fun body => body.Canonical ∧ body.version = version := by
  refine codec_int.field BatchBody.time fun time => codec_items.bind BatchBody.evidence
    (fun body h => ?_) fun evidence hevidence => codec_items.bind BatchBody.records (fun body h => ?_) fun records hrecords =>
    (codec_eligible version).bind BatchBody.eligible (fun body h => ?_) fun eligible heligible =>
    (codec_games version).bind BatchBody.games (fun body h => ?_) fun games hgames =>
    (codec_rotationOf version).last BatchBody.rotation (fun body h => ?_) fun rotation hrotation => .pure _ fun body => ?_
  · obtain ⟨⟨h, -⟩, -⟩ := h
    exact ⟨h.evidence.length, h.evidence.sizes⟩
  · obtain ⟨⟨⟨h, -⟩, -⟩, -⟩ := h
    exact ⟨h.records.length, h.records.sizes⟩
  · obtain ⟨⟨⟨⟨h, hversion⟩, -⟩, -⟩, -⟩ := h
    exact ⟨h.eligible, (version_eq_iff.1 hversion).1⟩
  · obtain ⟨⟨⟨⟨⟨h, hversion⟩, -⟩, -⟩, -⟩, -⟩ := h
    exact ⟨h.games, (version_eq_iff.1 hversion).2.1⟩
  · obtain ⟨⟨⟨⟨⟨⟨h, hversion⟩, -⟩, -⟩, -⟩, -⟩, -⟩ := h
    exact ⟨h.rotation, (version_eq_iff.1 hversion).2.2⟩
  · constructor
    · rintro ⟨⟨⟨⟨⟨⟨-, rfl⟩, rfl⟩, rfl⟩, rfl⟩, rfl⟩, rfl⟩
      rfl
    · rintro rfl
      refine ⟨⟨⟨⟨⟨⟨⟨?_, ?_⟩, rfl⟩, rfl⟩, rfl⟩, rfl⟩, rfl⟩, rfl⟩
      · exact ⟨⟨hevidence.1, hevidence.2⟩, ⟨hrecords.1, hrecords.2⟩, hgames.1, heligible.1, hrotation.1⟩
      · exact version_eq_iff.2 ⟨heligible.2, hgames.2, hrotation.2⟩

theorem codec_batch (version : Version) : Codec (getBatch version) (putBatch version) fun batch =>
    batch.toBatchBody.Canonical ∧ batch.version = version := by
  refine codec_frontier.field Batch.parent fun parent => (codec_body version).bind
    Batch.toBatchBody (fun batch h => h.1) fun body hbody => codec_array.field Batch.resultRegistry
    fun registry => codec_array.field Batch.resultSocial fun social => codec_array.lastField Batch.resultControl fun control =>
      .pure _ fun batch => ?_
  constructor
  · rintro ⟨⟨⟨⟨⟨-, rfl⟩, rfl⟩, rfl⟩, rfl⟩, rfl⟩
    rfl
  · rintro rfl
    exact ⟨⟨⟨⟨⟨hbody, rfl⟩, rfl⟩, rfl⟩, rfl⟩, rfl⟩

/-! ### Whole inputs -/

theorem batchMagic_injective {version version' : Version} (h : batchMagic version = batchMagic version') :
    version = version' := by
  cases version <;> cases version' <;> first | rfl | cases h

theorem bodyMagic_injective {version version' : Version} (h : bodyMagic version = bodyMagic version') :
    version = version' := by
  cases version <;> cases version' <;> first | rfl | cases h

theorem versionOf_eq_some {magic : Version → List UInt8} (hinj : ∀ {v v'}, magic v = magic v' → v = v') {raw : List UInt8}
    {version : Version} : versionOf magic raw = some version ↔ raw.take 4 = magic version := by
  constructor
  · intro h
    unfold versionOf at h
    split at h
    · cases h
      assumption
    · split at h
      · cases h
        assumption
      · split at h
        · cases h
          assumption
        · split at h <;> cases h
          assumption
  · intro h
    have hne : ∀ v, v ≠ version → raw.take 4 ≠ magic v := fun v hv he => hv (hinj (he.symm.trans h))
    unfold versionOf
    cases version with
    | v1 => rw [if_neg (hne _ (by decide)), if_neg (hne _ (by decide)), if_neg (hne _ (by decide)), if_pos h]
    | v2 => rw [if_pos h]
    | v3 => rw [if_neg (hne _ (by decide)), if_pos h]
    | v4 => rw [if_neg (hne _ (by decide)), if_neg (hne _ (by decide)), if_pos h]

section
variable {α : Type} {least most : Nat} {get : Option (GetM α)} {put : α → List UInt8} {ok : α → Prop} {raw : List UInt8} {a : α}

theorem get_of_decodeFramed (h : decodeFramed least most get raw = .ok a) : ∃ g, get = some g := by
  unfold decodeFramed at h
  split at h
  · cases h
  · cases get with
    | none => cases h
    | some g => exact ⟨g, rfl⟩

theorem decodeFramed_eq_ok {get : GetM α} (h : Codec get put ok) :
    decodeFramed least most (some get) raw = .ok a ↔
      (least ≤ raw.length ∧ raw.length ≤ most) ∧ raw.drop 4 = put a ∧ ok a := by
  have hiff := h.iff (raw.drop 4) a []
  rw [List.append_nil] at hiff
  rw [← hiff, decodeFramed]
  split
  · rename_i hbounds
    refine ⟨fun h => (nomatch h), fun ⟨⟨hleast, hmost⟩, _⟩ => ?_⟩
    omega
  · rename_i hbounds
    rw [and_iff_right (by omega)]
    rcases exec get (raw.drop 4) with ⟨e | a', _ | ⟨b, rest⟩⟩ <;> simp

theorem decodeVersioned_eq_ok {magic : Version → List UInt8} (hinj : ∀ {v v'}, magic v = magic v' → v = v')
    (hmagic : ∀ v, (magic v).length = 4) {get : Version → GetM α} {put : Version → α → List UInt8} {ok : α → Prop}
    {version : α → Version} (h : ∀ v, Codec (get v) (put v) fun a => ok a ∧ version a = v)
    (hleast : ∀ a, least ≤ 4 + (put (version a) a).length) :
    decodeFramed least most ((versionOf magic raw).map get) raw = .ok a ↔
      raw = magic (version a) ++ put (version a) a ∧ ok a ∧ raw.length ≤ most := by
  constructor
  · intro hdecode
    obtain ⟨g, hg⟩ := get_of_decodeFramed hdecode
    obtain ⟨v, hv, -⟩ := Option.map_eq_some_iff.1 hg
    rw [hv] at hdecode
    obtain ⟨⟨-, hmost⟩, hdrop, hok, rfl⟩ := (decodeFramed_eq_ok (h v)).1 hdecode
    refine ⟨?_, hok, hmost⟩
    rw [← (versionOf_eq_some hinj).1 hv, ← hdrop, List.take_append_drop]
  · rintro ⟨rfl, hok, hmost⟩
    have hv : versionOf magic (magic (version a) ++ put (version a) a) = some (version a) :=
      (versionOf_eq_some hinj).2 (List.take_left' (hmagic _))
    rw [hv]
    refine (decodeFramed_eq_ok (h _)).2 ⟨⟨?_, hmost⟩, List.drop_left' (hmagic _), hok, rfl⟩
    rw [List.length_append, hmagic]
    exact hleast a

end

theorem length_putItems (items : List (List UInt8)) : 4 ≤ (putItems items).length := by
  have h : (putLength items).length = 4 := length_toBe _
  rw [putItems, List.length_append, h]
  exact Nat.le_add_right _ _

theorem length_putBody (version : Version) (body : BatchBody) : 16 ≤ (putBody version body).length := by
  have htime : (toBe body.time).length = 8 := length_toBe _
  have hevidence := length_putItems body.evidence
  have hrecords := length_putItems body.records
  simp only [putBody, List.length_append, htime]
  omega

theorem length_putFrontier (frontier : Frontier) : (putFrontier frontier).length = frontierBytes := by
  have hheight : (toBe frontier.height).length = 8 := length_toBe _
  have htime : (toBe frontier.time).length = 8 := length_toBe _
  simp [putFrontier, frontierBytes, hheight, htime]

theorem length_putBatch (version : Version) (batch : Batch) : frontierBytes + 112 ≤ (putBatch version batch).length := by
  have hbody := length_putBody version batch.toBatchBody
  simp only [putBatch, List.length_append, length_putFrontier, Vector.length_toList]
  omega

theorem Batch.decode_eq_ok {raw : List UInt8} {batch : Batch} : Batch.decode raw = .ok batch ↔
    raw = batch.encode ∧ batch.toBatchBody.Canonical ∧ raw.length ≤ maxBatchBytes := by
  refine decodeVersioned_eq_ok batchMagic_injective (fun v => by cases v <;> rfl) codec_batch fun batch => ?_
  have h := length_putBatch batch.version batch
  omega

theorem BatchBody.decode_eq_ok {raw : List UInt8} {body : BatchBody} : BatchBody.decode raw = .ok body ↔
    raw = body.encode ∧ body.Canonical ∧ raw.length ≤ maxBatchBytes := by
  refine decodeVersioned_eq_ok bodyMagic_injective (fun v => by cases v <;> rfl) codec_body fun body => ?_
  have h := length_putBody body.version body
  omega

/-! ### Normal forms -/

def CommittedRotation.normal (rotation : CommittedRotation) : CommittedRotation :=
  ⟨rotation.fromHeight, sorted compare rotation.validators⟩

def BatchBody.normal (body : BatchBody) : BatchBody :=
  { body with
    eligible := body.eligible.map (canonical compare)
    rotation := body.rotation.map CommittedRotation.normal }

def Batch.normal (batch : Batch) : Batch := { batch with toBatchBody := batch.toBatchBody.normal }

theorem version_normal (body : BatchBody) : body.normal.version = body.version := by
  obtain ⟨time, evidence, records, games, eligible, rotation⟩ := body
  cases rotation <;> cases eligible <;> rfl

theorem ascending_sorted_self {α : Type} {cmp : α → α → Ordering} [Std.TransCmp cmp] {l : List α} :
    sorted cmp (sorted cmp l) = sorted cmp l := List.mergeSort_of_pairwise pairwise_sorted

theorem encodeRotation_normal (rotation : Option CommittedRotation) :
    encodeRotation (rotation.map CommittedRotation.normal) = encodeRotation rotation := by
  cases rotation with
  | none => rfl
  | some rotation =>
    simp only [Option.map_some, encodeRotation, putRotation, CommittedRotation.normal, ascending_sorted_self]

theorem encodeEligible_normal (eligible : Option (List OwnerId)) :
    encodeEligible (eligible.map (canonical compare)) = encodeEligible eligible := by
  cases eligible with
  | none => rfl
  | some set => simp only [Option.map_some, encodeEligible, putOwners, canonical_of_ascending ascending_canonical]

theorem putBody_normal (version : Version) (body : BatchBody) : putBody version body.normal = putBody version body := by
  obtain ⟨time, evidence, records, games, eligible, rotation⟩ := body
  cases version <;>
    simp only [putBody, BatchBody.normal, putEligibleOf, putGamesOf, putRotationOf, encodeEligible_normal, encodeRotation_normal]

theorem BatchBody.encode_normal (body : BatchBody) : body.normal.encode = body.encode := by
  rw [BatchBody.encode, BatchBody.encode, version_normal, putBody_normal]

theorem Batch.encode_normal (batch : Batch) : batch.normal.encode = batch.encode := by
  rw [Batch.encode, Batch.encode]
  show batchMagic batch.toBatchBody.normal.version ++ putBatch batch.toBatchBody.normal.version batch.normal = _
  rw [version_normal, putBatch, putBatch]
  show _ ++ (_ ++ (putBody batch.version batch.toBatchBody.normal ++ _)) = _
  rw [putBody_normal]
  rfl

structure BatchBody.Bounded (body : BatchBody) : Prop where
  evidence : BoundedItems body.evidence
  records : BoundedItems body.records
  games : body.games.length ≤ maxGameCommitments
  eligible : ∀ set, body.eligible = some set → (canonical compare set).length ≤ maxOwners
  rotation : ∀ r, body.rotation = some r → r.validators.length ≤ maxValidators
  keys : ∀ r, body.rotation = some r → (r.validators.map ValidatorMember.key).Nodup
  powers : ∀ r, body.rotation = some r → ∀ member ∈ r.validators, member.power ≠ 0

def BatchBody.Populated (body : BatchBody) : Prop := ∀ r, body.rotation = some r → r.validators ≠ []

theorem CommittedRotation.canonical_normal {rotation : CommittedRotation} (hlen : rotation.validators.length ≤ maxValidators)
    (hne : rotation.validators ≠ []) (hkeys : (rotation.validators.map ValidatorMember.key).Nodup)
    (hpowers : ∀ member ∈ rotation.validators, member.power ≠ 0) : rotation.normal.Canonical := by
  have hperm : (sorted compare rotation.validators).Perm rotation.validators := sorted_perm
  refine ⟨⟨?_, ?_⟩, fun member hmem => hpowers member (hperm.mem_iff.1 hmem), ?_⟩
  · exact hperm.length_eq ▸ hlen
  · show ¬ (sorted compare rotation.validators).length = 0
    rw [hperm.length_eq]
    exact fun h => hne (List.eq_nil_of_length_eq_zero h)
  · refine List.pairwise_map.2 (ascending_sorted (fun a ha b hb hab hle => ?_) (List.Nodup.of_map _ hkeys))
    exact ValidatorMember.key_lt_of_isLE (fun he => hab (List.inj_on_of_nodup_map hkeys ha hb he)) hle

theorem BatchBody.Bounded.canonical_normal {body : BatchBody} (h : body.Bounded) (hpopulated : body.Populated) :
    body.normal.Canonical := by
  refine ⟨h.evidence, h.records, h.games, fun set hset => ?_, fun r hr => ?_⟩
  · obtain ⟨s, hs, rfl⟩ := Option.map_eq_some_iff.1 hset
    exact ⟨h.eligible s hs, ascending_canonical⟩
  · obtain ⟨s, hs, rfl⟩ := Option.map_eq_some_iff.1 hr
    exact CommittedRotation.canonical_normal (h.rotation s hs) (hpopulated s hs) (h.keys s hs) (h.powers s hs)

/-! ### What a byte string is -/

/-- The forms of byte strings in the intake and on the wire. -/
inductive WireForm
  | batch (version : Version)
  | body (version : Version)
  | eligibleUpdate
  | rotationUpdate
deriving DecidableEq

def WireForm.magic : WireForm → List UInt8
  | .batch version => batchMagic version
  | .body version => bodyMagic version
  | .eligibleUpdate => eligibleMagic
  | .rotationUpdate => rotationMagic

def WireForm.Accepts (raw : List UInt8) : WireForm → Prop
  | .batch version => ∃ batch, Batch.decode raw = .ok batch ∧ batch.version = version
  | .body version => ∃ body, BatchBody.decode raw = .ok body ∧ body.version = version
  | .eligibleUpdate => ∃ set, decodeEligibleUpdate raw = .ok set
  | .rotationUpdate => ∃ rotation, decodeRotationUpdate raw = .ok rotation

theorem WireForm.magic_injective {form form' : WireForm} (h : form.magic = form'.magic) : form = form' := by
  rcases form with (_ | _ | _ | _) | (_ | _ | _ | _) | _ | _ <;>
    rcases form' with (_ | _ | _ | _) | (_ | _ | _ | _) | _ | _ <;> first | rfl | cases h

theorem WireForm.take_of_accepts {raw : List UInt8} {form : WireForm} (h : form.Accepts raw) : raw.take 4 = form.magic := by
  cases form with
  | batch version =>
    obtain ⟨batch, hdecode, rfl⟩ := h
    rw [(Batch.decode_eq_ok.1 hdecode).1]
    exact List.take_left' (by cases batch.version <;> rfl)
  | body version =>
    obtain ⟨body, hdecode, rfl⟩ := h
    rw [(BatchBody.decode_eq_ok.1 hdecode).1]
    exact List.take_left' (by cases body.version <;> rfl)
  | eligibleUpdate =>
    obtain ⟨set, hdecode⟩ := h
    obtain ⟨g, hg⟩ := get_of_decodeFramed hdecode
    exact (Option.ite_none_right_eq_some.1 hg).1
  | rotationUpdate =>
    obtain ⟨rotation, hdecode⟩ := h
    obtain ⟨g, hg⟩ := get_of_decodeFramed hdecode
    exact (Option.ite_none_right_eq_some.1 hg).1

/-- What the claims of a decided value rest on. -/
structure CodecLaws (crypto : Crypto) : Prop where
  batchCanonical : ∀ raw batch, Batch.decode raw = .ok batch → batch.encode = raw
  bodyCanonical : ∀ raw body, BatchBody.decode raw = .ok body → body.encode = raw
  batchNormal : ∀ batch : Batch, batch.Bounded → batch.Populated → batch.encode.length ≤ maxBatchBytes →
    Batch.decode batch.encode = .ok batch.normal
  bodyNormal : ∀ body : BatchBody, body.Bounded → body.Populated → body.encode.length ≤ maxBatchBytes →
    BatchBody.decode body.encode = .ok body.normal
  valueId : ∀ batch batch' : Batch, batch.Bounded → batch.Populated → batch.encode.length ≤ maxBatchBytes →
    batch'.Bounded → batch'.Populated → batch'.encode.length ≤ maxBatchBytes →
    (crypto.sha256 (valueDomain ++ batch.encode) = crypto.sha256 (valueDomain ++ batch'.encode) →
      valueDomain ++ batch.encode = valueDomain ++ batch'.encode) →
    (batch.valueId crypto = batch'.valueId crypto ↔ batch.normal = batch'.normal)
  exclusive : ∀ raw (form form' : WireForm), form.Accepts raw → form'.Accepts raw → form = form'

theorem batch_codec_laws (crypto : Crypto) : CodecLaws crypto := by
  have hnormal : ∀ batch : Batch, batch.Bounded → batch.Populated → batch.encode.length ≤ maxBatchBytes →
      Batch.decode batch.encode = .ok batch.normal := fun batch h hpopulated hlen =>
    Batch.decode_eq_ok.2 ⟨batch.encode_normal.symm, h.canonical_normal hpopulated, hlen⟩
  refine ⟨fun raw batch h => (Batch.decode_eq_ok.1 h).1.symm, fun raw body h => (BatchBody.decode_eq_ok.1 h).1.symm,
    hnormal, fun body h hpopulated hlen => ?_, ?_, fun raw form form' h h' => ?_⟩
  · exact BatchBody.decode_eq_ok.2 ⟨body.encode_normal.symm, h.canonical_normal hpopulated, hlen⟩
  · intro batch batch' h hpopulated hlen h' hpopulated' hlen' hfree
    constructor
    · intro hid
      have hencode : batch.encode = batch'.encode := List.append_cancel_left (hfree hid)
      have hdecode := hnormal batch h hpopulated hlen
      rw [hencode, hnormal batch' h' hpopulated' hlen'] at hdecode
      exact (Except.ok.inj hdecode).symm
    · intro hn
      rw [Batch.valueId, Batch.valueId, ← batch.encode_normal, hn, batch'.encode_normal]
  · exact WireForm.magic_injective ((WireForm.take_of_accepts h).symm.trans (WireForm.take_of_accepts h'))

def emptyRotationBody : BatchBody := ⟨0, [], [], [], none, some ⟨3, []⟩⟩

theorem empty_rotation_not_decoded : emptyRotationBody.Bounded ∧ emptyRotationBody.encode.length ≤ maxBatchBytes ∧
    BatchBody.decode emptyRotationBody.encode ≠ .ok emptyRotationBody.normal := by
  refine ⟨⟨⟨by decide, by simp [emptyRotationBody]⟩, ⟨by decide, by simp [emptyRotationBody]⟩, by decide,
    by simp [emptyRotationBody], ?_, ?_, ?_⟩, by decide +kernel, by decide +kernel⟩
  all_goals
    rintro r h
    cases h
    simp

end Valhalla.RoomsConsensus
