import Valhalla.Social.Archive

/-!
# Archives are unions

What an archive accounts for depends on the facts it holds and nothing else, so the two orders of a union are
classified alike. A snapshot is decoded to the archive that wrote it.
-/

namespace Valhalla.Social
open Fallible FixedWidth Check

variable {crypto : Crypto}

theorem VerifiedRecord.decode_eq_ok {raw : List UInt8} {record : VerifiedRecord crypto} :
    VerifiedRecord.decode raw = .ok record ↔ raw = record.encode := by
  simp only [VerifiedRecord.decode, bind_eq_ok, SignedRecord.decode_eq_ok, VerifiedRecord.new_eq_ok]
  constructor
  · rintro ⟨signed, rfl, rfl⟩
    rfl
  · rintro rfl
    exact ⟨record.signed, rfl, rfl⟩

namespace Archive

theorem ext {a b : Archive crypto} (hrealm : a.realm = b.realm) (hlimits : a.limits = b.limits)
    (hrecords : a.records = b.records) (hbuckets : a.buckets = b.buckets) : a = b := by
  obtain ⟨realm, limits, records, buckets, keyed⟩ := a
  obtain ⟨realm', limits', records', buckets', keyed'⟩ := b
  cases hrealm
  cases hlimits
  cases hrecords
  cases hbuckets
  rfl

/-! ### Quotas -/

/-- The configured limits on what an archive stores. -/
structure Quotas (limits : Limits) (accounting : Accounting) : Prop where
  data : accounting.data + accounting.pressure.pending + accounting.pressure.controlSpill ≤ limits.records - limits.controlReserve
  staging : accounting.pressure.pending + accounting.pressure.dataSpill + accounting.pressure.controlSpill ≤ limits.pending
  signers : ∀ (key : Bytes32) (n : Nat), accounting.signerPending[key]? = some n → n ≤ limits.pendingPerSigner

theorem withinLimits_iff {limits : Limits} {accounting : Accounting} :
    withinLimits limits accounting = true ↔ Quotas limits accounting := by
  simp only [withinLimits, Bool.not_eq_true', Bool.or_eq_false_iff, decide_eq_false_iff_not, List.any_eq_false,
    decide_eq_true_eq, Nat.not_lt, Prod.forall, Std.ExtTreeMap.mem_toList_iff_getElem?_eq_some]
  constructor
  · rintro ⟨⟨hdata, hstaging⟩, hsigners⟩
    exact ⟨hdata, hstaging, hsigners⟩
  · rintro ⟨hdata, hstaging, hsigners⟩
    exact ⟨⟨hdata, hstaging⟩, hsigners⟩

/-- Everything that classification reads. -/
structure SameFacts (a b : Archive crypto) : Prop where
  realm : a.realm = b.realm
  limits : a.limits = b.limits
  facts : factsOf a.records = factsOf b.records

theorem SameFacts.evidence {a b : Archive crypto} (h : SameFacts a b) : a.evidence = b.evidence := by
  rw [Archive.evidence, Archive.evidence, h.realm, h.limits, h.facts]

theorem SameFacts.recount {a b : Archive crypto} (h : SameFacts a b) : a.recount = b.recount := by
  rw [Archive.recount, Archive.recount, h.evidence]

theorem keys_factsOf (records : Std.ExtTreeMap RecordId (VerifiedRecord crypto) compare) :
    (factsOf records).keys = records.keys := Std.ExtTreeMap.keys_map

theorem size_factsOf (records : Std.ExtTreeMap RecordId (VerifiedRecord crypto) compare) :
    (factsOf records).size = records.size := Std.ExtTreeMap.size_map

theorem SameFacts.keys {a b : Archive crypto} (h : SameFacts a b) : a.records.keys = b.records.keys := by
  rw [← keys_factsOf, h.facts, keys_factsOf]

theorem SameFacts.size {a b : Archive crypto} (h : SameFacts a b) : a.records.size = b.records.size := by
  rw [← size_factsOf, h.facts, size_factsOf]

theorem SameFacts.root {a b : Archive crypto} (h : SameFacts a b) : a.root = b.root := by
  rw [Archive.root, Archive.root, h.realm, h.size, h.keys]

theorem reclassify_eq_ok {a a' : Archive crypto} {pressure : CapacityPressure} :
    a.reclassify = .ok (a', pressure) ↔ a.records.size ≤ a.limits.records ∧ Quotas a.limits a.recount ∧
      a' = { a with buckets := a.recount.buckets } ∧ pressure = a.recount.pressure := by
  simp only [reclassify, bind_eq_ok, require_eq_ok, decide_eq_true_eq, withinLimits_iff, exists_const]
  refine and_congr_right fun _ => and_congr_right fun _ => ?_
  constructor
  · intro h
    cases h
    exact ⟨rfl, rfl⟩
  · rintro ⟨rfl, rfl⟩
    rfl

structure Settled (a : Archive crypto) : Prop where
  checked : a.limits.check = .ok a.limits
  size : a.records.size ≤ a.limits.records
  quotas : Quotas a.limits a.recount
  buckets : a.buckets = a.recount.buckets
  realm : ∀ (id : RecordId) (record : VerifiedRecord crypto), a.records[id]? = some record → a.checkRealm record = .ok ()

theorem Settled.reclassify {a : Archive crypto} (h : a.Settled) : a.reclassify = .ok (a, a.recount.pressure) := by
  refine reclassify_eq_ok.2 ⟨h.size, h.quotas, ?_, rfl⟩
  rw [← h.buckets]

/-! ### Keeping records -/

section
variable {a : Archive crypto}

theorem getElem?_keep {record : VerifiedRecord crypto} {id : RecordId} :
    (a.keep record).records[id]? = if record.id = id then some record else a.records[id]? := Maps.getElem?_insert

theorem checkRealm_congr {b : Archive crypto} (h : a.realm = b.realm) (record : VerifiedRecord crypto) :
    a.checkRealm record = b.checkRealm record := by
  rw [checkRealm, checkRealm, h]

theorem check_eq_ok {limits checked : Limits} (h : limits.check = .ok checked) : checked = limits := by
  simp only [Limits.check, bind_eq_ok, require_eq_ok] at h
  obtain ⟨-, -, he⟩ := h
  cases he
  rfl

theorem empty_settled {realm : RealmId} {limits : Limits} (h : Archive.new realm limits = .ok a) : a.Settled := by
  obtain ⟨checked, hcheck, ha⟩ := bind_eq_ok.1 h
  obtain rfl := check_eq_ok hcheck
  have hrecount : a.recount = (⟨checked, []⟩ : Classified).accounting := by
    rw [recount, ControlView.accounting, ControlView.classified, ControlView.evidence_new]
    cases ha
    have hmap : factsOf (∅ : Std.ExtTreeMap RecordId (VerifiedRecord crypto) compare) = ∅ := by
      rw [factsOf, Std.ExtTreeMap.map_eq_empty_iff]
    rw [Archive.evidence, hmap, Evidence.records, Maps.toList_empty, List.map_nil]
  have hnone : (⟨checked, []⟩ : Classified).owners = ∅ := rfl
  have hbuckets : (⟨checked, []⟩ : Classified).accounting.buckets = ∅ := rfl
  refine ⟨?_, ?_, ?_, ?_, fun id record hr => ?_⟩
  · cases ha
    exact hcheck
  · cases ha
    exact Nat.zero_le _
  · rw [hrecount]
    refine ⟨?_, ?_, fun key n hn => ?_⟩
    · simp [Classified.accounting, Classified.pressure, hnone, Classified.dataOwners, Classified.pendingKeys,
        Classified.controlOwners]
    · simp [Classified.accounting, Classified.pressure, hnone, Classified.pendingKeys, Classified.controlOwners]
    · simp [Classified.accounting, Classified.pendingKeys] at hn
  · rw [hrecount, hbuckets]
    cases ha
    rfl
  · cases ha
    simp at hr

theorem Settled.of_reclassify {a' : Archive crypto} {pressure : CapacityPressure} (hchecked : a.limits.check = .ok a.limits)
    (hrealm : ∀ (id : RecordId) (record : VerifiedRecord crypto), a.records[id]? = some record → a.checkRealm record = .ok ())
    (h : a.reclassify = .ok (a', pressure)) : a'.Settled := by
  obtain ⟨hsize, hquotas, rfl, -⟩ := reclassify_eq_ok.1 h
  have hsame : SameFacts { a with buckets := a.recount.buckets } a := ⟨rfl, rfl, rfl⟩
  refine ⟨hchecked, hsize, ?_, ?_, fun id record hr => ?_⟩
  · rw [hsame.recount]
    exact hquotas
  · rw [hsame.recount]
  · rw [checkRealm_congr hsame.realm]
    exact hrealm id record hr

theorem realm_keep {record : VerifiedRecord crypto} (hrecord : a.checkRealm record = .ok ())
    (h : ∀ (id : RecordId) (r : VerifiedRecord crypto), a.records[id]? = some r → a.checkRealm r = .ok ())
    (id : RecordId) (r : VerifiedRecord crypto) (hr : (a.keep record).records[id]? = some r) :
    (a.keep record).checkRealm r = .ok () := by
  rw [getElem?_keep] at hr
  split at hr
  · cases hr
    exact hrecord
  · exact h id r hr

theorem Settled.retain {a' : Archive crypto} {record : VerifiedRecord crypto} {receipt : IngestReceipt} (ha : a.Settled)
    (h : a.retain record = .ok (receipt, a')) : a'.Settled := by
  simp only [Archive.retain, bind_eq_ok] at h
  obtain ⟨_, hrealm, h⟩ := h
  split at h
  · cases h
    exact ha
  · simp only [bind_eq_ok] at h
    obtain ⟨_, -, ⟨candidate, pressure⟩, hreclassify, bucket, -, _, -, he⟩ := h
    cases he
    exact .of_reclassify (a := a.keep record) ha.checked (realm_keep hrealm ha.realm) hreclassify

theorem ingest_cases {a' : Archive crypto} {budget budget' : InputBudget} {raw : List UInt8}
    {result : Except Error IngestReceipt} (h : exec (Archive.ingest raw) (a, budget) = (result, (a', budget'))) :
    ((∃ e, result = .error e) ∧ a' = a) ∨
    ∃ record receipt, result = .ok receipt ∧ VerifiedRecord.decode raw = .ok record ∧ a.retain record = .ok (receipt, a') := by
  unfold Archive.ingest at h
  rw [exec_examine_bind] at h
  cases hcharge : budget.charge raw.length with
  | error e =>
    simp only [hcharge] at h
    cases h
    exact .inl ⟨⟨e, rfl⟩, rfl⟩
  | ok charged =>
    simp only [hcharge, exec_bind_ok (exec_update _)] at h
    rw [exec_examine_bind] at h
    cases hbounds : require Error.bounds (decide (raw.length ≤ maxRecordBytes)) with
    | error e =>
      simp only [hbounds] at h
      cases h
      exact .inl ⟨⟨e, rfl⟩, rfl⟩
    | ok u =>
      simp only [hbounds] at h
      rw [exec_examine_bind] at h
      cases hdecode : (VerifiedRecord.decode raw : Except Error (VerifiedRecord crypto)) with
      | error e =>
        simp only [hdecode] at h
        cases h
        exact .inl ⟨⟨e, rfl⟩, rfl⟩
      | ok record =>
        simp only [hdecode] at h
        rw [exec_examine_bind] at h
        cases hretain : a.retain record with
        | error e =>
          simp only [hretain] at h
          cases h
          exact .inl ⟨⟨e, rfl⟩, rfl⟩
        | ok next =>
          simp only [hretain, exec_bind_ok (exec_update _)] at h
          cases h
          exact .inr ⟨record, next.1, rfl, rfl, hretain⟩

end

/-! ### Snapshots -/

def putBytes (bytes : List UInt8) : List UInt8 := toBe (UInt32.ofNat bytes.length) ++ bytes

def putFrames (realm : RealmId) (frames : List (List UInt8)) : List UInt8 :=
  snapshotMagic ++ (toBe realm.value ++ (toBe (UInt32.ofNat frames.length) ++ frames.flatMap putBytes))

theorem codec_frame : Codec getFrame putBytes fun frame => frame.length ≤ maxRecordBytes := by
  have hlength : Codec getFrameLength (fun n => toBe (UInt32.ofNat n)) (· ≤ maxRecordBytes) := .limited (by decide)
  refine hlength.bind List.length (fun _ h => h) fun n hn => (Codec.take _ n).congr (fun frame => ?_) fun _ _ => rfl
  constructor
  · exact fun h => h.2
  · rintro rfl
    exact ⟨hn, rfl⟩

theorem codec_frames {realm : RealmId} {limits : Limits} (hrecords : limits.records ≤ maxRecords) :
    Codec (getFrames realm limits) (putFrames realm) fun frames =>
      frames.length ≤ limits.records ∧ ∀ frame ∈ frames, frame.length ≤ maxRecordBytes := by
  have hmagic : Codec getMagicBytes (fun _ => snapshotMagic) fun _ => True := .magic
  have hrealm : Codec (getSameRealm realm) putRealm fun found => True ∧ ¬ found ≠ realm := codec_realm.check
  have hcount : Codec (getFrameCount limits.records) (fun n => toBe (UInt32.ofNat n)) (· ≤ limits.records) :=
    .limited (Nat.lt_of_le_of_lt hrecords (by decide))
  refine hmagic.field (fun _ => ()) fun _ => hrealm.bind (fun _ => realm)
    (fun _ _ => ⟨trivial, not_not_intro rfl⟩) fun found hfound => (Codec.counted hcount fun _ => codec_frame).congr
    (fun frames => ?_) fun _ _ => rfl
  rw [Codec.chained_of_forall]
  constructor
  · rintro ⟨⟨h, -⟩, -⟩
    exact h
  · exact fun h => ⟨⟨h, rfl⟩, (Decidable.not_not.1 hfound.2).symm⟩

theorem length_flatMap_putBytes_le {frames : List (List UInt8)} (h : ∀ frame ∈ frames, frame.length ≤ maxRecordBytes) :
    (frames.flatMap putBytes).length ≤ frames.length * (4 + maxRecordBytes) := by
  induction frames with
  | nil => exact Nat.le_refl _
  | cons frame frames ih =>
    have hframe := h frame List.mem_cons_self
    have hrest := ih fun f hf => h f (List.mem_cons_of_mem _ hf)
    have hlen : (toBe (UInt32.ofNat frame.length)).length = 4 := length_toBe _
    simp only [List.flatMap_cons, List.length_append, putBytes, hlen, List.length_cons, Nat.succ_mul]
    omega

theorem length_putFrames (realm : RealmId) (frames : List (List UInt8)) :
    (putFrames realm frames).length = snapshotHeader + (frames.flatMap putBytes).length := by
  have hrealm : (toBe realm.value).length = 16 := length_toBe _
  have hcount : (toBe (UInt32.ofNat frames.length)).length = 4 := length_toBe _
  simp only [putFrames, List.length_append, hrealm, hcount, snapshotMagic, List.length_cons, List.length_nil, snapshotHeader]
  omega

theorem preflightSnapshot_putFrames {realm : RealmId} {limits : Limits} (hrecords : limits.records ≤ maxRecords)
    {frames : List (List UInt8)} (hlen : frames.length ≤ limits.records)
    (hframes : ∀ frame ∈ frames, frame.length ≤ maxRecordBytes) :
    preflightSnapshot realm limits (putFrames realm frames) = .ok frames := by
  have hflat := length_flatMap_putBytes_le hframes
  have hle : frames.length * (4 + maxRecordBytes) ≤ maxRecords * (4 + maxRecordBytes) :=
    Nat.mul_le_mul_right _ (Nat.le_trans hlen hrecords)
  have hmax : (putFrames realm frames).length ≤ maxSnapshotBytes := by
    rw [length_putFrames, maxSnapshotBytes]
    omega
  have hleast : snapshotHeader ≤ (putFrames realm frames).length := by
    rw [length_putFrames]
    omega
  have hdecode : Reader.decode (fun _ _ => .bounds) (fun _ => .encoding) maxSnapshotBytes (getFrames realm limits)
      (putFrames realm frames) = .ok frames := (Codec.decode_eq_ok (codec_frames hrecords)).2 ⟨rfl, ⟨hlen, hframes⟩, hmax⟩
  rw [preflightSnapshot, bind_eq_ok]
  refine ⟨(), by rw [decide_eq_true hmax]; rfl, bind_eq_ok.2 ⟨(), by rw [decide_eq_true hleast]; rfl, hdecode⟩⟩

section
variable {a b : Archive crypto}

def frames (a : Archive crypto) : List (List UInt8) := a.records.toList.map (·.2.encode)

theorem snapshot_eq (a : Archive crypto) : a.snapshot = putFrames a.realm a.frames := by
  rw [snapshot, putFrames, frames, List.length_map, Std.ExtTreeMap.length_toList, List.flatMap_map]
  rfl

def keepAll (a : Archive crypto) (entries : List (RecordId × VerifiedRecord crypto)) : Archive crypto :=
  entries.foldl (fun a e => a.keep e.2) a

theorem keepAll_frame (a : Archive crypto) (entries : List (RecordId × VerifiedRecord crypto)) :
    (keepAll a entries).realm = a.realm ∧ (keepAll a entries).limits = a.limits ∧ (keepAll a entries).buckets = a.buckets := by
  induction entries generalizing a with
  | nil => exact ⟨rfl, rfl, rfl⟩
  | cons e entries ih => exact ih (a.keep e.2)

theorem records_keep (a : Archive crypto) (record : VerifiedRecord crypto) :
    (a.keep record).records = a.records.insert record.id record := rfl

theorem records_keepAll (a : Archive crypto) {entries : List (RecordId × VerifiedRecord crypto)}
    (hkeys : ∀ e ∈ entries, e.2.id = e.1) :
    (keepAll a entries).records = Maps.insertAll Prod.fst Prod.snd a.records entries := by
  induction entries generalizing a with
  | nil => rfl
  | cons e entries ih =>
    have hrest := ih (a.keep e.2) fun e' he' => hkeys e' (List.mem_cons_of_mem _ he')
    show (keepAll (a.keep e.2) entries).records = Maps.insertAll Prod.fst Prod.snd (a.records.insert e.1 e.2) entries
    rw [hrest, records_keep, hkeys e List.mem_cons_self]

theorem foldlM_loadFrame (a : Archive crypto) (entries : List (RecordId × VerifiedRecord crypto)) (last : Option RecordId)
    (hkeys : ∀ e ∈ entries, e.2.id = e.1) (hrealm : ∀ e ∈ entries, a.checkRealm e.2 = .ok ())
    (hlast : ∀ e ∈ entries, Ascending.follows compare last e.1 = true)
    (hascending : entries.Pairwise fun e e' => compare e.1 e'.1 = .lt) :
    ∃ last', (entries.map (·.2.encode)).foldlM loadFrame (a, last) = .ok (keepAll a entries, last') := by
  induction entries generalizing a last with
  | nil => exact ⟨last, rfl⟩
  | cons e entries ih =>
    rw [List.pairwise_cons] at hascending
    obtain ⟨last', hrest⟩ := ih (a.keep e.2) (some e.1) (fun e' he' => hkeys e' (List.mem_cons_of_mem _ he'))
      (fun e' he' => hrealm e' (List.mem_cons_of_mem _ he'))
      (fun e' he' => beq_iff_eq.2 (hascending.1 e' he')) hascending.2
    refine ⟨last', ?_⟩
    rw [List.map_cons, List.foldlM_cons, bind_eq_ok]
    refine ⟨(a.keep e.2, some e.1), ?_, hrest⟩
    have hid := hkeys e List.mem_cons_self
    simp only [loadFrame, bind_eq_ok, require_eq_ok]
    exact ⟨e.2, VerifiedRecord.decode_eq_ok.2 rfl, (), hrealm e List.mem_cons_self, (),
      hid.symm ▸ hlast e List.mem_cons_self, by rw [hid]; rfl⟩

theorem Settled.entries (h : a.Settled) : ∀ e ∈ a.records.toList, e.2.id = e.1 ∧ a.checkRealm e.2 = .ok () := by
  rintro ⟨id, record⟩ he
  rw [Std.ExtTreeMap.mem_toList_iff_getElem?_eq_some] at he
  exact ⟨a.keyed id record he, h.realm id record he⟩

theorem records_le_of_check {limits : Limits} (h : limits.check = .ok limits) : limits.records ≤ maxRecords := by
  simp only [Limits.check, bind_eq_ok, require_eq_ok, Bool.not_eq_true', Bool.or_eq_false_iff,
    decide_eq_false_iff_not, Nat.not_lt] at h
  obtain ⟨-, ⟨⟨⟨⟨⟨⟨⟨⟨⟨⟨⟨⟨⟨-, hrecords⟩, -⟩, -⟩, -⟩, -⟩, -⟩, -⟩, -⟩, -⟩, -⟩, -⟩, -⟩, -⟩, -⟩ := h
  exact hrecords

theorem Settled.decodeSnapshot (h : a.Settled) :
    decodeSnapshot a.realm a.limits a.snapshot = .ok { a with buckets := ∅ } := by
  have hnew : (Archive.new a.realm a.limits : Except Error (Archive crypto)) =
      .ok ⟨a.realm, a.limits, ∅, ∅, fun id record h => by simp at h⟩ := by
    rw [Archive.new, h.checked]
    rfl
  have hpreflight : preflightSnapshot a.realm a.limits a.snapshot = .ok a.frames := by
    rw [snapshot_eq]
    refine preflightSnapshot_putFrames (records_le_of_check h.checked) ?_ fun frame hframe => ?_
    · rw [frames, List.length_map, Std.ExtTreeMap.length_toList]
      exact h.size
    · obtain ⟨e, -, rfl⟩ := List.mem_map.1 hframe
      exact SignedRecord.length_encode_le e.2.signed
  obtain ⟨last, hload⟩ := foldlM_loadFrame (⟨a.realm, a.limits, ∅, ∅, fun id record h => by simp at h⟩ : Archive crypto)
    a.records.toList none (fun e he => (h.entries e he).1)
    (fun e he => (h.entries e he).2) (fun _ _ => rfl) Std.ExtTreeMap.ordered_keys_toList
  simp only [Archive.decodeSnapshot, bind_eq_ok]
  refine ⟨_, hnew, a.frames, hpreflight, _, hload, ?_⟩
  obtain ⟨hrealm, hlimits, hbuckets⟩ := keepAll_frame
    (⟨a.realm, a.limits, ∅, ∅, fun id record h => by simp at h⟩ : Archive crypto) a.records.toList
  refine congrArg Except.ok (ext hrealm hlimits ?_ hbuckets)
  show (keepAll _ a.records.toList).records = a.records
  rw [records_keepAll _ fun e he => (h.entries e he).1]
  exact Maps.ofEntries_toList

theorem Settled.fromSnapshot (h : a.Settled) : fromSnapshot a.realm a.limits a.snapshot = .ok a := by
  have hsame : SameFacts { a with buckets := ∅ } a := ⟨rfl, rfl, rfl⟩
  have hquotas : Quotas a.limits ({ a with buckets := ∅ } : Archive crypto).recount := by
    rw [hsame.recount]
    exact h.quotas
  have hbuckets : ({ a with buckets := ∅ } : Archive crypto).recount.buckets = a.buckets := by
    rw [hsame.recount, h.buckets]
  have hreclassify : ({ a with buckets := ∅ } : Archive crypto).reclassify = .ok _ :=
    reclassify_eq_ok.2 ⟨h.size, hquotas, rfl, rfl⟩
  simp only [Archive.fromSnapshot, bind_eq_ok]
  exact ⟨_, h.decodeSnapshot, _, hreclassify, congrArg Except.ok (ext rfl rfl rfl hbuckets)⟩

/-! ### Unions -/

def mergeOne (a : Archive crypto) (e : RecordId × VerifiedRecord crypto) : Archive crypto :=
  if a.records.contains e.1 then a else a.keep e.2

def mergeAll (a : Archive crypto) (entries : List (RecordId × VerifiedRecord crypto)) : Archive crypto := entries.foldl mergeOne a

theorem mergeOne_frame (a : Archive crypto) (e : RecordId × VerifiedRecord crypto) :
    (mergeOne a e).realm = a.realm ∧ (mergeOne a e).limits = a.limits ∧ a.records.size ≤ (mergeOne a e).records.size := by
  unfold mergeOne
  split
  · exact ⟨rfl, rfl, Nat.le_refl _⟩
  · exact ⟨rfl, rfl, Std.ExtTreeMap.size_le_size_insert⟩

theorem mergeAll_frame (a : Archive crypto) (entries : List (RecordId × VerifiedRecord crypto)) :
    (mergeAll a entries).realm = a.realm ∧ (mergeAll a entries).limits = a.limits ∧
      a.records.size ≤ (mergeAll a entries).records.size := by
  induction entries generalizing a with
  | nil => exact ⟨rfl, rfl, Nat.le_refl _⟩
  | cons e entries ih =>
    obtain ⟨hrealm, hlimits, hsize⟩ := mergeOne_frame a e
    obtain ⟨hrealm', hlimits', hsize'⟩ := ih (mergeOne a e)
    exact ⟨hrealm'.trans hrealm, hlimits'.trans hlimits, Nat.le_trans hsize hsize'⟩

theorem foldlM_mergeRecord (a : Archive crypto) (entries : List (RecordId × VerifiedRecord crypto))
    (hsize : a.records.size ≤ a.limits.records) :
    entries.foldlM mergeRecord a = if (mergeAll a entries).records.size ≤ a.limits.records then .ok (mergeAll a entries)
      else .error .capacity := by
  induction entries generalizing a with
  | nil => rw [mergeAll, List.foldl_nil, if_pos hsize]; rfl
  | cons e entries ih =>
    obtain ⟨-, hlimits, -⟩ := mergeOne_frame a e
    obtain ⟨-, -, hgrows⟩ := mergeAll_frame (mergeOne a e) entries
    have hstep : mergeRecord a e = (do
        require .capacity (decide ((mergeOne a e).records.size ≤ (mergeOne a e).limits.records))
        pure (mergeOne a e)) := rfl
    rw [List.foldlM_cons, hstep]
    show _ = if (mergeAll (mergeOne a e) entries).records.size ≤ a.limits.records then
      Except.ok (mergeAll (mergeOne a e) entries) else Except.error Error.capacity
    by_cases hfits : (mergeOne a e).records.size ≤ (mergeOne a e).limits.records
    · rw [decide_eq_true hfits]
      have hrest := ih (mergeOne a e) hfits
      rw [hlimits] at hrest
      exact hrest
    · rw [decide_eq_false hfits, if_neg (by rw [hlimits] at hfits; omega)]
      rfl

/-- Two archives hold the same fact under the ids that they share. -/
def Consistent (a b : Archive crypto) : Prop :=
  ∀ (id : RecordId) (r r' : VerifiedRecord crypto), a.records[id]? = some r → b.records[id]? = some r' → r.fact = r'.fact

theorem Settled.mergedSnapshot (ha : a.Settled) (hb : b.Settled) (hrealm : a.realm = b.realm) (hlimits : a.limits = b.limits) :
    a.mergedSnapshot b.snapshot =
      if (mergeAll a b.records.toList).records.size ≤ a.limits.records then
        (mergeAll a b.records.toList).reclassify.map Prod.fst
      else .error .capacity := by
  have hdecode : Archive.decodeSnapshot a.realm a.limits b.snapshot = .ok { b with buckets := ∅ } := by
    rw [hrealm, hlimits]
    exact hb.decodeSnapshot
  have hfold := foldlM_mergeRecord a b.records.toList ha.size
  rw [Archive.mergedSnapshot, hdecode]
  show (b.records.toList.foldlM mergeRecord a >>= fun candidate => candidate.reclassify >>= fun p => pure p.1) = _
  rw [hfold]
  split
  · show ((mergeAll a b.records.toList).reclassify >>= fun p => pure p.1) = _
    cases (mergeAll a b.records.toList).reclassify <;> rfl
  · rfl

end

inductive SameOutcome : Except Error (Archive crypto) → Except Error (Archive crypto) → Prop
  | failed (e e' : Error) : SameOutcome (.error e) (.error e')
  | merged {c c'} (ids : c.records.keys = c'.records.keys) (buckets : c.buckets = c'.buckets) (root : c.root = c'.root) :
    SameOutcome (.ok c) (.ok c')

theorem SameFacts.reclassify {c c' : Archive crypto} (h : SameFacts c c') :
    SameOutcome (c.reclassify.map Prod.fst) (c'.reclassify.map Prod.fst) := by
  have hrecount := h.recount
  have hreclassify : ∀ d : Archive crypto, d.reclassify =
      (if d.records.size ≤ d.limits.records ∧ withinLimits d.limits d.recount = true then
        .ok ({ d with buckets := d.recount.buckets }, d.recount.pressure) else .error .capacity) := by
    intro d
    unfold Archive.reclassify
    by_cases hsize : d.records.size ≤ d.limits.records
    · rw [decide_eq_true hsize]
      cases hwithin : withinLimits d.limits d.recount
      · rw [if_neg (by simp)]
        rfl
      · rw [if_pos ⟨hsize, rfl⟩]
        rfl
    · rw [decide_eq_false hsize, if_neg (fun h => hsize h.1)]
      rfl
  rw [hreclassify, hreclassify, h.size, h.limits, hrecount]
  split
  · exact .merged h.keys rfl h.root
  · exact .failed _ _

/-! ### Reachable archives -/

section
variable {a b : Archive crypto}

theorem realm_foldlM_loadFrame {frames : List (List UInt8)} {acc acc' : Archive crypto × Option RecordId}
    (h : frames.foldlM loadFrame acc = .ok acc')
    (hacc : ∀ (id : RecordId) (r : VerifiedRecord crypto), acc.1.records[id]? = some r → acc.1.checkRealm r = .ok ()) :
    acc'.1.realm = acc.1.realm ∧
      ∀ (id : RecordId) (r : VerifiedRecord crypto), acc'.1.records[id]? = some r → acc'.1.checkRealm r = .ok () := by
  refine foldlM_invariant (I := fun _ acc' => acc'.1.realm = acc.1.realm ∧ ∀ (id : RecordId) (r : VerifiedRecord crypto),
    acc'.1.records[id]? = some r → acc'.1.checkRealm r = .ok ()) ?_ ⟨rfl, hacc⟩ h
  intro done frame s s' hI hstep
  simp only [loadFrame, bind_eq_ok] at hstep
  obtain ⟨record, -, _, hrecord, _, -, he⟩ := hstep
  cases he
  exact ⟨hI.1, realm_keep hrecord hI.2⟩

theorem realm_decodeSnapshot {realm : RealmId} {limits : Limits} {raw : List UInt8} {c : Archive crypto}
    (h : decodeSnapshot realm limits raw = .ok c) : c.realm = realm ∧
      ∀ (id : RecordId) (r : VerifiedRecord crypto), c.records[id]? = some r → c.checkRealm r = .ok () := by
  simp only [Archive.decodeSnapshot, bind_eq_ok] at h
  obtain ⟨out, hnew, frames, -, ⟨c', last⟩, hfold, he⟩ := h
  cases he
  have hempty := empty_settled hnew
  obtain ⟨checked, -, hout⟩ := bind_eq_ok.1 hnew
  cases hout
  exact realm_foldlM_loadFrame hfold hempty.realm

theorem realm_mergeAll (ha : ∀ (id : RecordId) (r : VerifiedRecord crypto), a.records[id]? = some r → a.checkRealm r = .ok ())
    {entries : List (RecordId × VerifiedRecord crypto)} (hentries : ∀ e ∈ entries, a.checkRealm e.2 = .ok ())
    (id : RecordId) (r : VerifiedRecord crypto) (hr : (mergeAll a entries).records[id]? = some r) :
    (mergeAll a entries).checkRealm r = .ok () := by
  induction entries generalizing a with
  | nil => exact ha id r hr
  | cons e entries ih =>
    have hone : (mergeOne a e).realm = a.realm := (mergeOne_frame a e).1
    refine ih (a := mergeOne a e) (fun id r hr => ?_) (fun e' he' => ?_) hr
    · unfold mergeOne at hr ⊢
      split at hr
      · rename_i hmem
        rw [if_pos hmem]
        exact ha id r hr
      · rename_i hmem
        rw [if_neg hmem]
        exact realm_keep (hentries e List.mem_cons_self) ha id r hr
    · rw [checkRealm_congr hone]
      exact hentries e' (List.mem_cons_of_mem _ he')

theorem Settled.merge {a' : Archive crypto} {raw : List UInt8} (ha : a.Settled) (h : a.mergedSnapshot raw = .ok a') :
    a'.Settled ∧ a'.realm = a.realm ∧ a'.limits = a.limits := by
  simp only [Archive.mergedSnapshot, bind_eq_ok] at h
  obtain ⟨incoming, hdecode, candidate, hfold, ⟨c, pressure⟩, hreclassify, he⟩ := h
  cases he
  obtain ⟨hrealm, hrecords⟩ := realm_decodeSnapshot hdecode
  rw [foldlM_mergeRecord _ _ ha.size] at hfold
  split at hfold
  · cases hfold
    obtain ⟨hr, hl, -⟩ := mergeAll_frame a incoming.records.toList
    have hchecked : (mergeAll a incoming.records.toList).limits.check = .ok (mergeAll a incoming.records.toList).limits := by
      rw [hl]
      exact ha.checked
    refine ⟨.of_reclassify hchecked (realm_mergeAll ha.realm fun e he => ?_) hreclassify, ?_⟩
    · rw [← checkRealm_congr hrealm]
      exact hrecords e.1 e.2 (Std.ExtTreeMap.mem_toList_iff_getElem?_eq_some.1 he)
    · obtain ⟨-, -, rfl, -⟩ := reclassify_eq_ok.1 hreclassify
      exact ⟨hr, hl⟩
  · cases hfold

theorem Settled.retain_frame {a' : Archive crypto} {record : VerifiedRecord crypto} {receipt : IngestReceipt}
    (h : a.retain record = .ok (receipt, a')) : a'.realm = a.realm ∧ a'.limits = a.limits := by
  simp only [Archive.retain, bind_eq_ok] at h
  obtain ⟨_, -, h⟩ := h
  split at h
  · cases h
    exact ⟨rfl, rfl⟩
  · simp only [bind_eq_ok] at h
    obtain ⟨_, -, ⟨candidate, pressure⟩, hreclassify, bucket, -, _, -, he⟩ := h
    cases he
    obtain ⟨-, -, rfl, -⟩ := reclassify_eq_ok.1 hreclassify
    exact ⟨rfl, rfl⟩

end

inductive Reachable (realm : RealmId) (limits : Limits) : Archive crypto → Prop
  | new {a} (h : Archive.new realm limits = .ok a) : Reachable realm limits a
  | ingest {a a'} {budget budget' : InputBudget} {raw : List UInt8} {result : Except Error IngestReceipt}
      (ha : Reachable realm limits a) (h : exec (Archive.ingest raw) (a, budget) = (result, (a', budget'))) :
      Reachable realm limits a'
  | merge {a a'} {raw : List UInt8} (ha : Reachable realm limits a) (h : a.mergedSnapshot raw = .ok a') :
      Reachable realm limits a'

theorem Reachable.settled {realm : RealmId} {limits : Limits} {a : Archive crypto} (h : Reachable realm limits a) :
    a.Settled ∧ a.realm = realm ∧ a.limits = limits := by
  induction h with
  | new h =>
    have hsettled := empty_settled h
    obtain ⟨checked, hcheck, ha⟩ := bind_eq_ok.1 h
    cases ha
    exact ⟨hsettled, rfl, check_eq_ok hcheck⟩
  | ingest _ h ih =>
    obtain ⟨hsettled, hrealm, hlimits⟩ := ih
    obtain ⟨-, rfl⟩ | ⟨record, receipt, -, -, hretain⟩ := ingest_cases h
    · exact ⟨hsettled, hrealm, hlimits⟩
    · obtain ⟨hr, hl⟩ := Settled.retain_frame hretain
      exact ⟨hsettled.retain hretain, hr.trans hrealm, hl.trans hlimits⟩
  | merge _ h ih =>
    obtain ⟨hsettled, hrealm, hlimits⟩ := ih
    obtain ⟨hmerged, hr, hl⟩ := hsettled.merge h
    exact ⟨hmerged, hr.trans hrealm, hl.trans hlimits⟩

/-- Records of the two archives with equal content hashes have equal content. -/
def CollisionFree (a b : Archive crypto) : Prop :=
  ∀ (id id' : RecordId) (r r' : VerifiedRecord crypto), a.records[id]? = some r → b.records[id']? = some r' →
    crypto.sha256 (idDomain ++ r.fact.bytes) = crypto.sha256 (idDomain ++ r'.fact.bytes) → r.fact.bytes = r'.fact.bytes

end Archive

/-! An archive of one owner, with the owner's genesis. -/

def sampleKey : Bytes32 := beVector 32 0xea4a6c63e29c520abef5507b132ec5f9954776aebebe7b92421eea691446d22c

def sampleFact : Fact := ⟨sampleKey, .ownerGenesis sampleKey none (Vector.replicate 32 1)⟩

def sampleOwner : RecordId := ⟨beVector 32 0x168b1d2d8966e80ca218ff1e03522ce31961d234e713476c80cefce4d16415ab⟩

def sampleSignature : Signature := beVector 64
  0x758909877c3360267f4772a5d74bf62d38990a20d56043f9563312ee13f509122ee6988d102759ba88b2a1185f85f4bd422c4156efd493db1ebc6fa1277f730f

def sampleCrypto : Crypto where
  sha256 message :=
    if message.take idDomain.length = idDomain then sampleOwner.bytes
    else if message.length = 86 then beVector 32 0x2a0253f719e958f66af6ef87bc12ed9e0cc73450b4b928696deae751d0263da6
    else beVector 32 0x74dc29984c48b91a8ed9d927537c8c784dbbd8c5e97568a16f459799d73a2efd
  decodesKey key := key = sampleKey
  isWeak _ := false
  verifyStrict key message signature :=
    key = sampleKey && message = SignedRecord.signatureTranscript sampleOwner && signature = sampleSignature

def sampleLimits : Limits := ⟨1024, 128, 128, 64, 32, 128, 8⟩

def sampleRecord : List UInt8 :=
  toBe (103 : UInt32) ++ sampleFact.bytes ++ sampleSignature.toList ++ [0]

def sampleEmpty : Archive sampleCrypto := ⟨⟨77⟩, sampleLimits, ∅, ∅, fun id record h => by simp at h⟩

def sampleIngest : Except Error IngestReceipt × (Archive sampleCrypto × InputBudget) :=
  exec (Archive.ingest sampleRecord) (sampleEmpty, ⟨1, 1000⟩)

def sampleArchive : Archive sampleCrypto := sampleIngest.2.1

theorem sampleEmpty_reachable : Archive.Reachable ⟨77⟩ sampleLimits sampleEmpty := .new rfl

theorem sampleArchive_reachable : Archive.Reachable ⟨77⟩ sampleLimits sampleArchive := by
  -- with the result a variable, nothing is ingested to see that it is a pair
  have hreached : ∀ ingested, exec (Archive.ingest sampleRecord) (sampleEmpty, ⟨1, 1000⟩) = ingested →
      Archive.Reachable ⟨77⟩ sampleLimits ingested.2.1 := fun _ h => .ingest sampleEmpty_reachable h
  rw [sampleArchive]
  exact hreached sampleIngest rfl

theorem sampleArchive_keys : sampleArchive.records.keys = [sampleOwner] := by decide +kernel

theorem sampleArchive_evidence : sampleArchive.evidence =
    ⟨⟨77⟩, sampleLimits, (∅ : Std.ExtTreeMap RecordId Fact compare).insert sampleOwner sampleFact⟩ := by
  obtain ⟨-, hrealm, hlimits⟩ := sampleArchive_reachable.settled
  have hfacts : Archive.factsOf sampleArchive.records = (∅ : Std.ExtTreeMap RecordId Fact compare).insert sampleOwner sampleFact := by
    decide +kernel
  rw [Archive.evidence, hrealm, hlimits, hfacts]

end Valhalla.Social
