import Valhalla.DirectRoom.Roundtrip
import Valhalla.DirectSync.Snapshot

/-!
# A receiver follows its source

Whatever a source accepts, a receiver accepts page by page. The size bounds that refuse early are met because
every record after the genesis has at least `minRecordBytes` and at most `maxRecordBytes` (`verify_size`), so the
byte total of a source prefix lies between the bounds of its record count (`Sized`), and what is still to come
is never smaller than the receiver asks for (`Pushes.grows`).
-/

namespace Valhalla.DirectSync
open Fallible FixedWidth Check
open Valhalla.DirectRoom (PinnedGenesis)

variable {crypto : DirectRoom.Crypto}

/-! ### Frames -/

theorem minRecordBytes_eq : minRecordBytes = 209 := by decide

theorem maxRecordBytes_eq : maxRecordBytes = 6833 := by decide

@[simp] theorem room_eq_ok {α : Type} {result : Except DirectRoom.Error α} {a : α} : room result = .ok a ↔ result = .ok a :=
  mapError_eq_ok

section
variable {genesis : PinnedGenesis crypto} {sequence : UInt64} {frame : Frame} {record : VerifiedRecord crypto}

theorem length_encode {C I : Type} {kind : DirectRoom.RecordKind C I} (record : DirectRoom.Verified crypto kind) :
    record.encode.length = (kind.encode record.claims).length + 64 := by
  rw [DirectRoom.Verified.encode, DirectRoom.Signed.encode, List.length_append, record.signed.signature.length_toList]
  rfl

theorem length_policy (record : DirectRoom.VerifiedPolicy crypto) : minRecordBytes ≤ record.encode.length := by
  have hcheck : DirectRoom.PolicyClaims.check crypto record.claims = .ok () := record.claims_check
  simp only [DirectRoom.PolicyClaims.check, bind_eq_ok] at hcheck
  obtain ⟨-, -, -, -, _, hwriters, -⟩ := hcheck
  have hpos := (DirectRoom.writersCheck_length hwriters).1
  have hu : (toBe record.claims.revision).length = 8 := length_toBe _
  rw [length_encode, minRecordBytes_eq]
  show 209 ≤ (DirectRoom.policyMagic ++ DirectRoom.putPolicy record.claims).length + 64
  simp only [DirectRoom.putPolicy, List.length_append, DirectRoom.length_putWriters, DirectRoom.length_putSealedHeads,
    Vector.length_toList, hu]
  simp only [DirectRoom.policyMagic, List.length_cons, List.length_nil]
  omega

theorem length_event (record : DirectRoom.VerifiedEvent crypto) : minRecordBytes ≤ record.encode.length := by
  have hs : (toBe record.claims.sequence).length = 8 := length_toBe _
  have hc : (toBe record.claims.createdAt).length = 8 := length_toBe _
  have hl : (toBe (UInt32.ofNat record.claims.text.str.utf8ByteSize)).length = 4 := length_toBe _
  rw [length_encode, minRecordBytes_eq]
  show 209 ≤ (DirectRoom.eventMagic ++ DirectRoom.putEvent record.claims).length + 64
  simp only [DirectRoom.putEvent, DirectRoom.putText, List.length_append, DirectRoom.length_textBytes,
    Vector.length_toList, hs, hc, hl]
  simp only [DirectRoom.eventMagic, List.length_cons, List.length_nil]
  omega

/-- What `verify` has checked. -/
structure Checks (genesis : PinnedGenesis crypto) (sequence : UInt64) (frame : Frame) (record : VerifiedRecord crypto) :
    Prop where
  bounded : frame.bytes.length ≤ frame.kind.bound
  position : sequence = 1 ↔ frame.kind = .genesis
  decoded : decodeFrame genesis frame = .ok record
  encoded : record.encode = frame.bytes

theorem verify_eq_ok : verify genesis sequence frame = .ok record ↔
    frame.bytes ≠ [] ∧ Checks genesis sequence frame record := by
  simp only [verify, bind_eq_ok, require_eq_ok, Bool.not_eq_true', Bool.or_eq_false_iff, decide_eq_false_iff_not,
    beq_iff_eq, Nat.not_lt]
  constructor
  · rintro ⟨-, ⟨hne, hbound⟩, -, hpos, r, hdec, -, henc, he⟩
    cases he
    exact ⟨by simpa using hne, hbound, by rw [← beq_iff_eq, ← beq_iff_eq (a := frame.kind), hpos], hdec, henc⟩
  · rintro ⟨hne, hbound, hpos, hdec, henc⟩
    refine ⟨(), ⟨by simpa using hne, hbound⟩, (), ?_, record, hdec, (), henc, rfl⟩
    rw [Bool.eq_iff_iff, beq_iff_eq, beq_iff_eq, hpos]

theorem Checks.kind (h : Checks genesis sequence frame record) : record.kind = frame.kind := by
  have hdec := h.decoded
  unfold decodeFrame at hdec
  split at hdec
  all_goals
    rename_i hkind
    simp only [bind_eq_ok] at hdec
    rw [hkind]
  · obtain ⟨_, -, _, -, -, -, he⟩ := hdec
    cases he
    rfl
  · obtain ⟨_, -, _, -, -, -, -, -, he⟩ := hdec
    cases he
    rfl
  · obtain ⟨_, -, _, -, -, -, he⟩ := hdec
    cases he
    rfl

theorem Checks.retained (h : Checks genesis sequence frame record) : record.frame = frame := by
  obtain ⟨kind, bytes⟩ := frame
  exact congrArg₂ Frame.mk h.kind h.encoded

theorem Checks.size_genesis (h : Checks genesis sequence frame record) (hfirst : sequence = 1) :
    frame.bytes.length = genesis.verified.encode.length := by
  have hdec := h.decoded
  rw [decodeFrame, h.position.1 hfirst] at hdec
  simp only [bind_eq_ok, require_eq_ok, beq_iff_eq] at hdec
  obtain ⟨_, -, record', -, -, hsame, he⟩ := hdec
  cases he
  rw [← hsame, ← h.encoded]
  rfl

theorem Checks.size (h : Checks genesis sequence frame record) (hlater : sequence ≠ 1) :
    minRecordBytes ≤ frame.bytes.length ∧ frame.bytes.length ≤ maxRecordBytes := by
  have hkind := h.kind
  have hbound := h.bounded
  have hgenesis : frame.kind ≠ .genesis := fun he => hlater (h.position.2 he)
  rw [← h.encoded, ← hkind] at hbound
  rw [← h.encoded]
  cases record with
  | genesis _ => exact absurd hkind.symm hgenesis
  | policy record => exact ⟨length_policy record, Nat.le_trans hbound (show DirectRoom.maxPolicyBytes ≤ maxRecordBytes by decide)⟩
  | event record => exact ⟨length_event record, Nat.le_trans hbound (show DirectRoom.maxEventBytes ≤ maxRecordBytes by decide)⟩

theorem Checks.length_lt (h : Checks genesis sequence frame record) : frame.bytes.length < 2 ^ 64 := by
  have hbound := h.bounded
  refine Nat.lt_of_le_of_lt hbound ?_
  cases frame.kind
  · decide
  · decide
  · decide

end

/-- What `advance` does within the snapshot limits. -/
structure Advances (crypto : DirectRoom.Crypto) (previous : Progress) (frame : Frame) (next : Progress) : Prop where
  records : next.records.toNat = previous.records.toNat + 1
  bytes : next.bytes.toNat = previous.bytes.toNat + (UInt64.ofNat frame.bytes.length).toNat
  recordsLimit : next.records.toNat ≤ 1000000
  bytesLimit : next.bytes.toNat ≤ 8589934592
  digest : next.digest = crypto.sha256 (frameMessage crypto previous.digest next.records frame)

theorem advance_eq_ok {previous next : Progress} {frame : Frame} (h : advance crypto previous frame = .ok next) :
    Advances crypto previous frame next := by
  simp only [advance, bind_eq_ok, okOr_eq_ok, require_eq_ok, Bool.not_eq_true', Bool.or_eq_false_iff,
    decide_eq_false_iff_not] at h
  obtain ⟨records, hrecords, bytes, hbytes, -, ⟨hlimit, hlimit'⟩, he⟩ := h
  cases he
  have hr := UInt64.le_iff_toNat_le.1 (UInt64.not_lt.1 hlimit)
  have hb := UInt64.le_iff_toNat_le.1 (UInt64.not_lt.1 hlimit')
  exact ⟨checkedAdd_eq_some.1 hrecords, checkedAdd_eq_some.1 hbytes, hr, hb, rfl⟩

theorem Advances.records_eq {previous next : Progress} {frame : Frame} (h : Advances crypto previous frame next) :
    next.records = previous.records + 1 := by
  rw [← UInt64.toNat_inj, h.records, UInt64.toNat_add]
  exact (Nat.mod_eq_of_lt (h.records ▸ next.records.toNat_lt)).symm

/-! ### The source -/

/-- The source accepts one frame. -/
structure Sends (acc : SourceAccumulator crypto) (frame : Frame) (acc' : SourceAccumulator crypto) : Prop where
  checked : ∃ record, verify acc.genesis (acc.progress.records + 1) frame = .ok record
  advanced : advance crypto acc.progress frame = .ok acc'.progress
  rest : acc' = { acc with progress := acc'.progress }

theorem push_eq_ok {acc acc' : SourceAccumulator crypto} {frame : Frame} :
    exec (SourceAccumulator.push frame) acc = (.ok (), acc') ↔ Sends acc frame acc' := by
  have hnext : ∀ sequence, checkedAdd acc.progress.records 1 = some sequence → sequence = acc.progress.records + 1 := by
    intro sequence h
    have hto : sequence.toNat = acc.progress.records.toNat + 1 := checkedAdd_eq_some.1 h
    rw [← UInt64.toNat_inj, UInt64.toNat_add, hto]
    exact (Nat.mod_eq_of_lt (hto ▸ sequence.toNat_lt)).symm
  rw [SourceAccumulator.push, exec_examine_bind]
  constructor
  · intro h
    split at h
    · rename_i sequence hseq
      obtain rfl := hnext sequence (okOr_eq_ok.1 hseq)
      rw [exec_examine_bind] at h
      split at h
      · rename_i record hverify
        rw [exec_examine_bind] at h
        split at h
        · rename_i next hadvance
          cases h
          exact ⟨⟨record, hverify⟩, hadvance, rfl⟩
        · cases h
      · cases h
    · cases h
  · rintro ⟨⟨record, hverify⟩, hadvance, hrest⟩
    have hadds := (advance_eq_ok hadvance)
    obtain ⟨sequence, hseq⟩ : ∃ sequence, checkedAdd acc.progress.records 1 = some sequence :=
      ⟨acc'.progress.records, checkedAdd_eq_some.2 hadds.records⟩
    obtain rfl := hnext sequence hseq
    rw [hseq]
    simp only [Check.okOr, exec_examine_bind, hverify, hadvance]
    rw [hrest]
    rfl

inductive Pushes : SourceAccumulator crypto → List Frame → SourceAccumulator crypto → Prop
  | nil (acc : SourceAccumulator crypto) : Pushes acc [] acc
  | cons {acc mid acc' : SourceAccumulator crypto} {frame : Frame} {frames : List Frame} :
      Sends acc frame mid → Pushes mid frames acc' → Pushes acc (frame :: frames) acc'

theorem pushes_iff {acc acc' : SourceAccumulator crypto} {frames : List Frame} :
    exec (forM frames SourceAccumulator.push) acc = (.ok (), acc') ↔ Pushes acc frames acc' := by
  induction frames generalizing acc with
  | nil =>
    constructor
    · intro h
      cases h
      exact .nil _
    · intro h
      cases h
      rfl
  | cons frame frames ih =>
    rw [List.forM_cons]
    constructor
    · intro h
      obtain ⟨⟨⟩, mid, hpush, hrest⟩ := exec_bind_eq_ok.1 h
      exact .cons (push_eq_ok.1 hpush) (ih.1 hrest)
    · intro h
      cases h with
      | cons hsend hrest => rw [exec_bind_ok (push_eq_ok.2 hsend), ih.2 hrest]

theorem Pushes.append {acc mid acc' : SourceAccumulator crypto} {frames frames' : List Frame} (h : Pushes acc frames mid)
    (h' : Pushes mid frames' acc') : Pushes acc (frames ++ frames') acc' := by
  induction h with
  | nil => exact h'
  | cons hsend _ ih => exact .cons hsend (ih h')

theorem Pushes.split {acc acc' : SourceAccumulator crypto} {frames frames' : List Frame}
    (h : Pushes acc (frames ++ frames') acc') : ∃ mid, Pushes acc frames mid ∧ Pushes mid frames' acc' := by
  induction frames generalizing acc with
  | nil => exact ⟨acc, .nil acc, h⟩
  | cons frame frames ih =>
    cases h with
    | cons hsend hrest =>
      obtain ⟨mid, hmid, hmid'⟩ := ih hrest
      exact ⟨mid, .cons hsend hmid, hmid'⟩

def initialBytes (acc : SourceAccumulator crypto) : Nat := acc.genesis.verified.encode.length

/-- The byte total of a source prefix fits its number of records. -/
structure Sized (acc : SourceAccumulator crypto) : Prop where
  records : acc.progress.records.toNat ≤ 1000000
  bytes : acc.progress.bytes.toNat ≤ 8589934592
  empty : acc.progress.records.toNat = 0 → acc.progress.bytes.toNat = 0
  lower : 1 ≤ acc.progress.records.toNat →
    initialBytes acc + (acc.progress.records.toNat - 1) * 209 ≤ acc.progress.bytes.toNat
  upper : 1 ≤ acc.progress.records.toNat →
    acc.progress.bytes.toNat ≤ initialBytes acc + (acc.progress.records.toNat - 1) * 6833

namespace Sends
variable {acc acc' : SourceAccumulator crypto} {frame : Frame}

theorem length (h : Sends acc frame acc') :
    (acc.progress.records.toNat = 0 → frame.bytes.length = initialBytes acc) ∧
      (1 ≤ acc.progress.records.toNat → 209 ≤ frame.bytes.length ∧ frame.bytes.length ≤ 6833) ∧
      (UInt64.ofNat frame.bytes.length).toNat = frame.bytes.length := by
  obtain ⟨record, hverify⟩ := h.checked
  have hchecks := (verify_eq_ok.1 hverify).2
  have hadds := advance_eq_ok h.advanced
  have hlimit := hadds.recordsLimit
  have hrecords := hadds.records
  have hnext : (acc.progress.records + 1).toNat = acc.progress.records.toNat + 1 := by
    rw [UInt64.toNat_add]
    exact Nat.mod_eq_of_lt (show acc.progress.records.toNat + 1 < 2 ^ 64 by omega)
  refine ⟨fun hzero => ?_, fun hpos => ?_, ?_⟩
  · refine hchecks.size_genesis ?_
    rw [← UInt64.toNat_inj, hnext, hzero]
    rfl
  · rw [← minRecordBytes_eq, ← maxRecordBytes_eq]
    refine hchecks.size fun he => ?_
    have hone : acc.progress.records.toNat + 1 = 1 := by rw [← hnext, he]; rfl
    omega
  · rw [UInt64.toNat_ofNat']
    exact Nat.mod_eq_of_lt hchecks.length_lt

theorem genesis (h : Sends acc frame acc') : acc'.genesis = acc.genesis := by rw [h.rest]

theorem source (h : Sends acc frame acc') : acc'.source = acc.source := by rw [h.rest]

theorem epoch (h : Sends acc frame acc') : acc'.epoch = acc.epoch := by rw [h.rest]

theorem sized (h : Sends acc frame acc') (hs : Sized acc) : Sized acc' := by
  obtain ⟨hfirst, hlater, hlen⟩ := h.length
  have hadds := advance_eq_ok h.advanced
  have hrecords := hadds.records
  have hbytes := hadds.bytes
  have hinitial : initialBytes acc' = initialBytes acc := by rw [initialBytes, h.genesis, initialBytes]
  rw [hlen] at hbytes
  refine ⟨hadds.recordsLimit, hadds.bytesLimit, fun hzero => by omega, fun hpos => ?_, fun hpos => ?_⟩
  · rw [hinitial]
    by_cases hzero : acc.progress.records.toNat = 0
    · have hempty := hs.empty hzero
      have := hfirst hzero
      omega
    · have hlower := hs.lower (by omega)
      have := hlater (by omega)
      omega
  · rw [hinitial]
    by_cases hzero : acc.progress.records.toNat = 0
    · have hempty := hs.empty hzero
      have := hfirst hzero
      omega
    · have hupper := hs.upper (by omega)
      have := hlater (by omega)
      omega

end Sends

/-- What a stretch of frames adds to a source. -/
structure Pushes.Grows (acc : SourceAccumulator crypto) (frames : List Frame) (acc' : SourceAccumulator crypto) : Prop where
  genesis : acc'.genesis = acc.genesis
  source : acc'.source = acc.source
  epoch : acc'.epoch = acc.epoch
  records : acc'.progress.records.toNat = acc.progress.records.toNat + frames.length
  bytes : acc.progress.bytes.toNat ≤ acc'.progress.bytes.toNat
  minimum : 1 ≤ acc.progress.records.toNat →
    acc.progress.bytes.toNat + frames.length * 209 ≤ acc'.progress.bytes.toNat

theorem Pushes.grows {acc acc' : SourceAccumulator crypto} {frames : List Frame} (h : Pushes acc frames acc') :
    Grows acc frames acc' := by
  induction h with
  | nil => exact ⟨rfl, rfl, rfl, rfl, Nat.le_refl _, fun _ => by simp⟩
  | @cons acc mid acc' frame frames hsend _ ih =>
    obtain ⟨hfirst, hlater, hlen⟩ := hsend.length
    have hadds := advance_eq_ok hsend.advanced
    have hrecords := hadds.records
    have hbytes := hadds.bytes
    rw [hlen] at hbytes
    obtain ⟨hgenesis, hsource, hepoch, hcount, htotal, hminimum⟩ := ih
    refine ⟨hgenesis.trans hsend.genesis, hsource.trans hsend.source, hepoch.trans hsend.epoch, ?_, ?_, fun hpos => ?_⟩
    · rw [List.length_cons]
      omega
    · omega
    · have := hlater hpos
      have := hminimum (by omega)
      rw [List.length_cons]
      omega

theorem Pushes.sized {acc acc' : SourceAccumulator crypto} {frames : List Frame} (h : Pushes acc frames acc')
    (hs : Sized acc) : Sized acc' := by
  induction h with
  | nil => exact hs
  | cons hsend _ ih => exact ih (hsend.sized hs)

theorem Pushes.eq_of_records {acc acc' : SourceAccumulator crypto} {frames : List Frame} (h : Pushes acc frames acc')
    (he : acc'.progress.records = acc.progress.records) : frames = [] ∧ acc' = acc := by
  have hrecords := h.grows.records
  rw [he] at hrecords
  obtain rfl := List.length_eq_zero_iff.1 (show frames.length = 0 by omega)
  cases h
  exact ⟨rfl, rfl⟩

/-! ### Checkpoints -/

theorem toNat_size {count : UInt64} {size : Nat} (hcount : count.toNat ≤ 1000000) (hsize : size ≤ 6833) :
    (count * UInt64.ofNat size).toNat = count.toNat * size := by
  have hmul : count.toNat * size ≤ 1000000 * 6833 := Nat.mul_le_mul hcount hsize
  rw [UInt64.toNat_mul, UInt64.toNat_ofNat', Nat.mod_eq_of_lt (show size < 2 ^ 64 by omega)]
  exact Nat.mod_eq_of_lt (by omega)

theorem toNat_before {count : UInt64} (h : 1 ≤ count.toNat) : (count - 1).toNat = count.toNat - 1 := by
  have hle : (1 : UInt64) ≤ count := UInt64.le_iff_toNat_le.2 h
  rw [UInt64.toNat_sub_of_le _ _ hle]
  rfl

theorem statement_check {acc : SourceAccumulator crypto} (hsource : acc.source ≠ DirectRoom.zeroBytes)
    (hepoch : acc.epoch ≠ DirectRoom.zeroBytes) (hs : Sized acc) (hpos : 1 ≤ acc.progress.records.toNat) :
    acc.statement.check acc.genesis = .ok () := by
  have hlower := hs.lower hpos
  have hupper := hs.upper hpos
  have hbytes := hs.bytes
  have hrecords := hs.records
  have hbefore := toNat_before hpos
  have hinitial : (UInt64.ofNat acc.genesis.verified.encode.length).toNat = initialBytes acc := by
    rw [UInt64.toNat_ofNat']
    exact Nat.mod_eq_of_lt (show initialBytes acc < 2 ^ 64 by omega)
  have hsize : ∀ size ≤ 6833, (UInt64.ofNat acc.genesis.verified.encode.length +
      (acc.progress.records - 1) * UInt64.ofNat size).toNat =
        initialBytes acc + (acc.progress.records.toNat - 1) * size := by
    intro size hle
    have hmul := toNat_size (show (acc.progress.records - 1).toNat ≤ 1000000 by omega) hle
    have hle' : (acc.progress.records.toNat - 1) * size ≤ 1000000 * 6833 := Nat.mul_le_mul (by omega) hle
    rw [UInt64.toNat_add, hinitial, hmul, hbefore]
    exact Nat.mod_eq_of_lt (show initialBytes acc + (acc.progress.records.toNat - 1) * size < 2 ^ 64 by omega)
  have hmin := hsize 209 (by decide)
  have hmax := hsize 6833 (by decide)
  simp only [Checkpoint.check, SourceAccumulator.statement, bind_eq_ok, require_eq_ok, minRecordBytes_eq, maxRecordBytes_eq,
    Bool.not_eq_true', Bool.or_eq_false_iff, decide_eq_false_iff_not, bne_iff_ne, beq_eq_false_iff_ne, beq_self_eq_true]
  refine ⟨(), hsource, (), trivial, (), hepoch, (), ⟨⟨?_, ?_⟩, ?_⟩, ?_, ?_⟩
  · intro he
    rw [he] at hpos
    cases hpos
  · have hle : acc.progress.records ≤ maxSnapshotRecords := UInt64.le_iff_toNat_le.2 hrecords
    exact decide_eq_false (UInt64.not_lt.2 hle)
  · have hle : acc.progress.bytes ≤ maxSnapshotBytes := UInt64.le_iff_toNat_le.2 hbytes
    exact decide_eq_false (UInt64.not_lt.2 hle)
  · exact UInt64.not_lt.2 (UInt64.le_iff_toNat_le.2 (by rw [hmin]; exact hlower))
  · exact UInt64.not_lt.2 (UInt64.le_iff_toNat_le.2 (by rw [hmax]; exact hupper))

structure Accepted (genesis : PinnedGenesis crypto) (source epoch : DirectRoom.Bytes32) (frames : List Frame)
    (acc : SourceAccumulator crypto) : Prop where
  started : ∃ acc₀, SourceAccumulator.new source genesis epoch = .ok acc₀ ∧
    exec (forM frames SourceAccumulator.push) acc₀ = (.ok (), acc)

namespace Accepted
variable {genesis : PinnedGenesis crypto} {source epoch : DirectRoom.Bytes32} {frames : List Frame} {acc : SourceAccumulator crypto}

theorem new_eq_ok {acc₀ : SourceAccumulator crypto} (h : SourceAccumulator.new source genesis epoch = .ok acc₀) :
    source ≠ DirectRoom.zeroBytes ∧ epoch ≠ DirectRoom.zeroBytes ∧
      acc₀ = ⟨genesis, source, epoch, initial crypto source genesis.verified.id epoch⟩ := by
  simp only [SourceAccumulator.new, bind_eq_ok, require_eq_ok, bne_iff_ne] at h
  obtain ⟨-, hsource, -, hepoch, he⟩ := h
  cases he
  exact ⟨hsource, hepoch, rfl⟩

/-- What the frames have made of the source. -/
structure Facts (genesis : PinnedGenesis crypto) (source epoch : DirectRoom.Bytes32) (frames : List Frame)
    (acc : SourceAccumulator crypto) : Prop where
  source_ne : source ≠ DirectRoom.zeroBytes
  epoch_ne : epoch ≠ DirectRoom.zeroBytes
  genesis_eq : acc.genesis = genesis
  source_eq : acc.source = source
  epoch_eq : acc.epoch = epoch
  pushes : Pushes ⟨genesis, source, epoch, initial crypto source genesis.verified.id epoch⟩ frames acc
  records : acc.progress.records.toNat = frames.length
  sized : Sized acc

theorem facts (h : Accepted genesis source epoch frames acc) : Facts genesis source epoch frames acc := by
  obtain ⟨acc₀, hnew, hpush⟩ := h.started
  obtain ⟨hsource, hepoch, rfl⟩ := new_eq_ok hnew
  have hpushes := pushes_iff.1 hpush
  have hgrows := hpushes.grows
  have hzero : ¬ 1 ≤ (0 : UInt64).toNat := by decide
  refine ⟨hsource, hepoch, hgrows.genesis, hgrows.source, hgrows.epoch, hpushes, ?_, hpushes.sized ?_⟩
  · rw [hgrows.records]
    exact Nat.zero_add _
  · exact ⟨Nat.zero_le _, Nat.zero_le _, fun _ => rfl, fun hpos => absurd hpos hzero, fun hpos => absurd hpos hzero⟩

theorem checkpoint (h : Accepted genesis source epoch frames acc) (hne : frames ≠ []) :
    acc.checkpoint = .ok acc.statement := by
  have hf := h.facts
  have hpos : 1 ≤ acc.progress.records.toNat := by
    rw [hf.records]
    exact List.length_pos_iff.2 hne
  have hcheck := statement_check (hf.source_eq ▸ hf.source_ne) (hf.epoch_eq ▸ hf.epoch_ne) hf.sized hpos
  rw [SourceAccumulator.checkpoint, hcheck]
  rfl

theorem extend {more : List Frame} {acc' : SourceAccumulator crypto} (h : Accepted genesis source epoch frames acc)
    (hmore : exec (forM more SourceAccumulator.push) acc = (.ok (), acc')) :
    Accepted genesis source epoch (frames ++ more) acc' := by
  obtain ⟨acc₀, hnew, hpush⟩ := h.started
  exact ⟨acc₀, hnew, pushes_iff.2 ((pushes_iff.1 hpush).append (pushes_iff.1 hmore))⟩

end Accepted

end Valhalla.DirectSync
