import Valhalla.DirectRoom.Fence
import Valhalla.DirectSync.Agreement

/-!
# Snapshots are received whole

Honest pages, cut anywhere, take a receiver to the end of its checkpoint (`serve_honest`). In the other
direction the rolling digest is a chain of hashes, so a receiver that has reached a checkpoint has committed
the frames of the checkpoint (`frames_of_digest`), whatever it was offered on the way.
-/

namespace Valhalla.DirectSync
open Fallible FixedWidth Check
open Valhalla.DirectRoom (PinnedGenesis)

variable {crypto : DirectRoom.Crypto}

/-! ### Honest pages -/

namespace Receiver
variable {receiver : Receiver crypto}

def nextPage (receiver : Receiver crypto) (frames : List Frame) : Page where
  checkpointId := receiver.target.id crypto
  first := receiver.progress.records + 1
  last := receiver.progress.records + UInt64.ofNat frames.length
  frames := frames

def offer (page : Receiver crypto → Page) : Fallible Error (Receiver crypto) Unit := do
  let prepared ← examine fun receiver => receiver.preparePage (page receiver)
  let _ ← commitAfterPersist prepared

def serve (pages : List (List Frame)) : Fallible Error (Receiver crypto) Unit :=
  forM pages fun frames => offer fun receiver => receiver.nextPage frames

theorem takeFrames {acc acc' : SourceAccumulator crypto} {frames : List Frame} (h : Pushes acc frames acc')
    (hgenesis : receiver.genesis = acc.genesis) (hle : acc'.progress.bytes.toNat ≤ receiver.target.bytes.toNat)
    (records : List (VerifiedRecord crypto)) :
    ∃ more, frames.foldlM receiver.takeFrame (acc.progress, records) = .ok (acc'.progress, records ++ more) := by
  induction h generalizing records with
  | nil => exact ⟨[], by rw [List.append_nil]; rfl⟩
  | @cons acc mid acc' frame frames hsend hrest ih =>
    obtain ⟨record, hverify⟩ := hsend.checked
    have hbytes : ¬ mid.progress.bytes > receiver.target.bytes :=
      UInt64.not_lt.2 (UInt64.le_iff_toNat_le.2 (Nat.le_trans hrest.grows.bytes hle))
    obtain ⟨more, hfold⟩ := ih (hgenesis.trans hsend.genesis.symm) hle (records ++ [record])
    refine ⟨record :: more, ?_⟩
    rw [List.foldlM_cons, bind_eq_ok]
    refine ⟨(mid.progress, records ++ [record]), ?_, ?_⟩
    · rw [takeFrame, hgenesis, hverify]
      simp only [bind_eq_ok, hsend.advanced, require_eq_ok]
      exact ⟨record, rfl, mid.progress, rfl, (), by rw [decide_eq_false hbytes]; rfl, rfl⟩
    · rw [hfold, List.append_assoc]
      rfl

theorem toNat_length {frames : List Frame} (h : frames.length ≤ maxPageFrames) :
    (UInt64.ofNat frames.length).toNat = frames.length := by
  rw [UInt64.toNat_ofNat']
  exact Nat.mod_eq_of_lt (Nat.lt_of_le_of_lt h (by decide))

theorem nextPage_last {frames : List Frame} (hne : frames ≠ []) (hlen : frames.length ≤ maxPageFrames)
    (hrecords : receiver.progress.records.toNat ≤ 1000000) :
    checkedAdd (receiver.progress.records + 1) (UInt64.ofNat frames.length - 1) =
        some (receiver.progress.records + UInt64.ofNat frames.length) ∧
      (receiver.progress.records + UInt64.ofNat frames.length).toNat = receiver.progress.records.toNat + frames.length := by
  have hpos := List.length_pos_iff.2 hne
  have hto := toNat_length hlen
  have hbefore := toNat_before (show 1 ≤ (UInt64.ofNat frames.length).toNat by omega)
  simp only [maxPageFrames] at hlen
  have hfirst : (receiver.progress.records + 1).toNat = receiver.progress.records.toNat + 1 := by
    rw [UInt64.toNat_add]
    exact Nat.mod_eq_of_lt (show receiver.progress.records.toNat + 1 < 2 ^ 64 by omega)
  have hlast : (receiver.progress.records + UInt64.ofNat frames.length).toNat =
      receiver.progress.records.toNat + frames.length := by
    rw [UInt64.toNat_add, hto]
    exact Nat.mod_eq_of_lt (show receiver.progress.records.toNat + frames.length < 2 ^ 64 by omega)
  refine ⟨checkedAdd_eq_some.2 ?_, hlast⟩
  show (receiver.progress.records + UInt64.ofNat frames.length).toNat =
    (receiver.progress.records + 1).toNat + (UInt64.ofNat frames.length - 1).toNat
  rw [hlast, hfirst, hbefore, hto]
  omega

/-- A receiver stands at a prefix of its source. -/
structure Follows (receiver : Receiver crypto) (acc final : SourceAccumulator crypto) : Prop where
  genesis : receiver.genesis = acc.genesis
  progress : receiver.progress = acc.progress
  target : receiver.target = final.statement
  sized : Sized acc

theorem Follows.prepare {acc mid final : SourceAccumulator crypto} {frames rest : List Frame} (h : receiver.Follows acc final)
    (hpush : Pushes acc frames mid) (hrest : Pushes mid rest final) (hne : frames ≠ []) (hlen : frames.length ≤ maxPageFrames) :
    ∃ records, receiver.preparePage (receiver.nextPage frames) =
      .ok ⟨receiver.target.id crypto, receiver.progress, mid.progress, records⟩ := by
  have hgrows := hpush.grows
  have hgrows' := hrest.grows
  have hfinal := (hrest.sized (hpush.sized h.sized)).bytes
  have hrecordsFinal := (hrest.sized (hpush.sized h.sized)).records
  have htargetRecords : receiver.target.records = final.progress.records := by rw [h.target]; rfl
  have htargetBytes : receiver.target.bytes = final.progress.bytes := by rw [h.target]; rfl
  have htargetDigest : receiver.target.digest = final.progress.digest := by rw [h.target]; rfl
  obtain ⟨hlast, hlastTo⟩ := nextPage_last hne hlen (show receiver.progress.records.toNat ≤ 1000000 by rw [h.progress]; exact h.sized.records)
  have hpos := List.length_pos_iff.2 hne
  have hrecords := hgrows.records
  have hrecords' := hgrows'.records
  obtain ⟨records, hfold⟩ := takeFrames hpush h.genesis (by rw [htargetBytes]; exact hgrows'.bytes) []
  rw [← h.progress] at hrecords hfold
  refine ⟨records, ?_⟩
  simp only [preparePage, nextPage, bind_eq_ok, require_eq_ok, okOr_eq_ok, hlast, hfold, Bool.not_eq_true',
    Bool.or_eq_false_iff, decide_eq_false_iff_not, beq_self_eq_true, List.isEmpty_eq_false_iff]
  refine ⟨(), trivial, (), ⟨hne, decide_eq_false (Nat.not_lt.2 hlen)⟩, (), trivial, _, rfl, (), beq_self_eq_true _, (), ?_,
    _, rfl, (), ?_, (), ?_, rfl⟩
  · refine decide_eq_false (UInt64.not_lt.2 (UInt64.le_iff_toNat_le.2 ?_))
    rw [hlastTo, htargetRecords]
    omega
  · -- at the last record the source is where the checkpoint was taken
    rw [htargetRecords, htargetBytes, htargetDigest]
    by_cases he : mid.progress.records = final.progress.records
    · obtain ⟨-, rfl⟩ := hrest.eq_of_records he.symm
      simp
    · simp [he]
  · have hmin := hgrows'.minimum (by omega)
    have hcount : (final.progress.records - mid.progress.records).toNat = rest.length := by
      rw [UInt64.toNat_sub_of_le _ _ (UInt64.le_iff_toNat_le.2 (by omega))]
      omega
    have hsize := toNat_size (show (final.progress.records - mid.progress.records).toNat ≤ 1000000 by omega)
      (show minRecordBytes ≤ 6833 by decide)
    refine UInt64.not_lt.2 (UInt64.le_iff_toNat_le.2 ?_)
    rw [hcount] at hsize
    rw [htargetRecords, htargetBytes, UInt64.toNat_add, hsize, minRecordBytes_eq]
    exact Nat.le_trans (Nat.mod_le _ _) hmin

theorem exec_commitAfterPersist (receiver : Receiver crypto) (prepared : PreparedPage crypto) :
    (prepared.checkpoint = receiver.target.id crypto ∧ prepared.base = receiver.progress ∧
        exec (commitAfterPersist prepared) receiver =
          (.ok ({ receiver with progress := prepared.next } : Receiver crypto).coverage,
            { receiver with progress := prepared.next })) ∨
      ((prepared.checkpoint ≠ receiver.target.id crypto ∨ prepared.base ≠ receiver.progress) ∧
        exec (commitAfterPersist prepared) receiver = (.error .staleBase, receiver)) := by
  rw [commitAfterPersist, exec_examine_bind, require]
  by_cases hbase : prepared.checkpoint = receiver.target.id crypto ∧ prepared.base = receiver.progress
  · refine .inl ⟨hbase.1, hbase.2, ?_⟩
    rw [hbase.1, hbase.2, if_pos (by simp)]
    rfl
  · refine .inr ⟨not_and_or.1 hbase, ?_⟩
    rw [if_neg (by simpa using hbase)]

theorem Follows.offer {acc mid final : SourceAccumulator crypto} {frames rest : List Frame} (h : receiver.Follows acc final)
    (hpush : Pushes acc frames mid) (hrest : Pushes mid rest final) (hne : frames ≠ []) (hlen : frames.length ≤ maxPageFrames) :
    exec (Receiver.offer fun receiver => receiver.nextPage frames) receiver =
      (.ok (), { receiver with progress := mid.progress }) := by
  obtain ⟨records, hprepare⟩ := h.prepare hpush hrest hne hlen
  rw [Receiver.offer, exec_examine_bind, hprepare]
  rcases exec_commitAfterPersist receiver
    ⟨receiver.target.id crypto, receiver.progress, mid.progress, records⟩ with ⟨-, -, hcommit⟩ | ⟨hbad, -⟩
  · simp only [exec_bind_ok hcommit]
    rfl
  · simp at hbad

theorem Follows.serve {acc final : SourceAccumulator crypto} {pages : List (List Frame)} (h : receiver.Follows acc final)
    (hpush : Pushes acc pages.flatten final) (hpages : ∀ page ∈ pages, page ≠ [] ∧ page.length ≤ maxPageFrames) :
    exec (Receiver.serve pages) receiver = (.ok (), { receiver with progress := final.progress }) := by
  induction pages generalizing receiver acc with
  | nil =>
    rw [List.flatten_nil] at hpush
    cases hpush
    rw [← h.progress]
    rfl
  | cons page pages ih =>
    rw [List.flatten_cons] at hpush
    obtain ⟨mid, hmid, hrest⟩ := hpush.split
    obtain ⟨hne, hlen⟩ := hpages page List.mem_cons_self
    rw [Receiver.serve, List.forM_cons, exec_bind_ok (h.offer hmid hrest hne hlen)]
    exact ih ⟨h.genesis.trans hmid.grows.genesis.symm, rfl, h.target, hmid.sized h.sized⟩ hrest
      fun page' hmem => hpages page' (List.mem_cons_of_mem _ hmem)

theorem coverage_eq_complete : receiver.coverage = .complete ↔
    receiver.progress.records = receiver.target.records ∧ receiver.progress.bytes = receiver.target.bytes ∧
      receiver.progress.digest = receiver.target.digest := by
  unfold coverage
  split <;> simp_all

/-- A receiver that is complete on a statement stands where the source stood. -/
theorem progress_of_complete {acc : SourceAccumulator crypto} (htarget : receiver.target = acc.statement)
    (hcomplete : receiver.coverage = .complete) : receiver.progress = acc.progress := by
  obtain ⟨hrecords, hbytes, hdigest⟩ := coverage_eq_complete.1 hcomplete
  rw [htarget] at hrecords hbytes hdigest
  exact Progress.ext hrecords hbytes hdigest

theorem begin_honest {genesis : PinnedGenesis crypto} {source epoch : DirectRoom.Bytes32} {frames : List Frame}
    {acc : SourceAccumulator crypto} (h : Accepted genesis source epoch frames acc) (hne : frames ≠ []) :
    Receiver.begin genesis source source acc.statement =
      .ok ⟨genesis, acc.statement, initial crypto source genesis.verified.id epoch⟩ := by
  have hf := h.facts
  have hcheck := h.checkpoint hne
  simp only [SourceAccumulator.checkpoint, bind_eq_ok] at hcheck
  obtain ⟨_, hcheck, -⟩ := hcheck
  rw [hf.genesis_eq] at hcheck
  rw [Receiver.begin, bind_eq_ok]
  refine ⟨(), ?_, bind_eq_ok.2 ⟨_, hcheck, ?_⟩⟩
  · simp [SourceAccumulator.statement, hf.source_eq]
  · rw [SourceAccumulator.statement, hf.source_eq, hf.genesis_eq, hf.epoch_eq]
    rfl

/-- A later checkpoint of the source is an extension for a receiver that is complete on an earlier one. -/
theorem extend_honest {acc acc' : SourceAccumulator crypto} {more : List Frame} (hgenesis : receiver.genesis = acc.genesis)
    (htarget : receiver.target = acc.statement) (hcomplete : receiver.coverage = .complete) (hpush : Pushes acc more acc')
    (hcheck : acc'.statement.check acc'.genesis = .ok ()) (hs : Sized acc) (hpos : 1 ≤ acc.progress.records.toNat) :
    exec (Receiver.extend receiver.target.source acc'.statement) receiver =
      (.ok (), { receiver with target := acc'.statement }) := by
  have hprogress := progress_of_complete htarget hcomplete
  have hgrows := hpush.grows
  have hsized := hpush.sized hs
  have hsource : acc'.statement.source = receiver.target.source := by rw [htarget]; exact hgrows.source
  have hroom : acc'.statement.room = receiver.target.room := by
    rw [htarget, SourceAccumulator.statement, SourceAccumulator.statement, hgrows.genesis]
  have hepoch : acc'.statement.epoch = receiver.target.epoch := by rw [htarget]; exact hgrows.epoch
  have hrecords := hgrows.records
  by_cases hsame : acc'.statement.records = receiver.target.records
  · -- nothing was added: the same checkpoint again
    have hrec : acc'.progress.records = acc.progress.records := by rw [htarget] at hsame; exact hsame
    obtain ⟨-, rfl⟩ := hpush.eq_of_records hrec
    have hfalse : receiver.checkExtension receiver.target.source acc'.statement = .ok false := by
      rw [checkExtension, hcomplete, htarget]
      simp [pure, Except.pure, bind, Except.bind, require]
    rw [Receiver.extend, exec_examine_bind, hfalse, ← htarget]
    rfl
  · have htrue : receiver.checkExtension receiver.target.source acc'.statement = .ok true := by
      simp only [checkExtension, bind_eq_ok, require_eq_ok, hcomplete, hsource, hroom, hepoch, if_neg hsame]
      refine ⟨(), rfl, (), by simp, (), by simp, (), by simp, (), ?_, (), ?_, (), ?_, rfl⟩
      · have hle : receiver.target.records ≤ acc'.statement.records := by
          rw [htarget]
          exact UInt64.le_iff_toNat_le.2 (show acc.progress.records.toNat ≤ acc'.progress.records.toNat by omega)
        have hle' : receiver.target.bytes ≤ acc'.statement.bytes := by
          rw [htarget]
          exact UInt64.le_iff_toNat_le.2 hgrows.bytes
        rw [decide_eq_false (UInt64.not_lt.2 hle), decide_eq_false (UInt64.not_lt.2 hle')]
        rfl
      · rw [hgenesis, ← hgrows.genesis, hcheck]
      · rw [hprogress]
        have hlimit := hsized.records
        have hcount : (acc'.progress.records - acc.progress.records).toNat = more.length := by
          rw [UInt64.toNat_sub_of_le _ _ (UInt64.le_iff_toNat_le.2 (by omega))]
          omega
        have hsize := toNat_size (show (acc'.progress.records - acc.progress.records).toNat ≤ 1000000 by omega)
          (show minRecordBytes ≤ 6833 by decide)
        have hadded : (acc'.progress.bytes - acc.progress.bytes).toNat =
            acc'.progress.bytes.toNat - acc.progress.bytes.toNat :=
          UInt64.toNat_sub_of_le _ _ (UInt64.le_iff_toNat_le.2 hgrows.bytes)
        have hmin := hgrows.minimum hpos
        have hle : (acc'.progress.records - acc.progress.records) * UInt64.ofNat minRecordBytes ≤
            acc'.progress.bytes - acc.progress.bytes := by
          rw [UInt64.le_iff_toNat_le, hsize, hcount, hadded, minRecordBytes_eq]
          omega
        show (!decide (acc'.progress.bytes - acc.progress.bytes <
          (acc'.progress.records - acc.progress.records) * UInt64.ofNat minRecordBytes)) = true
        rw [decide_eq_false (UInt64.not_lt.2 hle)]
        rfl
    rw [Receiver.extend, exec_examine_bind, htrue]
    rfl

end Receiver

/-! ### The rolling digest -/

def messages (crypto : DirectRoom.Crypto) (digest : DirectRoom.Bytes32) (records : UInt64) : List Frame → List (List UInt8)
  | [] => []
  | frame :: frames =>
    let message := frameMessage crypto digest (records + 1) frame
    frame.bytes :: message :: messages crypto (crypto.sha256 message) (records + 1) frames

/-- Equal hashes of these messages mean equal messages. -/
def CollisionFree (crypto : DirectRoom.Crypto) (hashed : List (List UInt8)) : Prop :=
  ∀ m ∈ hashed, ∀ m' ∈ hashed, crypto.sha256 m = crypto.sha256 m' → m = m'

theorem frameMessage_injective {digest digest' : DirectRoom.Bytes32} {records records' : UInt64} {frame frame' : Frame}
    (h : frameMessage crypto digest records frame = frameMessage crypto digest' records' frame') :
    digest = digest' ∧ frame.kind = frame'.kind ∧ crypto.sha256 frame.bytes = crypto.sha256 frame'.bytes := by
  have hlen : ∀ a b : DirectRoom.Bytes32, a.toList.length = b.toList.length := fun a b => by
    rw [a.length_toList, b.length_toList]
  have hlen64 : ∀ a b : UInt64, (toBe a).length = (toBe b).length := fun a b => by rw [length_toBe, length_toBe]
  have hvec : ∀ a b : DirectRoom.Bytes32, a.toList = b.toList → a = b := fun _ _ => Vector.toList_inj.1
  obtain ⟨hdigest, h⟩ := List.append_inj (List.append_cancel_left h) (hlen _ _)
  obtain ⟨-, h⟩ := List.append_inj h (hlen64 _ _)
  obtain ⟨hkind, h⟩ := List.append_inj h rfl
  obtain ⟨-, h⟩ := List.append_inj h (hlen64 _ _)
  refine ⟨hvec _ _ hdigest, ?_, hvec _ _ h⟩
  have hbyte := List.head_eq_of_cons_eq hkind
  revert hbyte
  cases frame.kind <;> cases frame'.kind <;> simp [FrameKind.byte]

def Reaches (crypto : DirectRoom.Crypto) (start : Progress) (frames : List Frame) (progress : Progress) : Prop :=
  frames.foldlM (advance crypto) start = .ok progress

theorem reaches_snoc {start progress : Progress} {frames : List Frame} {frame : Frame} :
    Reaches crypto start (frames ++ [frame]) progress ↔
      ∃ mid, Reaches crypto start frames mid ∧ advance crypto mid frame = .ok progress := by
  rw [Reaches, List.foldlM_append, bind_eq_ok]
  simp [Reaches]

namespace Reaches
variable {start progress progress' mid : Progress} {frames frames' : List Frame} {frame : Frame}

theorem append (h : Reaches crypto start frames mid) (h' : Reaches crypto mid frames' progress) :
    Reaches crypto start (frames ++ frames') progress := by
  rw [Reaches, List.foldlM_append, bind_eq_ok]
  exact ⟨mid, h, h'⟩

theorem records (h : Reaches crypto start frames progress) :
    progress.records.toNat = start.records.toNat + frames.length := by
  induction frames using List.reverseRecOn generalizing progress with
  | nil =>
    cases h
    rfl
  | append_singleton frames frame ih =>
    obtain ⟨mid, hmid, hlast⟩ := reaches_snoc.1 h
    rw [(advance_eq_ok hlast).records, ih hmid, List.length_append]
    rfl

theorem messages_snoc (h : Reaches crypto start frames mid) :
    messages crypto start.digest start.records (frames ++ [frame]) = messages crypto start.digest start.records frames ++
      [frame.bytes, frameMessage crypto mid.digest (mid.records + 1) frame] := by
  induction frames generalizing start with
  | nil =>
    cases h
    rfl
  | cons first frames ih =>
    rw [Reaches, List.foldlM_cons, bind_eq_ok] at h
    obtain ⟨next, hfirst, hrest⟩ := h
    have hadds := advance_eq_ok hfirst
    have hih := ih hrest
    rw [hadds.digest, hadds.records_eq] at hih
    rw [List.cons_append, messages, messages, hih]
    rfl

theorem frames_of_digest (h : Reaches crypto start frames progress) (h' : Reaches crypto start frames' progress')
    (hrecords : progress.records = progress'.records) (hdigest : progress.digest = progress'.digest)
    (hfree : CollisionFree crypto
      (messages crypto start.digest start.records frames ++ messages crypto start.digest start.records frames')) :
    frames = frames' := by
  have hlen : frames.length = frames'.length := by
    have hcount := h.records
    have hcount' := h'.records
    rw [hrecords] at hcount
    omega
  induction frames using List.reverseRecOn generalizing frames' progress progress' with
  | nil => exact (List.length_eq_zero_iff.1 hlen.symm).symm
  | append_singleton frames frame ih =>
    rcases List.eq_nil_or_concat frames' with rfl | ⟨frames', frame', rfl⟩
    · simp at hlen
    rw [List.concat_eq_append] at h' hfree hlen ⊢
    obtain ⟨mid, hmid, hlast⟩ := reaches_snoc.1 h
    obtain ⟨mid', hmid', hlast'⟩ := reaches_snoc.1 h'
    rw [hmid.messages_snoc, hmid'.messages_snoc] at hfree
    have hlen' : frames.length = frames'.length := by simpa using hlen
    have hadds := advance_eq_ok hlast
    have hadds' := advance_eq_ok hlast'
    have hmessage := hdigest
    rw [hadds.digest, hadds'.digest, hadds.records_eq, hadds'.records_eq] at hmessage
    obtain ⟨hprior, hkind, hbytes⟩ := frameMessage_injective (hfree _ (by simp) _ (by simp) hmessage)
    have hframe : frame = frame' := by
      obtain ⟨kind, bytes⟩ := frame
      obtain ⟨kind', bytes'⟩ := frame'
      exact congrArg₂ Frame.mk hkind (hfree _ (by simp) _ (by simp) hbytes)
    have hcount : mid.records = mid'.records := by
      rw [← UInt64.toNat_inj, hmid.records, hmid'.records, hlen']
    rw [hframe, ih hmid hmid' hcount hprior (fun m hm m' hm' => ?_) hlen']
    refine hfree m ?_ m' ?_
    · rcases List.mem_append.1 hm with hm | hm
      · simp [hm]
      · simp [hm]
    · rcases List.mem_append.1 hm' with hm' | hm'
      · simp [hm']
      · simp [hm']

end Reaches

theorem Pushes.reaches {acc acc' : SourceAccumulator crypto} {frames : List Frame} (h : Pushes acc frames acc') :
    Reaches crypto acc.progress frames acc'.progress := by
  induction h with
  | nil => rfl
  | cons hsend _ ih =>
    rw [Reaches, List.foldlM_cons, bind_eq_ok]
    exact ⟨_, hsend.advanced, ih⟩

/-! ### Runs of a receiver -/

namespace Receiver

def appended (result : Except Error Coverage) (prepared : PreparedPage crypto) : List Frame :=
  match result with
  | .ok _ => prepared.frames.map VerifiedRecord.frame
  | .error _ => []

inductive Run : Receiver crypto → List Frame → Prop
  | begin {genesis : PinnedGenesis crypto} {expected authenticated : DirectRoom.Bytes32} {target : Checkpoint}
      {receiver : Receiver crypto} : Receiver.begin genesis expected authenticated target = .ok receiver → Run receiver []
  | commit {receiver receiver' other : Receiver crypto} {committed : List Frame} {page : Page}
      {prepared : PreparedPage crypto} {result : Except Error Coverage} :
      Run receiver committed → other.preparePage page = .ok prepared →
        exec (commitAfterPersist prepared) receiver = (result, receiver') → Run receiver' (committed ++ appended result prepared)
  | extend {receiver receiver' : Receiver crypto} {committed : List Frame} {authenticated : DirectRoom.Bytes32} {target : Checkpoint}
      {result : Except Error Unit} :
      Run receiver committed → exec (Receiver.extend authenticated target) receiver = (result, receiver') →
        Run receiver' committed

def start (crypto : DirectRoom.Crypto) (target : Checkpoint) : Progress := initial crypto target.source target.room target.epoch

section
variable {receiver receiver' : Receiver crypto} {committed : List Frame}

theorem preparePage_reaches {page : Page} {prepared : PreparedPage crypto} (h : receiver.preparePage page = .ok prepared) :
    Reaches crypto prepared.base (prepared.frames.map VerifiedRecord.frame) prepared.next := by
  simp only [preparePage, bind_eq_ok] at h
  obtain ⟨-, -, -, -, -, -, -, -, -, -, -, -, ⟨next, records⟩, hfold, -, -, -, -, he⟩ := h
  cases he
  have hstart : Reaches crypto receiver.progress (([] : List (VerifiedRecord crypto)).map VerifiedRecord.frame)
    receiver.progress := rfl
  refine foldlM_invariant (I := fun _ (sofar : Progress × List (VerifiedRecord crypto)) =>
    Reaches crypto receiver.progress (sofar.2.map VerifiedRecord.frame) sofar.1)
    (fun _ frame sofar sofar' hreach htake => ?_) hstart hfold
  simp only [takeFrame, bind_eq_ok] at htake
  obtain ⟨record, hverify, next', hadvance, -, -, he⟩ := htake
  cases he
  rw [List.map_append, List.map_singleton, (verify_eq_ok.1 hverify).2.retained]
  exact reaches_snoc.2 ⟨sofar.1, hreach, hadvance⟩

theorem extend_cases (receiver : Receiver crypto) (authenticated : DirectRoom.Bytes32) (target : Checkpoint) :
    (∃ e, exec (Receiver.extend authenticated target) receiver = (.error e, receiver)) ∨
      exec (Receiver.extend authenticated target) receiver = (.ok (), receiver) ∨
      (start crypto target = start crypto receiver.target ∧
        exec (Receiver.extend authenticated target) receiver = (.ok (), { receiver with target })) := by
  rw [Receiver.extend, exec_examine_bind]
  cases hcheck : receiver.checkExtension authenticated target with
  | error e => exact .inl ⟨e, rfl⟩
  | ok changed =>
    cases changed with
    | false => exact .inr (.inl rfl)
    | true =>
      simp only [checkExtension, bind_eq_ok, require_eq_ok, beq_iff_eq, Bool.not_eq_true', Bool.or_eq_false_iff,
        bne_eq_false_iff_eq] at hcheck
      obtain ⟨-, -, -, ⟨-, hsource⟩, -, hroom, -, hepoch, -⟩ := hcheck
      exact .inr (.inr ⟨by rw [start, start, hsource, hroom, hepoch], rfl⟩)

theorem Run.reaches (h : Run receiver committed) : Reaches crypto (start crypto receiver.target) committed receiver.progress := by
  induction h with
  | begin h =>
    simp only [Receiver.begin, bind_eq_ok] at h
    obtain ⟨-, -, -, -, he⟩ := h
    cases he
    rfl
  | @commit receiver _ _ _ _ prepared _ _ hprepare hexec ih =>
    rcases exec_commitAfterPersist receiver prepared with ⟨-, hbase, hcommit⟩ | ⟨-, hcommit⟩
    · rw [hcommit] at hexec
      cases hexec
      exact ih.append (hbase ▸ preparePage_reaches hprepare)
    · rw [hcommit] at hexec
      cases hexec
      rw [appended, List.append_nil]
      exact ih
  | @extend receiver _ _ authenticated target _ _ hexec ih =>
    rcases extend_cases receiver authenticated target with ⟨e, he⟩ | he | ⟨hstart, he⟩
    · rw [he] at hexec
      cases hexec
      exact ih
    · rw [he] at hexec
      cases hexec
      exact ih
    · rw [he] at hexec
      cases hexec
      show Reaches crypto (start crypto target) _ _
      rw [hstart]
      exact ih

theorem offer_error {page : Receiver crypto → Page} {e : Error} (h : exec (offer page) receiver = (.error e, receiver')) :
    receiver' = receiver := by
  rw [offer, exec_examine_bind] at h
  split at h
  · rename_i prepared hprepare
    rcases exec_commitAfterPersist receiver prepared with ⟨-, -, hcommit⟩ | ⟨-, hcommit⟩
    · rw [exec_bind_ok hcommit] at h
      cases h
    · rw [exec_bind_error hcommit] at h
      cases h
      rfl
  · cases h
    rfl

end

end Receiver

/-- What agreement on a checkpoint of the source means for receivers. -/
structure Delivers (genesis : PinnedGenesis crypto) (source : DirectRoom.Bytes32) (frames : List Frame) (checkpoint : Checkpoint) :
    Prop where
  /-- Honest pages are never refused and lead to the end. -/
  served : ∀ pages : List (List Frame), pages.flatten = frames → (∀ page ∈ pages, page ≠ [] ∧ page.length ≤ maxPageFrames) →
    ∃ receiver receiver' : Receiver crypto, Receiver.begin genesis source source checkpoint = .ok receiver ∧
      exec (Receiver.serve pages) receiver = (.ok (), receiver') ∧ receiver'.target = checkpoint ∧
      receiver'.coverage = .complete ∧ receiver'.progress.digest = checkpoint.digest
  /-- A complete receiver has committed the frames of the source. -/
  complete : ∀ (receiver : Receiver crypto) (committed : List Frame), Receiver.Run receiver committed →
    receiver.target = checkpoint → receiver.coverage = .complete →
      CollisionFree crypto (messages crypto (Receiver.start crypto checkpoint).digest 0 committed ++
        messages crypto (Receiver.start crypto checkpoint).digest 0 frames) → committed = frames

structure Extends (genesis : PinnedGenesis crypto) (source : DirectRoom.Bytes32) (checkpoint later : Checkpoint) (more : List Frame) :
    Prop where
  extended : ∀ receiver : Receiver crypto, receiver.genesis = genesis → receiver.target = checkpoint →
    receiver.coverage = .complete →
      exec (Receiver.extend source later) receiver = (.ok (), { receiver with target := later }) ∧
      ∀ pages : List (List Frame), pages.flatten = more → (∀ page ∈ pages, page ≠ [] ∧ page.length ≤ maxPageFrames) →
        ∃ receiver' : Receiver crypto, exec (Receiver.serve pages) { receiver with target := later } = (.ok (), receiver') ∧
          receiver'.target = later ∧ receiver'.coverage = .complete ∧ receiver'.progress.digest = later.digest

section
variable {genesis : PinnedGenesis crypto} {source epoch : DirectRoom.Bytes32} {frames : List Frame} {acc : SourceAccumulator crypto}

theorem Accepted.delivers (h : Accepted genesis source epoch frames acc) (hne : frames ≠ []) :
    Delivers genesis source frames acc.statement := by
  have hf := h.facts
  refine ⟨fun pages hpages hsize => ?_, fun receiver committed hrun htarget hcomplete hfree => ?_⟩
  · subst hpages
    have hstart := Receiver.begin_honest h hne
    refine ⟨_, _, hstart, Receiver.Follows.serve ⟨rfl, rfl, rfl, ?_⟩ hf.pushes hsize, rfl, ?_, rfl⟩
    · exact ⟨Nat.zero_le _, Nat.zero_le _, fun _ => rfl, fun h => absurd h (Nat.not_lt_zero 0), fun h => absurd h (Nat.not_lt_zero 0)⟩
    · exact Receiver.coverage_eq_complete.2 ⟨rfl, rfl, rfl⟩
  · have hprogress := Receiver.progress_of_complete htarget hcomplete
    have hreach := hrun.reaches
    have hsource := hf.pushes.reaches
    have hstart : Receiver.start crypto acc.statement = initial crypto source genesis.verified.id epoch := by
      rw [Receiver.start, SourceAccumulator.statement, hf.source_eq, hf.genesis_eq, hf.epoch_eq]
    rw [htarget, hprogress] at hreach
    rw [← hstart] at hsource
    exact hreach.frames_of_digest hsource rfl rfl hfree

theorem Accepted.extends {more : List Frame} {acc' : SourceAccumulator crypto} (h : Accepted genesis source epoch frames acc)
    (hne : frames ≠ []) (hmore : exec (forM more SourceAccumulator.push) acc = (.ok (), acc')) :
    Extends genesis source acc.statement acc'.statement more := by
  have hf := h.facts
  have hpush := pushes_iff.1 hmore
  have hcheck := (h.extend hmore).checkpoint (by simp [hne])
  simp only [SourceAccumulator.checkpoint, bind_eq_ok] at hcheck
  obtain ⟨_, hcheck, -⟩ := hcheck
  have hpos : 1 ≤ acc.progress.records.toNat := by
    rw [hf.records]
    exact List.length_pos_iff.2 hne
  refine ⟨fun receiver hgenesis htarget hcomplete => ?_⟩
  have hsource : receiver.target.source = source := by rw [htarget]; exact hf.source_eq
  have hprogress := Receiver.progress_of_complete htarget hcomplete
  have hextend := Receiver.extend_honest (hgenesis.trans hf.genesis_eq.symm) htarget hcomplete hpush hcheck hf.sized hpos
  rw [hsource] at hextend
  refine ⟨hextend, fun pages hpages hsize => ?_⟩
  subst hpages
  refine ⟨_, Receiver.Follows.serve ⟨hgenesis.trans hf.genesis_eq.symm, hprogress, rfl, hf.sized⟩ hpush hsize, rfl, ?_, rfl⟩
  exact Receiver.coverage_eq_complete.2 ⟨rfl, rfl, rfl⟩

end

/-- Every nonempty frame sequence that a source accepts has a checkpoint, receivers agree with it, also from an earlier
checkpoint to a later one, and a refused page or token changes nothing. -/
theorem snapshot_sync {genesis : PinnedGenesis crypto} {source epoch : DirectRoom.Bytes32} {frames : List Frame}
    {acc : SourceAccumulator crypto} (h : Accepted genesis source epoch frames acc) (hne : frames ≠ []) :
    ∃ checkpoint, acc.checkpoint = .ok checkpoint ∧ Delivers genesis source frames checkpoint ∧
      (∀ more acc', exec (forM more SourceAccumulator.push) acc = (.ok (), acc') →
        ∃ later, acc'.checkpoint = .ok later ∧ Delivers genesis source (frames ++ more) later ∧
          Extends genesis source checkpoint later more) ∧
      ∀ receiver : Receiver crypto,
        (∀ page e receiver', exec (Receiver.offer page) receiver = (.error e, receiver') → receiver' = receiver) ∧
        (∀ prepared : PreparedPage crypto,
          prepared.checkpoint ≠ receiver.target.id crypto ∨ prepared.base ≠ receiver.progress →
            exec (Receiver.commitAfterPersist prepared) receiver = (.error .staleBase, receiver)) ∧
        ∀ authenticated target e receiver',
          exec (Receiver.extend authenticated target) receiver = (.error e, receiver') → receiver' = receiver := by
  refine ⟨acc.statement, h.checkpoint hne, h.delivers hne, fun more acc' hmore => ?_, fun receiver => ⟨?_, ?_, ?_⟩⟩
  · have hextended := h.extend hmore
    have hne' : frames ++ more ≠ [] := by simp [hne]
    exact ⟨acc'.statement, hextended.checkpoint hne', hextended.delivers hne', h.extends hne hmore⟩
  · exact fun page e receiver' he => Receiver.offer_error he
  · intro prepared hbad
    rcases Receiver.exec_commitAfterPersist receiver prepared with ⟨hcheckpoint, hbase, -⟩ | ⟨-, he⟩
    · rcases hbad with hbad | hbad
      · exact absurd hcheckpoint hbad
      · exact absurd hbase hbad
    · exact he
  · intro authenticated target e receiver' he
    rcases Receiver.extend_cases receiver authenticated target with ⟨e', he'⟩ | he' | ⟨-, he'⟩
    · rw [he'] at he
      cases he
      rfl
    · rw [he'] at he
      cases he
    · rw [he'] at he
      cases he

theorem SourceAccumulator.exec_push_of_isOk {acc : SourceAccumulator crypto} (sequence : UInt64) {frame : Frame} {next : Progress}
    (hsequence : checkedAdd acc.progress.records 1 = some sequence) (hverify : (verify acc.genesis sequence frame).isOk = true)
    (hadvance : advance crypto acc.progress frame = .ok next) : exec (push frame) acc = (.ok (), { acc with progress := next }) := by
  cases hrecord : verify acc.genesis sequence frame with
  | error e =>
    rw [hrecord] at hverify
    cases hverify
  | ok record =>
    simp only [push, exec_examine_bind, hsequence, Check.okOr, hrecord, hadvance]
    rfl

/-! ### A snapshot of two frames -/

def sampleSource : DirectRoom.Bytes32 := beVector 32 7
def sampleEpoch : DirectRoom.Bytes32 := beVector 32 8

def sampleGenesisFrame : Frame :=
  ⟨.genesis, DirectRoom.genesisKind.encode DirectRoom.sampleGenesisClaims ++
    (DirectRoom.signatureOf (DirectRoom.genesisDomain ++ DirectRoom.genesisKind.encode DirectRoom.sampleGenesisClaims)).toList⟩

def sampleEventFrame : Frame :=
  ⟨.event, DirectRoom.eventKind.encode DirectRoom.sampleEventClaims ++
    (DirectRoom.signatureOf (DirectRoom.eventDomain ++ DirectRoom.eventKind.encode DirectRoom.sampleEventClaims)).toList⟩

def sampleMessage (digest : DirectRoom.Bytes32) (records : UInt64) (frame : Frame) (hash : DirectRoom.Bytes32) : List UInt8 :=
  frameDomain ++ (digest.toList ++ (toBe records ++ ([frame.kind.byte] ++ (toBe (UInt64.ofNat frame.bytes.length) ++
    hash.toList))))

/-- What SHA-256 gives on the messages of the snapshot: the rolling digests and the hashes of the frames. -/
def sampleDigest₀ : DirectRoom.Bytes32 := beVector 32 0xce254070564b631b3dc501d65deb6ad62c1412041361e968be119e49d8d281ba
def sampleDigest₁ : DirectRoom.Bytes32 := beVector 32 0xa3fc0a844125ac2d4336588c03a082a9b4ec43a37d244c9b30c9effcacf9aa39
def sampleDigest₂ : DirectRoom.Bytes32 := beVector 32 0xb8d4b7cf1933222005e1ff5f07cb9552176727ea1d886762b51a392c8d63896d
def sampleHash₁ : DirectRoom.Bytes32 := beVector 32 0x75121117eb37bf754a06f4d86053b42bce8388cd6d2a4053d93f2bbe2fbd2721
def sampleHash₂ : DirectRoom.Bytes32 := beVector 32 0xacacc96091ac7305cb8e52706dbbd0c3765b9cdbc0deee3d3bd05374bad3d12e

def sampleCrypto : DirectRoom.Crypto := DirectRoom.cryptoOf (DirectRoom.sampleHash ++
  [(sourceDomain ++ (sampleSource.toList ++ (DirectRoom.sampleRoom.bytes.toList ++ sampleEpoch.toList)), sampleDigest₀),
    (sampleGenesisFrame.bytes, sampleHash₁), (sampleMessage sampleDigest₀ 1 sampleGenesisFrame sampleHash₁, sampleDigest₁),
    (sampleEventFrame.bytes, sampleHash₂), (sampleMessage sampleDigest₁ 2 sampleEventFrame sampleHash₂, sampleDigest₂)])

def sampleGenesis : PinnedGenesis sampleCrypto :=
  ⟨⟨⟨⟨DirectRoom.sampleGenesisClaims, DirectRoom.sampleRoom, by decide +kernel, by decide +kernel⟩,
    DirectRoom.signatureOf (DirectRoom.genesisDomain ++ DirectRoom.genesisKind.encode DirectRoom.sampleGenesisClaims)⟩,
    by decide +kernel⟩⟩

theorem sample_accepted : Accepted sampleGenesis sampleSource sampleEpoch [sampleGenesisFrame, sampleEventFrame]
    ⟨sampleGenesis, sampleSource, sampleEpoch, ⟨2, 386, sampleDigest₂⟩⟩ := by
  have hinitial : initial sampleCrypto sampleSource sampleGenesis.verified.id sampleEpoch = ⟨0, 0, sampleDigest₀⟩ := by decide +kernel
  have hsource : (sampleSource != DirectRoom.zeroBytes) = true := by decide +kernel
  have hepoch : (sampleEpoch != DirectRoom.zeroBytes) = true := by decide +kernel
  refine ⟨⟨sampleGenesis, sampleSource, sampleEpoch, ⟨0, 0, sampleDigest₀⟩⟩, ?_, ?_⟩
  · rw [SourceAccumulator.new, hsource, hepoch, hinitial]
    rfl
  · have hgenesis : exec (SourceAccumulator.push sampleGenesisFrame) ⟨sampleGenesis, sampleSource, sampleEpoch, ⟨0, 0, sampleDigest₀⟩⟩ =
        (.ok (), ⟨sampleGenesis, sampleSource, sampleEpoch, ⟨1, 167, sampleDigest₁⟩⟩) :=
      SourceAccumulator.exec_push_of_isOk 1 (by decide) (by decide +kernel) (by decide +kernel)
    have hevent : exec (SourceAccumulator.push sampleEventFrame) ⟨sampleGenesis, sampleSource, sampleEpoch, ⟨1, 167, sampleDigest₁⟩⟩ =
        (.ok (), ⟨sampleGenesis, sampleSource, sampleEpoch, ⟨2, 386, sampleDigest₂⟩⟩) :=
      SourceAccumulator.exec_push_of_isOk 2 (by decide) (by decide +kernel) (by decide +kernel)
    rw [List.forM_cons, exec_bind_ok hgenesis, List.forM_cons, exec_bind_ok hevent]
    rfl

theorem sample_snapshot_sync : ∃ checkpoint : Checkpoint, checkpoint.digest = sampleDigest₂ ∧
    Delivers sampleGenesis sampleSource [sampleGenesisFrame, sampleEventFrame] checkpoint := by
  obtain ⟨checkpoint, hcheckpoint, hdelivers, -⟩ := snapshot_sync sample_accepted (by simp)
  simp only [SourceAccumulator.checkpoint, bind_eq_ok] at hcheckpoint
  obtain ⟨-, -, he⟩ := hcheckpoint
  cases he
  exact ⟨_, rfl, hdelivers⟩

end Valhalla.DirectSync
