import Valhalla.Continuity.Evidence
import Valhalla.Continuity.Snapshot

/-!
# Retention is earned frame by frame

A run of a session publishes what was prepared from the current snapshot, once its sources were found on the local chain,
and appends the records of the responses. `Earned` is the invariant: what the snapshot says is read off the records.
-/

namespace Valhalla.Continuity
open Fallible FixedWidth Check
open RoomActivity (EventId VerifiedEvent zeroBytes linking)

variable {crypto : Crypto}

/-! ### Runs -/

/-- One of the three preparations succeeded. -/
inductive Prepared (state : Snapshot crypto) (publication : Publication crypto) : Prop
  | job (job : ContinuityJob) (h : state.prepareJob job = .ok publication)
  | attempt (request : Request crypto) (body : List UInt8) (h : state.prepareAttempt request body = .ok publication)
  | response (proof : ResponseProof crypto) (body : List UInt8) (h : state.prepareResponse proof body = .ok publication)

def Publication.record (publication : Publication crypto) : List (ContinuityEvidenceRecord crypto) :=
  match publication.operation with
  | .response record => [record]
  | _ => []

/-- A publication whose sources were found; the chain may have grown since the last one. -/
inductive Step (read : UInt64 → Except StorageError (List UInt8)) :
    Snapshot crypto → List (ContinuityEvidenceRecord crypto) → Snapshot crypto → Prop
  | publish {state : Snapshot crypto} {publication : Publication crypto} {head : AuthorHead} (h : Prepared state publication)
      (hsources : publication.checkSources head read = .ok ()) : Step read state publication.record publication.after

/-! ### Sources -/

theorem mem_destutter_ne {α : Type} [DecidableEq α] {a : α} {l : List α} : a ∈ l.destutter (· ≠ ·) ↔ a ∈ l := by
  cases l with
  | nil => rw [List.destutter_nil]
  | cons b l =>
    rw [List.destutter_cons']
    induction l generalizing b with
    | nil => rfl
    | cons c l ih =>
      by_cases h : b = c
      · rw [List.destutter'_cons_neg l (not_not_intro h), ih, h]
        simp only [List.mem_cons, or_self_left]
      · rw [List.destutter'_cons_pos l h, List.mem_cons, ih, List.mem_cons (l := c :: l)]

theorem mem_arrange {sources : List SourceCheck} {source : SourceCheck} : source ∈ Snapshot.arrange sources ↔ source ∈ sources := by
  rw [Snapshot.arrange, mem_destutter_ne, List.mem_mergeSort]

def Local (crypto : Crypto) (read : UInt64 → Except StorageError (List UInt8)) (scope : SessionScope) (source : SourceCheck) : Prop :=
  ∃ event : VerifiedEvent crypto, read source.position.sequence = .ok event.encode ∧ Position.of event = source.position ∧
    AuthorScope.of event.claims.scope event.claims.author = scope.author ∧ ∀ frame, source.frame = some frame → crypto.sha256 event.encode = frame

section
variable {read : UInt64 → Except StorageError (List UInt8)} {scope : SessionScope} {head : AuthorHead} {source : SourceCheck} {raw : List UInt8}
  {before state after : Snapshot crypto} {publication : Publication crypto} {operation : Operation crypto} {sources : List SourceCheck}

theorem SourceCheck.check_local (hread : read source.position.sequence = .ok raw) (h : source.check crypto scope head raw = .ok ()) :
    Local crypto read scope source := by
  simp only [SourceCheck.check, bind_eq_ok, mapError_eq_ok, require_eq_ok, Bool.and_eq_true, beq_iff_eq, SessionScope.checkEvent] at h
  obtain ⟨event, hevent, _, hscope, ⟨⟨⟨-, -⟩, hposition⟩, hframe⟩, -⟩ := h
  have hraw := RoomActivity.decode_verify_eq_ok.1 (bind_eq_ok.2 hevent)
  refine ⟨event, hraw ▸ hread, hposition, hscope, fun frame hsome => ?_⟩
  rw [hsome, Option.all_some, beq_iff_eq] at hframe
  exact hraw ▸ hframe

theorem Publication.checkSources_local (h : publication.checkSources head read = .ok ()) (hsource : source ∈ publication.sources) :
    Local crypto read publication.before.scope source := by
  simp only [Publication.checkSources, bind_eq_ok, forM_eq_ok] at h
  obtain ⟨_, -, h⟩ := h
  obtain ⟨raw, hread, hcheck⟩ := h source hsource
  exact SourceCheck.check_local hread hcheck

theorem Local.frame {a b : SourceCheck} {frame frame' : Bytes32} (ha : Local crypto read scope a) (hb : Local crypto read scope b)
    (hposition : a.position = b.position) (hframe : a.frame = some frame) (hframe' : b.frame = some frame') : frame = frame' := by
  obtain ⟨event, hread, -, -, hdigest⟩ := ha
  obtain ⟨event', hread', -, -, hdigest'⟩ := hb
  rw [hposition, hread', Except.ok.injEq] at hread
  rw [← hdigest frame hframe, ← hdigest' frame' hframe', hread]

theorem Snapshot.prepare_cases (h : before.prepare operation = .ok publication) :
    ∃ after sources generation, before.project operation = .ok (after, sources) ∧ publication.before = before ∧
      publication.operation = operation ∧ publication.after = { after with generation } ∧
        ∀ source, source ∈ publication.sources ↔ source ∈ sources ∨ source ∈ after.jobSource := by
  simp only [Snapshot.prepare, bind_eq_ok] at h
  obtain ⟨⟨after, sources⟩, hproject, _, -, generation, -, he⟩ := h
  cases he
  refine ⟨after, sources, generation, hproject, rfl, rfl, rfl, fun source => ?_⟩
  rw [mem_arrange, List.mem_append]

end

/-! ### Records -/

def recording (crypto : Crypto) : Linking (ContinuityEvidenceRecord crypto) Bytes32 :=
  ⟨fun record => record.index.toNat, fun record => record.reference.digest, ContinuityEvidenceRecord.previous⟩

/-- A record that was made from a verified response. -/
def ContinuityEvidenceRecord.Genuine (record : ContinuityEvidenceRecord crypto) : Prop :=
  new record.scope record.job record.index record.previous record.request record.proof record.body = .ok record

def Reply.entries : Reply crypto → List (Entry crypto)
  | .evidence page => page.entries
  | _ => []

def evidence (records : List (ContinuityEvidenceRecord crypto)) : List (Entry crypto) := records.flatMap fun record => record.reply.entries

section
variable {record : ContinuityEvidenceRecord crypto} {records : List (ContinuityEvidenceRecord crypto)}

theorem evidence_snoc : evidence (records ++ [record]) = evidence records ++ record.reply.entries := by
  rw [evidence, List.flatMap_append, List.flatMap_singleton, evidence]

theorem mem_evidence {entry : Entry crypto} (h : entry ∈ evidence records) :
    ∃ record ∈ records, ∃ page, record.reply = .evidence page ∧ entry ∈ page.entries := by
  obtain ⟨record, hrecord, hentry⟩ := List.mem_flatMap.1 h
  refine ⟨record, hrecord, ?_⟩
  cases hreply : record.reply with
  | evidence page =>
    rw [hreply] at hentry
    exact ⟨page, rfl, hentry⟩
  | staged | committed | status | feed =>
    rw [hreply] at hentry
    exact (List.not_mem_nil hentry).elim

theorem ContinuityEvidenceRecord.new_genuine {scope : SessionScope} {job : ContinuityJob} {index : UInt64} {previous : Bytes32}
    {request : Request crypto} {proof : ResponseProof crypto} {body : List UInt8}
    (h : new scope job index previous request proof body = .ok record) : record.Genuine ∧ record.scope = scope := by
  have hmade := h
  simp only [new, bind_eq_ok] at h
  obtain ⟨_, -, _, -, response, -, he⟩ := h
  cases he
  exact ⟨hmade, rfl⟩

theorem ContinuityEvidenceRecord.Genuine.answers (h : record.Genuine) : Answers record.request record.reply := by
  simp only [Genuine, new, bind_eq_ok, mapError_eq_ok, ResponseProof.verify] at h
  obtain ⟨_, -, _, -, response, ⟨_, -, _, -, _, -, _, -, _, -, reply, hreply, he⟩, he'⟩ := h
  cases he
  simp only [Reply.decode, bind_eq_ok] at hreply
  obtain ⟨_, -, _, hcheck, he⟩ := hreply
  cases he
  have hsame : record.reply = reply := (congrArg ContinuityEvidenceRecord.reply (Except.ok.inj he')).symm
  rw [hsame]
  exact Reply.check_eq_ok.1 hcheck

end

/-! ### Pages behind pages -/

section
variable {previous prior : Option (Entry crypto)} {entries later : List (Entry crypto)} {scope : Scope} {author : Bytes32}
  {first middle last : Position} {events after : List (VerifiedEvent crypto)}

theorem Segment.append (h : Segment scope author first events middle) (h' : Segment scope author middle after last) :
    Segment scope author first (events ++ after) last :=
  ⟨Linking.path_append.2 ⟨middle.point, h.path, h'.path⟩, fun event he => (List.mem_append.1 he).elim (h.own event) (h'.own event)⟩

theorem continuing_append :
    Continuing previous (entries ++ later) ↔ Continuing previous entries ∧ Continuing (entries.getLast?.or previous) later := by
  induction entries generalizing previous with
  | nil => exact (true_and _).symm.to_iff
  | cons entry entries ih =>
    rw [List.cons_append, Continuing, ih, Continuing, and_assoc, List.getLast?_cons]
    cases entries.getLast? <;> rfl

theorem Continuing.behind (h : Continuing none entries)
    (hfirst : ∀ entry, entries.head? = some entry → (prior.all fun p => continues p.role p.committedBy entry) = true) :
    Continuing prior entries := by
  cases entries with
  | nil => trivial
  | cons entry entries => exact ⟨hfirst entry rfl, h.2⟩

end

/-! ### What a step does -/

/-- How a response moves the retained prefix and the admission. -/
inductive Moved (before : Snapshot crypto) (record : ContinuityEvidenceRecord crypto) : RetentionHead → Option TerminalEvidence → Prop
  | still (h : record.reply.entries = []) : Moved before record before.retention before.terminal
  | committed {receipt : TerminalReceipt crypto} (hreply : record.reply = .committed receipt) :
      Moved before record before.retention (some ⟨.of receipt.event, receipt.cursor, receipt.registry, record.reference⟩)
  | evidence {page : EvidencePage crypto} {last : Entry crypto} (hreply : record.reply = .evidence page)
      (hlast : page.entries.getLast? = some last) (hfirst : ∀ first, page.entries.head? = some first →
        (before.retention.role.all fun role => continues role before.retention.committedBy first) = true) :
      Moved before record ⟨.of last.event, some record.reference, some last.role, last.committedBy, last.registry⟩ before.terminal

structure Accepts (before : Snapshot crypto) (record : ContinuityEvidenceRecord crypto) (sources : List SourceCheck) : Prop where
  scope : record.scope = before.scope
  job : before.job = some record.job
  index : record.index.toNat = before.records.toNat + 1
  previous : record.previous = before.previousDigest
  attempt : ∃ attempt, before.attempt = some attempt ∧ record.request = attempt.request ∧ requestCheck before attempt = .ok () ∧
    ∃ own more, bodySources attempt = .ok own ∧ replySources record.reply = .ok more ∧ sources = own ++ more

section
variable {before after : Snapshot crypto} {record : ContinuityEvidenceRecord crypto} {sources : List SourceCheck}

theorem Snapshot.withResponse_cases (h : before.withResponse record = .ok (after, sources)) :
    Accepts before record sources ∧ ∃ bytes retention terminal, Moved before record retention terminal ∧
      after = { before with records := record.index, bytes, latest := some record.reference, retention, terminal, attempt := none } := by
  simp only [Snapshot.withResponse, bind_eq_ok, okOr_eq_ok, require_eq_ok, Bool.and_eq_true, beq_iff_eq, checkedAdd_eq_some] at h
  obtain ⟨attempt, hattempt, _, ⟨⟨hscope, hjob⟩, hrequest⟩, next, hnext, _, ⟨hindex, hprevious⟩, _, hcheck, own, hown, more, hmore, bytes, -,
    _, -, moved, hmoved, he⟩ := h
  cases he
  refine ⟨⟨hscope, hjob.symm, ?_, hprevious, attempt, hattempt, hrequest, hcheck, own, more, hown, hmore, rfl⟩, ?_⟩
  · rw [hindex]
    exact hnext
  · unfold Snapshot.withReply at hmoved
    split at hmoved
    · rename_i receipt hreply
      simp only [Snapshot.withTerminal, bind_eq_ok] at hmoved
      obtain ⟨_, -, _, -, _, -, he⟩ := hmoved
      cases he
      exact ⟨bytes, _, _, .committed hreply, rfl⟩
    · rename_i page hreply
      simp only [Snapshot.withEvidence, bind_eq_ok, require_eq_ok] at hmoved
      obtain ⟨_, hfirst, hmoved⟩ := hmoved
      split at hmoved
      · rename_i hlast
        cases hmoved
        refine ⟨bytes, _, _, .still ?_, rfl⟩
        rw [hreply]
        exact List.getLast?_eq_none_iff.1 hlast
      · rename_i last hlast
        simp only [bind_eq_ok] at hmoved
        obtain ⟨_, -, he⟩ := hmoved
        cases he
        refine ⟨bytes, _, _, .evidence hreply hlast fun first hhead => ?_, rfl⟩
        rw [hhead] at hfirst
        exact hfirst
    · rename_i hcommitted hevidence
      cases hmoved
      refine ⟨bytes, _, _, .still ?_, rfl⟩
      cases hreply : record.reply with
      | evidence page => exact (hevidence page hreply).elim
      | staged | committed | status | feed => rfl

end

/-! ### The invariant -/

section
variable (read : UInt64 → Except StorageError (List UInt8)) (session : SessionScope) (records : List (ContinuityEvidenceRecord crypto))

structure RetentionHead.Tops (head : RetentionHead) (last : Option (Entry crypto)) : Prop where
  role : head.role = last.map Entry.role
  committedBy : ∀ entry, last = some entry → head.committedBy = entry.committedBy
  registry : ∀ entry, last = some entry → head.registry = entry.registry

def Receipted (job : ContinuityJob) (t : TerminalEvidence) : Prop :=
  ∃ record ∈ records, record.job = job ∧ record.reference = t.record ∧ ∃ receipt, record.reply = .committed receipt ∧
    t.position = .of receipt.event ∧ t.cursor = receipt.cursor ∧ t.registry = receipt.registry ∧
      Local crypto read session (.event receipt.event)

structure Earned (state : Snapshot crypto) : Prop where
  own : state.scope = session
  chain : (recording crypto).Path (0, zeroBytes) records (state.records.toNat, state.previousDigest)
  genuine : ∀ record ∈ records, record.Genuine ∧ record.scope = session
  segment : Segment session.wireScope session.author.author .empty ((evidence records).map Entry.event) state.retention.position
  continuing : Continuing none (evidence records)
  attributed : ∀ entry ∈ evidence records, entry.Attributed
  tops : state.retention.Tops (evidence records).getLast?
  found : ∀ entry ∈ evidence records, Local crypto read session (.event entry.event)
  job : ∀ job, state.job = some job → job.terminal ≠ .empty ∧ Local crypto read session ⟨job.terminal, some job.frame⟩
  terminal : ∀ t, state.terminal = some t → ∃ job, state.job = some job ∧ Receipted read session records job t

end

section
variable {read : UInt64 → Except StorageError (List UInt8)} {session : SessionScope} {records notes : List (ContinuityEvidenceRecord crypto)}
  {before after state : Snapshot crypto} {record : ContinuityEvidenceRecord crypto} {sources : List SourceCheck} {job : ContinuityJob}

theorem Earned.fresh {limits : Limits} (h : Snapshot.fresh session limits = .ok state) : Earned read session [] state := by
  simp only [Snapshot.fresh, bind_eq_ok] at h
  obtain ⟨_, -, he⟩ := h
  cases he
  have hnone : ∀ entry ∈ evidence ([] : List (ContinuityEvidenceRecord crypto)), False := fun _ he => List.not_mem_nil he
  exact ⟨rfl, rfl, fun _ he => (List.not_mem_nil he).elim, .refl, trivial, fun entry he => (hnone entry he).elim,
    ⟨rfl, fun _ he => (by cases he), fun _ he => (by cases he)⟩, fun entry he => (hnone entry he).elim, fun _ he => (by cases he),
    fun _ he => (by cases he)⟩

theorem Earned.keep (h : Earned read session records before) (hscope : after.scope = before.scope) (hrecords : after.records = before.records)
    (hlatest : after.latest = before.latest) (hretention : after.retention = before.retention)
    (hjob : ∀ job, after.job = some job → job.terminal ≠ .empty ∧ Local crypto read session ⟨job.terminal, some job.frame⟩)
    (hterminal : ∀ t, after.terminal = some t → ∃ job, after.job = some job ∧ Receipted read session records job t) :
    Earned read session records after := by
  refine ⟨hscope.trans h.own, ?_, h.genuine, hretention ▸ h.segment, h.continuing, h.attributed, hretention ▸ h.tops, h.found, hjob, hterminal⟩
  rw [Snapshot.previousDigest, hrecords, hlatest]
  exact h.chain

theorem Receipted.mono {t : TerminalEvidence} (h : Receipted read session records job t) : Receipted read session (records ++ notes) job t := by
  obtain ⟨record, hrecord, h⟩ := h
  exact ⟨record, List.mem_append_left notes hrecord, h⟩

theorem Accepts.page {page : EvidencePage crypto} (h : Accepts before record sources) (hgenuine : record.Genuine) (hreply : record.reply = .evidence page) :
    ∃ last count, Believed record.request page before.retention.position count before.scope.author.author last ∧
      record.request.context.scope = before.scope.wireScope := by
  obtain ⟨attempt, -, hrequest, hcheck, -⟩ := h.attempt
  have hanswers := hgenuine.answers
  rw [hreply] at hanswers
  cases hanswers with
  | evidence hkind hpage =>
    simp only [requestCheck, bind_eq_ok, okOr_eq_ok, SessionScope.checkRequest, require_eq_ok, Bool.and_eq_true, beq_iff_eq] at hcheck
    obtain ⟨job, -, _, ⟨⟨hscope, hselection⟩, -⟩, hcheck⟩ := hcheck
    rw [← hrequest, hkind] at hcheck
    rw [← hrequest] at hscope hselection
    rw [require_eq_ok, Bool.and_eq_true, beq_iff_eq] at hcheck
    rw [hcheck.1] at hkind hpage
    obtain ⟨last, hbelieved⟩ := (EvidencePage.check_eq_ok hkind hselection).1 hpage
    exact ⟨last, _, hbelieved, hscope⟩

theorem Earned.respond (h : Earned read session records before) (haccepts : Accepts before record sources) (hgenuine : record.Genuine)
    (hfound : ∀ source ∈ sources, Local crypto read session source) {retention : RetentionHead} {terminal : Option TerminalEvidence}
    (hmoved : Moved before record retention terminal) {bytes generation : UInt64} :
    Earned read session (records ++ [record]) { before with
      records := record.index, bytes, latest := some record.reference, retention, terminal, attempt := none, generation } := by
  obtain ⟨attempt, -, hrequest, -, own, more, -, hmore, rfl⟩ := haccepts.attempt
  have hchain : (recording crypto).Path (0, zeroBytes) (records ++ [record]) (record.index.toNat, record.reference.digest) :=
    h.chain.snoc haccepts.index haccepts.previous
  have hall : ∀ r ∈ records ++ [record], r.Genuine ∧ r.scope = session := by
    intro r hr
    rcases List.mem_append.1 hr with hr | hr
    · exact h.genuine r hr
    · rw [List.mem_singleton.1 hr]
      exact ⟨hgenuine, haccepts.scope.trans h.own⟩
  have hreceipted : ∀ t, before.terminal = some t → ∃ job, before.job = some job ∧ Receipted read session (records ++ [record]) job t := by
    intro t ht
    obtain ⟨job, hjob, hreceipted⟩ := h.terminal t ht
    exact ⟨job, hjob, hreceipted.mono⟩
  have hsame : record.reply.entries = [] → evidence (records ++ [record]) = evidence records := fun hnone => by
    rw [evidence_snoc, hnone, List.append_nil]
  cases hmoved with
  | still hnone =>
    have hevidence := hsame hnone
    exact ⟨h.own, hchain, hall, hevidence ▸ h.segment, hevidence ▸ h.continuing, hevidence ▸ h.attributed, hevidence ▸ h.tops,
      hevidence ▸ h.found, h.job, hreceipted⟩
  | @committed receipt hreply =>
    have hevidence := hsame (by rw [hreply]; rfl)
    refine ⟨h.own, hchain, hall, hevidence ▸ h.segment, hevidence ▸ h.continuing, hevidence ▸ h.attributed, hevidence ▸ h.tops,
      hevidence ▸ h.found, h.job, fun t ht => ?_⟩
    cases ht
    rw [hreply] at hmore
    cases hmore
    exact ⟨record.job, haccepts.job, record, List.mem_append_right _ (List.mem_singleton_self record), rfl, rfl, receipt, hreply, rfl, rfl, rfl,
      hfound _ (List.mem_append_right own (List.mem_singleton_self _))⟩
  | @evidence page last hreply hlast hfirst =>
    obtain ⟨end_, count, hbelieved, hscope⟩ := haccepts.page hgenuine hreply
    have hentries : record.reply.entries = page.entries := by rw [hreply]; rfl
    rw [hreply] at hmore
    cases hmore
    have hend : end_ = .of last.event := by
      have hlast' : (page.entries.map Entry.event).getLast? = some last.event := by rw [List.getLast?_map, hlast]; rfl
      exact Position.point_injective (hbelieved.segment.path.last hlast').symm
    have hpage := hbelieved.segment
    rw [hscope, h.own, hend] at hpage
    refine ⟨h.own, hchain, hall, ?_, ?_, ?_, ?_, ?_, h.job, hreceipted⟩
    · rw [evidence_snoc, List.map_append, hentries]
      exact h.segment.append hpage
    · rw [evidence_snoc, hentries, continuing_append, Option.or_none]
      refine ⟨h.continuing, hbelieved.continuing.behind fun entry hentry => ?_⟩
      have hrole := hfirst entry hentry
      rw [h.tops.role] at hrole
      cases htop : (evidence records).getLast? with
      | none => rfl
      | some prior =>
        rw [htop, h.tops.committedBy prior htop] at hrole
        exact hrole
    · rw [evidence_snoc, hentries]
      exact fun entry he => (List.mem_append.1 he).elim (h.attributed entry) (hbelieved.attributed entry)
    · rw [evidence_snoc, hentries, List.getLast?_append, hlast]
      exact ⟨rfl, fun entry he => by cases he; rfl, fun entry he => by cases he; rfl⟩
    · rw [evidence_snoc, hentries]
      intro entry he
      rcases List.mem_append.1 he with he | he
      · exact h.found entry he
      · exact hfound _ (List.mem_append_right own (List.mem_map_of_mem he))

end

end Valhalla.Continuity
