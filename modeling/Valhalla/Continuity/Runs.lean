import Valhalla.Continuity.Retention

/-!
# Runs of a session

Every step keeps `Earned`, so what a session claims of its peer at the end of any run was answered by the peer and found on
the local chain. No publication that is prepared from a verified response names too many sources.
-/

namespace Valhalla.Continuity
open Fallible FixedWidth Check
open RoomActivity (EventId VerifiedEvent zeroBytes linking)

variable {crypto : Crypto} {read : UInt64 → Except StorageError (List UInt8)} {session : SessionScope}
  {records notes : List (ContinuityEvidenceRecord crypto)} {before after state state' : Snapshot crypto}
  {record : ContinuityEvidenceRecord crypto} {sources : List SourceCheck}

/-! ### Steps -/

theorem Snapshot.withJob_cases {job : ContinuityJob} (h : before.withJob job = .ok after) : job.terminal ≠ .empty ∧ after.job = some job ∧
    (after = before ∨ after = { before with attempt := none, terminal := none, job := some job }) := by
  simp only [Snapshot.withJob, bind_eq_ok, require_eq_ok, Bool.and_eq_true, bne_iff_ne] at h
  obtain ⟨_, ⟨⟨⟨-, hterminal⟩, -⟩, -⟩, _, -, he⟩ := h
  refine ⟨hterminal, ?_⟩
  by_cases hsame : before.job = some job
  · rw [if_pos hsame] at he
    cases he
    exact ⟨hsame, .inl rfl⟩
  · rw [if_neg hsame] at he
    cases he
    exact ⟨rfl, .inr rfl⟩

theorem Snapshot.withAttempt_cases {attempt : ContinuityAttempt crypto} (h : before.withAttempt attempt = .ok (after, sources)) :
    after = { before with lastNonce := attempt.request.context.nonce, attempt := some attempt } ∧ requestCheck before attempt = .ok () ∧
      bodySources attempt = .ok sources := by
  simp only [Snapshot.withAttempt, bind_eq_ok] at h
  obtain ⟨_, hcheck, _, -, own, hown, he⟩ := h
  cases he
  exact ⟨rfl, hcheck, hown⟩

theorem Snapshot.prepareAttempt_cases {request : Request crypto} {body : List UInt8} {publication : Publication crypto}
    (h : state.prepareAttempt request body = .ok publication) : state.prepare (.attempt ⟨request, body⟩) = .ok publication := by
  simp only [Snapshot.prepareAttempt, bind_eq_ok] at h
  obtain ⟨_, -, h⟩ := h
  exact h

theorem Snapshot.prepareResponse_cases {proof : ResponseProof crypto} {body : List UInt8} {publication : Publication crypto}
    (h : state.prepareResponse proof body = .ok publication) :
    ∃ record, record.Genuine ∧ state.prepare (.response record) = .ok publication := by
  simp only [Snapshot.prepareResponse, bind_eq_ok] at h
  obtain ⟨_, -, _, -, _, -, record, hnew, h⟩ := h
  exact ⟨record, (ContinuityEvidenceRecord.new_genuine hnew).1, h⟩

/-- What a step publishes: a response with its record, or something that leaves retention alone. -/
inductive Published (read : UInt64 → Except StorageError (List UInt8)) (state : Snapshot crypto) :
    List (ContinuityEvidenceRecord crypto) → Snapshot crypto → Prop
  | job {job : ContinuityJob} {after : Snapshot crypto} {generation : UInt64} (h : state.withJob job = .ok after)
      (hjob : Local crypto read state.scope ⟨job.terminal, some job.frame⟩) : Published read state [] { after with generation }
  | attempt {nonce : Bytes32} {attempt : ContinuityAttempt crypto} {generation : UInt64} :
      Published read state [] { state with lastNonce := nonce, attempt := some attempt, generation }
  | response {record : ContinuityEvidenceRecord crypto} {sources : List SourceCheck} {retention : RetentionHead}
      {terminal : Option TerminalEvidence} {bytes generation : UInt64} (haccepts : Accepts state record sources) (hgenuine : record.Genuine)
      (hfound : ∀ source ∈ sources, Local crypto read state.scope source) (hmoved : Moved state record retention terminal) :
      Published read state [record] { state with
        records := record.index, bytes, latest := some record.reference, retention, terminal, attempt := none, generation }

theorem Step.published (h : Step read state notes state') : Published read state notes state' := by
  obtain ⟨hprepared, hsources⟩ := h
  rename_i publication head
  cases hprepared with
  | job job h =>
    obtain ⟨after, sources, generation, hproject, hbefore, hoperation, hafter, hmem⟩ := Snapshot.prepare_cases h
    simp only [Snapshot.project, bind_eq_ok] at hproject
    obtain ⟨after', hjob, he⟩ := hproject
    cases he
    rw [Publication.record, hoperation, hafter]
    refine .job hjob ?_
    rw [← hbefore]
    refine Publication.checkSources_local hsources ((hmem _).2 (.inr ?_))
    rw [Snapshot.jobSource, (Snapshot.withJob_cases hjob).2.1]
    exact List.mem_singleton_self _
  | attempt request body h =>
    obtain ⟨after, sources, generation, hproject, -, hoperation, hafter, -⟩ := Snapshot.prepare_cases (Snapshot.prepareAttempt_cases h)
    obtain ⟨rfl, -, -⟩ := Snapshot.withAttempt_cases hproject
    rw [Publication.record, hoperation, hafter]
    exact .attempt
  | response proof body h =>
    obtain ⟨record, hgenuine, h⟩ := Snapshot.prepareResponse_cases h
    obtain ⟨after, sources, generation, hproject, hbefore, hoperation, hafter, hmem⟩ := Snapshot.prepare_cases h
    obtain ⟨haccepts, bytes, retention, terminal, hmoved, rfl⟩ := Snapshot.withResponse_cases hproject
    rw [Publication.record, hoperation, hafter]
    refine .response haccepts hgenuine (fun source hsource => ?_) hmoved
    rw [← hbefore]
    exact Publication.checkSources_local hsources ((hmem source).2 (.inl hsource))

theorem Earned.step (h : Earned read session records state) (hstep : Step read state notes state') :
    Earned read session (records ++ notes) state' := by
  cases hstep.published with
  | @job job after generation hjob hlocal =>
    rw [List.append_nil]
    obtain ⟨hterminal, hselected, hcases⟩ := Snapshot.withJob_cases hjob
    have hown : ∀ j, after.job = some j → j.terminal ≠ .empty ∧ Local crypto read session ⟨j.terminal, some j.frame⟩ := by
      intro j hj
      rw [hselected, Option.some.injEq] at hj
      rw [← hj, ← h.own]
      exact ⟨hterminal, hlocal⟩
    rcases hcases with rfl | rfl
    · exact h.keep rfl rfl rfl rfl hown h.terminal
    · exact h.keep rfl rfl rfl rfl hown fun t ht => by cases ht
  | attempt =>
    rw [List.append_nil]
    exact h.keep rfl rfl rfl rfl h.job h.terminal
  | response haccepts hgenuine hfound hmoved => exact h.respond haccepts hgenuine (h.own ▸ hfound) hmoved

theorem Earned.run (h : Earned read session records state) (hrun : Steps (Step read) state notes state') :
    Earned read session (records ++ notes) state' :=
  hrun.invariant h fun _ _ _ _ h hstep => h.step hstep

theorem Step.still (hstep : Step read state notes state') (hnotes : ∀ record ∈ notes, record.reply.entries = []) :
    state'.retention = state.retention := by
  cases hstep.published with
  | job hjob _ =>
    obtain ⟨-, -, rfl | rfl⟩ := Snapshot.withJob_cases hjob <;> rfl
  | attempt => rfl
  | response _ _ _ hmoved =>
    cases hmoved with
    | still | committed => rfl
    | @evidence page last hreply hlast =>
      have hnone := hnotes _ (List.mem_singleton_self _)
      rw [hreply] at hnone
      have hempty : page.entries = [] := hnone
      rw [hempty] at hlast
      cases hlast

theorem still (hrun : Steps (Step read) state notes state') (hnotes : ∀ record ∈ notes, record.reply.entries = []) :
    state'.retention = state.retention := by
  refine hrun.recorded (I := fun notes state' => (∀ record ∈ notes, record.reply.entries = []) → state'.retention = state.retention)
    (fun _ => rfl) (fun done s now t ih hstep hall => ?_) hnotes
  have hbefore := ih fun r hr => hall r (List.mem_append_left now hr)
  exact (hstep.still fun r hr => hall r (List.mem_append_right done hr)).trans hbefore

theorem Earned.sequence (h : Earned read session records state) : state.retention.position.sequence.toNat = (evidence records).length := by
  have hlength := h.segment.length
  rw [List.length_map] at hlength
  exact hlength.trans (Nat.zero_add _)

/-! ### Sources of an honest publication -/

def Collision (crypto : Crypto) (a b : List UInt8) : Prop := a ≠ b ∧ crypto.sha256 a = crypto.sha256 b

def OnChain (crypto : Crypto) (read : UInt64 → Except StorageError (List UInt8)) (session : SessionScope) (position : Position) : Prop :=
  ∃ event : VerifiedEvent crypto, read position.sequence = .ok event.encode ∧ Position.of event = position ∧
    AuthorScope.of event.claims.scope event.claims.author = session.author

/-- The local event at the position of this one is this one, byte for byte unless the two frames collide. -/
def Exact (read : UInt64 → Except StorageError (List UInt8)) (session : SessionScope) (event : VerifiedEvent crypto) : Prop :=
  OnChain crypto read session (.of event) ∧
    ∃ raw, read event.claims.sequence = .ok raw ∧ (raw = event.encode ∨ Collision crypto raw event.encode)

def Completed (read : UInt64 → Except StorageError (List UInt8)) (session : SessionScope)
    (records : List (ContinuityEvidenceRecord crypto)) (job : ContinuityJob) : Prop :=
  ∃ admitted ∈ records, admitted.job = job ∧ ∃ receipt, admitted.reply = .committed receipt ∧
    ∃ covering ∈ records, ∃ page, covering.reply = .evidence page ∧ ∃ entry ∈ page.entries,
      entry.role = .currentAdmission ∧ entry.committedBy = receipt.cursor ∧ entry.registry = receipt.registry ∧
        ∀ event, event = receipt.event ∨ event = entry.event →
          Position.of event = job.terminal ∧ crypto.sha256 event.encode = job.frame ∧ Exact read session event

/-- What the snapshot claims of the peer, and where it has that from. -/
structure Retains (read : UInt64 → Except StorageError (List UInt8)) (session : SessionScope)
    (records : List (ContinuityEvidenceRecord crypto)) (state : Snapshot crypto) : Prop where
  genuine : ∀ record ∈ records, record.Genuine ∧ record.scope = session
  count : state.records.toNat = records.length
  chain : (recording crypto).Path (0, zeroBytes) records (state.records.toNat, state.previousDigest)
  position : state.retention.position = .empty ∨ OnChain crypto read session state.retention.position
  covered : ∀ n, 1 ≤ n → n ≤ state.retention.position.sequence.toNat → ∃ record ∈ records, ∃ page, record.reply = .evidence page ∧
    ∃ entry ∈ page.entries, entry.event.claims.sequence.toNat = n ∧ Exact read session entry.event
  continuing : Continuing none (evidence records)
  attributed : ∀ entry ∈ evidence records, entry.Attributed
  complete : state.complete = true → ∃ job, state.job = some job ∧ Completed read session records job

theorem Local.onChain {source : SourceCheck} (h : Local crypto read session source) : OnChain crypto read session source.position := by
  obtain ⟨event, hread, hposition, hscope, -⟩ := h
  exact ⟨event, hread, hposition, hscope⟩

theorem Local.exact {event : VerifiedEvent crypto} (h : Local crypto read session (.event event)) : Exact read session event := by
  refine ⟨h.onChain, ?_⟩
  obtain ⟨found, hread, -, -, hframe⟩ := h
  refine ⟨found.encode, hread, ?_⟩
  by_cases hsame : found.encode = event.encode
  · exact .inl hsame
  · exact .inr ⟨hsame, hframe _ rfl⟩

namespace Earned

theorem last (h : Earned read session records state) (hposition : state.retention.position ≠ .empty) :
    ∃ entry, (evidence records).getLast? = some entry ∧ Position.of entry.event = state.retention.position := by
  cases htop : (evidence records).getLast? with
  | none =>
    have hsegment := h.segment
    rw [List.getLast?_eq_none_iff.1 htop] at hsegment
    exact (hposition (Segment.unique hsegment .refl)).elim
  | some entry =>
    have hlast : ((evidence records).map Entry.event).getLast? = some entry.event := by
      rw [List.getLast?_map, htop]
      rfl
    exact ⟨entry, rfl, Position.point_injective (h.segment.path.last hlast)⟩

theorem position (h : Earned read session records state) :
    state.retention.position = .empty ∨ OnChain crypto read session state.retention.position := by
  by_cases hempty : state.retention.position = .empty
  · exact .inl hempty
  · obtain ⟨entry, htop, hposition⟩ := h.last hempty
    rw [← hposition]
    exact .inr (h.found entry (List.mem_of_getLast? htop)).onChain

theorem covered (h : Earned read session records state) {n : Nat} (hpos : 1 ≤ n) (hn : n ≤ state.retention.position.sequence.toNat) :
    ∃ record ∈ records, ∃ page, record.reply = .evidence page ∧
      ∃ entry ∈ page.entries, entry.event.claims.sequence.toNat = n ∧ Exact read session entry.event := by
  rw [h.sequence] at hn
  have hlt : n - 1 < (evidence records).length := by omega
  have hsplit : evidence records = (evidence records).take (n - 1) ++ (evidence records)[n - 1] :: (evidence records).drop n := by
    conv_lhs => rw [← List.take_append_drop (n - 1) (evidence records), List.drop_eq_getElem_cons hlt, Nat.sub_add_cancel hpos]
  have hmem : (evidence records)[n - 1] ∈ evidence records := List.getElem_mem hlt
  have hsegment := h.segment
  rw [hsplit, List.map_append, List.map_cons] at hsegment
  obtain ⟨middle, hfirst, hrest⟩ := hsegment.split
  have hlength := hfirst.length
  rw [List.length_map, List.length_take_of_le (Nat.le_of_lt hlt)] at hlength
  obtain ⟨record, hrecord, page, hreply, hentry⟩ := mem_evidence hmem
  refine ⟨record, hrecord, page, hreply, _, hentry, ?_, (h.found _ hmem).exact⟩
  have hsequence : ((evidence records)[n - 1]).event.claims.sequence.toNat = middle.sequence.toNat + 1 := hrest.path.1
  rw [hsequence, hlength]
  show 0 + (n - 1) + 1 = n
  omega

theorem complete (h : Earned read session records state) (hcomplete : state.complete = true) :
    ∃ job, state.job = some job ∧ Completed read session records job := by
  simp only [Snapshot.complete, RetentionHead.agrees, Option.any_eq_true, Bool.and_eq_true, beq_iff_eq] at hcomplete
  obtain ⟨job, hjob, t, hterminal, ⟨htposition, hposition⟩, ⟨hrole, hcursor⟩, hregistry⟩ := hcomplete
  obtain ⟨hne, hlocal⟩ := h.job job hjob
  obtain ⟨job', hjob', admitted, hadmitted, hadmittedJob, -, receipt, hreceipt, htevent, htcursor, htregistry, hfound⟩ := h.terminal t hterminal
  obtain rfl : job = job' := Option.some.inj (hjob.symm.trans hjob')
  obtain ⟨entry, htop, hentryPosition⟩ := h.last (hposition ▸ hne)
  have hmem : entry ∈ evidence records := List.mem_of_getLast? htop
  obtain ⟨covering, hcovering, page, hpage, hentry⟩ := mem_evidence hmem
  have htops := h.tops
  rw [htop] at htops
  refine ⟨job, hjob, admitted, hadmitted, hadmittedJob, receipt, hreceipt, covering, hcovering, page, hpage, entry, hentry,
    Option.some.inj (htops.role.symm.trans hrole), ?_, ?_, fun event hevent => ?_⟩
  · rw [← htops.committedBy entry rfl, hcursor, htcursor]
  · rw [← htops.registry entry rfl, hregistry, htregistry]
  · have hevents : Local crypto read session (.event event) ∧ Position.of event = job.terminal := by
      rcases hevent with rfl | rfl
      · exact ⟨hfound, htevent.symm.trans htposition⟩
      · exact ⟨h.found entry hmem, hentryPosition.trans hposition⟩
    exact ⟨hevents.2, hevents.1.frame hlocal hevents.2 rfl rfl, hevents.1.exact⟩

end Earned

section
open RoomActivity (sampleCrypto sampleEvent sampleScope)

def sampleSession : SessionScope where
  author := .of sampleScope Social.sampleKey
  history := ⟨sampleScope.network, Vector.replicate 32 3⟩
  peer := Vector.replicate 32 4
  endpoint := []
  checked := by decide

def sampleLimits : Limits := ⟨100, 100000⟩

def sampleFresh : Snapshot sampleCrypto := ⟨sampleSession, sampleLimits, 0, none, none, zeroBytes, 0, 0, none, .empty, none⟩

def sampleJob : ContinuityJob where
  operation := Vector.replicate 16 1
  terminal := .of sampleEvent
  frame := sampleCrypto.sha256 sampleEvent.encode

def samplePublication : Publication sampleCrypto :=
  ⟨sampleFresh, { sampleFresh with job := some sampleJob, generation := 1 }, .job sampleJob, [⟨sampleJob.terminal, some sampleJob.frame⟩]⟩

theorem sample_prepares : sampleFresh.prepareJob sampleJob = .ok samplePublication := by
  have hjob : sampleFresh.withJob sampleJob = .ok { sampleFresh with job := some sampleJob } := by decide +kernel
  have hproject : sampleFresh.project (.job sampleJob) = .ok ({ sampleFresh with job := some sampleJob }, []) := by
    simp only [Snapshot.project, hjob]
    rfl
  have harrange : Snapshot.arrange [⟨sampleJob.terminal, some sampleJob.frame⟩] = samplePublication.sources := by
    rw [Snapshot.arrange, List.mergeSort_singleton, List.destutter_singleton]
    rfl
  rw [Snapshot.prepareJob, Snapshot.prepare, hproject]
  show (require _ (decide ((Snapshot.arrange [⟨sampleJob.terminal, some sampleJob.frame⟩]).length ≤ maxSourceChecks)) >>= fun _ =>
    Check.okOr _ (checkedAdd sampleFresh.generation 1) >>= fun generation => pure (Publication.mk sampleFresh
      { sampleFresh with job := some sampleJob, generation } (.job sampleJob) (Snapshot.arrange [⟨sampleJob.terminal, some sampleJob.frame⟩]))) = _
  rw [harrange]
  rfl

end

end Valhalla.Continuity
