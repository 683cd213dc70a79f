import Valhalla.DirectRoom.Seals

/-!
# Seal-anchored continuity

An author chain with the events committed to it (`Committed`), built by any interleaving of commits and anchor
reconciliations with tokens of any age and any policy states. `Held` is its invariant: the history is linked,
and the seal that the chain has checked lies on it. A reconciliation only walks forward from the seal; that
the history passes the seal follows backwards from the common head.
-/

namespace Valhalla.DirectRoom
open Fallible FixedWidth Check

variable {crypto : Crypto}

namespace PolicyState
variable {s : PolicyState crypto}

/-- The state of some run. -/
def Reached (s : PolicyState crypto) : Prop :=
  ∃ genesis log, Steps (PolicyStep fun _ => True) (PolicyState.new genesis) log s

def SealsEvents (s : PolicyState crypto) : Prop := ∀ author head, s.sealedHead author = some head → 1 ≤ head.position.1

theorem Commits.sealsEvents {origin : PolicyState crypto} {pushed : List (VerifiedEvent crypto)} {p : PreparedPolicy crypto}
    (h : s.Commits p) (hp : Prepares origin pushed p) (hs : s.SealsEvents) : (s.committed p).SealsEvents := by
  intro author head hhead
  by_cases hmem : author ∈ p.proofs.map fun proof => proof.target.author
  · obtain ⟨proof, hproof, rfl⟩ := List.mem_map.1 hmem
    rw [show (s.committed p).sealedHead proof.target.author = some proof.chain.head from
      Maps.getElem?_insertAll_of_mem hp.facts.nodup hproof] at hhead
    obtain rfl := Option.some.inj hhead
    rw [head_of_complete (List.all_eq_true.1 h.ready proof hproof)]
    have hdeclared : proof.target ∈ p.update.claims.sealedHeads := by
      rw [← hp.facts.declared]
      exact List.mem_map_of_mem hproof
    have hne := (sealedHeads_check p.update).1 _ hdeclared
    exact Nat.one_le_iff_ne_zero.2 fun he => hne (UInt64.toNat_inj.1 he)
  · rw [sealedHead_committed_of_notMem hmem] at hhead
    exact hs author head hhead

theorem SameHistory.sealsEvents {s' : PolicyState crypto} (h : s.SameHistory s') (hs : s.SealsEvents) : s'.SealsEvents := by
  intro author head hhead
  rw [sealedHead, h.sealedHeads] at hhead
  exact hs author head hhead

theorem SealsEvents.step {mint : PolicyState crypto → Prop} {notes : List (PolicyNote crypto)} {s' : PolicyState crypto}
    (h : s.SealsEvents) (hs : PolicyStep mint s notes s') : s'.SealsEvents := by
  cases hs with
  | @observe _ update _ he =>
    have hobs := s.observes update
    rw [he] at hobs
    exact hobs.sameHistory.sealsEvents h
  | observeRetained he =>
    obtain ⟨e, hexec⟩ := exec_observeRetainedAfterPersist (s := s)
    rw [hexec] at he
    cases he
    split
    · exact h
    · exact h
  | commit _ hp he =>
    rcases exec_commitAfterPersist (s := s) _ with ⟨hc, hexec⟩ | ⟨e, hexec⟩
    · rw [hexec] at he
      cases he
      exact hc.sealsEvents hp h
    · rw [hexec] at he
      cases he
      exact h

theorem Reached.sealsEvents (h : s.Reached) : s.SealsEvents := by
  obtain ⟨genesis, log, hrun⟩ := h
  refine hrun.preserves (fun author head hhead => ?_) fun _ _ _ hs hstep => hs.step hstep
  simp [sealedHead, new] at hhead

end PolicyState

namespace AuthorChain
variable {chain chain' : AuthorChain} {policy : PolicyState crypto} {history : List (VerifiedEvent crypto)}
  {event : VerifiedEvent crypto}

/-! ### Histories -/

structure Held (chain : AuthorChain) (history : List (VerifiedEvent crypto)) : Prop where
  follows : chain.Follows .empty history
  checked : ∀ sealHead, chain.checkedSeal = some sealHead → (eventLinking crypto).Passes history sealHead.position

/-- The seal of an anchor that `checkFreshAnchor` accepts lies on the history. -/
theorem Held.passes (h : chain.Held history) (hpolicy : policy.SealsEvents) {sealHead : AuthorHead}
    (hcheck : chain.checkFreshAnchor policy = .ok ()) (hseal : policy.sealedHead chain.author = some sealHead) :
    (eventLinking crypto).Passes history sealHead.position := by
  rw [checkFreshAnchor, hseal] at hcheck
  simp only at hcheck
  split at hcheck
  · cases hcheck
  · split at hcheck
    · simp only [require_eq_ok, beq_iff_eq] at hcheck
      rw [← hcheck]
      refine h.follows.path.passes_end ?_
      rw [hcheck]
      exact hpolicy _ _ hseal
    · simp only [require_eq_ok, beq_iff_eq] at hcheck
      exact h.checked _ hcheck

theorem Held.anchorAfter (h : chain.Held history) (hpolicy : policy.SealsEvents) (hnext : chain.Next event)
    {checkedSeal : Option AuthorHead} (hcheck : chain.checkedAnchorAfter event policy = .ok checkedSeal) :
    ∀ sealHead, checkedSeal = some sealHead → (eventLinking crypto).Passes (history ++ [event]) sealHead.position := by
  intro sealHead hsome
  subst hsome
  simp only [checkedAnchorAfter, bind_eq_ok] at hcheck
  obtain ⟨-, -, hcheck⟩ := hcheck
  split at hcheck
  · cases hcheck
  · rename_i found hfound
    split at hcheck
    · split at hcheck
      · rename_i hseq
        simp only [bind_eq_ok, require_eq_ok, beq_iff_eq] at hcheck
        obtain ⟨-, hid, he⟩ := hcheck
        cases he
        -- the event itself is the sealed one
        have hhead : headOf event = sealHead := congrArg₂ AuthorHead.mk hseq hid
        have hpath := (h.follows.snoc hnext).path.passes_end (by rw [hhead]; exact hpolicy _ _ hfound)
        rw [← hhead]
        exact hpath
      · cases hcheck
    · obtain ⟨_, hfresh, he⟩ := bind_eq_ok.1 hcheck
      cases he
      exact (h.passes hpolicy hfresh hfound).append

theorem Held.extend (h : chain.Held history) (hpolicy : policy.SealsEvents) (hnext : chain.Next event)
    {checkedSeal : Option AuthorHead} (hcheck : chain.checkedAnchorAfter event policy = .ok checkedSeal) :
    ({ chain with head := headOf event, checkedSeal } : AuthorChain).Held (history ++ [event]) :=
  ⟨⟨(h.follows.snoc hnext).path, (h.follows.snoc hnext).room, (h.follows.snoc hnext).author⟩,
    h.anchorAfter hpolicy hnext hcheck⟩

/-! ### Operations -/

theorem commitContinuity_cases (chain : AuthorChain) (policy : PolicyState crypto) (prepared : PreparedContinuity crypto) :
    (∃ e, exec (commitContinuityAfterPersist prepared policy) chain = (.error e, chain)) ∨
      ∃ checkedSeal, prepared.room = chain.room ∧ prepared.author = chain.author ∧ prepared.base = chain.head ∧
        chain.checkedAnchorAfter prepared.event policy = .ok checkedSeal ∧
        exec (commitContinuityAfterPersist prepared policy) chain =
          (.ok (), { chain with head := headOf prepared.event, checkedSeal }) := by
  simp only [commitContinuityAfterPersist, exec_examine_bind, require]
  by_cases hbase : prepared.room = chain.room ∧ prepared.author = chain.author ∧ prepared.base = chain.head
  · obtain ⟨hroom, hauthor, hhead⟩ := hbase
    rw [hroom, hauthor, hhead]
    cases hcheck : chain.checkedAnchorAfter prepared.event policy with
    | error e => exact .inl ⟨e, by simp⟩
    | ok checkedSeal => exact .inr ⟨checkedSeal, rfl, rfl, rfl, rfl, by simp; rfl⟩
  · refine .inl ⟨.staleBase, ?_⟩
    have hfalse : (prepared.room == chain.room && prepared.author == chain.author && prepared.base == chain.head) = false := by
      rw [Bool.eq_false_iff]
      simpa [and_assoc] using hbase
    simp [hfalse]

theorem commitAfterPersist_cases (chain : AuthorChain) (policy : PolicyState crypto) (prepared : PreparedEvent crypto) :
    (∃ e, exec (commitAfterPersist prepared policy) chain = (.error e, chain)) ∨
      exec (commitAfterPersist prepared policy) chain = exec (commitContinuityAfterPersist prepared.step policy) chain := by
  simp only [commitAfterPersist, exec_examine_bind]
  split
  · split
    · split
      · exact .inr rfl
      · exact .inl ⟨_, rfl⟩
    · exact .inl ⟨_, rfl⟩
  · exact .inl ⟨_, rfl⟩

theorem reconcileAnchor_cases (chain : AuthorChain) (policy : PolicyState crypto) (proof : AnchorReconciliation) :
    (∃ e, exec (reconcileAnchor proof policy) chain = (.error e, chain)) ∨
      proof.target = chain.head ∧ policy.sealedHead chain.author = some proof.sealHead ∧ proof.isReady = true ∧
        exec (reconcileAnchor proof policy) chain = (.ok (), { chain with checkedSeal := some proof.sealHead }) := by
  simp only [reconcileAnchor, exec_examine_bind]
  split
  · rename_i hbase
    simp only [require_eq_ok, Bool.and_eq_true, beq_iff_eq] at hbase
    split
    · rename_i hpolicy
      simp only [require_eq_ok, Bool.and_eq_true, beq_iff_eq] at hpolicy
      split
      · rename_i hready
        exact .inr ⟨hbase.2, hpolicy.2, require_eq_ok.1 hready, rfl⟩
      · exact .inl ⟨_, rfl⟩
    · exact .inl ⟨_, rfl⟩
  · exact .inl ⟨_, rfl⟩

theorem prepareContinuity_eq_ok {prepared : PreparedContinuity crypto} (h : chain.prepareContinuity event policy = .ok prepared) :
    chain.Next event ∧ prepared = ⟨chain.room, chain.author, chain.head, event⟩ := by
  simp only [prepareContinuity, bind_eq_ok] at h
  obtain ⟨_, hnext, -, -, h⟩ := h
  cases h
  exact ⟨checkNext_eq_ok.1 hnext, rfl⟩

theorem prepareNext_eq_ok {prepared : PreparedEvent crypto} (h : chain.prepareNext event policy = .ok prepared) :
    chain.Next event ∧ prepared.step = ⟨chain.room, chain.author, chain.head, event⟩ := by
  simp only [prepareNext, bind_eq_ok] at h
  obtain ⟨-, -, -, -, -, -, -, -, _, hnext, h⟩ := h
  cases h
  exact ⟨checkNext_eq_ok.1 hnext, rfl⟩

theorem Next.of_base {chain₀ : AuthorChain} (h : chain₀.Next event) (hroom : chain₀.room = chain.room)
    (hauthor : chain₀.author = chain.author) (hhead : chain₀.head = chain.head) : chain.Next event :=
  ⟨hroom ▸ h.room, hauthor ▸ h.author, hhead ▸ h.sequence, hhead ▸ h.previous⟩

/-! ### Reconciliation -/

/-- `proof` was prepared from `chain` and `policy`, and the pages it accepted since then hold the events `pushed`. -/
inductive Reconciles (chain : AuthorChain) (policy : PolicyState crypto) :
    List (VerifiedEvent crypto) → AnchorReconciliation → Prop
  | prepare {proof : AnchorReconciliation} : chain.prepareAnchorReconciliation policy = .ok proof →
      Reconciles chain policy [] proof
  | push {pushed page : List (VerifiedEvent crypto)} {proof proof' : AnchorReconciliation} :
      Reconciles chain policy pushed proof → exec (AnchorReconciliation.push page) proof = (.ok (), proof') →
        Reconciles chain policy (pushed ++ page) proof'
  | refuse {pushed page : List (VerifiedEvent crypto)} {proof proof' : AnchorReconciliation} {e : Error} :
      Reconciles chain policy pushed proof → exec (AnchorReconciliation.push page) proof = (.error e, proof') →
        Reconciles chain policy pushed proof'

theorem push_cases (page : List (VerifiedEvent crypto)) (proof : AnchorReconciliation) :
    (∃ e, exec (AnchorReconciliation.push page) proof = (.error e, proof)) ∨
      ∃ next : AuthorChain, page.foldlM proof.pushEvent ⟨proof.room, proof.author, proof.progress, none⟩ = .ok next ∧
        exec (AnchorReconciliation.push page) proof = (.ok (), { proof with progress := next.head }) := by
  simp only [AnchorReconciliation.push, exec_examine_bind]
  split
  · split
    · rename_i hfold
      exact .inr ⟨_, hfold, rfl⟩
    · exact .inl ⟨_, rfl⟩
  · exact .inl ⟨_, rfl⟩

theorem Reconciles.path {pushed : List (VerifiedEvent crypto)} {proof : AnchorReconciliation}
    (h : Reconciles chain policy pushed proof) :
    (eventLinking crypto).Path proof.sealHead.position pushed proof.progress.position := by
  induction h with
  | prepare h =>
    simp only [prepareAnchorReconciliation, bind_eq_ok] at h
    obtain ⟨-, -, sealHead, -, -, -, -, -, h⟩ := h
    cases h
    rfl
  | @push _ page proof _ _ hpush ih =>
    rcases push_cases page proof with ⟨e, hexec⟩ | ⟨next, hfold, hexec⟩
    · rw [hexec] at hpush
      cases hpush
    · rw [hexec] at hpush
      cases hpush
      rw [Linking.path_append]
      refine ⟨_, ih, ?_⟩
      have hstart : (eventLinking crypto).Path proof.progress.position ([] : List (VerifiedEvent crypto))
        proof.progress.position := rfl
      refine foldlM_invariant (I := fun done (next : AuthorChain) =>
        (eventLinking crypto).Path proof.progress.position done next.head.position)
        (fun done event next next' hpath hev => ?_) hstart hfold
      simp only [AnchorReconciliation.pushEvent, bind_eq_ok] at hev
      obtain ⟨-, -, _, hnext, -, -, he⟩ := hev
      cases he
      have hn := checkNext_eq_ok.1 hnext
      exact hpath.snoc hn.sequence hn.previous
  | @refuse _ page proof _ _ _ hpush ih =>
    rcases push_cases page proof with ⟨e, hexec⟩ | ⟨next, hfold, hexec⟩
    · rw [hexec] at hpush
      cases hpush
      exact ih
    · rw [hexec] at hpush
      cases hpush

/-! ### Everything a run can build -/

/-- What an operation adds to the history. -/
def appended (result : Except Error Unit) (event : VerifiedEvent crypto) : List (VerifiedEvent crypto) :=
  match result with
  | .ok _ => [event]
  | .error _ => []

/-- A chain with the events committed to it, in any run over the given `events`: the tokens come from any chain
and any policy state built before, and the policy states that they meet are any as well. -/
inductive Committed (events : VerifiedEvent crypto → Prop) : AuthorChain → List (VerifiedEvent crypto) → Prop
  | new {room : RoomId} {author : Bytes32} {chain : AuthorChain} :
      AuthorChain.new crypto room author = .ok chain → Committed events chain []
  | commitEvent {chain₀ chain chain' : AuthorChain} {history₀ history : List (VerifiedEvent crypto)}
      {policy₀ policy : PolicyState crypto} {event : VerifiedEvent crypto} {prepared : PreparedEvent crypto}
      {result : Except Error Unit} :
      Committed events chain₀ history₀ → policy₀.Reached → events event → chain₀.prepareNext event policy₀ = .ok prepared →
        Committed events chain history → policy.Reached →
          exec (commitAfterPersist prepared policy) chain = (result, chain') →
            Committed events chain' (history ++ appended result event)
  | commitContinuity {chain₀ chain chain' : AuthorChain} {history₀ history : List (VerifiedEvent crypto)}
      {policy₀ policy : PolicyState crypto} {event : VerifiedEvent crypto} {prepared : PreparedContinuity crypto}
      {result : Except Error Unit} :
      Committed events chain₀ history₀ → policy₀.Reached → events event →
        chain₀.prepareContinuity event policy₀ = .ok prepared → Committed events chain history → policy.Reached →
          exec (commitContinuityAfterPersist prepared policy) chain = (result, chain') →
            Committed events chain' (history ++ appended result event)
  | reconcile {chain₀ chain chain' : AuthorChain} {history₀ history pushed : List (VerifiedEvent crypto)}
      {policy₀ policy : PolicyState crypto} {proof : AnchorReconciliation} {result : Except Error Unit} :
      Committed events chain₀ history₀ → policy₀.Reached → (∀ event ∈ pushed, events event) →
        Reconciles chain₀ policy₀ pushed proof → Committed events chain history → policy.Reached →
          exec (reconcileAnchor proof policy) chain = (result, chain') → Committed events chain' history

/-- Equal ids of these events mean equal claims. -/
def CollisionFree (events : VerifiedEvent crypto → Prop) : Prop :=
  ∀ event event', events event → events event' → event.id = event'.id → event.claims = event'.claims

section
variable {events : VerifiedEvent crypto → Prop}

theorem Held.commit {chain₀ : AuthorChain} {result : Except Error Unit} (h : chain.Held history)
    (hevents : ∀ e ∈ history, events e) (hpolicy : policy.SealsEvents) (hevent : events event) (hnext : chain₀.Next event)
    (hexec : exec (commitContinuityAfterPersist ⟨chain₀.room, chain₀.author, chain₀.head, event⟩ policy) chain =
      (result, chain')) :
    chain'.Held (history ++ appended result event) ∧ ∀ e ∈ history ++ appended result event, events e := by
  rcases commitContinuity_cases chain policy ⟨chain₀.room, chain₀.author, chain₀.head, event⟩ with
    ⟨e, he⟩ | ⟨checkedSeal, hroom, hauthor, hhead, hcheck, he⟩
  · rw [he] at hexec
    cases hexec
    rw [appended, List.append_nil]
    exact ⟨h, hevents⟩
  · rw [he] at hexec
    cases hexec
    refine ⟨h.extend hpolicy (hnext.of_base hroom hauthor hhead) hcheck, fun e he => ?_⟩
    rcases List.mem_append.1 he with he | he
    · exact hevents e he
    · rw [List.mem_singleton.1 he]
      exact hevent

theorem Committed.held (hfree : CollisionFree events) (h : Committed events chain history) :
    chain.Held history ∧ ∀ event ∈ history, events event := by
  induction h with
  | new h =>
    simp only [AuthorChain.new, bind_eq_ok] at h
    obtain ⟨-, -, -, -, h⟩ := h
    cases h
    exact ⟨⟨.refl _, by simp⟩, by simp⟩
  | @commitEvent _ chain _ _ _ _ policy _ prepared _ _ _ hevent hprepare _ hpolicy hexec _ ih =>
    obtain ⟨hnext, hstep⟩ := prepareNext_eq_ok hprepare
    rcases commitAfterPersist_cases chain policy prepared with ⟨e, he⟩ | he
    · rw [he] at hexec
      cases hexec
      rw [appended, List.append_nil]
      exact ih
    · rw [he, hstep] at hexec
      exact ih.1.commit ih.2 hpolicy.sealsEvents hevent hnext hexec
  | commitContinuity _ _ hevent hprepare _ hpolicy hexec _ ih =>
    obtain ⟨hnext, rfl⟩ := prepareContinuity_eq_ok hprepare
    exact ih.1.commit ih.2 hpolicy.sealsEvents hevent hnext hexec
  | @reconcile _ chain _ _ _ pushed _ policy proof _ _ _ hpushed hproof _ hpolicy hexec _ ih =>
    rcases reconcileAnchor_cases chain policy proof with ⟨e, he⟩ | ⟨htarget, hseal, hready, he⟩
    · rw [he] at hexec
      cases hexec
      exact ih
    · rw [he] at hexec
      cases hexec
      refine ⟨⟨⟨ih.1.follows.path, ih.1.follows.room, ih.1.follows.author⟩, fun sealHead hsome => ?_⟩, ih.2⟩
      obtain rfl := Option.some.inj hsome
      have hwalk := hproof.path
      rw [eq_of_beq hready, htarget] at hwalk
      have hpos := hpolicy.sealsEvents _ _ hseal
      have hlen := hwalk.length
      refine ih.1.follows.path.passes hwalk hpos (fun e he f hf hid => ?_) (ih.1.follows.path.passes_end (by omega))
      exact congrArg EventClaims.previous (hfree e f (ih.2 e he) (hpushed f hf) hid)

end

end AuthorChain

/-- Whenever a chain may author against a policy that holds a seal of its author, the events committed to it have
exactly the sealed event at the sealed sequence. -/
theorem sealed_continuity {events : VerifiedEvent crypto → Prop} (hfree : AuthorChain.CollisionFree events)
    {chain : AuthorChain} {history : List (VerifiedEvent crypto)} {policy : PolicyState crypto} {head sealHead : AuthorHead}
    (hchain : AuthorChain.Committed events chain history) (hpolicy : policy.Reached)
    (hhead : chain.authoringHead policy = .ok head) (hseal : policy.sealedHead chain.author = some sealHead) :
    1 ≤ sealHead.sequence.toNat ∧
      ∃ event, history[sealHead.sequence.toNat - 1]? = some event ∧ event.id = sealHead.event := by
  simp only [AuthorChain.authoringHead, bind_eq_ok] at hhead
  obtain ⟨-, -, -, -, -, -, _, hfresh, -⟩ := hhead
  exact (hchain.held hfree).1.passes hpolicy.sealsEvents hfresh hseal

def sampleChain (head : AuthorHead) : AuthorChain := ⟨sampleRoom, sampleKey, head, none⟩

def sampleEvents (event : VerifiedEvent sampleCrypto) : Prop := event = sampleEvent

theorem sample_committed : AuthorChain.Committed sampleEvents (sampleChain (headOf sampleEvent)) [sampleEvent] := by
  have hnew : AuthorChain.new sampleCrypto sampleRoom sampleKey = .ok (sampleChain .empty) := by decide +kernel
  have hprepare : (sampleChain .empty).prepareNext sampleEvent sampleStart =
    .ok ⟨⟨sampleRoom, sampleKey, .empty, sampleEvent⟩, ⟨0, sampleRoot⟩⟩ := by decide +kernel
  have hcommit : exec (AuthorChain.commitAfterPersist ⟨⟨sampleRoom, sampleKey, .empty, sampleEvent⟩, ⟨0, sampleRoot⟩⟩
    sampleStart) (sampleChain .empty) = (.ok (), sampleChain (headOf sampleEvent)) := by decide +kernel
  have hstart : sampleStart.Reached := ⟨sampleGenesis, [], .refl _⟩
  have hevent : sampleEvents sampleEvent := rfl
  exact AuthorChain.Committed.commitEvent (.new hnew) hstart hevent hprepare (.new hnew) hstart hcommit

theorem sample_sealed_continuity : ∃ event, [sampleEvent][0]? = some event ∧ event.id = sampleEventId := by
  have hfree : AuthorChain.CollisionFree sampleEvents := by
    rintro _ _ rfl rfl -
    rfl
  have hpolicy : sampleCommitted.Reached := ⟨sampleGenesis, _, .single (.commit trivial sample_prepares sample_commits)⟩
  have hhead : (sampleChain (headOf sampleEvent)).authoringHead sampleCommitted = .ok (headOf sampleEvent) := by
    decide +kernel
  have hseal : sampleCommitted.sealedHead sampleKey = some ⟨1, sampleEventId⟩ := by decide +kernel
  exact (sealed_continuity hfree sample_committed hpolicy hhead hseal).2

end Valhalla.DirectRoom
