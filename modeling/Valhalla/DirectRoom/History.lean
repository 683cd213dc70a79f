import Valhalla.DirectRoom.Seals

/-!
# Sealed history (`history.rs` of `vhalla-direct-room`)

An event of a closed policy is admitted once its ancestry is proved: the chain of its author from sequence one to
the owner's seal, offered in bounded pages. The proof does not depend on how the chain is cut into pages.
-/

namespace Valhalla.DirectRoom
open Fallible FixedWidth Check

/-- Constant-memory proof of exact signed ancestry from sequence one to an owner seal. -/
structure SealedHistoryVerifier (crypto : Crypto) where
  room : RoomId
  policy : PolicyId
  closingPolicy : PolicyId
  sealHead : SealHead
  candidate : VerifiedEvent crypto
  head : AuthorHead
  encountered : Bool
  terminalPolicy : Option PolicyId
deriving DecidableEq

/-- One historical event whose exact ancestry is endorsed by its owner-policy seal. -/
structure VerifiedHistoricalEvent (crypto : Crypto) where
  event : VerifiedEvent crypto
  closingPolicy : PolicyId
deriving DecidableEq

/-- A closed policy either excludes an event or requires exact ancestry proof. -/
inductive HistoryRequirement (crypto : Crypto)
  | continuityOnly
  | verify (verifier : SealedHistoryVerifier crypto)
deriving DecidableEq

variable {crypto : Crypto}

/-- Both searches are binary searches in the source: writers and seals of a verified policy ascend. -/
def ClosedPolicy.historyRequirement (closed : ClosedPolicy) (candidate : VerifiedEvent crypto) :
    Except Error (HistoryRequirement crypto) := do
  let claims := candidate.claims
  require .scope (claims.room == closed.room)
  require .policy (claims.policy == closed.policy)
  if !closed.writers.contains claims.author then pure .continuityOnly
  else match closed.seals.find? fun sealHead => sealHead.author == claims.author with
    | none => pure .continuityOnly
    | some sealHead =>
      if claims.sequence > sealHead.sequence then pure .continuityOnly
      else pure (.verify
        { room := closed.room, policy := closed.policy, closingPolicy := closed.closingPolicy, sealHead, candidate,
          head := .empty, encountered := false, terminalPolicy := none })

namespace SealedHistoryVerifier

def meetCandidate (next : SealedHistoryVerifier crypto) (event : VerifiedEvent crypto) : Except Error Bool :=
  if event.claims.sequence = next.candidate.claims.sequence then do
    require .fork (event.id == next.candidate.id)
    pure true
  else pure next.encountered

def meetSeal (next : SealedHistoryVerifier crypto) (event : VerifiedEvent crypto) : Except Error (Option PolicyId) :=
  if event.claims.sequence = next.sealHead.sequence then do
    require .fork (event.id == next.sealHead.event)
    require .policy (event.claims.policy == next.policy)
    pure (some event.claims.policy)
  else pure next.terminalPolicy

def pushEvent (next : SealedHistoryVerifier crypto) (event : VerifiedEvent crypto) :
    Except Error (SealedHistoryVerifier crypto) := do
  require .scope (event.claims.room == next.room)
  require .author (event.claims.author == next.sealHead.author)
  require .bounds !decide (event.claims.sequence > next.sealHead.sequence)
  let following ← okOr .exhausted (checkedAdd next.head.sequence 1)
  require .gap (event.claims.sequence == following)
  require .fork (event.claims.previous == next.head.event)
  let encountered ← next.meetCandidate event
  let terminalPolicy ← next.meetSeal event
  pure { next with encountered, head := headOf event, terminalPolicy }

def push (page : List (VerifiedEvent crypto)) : Fallible Error (SealedHistoryVerifier crypto) Unit := do
  examine fun _ => require .bounds (!page.isEmpty && decide (page.length ≤ maxChainPage))
  let next ← examine fun verifier => page.foldlM pushEvent verifier
  update fun _ => next

def finish (verifier : SealedHistoryVerifier crypto) : Except Error (VerifiedHistoricalEvent crypto) := do
  require .gap !(!verifier.encountered || verifier.head.sequence != verifier.sealHead.sequence ||
    verifier.head.event != verifier.sealHead.event || verifier.terminalPolicy != some verifier.policy)
  pure ⟨verifier.candidate, verifier.closingPolicy⟩

def pushAll (pages : List (List (VerifiedEvent crypto))) : Fallible Error (SealedHistoryVerifier crypto) Unit :=
  forM pages push

/-- Pages that `push` does not refuse for their length. -/
def Paged (pages : List (List (VerifiedEvent crypto))) : Prop := ∀ page ∈ pages, page ≠ [] ∧ page.length ≤ maxChainPage

/-- The pages that `start` accepted since then hold the events `pushed`. -/
inductive Pushed (start : SealedHistoryVerifier crypto) : List (VerifiedEvent crypto) → SealedHistoryVerifier crypto → Prop
  | start : Pushed start [] start
  | accept {pushed page : List (VerifiedEvent crypto)} {v v' : SealedHistoryVerifier crypto} :
      Pushed start pushed v → exec (push page) v = (.ok (), v') → Pushed start (pushed ++ page) v'
  | refuse {pushed page : List (VerifiedEvent crypto)} {e : Error} {v v' : SealedHistoryVerifier crypto} :
      Pushed start pushed v → exec (push page) v = (.error e, v') → Pushed start pushed v'

/-- The whole chain of the sealed author: contiguous and linked from sequence one, through the candidate, to the
seal, whose event names the candidate's policy. -/
structure SealedChain (start : SealedHistoryVerifier crypto) (events : List (VerifiedEvent crypto)) : Prop where
  path : (eventLinking crypto).Path AuthorHead.empty.position events start.sealHead.head.position
  room : ∀ event ∈ events, event.claims.room = start.room
  author : ∀ event ∈ events, event.claims.author = start.sealHead.author
  candidate : ∃ event ∈ events, event.claims.sequence = start.candidate.claims.sequence ∧ event.id = start.candidate.id
  terminal : ∃ event, events.getLast? = some event ∧ event.id = start.sealHead.event ∧
    event.claims.policy = start.candidate.claims.policy

variable {start v v' : SealedHistoryVerifier crypto} {page events : List (VerifiedEvent crypto)}
  {pages : List (List (VerifiedEvent crypto))} {event : VerifiedEvent crypto}

/-! ### Pages -/

theorem exec_push (v : SealedHistoryVerifier crypto) (page : List (VerifiedEvent crypto)) :
    exec (push page) v =
      if page ≠ [] ∧ page.length ≤ maxChainPage then
        match page.foldlM pushEvent v with
        | .ok next => (.ok (), next)
        | .error e => (.error e, v)
      else (.error .bounds, v) := by
  rw [push, exec_examine_bind]
  by_cases hpage : page ≠ [] ∧ page.length ≤ maxChainPage
  · have hlen : (!page.isEmpty && decide (page.length ≤ maxChainPage)) = true := by
      rw [Bool.and_eq_true, Bool.not_eq_true', List.isEmpty_eq_false_iff, decide_eq_true_eq]
      exact hpage
    rw [if_pos hpage, hlen]
    show exec (examine (fun v => page.foldlM pushEvent v) >>= fun next => update fun _ => next) v = _
    rw [exec_examine_bind]
    cases page.foldlM pushEvent v <;> rfl
  · have hlen : (!page.isEmpty && decide (page.length ≤ maxChainPage)) = false := by
      rw [← Bool.not_eq_true, Bool.and_eq_true, Bool.not_eq_true', List.isEmpty_eq_false_iff, decide_eq_true_eq]
      exact hpage
    rw [if_neg hpage, hlen]
    rfl

theorem push_error {e : Error} (h : exec (push page) v = (.error e, v')) : v' = v := by
  rw [exec_push] at h
  split at h
  · split at h
    · cases h
    · cases h
      rfl
  · cases h
    rfl

theorem exec_pushAll (hpages : Paged pages) (v : SealedHistoryVerifier crypto) :
    (∃ next, pages.flatten.foldlM pushEvent v = .ok next ∧ exec (pushAll pages) v = (.ok (), next)) ∨
      ∃ e, pages.flatten.foldlM pushEvent v = .error e ∧ (exec (pushAll pages) v).1 = .error e := by
  induction pages generalizing v with
  | nil => exact .inl ⟨v, rfl, rfl⟩
  | cons page pages ih =>
    obtain ⟨hpage, hrest⟩ := List.forall_mem_cons.1 hpages
    rw [List.flatten_cons, List.foldlM_append, pushAll, List.forM_cons, exec_bind, exec_push, if_pos hpage]
    cases page.foldlM pushEvent v with
    | error e => exact .inr ⟨e, rfl, rfl⟩
    | ok next => exact ih hrest next

/-! ### What the pushed events are -/

theorem meetCandidate_eq_ok {encountered : Bool} (h : v.meetCandidate event = .ok encountered) :
    encountered = true ↔ v.encountered = true ∨
      event.claims.sequence = v.candidate.claims.sequence ∧ event.id = v.candidate.id := by
  unfold meetCandidate at h
  split at h
  · rename_i hseq
    simp only [bind_eq_ok, require_eq_ok, beq_iff_eq] at h
    obtain ⟨-, hid, h⟩ := h
    cases h
    simp [hseq, hid]
  · rename_i hseq
    cases h
    simp [hseq]

theorem meetSeal_eq_ok {terminal : Option PolicyId} (h : v.meetSeal event = .ok terminal) :
    (terminal = some v.policy ↔ v.terminalPolicy = some v.policy ∨ event.claims.sequence = v.sealHead.sequence) ∧
      (event.claims.sequence = v.sealHead.sequence → event.id = v.sealHead.event ∧ event.claims.policy = v.policy) := by
  unfold meetSeal at h
  split at h
  · rename_i hseq
    simp only [bind_eq_ok, require_eq_ok, beq_iff_eq] at h
    obtain ⟨-, hid, -, hpolicy, h⟩ := h
    cases h
    simp [hseq, hid, hpolicy]
  · rename_i hseq
    cases h
    simp [hseq]

/-- What `v` knows of the events pushed since `start`. -/
structure Reached (start : SealedHistoryVerifier crypto) (events : List (VerifiedEvent crypto))
    (v : SealedHistoryVerifier crypto) : Prop where
  fixed : v = { start with head := v.head, encountered := v.encountered, terminalPolicy := v.terminalPolicy }
  path : (eventLinking crypto).Path AuthorHead.empty.position events v.head.position
  room : ∀ event ∈ events, event.claims.room = start.room
  author : ∀ event ∈ events, event.claims.author = start.sealHead.author
  encountered : v.encountered = true ↔
    ∃ event ∈ events, event.claims.sequence = start.candidate.claims.sequence ∧ event.id = start.candidate.id
  terminal : v.terminalPolicy = some start.policy ↔
    ∃ event ∈ events, event.claims.sequence = start.sealHead.sequence
  /-- An event at the sealed sequence is the sealed one. -/
  exact : ∀ event ∈ events, event.claims.sequence = start.sealHead.sequence →
    event.id = start.sealHead.event ∧ event.claims.policy = start.policy

theorem exists_mem_snoc {p : VerifiedEvent crypto → Prop} :
    (∃ e ∈ events ++ [event], p e) ↔ (∃ e ∈ events, p e) ∨ p event := by
  simp [or_and_right, exists_or]

theorem forall_mem_snoc {p : VerifiedEvent crypto → Prop} :
    (∀ e ∈ events ++ [event], p e) ↔ (∀ e ∈ events, p e) ∧ p event := by
  simp [or_imp, forall_and]

theorem Reached.push (h : start.Reached events v) (hpush : v.pushEvent event = .ok v') :
    start.Reached (events ++ [event]) v' := by
  simp only [pushEvent, bind_eq_ok, require_eq_ok, okOr_eq_ok, beq_iff_eq] at hpush
  obtain ⟨-, hroom, -, hauthor, -, -, following, hfollowing, -, hseq, -, hprevious, encountered, hmeet, terminal, hseal,
    hpush⟩ := hpush
  cases hpush
  have hcandidate := meetCandidate_eq_ok hmeet
  obtain ⟨hterminal, hexact⟩ := meetSeal_eq_ok hseal
  have hfixed := h.fixed
  rw [hfixed] at hroom hauthor hcandidate hterminal hexact
  have hnext : event.claims.sequence.toNat = v.head.sequence.toNat + 1 := by
    rw [hseq]
    exact checkedAdd_eq_some.1 hfollowing
  refine ⟨?_, h.path.snoc hnext hprevious, forall_mem_snoc.2 ⟨h.room, hroom⟩, forall_mem_snoc.2 ⟨h.author, hauthor⟩, ?_, ?_,
    forall_mem_snoc.2 ⟨h.exact, hexact⟩⟩
  · rw [hfixed]
  · rw [exists_mem_snoc, ← h.encountered]
    exact hcandidate
  · rw [exists_mem_snoc, ← h.terminal]
    exact hterminal

theorem Reached.pushes (h : start.Reached events v) (hpage : page.foldlM pushEvent v = .ok v') :
    start.Reached (events ++ page) v' :=
  foldlM_invariant (I := fun done v => start.Reached (events ++ done) v)
    (fun done event _ _ hv hpush => List.append_assoc events done [event] ▸ hv.push hpush)
    ((List.append_nil events).symm ▸ h) hpage

/-- Nothing was pushed yet. -/
structure Fresh (start : SealedHistoryVerifier crypto) : Prop where
  head : start.head = .empty
  encountered : start.encountered = false
  terminalPolicy : start.terminalPolicy = none
  policy : start.candidate.claims.policy = start.policy
  within : start.candidate.claims.sequence ≤ start.sealHead.sequence

theorem historyRequirement_eq_verify {closed : ClosedPolicy} {candidate : VerifiedEvent crypto}
    (h : closed.historyRequirement candidate = .ok (.verify start)) :
    start.Fresh ∧ start.candidate = candidate ∧ start.closingPolicy = closed.closingPolicy := by
  simp only [ClosedPolicy.historyRequirement, bind_eq_ok, require_eq_ok, beq_iff_eq] at h
  obtain ⟨-, -, -, hpolicy, h⟩ := h
  split at h
  · cases h
  · split at h
    · cases h
    · split at h
      · cases h
      · rename_i hle
        cases h
        exact ⟨⟨rfl, rfl, rfl, hpolicy, UInt64.not_lt.1 hle⟩, rfl, rfl⟩

theorem Fresh.reached (h : start.Fresh) : start.Reached [] start where
  fixed := rfl
  path := by rw [h.head]; rfl
  room := by simp
  author := by simp
  encountered := by simp [h.encountered]
  terminal := by simp [h.terminalPolicy]
  exact := by simp

theorem Pushed.reached (hstart : start.Fresh) (h : Pushed start events v) : start.Reached events v := by
  induction h with
  | start => exact hstart.reached
  | accept _ hpush ih =>
    rw [exec_push] at hpush
    split at hpush
    · split at hpush
      · rename_i hpage
        cases hpush
        exact ih.pushes hpage
      · cases hpush
    · cases hpush
  | refuse _ hpush ih => exact push_error hpush ▸ ih

/-! ### Finishing -/

theorem finish_eq_ok {past : VerifiedHistoricalEvent crypto} : v.finish = .ok past ↔
    (v.encountered = true ∧ v.head = v.sealHead.head ∧ v.terminalPolicy = some v.policy) ∧
      past = ⟨v.candidate, v.closingPolicy⟩ := by
  have hhead : v.head = v.sealHead.head ↔ v.head.sequence = v.sealHead.sequence ∧ v.head.event = v.sealHead.event := by
    rw [AuthorHead.mk.injEq]
    rfl
  rw [hhead]
  simp only [finish, bind_eq_ok, require_eq_ok, Bool.not_eq_true', Bool.or_eq_false_iff, Bool.not_eq_false',
    bne_eq_false_iff_eq, exists_const, and_assoc]
  constructor
  · rintro ⟨hencountered, hseq, hid, hterminal, h⟩
    cases h
    exact ⟨hencountered, hseq, hid, hterminal, rfl⟩
  · rintro ⟨hencountered, hseq, hid, hterminal, rfl⟩
    exact ⟨hencountered, hseq, hid, hterminal, rfl⟩

theorem Reached.sealedChain (h : start.Reached events v) (hstart : start.Fresh) (hencountered : v.encountered = true)
    (hhead : v.head = start.sealHead.head) : start.SealedChain events := by
  have hpath := h.path
  rw [hhead] at hpath
  have hcandidate := h.encountered.1 hencountered
  refine ⟨hpath, h.room, h.author, hcandidate, ?_⟩
  obtain ⟨event, hmem, -⟩ := hcandidate
  have hlast := List.getLast?_eq_some_getLast (List.ne_nil_of_mem hmem)
  have hposition := hpath.last hlast
  obtain ⟨hid, hpolicy⟩ := h.exact _ (List.mem_of_getLast? hlast) (UInt64.toNat_inj.1 (Prod.mk.inj hposition).1)
  exact ⟨_, hlast, hid, hpolicy.trans hstart.policy.symm⟩

theorem Reached.complete (h : start.Reached events v) (hchain : start.SealedChain events) :
    v.encountered = true ∧ v.head = start.sealHead.head ∧ v.terminalPolicy = some start.policy := by
  obtain ⟨last, hlast, -⟩ := hchain.terminal
  have hposition := hchain.path.last hlast
  have hseq : last.claims.sequence = start.sealHead.sequence := UInt64.toNat_inj.1 (Prod.mk.inj hposition).1
  exact ⟨h.encountered.2 hchain.candidate, AuthorHead.position_injective (h.path.unique hchain.path),
    h.terminal.2 ⟨last, List.mem_of_getLast? hlast, hseq⟩⟩

theorem Reached.finish_iff (h : start.Reached events v) (hstart : start.Fresh) {past : VerifiedHistoricalEvent crypto} :
    v.finish = .ok past ↔ start.SealedChain events ∧ past = ⟨start.candidate, start.closingPolicy⟩ := by
  have hfixed := h.fixed
  rw [finish_eq_ok, hfixed]
  refine and_congr_left fun _ => ⟨fun ⟨hencountered, hhead, _⟩ => h.sealedChain hstart hencountered hhead, h.complete⟩

end SealedHistoryVerifier

open SealedHistoryVerifier in
/-- However events are cut into pages, the pushes succeed or fail alike and succeed in one state; a failed push
changes nothing; and what was pushed on a new verifier finishes exactly when it is the sealed chain through the
candidate. -/
theorem paged_ancestry :
    (∀ (v : SealedHistoryVerifier crypto) (pages pages' : List (List (VerifiedEvent crypto))), Paged pages → Paged pages' →
      pages.flatten = pages'.flatten → (exec (pushAll pages) v).1 = (exec (pushAll pages') v).1 ∧
        ((exec (pushAll pages) v).1 = .ok () → (exec (pushAll pages) v).2 = (exec (pushAll pages') v).2)) ∧
    (∀ (v v' : SealedHistoryVerifier crypto) (page : List (VerifiedEvent crypto)) (e : Error),
      exec (push page) v = (.error e, v') → v' = v) ∧
    ∀ (closed : ClosedPolicy) (candidate : VerifiedEvent crypto) (start v : SealedHistoryVerifier crypto)
      (events : List (VerifiedEvent crypto)) (past : VerifiedHistoricalEvent crypto),
      closed.historyRequirement candidate = .ok (.verify start) → Pushed start events v →
        (v.finish = .ok past ↔ start.SealedChain events ∧ past = ⟨candidate, closed.closingPolicy⟩) := by
  refine ⟨fun v pages pages' hpages hpages' hflat => ?_, fun v v' page e h => push_error h,
    fun closed candidate start v events past hrequires hpushed => ?_⟩
  · rcases exec_pushAll hpages v with ⟨next, hnext, hexec⟩ | ⟨e, he, hexec⟩
    · rcases exec_pushAll hpages' v with ⟨next', hnext', hexec'⟩ | ⟨e', he', -⟩
      · rw [← hflat, hnext] at hnext'
        cases hnext'
        rw [hexec, hexec']
        exact ⟨rfl, fun _ => rfl⟩
      · rw [← hflat, hnext] at he'
        cases he'
    · rcases exec_pushAll hpages' v with ⟨next', hnext', -⟩ | ⟨e', he', hexec'⟩
      · rw [← hflat, he] at hnext'
        cases hnext'
      · rw [← hflat, he] at he'
        cases he'
        rw [hexec, hexec']
        exact ⟨rfl, fun h => nomatch h⟩
  · obtain ⟨hfresh, hcandidate, hclosing⟩ := historyRequirement_eq_verify hrequires
    rw [(hpushed.reached hfresh).finish_iff hfresh, hcandidate, hclosing]

/-! ### The sealed event of a room -/

def sampleClosed : ClosedPolicy := (sampleToken (headOf sampleEvent)).closed

def sampleVerifier : SealedHistoryVerifier sampleCrypto where
  room := sampleRoom
  policy := sampleRoot
  closingPolicy := samplePolicyId
  sealHead := ⟨sampleKey, 1, sampleEventId⟩
  candidate := sampleEvent
  head := .empty
  encountered := false
  terminalPolicy := none

def sampleProved : SealedHistoryVerifier sampleCrypto :=
  { sampleVerifier with head := headOf sampleEvent, encountered := true, terminalPolicy := some sampleRoot }

theorem sample_paged_ancestry : (exec (SealedHistoryVerifier.pushAll [[sampleEvent]]) sampleVerifier).1 = .ok () ∧
    sampleVerifier.SealedChain [sampleEvent] := by
  have hrequires : sampleClosed.historyRequirement sampleEvent = .ok (.verify sampleVerifier) := by decide +kernel
  have hpush : exec (SealedHistoryVerifier.push [sampleEvent]) sampleVerifier = (.ok (), sampleProved) := by decide +kernel
  have hfinish : sampleProved.finish = .ok ⟨sampleEvent, samplePolicyId⟩ := by decide +kernel
  refine ⟨by decide +kernel, ?_⟩
  exact ((paged_ancestry.2.2 sampleClosed sampleEvent sampleVerifier sampleProved ([] ++ [sampleEvent]) _ hrequires
    (.accept .start hpush)).1 hfinish).1

end Valhalla.DirectRoom
