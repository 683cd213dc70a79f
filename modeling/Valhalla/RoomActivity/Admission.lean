import Valhalla.RoomActivity.Chain
import Valhalla.Lib.Linked
import Valhalla.Lib.Trace
import Valhalla.Social.Union
import Valhalla.Rooms.Steps

/-!
# An author's chain moves by admitted extension only

What every candidate and every staged position stands for (`Issued`, `Staged`), whoever keeps it and for how long,
and from it the only ways in which the head of a chain changes.
-/

namespace Valhalla.RoomActivity
open Fallible FixedWidth Check
open Rooms (RoomGenesisId Room)

variable {crypto : Crypto}

def linking (crypto : Crypto) : Linking (VerifiedEvent crypto) EventId :=
  ⟨(·.claims.sequence.toNat), VerifiedEvent.id, (·.claims.previous)⟩

def floor : Option ChainPosition → Nat × EventId
  | none => (0, .zero)
  | some position => (position.sequence.toNat, position.id)

theorem floor_position (event : VerifiedEvent crypto) : floor (some (position event)) = (linking crypto).position event := rfl

/-! ### Checked successors -/

section
variable {event : VerifiedEvent crypto} {tail : Option ChainPosition}

/-- The event stands directly behind the position. -/
def Follows (tail : Option ChainPosition) (event : VerifiedEvent crypto) : Prop :=
  event.claims.sequence.toNat = (floor tail).1 + 1 ∧ event.claims.previous = (floor tail).2

theorem checkSuccessor_follows {tail : ChainPosition} (h : checkSuccessor tail event = .ok ()) : Follows (some tail) event := by
  unfold checkSuccessor at h
  split at h
  · cases h
  · split at h
    · cases h
    · simp only [bind_eq_ok, okOr_eq_ok, checkedAdd_eq_some, require_eq_ok, beq_iff_eq] at h
      obtain ⟨next, hnext, _, hsequence, hprevious⟩ := h
      refine ⟨?_, hprevious⟩
      rw [hsequence]
      exact hnext

theorem checkExtension_follows (h : checkExtension tail event = .ok ()) : Follows tail event := by
  cases tail with
  | some tail => exact checkSuccessor_follows h
  | none =>
    rw [checkExtension, require_eq_ok, Bool.and_eq_true, beq_iff_eq, beq_iff_eq] at h
    refine ⟨?_, h.2⟩
    rw [h.1]
    rfl

theorem VerifiedEvent.previous_first (event : VerifiedEvent crypto) (h : event.claims.sequence = 1) : event.claims.previous = .zero := by
  have hverified := event.verified
  simp only [verify, EventClaims.check, bind_eq_ok, require_eq_ok] at hverified
  obtain ⟨_, ⟨_, -, _, -, _, hsequence, -⟩, -⟩ := hverified
  simp only [h, Bool.not_eq_true', Bool.or_eq_false_iff] at hsequence
  simpa using hsequence.2

theorem prepareNext_eq_ok {chain : AuthorChain} {context : AdmissionContext crypto} {candidate : PendingAdmission crypto}
    (h : chain.prepareNext event context = .ok candidate) :
    Follows candidate.base candidate.event ∧ candidate.next = position candidate.event := by
  cases hhead : chain.head with
  | some head =>
    simp only [AuthorChain.prepareNext, hhead, bind_eq_ok] at h
    obtain ⟨_, -, _, -, _, -, _, hlink, h⟩ := h
    cases h
    exact ⟨checkSuccessor_follows hlink, rfl⟩
  | none =>
    simp only [AuthorChain.prepareNext, hhead, bind_eq_ok, require_eq_ok, beq_iff_eq] at h
    obtain ⟨_, -, _, -, _, -, _, hfirst, h⟩ := h
    cases h
    refine ⟨⟨?_, event.previous_first hfirst⟩, rfl⟩
    rw [hfirst]
    rfl

end

/-! ### Positions and candidates -/

inductive Note (crypto : Crypto)
  | prepared (events : List (VerifiedEvent crypto)) (context : AdmissionContext crypto)
  | admitted (event : VerifiedEvent crypto) (context : AdmissionContext crypto)

/-- The event was prepared in a segment whose context's registry once had its policy open. -/
def Historical (notes : List (Note crypto)) (event : VerifiedEvent crypto) : Prop :=
  ∃ events context, .prepared events context ∈ notes ∧ event ∈ events ∧ context.checkHistorical event.claims = .ok ()

structure Walk (notes : List (Note crypto)) (scope : RoomScope) (author : Bytes32) (first last : Option ChainPosition)
    (events : List (VerifiedEvent crypto)) : Prop where
  path : (linking crypto).Path (floor first) events (floor last)
  own : ∀ event ∈ events, event.claims.scope = scope ∧ event.claims.author = author
  historical : ∀ event ∈ events, Historical notes event

def ContinuityPosition.Staged (notes : List (Note crypto)) (staged : ContinuityPosition) : Prop :=
  ∃ events : List (VerifiedEvent crypto), Walk notes staged.scope staged.author staged.base staged.tail events

section
variable {notes more : List (Note crypto)} {scope : RoomScope} {author : Bytes32} {first middle last : Option ChainPosition}
  {events later : List (VerifiedEvent crypto)} {event : VerifiedEvent crypto} {staged : ContinuityPosition} {context : AdmissionContext crypto}

theorem Historical.append (h : Historical notes event) : Historical (notes ++ more) event :=
  h.imp fun _ => fun ⟨context, hmem, hrest⟩ => ⟨context, List.mem_append_left _ hmem, hrest⟩

theorem Walk.append (h : Walk notes scope author first last events) : Walk (notes ++ more) scope author first last events :=
  ⟨h.path, h.own, fun event he => (h.historical event he).append⟩

theorem Walk.trans (h : Walk notes scope author first middle events) (h' : Walk notes scope author middle last later) :
    Walk notes scope author first last (events ++ later) where
  path := Linking.path_append.2 ⟨_, h.path, h'.path⟩
  own event he := (List.mem_append.1 he).elim (h.own event) (h'.own event)
  historical event he := (List.mem_append.1 he).elim (h.historical event) (h'.historical event)

theorem ContinuityPosition.Staged.append (h : staged.Staged notes) : staged.Staged (notes ++ more) :=
  h.imp fun _ => Walk.append

theorem checkIdentity_eq_ok (h : staged.checkIdentity event = .ok ()) : event.claims.scope = staged.scope ∧ event.claims.author = staged.author := by
  simpa [ContinuityPosition.checkIdentity] using h

/-- What a scan of ancestors has checked. -/
structure Scanned (staged : ContinuityPosition) (context : AdmissionContext crypto) (events : List (VerifiedEvent crypto))
    (tail : Option ChainPosition) : Prop where
  path : (linking crypto).Path (floor staged.tail) events (floor tail)
  own : ∀ event ∈ events, event.claims.scope = staged.scope ∧ event.claims.author = staged.author
  historical : ∀ event ∈ events, context.checkHistorical event.claims = .ok ()

theorem Scanned.snoc {tail tail' : Option ChainPosition} (h : Scanned staged context events tail)
    (hancestor : staged.checkAncestor context tail event = .ok tail') : Scanned staged context (events ++ [event]) tail' := by
  simp only [ContinuityPosition.checkAncestor, bind_eq_ok] at hancestor
  obtain ⟨_, hidentity, _, hhistorical, _, hextension, htail⟩ := hancestor
  cases htail
  have hfollows := checkExtension_follows hextension
  refine ⟨h.path.snoc hfollows.1 hfollows.2, fun e he => ?_, fun e he => ?_⟩
  · rcases List.mem_append.1 he with he | he
    · exact h.own e he
    · rw [List.mem_singleton.1 he]
      exact checkIdentity_eq_ok hidentity
  · rcases List.mem_append.1 he with he | he
    · exact h.historical e he
    · rw [List.mem_singleton.1 he]
      exact hhistorical

theorem prepareSegment_eq_ok {segment : PendingHistorySegment crypto} (h : staged.prepareSegment events context = .ok segment) :
    segment.before = staged ∧ Scanned staged context events (some segment.next) := by
  simp only [ContinuityPosition.prepareSegment, bind_eq_ok, okOr_eq_ok] at h
  obtain ⟨_, -, tail, hscan, next, hnext, h⟩ := h
  cases h
  refine ⟨rfl, ?_⟩
  rw [← hnext]
  refine foldlM_invariant (I := Scanned staged context) (fun _ _ _ _ hdone hstep => hdone.snoc hstep) ⟨rfl, ?_, ?_⟩ hscan
  · exact fun _ he => (List.not_mem_nil he).elim
  · exact fun _ he => (List.not_mem_nil he).elim

end

/-! ### Commits -/

theorem examine_cases {ε σ α β : Type} {g : σ → Except ε α} {f : α → Fallible ε σ β} {s s' : σ} {r : Except ε β}
    (h : exec (examine g >>= f) s = (r, s')) :
    (∃ a, g s = .ok a ∧ exec (f a) s = (r, s')) ∨ ∃ e, g s = .error e ∧ r = .error e ∧ s' = s := by
  rw [exec_examine_bind] at h
  cases hg : g s with
  | ok a =>
    rw [hg] at h
    exact .inl ⟨a, rfl, h⟩
  | error e =>
    rw [hg] at h
    cases h
    exact .inr ⟨e, rfl, rfl, rfl⟩

section
variable {chain chain' : AuthorChain} {staged staged' : ContinuityPosition} {context : AdmissionContext crypto}

theorem commit_cases {candidate : PendingAdmission crypto} {result : Except Error (AdmittedEvent crypto)}
    (h : exec (AuthorChain.commitAfterPersist candidate context) chain = (result, chain')) :
    (result = .ok ⟨candidate.event, candidate.registryDigest⟩ ∧ chain' = { chain with head := some candidate.next } ∧
      chain.head = candidate.base ∧ chain.scope = candidate.event.claims.scope ∧ chain.author = candidate.event.claims.author ∧
      candidate.registryDigest = context.digest ∧ context.check candidate.event.claims = .ok ()) ∨
    ∃ e, result = .error e ∧ chain' = chain := by
  rcases examine_cases h with ⟨_, hbase, h⟩ | ⟨e, -, hr, hs⟩
  · rcases examine_cases h with ⟨_, hpolicy, h⟩ | ⟨e, -, hr, hs⟩
    · rcases examine_cases h with ⟨_, hcheck, h⟩ | ⟨e, -, hr, hs⟩
      · cases h
        simp only [require_eq_ok, Bool.and_eq_true, beq_iff_eq] at hbase hpolicy
        exact .inl ⟨rfl, rfl, hbase.1.1, hbase.1.2, hbase.2, hpolicy.1, hcheck⟩
      · exact .inr ⟨e, hr, hs⟩
    · exact .inr ⟨e, hr, hs⟩
  · exact .inr ⟨e, hr, hs⟩

theorem commitTerminal_cases {candidate : PendingContinuityAdmission crypto} {result : Except Error (AdmittedEvent crypto)}
    (h : exec (AuthorChain.commitContinuityTerminalAfterPersist candidate staged context) chain = (result, chain')) :
    (result = .ok ⟨candidate.event, candidate.registry⟩ ∧ chain' = { chain with head := some (position candidate.event) } ∧
      staged = candidate.before ∧ chain.scope = candidate.before.scope ∧ chain.author = candidate.before.author ∧
      chain.head = candidate.before.base ∧ context.digest = candidate.registry ∧ context.check candidate.event.claims = .ok ()) ∨
    ∃ e, result = .error e ∧ chain' = chain := by
  rcases examine_cases h with ⟨_, hbase, h⟩ | ⟨e, -, hr, hs⟩
  · rcases examine_cases h with ⟨_, hpolicy, h⟩ | ⟨e, -, hr, hs⟩
    · rcases examine_cases h with ⟨_, hcheck, h⟩ | ⟨e, -, hr, hs⟩
      · cases h
        simp only [require_eq_ok, Bool.and_eq_true, beq_iff_eq] at hbase hpolicy
        exact .inl ⟨rfl, rfl, hbase.1.1.1, hbase.1.1.2, hbase.1.2, hbase.2, hpolicy.1, hcheck⟩
      · exact .inr ⟨e, hr, hs⟩
    · exact .inr ⟨e, hr, hs⟩
  · exact .inr ⟨e, hr, hs⟩

theorem commitSegment_cases {segment : PendingHistorySegment crypto} {result : Except Error (HistoricalSegment crypto)}
    (h : exec (ContinuityPosition.commitSegmentAfterPersist segment context) staged = (result, staged')) :
    (result = .ok ⟨segment.events, segment.registry⟩ ∧ staged' = segment.nextPosition ∧ staged = segment.before ∧
      context.digest = segment.registry) ∨
    ∃ e, result = .error e ∧ staged' = staged := by
  rcases examine_cases h with ⟨_, hbase, h⟩ | ⟨e, -, hr, hs⟩
  · rcases examine_cases h with ⟨_, hpolicy, h⟩ | ⟨e, -, hr, hs⟩
    · cases h
      simp only [require_eq_ok, Bool.and_eq_true, beq_iff_eq] at hbase hpolicy
      subst hbase
      exact .inl ⟨rfl, rfl, rfl, hpolicy.1⟩
    · exact .inr ⟨e, hr, hs⟩
  · exact .inr ⟨e, hr, hs⟩

end

/-! ### Runs -/

/-- A chain, and everything that its callers hold: candidates are kept, positions are copied. -/
structure World (crypto : Crypto) where
  chain : AuthorChain
  positions : List ContinuityPosition := []
  admissions : List (PendingAdmission crypto) := []
  segments : List (PendingHistorySegment crypto) := []
  terminals : List (PendingContinuityAdmission crypto) := []

def notesOf (context : AdmissionContext crypto) : Except Error (AdmittedEvent crypto) → List (Note crypto)
  | .ok receipt => [.admitted receipt.event context]
  | .error _ => []

/-- One operation. Candidates and positions may come from any chain value, such as an older one of this chain. -/
inductive Step : World crypto → List (Note crypto) → World crypto → Prop
  | start {w : World crypto} (chain : AuthorChain) : Step w [] { w with positions := w.positions ++ [.start chain] }
  | prepareNext {w : World crypto} {chain : AuthorChain} {event : VerifiedEvent crypto} {context : AdmissionContext crypto}
    {candidate : PendingAdmission crypto} :
    chain.prepareNext event context = .ok candidate → Step w [] { w with admissions := w.admissions ++ [candidate] }
  | commit {w : World crypto} {candidate : PendingAdmission crypto} {context : AdmissionContext crypto}
    {result : Except Error (AdmittedEvent crypto)} {chain : AuthorChain} :
    candidate ∈ w.admissions → exec (AuthorChain.commitAfterPersist candidate context) w.chain = (result, chain) →
    Step w (notesOf context result) { w with chain }
  | prepareSegment {w : World crypto} {staged : ContinuityPosition} {events : List (VerifiedEvent crypto)}
    {context : AdmissionContext crypto} {segment : PendingHistorySegment crypto} :
    staged ∈ w.positions → staged.prepareSegment events context = .ok segment →
    Step w [.prepared events context] { w with segments := w.segments ++ [segment] }
  | commitSegment {w : World crypto} {staged staged' : ContinuityPosition} {segment : PendingHistorySegment crypto}
    {context : AdmissionContext crypto} {result : Except Error (HistoricalSegment crypto)} :
    staged ∈ w.positions → segment ∈ w.segments →
    exec (ContinuityPosition.commitSegmentAfterPersist segment context) staged = (result, staged') →
    Step w [] { w with positions := w.positions ++ [staged'] }
  | project {w : World crypto} {segment : PendingHistorySegment crypto} :
    segment ∈ w.segments → Step w [] { w with positions := w.positions ++ [segment.nextPosition] }
  | prepareTerminal {w : World crypto} {chain : AuthorChain} {staged : ContinuityPosition} {event : VerifiedEvent crypto}
    {context : AdmissionContext crypto} {candidate : PendingContinuityAdmission crypto} :
    staged ∈ w.positions → chain.prepareContinuityTerminal staged event context = .ok candidate →
    Step w [] { w with terminals := w.terminals ++ [candidate] }
  | commitTerminal {w : World crypto} {candidate : PendingContinuityAdmission crypto} {staged : ContinuityPosition}
    {context : AdmissionContext crypto} {result : Except Error (AdmittedEvent crypto)} {chain : AuthorChain} :
    candidate ∈ w.terminals →
    exec (AuthorChain.commitContinuityTerminalAfterPersist candidate staged context) w.chain = (result, chain) →
    Step w (notesOf context result) { w with chain }

/-- What everything that the callers hold stands for. -/
structure World.Sound (scope : RoomScope) (author : Bytes32) (notes : List (Note crypto)) (w : World crypto) : Prop where
  scope : w.chain.scope = scope
  author : w.chain.author = author
  positions : ∀ staged ∈ w.positions, staged.Staged notes
  admissions : ∀ candidate ∈ w.admissions, Follows candidate.base candidate.event ∧ candidate.next = position candidate.event
  segments : ∀ segment ∈ w.segments, segment.nextPosition.Staged notes
  terminals : ∀ candidate ∈ w.terminals, candidate.before.Staged notes ∧ Follows candidate.before.tail candidate.event ∧
    candidate.event.claims.scope = candidate.before.scope ∧ candidate.event.claims.author = candidate.before.author

/-- How the head of a chain changes: behind historical ancestors, the last event passes the context of the commit. -/
def Advances (notes : List (Note crypto)) (scope : RoomScope) (author : Bytes32) (before after : Option ChainPosition)
    (event : VerifiedEvent crypto) (context : AdmissionContext crypto) : Prop :=
  after = some (position event) ∧ context.check event.claims = .ok () ∧ event.claims.scope = scope ∧ event.claims.author = author ∧
    ∃ (tail : Option ChainPosition) (skipped : List (VerifiedEvent crypto)),
      Walk notes scope author before tail skipped ∧ Follows tail event

theorem ContinuityPosition.Staged.segment {notes : List (Note crypto)} {staged : ContinuityPosition} {context : AdmissionContext crypto}
    {events : List (VerifiedEvent crypto)} {segment : PendingHistorySegment crypto} (hstaged : staged.Staged notes)
    (h : staged.prepareSegment events context = .ok segment) : segment.nextPosition.Staged (notes ++ [.prepared events context]) := by
  obtain ⟨hbefore, hscan⟩ := prepareSegment_eq_ok h
  obtain ⟨done, hwalk⟩ := hstaged
  have hmem : Note.prepared events context ∈ notes ++ [.prepared events context] := List.mem_append_right _ (List.mem_singleton.2 rfl)
  unfold PendingHistorySegment.nextPosition
  rw [hbefore]
  exact ⟨done ++ events, hwalk.append.trans ⟨hscan.path, hscan.own, fun event he => ⟨events, context, hmem, he, hscan.historical event he⟩⟩⟩

theorem forall_mem_append_singleton {α : Type} {l : List α} {a : α} {p q : α → Prop} (h : ∀ b ∈ l, p b) (hpq : ∀ b, p b → q b)
    (ha : q a) : ∀ b ∈ l ++ [a], q b := by
  intro b hb
  rcases List.mem_append.1 hb with hb | hb
  · exact hpq b (h b hb)
  · rw [List.mem_singleton.1 hb]
    exact ha

theorem World.Sound.step {scope : RoomScope} {author : Bytes32} {notes more : List (Note crypto)} {w w' : World crypto}
    (hw : w.Sound scope author notes) (h : Step w more w') : w'.Sound scope author (notes ++ more) ∧
      (w'.chain = w.chain ∨ ∃ event context, more = [.admitted event context] ∧
        Advances notes scope author w.chain.head w'.chain.head event context) := by
  have hpositions : ∀ staged ∈ w.positions, staged.Staged (notes ++ more) := fun staged hs => (hw.positions staged hs).append
  have hsegments : ∀ segment ∈ w.segments, segment.nextPosition.Staged (notes ++ more) := fun segment hs => (hw.segments segment hs).append
  have hterminals : ∀ candidate ∈ w.terminals, candidate.before.Staged (notes ++ more) ∧ Follows candidate.before.tail candidate.event ∧
      candidate.event.claims.scope = candidate.before.scope ∧ candidate.event.claims.author = candidate.before.author :=
    fun candidate hc => (hw.terminals candidate hc).imp_left ContinuityPosition.Staged.append
  have hsame : w.Sound scope author (notes ++ more) := ⟨hw.scope, hw.author, hpositions, hw.admissions, hsegments, hterminals⟩
  cases h with
  | start chain =>
    refine ⟨{ hsame with positions := forall_mem_append_singleton hpositions (fun _ hs => hs) ?_ }, .inl rfl⟩
    exact ⟨[], rfl, fun _ he => (List.not_mem_nil he).elim, fun _ he => (List.not_mem_nil he).elim⟩
  | prepareNext h =>
    exact ⟨{ hsame with admissions := forall_mem_append_singleton hw.admissions (fun _ hc => hc) (prepareNext_eq_ok h) }, .inl rfl⟩
  | commit hmem h =>
    rename_i candidate context result chain
    obtain ⟨hfollows, hnext⟩ := hw.admissions candidate hmem
    rcases commit_cases h with ⟨rfl, rfl, hbase, hscope, hauthor, -, hcheck⟩ | ⟨e, rfl, rfl⟩
    · refine ⟨{ hsame with }, .inr ⟨_, context, rfl, congrArg some hnext, hcheck, hscope.symm.trans hw.scope,
        hauthor.symm.trans hw.author, w.chain.head, [], ⟨rfl, ?_, ?_⟩, hbase ▸ hfollows⟩⟩
      · exact fun _ he => (List.not_mem_nil he).elim
      · exact fun _ he => (List.not_mem_nil he).elim
    · exact ⟨hsame, .inl rfl⟩
  | prepareSegment hmem h =>
    exact ⟨{ hsame with segments := forall_mem_append_singleton hsegments (fun _ hs => hs) ((hw.positions _ hmem).segment h) }, .inl rfl⟩
  | commitSegment hstaged hmem h =>
    rename_i staged staged' segment context result
    refine ⟨{ hsame with positions := forall_mem_append_singleton hpositions (fun _ hs => hs) ?_ }, .inl rfl⟩
    rcases commitSegment_cases h with ⟨-, rfl, -, -⟩ | ⟨e, -, rfl⟩
    · exact hsegments segment hmem
    · exact hpositions _ hstaged
  | project hmem =>
    exact ⟨{ hsame with positions := forall_mem_append_singleton hpositions (fun _ hs => hs) (hsegments _ hmem) }, .inl rfl⟩
  | prepareTerminal hmem h =>
    simp only [AuthorChain.prepareContinuityTerminal, bind_eq_ok] at h
    obtain ⟨_, -, _, hidentity, _, -, _, hextension, h⟩ := h
    cases h
    have hnew := And.intro (hpositions _ hmem) (And.intro (checkExtension_follows hextension) (checkIdentity_eq_ok hidentity))
    exact ⟨{ hsame with terminals := forall_mem_append_singleton hterminals (fun _ hc => hc) hnew }, .inl rfl⟩
  | commitTerminal hmem h =>
    rename_i candidate staged context result chain
    obtain ⟨⟨skipped, hwalk⟩, hfollows, hscope', hauthor'⟩ := hw.terminals candidate hmem
    rcases commitTerminal_cases h with ⟨rfl, rfl, -, hscope, hauthor, hbase, -, hcheck⟩ | ⟨e, rfl, rfl⟩
    · have hs : candidate.before.scope = scope := hscope.symm.trans hw.scope
      have ha : candidate.before.author = author := hauthor.symm.trans hw.author
      rw [hs, ha, ← hbase] at hwalk
      exact ⟨{ hsame with }, .inr ⟨_, context, rfl, rfl, hcheck, hscope'.trans hs, hauthor'.trans ha, _, skipped, hwalk, hfollows⟩⟩
    · exact ⟨hsame, .inl rfl⟩

/-! ### Refusals -/

section
variable {chain : AuthorChain} {staged : ContinuityPosition} {context : AdmissionContext crypto}

theorem commit_refused {candidate : PendingAdmission crypto} (h : candidate.base ≠ chain.head ∨ candidate.registryDigest ≠ context.digest) :
    ∃ e, exec (AuthorChain.commitAfterPersist candidate context) chain = (.error e, chain) := by
  rcases hexec : exec (AuthorChain.commitAfterPersist candidate context) chain with ⟨result, chain'⟩
  rcases commit_cases hexec with ⟨-, -, hbase, -, -, hdigest, -⟩ | ⟨e, rfl, rfl⟩
  · exact (h.elim (fun hne => hne hbase.symm) fun hne => hne hdigest).elim
  · exact ⟨e, rfl⟩

theorem commitTerminal_refused {candidate : PendingContinuityAdmission crypto}
    (h : candidate.before ≠ staged ∨ candidate.before.base ≠ chain.head ∨ candidate.registry ≠ context.digest) :
    ∃ e, exec (AuthorChain.commitContinuityTerminalAfterPersist candidate staged context) chain = (.error e, chain) := by
  rcases hexec : exec (AuthorChain.commitContinuityTerminalAfterPersist candidate staged context) chain with ⟨result, chain'⟩
  rcases commitTerminal_cases hexec with ⟨-, -, hstaged, -, -, hbase, hdigest, -⟩ | ⟨e, rfl, rfl⟩
  · rcases h with hne | hne | hne
    exacts [(hne hstaged.symm).elim, (hne hbase.symm).elim, (hne hdigest.symm).elim]
  · exact ⟨e, rfl⟩

theorem commitSegment_refused {segment : PendingHistorySegment crypto} (h : segment.before ≠ staged ∨ segment.registry ≠ context.digest) :
    ∃ e, exec (ContinuityPosition.commitSegmentAfterPersist segment context) staged = (.error e, staged) := by
  rcases hexec : exec (ContinuityPosition.commitSegmentAfterPersist segment context) staged with ⟨result, staged'⟩
  rcases commitSegment_cases hexec with ⟨-, -, hstaged, hdigest⟩ | ⟨e, rfl, rfl⟩
  · exact (h.elim (fun hne => hne hstaged.symm) fun hne => hne hdigest.symm).elim
  · exact ⟨e, rfl⟩

end

/-! ### The chain of a run -/

section
variable {scope : RoomScope} {author : Bytes32} {notes more : List (Note crypto)} {w w' : World crypto} {start : AuthorChain}

theorem Advances.path {before after : Option ChainPosition} {event : VerifiedEvent crypto} {context : AdmissionContext crypto}
    (h : Advances notes scope author before after event context) :
    ∃ events : List (VerifiedEvent crypto), (linking crypto).Path (floor before) (events ++ [event]) (floor after) ∧
      ∀ e ∈ events ++ [event], e.claims.scope = scope ∧ e.claims.author = author := by
  obtain ⟨rfl, -, hscope, hauthor, tail, skipped, hwalk, hfollows⟩ := h
  exact ⟨skipped, hwalk.path.snoc hfollows.1 hfollows.2, forall_mem_append_singleton hwalk.own (fun _ he => he) ⟨hscope, hauthor⟩⟩

theorem sound_start (hnew : AuthorChain.new crypto scope author = .ok start) : (⟨start, [], [], [], []⟩ : World crypto).Sound scope author [] := by
  simp only [AuthorChain.new, bind_eq_ok] at hnew
  obtain ⟨_, -, _, -, hnew⟩ := hnew
  cases hnew
  exact ⟨rfl, rfl, fun _ h => (List.not_mem_nil h).elim, fun _ h => (List.not_mem_nil h).elim, fun _ h => (List.not_mem_nil h).elim,
    fun _ h => (List.not_mem_nil h).elim⟩

theorem World.Sound.run (hnew : AuthorChain.new crypto scope author = .ok start)
    (hrun : Steps Step (⟨start, [], [], [], []⟩ : World crypto) notes w) : w.Sound scope author notes ∧
      ∃ events : List (VerifiedEvent crypto), (linking crypto).Path (0, .zero) events (floor w.chain.head) ∧
        ∀ e ∈ events, e.claims.scope = scope ∧ e.claims.author = author := by
  have hempty : start.head = none := by
    simp only [AuthorChain.new, bind_eq_ok] at hnew
    obtain ⟨_, -, _, -, hnew⟩ := hnew
    cases hnew
    rfl
  refine hrun.recorded (I := fun notes w => w.Sound scope author notes ∧ ∃ events : List (VerifiedEvent crypto),
    (linking crypto).Path (0, .zero) events (floor w.chain.head) ∧ ∀ e ∈ events, e.claims.scope = scope ∧ e.claims.author = author) ?_ ?_
  · refine ⟨sound_start hnew, [], ?_, fun _ h => (List.not_mem_nil h).elim⟩
    rw [hempty]
    rfl
  · rintro notes w more w' ⟨hw, events, hpath, hown⟩ hstep
    obtain ⟨hw', hchain⟩ := hw.step hstep
    refine ⟨hw', ?_⟩
    rcases hchain with hsame | ⟨event, context, -, hadvances⟩
    · rw [hsame]
      exact ⟨events, hpath, hown⟩
    · obtain ⟨skipped, hskipped, hskippedOwn⟩ := hadvances.path
      exact ⟨events ++ (skipped ++ [event]), Linking.path_append.2 ⟨_, hpath, hskipped⟩, fun e he =>
        (List.mem_append.1 he).elim (hown e) (hskippedOwn e)⟩

/-- The head moves to admitted events only, each reached from the old head by a linked run of historical ancestors; stale
and mixed candidates are refused without a change. -/
theorem chain_moves_by_admitted_extension (hnew : AuthorChain.new crypto scope author = .ok start)
    (hrun : Steps Step (⟨start, [], [], [], []⟩ : World crypto) notes w) (hstep : Step w more w') :
    (w'.chain.head ≠ w.chain.head → ∃ event context, more = [.admitted event context] ∧
      Advances notes scope author w.chain.head w'.chain.head event context ∧ (floor w.chain.head).1 < (floor w'.chain.head).1) ∧
    (∃ events : List (VerifiedEvent crypto), (linking crypto).Path (0, .zero) events (floor w'.chain.head) ∧
      ∀ e ∈ events, e.claims.scope = scope ∧ e.claims.author = author) ∧
    (∀ (candidate : PendingAdmission crypto) (context : AdmissionContext crypto),
      candidate.base ≠ w.chain.head ∨ candidate.registryDigest ≠ context.digest →
      ∃ e, exec (AuthorChain.commitAfterPersist candidate context) w.chain = (.error e, w.chain)) ∧
    (∀ (candidate : PendingContinuityAdmission crypto) (staged : ContinuityPosition) (context : AdmissionContext crypto),
      candidate.before ≠ staged ∨ candidate.before.base ≠ w.chain.head ∨ candidate.registry ≠ context.digest →
      ∃ e, exec (AuthorChain.commitContinuityTerminalAfterPersist candidate staged context) w.chain = (.error e, w.chain)) ∧
    ∀ (segment : PendingHistorySegment crypto) (staged : ContinuityPosition) (context : AdmissionContext crypto),
      segment.before ≠ staged ∨ segment.registry ≠ context.digest →
      ∃ e, exec (ContinuityPosition.commitSegmentAfterPersist segment context) staged = (.error e, staged) := by
  obtain ⟨hw, -⟩ := World.Sound.run hnew hrun
  refine ⟨fun hmoved => ?_, (World.Sound.run hnew (hrun.tail hstep)).2, fun _ _ h => commit_refused h,
    fun _ _ _ h => commitTerminal_refused h, fun _ _ _ h => commitSegment_refused h⟩
  rcases (hw.step hstep).2 with hsame | ⟨event, context, hmore, hadvances⟩
  · exact absurd (congrArg AuthorChain.head hsame) hmoved
  · refine ⟨event, context, hmore, hadvances, ?_⟩
    obtain ⟨skipped, hpath, -⟩ := hadvances.path
    rw [hpath.length, List.length_append, List.length_singleton]
    omega

end

/-! ### A room with an open policy, and the first event of an author -/

def sampleGenesis : Bytes32 := beVector 32 0xad33fffc5445883c7d6c37111f288ab724c070d32860a22110ea9be3eaecffc1
def samplePermit : Bytes32 := beVector 32 0x5fc9aaa0c7d216d3c5bae6b9391780ec76c1e9b465b9b0cabc62c9480ad44335
def sampleCreated : Bytes32 := beVector 32 0x156a21d99beda24367da5b86c5575d6675d7b5f7774f9ff4b537c8e695ead17b
def samplePolicy : Bytes32 := beVector 32 0x28ba02ece7c0ee6a54027053d10cf2fb0e4ad1eb66511b3614fe1f782b4d0a6c
def sampleEventId : Bytes32 := beVector 32 0x5f25ab35c96610dd3090842d2c8da9a220171f92369e4421e055717040b003d0
def sampleDigest : Bytes32 := beVector 32 0xf50d362f250b83df35c6ae0d2ddd221b6bce1a565acca30c2dc1d7513b3cd5a7

def sampleOwnerSignature : Signature := beVector 64
  0xe4657f856ced5464396908481708817546e86b8612b1fa04b0b7d28f7cd677268489f94e4c2c8af3dec4fca30e0be1c68502607c2ec5c6481d16393fccdb0204

def sampleAgentSignature : Signature := beVector 64
  0x40e5604482d6745e59ba5d20be23da7e6b4f422e2ee5cb06c1c0e3d4054c7ab18b938d059af9a616ddd88df6cfbeb399927459ccf24b84b159a393c0624d4f01

def sampleUpdateSignature : Signature := beVector 64
  0x3f57c9998c36aa6d8eeca4670bc5d8c02b0e319a5a97a7fb9940ed802d265502200ed5acd921f3d40ae30f97565e0fa6855e7b9aad17982a31e8ccded340fb08

def sampleEventSignature : Signature := beVector 64
  0x8d8e97e823b04f394c2b14ba366deb8d35b3a68825b7577fe6942e5ac71ce05ff83c9a5aa2171fcd823483e10db003583802bf137c7d1005c82f64636c9b3f03

def sampleCrypto : Crypto where
  sha256 message :=
    if message.take Rooms.genesisDomain.length = Rooms.genesisDomain then sampleGenesis
    else if message.take Rooms.permitDomain.length = Rooms.permitDomain then samplePermit
    else if message.take Rooms.recordDomain.length = Rooms.recordDomain then
      if message[Rooms.recordDomain.length + 5]? = some Rooms.createTag then sampleCreated else samplePolicy
    else if message.take idDomain.length = idDomain then sampleEventId
    else sampleDigest
  decodesKey key := key = Social.sampleKey
  isWeak _ := false
  verifyStrict key message signature := key = Social.sampleKey &&
    ((message = Rooms.ownerSign ++ samplePermit.toList && signature = sampleOwnerSignature) ||
      (message = Rooms.agentSign ++ sampleGenesis.toList ++ samplePermit.toList && signature = sampleAgentSignature) ||
      (message = Rooms.updateSign ++ samplePolicy.toList && signature = sampleUpdateSignature) ||
      (message = signDomain ++ sampleEventId.toList && signature = sampleEventSignature))

def sampleNetwork : Bytes32 := Vector.replicate 32 9

def sampleIntent : Rooms.CreationIntent where
  directory := ⟨zeroBytes⟩
  realm := ⟨77⟩
  policy := ⟨zeroBytes⟩
  initialSettings := ⟨zeroBytes⟩
  owner := ⟨Social.sampleOwner.bytes⟩
  agent := ⟨Social.sampleOwner.bytes⟩
  ownerKey := Social.sampleKey
  agentKey := Social.sampleKey
  socialControl := Social.sampleOwner
  roomControl := ⟨zeroBytes⟩
  grant := ⟨zeroBytes⟩
  slug := ⟨[108, 111, 98, 98, 121], by decide +kernel⟩
  description := ⟨"Lobby", by decide +kernel⟩
  slot := 1
  charge := 1
  expiresAt := 9
  nonce := Vector.replicate 32 5

def sampleOpening : Rooms.RoomUpdate where
  directory := ⟨zeroBytes⟩
  realm := ⟨77⟩
  genesis := ⟨sampleGenesis⟩
  previous := ⟨sampleCreated⟩
  owner := ⟨Social.sampleOwner.bytes⟩
  socialControl := Social.sampleOwner
  controllerKey := Social.sampleKey
  expiresAt := 9
  nonce := Vector.replicate 32 6
  action := .setPublicActivityPolicy sampleNetwork true

def sampleRoom : Room sampleCrypto where
  genesis := ⟨sampleGenesis⟩
  intent := sampleIntent
  description := sampleIntent.description
  head := ⟨samplePolicy⟩
  createdAt := 7
  archived := false
  record := ⟨⟨.create sampleIntent, sampleOwnerSignature, some sampleAgentSignature, by decide +kernel, rfl⟩, by decide +kernel⟩
  revisions := [⟨⟨.update sampleOpening, sampleUpdateSignature, none, by decide +kernel, rfl⟩, by decide +kernel⟩]

def sampleContext : AdmissionContext sampleCrypto where
  network := sampleNetwork
  registry := { Rooms.sampleRegistry sampleCrypto with
    rooms := (∅ : Std.ExtTreeMap Rooms.Slug (Room sampleCrypto) compare).insert sampleIntent.slug sampleRoom
    byGenesis := (∅ : Std.ExtTreeMap RoomGenesisId Rooms.Slug compare).insert ⟨sampleGenesis⟩ sampleIntent.slug }
  nonzero := by decide

def sampleScope : RoomScope := ⟨sampleNetwork, ⟨77⟩, ⟨zeroBytes⟩, ⟨sampleGenesis⟩⟩

def sampleEvent : VerifiedEvent sampleCrypto where
  claims := ⟨sampleScope, ⟨samplePolicy⟩, Social.sampleKey, 1, .zero, 8, .text ⟨"hello", by decide +kernel⟩⟩
  signature := sampleEventSignature
  verified := by decide +kernel

def sampleChain : AuthorChain := ⟨sampleScope, Social.sampleKey, none⟩

def samplePosition : ChainPosition := ⟨1, ⟨sampleEventId⟩⟩

def sampleCandidate : PendingAdmission sampleCrypto := ⟨sampleEvent, none, samplePosition, sampleContext.digest⟩

theorem sample_chain_moves : Advances [] sampleScope Social.sampleKey none (some samplePosition) sampleEvent sampleContext := by
  have hnew : AuthorChain.new sampleCrypto sampleScope Social.sampleKey = .ok sampleChain := by decide +kernel
  have hcheck : sampleContext.check sampleEvent.claims = .ok () := by decide +kernel
  have hposition : position sampleEvent = samplePosition := by decide +kernel
  have hprepare : sampleChain.prepareNext sampleEvent sampleContext = .ok sampleCandidate := by
    simp only [AuthorChain.prepareNext, hcheck, hposition]
    rfl
  have hcommit : exec (AuthorChain.commitAfterPersist sampleCandidate sampleContext) sampleChain =
      (.ok ⟨sampleEvent, sampleContext.digest⟩, { sampleChain with head := some samplePosition }) := by
    have hbase : require Error.staleBase (sampleChain.head == sampleCandidate.base && sampleChain.scope == sampleCandidate.event.claims.scope &&
        sampleChain.author == sampleCandidate.event.claims.author) = .ok () := by
      rw [require_eq_ok]
      simp [sampleChain, sampleCandidate, sampleEvent]
    have hpolicy : require Error.stalePolicy (sampleCandidate.registryDigest == sampleContext.digest &&
        sampleCandidate.event.claims.scope.network == sampleContext.network) = .ok () := by
      rw [require_eq_ok]
      simp [sampleCandidate, sampleEvent, sampleScope, sampleContext]
    rw [AuthorChain.commitAfterPersist, exec_examine_bind, hbase]
    show exec (examine _ >>= _) sampleChain = _
    rw [exec_examine_bind, hpolicy]
    show exec (examine _ >>= _) sampleChain = _
    rw [exec_examine_bind, show sampleContext.check sampleCandidate.event.claims = .ok () from hcheck]
    rfl
  let w : World sampleCrypto := ⟨sampleChain, [], [], [], []⟩
  have hrun : Steps Step w [] { w with admissions := [sampleCandidate] } := .single (.prepareNext hprepare)
  have hstep := Step.commit (w := { w with admissions := [sampleCandidate] }) (List.mem_singleton.2 rfl) hcommit
  obtain ⟨hmoves, -⟩ := chain_moves_by_admitted_extension hnew hrun hstep
  obtain ⟨event, context, hnotes, hadvances, -⟩ := hmoves (fun hsame => by cases hsame)
  cases hnotes
  exact hadvances

end Valhalla.RoomActivity
