import Valhalla.DirectRoom.Fence

/-!
# Sealed history

A policy state with every state it went through before: the tokens committed to it were prepared from one of
them. Since every commit moves the revision, a token whose base is the present head was prepared from a state
with the present seals, so its proofs start where the sealed history ends.
-/

namespace Valhalla.DirectRoom
open Fallible FixedWidth Check

variable {crypto : Crypto}

/-- The commit sealed the head `new` for the author, proved by the pushed events. -/
structure Sealed (before : PolicyState crypto) (pushed : List (VerifiedEvent crypto)) (prepared : PreparedPolicy crypto)
    (after : PolicyState crypto) (author : Bytes32) (new : AuthorHead) : Prop where
  installed : after.sealedHead author = some new
  declared : ⟨author, new.sequence, new.event⟩ ∈ prepared.update.claims.sealedHeads
  advances : (before.prior author).sequence < new.sequence
  path : (eventLinking crypto).Path (before.prior author).position (ofAuthor author pushed) new.position
  room : ∀ event ∈ ofAuthor author pushed, event.claims.room = before.room
  terminal : ∃ events last, ofAuthor author pushed = events ++ [last] ∧ last.claims.policy = before.head.id

namespace PolicyNote

def Sound : PolicyNote crypto → Prop
  | commit before pushed prepared (.ok _) after =>
    after.head.revision.toNat = before.head.revision.toNat + 1 ∧
      ∀ author, after.sealedHead author = before.sealedHead author ∨ ∃ new, Sealed before pushed prepared after author new
  | commit before _ _ (.error _) after => after = before
  | _ => True

def isCommit : PolicyNote crypto → Bool
  | commit _ _ _ (.ok _) _ => true
  | _ => false

end PolicyNote

namespace PolicyState
variable {s s' : PolicyState crypto}

/-- What is left alone by everything but commits. -/
structure SameHistory (s s' : PolicyState crypto) : Prop where
  room : s'.room = s.room
  head : s'.head = s.head
  sealedHeads : s'.sealedHeads = s.sealedHeads

theorem SameHistory.refl (s : PolicyState crypto) : s.SameHistory s := ⟨rfl, rfl, rfl⟩

theorem Observes.sameHistory {update : VerifiedPolicy crypto} {result : Except Error Unit} (h : s.Observes update result s') :
    s.SameHistory s' := by
  cases h with
  | refused => exact .refl s
  | conflict => exact ⟨rfl, rfl, rfl⟩
  | overflow => exact ⟨rfl, rfl, rfl⟩
  | known => exact .refl s
  | remembered => exact ⟨rfl, rfl, rfl⟩

theorem SameHistory.prior (h : s.SameHistory s') (author : Bytes32) : s'.prior author = s.prior author := by
  rw [PolicyState.prior, PolicyState.prior, sealedHead, sealedHead, h.sealedHeads]

def KeepsSeals (s s' : PolicyState crypto) : Prop :=
  ∀ author old, s.sealedHead author = some old →
    ∃ new, s'.sealedHead author = some new ∧ (new = old ∨ old.sequence < new.sequence)

theorem KeepsSeals.trans {s'' : PolicyState crypto} (h : s.KeepsSeals s') (h' : s'.KeepsSeals s'') : s.KeepsSeals s'' := by
  intro author old hold
  obtain ⟨mid, hmid, hle⟩ := h author old hold
  obtain ⟨new, hnew, hle'⟩ := h' author mid hmid
  refine ⟨new, hnew, ?_⟩
  rcases hle with rfl | hlt
  · exact hle'
  · rcases hle' with rfl | hlt'
    · exact .inr hlt
    · exact .inr (UInt64.lt_trans hlt hlt')

theorem SameHistory.keepsSeals (h : s.SameHistory s') : s.KeepsSeals s' := by
  intro author old hold
  refine ⟨old, ?_, .inl rfl⟩
  rw [sealedHead, h.sealedHeads]
  exact hold

/-! ### Commits -/

section
variable {pushed : List (VerifiedEvent crypto)} {p : PreparedPolicy crypto}

theorem head_of_complete {proof : SealProof} (h : proof.complete = true) :
    proof.chain.head = ⟨proof.target.sequence, proof.target.event⟩ := by
  simp only [SealProof.complete, Bool.and_eq_true, beq_iff_eq] at h
  exact congrArg₂ AuthorHead.mk h.1 h.2

theorem sealedHead_committed_of_mem (hp : Prepares.Facts s pushed p) {proof : SealProof} (hmem : proof ∈ p.proofs) :
    (s.committed p).sealedHead proof.target.author = some proof.chain.head :=
  Maps.getElem?_insertAll_of_mem hp.nodup hmem

theorem sealedHead_committed_of_notMem {author : Bytes32}
    (h : author ∉ p.proofs.map fun proof => proof.target.author) : (s.committed p).sealedHead author = s.sealedHead author :=
  Maps.getElem?_insertAll_of_notMem h

theorem Commits.sealed (h : s.Commits p) (hp : Prepares.Facts s pushed p) {proof : SealProof} (hmem : proof ∈ p.proofs) :
    Sealed s pushed p (s.committed p) proof.target.author proof.chain.head := by
  have hproof := hp.proofs proof hmem
  have hhead := head_of_complete (List.all_eq_true.1 h.ready proof hmem)
  have hlt : (s.prior proof.target.author).sequence < proof.chain.head.sequence := hhead ▸ hproof.advances
  refine ⟨sealedHead_committed_of_mem hp hmem, ?_, hlt, hproof.proves.follows.path, ?_, ?_⟩
  · rw [hhead, ← hp.declared]
    exact List.mem_map_of_mem hmem
  · intro event he
    rw [hproof.proves.follows.room event he, hproof.room]
  · -- the last event is at the declared sequence, where its policy was checked
    have hpath := hproof.proves.follows.path
    rcases List.eq_nil_or_concat (ofAuthor proof.target.author pushed) with hnil | ⟨events, last, hlast⟩
    · exact absurd hnil (hpath.ne_nil (UInt64.lt_iff_toNat_lt.1 hlt))
    · rw [List.concat_eq_append] at hlast
      refine ⟨events, last, hlast, ?_⟩
      rw [hlast] at hpath
      obtain ⟨-, -, -, -, hend⟩ := Linking.path_snoc.1 hpath
      have hlasthead : headOf last = proof.chain.head := AuthorHead.position_injective hend
      have hseq : last.claims.sequence = proof.target.sequence := congrArg AuthorHead.sequence (hlasthead.trans hhead)
      rw [(hproof.proves.terminal last (by rw [hlast]; simp) hseq).2, hproof.policy]

theorem Commits.sound (h : s.Commits p) (hp : Prepares.Facts s pushed p) :
    (PolicyNote.commit s pushed p (.ok p.closed) (s.committed p)).Sound := by
  refine ⟨hp.next, fun author => ?_⟩
  by_cases hmem : author ∈ p.proofs.map fun proof => proof.target.author
  · obtain ⟨proof, hproof, rfl⟩ := List.mem_map.1 hmem
    exact .inr ⟨_, h.sealed hp hproof⟩
  · exact .inl (sealedHead_committed_of_notMem hmem)

theorem Commits.keepsSeals (h : s.Commits p) (hp : Prepares.Facts s pushed p) : s.KeepsSeals (s.committed p) := by
  intro author old hold
  rcases (h.sound hp).2 author with hsame | ⟨new, hnew⟩
  · exact ⟨old, by rw [hsame, hold], .inl rfl⟩
  · have hprior : s.prior author = old := by rw [PolicyState.prior, hold]; rfl
    exact ⟨new, hnew.installed, .inr (hprior ▸ hnew.advances)⟩

theorem SameHistory.facts {s₀ : PolicyState crypto} (h : s₀.SameHistory s) (hp : Prepares.Facts s₀ pushed p) :
    Prepares.Facts s pushed p := by
  refine ⟨hp.room.trans h.room.symm, hp.base.trans h.head.symm, by rw [h.head]; exact hp.next, hp.declared, fun proof hmem => ?_⟩
  have hproof := hp.proofs proof hmem
  refine ⟨?_, ?_, hproof.room.trans h.room.symm, by rw [h.head]; exact hproof.policy⟩
  · rw [h.prior]
    exact hproof.proves
  · rw [h.prior]
    exact hproof.advances

end

end PolicyState

/-! ### Runs -/

/-- A policy state with the states it went through, itself included. -/
structure Room (crypto : Crypto) where
  now : PolicyState crypto
  past : List (PolicyState crypto)

namespace Room

def start (genesis : PinnedGenesis crypto) : Room crypto := ⟨.new genesis, [.new genesis]⟩

/-- Tokens are prepared from any state so far. -/
inductive Step : Room crypto → List (PolicyNote crypto) → Room crypto → Prop
  | step {room : Room crypto} {notes : List (PolicyNote crypto)} {s : PolicyState crypto} :
      PolicyStep (· ∈ room.past) room.now notes s → Step room notes ⟨s, s :: room.past⟩

/-- The revision tells the states apart as far as their history goes. -/
structure Inv (room : Room crypto) : Prop where
  now : room.now ∈ room.past
  past : ∀ s ∈ room.past, s.head.revision.toNat < room.now.head.revision.toNat ∨ s.SameHistory room.now

theorem Inv.start (genesis : PinnedGenesis crypto) : (start genesis).Inv := by
  refine ⟨List.mem_singleton.2 rfl, fun s hs => .inr ?_⟩
  rw [List.mem_singleton.1 hs]
  exact .refl _

theorem Inv.same {room : Room crypto} {s : PolicyState crypto} (h : room.Inv) (hs : room.now.SameHistory s) :
    (Room.mk s (s :: room.past)).Inv := by
  refine ⟨List.mem_cons_self, fun s₀ hmem => ?_⟩
  show _ < s.head.revision.toNat ∨ s₀.SameHistory s
  rcases List.mem_cons.1 hmem with rfl | hmem
  · exact .inr (.refl _)
  · rcases h.past s₀ hmem with hlt | hsame
    · exact .inl (by rw [hs.head]; exact hlt)
    · exact .inr ⟨hs.room.trans hsame.room, hs.head.trans hsame.head, hs.sealedHeads.trans hsame.sealedHeads⟩

theorem Inv.facts {room : Room crypto} {origin : PolicyState crypto} {pushed : List (VerifiedEvent crypto)}
    {p : PreparedPolicy crypto} (h : room.Inv) (hmint : origin ∈ room.past) (hp : Prepares origin pushed p)
    (hc : room.now.Commits p) : Prepares.Facts room.now pushed p := by
  rcases h.past origin hmint with hlt | hsame
  · rw [← hp.facts.base, hc.base] at hlt
    exact absurd hlt (Nat.lt_irrefl _)
  · exact hsame.facts hp.facts

theorem Inv.commit {room : Room crypto} {pushed : List (VerifiedEvent crypto)} {p : PreparedPolicy crypto} (h : room.Inv)
    (hp : Prepares.Facts room.now pushed p) :
    (Room.mk (room.now.committed p) (room.now.committed p :: room.past)).Inv := by
  refine ⟨List.mem_cons_self, fun s hmem => ?_⟩
  show _ < p.update.claims.revision.toNat ∨ s.SameHistory (room.now.committed p)
  have hnext := hp.next
  rcases List.mem_cons.1 hmem with rfl | hmem
  · exact .inr (.refl _)
  · rcases h.past s hmem with hlt | hsame
    · exact .inl (by omega)
    · have hhead := hsame.head
      exact .inl (by rw [← hhead]; omega)

structure Advances (room : Room crypto) (notes : List (PolicyNote crypto)) (room' : Room crypto) : Prop where
  inv : room'.Inv
  sound : ∀ note ∈ notes, note.Sound
  revision : room'.now.head.revision.toNat = room.now.head.revision.toNat + notes.countP PolicyNote.isCommit
  seals : room.now.KeepsSeals room'.now

theorem Advances.same {room : Room crypto} {s : PolicyState crypto} {note : PolicyNote crypto} (h : room.Inv)
    (hs : room.now.SameHistory s) (hsound : note.Sound) (hc : note.isCommit = false) :
    room.Advances [note] ⟨s, s :: room.past⟩ where
  inv := h.same hs
  sound := by simpa using hsound
  revision := by
    show s.head.revision.toNat = _
    simp [hs.head, hc]
  seals := hs.keepsSeals

theorem Inv.step {room room' : Room crypto} {notes : List (PolicyNote crypto)} (h : room.Inv) (hs : Step room notes room') :
    room.Advances notes room' := by
  obtain ⟨hs⟩ := hs
  cases hs with
  | @observe _ update _ he =>
    have hobs := room.now.observes update
    rw [he] at hobs
    exact .same h hobs.sameHistory trivial rfl
  | observeRetained he =>
    obtain ⟨e, hexec⟩ := PolicyState.exec_observeRetainedAfterPersist (s := room.now)
    rw [hexec] at he
    cases he
    refine .same h ?_ trivial rfl
    split
    · exact ⟨rfl, rfl, rfl⟩
    · exact .refl _
  | commit hmint hp he =>
    rcases PolicyState.exec_commitAfterPersist (s := room.now) _ with ⟨hc, hexec⟩ | ⟨e, hexec⟩
    · rw [hexec] at he
      cases he
      have hfacts := h.facts hmint hp hc
      exact ⟨h.commit hfacts, by simpa using hc.sound hfacts, hfacts.next, hc.keepsSeals hfacts⟩
    · rw [hexec] at he
      cases he
      exact .same h (.refl _) rfl rfl

theorem Inv.run {room room' : Room crypto} {log : List (PolicyNote crypto)} (h : room.Inv) (hr : Steps Step room log room') :
    room.Advances log room' := by
  induction hr with
  | refl => exact ⟨h, by simp, by simp, (PolicyState.SameHistory.refl _).keepsSeals⟩
  | tail _ hs ih =>
    have hstep := ih.inv.step hs
    refine ⟨hstep.inv, fun note hn => ?_, ?_, ih.seals.trans hstep.seals⟩
    · exact (List.mem_append.1 hn).elim (ih.sound note) (hstep.sound note)
    · rw [hstep.revision, ih.revision, List.countP_append, Nat.add_assoc]

end Room

/-- From every state that a run reaches: the head moves by one for every commit, no sealed head is lost or moves
back, every change of one is proved by pushed events, and a token with another base or with incomplete proofs is
refused without a change. -/
theorem sealed_history {genesis : PinnedGenesis crypto} {log log' : List (PolicyNote crypto)} {room room' : Room crypto}
    (h : Steps Room.Step (Room.start genesis) log room) (h' : Steps Room.Step room log' room') :
    room'.now.head.revision.toNat = room.now.head.revision.toNat + log'.countP PolicyNote.isCommit ∧
      (∀ author old, room.now.sealedHead author = some old →
        ∃ new, room'.now.sealedHead author = some new ∧ (new = old ∨ old.sequence < new.sequence)) ∧
      (∀ note ∈ log', note.Sound) ∧
      ∀ prepared : PreparedPolicy crypto, prepared.base ≠ room'.now.head ∨ prepared.isReady = false →
        ∃ e, exec (PolicyState.commitAfterPersist prepared) room'.now = (.error e, room'.now) := by
  have hrun := ((Room.Inv.start genesis).run h).inv.run h'
  refine ⟨hrun.revision, hrun.seals, hrun.sound, fun prepared hbad => PolicyState.commit_of_not_commits fun hc => ?_⟩
  rcases hbad with hbase | hready
  · exact hbase hc.base
  · rw [hc.ready] at hready
    cases hready

def sampleToken (head : AuthorHead) : PreparedPolicy sampleCrypto :=
  ⟨sampleRoom, ⟨0, sampleRoot⟩, samplePolicy,
    ⟨sampleRoom, sampleRoot, samplePolicyId, [sampleKey], [⟨sampleKey, 1, sampleEventId⟩]⟩,
    [⟨⟨sampleRoom, sampleKey, head, none⟩, ⟨sampleKey, 1, sampleEventId⟩, sampleRoot⟩]⟩

theorem sample_prepares : Prepares sampleStart [sampleEvent] (sampleToken (headOf sampleEvent)) := by
  have hprepare : sampleStart.prepareUpdate samplePolicy.signed = .ok (sampleToken .empty) := by decide +kernel
  have hpush : exec (PreparedPolicy.pushSeal sampleKey [sampleEvent]) (sampleToken .empty) =
    (.ok (), sampleToken (headOf sampleEvent)) := by decide +kernel
  exact .push (.prepare hprepare) hpush

def sampleCommitted : PolicyState sampleCrypto := sampleStart.committed (sampleToken (headOf sampleEvent))

theorem sample_commits : exec (PolicyState.commitAfterPersist (sampleToken (headOf sampleEvent))) sampleStart =
    (.ok (sampleToken .empty).closed, sampleCommitted) := by
  decide +kernel

theorem sample_sealed_history : sampleCommitted.head.revision.toNat = 1 ∧
    (PolicyNote.commit sampleStart [sampleEvent] (sampleToken (headOf sampleEvent))
      (.ok (sampleToken .empty).closed) sampleCommitted).Sound := by
  obtain ⟨hrevision, -, hsound, -⟩ := sealed_history (.refl (Room.start sampleGenesis))
    (.single (.step (.commit (List.mem_singleton.2 rfl) sample_prepares sample_commits)))
  exact ⟨hrevision, hsound _ (by simp [sampleStart, Room.start])⟩

end Valhalla.DirectRoom
