import Valhalla.Lib.Linked
import Valhalla.DirectRoom.State

/-!
# What the tokens of a policy update prove

`Prepares s pushed p` says that `p` was prepared from the policy state `s` and that the pages it accepted
since then hold the events `pushed`. `Prepares.facts` is what such a token guarantees, whatever was offered
to it in between: every seal it declares is proved up to the head of its chain by the pushed events of that
author.
-/

namespace Valhalla.DirectRoom
open Fallible FixedWidth Check

variable {crypto : Crypto}

def eventLinking (crypto : Crypto) : Linking (VerifiedEvent crypto) EventId where
  sequence event := event.claims.sequence.toNat
  id := Verified.id
  previous event := event.claims.previous

def AuthorHead.position (head : AuthorHead) : Nat × EventId := (head.sequence.toNat, head.event)

theorem position_headOf (event : VerifiedEvent crypto) : (eventLinking crypto).position event = (headOf event).position := rfl

theorem AuthorHead.position_injective {head head' : AuthorHead} (h : head.position = head'.position) : head = head' := by
  obtain ⟨sequence, event⟩ := head
  obtain ⟨sequence', event'⟩ := head'
  rw [position, position, Prod.mk.injEq] at h
  exact congrArg₂ AuthorHead.mk (UInt64.toNat_inj.1 h.1) h.2

structure AuthorChain.Next (chain : AuthorChain) (event : VerifiedEvent crypto) : Prop where
  room : event.claims.room = chain.room
  author : event.claims.author = chain.author
  sequence : event.claims.sequence.toNat = chain.head.sequence.toNat + 1
  previous : event.claims.previous = chain.head.event

theorem checkNext_eq_ok {chain : AuthorChain} {event : VerifiedEvent crypto} {u : Unit} :
    chain.checkNext event = .ok u ↔ chain.Next event := by
  simp only [AuthorChain.checkNext, bind_eq_ok, require_eq_ok, beq_iff_eq, Bool.not_eq_true', decide_eq_false_iff_not]
  constructor
  · rintro ⟨-, hroom, -, hauthor, -, -, h⟩
    split at h
    · cases h
    · obtain ⟨next, hnext, -, rfl, hprev⟩ := by simpa only [bind_eq_ok, require_eq_ok, okOr_eq_ok, beq_iff_eq] using h
      exact ⟨hroom, hauthor, checkedAdd_eq_some.1 hnext, hprev⟩
  · rintro ⟨hroom, hauthor, hseq, hprev⟩
    refine ⟨(), hroom, (), hauthor, (), ?_, ?_⟩
    · rw [UInt64.lt_iff_toNat_lt]
      omega
    · rw [if_neg fun he => by rw [he] at hseq; omega]
      simp only [bind_eq_ok, require_eq_ok, okOr_eq_ok, beq_iff_eq]
      exact ⟨_, checkedAdd_eq_some.2 hseq, (), rfl, hprev⟩

/-- The chain follows the events of its room and author from `prior` to its head. -/
structure AuthorChain.Follows (chain : AuthorChain) (prior : AuthorHead) (events : List (VerifiedEvent crypto)) : Prop where
  path : (eventLinking crypto).Path prior.position events chain.head.position
  room : ∀ event ∈ events, event.claims.room = chain.room
  author : ∀ event ∈ events, event.claims.author = chain.author

namespace AuthorChain.Follows
variable {chain : AuthorChain} {prior : AuthorHead} {events : List (VerifiedEvent crypto)} {event : VerifiedEvent crypto}

theorem refl (chain : AuthorChain) : chain.Follows chain.head ([] : List (VerifiedEvent crypto)) :=
  ⟨rfl, by simp, by simp⟩

theorem snoc (h : chain.Follows prior events) (hnext : chain.Next event) :
    ({ chain with head := headOf event } : AuthorChain).Follows prior (events ++ [event]) where
  path := h.path.snoc hnext.sequence hnext.previous
  room := by
    intro e he
    rcases List.mem_append.1 he with he | he
    · exact h.room e he
    · rw [List.mem_singleton.1 he]
      exact hnext.room
  author := by
    intro e he
    rcases List.mem_append.1 he with he | he
    · exact h.author e he
    · rw [List.mem_singleton.1 he]
      exact hnext.author

end AuthorChain.Follows

/-! ### Pages -/

/-- A seal proof that reached the head of its chain through `events`. -/
structure SealProof.Proves (proof : SealProof) (prior : AuthorHead) (events : List (VerifiedEvent crypto)) : Prop where
  author : proof.chain.author = proof.target.author
  follows : proof.chain.Follows prior events
  /-- An event at the declared sequence is the declared one and names the policy that is closed. -/
  terminal : ∀ event ∈ events, event.claims.sequence = proof.target.sequence →
    event.id = proof.target.event ∧ event.claims.policy = proof.policy

namespace SealProof
variable {proof : SealProof} {prior : AuthorHead} {events page : List (VerifiedEvent crypto)}

theorem pushEvent_eq_ok {next chain : AuthorChain} {event : VerifiedEvent crypto} (h : proof.pushEvent next event = .ok chain) :
    next.Next event ∧ chain = { next with head := headOf event } ∧
      (event.claims.sequence = proof.target.sequence → event.id = proof.target.event ∧ event.claims.policy = proof.policy) := by
  simp only [pushEvent, bind_eq_ok, checkNext_eq_ok] at h
  obtain ⟨-, -, _, hnext, _, hterm, h⟩ := h
  cases h
  refine ⟨hnext, rfl, fun hseq => ?_⟩
  rw [checkTerminal, if_pos hseq] at hterm
  simpa using hterm

theorem Proves.push {proof' : SealProof} (h : proof.Proves prior events) (hpush : proof.push page = .ok proof') :
    proof'.Proves prior (events ++ page) ∧ proof'.target = proof.target ∧ proof'.policy = proof.policy ∧
      proof'.chain.room = proof.chain.room := by
  simp only [SealProof.push, bind_eq_ok] at hpush
  obtain ⟨-, -, next, hfold, he⟩ := hpush
  cases he
  have hinv := foldlM_invariant (I := fun done next =>
    ({ proof with chain := next } : SealProof).Proves prior (events ++ done) ∧ next.room = proof.chain.room)
    (fun done event chain chain' hp hev => ?_) ⟨by simpa using h, rfl⟩ hfold
  · exact ⟨hinv.1, rfl, rfl, hinv.2⟩
  · obtain ⟨hnext, rfl, hterm⟩ := pushEvent_eq_ok hev
    obtain ⟨hp, hroom⟩ := hp
    rw [← List.append_assoc]
    refine ⟨⟨hp.author, hp.follows.snoc hnext, fun e he hseq => ?_⟩, hroom⟩
    rcases List.mem_append.1 he with he | he
    · exact hp.terminal e he hseq
    · obtain rfl := List.mem_singleton.1 he
      exact hterm hseq

theorem page_author {proof' : SealProof} (h : proof.Proves prior events) (hpush : proof.push page = .ok proof') :
    ∀ event ∈ page, event.claims.author = proof.target.author := by
  obtain ⟨h', htarget, -, -⟩ := h.push hpush
  intro event he
  rw [h'.follows.author event (by simp [he]), h'.author, htarget]

end SealProof

/-! ### Tokens -/

def PolicyState.prior (state : PolicyState crypto) (author : Bytes32) : AuthorHead := (state.sealedHead author).getD .empty

def ofAuthor (author : Bytes32) (events : List (VerifiedEvent crypto)) : List (VerifiedEvent crypto) :=
  events.filter fun event => event.claims.author == author

theorem ofAuthor_append {author : Bytes32} {events page : List (VerifiedEvent crypto)} :
    ofAuthor author (events ++ page) = ofAuthor author events ++ ofAuthor author page := List.filter_append ..

theorem ofAuthor_of_forall {author : Bytes32} {page : List (VerifiedEvent crypto)}
    (h : ∀ event ∈ page, event.claims.author = author) : ofAuthor author page = page := by
  simpa [ofAuthor, List.filter_eq_self] using h

theorem ofAuthor_of_ne {author author' : Bytes32} {page : List (VerifiedEvent crypto)}
    (h : ∀ event ∈ page, event.claims.author = author') (hne : author' ≠ author) : ofAuthor author page = [] := by
  rw [ofAuthor, List.filter_eq_nil_iff]
  intro event he
  rw [h event he]
  simpa using hne

/-- `p` was prepared from `s`, and the pages it accepted since then hold the events `pushed`. -/
inductive Prepares (s : PolicyState crypto) : List (VerifiedEvent crypto) → PreparedPolicy crypto → Prop
  | prepare {signed : SignedPolicy crypto} {p : PreparedPolicy crypto} : s.prepareUpdate signed = .ok p → Prepares s [] p
  | push {pushed page : List (VerifiedEvent crypto)} {author : Bytes32} {p p' : PreparedPolicy crypto} :
      Prepares s pushed p → exec (PreparedPolicy.pushSeal author page) p = (.ok (), p') → Prepares s (pushed ++ page) p'
  | refuse {pushed page : List (VerifiedEvent crypto)} {author : Bytes32} {p p' : PreparedPolicy crypto} {e : Error} :
      Prepares s pushed p → exec (PreparedPolicy.pushSeal author page) p = (.error e, p') → Prepares s pushed p'

/-- A seal proof prepared from `s` that was given the events `pushed`. -/
structure SealProof.Prepared (s : PolicyState crypto) (pushed : List (VerifiedEvent crypto)) (proof : SealProof) : Prop where
  proves : proof.Proves (s.prior proof.target.author) (ofAuthor proof.target.author pushed)
  advances : (s.prior proof.target.author).sequence < proof.target.sequence
  room : proof.chain.room = s.room
  policy : proof.policy = s.head.id

/-- What a token guarantees. -/
structure Prepares.Facts (s : PolicyState crypto) (pushed : List (VerifiedEvent crypto)) (p : PreparedPolicy crypto) : Prop where
  room : p.room = s.room
  base : p.base = s.head
  next : p.update.claims.revision.toNat = s.head.revision.toNat + 1
  declared : p.proofs.map SealProof.target = p.update.claims.sealedHeads
  proofs : ∀ proof ∈ p.proofs, proof.Prepared s pushed

theorem sealedHeads_check (update : VerifiedPolicy crypto) :
    (∀ sealHead ∈ update.claims.sealedHeads, sealHead.sequence ≠ 0) ∧
      (update.claims.sealedHeads.map SealHead.author).Nodup := by
  have h := update.claims_check
  simp only [policyKind, PolicyClaims.check, bind_eq_ok, require_eq_ok, forM_eq_ok] at h
  obtain ⟨-, -, -, -, _, -, -, -, _, hheads, hasc⟩ := h
  refine ⟨fun sealHead hmem => ?_, nodup_of_ascendingBy hasc⟩
  have hcheck := hheads sealHead hmem
  simp only [SealHead.check, bind_eq_ok, require_eq_ok, Bool.and_eq_true, bne_iff_ne, ne_eq] at hcheck
  obtain ⟨-, -, hseq, -⟩ := hcheck
  exact hseq

theorem prepareSeal_eq_ok {s : PolicyState crypto} {sealHead : SealHead} {proof : SealProof}
    (h : s.prepareSeal sealHead = .ok proof) : proof.target = sealHead ∧ proof.Prepared s [] := by
  simp only [PolicyState.prepareSeal] at h
  split at h
  · cases h
  · rename_i hfork
    split at h
    · cases h
    · rename_i hne
      cases h
      refine ⟨rfl, ⟨rfl, .refl _, by simp [ofAuthor]⟩, ?_, rfl, rfl⟩
      show (s.prior sealHead.author).sequence < sealHead.sequence
      simp only [not_or, UInt64.not_lt] at hfork
      exact UInt64.lt_of_le_of_ne hfork.1 (Ne.symm hne)

theorem prepareSeals_eq_ok {s : PolicyState crypto} {heads : List SealHead} {proofs : List SealProof}
    (h : heads.mapM s.prepareSeal = .ok proofs) :
    proofs.map SealProof.target = heads ∧ ∀ proof ∈ proofs, proof.Prepared s [] := by
  induction mapM_eq_ok.1 h with
  | nil => exact ⟨rfl, by simp⟩
  | cons hseal hrest ih =>
    obtain ⟨htarget, hprepared⟩ := prepareSeal_eq_ok hseal
    obtain ⟨htargets, hall⟩ := ih (mapM_eq_ok.2 hrest)
    exact ⟨by rw [List.map_cons, htarget, htargets], List.forall_mem_cons.2 ⟨hprepared, hall⟩⟩

theorem pushProofs_eq_ok {author : Bytes32} {page : List (VerifiedEvent crypto)} {proofs proofs' : List SealProof}
    (h : PreparedPolicy.pushProofs author page proofs = .ok proofs') :
    ∃ before proof proof' after, proofs = before ++ proof :: after ∧ proofs' = before ++ proof' :: after ∧
      proof.target.author = author ∧ proof.push page = .ok proof' := by
  induction proofs generalizing proofs' with
  | nil => cases h
  | cons proof proofs ih =>
    rw [PreparedPolicy.pushProofs] at h
    split at h
    · rename_i hauthor
      obtain ⟨proof', hpush, h⟩ := bind_eq_ok.1 h
      cases h
      exact ⟨[], proof, proof', proofs, rfl, rfl, hauthor, hpush⟩
    · obtain ⟨rest, hrest, h⟩ := bind_eq_ok.1 h
      cases h
      obtain ⟨before, p, p', after, rfl, rfl, hauthor, hpush⟩ := ih hrest
      exact ⟨proof :: before, p, p', after, rfl, rfl, hauthor, hpush⟩

theorem exec_pushSeal {author : Bytes32} {page : List (VerifiedEvent crypto)} {p : PreparedPolicy crypto} :
    exec (PreparedPolicy.pushSeal author page) p =
      match PreparedPolicy.pushProofs author page p.proofs with
      | .ok proofs => (.ok (), { p with proofs })
      | .error e => (.error e, p) := by
  rw [PreparedPolicy.pushSeal, exec_examine_bind]
  cases PreparedPolicy.pushProofs author page p.proofs <;> rfl

namespace Prepares
variable {s : PolicyState crypto} {pushed page : List (VerifiedEvent crypto)} {p p' : PreparedPolicy crypto}

theorem prepare_facts {signed : SignedPolicy crypto} (h : s.prepareUpdate signed = .ok p) : Facts s [] p := by
  simp only [PolicyState.prepareUpdate, bind_eq_ok] at h
  obtain ⟨-, -, update, -, -, -, -, -, -, -, h⟩ := h
  split at h
  · cases h
  · simp only [bind_eq_ok, require_eq_ok, okOr_eq_ok, beq_iff_eq, mapM_eq_ok] at h
    obtain ⟨next, hnext, -, rfl, -, -, -, -, -, -, proofs, hproofs, h⟩ := h
    cases h
    obtain ⟨htargets, hprepared⟩ := prepareSeals_eq_ok (mapM_eq_ok.2 hproofs)
    exact ⟨rfl, rfl, checkedAdd_eq_some.1 hnext, htargets, hprepared⟩

theorem Facts.nodup (h : Facts s pushed p) : (p.proofs.map fun proof => proof.target.author).Nodup := by
  have hnd := (sealedHeads_check p.update).2
  rwa [← h.declared, List.map_map] at hnd

theorem push_facts {author : Bytes32} (h : Facts s pushed p) (hpush : exec (PreparedPolicy.pushSeal author page) p = (.ok (), p')) :
    Facts s (pushed ++ page) p' := by
  have hnd := h.nodup
  rw [exec_pushSeal] at hpush
  split at hpush
  · rename_i proofs hproofs
    cases hpush
    obtain ⟨before, proof, proof', after, hsplit, rfl, rfl, hpage⟩ := pushProofs_eq_ok hproofs
    rw [hsplit] at hnd
    have hproof := h.proofs proof (by rw [hsplit]; simp)
    obtain ⟨hproves, htarget, hpolicy, hroom⟩ := hproof.proves.push hpage
    have hauthor := SealProof.page_author hproof.proves hpage
    refine ⟨h.room, h.base, h.next, ?_, ?_⟩
    · rw [← h.declared, hsplit]
      simp [htarget]
    · -- a proof of another author got nothing from this page
      have hother : ∀ other ∈ p.proofs, other.target.author ≠ proof.target.author → other.Prepared s (pushed ++ page) := by
        intro other hmem hne
        have ho := h.proofs other hmem
        refine ⟨?_, ho.advances, ho.room, ho.policy⟩
        rw [ofAuthor_append, ofAuthor_of_ne hauthor (Ne.symm hne), List.append_nil]
        exact ho.proves
      simp only [List.map_append, List.map_cons, List.nodup_append, List.nodup_cons, List.mem_map, List.mem_cons,
        forall_exists_index, and_imp, forall_apply_eq_imp_iff₂] at hnd
      intro other hmem
      rcases List.mem_append.1 hmem with hmem | hmem
      · exact hother other (by rw [hsplit]; simp [hmem]) (hnd.2.2 other hmem _ (.inl rfl))
      · rcases List.mem_cons.1 hmem with rfl | hmem
        · refine ⟨?_, ?_, ?_, ?_⟩
          · rw [htarget, ofAuthor_append, ofAuthor_of_forall hauthor]
            exact hproves
          · rw [htarget]
            exact hproof.advances
          · rw [hroom]
            exact hproof.room
          · rw [hpolicy]
            exact hproof.policy
        · exact hother other (by rw [hsplit]; simp [hmem]) fun he => hnd.2.1.1 ⟨other, hmem, he⟩
  · cases hpush

/-- What every token guarantees, whatever was offered to it. -/
theorem facts (h : Prepares s pushed p) : Facts s pushed p := by
  induction h with
  | prepare h => exact prepare_facts h
  | push _ hpush ih => exact push_facts ih hpush
  | refuse _ hpush ih =>
    rw [exec_pushSeal] at hpush
    split at hpush
    · cases hpush
    · cases hpush
      exact ih

end Prepares

end Valhalla.DirectRoom
