import Valhalla.Lib.Entries
import Valhalla.DirectRoom.Policy

/-!
# The owner fence

Whatever an owner was seen to sign stays remembered: an equivocation or an overflow shuts fresh admission for
good, and an update seen ahead of the head shuts it until exactly that update is committed.
-/

namespace Valhalla.DirectRoom
open Fallible FixedWidth Check

variable {crypto : Crypto}

namespace PolicyNote

def Fences : PolicyNote crypto → Prop
  | observed _ result => result = .error .fork ∨ result = .error .capacity
  | retained result => result = .error .fork
  | commit .. => False

def Remembers (note : PolicyNote crypto) (revision : UInt64) (id : PolicyId) : Prop :=
  match note with
  | observed update result => result = .ok () ∧ update.claims.revision = revision ∧ update.id = id
  | _ => False

def Installs (note : PolicyNote crypto) (revision : UInt64) (id : PolicyId) : Prop :=
  match note with
  | commit _ _ prepared result _ =>
    (∃ closed, result = .ok closed) ∧ prepared.update.claims.revision = revision ∧ prepared.update.id = id
  | _ => False

end PolicyNote

namespace PolicyState
variable {s : PolicyState crypto}

/-- Nothing new is admitted against this state. -/
structure Refuses (s : PolicyState crypto) : Prop where
  admission : ∃ e, s.freshAdmission = .error e
  authoring : ∀ chain : AuthorChain, ∃ e, chain.authoringHead s = .error e
  prepare : ∀ (chain : AuthorChain) (event : VerifiedEvent crypto), ∃ e, chain.prepareNext event s = .error e
  commit : ∀ (chain : AuthorChain) (prepared : PreparedEvent crypto),
    ∃ e, exec (AuthorChain.commitAfterPersist prepared s) chain = (.error e, chain)

theorem Refuses.of_admission (h : ∃ e, s.freshAdmission = .error e) : s.Refuses := by
  obtain ⟨e, h⟩ := h
  refine ⟨⟨e, h⟩, fun chain => ⟨e, ?_⟩, fun chain event => ⟨e, ?_⟩, fun chain prepared => ⟨e, ?_⟩⟩
  · rw [AuthorChain.authoringHead, bind_eq_error]
    exact .inl h
  · rw [AuthorChain.prepareNext, bind_eq_error]
    exact .inl h
  · rw [AuthorChain.commitAfterPersist, exec_examine_bind, h]

theorem Refuses.of_latch (h : s.forked = true ∨ s.observationOverflow = true) : s.Refuses := by
  refine .of_admission ?_
  by_cases hf : s.forked = true
  · exact ⟨.fork, by rw [freshAdmission, bind_eq_error, hf]; exact .inl rfl⟩
  · rw [Bool.not_eq_true] at hf
    have ho : s.observationOverflow = true := by simpa [hf] using h
    refine ⟨.capacity, ?_⟩
    rw [freshAdmission, hf, ho]
    rfl

theorem Refuses.of_pending {revision : UInt64} {id : PolicyId} (h : s.observed[revision]? = some id) : s.Refuses := by
  by_cases hlatch : s.forked = true ∨ s.observationOverflow = true
  · exact .of_latch hlatch
  · simp only [not_or, Bool.not_eq_true] at hlatch
    have hpending : s.observed.isEmpty = false := by
      rw [Bool.eq_false_iff]
      intro hempty
      rw [Std.ExtTreeMap.isEmpty_iff.1 hempty] at h
      cases h
    refine .of_admission ⟨.policyPending, ?_⟩
    rw [freshAdmission, hlatch.1, hlatch.2, hpending]
    rfl

def Ahead (s : PolicyState crypto) : Prop := ∀ revision id, s.observed[revision]? = some id → s.head.revision < revision

def Latched (s : PolicyState crypto) : Prop := s.forked = true ∨ s.observationOverflow = true

/-- What one noted operation does to the memory of the state. -/
structure Extends (s : PolicyState crypto) (note : PolicyNote crypto) (s' : PolicyState crypto) : Prop where
  ahead : s.Ahead → s'.Ahead
  latched : s.Latched → s'.Latched
  fences : note.Fences → s'.Latched
  remembers : ∀ revision id, note.Remembers revision id → s'.observed[revision]? = some id
  keeps : ∀ revision id, s.observed[revision]? = some id →
    s'.observed[revision]? = some id ∨ note.Installs revision id

theorem Extends.refl {note : PolicyNote crypto} (hf : ¬ note.Fences) (hr : ∀ revision id, ¬ note.Remembers revision id) :
    s.Extends note s :=
  ⟨id, id, fun h => absurd h hf, fun revision id h => absurd h (hr revision id), fun _ _ => .inl⟩

theorem Extends.fork {note : PolicyNote crypto} (hr : ∀ revision id, ¬ note.Remembers revision id) :
    s.Extends note { s with forked := true } :=
  ⟨id, fun _ => .inl rfl, fun _ => .inl rfl, fun revision id h => absurd h (hr revision id), fun _ _ => .inl⟩

theorem Observes.extends {s' : PolicyState crypto} {update : VerifiedPolicy crypto} {result : Except Error Unit}
    (h : s.Observes update result s') : s.Extends (.observed update result) s' := by
  cases h with
  | refused e hfork hcapacity =>
    refine .refl (fun h => ?_) fun _ _ h => nomatch h.1
    rcases h with h | h
    · exact hfork (Except.error.inj h)
    · exact hcapacity (Except.error.inj h)
  | conflict => exact .fork fun _ _ h => nomatch h.1
  | overflow => exact ⟨id, fun _ => .inr rfl, fun _ => .inr rfl, fun _ _ h => (nomatch h.1), fun _ _ => .inl⟩
  | known hobserved =>
    refine ⟨id, id, fun h => ?_, fun revision id h => ?_, fun _ _ => .inl⟩
    · rcases h with h | h
      · cases h
      · cases h
    · obtain ⟨-, rfl, rfl⟩ := h
      exact hobserved
  | remembered hgt hnone =>
    refine ⟨fun hahead revision id h => ?_, id, fun h => ?_, fun revision id h => ?_, fun revision id h => .inl ?_⟩
    · simp only [Maps.getElem?_insert] at h
      split at h
      · rename_i he
        subst he
        exact hgt
      · exact hahead revision id h
    · rcases h with h | h
      · cases h
      · cases h
    · obtain ⟨-, rfl, rfl⟩ := h
      simp
    · simp only [Maps.getElem?_insert]
      split
      · rename_i he
        subst he
        rw [hnone] at h
        cases h
      · exact h

theorem Commits.extends {origin : PolicyState crypto} {pushed : List (VerifiedEvent crypto)} {p : PreparedPolicy crypto}
    (h : s.Commits p) (hp : Prepares origin pushed p) :
    s.Extends (.commit s pushed p (.ok p.closed) (s.committed p)) (s.committed p) := by
  have hnext := hp.facts.next
  rw [← hp.facts.base, h.base] at hnext
  have herase : ∀ revision, (s.committed p).observed[revision]? =
      if p.update.claims.revision = revision then none else s.observed[revision]? := by
    intro revision
    simp only [committed, Maps.getElem?_erase]
  refine ⟨fun hahead revision id hid => ?_, id, False.elim, fun _ _ => False.elim, fun revision id hid => ?_⟩
  · rw [herase] at hid
    split at hid
    · cases hid
    · rename_i hne
      have hlt := UInt64.lt_iff_toNat_lt.1 (hahead revision id hid)
      have hne' : p.update.claims.revision.toNat ≠ revision.toNat := fun he => hne (UInt64.toNat_inj.1 he)
      show p.update.claims.revision < revision
      rw [UInt64.lt_iff_toNat_lt]
      omega
  · rw [herase]
    split
    · rename_i he
      subst he
      have hagrees := h.agrees
      rw [PolicyState.agrees, hid] at hagrees
      exact .inr ⟨⟨_, rfl⟩, rfl, (eq_of_beq hagrees).symm⟩
    · exact .inl hid

theorem extends_of_step {mint : PolicyState crypto → Prop} {s' : PolicyState crypto} {notes : List (PolicyNote crypto)}
    (h : PolicyStep mint s notes s') : ∃ note, notes = [note] ∧ s.Extends note s' := by
  cases h with
  | @observe _ update _ he =>
    have hobs := s.observes update
    rw [he] at hobs
    exact ⟨_, rfl, hobs.extends⟩
  | observeRetained he =>
    refine ⟨_, rfl, ?_⟩
    obtain ⟨e, hexec⟩ := exec_observeRetainedAfterPersist (s := s)
    rw [hexec] at he
    cases he
    split
    · exact .fork fun _ _ => False.elim
    · rename_i hne
      exact .refl (fun h => hne (Except.error.inj h)) fun _ _ => False.elim
  | commit _ hp he =>
    refine ⟨_, rfl, ?_⟩
    rcases exec_commitAfterPersist (s := s) _ with ⟨hc, hexec⟩ | ⟨e, hexec⟩
    · rw [hexec] at he
      cases he
      exact hc.extends hp
    · rw [hexec] at he
      cases he
      exact .refl False.elim fun _ _ => False.elim

structure Recalls (log : List (PolicyNote crypto)) (s : PolicyState crypto) : Prop where
  ahead : s.Ahead
  fenced : ∀ note ∈ log, note.Fences → s.Latched
  pending : ∀ before note after revision id, log = before ++ note :: after → note.Remembers revision id →
    (∃ n ∈ after, n.Installs revision id) ∨ s.observed[revision]? = some id

theorem Recalls.new (genesis : PinnedGenesis crypto) : Recalls [] (PolicyState.new genesis) := by
  refine ⟨fun revision id h => ?_, by simp, fun before note after revision id h => by simp at h⟩
  simp [PolicyState.new] at h

theorem Recalls.step {mint : PolicyState crypto → Prop} {log notes : List (PolicyNote crypto)} {s' : PolicyState crypto}
    (h : Recalls log s) (hs : PolicyStep mint s notes s') : Recalls (log ++ notes) s' := by
  obtain ⟨note, rfl, hext⟩ := extends_of_step hs
  refine ⟨hext.ahead h.ahead, fun n hn hf => ?_, fun before n after revision id hsplit hr => ?_⟩
  · rcases List.mem_append.1 hn with hn | hn
    · exact hext.latched (h.fenced n hn hf)
    · exact hext.fences (List.mem_singleton.1 hn ▸ hf)
  · rcases List.snoc_eq_split hsplit with ⟨rfl, rfl, rfl⟩ | ⟨after', rfl, rfl⟩
    · exact .inr (hext.remembers revision id hr)
    · rcases h.pending before n after' revision id rfl hr with ⟨n', hn', hi⟩ | hobserved
      · exact .inl ⟨n', by simp [hn'], hi⟩
      · rcases hext.keeps revision id hobserved with hobserved | hi
        · exact .inr hobserved
        · exact .inl ⟨note, by simp, hi⟩

theorem recalls {mint : PolicyState crypto → Prop} {genesis : PinnedGenesis crypto} {log : List (PolicyNote crypto)}
    (h : Steps (PolicyStep mint) (PolicyState.new genesis) log s) : Recalls log s :=
  h.recorded (.new genesis) fun _ _ _ _ hr hs => hr.step hs

end PolicyState

open PolicyState in
/-- In every run of a policy state, whatever the tokens were prepared from: observations stay ahead of the head,
nothing is admitted after a conflict or an overflow, and after an observation nothing is admitted before
exactly the observed policy is committed at its revision. -/
theorem owner_fence {genesis : PinnedGenesis crypto} {log : List (PolicyNote crypto)} {s : PolicyState crypto}
    (h : Steps (PolicyStep fun _ => True) (PolicyState.new genesis) log s) :
    (∀ revision id, s.observed[revision]? = some id → s.head.revision < revision ∧ s.Refuses) ∧
      (∀ note ∈ log, note.Fences → s.Refuses) ∧
      ∀ before note after revision id, log = before ++ note :: after → note.Remembers revision id →
        (∀ n ∈ after, ¬ n.Installs revision id) → s.Refuses := by
  have hr := recalls h
  refine ⟨fun revision id hid => ⟨hr.ahead revision id hid, .of_pending hid⟩,
    fun note hn hf => .of_latch (hr.fenced note hn hf), fun before note after revision id hsplit hnote hnone => ?_⟩
  rcases hr.pending before note after revision id hsplit hnote with ⟨n, hn, hi⟩ | hid
  · exact absurd hi (hnone n hn)
  · exact .of_pending hid

/-! ### A room with one event -/

def sampleKey : Bytes32 := beVector 32 0xea4a6c63e29c520abef5507b132ec5f9954776aebebe7b92421eea691446d22c

def sampleGenesisClaims : GenesisClaims := ⟨sampleKey, beVector 32 1, [sampleKey]⟩

def sampleRoom : RoomId := ⟨beVector 32 0x5047ee41fa709128473948128c3b1b71279780fa12f54a94be324e9fac87fea7⟩
def sampleRoot : PolicyId := ⟨beVector 32 0x3c87988f7e553c4a6201c007f62e1b5c203a0170e21e3bd8b76e3e8eeb07a65f⟩
def sampleEventId : EventId := ⟨beVector 32 0xad5c37577626f954723637383702f720c39bbda11ad4e343594f3f4b9328ace9⟩
def samplePolicyId : PolicyId := ⟨beVector 32 0x443d63559b213de9e8dab81303a18236243335043e2a814c5be52a923fe1125a⟩

def sampleText : Text := ⟨"hi", by decide +kernel⟩

def sampleEventClaims : EventClaims := ⟨sampleRoom, sampleRoot, sampleKey, 1, .zero, 0, sampleText⟩

def samplePolicyClaims : PolicyClaims :=
  ⟨sampleRoom, sampleKey, 1, sampleRoot, [sampleKey], [⟨sampleKey, 1, sampleEventId⟩]⟩

def sampleHash : List (List UInt8 × Bytes32) :=
  [(genesisDomain ++ genesisKind.encode sampleGenesisClaims, sampleRoom.bytes),
    (policyRootDomain ++ sampleRoom.bytes.toList, sampleRoot.bytes),
    (eventDomain ++ eventKind.encode sampleEventClaims, sampleEventId.bytes),
    (policyDomain ++ policyKind.encode samplePolicyClaims, samplePolicyId.bytes)]

/-- The owner's Ed25519 signatures of the records. -/
def sampleSignatures : List (List UInt8 × Signature) :=
  [(genesisDomain ++ genesisKind.encode sampleGenesisClaims, beVector 64
      0x0258027c45dfd974638790fe0877f71c2cef015dee2b52da71795bf49b10eee4bb84040e8ad0d937e286e51229b24be94ae9e4dea9499dddb4867b5b461a370e),
    (eventDomain ++ eventKind.encode sampleEventClaims, beVector 64
      0x0bbed2cc417a21b699521ac40551f8b4c2c2de79d743154b8b6f0ebe8aff9d4e7ec97c47d8ece1629956ceeb0cff3fb11e2c0a75ef519f98a58b48a9ec37c408),
    (policyDomain ++ policyKind.encode samplePolicyClaims, beVector 64
      0x4ce2a39e1024cecb79f612b90c91d7ec45fffaf998d31262c515fbc66906843abc50f0e25a631c86abfb57040f687918ca5af2875fdeede761448c39c6e9570e)]

def cryptoOf (hashes : List (List UInt8 × Bytes32)) : Crypto where
  sha256 message := ((hashes.find? (·.1 = message)).map (·.2)).getD zeroBytes
  validKey key := key = sampleKey
  verifyStrict key message signature := key = sampleKey && sampleSignatures.contains (message, signature)

def sampleCrypto : Crypto := cryptoOf sampleHash

def signatureOf (message : List UInt8) : Signature :=
  ((sampleSignatures.find? (·.1 = message)).map (·.2)).getD (Vector.replicate 64 0)

def sampleGenesis : PinnedGenesis sampleCrypto :=
  ⟨⟨⟨⟨sampleGenesisClaims, sampleRoom, by decide +kernel, by decide +kernel⟩,
    signatureOf (genesisDomain ++ genesisKind.encode sampleGenesisClaims)⟩, by decide +kernel⟩⟩

def sampleEvent : VerifiedEvent sampleCrypto :=
  ⟨⟨⟨sampleEventClaims, sampleEventId, by decide +kernel, by decide +kernel⟩,
    signatureOf (eventDomain ++ eventKind.encode sampleEventClaims)⟩, by decide +kernel⟩

def samplePolicy : VerifiedPolicy sampleCrypto :=
  ⟨⟨⟨samplePolicyClaims, samplePolicyId, by decide +kernel, by decide +kernel⟩,
    signatureOf (policyDomain ++ policyKind.encode samplePolicyClaims)⟩, by decide +kernel⟩

def sampleStart : PolicyState sampleCrypto := .new sampleGenesis

def samplePending : PolicyState sampleCrypto := { sampleStart with observed := sampleStart.observed.insert 1 samplePolicyId }

theorem sample_observes : exec (PolicyState.observeAfterPersist samplePolicy) sampleStart = (.ok (), samplePending) := by
  decide +kernel

theorem sample_owner_fence : samplePending.Refuses :=
  (owner_fence (.single (.observe sample_observes))).2.2 [] _ [] 1 samplePolicyId rfl ⟨rfl, rfl, rfl⟩ (by simp)

end Valhalla.DirectRoom
