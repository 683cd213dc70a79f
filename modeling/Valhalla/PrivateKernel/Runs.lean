import Valhalla.PrivateKernel.Clocks

/-!
# Runs over one store

Sessions come and go; each operation of one of them may publish once. The committed states of a run are a chain: the clock never
goes back, and it never jumps by more than one step while the operations with a time check of their own are called with a near clock.
-/

namespace Valhalla.PrivateKernel
open Fallible FixedWidth Check

variable {crypto : Hashing}

namespace Kernel

/-- The operations of a session. The readers that are left out only load records, as those at the end. -/
inductive Action (crypto : Hashing)
  | keyPackage (operation : OperationId) (now : UInt64)
  | invite (operation : OperationId) (rawRequest : List UInt8) (validity : Validity) (now : UInt64)
  | join (raw : List UInt8) (now : UInt64)
  | remove (operation : OperationId) (target : Key crypto) (now : UInt64)
  | send (operation : OperationId) (draft : MessageDraft crypto) (now : UInt64)
  | receive (raw : List UInt8) (now : UInt64)
  | issueAcceptance (operation : OperationId) (original : List UInt8) (now : UInt64)
  | createContactOffer (operation : OperationId) (recipient : Key crypto) (validity : Validity) (now : UInt64)
  | contactRequest (operation : OperationId) (rawOffer : List UInt8) (now : UInt64)
  | acceptContact (operation : OperationId) (raw : List UInt8) (validity : Validity) (now : UInt64)
  | joinContact (raw : List UInt8) (now : UInt64)
  | renewOwner (operation : OperationId) (enrollment : SignedDeviceEnrollment crypto) (now : UInt64)
  | succeed (operation : OperationId) (grant : SignedOwnerSuccession crypto) (now : UInt64)
  | applyControl (raw : List UInt8) (now : UInt64)
  | applyRemoval (raw : List UInt8) (now : UInt64)
  | observeOwnerControl (raw : List UInt8) (now : UInt64)
  | inspectContactResponse (raw : List UInt8) (now : UInt64)
  | contactResponseCommitted (raw : List UInt8)
  | prepareMessage (body : List UInt8)
  | retainedSend (operation : OperationId) (epoch : UInt64) (roster : Bytes32) (body : List UInt8)
  | retainedReceived (raw : List UInt8)
  | membership

/-- An operation for what it does to the session. -/
def ran {α : Type} (m : KernelM crypto α) : KernelM crypto Unit := do
  let _ ← m
  pure ()

namespace Action

def perform (mls : Mls) (cipher : Cipher) (entropy : Entropy) : Action crypto → KernelM crypto Unit
  | .keyPackage operation now => ran (Kernel.keyPackage mls entropy operation now)
  | .invite operation rawRequest validity now => ran (Kernel.invite mls cipher entropy operation rawRequest validity now)
  | .join raw now => ran (Kernel.join mls entropy raw now)
  | .remove operation target now => ran (Kernel.remove mls cipher entropy operation target now)
  | .send operation draft now => ran (Kernel.send mls entropy operation draft now)
  | .receive raw now => ran (Kernel.receive mls entropy raw now)
  | .issueAcceptance operation original now => ran (Kernel.issueAcceptance mls entropy operation original now)
  | .createContactOffer operation recipient validity now => ran (Kernel.createContactOffer mls entropy operation recipient validity now)
  | .contactRequest operation rawOffer now => ran (Kernel.contactRequest mls cipher entropy operation rawOffer now)
  | .acceptContact operation raw validity now => ran (Kernel.acceptContact mls cipher entropy operation raw validity now)
  | .joinContact raw now => ran (Kernel.joinContact mls cipher entropy raw now)
  | .renewOwner operation enrollment now => ran (Kernel.renewOwner mls cipher entropy operation enrollment now)
  | .succeed operation grant now => ran (Kernel.succeed mls cipher entropy operation grant now)
  | .applyControl raw now => ran (Kernel.applyControl mls cipher entropy raw now)
  | .applyRemoval raw now => ran (Kernel.applyRemoval mls cipher entropy raw now)
  | .observeOwnerControl raw now => ran (Kernel.observeOwnerControl mls entropy raw now)
  | .inspectContactResponse raw now => ran (Kernel.inspectContactResponse mls cipher raw now)
  | .contactResponseCommitted raw => ran (Kernel.contactResponseCommitted raw)
  | .prepareMessage body => ran (Kernel.prepareMessage body)
  | .retainedSend operation epoch roster body => ran (Kernel.retainedSend operation epoch roster body)
  | .retainedReceived raw => ran (Kernel.retainedReceived raw)
  | .membership => ran Kernel.membership

def clock : Action crypto → Option UInt64
  | .keyPackage _ now | .invite _ _ _ now | .join _ now | .remove _ _ now | .send _ _ now | .receive _ now | .issueAcceptance _ _ now
  | .createContactOffer _ _ _ now | .contactRequest _ _ now | .acceptContact _ _ _ now | .joinContact _ now | .renewOwner _ _ now
  | .succeed _ _ now | .applyControl _ now | .applyRemoval _ now | .observeOwnerControl _ now | .inspectContactResponse _ now => some now
  | .contactResponseCommitted _ | .prepareMessage _ | .retainedSend _ _ _ _ | .retainedReceived _ | .membership => none

/-- The operation commits the caller's clock without asking how far ahead it is. -/
def Narrow : Action crypto → Store crypto → State crypto → Prop
  | .renewOwner _ enrollment now, _, s => Renewing enrollment now s
  | .succeed _ grant now, _, s => Succeeding grant now s
  | .applyControl raw _, _, s => ApplyingHandoff raw s
  | .observeOwnerControl raw _, b, s => Conflicting raw b s
  | _, _, _ => False

/-- Where the operation does not ask, the caller's clock is one step ahead at most. -/
def Near (a : Action crypto) (b : Store crypto) : Prop :=
  ∀ s ∈ b.image, a.Narrow b s → ∀ now ∈ a.clock, now ≤ saturatingAdd s.clock maxClockStepSecs

end Action

section
variable {mls : Mls} {cipher : Cipher} {entropy : Entropy} {b b' : Store crypto} {s : State crypto}

theorem Clocked.ran {α : Type} {a : Action crypto} {m : KernelM crypto α} {now : UInt64} (h : Clocked a.Narrow now m)
    (ha : a.clock = some now) (hb : b.image = some s) :
    Moves store (Commits fun s s' => ∃ now ∈ a.clock, Ticks (a.Narrow b s) now s.clock s'.clock) b (ran m) := by
  refine Moves.andThen ((h b s hb).mono ?_) fun _ => .pure _
  rintro b' ⟨s, hs, s', hs', hticks⟩
  exact ⟨s, hs, s', hs', now, ha, hticks⟩

theorem Clocked.mono {α : Type} {m : KernelM crypto α} {now : UInt64} {narrow narrow' : Store crypto → State crypto → Prop}
    (h : Clocked narrow now m) (hn : ∀ b s, narrow b s → narrow' b s) : Clocked narrow' now m := by
  intro b s hb
  refine (h b s hb).mono ?_
  rintro b' ⟨s, hs, s', hs', hcommits, hmonotone, hbounded⟩
  exact ⟨s, hs, s', hs', hcommits, hmonotone, hbounded.imp_left (hn b s)⟩

theorem keeps_ran {α : Type} {m : KernelM crypto α} (h : Keeps store m) : Keeps store (ran m) := h.bind fun _ => .pure _

theorem Action.perform_moves (a : Action crypto) (hb : b.image = some s) :
    Moves store (Commits fun s s' => ∃ now ∈ a.clock, Ticks (a.Narrow b s) now s.clock s'.clock) b (a.perform mls cipher entropy) := by
  cases a with
  | keyPackage operation now => exact keyPackage_clocked.ran rfl hb
  | invite operation rawRequest validity now => exact invite_clocked.ran rfl hb
  | join raw now => exact join_clocked.ran rfl hb
  | remove operation target now => exact remove_clocked.ran rfl hb
  | send operation draft now => exact send_clocked.ran rfl hb
  | receive raw now => exact receive_clocked.ran rfl hb
  | issueAcceptance operation original now => exact issueAcceptance_clocked.ran rfl hb
  | createContactOffer operation recipient validity now => exact createContactOffer_clocked.ran rfl hb
  | contactRequest operation rawOffer now => exact contactRequest_clocked.ran rfl hb
  | acceptContact operation raw validity now => exact acceptContact_clocked.ran rfl hb
  | joinContact raw now => exact joinContact_clocked.ran rfl hb
  | renewOwner operation enrollment now => exact renewOwner_clocked.ran rfl hb
  | succeed operation grant now => exact succeed_clocked.ran rfl hb
  | applyControl raw now => exact (applyEnvelope_clocked.mono fun _ _ h => h.2).ran rfl hb
  | applyRemoval raw now => exact (applyEnvelope_clocked.mono fun _ _ h => nomatch h.1).ran rfl hb
  | observeOwnerControl raw now => exact Clocked.ran (a := .observeOwnerControl raw now) observeOwnerControl_clocked rfl hb
  | inspectContactResponse raw now =>
    exact .of_keeps (keeps_ran ((keeps_beginLive mls).bind fun _ => (Keeps.okOr _ _).bind fun _ => (Keeps.lift _).bind fun _ =>
      (Keeps.view _).bind fun _ => (Keeps.lift _).bind fun _ => .pure _))
  | contactResponseCommitted raw =>
    exact .of_keeps (keeps_ran ((Keeps.lift _).bind fun _ => (Keeps.lift _).bind fun _ => keeps_beginState.bind fun _ => .pure _))
  | prepareMessage body =>
    exact .of_keeps (keeps_ran ((Keeps.view _).bind fun _ => (Keeps.lift _).bind fun _ => (Keeps.lift _).bind fun _ =>
      (Keeps.lift _).bind fun _ => (Keeps.lift _).bind fun _ => .pure _))
  | retainedSend operation epoch roster body =>
    exact .of_keeps (keeps_ran ((Keeps.lift _).bind fun _ => (Keeps.view _).bind fun _ => (Keeps.lift _).bind fun _ =>
      keeps_beginState.bind fun _ => keeps_retained _ _ _ _))
  | retainedReceived raw =>
    exact .of_keeps (keeps_ran ((Keeps.lift _).bind fun _ => keeps_beginState.bind fun _ => keeps_received _ _))
  | membership => exact .of_keeps (keeps_ran (keeps_beginState.bind fun _ => .pure _))

/-- An operation of any session on the store, one that was opened before or a new one, and the state that it committed. -/
def Acts (mls : Mls) (cipher : Cipher) (allowed : Action crypto → Store crypto → Prop) (b : Store crypto) (history : List (State crypto))
    (b' : Store crypto) : Prop :=
  ∃ (k : Kernel crypto) (entropy : Entropy) (a : Action crypto), k.store = b ∧ allowed a b ∧
    b' = (exec (a.perform mls cipher entropy) k).2.store ∧ history = if b'.image = b.image then [] else b'.image.toList

theorem chain_of_ticks {allowed : Action crypto → Store crypto → Prop} {R : UInt64 → UInt64 → Prop} {history : List (State crypto)}
    (hR : ∀ (a : Action crypto) (b : Store crypto) (s : State crypto) (now clock' : UInt64), allowed a b → b.image = some s → a.clock = some now →
      Ticks (a.Narrow b s) now s.clock clock' → R s.clock clock')
    (hb : b.image = some s) (run : Steps (Acts mls cipher allowed) b history b') :
    (s :: history).IsChain (fun s s' => R s.clock s'.clock) ∧ b'.image = (s :: history).getLast? := by
  refine run.chain hb ?_
  rintro b n b' s hb ⟨k, entropy, a, hk, hallowed, rfl, rfl⟩
  have hmoves : Moves store _ b (a.perform mls cipher entropy) := a.perform_moves hb
  rcases hmoves k hk with hsame | ⟨s, hs, s', hs', now, hnow, hticks⟩
  · rw [hsame, if_pos rfl]
    exact .inl ⟨rfl, hb⟩
  · by_cases heq : (exec (a.perform mls cipher entropy) k).2.store.image = b.image
    · rw [if_pos heq]
      exact .inl ⟨rfl, heq.trans hb⟩
    · rw [if_neg heq, hs']
      rw [hb] at hs
      cases hs
      exact .inr ⟨s', rfl, rfl, hR a b s now s'.clock hallowed hb hnow hticks⟩

/-- Whatever the callers' clocks are, the committed one never goes back. -/
theorem clock_monotone {allowed : Action crypto → Store crypto → Prop} {history : List (State crypto)} (hb : b.image = some s)
    (run : Steps (Acts mls cipher allowed) b history b') :
    (s :: history).IsChain (fun s s' => s.clock ≤ s'.clock) ∧ b'.image = (s :: history).getLast? :=
  chain_of_ticks (R := (· ≤ ·)) (fun _ _ _ _ _ _ _ _ hticks => hticks.commits ▸ hticks.monotone) hb run

theorem saturatingAdd_le (clock step : UInt64) : (saturatingAdd clock step).toNat ≤ clock.toNat + step.toNat := by
  have h := toNat_saturatingAdd (a := clock) (b := step)
  simp only [toNat_uInt64] at h
  omega

theorem paced_total : ∀ {history : List (State crypto)} {s last : State crypto},
    (s :: history).IsChain (fun s s' => Paced s.clock s'.clock) → (s :: history).getLast? = some last →
      s.clock ≤ last.clock ∧ last.clock.toNat ≤ s.clock.toNat + history.length * maxClockStepSecs.toNat
  | [], s, last, _, hlast => by
    cases hlast
    exact ⟨UInt64.le_refl _, by simp⟩
  | s' :: history, s, last, hchain, hlast => by
    rw [List.isChain_cons_cons] at hchain
    rw [List.getLast?_cons_cons] at hlast
    obtain ⟨hle, htotal⟩ := paced_total hchain.2 hlast
    have hstep := saturatingAdd_le s.clock maxClockStepSecs
    have hbounded := UInt64.le_iff_toNat_le.1 hchain.1.bounded
    refine ⟨UInt64.le_trans hchain.1.monotone hle, ?_⟩
    rw [List.length_cons, Nat.succ_mul]
    omega

/-- While the callers of the narrow paths have near clocks, each commit is one step at most, and so many commits are so many steps. -/
theorem clock_paced {history : List (State crypto)} (hb : b.image = some s) (run : Steps (Acts mls cipher Action.Near) b history b') :
    (s :: history).IsChain (fun s s' => Paced s.clock s'.clock) ∧
      ∃ last ∈ b'.image, s.clock ≤ last.clock ∧ last.clock.toNat ≤ s.clock.toNat + history.length * maxClockStepSecs.toNat := by
  obtain ⟨hchain, hlast⟩ := chain_of_ticks (R := Paced)
    (fun a b s now clock' hnear hb hnow hticks => by
      refine hticks.commits ▸ ⟨hticks.monotone, ?_⟩
      rcases hticks.bounded with hnarrow | hbounded
      · exact hnear s hb hnarrow now hnow
      · exact hbounded) hb run
  obtain ⟨last, hget⟩ : ∃ last, (s :: history).getLast? = some last := ⟨_, List.getLast?_eq_some_getLast (List.cons_ne_nil s history)⟩
  exact ⟨hchain, last, hlast.trans hget, paced_total hchain hget⟩

end

/-! ### A renewal under a wrong clock -/

theorem ones_ne_zero : (Vector.replicate 32 1 : Bytes32) ≠ zeroBytes := by decide

/-- A hash that is never zero; every key parses and every signature is accepted. -/
def roomHashing : Hashing where
  sha256 _ := Vector.replicate 32 1
  decodesKey _ := true
  isWeak _ := false
  verifyStrict _ _ _ := true
  sha256_ne_zero _ := ones_ne_zero

def roomSignature : Signature := Vector.replicate 64 7

def roomAnchor : VerifiedRoomAnchor roomHashing where
  signed := ⟨⟨⟨Vector.replicate 32 1, ones_ne_zero⟩, ⟨Vector.replicate 32 2, rfl⟩, ⟨Vector.replicate 32 3, rfl⟩⟩, roomSignature, rfl, by decide +kernel⟩
  verified := rfl

def roomOwner : VerifiedDeviceEnrollment roomHashing where
  signed := ⟨⟨⟨Vector.replicate 32 2, rfl⟩, ⟨Vector.replicate 32 3, rfl⟩, ⟨0, 100000000, by decide⟩⟩, roomSignature, rfl, by decide +kernel⟩
  verified := rfl

def roomRenewal : VerifiedDeviceEnrollment roomHashing where
  signed := ⟨⟨⟨Vector.replicate 32 2, rfl⟩, ⟨Vector.replicate 32 3, rfl⟩, ⟨0, 9223372036854775808, by decide⟩⟩, roomSignature, rfl,
    by decide +kernel⟩
  verified := rfl

def roomState : State roomHashing where
  revision := 1
  phase := .ownerGenesis
  epoch := 0
  clock := 5
  floor := .genesis
  outbox := 0
  inbox := 0
  anchor := roomAnchor
  localDevice := roomOwner
  owner := roomOwner
  successions := []
  roster := [roomOwner]
  base := .genesis
  checkpoint := none
  fault := none
  keyPackage := none
  joined := none
  records := [([1], [0])]
  offers := []
  contact := none

def roomGroup (epoch : UInt64) (leaf : Leaf) (pending : Option Stage) : GroupView :=
  ⟨List.replicate 32 1, true, epoch, false, pending, true, [⟨0, leaf⟩], 0⟩

def roomMls : Mls where
  Signer := Unit
  Group := GroupView
  Staged := Unit
  Package := Unit
  Message := Unit
  StagedWelcome := Unit
  newSigner _ := some ()
  publicKey _ := List.replicate 32 3
  storeSigner provider _ := some provider
  readSigner _ _ := some ()
  sign _ _ := some (List.replicate 64 7)
  newGroup _ _ _ _ _ := none
  load provider _ :=
    if provider[[(1 : UInt8)]]? = some [1] then some (some (roomGroup 1 (enrollmentLeaf roomRenewal roomRenewal.device) none))
    else some (some (roomGroup 0 (enrollmentLeaf roomOwner roomOwner.device) none))
  view group := group
  stage _ := ⟨0, [], false, [], none⟩
  addMember _ _ _ _ _ _ := none
  removeMember _ _ _ _ _ _ := none
  selfUpdate _ group provider _ _ leaf := some ([9], false, { group with pendingCommit := some ⟨1, [], false, [], leaf⟩ }, provider)
  mergePending _ provider := some (provider.insert [1] [1])
  mergeStaged _ _ _ := none
  createMessage _ _ _ _ _ _ := none
  exportSecret _ _ _ := some (Vector.replicate 32 5)
  protocolMessage _ := none
  message _ := ⟨true, true, [], 0⟩
  process _ _ _ := .error .other
  acceptableLifetime _ := true
  keyPackage _ _ _ _ _ := none
  packageIn _ := none
  package _ := ⟨true, ⟨⟨true, []⟩, []⟩, fun _ => true, true⟩
  stageWelcome _ _ := none
  welcome _ := ⟨[], true, 0, [], none, none, []⟩
  joinGroup _ _ := none

def roomCipher : Cipher where
  encrypt _ _ _ clear := clear ++ List.replicate 16 0
  decrypt _ _ _ raw := some (raw.take (raw.length - 16))
  decrypt_encrypt _ _ _ clear := by simp
  length_encrypt _ _ _ clear := by simp

def roomEntropy : Entropy := ⟨fun _ n => some (Vector.replicate n 6)⟩

def roomSession : Kernel roomHashing where
  store := ⟨some roomState, fun _ => none⟩
  answers := []
  context := roomState.context
  image := roomState
  status := roomState.status
  needsReopen := false
  pendingFault := none

def roomOperation : OperationId := ⟨Vector.replicate 16 4, by decide⟩

def renewalAt (now : UInt64) : Store roomHashing :=
  (exec (Action.perform roomMls roomCipher roomEntropy (.renewOwner roomOperation roomRenewal.signed now)) roomSession).2.store

theorem renewal_acts {allowed : Action roomHashing → Store roomHashing → Prop} {now : UInt64}
    (hallowed : allowed (.renewOwner roomOperation roomRenewal.signed now) roomSession.store)
    (hclock : (renewalAt now).image.map State.clock = some now) (hnow : now ≠ 5) :
    ∃ last : State roomHashing, last.clock = now ∧ Acts roomMls roomCipher allowed roomSession.store [last] (renewalAt now) := by
  obtain ⟨last, hlast, hclock⟩ := Option.map_eq_some_iff.1 hclock
  refine ⟨last, hclock, roomSession, roomEntropy, _, rfl, hallowed, rfl, ?_⟩
  have hne : (renewalAt now).image ≠ roomSession.store.image := by
    intro heq
    rw [hlast] at heq
    cases heq
    exact hnow hclock.symm
  exact ((if_neg hne).trans (congrArg Option.toList hlast)).symm

/-- The renewed enrollment outlives every step, and the renewal commits whatever clock the caller had. -/
theorem renewal_unpaced : ¬ ∀ (crypto : Hashing) (mls : Mls) (cipher : Cipher) (b b' : Store crypto) (s : State crypto)
    (history : List (State crypto)), b.image = some s → Steps (Acts mls cipher fun _ _ => True) b history b' →
      (s :: history).IsChain fun s s' => Paced s.clock s'.clock := by
  intro hall
  obtain ⟨last, hlast, hacts⟩ : ∃ last : State roomHashing, last.clock = 4611686018427387904 ∧
      Acts roomMls roomCipher (fun _ _ => True) roomSession.store [last] (renewalAt 4611686018427387904) :=
    renewal_acts trivial (by decide +kernel) (by decide)
  have hchain := hall _ _ _ _ _ roomState _ rfl (.single hacts)
  have hpaced := (List.isChain_pair.1 hchain).bounded
  rw [hlast] at hpaced
  exact absurd hpaced (by decide)

theorem renewal_monotone : ∃ last : State roomHashing, last.clock = 4611686018427387904 ∧
    [roomState, last].IsChain fun s s' => s.clock ≤ s'.clock := by
  obtain ⟨last, hlast, hacts⟩ : ∃ last : State roomHashing, last.clock = 4611686018427387904 ∧
      Acts roomMls roomCipher (fun _ _ => True) roomSession.store [last] (renewalAt 4611686018427387904) :=
    renewal_acts trivial (by decide +kernel) (by decide)
  exact ⟨last, hlast, (clock_monotone rfl (.single hacts)).1⟩

theorem renewal_paced : ∃ last : State roomHashing, last.clock = 1000 ∧ [roomState, last].IsChain (fun s s' => Paced s.clock s'.clock) := by
  have hnear : Action.Near (.renewOwner roomOperation roomRenewal.signed 1000) roomSession.store := by
    intro s hs _ now hnow
    cases hs
    cases hnow
    decide
  obtain ⟨last, hlast, hacts⟩ := renewal_acts hnear (by decide +kernel) (by decide)
  exact ⟨last, hlast, (clock_paced (s := roomState) rfl (.single hacts)).1⟩

end Kernel

end Valhalla.PrivateKernel
