import Valhalla.PrivateKernel.Exchange
import Valhalla.PrivateKernel.Handoff
import Valhalla.PrivateKernel.Messages

/-!
# What an operation leaves in the store

The loads and checks of an operation leave the store; the one publication leaves it or replaces the image with a captured state,
whatever the backend answers. What follows the publication only reads.
-/

namespace Valhalla.PrivateKernel
open Fallible FixedWidth Check

variable {crypto : Hashing}

namespace Kernel

/-- The committed state goes to one that `T` relates it to. -/
def Commits (T : State crypto → State crypto → Prop) (b b' : Store crypto) : Prop := ∃ s ∈ b.image, ∃ s' ∈ b'.image, T s s'

/-! ### Reads -/

theorem keeps_load : Keeps store (@load crypto) := by
  intro k
  unfold load
  rw [exec_of]
  split <;> rfl

theorem keeps_readRecord (key : RecordKey crypto) : Keeps store (readRecord key) := by
  intro k
  unfold readRecord
  rw [exec_of]
  split <;> rfl

theorem keeps_setReopen (value : Bool) : Keeps store (@setReopen crypto value) := .update fun _ => rfl

theorem keeps_loadState : Keeps store (@loadState crypto) :=
  keeps_load.bind fun _ => (Keeps.view _).bind fun _ => .ite (.pure _) (.throw _)

theorem keeps_beginState : Keeps store (@beginState crypto) := by
  refine (Keeps.view _).bind fun _ => .ite (.throw _) (keeps_loadState.attempt.bind fun loaded => ?_)
  cases loaded with
  | ok state => exact .pure _
  | error e => exact (keeps_setReopen true).bind fun _ => .throw _

theorem keeps_readClear (key : RecordKey crypto) : Keeps store (readClear key) :=
  (Keeps.lift _).bind fun _ => keeps_readRecord key

theorem keeps_sentAt (index head : UInt64) : Keeps store (@sentAt crypto index head) :=
  (Keeps.lift _).bind fun _ => (keeps_readClear _).bind fun _ => (Keeps.okOr _ _).bind fun _ => (Keeps.lift _).bind fun _ =>
    (Keeps.lift _).bind fun _ => .pure _

theorem keeps_retained (operation : OperationId) (request : Bytes32) (kind : OutboxKind) (head : UInt64) :
    Keeps store (@retained crypto operation request kind head) := by
  refine (keeps_readClear _).bind fun lookup => ?_
  cases lookup with
  | none => exact .pure _
  | some lookup =>
    exact (Keeps.lift _).bind fun _ => (keeps_sentAt _ _).bind fun _ => (Keeps.lift _).bind fun _ => (Keeps.lift _).bind fun _ =>
      (Keeps.lift _).bind fun _ => .pure _

theorem keeps_retainedOffer (operation : OperationId) (request : Bytes32) (head : UInt64) :
    Keeps store (@retainedOffer crypto operation request head) := by
  refine (keeps_readClear _).bind fun lookup => ?_
  cases lookup with
  | none => exact .pure _
  | some lookup =>
    exact (Keeps.lift _).bind fun _ => (keeps_sentAt _ _).bind fun _ => (Keeps.lift _).bind fun _ => (Keeps.lift _).bind fun _ =>
      (Keeps.view _).bind fun _ => (Keeps.lift _).bind fun _ => .pure _

theorem keeps_received (wire : List UInt8) (head : UInt64) : Keeps store (@received crypto wire head) := by
  refine (keeps_readClear _).bind fun lookup => ?_
  cases lookup with
  | none => exact .pure _
  | some lookup =>
    exact (Keeps.lift _).bind fun _ => (Keeps.lift _).bind fun _ => (keeps_readClear _).bind fun _ => (Keeps.okOr _ _).bind fun _ =>
      (Keeps.lift _).bind fun _ => (Keeps.lift _).bind fun _ => .pure _

theorem keeps_controlAt (sequence : UInt64) : Keeps store (@controlAt crypto sequence) :=
  (keeps_readClear _).bind fun _ => (Keeps.okOr _ _).bind fun _ => (Keeps.lift _).bind fun _ => (Keeps.lift _).bind fun _ =>
    (Keeps.view _).bind fun _ => (Keeps.lift _).bind fun _ => .pure _

theorem keeps_acceptedProof (state : State crypto) (floor : ControlFloor) : Keeps store (acceptedProof state floor) :=
  .ite ((Keeps.okOr _ _).bind fun _ => (Keeps.lift _).bind fun _ => (Keeps.lift _).bind fun _ => .pure _)
    ((keeps_controlAt _).bind fun _ => (Keeps.lift _).bind fun _ => (Keeps.lift _).bind fun _ => .pure _)

theorem keeps_acceptanceKey (head : UInt64) (received : ReceivedMessage crypto) : Keeps store (acceptanceKey head received) := by
  unfold acceptanceKey
  cases MemberAcceptance.claimedCiphertext received.body with
  | none => exact .pure _
  | some claim =>
    refine (keeps_readClear _).bind fun lookup => ?_
    cases lookup with
    | none => exact .pure _
    | some lookup =>
      refine (Keeps.lift _).bind fun _ => (keeps_sentAt _ _).bind fun sent => .ite (.pure _) ((Keeps.lift _).bind fun original =>
        (Keeps.view _).bind fun context => ?_)
      cases MemberAcceptance.verify context original received with
      | error e => exact .pure _
      | ok verified =>
        cases verified with
        | none => exact .pure _
        | some _ => exact (keeps_readClear _).bind fun _ => .pure _

/-! ### The state an operation starts from -/

theorem loadState_eq_ok {k k' : Kernel crypto} {state : State crypto} (h : exec loadState k = (.ok state, k')) :
    k.store.image = some state := by
  simp only [loadState, exec_bind_eq_ok, exec_view] at h
  obtain ⟨observed, k₁, hload, _, _, -, h⟩ := h
  have hobserved : k.store.image = some observed := by
    unfold load at hload
    rw [exec_of] at hload
    split at hload
    · exact okOr_eq_ok.1 (Prod.mk.inj hload).1
    · cases hload
  split at h
  · cases h
    exact hobserved
  · cases h

theorem beginState_eq_ok {k k' : Kernel crypto} {state : State crypto} (h : exec beginState k = (.ok state, k')) :
    k.store.image = some state := by
  simp only [beginState, exec_bind_eq_ok, exec_view] at h
  obtain ⟨latched, k₁, hview, h⟩ := h
  cases hview
  split at h
  · cases h
  · obtain ⟨loaded, k₂, hload, h⟩ := exec_bind_eq_ok.1 h
    cases loaded with
    | error e =>
      obtain ⟨_, _, -, h⟩ := exec_bind_eq_ok.1 h
      cases h
    | ok loaded =>
      cases h
      suffices hloaded : exec loadState k = (.ok state, (exec loadState k).2) from loadState_eq_ok hloaded
      refine Prod.ext ?_ rfl
      have hcaught := (Prod.mk.inj hload).1
      cases hexec : (exec loadState k).1 with
      | error e =>
        rw [hexec] at hcaught
        cases hcaught
      | ok a =>
        rw [hexec] at hcaught
        cases hcaught
        rfl

variable (mls : Mls)

theorem keeps_beginLive : Keeps store (@beginLive crypto mls) :=
  (keeps_beginState.bind fun _ => .lift _).bind fun _ => .ite (.throw _) (.pure _)

theorem hydrate_state {state : State crypto} {work : Working crypto} (h : Working.hydrate mls state = .ok work) :
    work.state = { state with records := [] } := by
  simp only [Working.hydrate, bind_eq_ok] at h
  obtain ⟨_, -, _, -, h⟩ := h
  split at h
  · cases h
    rfl
  · simp only [bind_eq_ok] at h
    obtain ⟨_, -, _, -, h⟩ := h
    cases h
    rfl

variable {mls}

theorem beginLive_eq_ok {k k' : Kernel crypto} {work : Working crypto} (h : exec (beginLive mls) k = (.ok work, k')) :
    ∃ s, k.store.image = some s ∧ work.state = { s with records := [] } := by
  simp only [beginLive, beginWork, exec_bind_eq_ok] at h
  obtain ⟨_, _, ⟨s, _, hstate, hhydrate⟩, h⟩ := h
  refine ⟨s, beginState_eq_ok hstate, ?_⟩
  split at h
  · cases h
  · cases h
    exact hydrate_state mls (Prod.mk.inj hhydrate).1

theorem controlAt_eq_ok {k k' : Kernel crypto} {sequence : UInt64} {retained : RetainedControl crypto}
    (h : exec (controlAt sequence) k = (.ok retained, k')) :
    ∃ raw, k.store.records (.control sequence) = some raw ∧ RetainedControl.decode raw = .ok retained := by
  simp only [controlAt, readClear, exec_bind_eq_ok, exec_lift, Prod.mk.injEq] at h
  obtain ⟨found, _, ⟨_, _, ⟨-, rfl⟩, hread⟩, raw, _, hraw, packet, _, ⟨hdecode, -⟩, _, _, -, _, _, -, _, _, -, hpacket⟩ := h
  cases hpacket
  unfold readRecord at hread
  rw [exec_of] at hread
  split at hread
  · cases found with
    | none => cases hraw
    | some found =>
      cases hraw
      exact ⟨raw, Except.ok.inj (Prod.mk.inj hread).1, hdecode⟩
  · cases hread

variable {α : Type} {T : State crypto → State crypto → Prop} {b : Store crypto} {s : State crypto}

theorem moves_live {f : Working crypto → KernelM crypto α} (hb : b.image = some s)
    (h : ∀ work, work.state = { s with records := [] } → Moves store (Commits T) b (f work)) :
    Moves store (Commits T) b (beginLive mls >>= f) := by
  refine Moves.bind_read (keeps_beginLive mls) (fun k work k' hk hexec => ?_) h
  obtain ⟨s', hs', hwork⟩ := beginLive_eq_ok hexec
  rw [hk, hb] at hs'
  cases hs'
  exact hwork

/-! ### The publication -/

theorem capture_clock {work : Working crypto} {state : State crypto} (h : work.capture mls = .ok state) :
    state.clock = work.state.clock := by
  simp only [Working.capture] at h
  split at h
  all_goals
    simp only [bind_eq_ok] at h
    grind

theorem nextImage_clock {entropy : Entropy} {work : Working crypto} {next : State crypto} (h : nextImage mls entropy work = .ok next) :
    next.clock = work.state.clock := by
  simp only [nextImage, bind_eq_ok] at h
  obtain ⟨revision, -, state, hstate, _, -, _, -, h⟩ := h
  cases h
  exact (capture_clock hstate).trans rfl

theorem publishImage_moves {next : State crypto} {records : List (StoredRecord crypto)} (hb : b.image = some s) (h : T s next) :
    Moves store (Commits T) b (publishImage next records) := by
  intro k hk
  have hlanded : Commits T b (k.store.apply next records) := ⟨s, hb, next, rfl, h⟩
  unfold publishImage
  rw [exec_of]
  dsimp only
  split
  · split
    · exact .inr hlanded
    · exact .inl hk
  · split
    · exact .inr hlanded
    · exact .inl hk

theorem publish_moves {entropy : Entropy} {work : Working crypto} {records : List (StoredRecord crypto)}
    (hb : b.image = some s) (h : ∀ next : State crypto, next.clock = work.state.clock → T s next) :
    Moves store (Commits T) b (publish mls entropy work records) := by
  refine Moves.bind (.lift _) fun _ => Moves.bind_lift fun next hnext => Moves.bind (keeps_setReopen true) fun _ =>
    (publishImage_moves hb (h next (nextImage_clock hnext))).andThen fun _ => ?_
  exact keeps_load.bind fun _ => (Keeps.lift _).bind fun _ =>
    (Keeps.forM fun _ => (keeps_readRecord _).bind fun _ => (Keeps.okOr _ _).bind fun _ => .ite (.pure _) (.throw _)).bind fun _ =>
      .update fun _ => rfl

section
variable {entropy : Entropy} {work : Working crypto} {operation : OperationId} {request : Bytes32} {kind : OutboxKind}

theorem publishSentControl_moves {bytes : List UInt8} {control : Option (VerifiedOwnerControl crypto × List UInt8)}
    (hb : b.image = some s) (h : ∀ next : State crypto, next.clock = work.state.clock → T s next) :
    Moves store (Commits T) b (publishSentControl mls entropy work operation request kind bytes control) :=
  Moves.bind (.lift _) fun _ => Moves.bind (.lift _) fun _ => Moves.andThen (publish_moves hb fun next hnext => h next hnext) fun _ =>
    (keeps_retained _ _ _ _).bind fun _ => (Keeps.okOr _ _).bind fun _ => (keeps_setReopen false).bind fun _ => .pure _

theorem publishControl_moves {control : VerifiedOwnerControl crypto} {envelope : Option (List UInt8)}
    (hb : b.image = some s) (h : ∀ next : State crypto, next.clock = work.state.clock → T s next) :
    Moves store (Commits T) b (publishControl mls entropy work control envelope) :=
  Moves.bind (.lift _) fun _ => (publish_moves hb h).andThen fun _ => (keeps_setReopen false).bind fun _ => .view _

theorem publishReceived_moves {raw : List UInt8} {sender : Key crypto} {body : List UInt8}
    (hb : b.image = some s) (h : ∀ next : State crypto, next.clock = work.state.clock → T s next) :
    Moves store (Commits T) b (publishReceived mls entropy work raw sender body) := by
  have hpublish : ∀ (index : UInt64) (records : List (StoredRecord crypto)), Moves store (Commits T) b (do
      publish mls entropy ⟨{ work.state with inbox := index }, work.provider⟩ records
      let retained ← received raw index
      let retained ← Fallible.okOr .missing retained
      setReopen false
      pure retained) := fun _ _ =>
    Moves.andThen (publish_moves hb fun next hnext => h next hnext) fun _ => (keeps_received _ _).bind fun _ => (Keeps.okOr _ _).bind fun _ =>
      (keeps_setReopen false).bind fun _ => .pure _
  refine Moves.bind (.lift _) fun _ => Moves.bind (.lift _) fun _ => Moves.bind (keeps_acceptanceKey _ _) fun key => ?_
  cases key with
  | none => exact hpublish _ _
  | some key => exact Moves.bind (.lift _) fun _ => hpublish _ _

theorem orRetained_moves {head : UInt64} {fresh : KernelM crypto CommittedOutbox}
    (h : Moves store (Commits T) b fresh) :
    Moves store (Commits T) b (orRetained operation request kind head fresh) := by
  refine Moves.bind (keeps_retained _ _ _ _) fun found => ?_
  cases found with
  | none => exact h
  | some found => exact .pure _

end

end Kernel

end Valhalla.PrivateKernel
