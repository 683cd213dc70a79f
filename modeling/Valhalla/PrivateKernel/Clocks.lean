import Valhalla.PrivateKernel.Landing

/-!
# The committed clock

Every publication commits the caller's clock. `checkTime` holds it between the committed clock and the largest step after it;
renewals, handoffs and conflict observations have time checks of their own, which only hold it from below.
-/

namespace Valhalla.PrivateKernel
open Fallible FixedWidth Check

variable {crypto : Hashing}

/-- A caller clock that is not behind the committed one nor more than one step ahead of it. -/
structure Paced (clock now : UInt64) : Prop where
  monotone : clock ≤ now
  bounded : now ≤ saturatingAdd clock maxClockStepSecs

theorem State.checkTime_paced {state : State crypto} {now : UInt64} (h : state.checkTime now = .ok ()) : Paced state.clock now := by
  simp only [State.checkTime, bind_eq_ok, require_eq_ok, decide_eq_true_eq] at h
  obtain ⟨_, hmonotone, _, hbounded, -⟩ := h
  exact ⟨hmonotone, hbounded⟩

/-! ### The clock of a candidate -/

namespace Working
variable {mls : Mls} {cipher : Cipher} {entropy : Entropy} {work : Working crypto} {now : UInt64}

theorem advance_clock {work' : Working crypto} {control : VerifiedOwnerControl crypto} (h : work.advance control now = .ok work') :
    work'.state.clock = now := by
  simp only [advance, bind_eq_ok] at h
  obtain ⟨_, -, h⟩ := h
  cases h
  rfl

theorem makeKeyPackage_paced {result : Working crypto × List UInt8} (h : work.makeKeyPackage mls entropy now = .ok result) :
    Paced work.state.clock now := by
  simp only [makeKeyPackage, bind_eq_ok] at h
  obtain ⟨_, -, _, htime, -⟩ := h
  exact State.checkTime_paced htime

theorem checkInvite_paced {join : JoinRequest crypto} {validity : Validity} (h : work.checkInvite join validity now = .ok ()) :
    Paced work.state.clock now := by
  simp only [checkInvite, bind_eq_ok] at h
  obtain ⟨_, -, _, -, _, htime, -⟩ := h
  exact State.checkTime_paced htime

theorem prepareInvite_clock {p : InvitePreparation crypto} {prepared : Prepared crypto}
    (h : work.prepareInvite mls cipher entropy p = .ok prepared) :
    prepared.work.state.clock = p.now ∧ Paced work.state.clock p.now := by
  simp only [prepareInvite, bind_eq_ok, Prod.exists] at h
  obtain ⟨_, hcheck, _, _, -, _, -, _, -, _, -, _, _, _, _, -, _, -, _, -, _, -, _, -, _, -, _, -, _, -, _, -, _, -, _, -, _, -, h⟩ := h
  obtain ⟨_, _, -, _, hadvance, hprepared⟩ := h
  have hclock := advance_clock hadvance
  cases hprepared
  exact ⟨hclock, checkInvite_paced hcheck⟩

theorem prepareJoin_clock {work' : Working crypto} {context : Context crypto} {packet : InvitePacket crypto} {id : Bytes32}
    (h : work.prepareJoin mls context packet id now = .ok work') :
    work'.state.clock = now ∧ Paced work.state.clock now := by
  simp only [prepareJoin, checkAdmission, bind_eq_ok] at h
  obtain ⟨_, ⟨_, -, _, htime, -⟩, _, -, _, -, _, -, _, -, _, -, _, -, hadvance⟩ := h
  exact ⟨advance_clock hadvance, State.checkTime_paced htime⟩

theorem prepareRemoval_clock {target : Key crypto} {prepared : Prepared crypto}
    (h : work.prepareRemoval mls cipher entropy target now = .ok prepared) :
    prepared.work.state.clock = now ∧ Paced work.state.clock now := by
  simp only [prepareRemoval, bind_eq_ok, Prod.exists] at h
  obtain ⟨_, -, _, htime, _, -, _, -, _, -, _, _, _, -, _, -, _, -, _, -, _, -, _, -, _, -, _, hadvance, hprepared⟩ := h
  have hclock := advance_clock hadvance
  cases hprepared
  exact ⟨hclock, State.checkTime_paced htime⟩

theorem prepareRenewal_clock {replacement : VerifiedDeviceEnrollment crypto} {prepared : Prepared crypto}
    (h : work.prepareRenewal mls cipher entropy replacement now = .ok prepared) :
    prepared.work.state.clock = now ∧ work.state.ownerRole = true ∧ work.state.checkReplacement replacement now = .ok () := by
  simp only [prepareRenewal, bind_eq_ok, Prod.exists] at h
  obtain ⟨_, hrole, _, hcheck, _, _, _, -, _, -, _, -, _, -, _, -, _, hadvance, hprepared⟩ := h
  have hclock := advance_clock hadvance
  cases hprepared
  exact ⟨hclock, require_eq_ok.1 hrole, hcheck⟩

theorem prepareSuccession_clock {grant : VerifiedOwnerSuccession crypto} {prepared : Prepared crypto}
    (h : work.prepareSuccession mls cipher entropy grant now = .ok prepared) :
    prepared.work.state.clock = now ∧ work.state.ownerRole = true ∧
      ∃ sequence, ofRecord work.state.floor.nextSequence = .ok sequence ∧ work.state.checkGrant grant sequence now = .ok () := by
  simp only [prepareSuccession, bind_eq_ok, Prod.exists] at h
  obtain ⟨_, hrole, sequence, hsequence, _, hcheck, _, _, _, -, _, -, _, -, _, -, _, -, _, hadvance, hprepared⟩ := h
  have hclock := advance_clock hadvance
  cases hprepared
  exact ⟨hclock, require_eq_ok.1 hrole, sequence, hsequence, hcheck⟩

theorem applyRenewal_clock {work' : Working crypto} {packet : ControlPacket crypto} (h : work.applyRenewal mls packet now = .ok work') :
    work'.state.clock = now ∧ ∃ replacement, work.state.checkReplacement replacement now = .ok () := by
  simp only [applyRenewal, bind_eq_ok] at h
  obtain ⟨_, -, _, -, replacement, -, _, hcheck, _, -, _, -, _, -, _, hadvance, hwork⟩ := h
  have hclock := advance_clock hadvance
  cases hwork
  exact ⟨hclock, replacement, hcheck⟩

theorem applySuccession_clock {work' : Working crypto} {packet : ControlPacket crypto} {signed : SignedOwnerSuccession crypto}
    (h : work.applySuccession mls packet signed now = .ok work') :
    work'.state.clock = now ∧ ∃ grant sequence, work.state.checkGrant grant sequence now = .ok () := by
  simp only [applySuccession, bind_eq_ok] at h
  obtain ⟨grant, -, _, -, sequence, -, _, hcheck, _, -, _, -, _, -, _, hadvance, hwork⟩ := h
  have hclock := advance_clock hadvance
  cases hwork
  exact ⟨hclock, grant, sequence, hcheck⟩

theorem applyMembership_clock {work' : Working crypto} {packet : ControlPacket crypto}
    (h : work.applyMembership mls packet now = .ok work') : work'.state.clock = now ∧ Paced work.state.clock now := by
  simp only [applyMembership, bind_eq_ok, Prod.exists] at h
  obtain ⟨_, htime, _, -, _, -, _, _, _, -, _, -, _, -, _, -, _, _, -, _, -, _, -, _, hadvance, hwork⟩ := h
  have hclock := advance_clock hadvance
  cases hwork
  exact ⟨hclock, State.checkTime_paced htime⟩

theorem prepareSend_clock {draft : MessageDraft crypto} {work' : Working crypto} {bytes : List UInt8}
    (h : work.prepareSend mls entropy draft now = .ok (work', bytes)) : work'.state.clock = now ∧ Paced work.state.clock now := by
  simp only [prepareSend, bind_eq_ok, Prod.exists] at h
  obtain ⟨_, -, _, -, _, htime, _, _, -, hwork⟩ := h
  cases hwork
  exact ⟨rfl, State.checkTime_paced htime⟩

theorem prepareReceive_clock {context : Context crypto} {raw body : List UInt8} {work' : Working crypto} {sender : Key crypto}
    (h : work.prepareReceive mls context raw now = .ok (work', sender, body)) :
    work'.state.clock = now ∧ Paced work.state.clock now := by
  simp only [prepareReceive, bind_eq_ok, Prod.exists] at h
  obtain ⟨_, -, _, htime, _, -, _, _, _, -, _, -, _, -, _, -, _, -, hwork⟩ := h
  cases hwork
  exact ⟨rfl, State.checkTime_paced htime⟩

theorem prepareAcceptance_clock {context : Context crypto} {received : ReceivedMessage crypto} {digest : Bytes32}
    {work' : Working crypto} {bytes : List UInt8}
    (h : work.prepareAcceptance mls entropy context received digest now = .ok (work', bytes)) : work'.state.clock = now := by
  simp only [prepareAcceptance, bind_eq_ok, Prod.exists] at h
  obtain ⟨_, -, _, -, _, _, -, hwork⟩ := h
  cases hwork
  rfl

theorem prepareOffer_clock {recipient : Key crypto} {validity : Validity} {work' : Working crypto} {raw : List UInt8}
    (h : work.prepareOffer mls entropy recipient validity now = .ok (work', raw)) :
    work'.state.clock = now ∧ Paced work.state.clock now := by
  simp only [prepareOffer, bind_eq_ok] at h
  obtain ⟨_, -, _, htime, _, -, _, -, _, -, hwork⟩ := h
  cases hwork
  exact ⟨rfl, State.checkTime_paced htime⟩

theorem prepareRequest_clock {context : Context crypto} {offer : Offer crypto} {work' : Working crypto} {output : List UInt8}
    (h : work.prepareRequest mls cipher entropy context offer now = .ok (work', output)) :
    work'.state.clock = now ∧ Paced work.state.clock now := by
  simp only [prepareRequest, bind_eq_ok, Prod.exists] at h
  obtain ⟨_, htime, _, -, _, -, _, -, _, _, -, _, -, hwork⟩ := h
  cases hwork
  exact ⟨rfl, State.checkTime_paced htime⟩

theorem openRequest_paced {frame : Frame} {validity : Validity} {result : Working crypto × Offer crypto × JoinRequest crypto}
    (h : work.openRequest cipher frame validity now = .ok result) : Paced work.state.clock now := by
  simp only [openRequest, bind_eq_ok] at h
  obtain ⟨_, -, _, htime, -⟩ := h
  exact State.checkTime_paced htime

end Working

/-! ### The clock an operation commits -/

/-- The committed clock after an operation at `now`: not behind the one before it, and one step ahead at most unless `narrow`. -/
structure Ticks (narrow : Prop) (now clock clock' : UInt64) : Prop where
  commits : clock' = now
  monotone : clock ≤ now
  bounded : narrow ∨ now ≤ saturatingAdd clock maxClockStepSecs

def Kernel.Clocked {α : Type} (narrow : Store crypto → State crypto → Prop) (now : UInt64) (m : KernelM crypto α) : Prop :=
  ∀ (b : Store crypto) (s : State crypto), b.image = some s → Moves Kernel.store (Commits fun s s' => Ticks (narrow b s) now s.clock s'.clock) b m

theorem Paced.ticks {narrow : Prop} {now clock clock' clock₀ : UInt64} (h : Paced clock now) (h₀ : clock₀ = now) (h' : clock' = clock₀) :
    Ticks narrow now clock clock' :=
  ⟨h'.trans h₀, h.monotone, .inr h.bounded⟩

theorem State.checkReplacement_monotone {state : State crypto} {replacement : VerifiedDeviceEnrollment crypto} {now : UInt64}
    (h : state.checkReplacement replacement now = .ok ()) : state.clock ≤ now := by
  simp only [State.checkReplacement, bind_eq_ok, require_eq_ok, decide_eq_true_eq] at h
  obtain ⟨_, hmonotone, -⟩ := h
  exact hmonotone

theorem State.checkGrant_monotone {state : State crypto} {grant : VerifiedOwnerSuccession crypto} {sequence now : UInt64}
    (h : state.checkGrant grant sequence now = .ok ()) : state.clock ≤ now := by
  simp only [State.checkGrant, bind_eq_ok, require_eq_ok, decide_eq_true_eq] at h
  obtain ⟨_, hmonotone, -⟩ := h
  exact hmonotone

theorem Working.applyPacket_clock {mls : Mls} {work work' : Working crypto} {packet : ControlPacket crypto} {now : UInt64}
    (h : work.applyPacket mls packet now = .ok work') :
    work'.state.clock = now ∧ work.state.phase = .memberJoined ∧ work.state.clock ≤ now ∧
      (now ≤ saturatingAdd work.state.clock maxClockStepSecs ∨ controlKindByte packet.control = .ok 3 ∨ controlKindByte packet.control = .ok 4) := by
  simp only [applyPacket, bind_eq_ok, require_eq_ok, beq_iff_eq] at h
  obtain ⟨_, hphase, h⟩ := h
  cases hchange : packet.control.claims.change with
  | ownerUpdate =>
    rw [hchange] at h
    obtain ⟨hclock, _, hcheck⟩ := applyRenewal_clock h
    exact ⟨hclock, hphase, State.checkReplacement_monotone hcheck, .inr (.inl (by rw [controlKindByte, hchange]))⟩
  | succession grant =>
    rw [hchange] at h
    obtain ⟨hclock, _, _, hcheck⟩ := applySuccession_clock h
    exact ⟨hclock, hphase, State.checkGrant_monotone hcheck, .inr (.inr (by rw [controlKindByte, hchange]))⟩
  | membership additions removals =>
    rw [hchange] at h
    obtain ⟨hclock, hpaced⟩ := applyMembership_clock h
    exact ⟨hclock, hphase, hpaced.monotone, .inl hpaced.bounded⟩

theorem Working.openControl_kind {mls : Mls} {cipher : Cipher} {work : Working crypto} {envelope : Envelope} {packet : ControlPacket crypto}
    (h : work.openControl mls cipher envelope = .ok packet) :
    controlKindByte packet.control = .ok envelope.kind ∧ ofRecord work.state.floor.nextSequence = .ok envelope.sequence := by
  simp only [openControl] at h
  split at h
  · simp only [Envelope.agrees, bind_eq_ok, require_eq_ok, Bool.and_eq_true, beq_iff_eq] at h
    obtain ⟨sequence, hnext, _, hsequence, _, -, _, -, _, -, packet', -, _, ⟨kind, hkind, _, -, ⟨heq, -⟩, -⟩, hpacket⟩ := h
    cases hpacket
    rw [heq, hsequence]
    exact ⟨hkind, hnext⟩
  · cases h

namespace Kernel
variable {mls : Mls} {cipher : Cipher} {entropy : Entropy} {operation : OperationId} {now : UInt64} {narrow : Store crypto → State crypto → Prop} {b : Store crypto} {s : State crypto}

theorem candidate_moves {α β : Type} {work : Working crypto} {prepare : Except Error β} {candidate : β → Working crypto}
    {release : β → KernelM crypto α} (hwork : work.state = { s with records := [] })
    (hprepare : ∀ result, prepare = .ok result → (candidate result).state.clock = now ∧ Paced work.state.clock now)
    (hrelease : ∀ result, (∀ next : State crypto, next.clock = (candidate result).state.clock → Ticks (narrow b s) now s.clock next.clock) →
      Moves store (Commits fun s s' => Ticks (narrow b s) now s.clock s'.clock) b (release result)) :
    Moves store (Commits fun s s' => Ticks (narrow b s) now s.clock s'.clock) b (lift prepare >>= release) := by
  refine Moves.bind_lift fun result hresult => hrelease result fun next hnext => ?_
  obtain ⟨hclock, hpaced⟩ := hprepare result hresult
  rw [hwork] at hpaced
  exact hpaced.ticks hclock hnext

theorem keyPackage_clocked : Clocked narrow now (@keyPackage crypto mls entropy operation now) := fun _ _ hb =>
  Moves.bind (.view _) fun _ => Moves.bind (.lift _) fun _ => moves_live hb fun _ hwork => orRetained_moves <|
    candidate_moves hwork (fun _ h => ⟨rfl, Working.makeKeyPackage_paced h⟩) fun _ h => publishSentControl_moves hb h

theorem invite_clocked {raw : List UInt8} {validity : Validity} :
    Clocked narrow now (@invite crypto mls cipher entropy operation raw validity now) := fun _ _ hb =>
  Moves.bind (.lift _) fun _ => Moves.bind (.view _) fun _ => Moves.bind (.lift _) fun _ => moves_live hb fun _ hwork => orRetained_moves <|
    candidate_moves hwork (fun _ => Working.prepareInvite_clock) fun _ h => publishSentControl_moves hb h

theorem joinPrepared_moves {work : Working crypto} {packet : InvitePacket crypto} {id : Bytes32}
    (hb : b.image = some s) (hwork : work.state = { s with records := [] }) :
    Moves store (Commits fun s s' => Ticks (narrow b s) now s.clock s'.clock) b (joinPrepared mls entropy work packet id now) :=
  Moves.bind (.view _) fun _ => candidate_moves hwork (fun _ => Working.prepareJoin_clock) fun _ h => publishControl_moves hb h

theorem join_clocked {raw : List UInt8} : Clocked narrow now (@join crypto mls entropy raw now) := by
  intro b s hb
  refine Moves.bind (.lift _) fun packet => moves_live hb fun work hwork => ?_
  exact .ite (fun _ => .of_keeps (.view _)) fun _ => .ite (fun _ => .throw _) fun _ => joinPrepared_moves hb hwork

theorem remove_clocked {target : Key crypto} : Clocked narrow now (remove mls cipher entropy operation target now) := fun _ _ hb =>
  Moves.bind (.view _) fun _ => Moves.bind (.lift _) fun _ => moves_live hb fun _ hwork => orRetained_moves <|
    candidate_moves hwork (fun _ => Working.prepareRemoval_clock) fun _ h => publishSentControl_moves hb h

theorem send_clocked {draft : MessageDraft crypto} : Clocked narrow now (send mls entropy operation draft now) := fun _ _ hb =>
  Moves.bind (.view _) fun _ => Moves.bind (.lift _) fun _ => Moves.bind (.lift _) fun _ => moves_live hb fun _ hwork => orRetained_moves <|
    candidate_moves hwork (fun _ => Working.prepareSend_clock) fun _ h => publishSentControl_moves hb h

theorem receive_clocked {raw : List UInt8} : Clocked narrow now (@receive crypto mls entropy raw now) := by
  intro b s hb
  refine Moves.bind (.lift _) fun _ => moves_live hb fun work hwork => Moves.bind (keeps_received _ _) fun found => ?_
  cases found with
  | some found => exact .pure _
  | none =>
    exact Moves.bind (.view _) fun _ => candidate_moves hwork (fun _ => Working.prepareReceive_clock) fun _ h => publishReceived_moves hb h

theorem issueAcceptance_clocked {original : List UInt8} :
    Clocked narrow now (@issueAcceptance crypto mls entropy operation original now) := by
  intro b s hb
  refine Moves.bind (.lift _) fun _ => Moves.bind (.view _) fun _ => Moves.bind (.lift _) fun _ => moves_live hb fun work hwork =>
    orRetained_moves ?_
  refine Moves.bind (.lift _) fun _ => Moves.bind_lift fun _ htime => Moves.bind (keeps_received _ _) fun _ => Moves.bind (.okOr _ _) fun _ => ?_
  exact candidate_moves hwork (fun _ h => ⟨Working.prepareAcceptance_clock h, State.checkTime_paced htime⟩) fun _ h =>
    publishSentControl_moves hb h

theorem createContactOffer_clocked {recipient : Key crypto} {validity : Validity} :
    Clocked narrow now (createContactOffer mls entropy operation recipient validity now) := by
  intro b s hb
  refine Moves.bind (.view _) fun _ => Moves.bind (.lift _) fun _ => moves_live hb fun work hwork =>
    Moves.bind (keeps_retainedOffer _ _ _) fun found => ?_
  cases found with
  | some found => exact .pure _
  | none =>
    refine candidate_moves hwork (fun _ => Working.prepareOffer_clock) fun _ hnext => Moves.bind (.lift _) fun _ => Moves.bind (.lift _) fun _ => ?_
    exact Moves.andThen (publish_moves hb fun next h => hnext next h) fun _ => (keeps_retainedOffer _ _ _).bind fun _ =>
      (Keeps.okOr _ _).bind fun _ => (keeps_setReopen false).bind fun _ => .pure _

theorem contactRequest_clocked {raw : List UInt8} :
    Clocked narrow now (@contactRequest crypto mls cipher entropy operation raw now) := fun _ _ hb =>
  Moves.bind (.lift _) fun _ => Moves.bind (.view _) fun _ => Moves.bind (.lift _) fun _ => moves_live hb fun _ hwork => orRetained_moves <|
    candidate_moves hwork (fun _ => Working.prepareRequest_clock) fun _ h => publishSentControl_moves hb h

theorem acceptContact_clocked {raw : List UInt8} {validity : Validity} :
    Clocked narrow now (@acceptContact crypto mls cipher entropy operation raw validity now) := by
  intro b s hb
  refine Moves.bind (.lift _) fun _ => Moves.bind (.lift _) fun _ => Moves.bind (.view _) fun _ => Moves.bind (.lift _) fun _ =>
    moves_live hb fun work hwork => orRetained_moves ?_
  refine Moves.bind_lift fun opened hopened => ?_
  exact candidate_moves hwork (fun _ h => ⟨(Working.prepareInvite_clock h).1, Working.openRequest_paced hopened⟩) fun _ h =>
    publishSentControl_moves hb h

theorem joinContact_clocked {raw : List UInt8} : Clocked narrow now (@joinContact crypto mls cipher entropy raw now) := by
  intro b s hb
  refine Moves.bind (.lift _) fun _ => Moves.bind (.lift _) fun _ => moves_live hb fun work hwork => ?_
  exact .ite (fun _ => .of_keeps (.view _)) fun _ => Moves.bind (.lift _) fun _ => joinPrepared_moves hb hwork

/-! ### Operations with a time check of their own -/

def Renewing (enrollment : SignedDeviceEnrollment crypto) (now : UInt64) (s : State crypto) : Prop :=
  s.ownerRole = true ∧ ∃ replacement, ofRecord enrollment.verify = .ok replacement ∧ s.checkReplacement replacement now = .ok ()

/-- A handoff that the owner's own check lets through. -/
def Succeeding (grant : SignedOwnerSuccession crypto) (now : UInt64) (s : State crypto) : Prop :=
  s.ownerRole = true ∧ ∃ verified sequence, ofRecord grant.verify = .ok verified ∧ ofRecord s.floor.nextSequence = .ok sequence ∧
    s.checkGrant verified sequence now = .ok ()

def ApplyingHandoff (raw : List UInt8) (s : State crypto) : Prop :=
  s.phase = .memberJoined ∧ ∃ envelope, Envelope.decode raw = .ok envelope ∧ (envelope.kind = 3 ∨ envelope.kind = 4) ∧
    ofRecord s.floor.nextSequence = .ok envelope.sequence

def Accepts (b : Store crypto) (s : State crypto) (sequence : UInt64) (accepted : ControlFloor) : Prop :=
  if sequence = s.base.sequence then accepted = s.base
  else ∃ (raw : List UInt8) (retained : RetainedControl crypto),
    b.records (.control sequence) = some raw ∧ RetainedControl.decode raw = .ok retained ∧ retained.floor = .ok accepted

def Conflicting (raw : List UInt8) (b : Store crypto) (s : State crypto) : Prop :=
  ∃ (control : VerifiedOwnerControl crypto) (sequence : UInt64) (accepted : ControlFloor),
    ofRecord (Verified.decode raw) = .ok control ∧ ofRecord control.claims.sequence = .ok sequence ∧
      control.claims.ownerDevice = s.ownerDeviceAt sequence ∧ s.base.sequence ≤ sequence ∧ sequence ≤ s.floor.sequence ∧
      Accepts b s sequence accepted ∧ accepted.id ≠ some control.controlId

theorem renewOwner_clocked {enrollment : SignedDeviceEnrollment crypto} :
    Clocked (fun _ => Renewing enrollment now) now (renewOwner mls cipher entropy operation enrollment now) := by
  intro b s hb
  refine Moves.bind_lift fun replacement hreplacement => Moves.bind (.view _) fun _ => Moves.bind (.lift _) fun _ =>
    moves_live hb fun work hwork => orRetained_moves ?_
  refine Moves.bind_lift fun prepared hprepared => publishSentControl_moves hb fun next hnext => ?_
  obtain ⟨hclock, hrole, hcheck⟩ := Working.prepareRenewal_clock hprepared
  rw [hwork] at hrole hcheck
  exact ⟨hnext.trans hclock, State.checkReplacement_monotone hcheck, .inl ⟨hrole, replacement, hreplacement, hcheck⟩⟩

theorem succeed_clocked {grant : SignedOwnerSuccession crypto} :
    Clocked (fun _ => Succeeding grant now) now (succeed mls cipher entropy operation grant now) := by
  intro b s hb
  refine Moves.bind_lift fun verified hverified => Moves.bind (.view _) fun _ => Moves.bind (.lift _) fun _ =>
    moves_live hb fun work hwork => orRetained_moves ?_
  refine Moves.bind_lift fun prepared hprepared => publishSentControl_moves hb fun next hnext => ?_
  obtain ⟨hclock, hrole, sequence, hsequence, hcheck⟩ := Working.prepareSuccession_clock hprepared
  rw [hwork] at hrole hsequence hcheck
  exact ⟨hnext.trans hclock, State.checkGrant_monotone hcheck, .inl ⟨hrole, verified, sequence, hverified, hsequence, hcheck⟩⟩

theorem applyEnvelope_clocked {raw : List UInt8} {removalOnly : Bool} :
    Clocked (fun _ s => removalOnly = false ∧ ApplyingHandoff raw s) now
      (@applyEnvelope crypto mls cipher entropy raw now removalOnly) := by
  intro b s hb
  refine Moves.bind_lift fun envelope henvelope => Moves.bind_lift fun _ hremoval => moves_live hb fun work hwork =>
    Moves.bind (.lift _) fun _ => .ite (fun _ => ?_) fun _ => ?_
  · exact .of_keeps ((Keeps.lift _).bind fun _ => (keeps_controlAt _).bind fun _ => (Keeps.lift _).bind fun _ => .view _)
  · refine Moves.bind (.lift _) fun _ => Moves.bind (.lift _) fun _ => Moves.bind (.lift _) fun _ => ?_
    refine Moves.bind_lift fun packet hpacket => Moves.bind_lift fun work' hwork' => publishControl_moves hb fun next hnext => ?_
    obtain ⟨hclock, hphase, hmonotone, hbounded⟩ := Working.applyPacket_clock hwork'
    obtain ⟨hopened, hsequence⟩ := Working.openControl_kind hpacket
    rw [hopened] at hbounded
    rw [hwork] at hphase hmonotone hbounded hsequence
    refine ⟨hnext.trans hclock, hmonotone, ?_⟩
    rcases hbounded with hbounded | hkind
    · exact .inr hbounded
    · have hkind : envelope.kind = 3 ∨ envelope.kind = 4 := by simpa using hkind
      refine .inl ⟨?_, hphase, envelope, henvelope, hkind, hsequence⟩
      rw [require_eq_ok] at hremoval
      rcases hkind with hkind | hkind <;> simpa [hkind] using hremoval

theorem keeps_acceptedFloor (state : State crypto) (sequence : UInt64) : Keeps store (acceptedFloor state sequence) :=
  .ite (.pure _) ((keeps_controlAt _).bind fun _ => .lift _)

theorem acceptedFloor_eq_ok {k k' : Kernel crypto} {state : State crypto} {sequence : UInt64} {accepted : ControlFloor}
    (h : exec (acceptedFloor state sequence) k = (.ok accepted, k')) : Accepts k.store state sequence accepted := by
  unfold acceptedFloor at h
  unfold Accepts
  split at h
  · rename_i heq
    rw [if_pos heq]
    cases h
    rfl
  · rename_i hne
    rw [if_neg hne]
    obtain ⟨retained, k₁, hretained, hfloor⟩ := exec_bind_eq_ok.1 h
    obtain ⟨raw, hraw, hdecode⟩ := controlAt_eq_ok hretained
    exact ⟨raw, retained, hraw, hdecode, (Prod.mk.inj hfloor).1⟩

theorem reconcileControl_moves {work : Working crypto} {control : VerifiedOwnerControl crypto} {raw : List UInt8}
    (hb : b.image = some s) (hraw : ofRecord (Verified.decode raw) = .ok control) (hwork : work.state = { s with records := [] }) :
    Moves store (Commits fun s s' => Ticks (Conflicting raw b s) now s.clock s'.clock) b (reconcileControl mls entropy work control now) := by
  unfold reconcileControl
  refine Moves.bind (.view _) fun context => Moves.bind_lift fun sequence hsequence => Moves.bind_lift fun _ howner =>
    Moves.bind_lift fun _ hmonotone => .ite (fun _ => .pure _) fun hknown => Moves.bind_lift fun _ hbase => ?_
  refine Moves.bind_read (keeps_acceptedFloor _ _) (fun k accepted k' hk hexec => hk ▸ acceptedFloor_eq_ok hexec) fun accepted haccepted => ?_
  refine .ite (fun _ => .pure _) fun hother => Moves.bind (keeps_acceptedProof _ _) fun proof => ?_
  refine Moves.bind (.update fun _ => rfl) fun _ => Moves.andThen (publish_moves hb fun next hnext => ?_) fun _ =>
    Keeps.bind (.update fun _ => rfl) fun _ => .throw _
  simp only [require_eq_ok, decide_eq_true_eq, beq_iff_eq, hwork] at howner hmonotone hbase hknown haccepted
  have hsequence : ofRecord control.claims.sequence = .ok sequence := by
    split at hsequence
    · exact hsequence
    · cases hsequence
  exact ⟨hnext, hmonotone, .inl ⟨control, sequence, accepted, hraw, hsequence, howner, hbase, UInt64.not_lt.1 hknown, haccepted, hother⟩⟩

theorem observeOwnerControl_clocked {raw : List UInt8} :
    Clocked (Conflicting raw) now (@observeOwnerControl crypto mls entropy raw now) := by
  intro b s hb
  refine Moves.bind_lift fun control hcontrol => moves_live hb fun work hwork => ?_
  refine (reconcileControl_moves hb hcontrol hwork).andThen fun reconciled => ?_
  cases reconciled with
  | none => exact .view _
  | some _ => exact .throw _

end Kernel

end Valhalla.PrivateKernel
