import Valhalla.PrivateKernel.Membership

/-!
# Owner renewal and owner handoff (`engine/renewal.rs`, `engine/succession.rs`)

The account renews the owner's own credential or hands the room to another enrolled device. Both have time checks of their own,
because the owner's enrollment may have expired.
-/

namespace Valhalla.PrivateKernel
open Fallible FixedWidth Check

variable {crypto : Hashing}

/-- `check_replacement`. -/
def State.checkReplacement (state : State crypto) (replacement : VerifiedDeviceEnrollment crypto) (now : UInt64) : Except Error Unit := do
  let old := state.owner.claims
  let next := replacement.claims
  require .time (decide (state.clock ≤ now))
  require .scope (next.account == old.account && next.device == old.device && next.account == state.anchor.claims.ownerAccount)
  ofRecord (next.validity.checkAt now)
  require .time (decide (old.validity.notBefore ≤ next.validity.notBefore) && decide (old.validity.expiresAt < next.validity.expiresAt))

/-- `replace_owner`. -/
def State.replaceOwner (state : State crypto) (replacement : VerifiedDeviceEnrollment crypto) : Except Error (State crypto) := do
  let index ← Check.okOr .policy (state.roster.findIdx? (·.device == state.owner.device))
  .ok { state with
    localDevice := if state.ownerRole then replacement else state.localDevice
    roster := state.roster.set index replacement
    owner := replacement
    offers := [] }

/-- `check_grant`. -/
def State.checkGrant (state : State crypto) (grant : VerifiedOwnerSuccession crypto) (sequence now : UInt64) : Except Error Unit := do
  let claims := grant.claims
  require .time (decide (state.clock ≤ now))
  require .scope (claims.scope == state.anchor.scope && claims.account == state.anchor.claims.ownerAccount &&
    claims.account == state.owner.claims.account && claims.predecessor == state.owner.device && claims.sequence == sequence)
  ofRecord (claims.validity.checkAt now)
  ofRecord (claims.successor.claims.validity.checkAt now)
  require .bounds (decide (state.successions.length < maxSuccessions))
  require .policy (state.roster.any (·.signed == claims.successor))

/-- `promote`. -/
def State.promote (state : State crypto) (control : VerifiedOwnerControl crypto) : Except Error (State crypto) := do
  let grant ← ofRecord (OwnerSuccessionProof.fromControl control.signed)
  let successor ← Check.okOr .policy (state.roster.find? (·.signed == grant.claims.successor))
  require .bounds (decide (state.successions.length < maxSuccessions))
  .ok { state with successions := state.successions ++ [grant], owner := successor, offers := [] }

namespace Working
variable (mls : Mls) (cipher : Cipher) (entropy : Entropy)

/-- A commit of the owner alone: a new path and nothing else. -/
def updateSelf (work : Working crypto) (leaf : Option Leaf) (replacement : VerifiedDeviceEnrollment crypto) :
    Except Error (List UInt8 × mls.Group × Provider) := do
  let group ← work.group mls
  require .policy (!(mls.view group).pendingProposals && (mls.view group).pendingCommit.isNone)
  let signer ← work.signer mls
  let (commit, welcomes, group, provider) ← Check.okOr .mls
    (mls.selfUpdate entropy group work.provider signer (appAad work.state.anchor.scope) leaf)
  require .policy !welcomes
  let stage ← Check.okOr .mls (mls.view group).pendingCommit
  checkStage stage work replacement
  let commit ← wire commit
  .ok (commit, group, provider)

/-- The candidate of `renew_owner`. -/
def prepareRenewal (work : Working crypto) (replacement : VerifiedDeviceEnrollment crypto) (now : UInt64) : Except Error (Prepared crypto) := do
  require .policy work.state.ownerRole
  work.state.checkReplacement replacement now
  let (commit, group, provider) ← work.updateSelf mls entropy (some (enrollmentLeaf replacement work.state.owner.device)) replacement
  let work : Working crypto := ⟨work.state, provider⟩
  let control ← work.control mls commit .ownerUpdate
  let output ← work.sealControl mls cipher group (entropy.random 9 24) ⟨control, commit, none, some replacement⟩
  let provider ← Check.okOr .mls (mls.mergePending group work.provider)
  let state ← work.state.replaceOwner replacement
  let work ← advance ⟨state, provider⟩ control now
  .ok ⟨⟨work.state.setMembershipPhase, work.provider⟩, .ownerUpdate, output, control, output⟩

def processOwner (work : Working crypto) (packet : ControlPacket crypto) (replacement : VerifiedDeviceEnrollment crypto) :
    Except Error Provider := do
  let group ← work.group mls
  let (processed, group, provider) ← work.process mls group packet.commit
  let staged ← stagedCommit mls processed.content
  work.ownerSender (mls.view group).members processed.sender processed.credential
  checkStage (mls.stage staged) work replacement
  Check.okOr .mls (mls.mergeStaged group provider staged)

/-- `apply_owner_renewal`, up to its publication. -/
def applyRenewal (work : Working crypto) (packet : ControlPacket crypto) (now : UInt64) : Except Error (Working crypto) := do
  require .policy (packet.control.claims.change == .ownerUpdate)
  work.checkControl mls packet.control packet.commit
  let replacement ← Check.okOr .policy packet.enrollment
  work.state.checkReplacement replacement now
  ofRecord (work.state.localDevice.claims.validity.checkAt now)
  let provider ← work.processOwner mls packet replacement
  let state ← work.state.replaceOwner replacement
  let work ← advance ⟨state, provider⟩ packet.control now
  .ok ⟨work.state.setMembershipPhase, work.provider⟩

/-- The candidate of `succeed`. -/
def prepareSuccession (work : Working crypto) (grant : VerifiedOwnerSuccession crypto) (now : UInt64) : Except Error (Prepared crypto) := do
  require .policy work.state.ownerRole
  let sequence ← ofRecord work.state.floor.nextSequence
  work.state.checkGrant grant sequence now
  let (commit, group, provider) ← work.updateSelf mls entropy none work.state.owner
  let work : Working crypto := ⟨work.state, provider⟩
  let control ← work.control mls commit (.succession grant.signed)
  let output ← work.sealControl mls cipher group (entropy.random 9 24) ⟨control, commit, none, none⟩
  let provider ← Check.okOr .mls (mls.mergePending group work.provider)
  let state ← work.state.promote control
  let work ← advance ⟨state, provider⟩ control now
  .ok ⟨⟨work.state.setMembershipPhase, work.provider⟩, .succession, output, control, output⟩

/-- `apply_succession`, up to its publication. -/
def applySuccession (work : Working crypto) (packet : ControlPacket crypto) (grant : SignedOwnerSuccession crypto) (now : UInt64) :
    Except Error (Working crypto) := do
  let grant ← ofRecord grant.verify
  work.checkControl mls packet.control packet.commit
  let sequence ← ofRecord packet.control.claims.sequence
  work.state.checkGrant grant sequence now
  ofRecord (work.state.localDevice.claims.validity.checkAt now)
  let provider ← work.processOwner mls packet work.state.owner
  let state ← work.state.promote packet.control
  let work ← advance ⟨state, provider⟩ packet.control now
  .ok ⟨work.state.setMembershipPhase, work.provider⟩

/-- `apply_control_packet`, up to its publication. -/
def applyPacket (work : Working crypto) (packet : ControlPacket crypto) (now : UInt64) : Except Error (Working crypto) := do
  require .policy (work.state.phase == .memberJoined)
  match packet.control.claims.change with
  | .ownerUpdate => work.applyRenewal mls packet now
  | .succession grant => work.applySuccession mls packet grant now
  | .membership .. => work.applyMembership mls packet now

end Working

/-! ### Operations -/

/-- `encrypted_base`. -/
def State.encryptedBase (state : State crypto) : ControlFloor := state.checkpoint.elim state.base (·.claims.accepted)

namespace Kernel
variable (mls : Mls) (cipher : Cipher) (entropy : Entropy)

def renewOwner (operation : OperationId) (enrollment : SignedDeviceEnrollment crypto) (now : UInt64) : KernelM crypto CommittedOutbox := do
  let replacement ← lift (ofRecord enrollment.verify)
  let context ← view Kernel.context
  let request ← lift (request context .ownerUpdate [enrollment.encode])
  let work ← beginLive mls
  orRetained operation request .ownerUpdate work.state.outbox do
    let prepared ← lift (work.prepareRenewal mls cipher entropy replacement now)
    publishPrepared mls entropy operation request prepared

def succeed (operation : OperationId) (grant : SignedOwnerSuccession crypto) (now : UInt64) : KernelM crypto CommittedOutbox := do
  let grant ← lift (ofRecord grant.verify)
  let context ← view Kernel.context
  let request ← lift (request context .succession [grant.encode])
  let work ← beginLive mls
  orRetained operation request .succession work.state.outbox do
    let prepared ← lift (work.prepareSuccession mls cipher entropy grant now)
    publishPrepared mls entropy operation request prepared

/-- `apply_envelope`. -/
def applyEnvelope (raw : List UInt8) (now : UInt64) (removalOnly : Bool) : KernelM crypto (Status crypto) := do
  let envelope ← lift (Envelope.decode raw)
  lift (require .policy (!removalOnly || envelope.kind == 2))
  let work ← beginLive mls
  lift (require .clockRegressed (decide (work.state.clock ≤ now)))
  if envelope.sequence ≤ work.state.floor.sequence then do
    lift (require .missing (decide (work.state.encryptedBase.sequence < envelope.sequence)))
    let retained ← controlAt envelope.sequence
    lift (require .conflict (retained.envelope == some raw))
    view Kernel.status
  else do
    lift (require .policy (work.state.phase == .memberJoined))
    let next ← lift (ofRecord work.state.floor.nextSequence)
    lift (require .controlGap (decide (envelope.sequence ≤ next)))
    let packet ← lift (work.openControl mls cipher envelope)
    let work ← lift (work.applyPacket mls packet now)
    publishControl mls entropy work packet.control (some raw)

def applyControl (raw : List UInt8) (now : UInt64) : KernelM crypto (Status crypto) := applyEnvelope mls cipher entropy raw now false

def applyRemoval (raw : List UInt8) (now : UInt64) : KernelM crypto (Status crypto) := applyEnvelope mls cipher entropy raw now true

/-! ### Conflicting controls (`engine/controls.rs`) -/

def acceptedProof (state : State crypto) (floor : ControlFloor) : KernelM crypto (List UInt8 × Bool) :=
  if floor = state.base then do
    let checkpoint ← Fallible.okOr .missing state.checkpoint
    lift (require .policy (floor.sequence != 0 && checkpoint.claims.parent == floor))
    let raw ← lift checkpoint.encode
    pure (raw, true)
  else do
    let packet ← controlAt floor.sequence
    let own ← lift packet.floor
    lift (require .policy (own == floor && packet.control.claims.ownerDevice == state.ownerDeviceAt floor.sequence))
    pure (packet.control.encode, false)

def acceptedFloor (state : State crypto) (sequence : UInt64) : KernelM crypto ControlFloor :=
  if sequence = state.base.sequence then pure state.base
  else do
    let retained ← controlAt sequence
    lift retained.floor

/-- `reconcile_control`: a known control is kept, a conflicting one of the owner quarantines the room. -/
def reconcileControl (work : Working crypto) (control : VerifiedOwnerControl crypto) (now : UInt64) : KernelM crypto (Option (Working crypto)) := do
  let context ← view Kernel.context
  let sequence ← lift (if control.claims.scope = context.scope then ofRecord control.claims.sequence else .error .policy)
  lift (require .policy (control.claims.ownerDevice == work.state.ownerDeviceAt sequence))
  lift (require .clockRegressed (decide (work.state.clock ≤ now)))
  if work.state.floor.sequence < sequence then pure (some work)
  else do
    lift (require .missing (decide (work.state.base.sequence ≤ sequence)))
    let accepted ← acceptedFloor work.state sequence
    if accepted.id = some control.controlId then pure none
    else do
      let (proof, fromCheckpoint) ← acceptedProof work.state accepted
      update fun k => { k with pendingFault := some ⟨accepted, control.signed, proof, fromCheckpoint⟩ }
      publish mls entropy ⟨{ work.state with fault := some ⟨accepted, control⟩, clock := now }, work.provider⟩ []
      update fun k => { k with pendingFault := none, needsReopen := false }
      throw .quarantined

def observeOwnerControl (raw : List UInt8) (now : UInt64) : KernelM crypto (Status crypto) := do
  let control ← lift (ofRecord (Verified.decode raw))
  let work ← beginLive mls
  let reconciled ← reconcileControl mls entropy work control now
  match reconciled with
  | none => view Kernel.status
  | some _ => throw .missing

end Kernel

end Valhalla.PrivateKernel
