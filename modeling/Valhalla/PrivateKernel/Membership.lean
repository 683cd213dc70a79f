import Valhalla.PrivateKernel.Kernel

/-!
# Joining and leaving (`engine/membership.rs`)

One function for each candidate, from the working state it starts from, and the operation that publishes it.
-/

namespace Valhalla.PrivateKernel
open Fallible FixedWidth Check

variable {crypto : Hashing}

def Working.setClock (work : Working crypto) (now : UInt64) : Working crypto := ⟨{ work.state with clock := now }, work.provider⟩

def sortRoster (roster : List (VerifiedDeviceEnrollment crypto)) : List (VerifiedDeviceEnrollment crypto) :=
  Ascending.sorted (fun a b => compare a.device.bytes b.device.bytes) roster

/-- The owner's answer to a join request, with the offer that the request came under and the hash of the request. -/
structure InvitePreparation (crypto : Hashing) where
  operation : OperationId
  request : Bytes32
  join : JoinRequest crypto
  validity : Validity
  now : UInt64
  response : Option (Offer crypto × Bytes32)

def InvitePreparation.release (p : InvitePreparation crypto) (cipher : Cipher) (entropy : Entropy) (output : List UInt8) :
    Except Error (OutboxKind × List UInt8) :=
  match p.response with
  | none => .ok (.invitation, output)
  | some (offer, requestHash) => do
    let output ← offer.sealFrame cipher (entropy.random 10 24) (some requestHash) output
    .ok (.contactInvitation, output)

/-- A candidate with the artifact it releases and the control it carries. -/
structure Prepared (crypto : Hashing) where
  work : Working crypto
  kind : OutboxKind
  output : List UInt8
  control : VerifiedOwnerControl crypto
  envelope : List UInt8

namespace Working
variable (mls : Mls) (cipher : Cipher) (entropy : Entropy)

/-- `make_key_package`. -/
def makeKeyPackage (work : Working crypto) (now : UInt64) : Except Error (Working crypto × List UInt8) := do
  require .policy (work.state.phase == .awaitingWelcome && work.state.keyPackage.isNone)
  work.state.checkTime now
  require .time (mls.acceptableLifetime work.state.localDevice.claims.validity)
  let signer ← work.signer mls
  let (package, provider) ← Check.okOr .mls
    (mls.keyPackage entropy work.provider signer (enrollmentLeaf work.state.localDevice work.state.localDevice.device)
      work.state.localDevice.claims.validity)
  let package ← wire package
  let digest ← ofRecord (Identifier.ofBytes crypto .keyPackage package)
  let output ← JoinRequest.encode ⟨work.state.anchor.scope, work.state.localDevice, package⟩
  .ok (⟨{ work.state with keyPackage := some digest }, provider⟩, output)

def openPackage (join : JoinRequest crypto) (now : UInt64) : Except Error (mls.Package × KeyPackageDigest) := do
  let package ← Check.okOr .encoding (mls.packageIn join.package)
  let package ← Check.okOr .mls package
  let view := mls.package package
  require .policy view.suite
  checkLeaf view.leaf join.enrollment
  require .time (view.validAt now)
  require .time view.acceptable
  let digest ← ofRecord (Identifier.ofBytes crypto .keyPackage join.package)
  .ok (package, digest)

def signInvitation (work : Working crypto) (join : JoinRequest crypto) (keyPackage : KeyPackageDigest) (validity : Validity) :
    Except Error (VerifiedInvitation crypto) := do
  let nonce ← entropy.random 8 32
  let nonce ← ofRecord (Identifier.fromBytes nonce)
  let claims : InvitationClaims crypto :=
    ⟨work.state.anchor.scope, work.state.localDevice.device, join.enrollment.claims.account, join.enrollment.device, keyPackage, nonce,
      validity, work.state.floor⟩
  ofRecord ((invitationKind crypto).validate claims)
  let signature ← work.signature mls ((invitationKind crypto).signingBytes claims)
  ofRecord (Verified.attach claims signature)

def signCheckpoint (work : Working crypto) (invitation : VerifiedInvitation crypto) (control : VerifiedOwnerControl crypto)
    (welcome : WelcomeDigest) (groupContext : Bytes32) (roster : List (VerifiedDeviceEnrollment crypto)) :
    Except Error (Checkpoint crypto) := do
  let accepted ← control.floor
  let claims : CheckpointClaims crypto :=
    ⟨work.state.anchor.scope, work.state.localDevice.device, invitation.invitationId, work.state.floor, accepted,
      control.claims.nextEpoch, control.claims.commit, welcome, groupContext, roster⟩
  let message ← claims.signingBytes
  let signature ← work.signature mls message
  Checkpoint.attach claims signature

def checkInvite (work : Working crypto) (join : JoinRequest crypto) (validity : Validity) (now : UInt64) : Except Error Unit := do
  require .policy work.state.ownerRole
  require .bounds (decide (work.state.roster.length < maxMembers))
  work.state.checkTime now
  ofRecord (validity.checkAt now)
  ofRecord (join.enrollment.claims.validity.checkAt now)
  require .scope (join.scope == work.state.anchor.scope && !work.state.roster.any (·.device == join.enrollment.device))

/-- `invite_prepared`. -/
def prepareInvite (work : Working crypto) (p : InvitePreparation crypto) : Except Error (Prepared crypto) := do
  work.checkInvite p.join p.validity p.now
  let (package, keyPackage) ← openPackage mls p.join p.now
  let invitation ← work.signInvitation mls entropy p.join keyPackage p.validity
  let group ← work.group mls
  let signer ← work.signer mls
  let (commit, welcome, group, provider) ← Check.okOr .mls
    (mls.addMember entropy group work.provider signer (appAad work.state.anchor.scope) package)
  let work : Working crypto := ⟨work.state, provider⟩
  let stage ← Check.okOr .mls (mls.view group).pendingCommit
  checkAdd stage work p.join.enrollment keyPackage
  let groupContext ← groupContextHash crypto stage.context
  let commit ← wire commit
  let welcome ← wire welcome
  let digest ← ofRecord (Identifier.ofBytes crypto .welcome welcome)
  let control ← work.control mls commit (.membership
    [⟨invitation.invitationId, p.join.enrollment.claims.account, p.join.enrollment.device, keyPackage, digest⟩] [])
  let roster := sortRoster (work.state.roster ++ [p.join.enrollment])
  let checkpoint ← work.signCheckpoint mls invitation control digest groupContext roster
  let envelope ← work.sealControl mls cipher group (entropy.random 9 24) ⟨control, commit, some invitation, some p.join.enrollment⟩
  let provider ← Check.okOr .mls (mls.mergePending group work.provider)
  let output ← InvitePacket.encode
    ⟨invitation, control, work.state.owner, work.state.successions, p.join.enrollment, commit, welcome, checkpoint⟩
  let (kind, output) ← p.release cipher entropy output
  let work ← advance ⟨{ work.state with roster }, provider⟩ control p.now
  .ok ⟨⟨work.state.setMembershipPhase, work.provider⟩, kind, output, control, envelope⟩

def checkAdmission (work : Working crypto) (context : Context crypto) (packet : InvitePacket crypto) (now : UInt64) : Except Error Unit := do
  require .policy (work.state.phase == .awaitingWelcome)
  work.state.checkTime now
  require .scope (packet.owner.signed == work.state.owner.signed && packet.member.signed == work.state.localDevice.signed &&
    packet.successions == work.state.successions)
  let invite := packet.invitation.claims
  ofRecord (invite.validity.checkAt now)
  require .policy (invite.scope == context.scope && invite.ownerDevice == work.state.owner.device &&
    invite.recipientAccount == context.account && invite.recipientDevice == context.device &&
    some invite.keyPackage == work.state.keyPackage)
  checkControlHeader mls context.scope packet.control packet.commit

def checkJoin (work : Working crypto) (context : Context crypto) (packet : InvitePacket crypto) : Except Error Unit := do
  let invite := packet.invitation.claims
  let transition := packet.control.claims
  let checkpoint := packet.checkpoint.claims
  let floor ← packet.control.floor
  let welcome ← ofRecord (Identifier.ofBytes crypto .welcome packet.welcome)
  let later := match transition.sequence with
    | .ok sequence => packet.successions.getLast?.any fun grant => decide (sequence ≤ grant.claims.sequence)
    | .error _ => true
  require .policy (transition.ownerDevice == work.state.owner.device && transition.parent == invite.floor &&
    checkpoint.scope == context.scope && checkpoint.owner == work.state.owner.device &&
    checkpoint.invitation == packet.invitation.invitationId && checkpoint.parent == invite.floor && checkpoint.accepted == floor &&
    checkpoint.epoch == transition.nextEpoch && checkpoint.commit == transition.commit && checkpoint.welcome == welcome &&
    checkpoint.roster.any (·.signed == work.state.owner.signed) &&
    checkpoint.roster.any (·.signed == work.state.localDevice.signed) && !later)
  require .policy (transition.change == .membership
    [⟨packet.invitation.invitationId, context.account, context.device, invite.keyPackage, checkpoint.welcome⟩] [])

def checkWelcome (work : Working crypto) (context : Context crypto) (packet : InvitePacket crypto) (view : WelcomeView) :
    Except Error Unit := do
  let checkpoint := packet.checkpoint.claims
  let groupContext ← groupContextHash crypto view.context
  require .scope (view.groupId == context.scope.room.bytes.toList && view.suite && view.epoch == packet.control.claims.nextEpoch &&
    groupContext == checkpoint.groupContext)
  let owner ← Check.okOr .mls view.sender
  checkLeaf owner work.state.owner
  let own ← Check.okOr .policy view.ownLeaf
  checkLeaf own work.state.localDevice
  checkMembers view.members checkpoint.roster

/-- `prepare_join`. -/
def prepareJoin (work : Working crypto) (context : Context crypto) (packet : InvitePacket crypto) (id : Bytes32) (now : UInt64) :
    Except Error (Working crypto) := do
  work.checkAdmission mls context packet now
  ControlPacket.validate ⟨packet.control, packet.commit, some packet.invitation, some packet.member⟩
  work.checkJoin context packet
  let staged ← Check.okOr .encoding (mls.stageWelcome work.provider packet.welcome)
  let staged ← Check.okOr .mls staged
  work.checkWelcome context packet (mls.welcome staged)
  let provider ← Check.okOr .mls (mls.joinGroup work.provider staged)
  let state := { work.state with
    roster := packet.checkpoint.claims.roster, base := packet.checkpoint.claims.parent, checkpoint := some packet.checkpoint,
    phase := .memberJoined, joined := some id, contact := none }
  advance ⟨state, provider⟩ packet.control now

def prepareRemoval (work : Working crypto) (target : Key crypto) (now : UInt64) : Except Error (Prepared crypto) := do
  require .policy (work.state.ownerRole && target != work.state.localDevice.device && work.state.roster.any (·.device == target))
  work.state.checkTime now
  let group ← work.group mls
  let member ← Check.okOr .policy ((mls.view group).members.find? (·.leaf.signatureKey == target.bytes.toList))
  let signer ← work.signer mls
  let (commit, group, provider) ← Check.okOr .mls
    (mls.removeMember entropy group work.provider signer (appAad work.state.anchor.scope) member.index)
  let work : Working crypto := ⟨work.state, provider⟩
  let stage ← Check.okOr .mls (mls.view group).pendingCommit
  checkRemove stage work (mls.view group).members target
  let commit ← wire commit
  let control ← work.control mls commit (.membership [] [target])
  let output ← work.sealControl mls cipher group (entropy.random 9 24) ⟨control, commit, none, none⟩
  let provider ← Check.okOr .mls (mls.mergePending group work.provider)
  let work ← advance ⟨{ work.state with roster := work.state.roster.filter (·.device != target) }, provider⟩ control now
  .ok ⟨⟨work.state.setMembershipPhase, work.provider⟩, .removal, output, control, output⟩

def changedRoster (work : Working crypto) (group : mls.Group) (stage : Stage) (enrollment : Option (VerifiedDeviceEnrollment crypto))
    (now : UInt64) : ControlChange crypto → Except Error (List (VerifiedDeviceEnrollment crypto) × Bool)
  | .membership [addition] [] => do
    require .bounds (decide (work.state.roster.length < maxMembers))
    let member ← Check.okOr .policy enrollment
    require .policy !(work.state.roster.any (·.device == member.device))
    ofRecord (member.claims.validity.checkAt now)
    checkAdd stage work member addition.keyPackage
    .ok (sortRoster (work.state.roster ++ [member]), false)
  | .membership [] [target] => do
    require .policy (target != work.state.owner.device)
    checkRemove stage work (mls.view group).members target
    let roster := work.state.roster.filter (·.device != target)
    require .policy (roster.length + 1 == work.state.roster.length)
    .ok (roster, target == work.state.localDevice.device)
  | _ => .error .unsupported

def stagedCommit (content : Content mls.Staged) : Except Error mls.Staged :=
  match content with
  | .commit staged => .ok staged
  | _ => .error .policy

/-- The membership changes of `apply_control_packet`. -/
def applyMembership (work : Working crypto) (packet : ControlPacket crypto) (now : UInt64) : Except Error (Working crypto) := do
  work.state.checkTime now
  work.checkControl mls packet.control packet.commit
  let group ← work.group mls
  let (processed, group, provider) ← work.process mls group packet.commit
  let work : Working crypto := ⟨work.state, provider⟩
  let staged ← stagedCommit mls processed.content
  let sender ← work.memberSender (mls.view group).members processed.sender processed.credential now
  require .policy (sender == work.state.owner.device)
  let stage := mls.stage staged
  let (roster, removed) ← work.changedRoster mls group stage packet.enrollment now packet.control.claims.change
  require .policy (stage.selfRemoved == removed)
  let provider ← Check.okOr .mls (mls.mergeStaged group work.provider staged)
  let work ← advance ⟨{ work.state with roster }, provider⟩ packet.control now
  .ok ⟨work.state.setMembershipPhase, work.provider⟩

end Working

/-! ### Operations -/

namespace Kernel
variable (mls : Mls) (cipher : Cipher) (entropy : Entropy)

def orRetained (operation : OperationId) (request : Bytes32) (kind : OutboxKind) (head : UInt64)
    (fresh : KernelM crypto CommittedOutbox) : KernelM crypto CommittedOutbox := do
  let found ← retained operation request kind head
  match found with
  | some found => pure found
  | none => fresh

def publishPrepared (operation : OperationId) (request : Bytes32) (prepared : Prepared crypto) : KernelM crypto CommittedOutbox :=
  publishSentControl mls entropy prepared.work operation request prepared.kind prepared.output (some (prepared.control, prepared.envelope))

def keyPackage (operation : OperationId) (now : UInt64) : KernelM crypto CommittedOutbox := do
  let context ← view Kernel.context
  let request ← lift (request context .keyPackage [])
  let work ← beginLive mls
  orRetained operation request .keyPackage work.state.outbox do
    let (work, output) ← lift (work.makeKeyPackage mls entropy now)
    publishSent mls entropy (work.setClock now) operation request .keyPackage output

def invite (operation : OperationId) (rawRequest : List UInt8) (validity : Validity) (now : UInt64) : KernelM crypto CommittedOutbox := do
  let join ← lift (JoinRequest.decode rawRequest)
  let context ← view Kernel.context
  let request ← lift (request context .invitation [rawRequest, toBe validity.notBefore, toBe validity.expiresAt])
  let work ← beginLive mls
  orRetained operation request .invitation work.state.outbox do
    let prepared ← lift (work.prepareInvite mls cipher entropy ⟨operation, request, join, validity, now, none⟩)
    publishPrepared mls entropy operation request prepared

/-- `join_prepared`. -/
def joinPrepared (work : Working crypto) (packet : InvitePacket crypto) (id : Bytes32) (now : UInt64) : KernelM crypto (Status crypto) := do
  let context ← view Kernel.context
  let work ← lift (work.prepareJoin mls context packet id now)
  publishControl mls entropy work packet.control none

def joinPacketHash (crypto : Hashing) (raw : List UInt8) : Bytes32 :=
  hash crypto ("vhalla/private-kernel/join-packet/v1".toUTF8.toList ++ [0]) raw

def join (raw : List UInt8) (now : UInt64) : KernelM crypto (Status crypto) := do
  let packet ← lift (InvitePacket.decode raw)
  let id := joinPacketHash crypto raw
  let work ← beginLive mls
  if work.state.phase = .memberJoined ∧ work.state.joined = some id then view Kernel.status
  else if work.state.contact.isSome then throw .policy
  else joinPrepared mls entropy work packet id now

def remove (operation : OperationId) (target : Key crypto) (now : UInt64) : KernelM crypto CommittedOutbox := do
  let context ← view Kernel.context
  let request ← lift (request context .removal [target.bytes.toList])
  let work ← beginLive mls
  orRetained operation request .removal work.state.outbox do
    let prepared ← lift (work.prepareRemoval mls cipher entropy target now)
    publishPrepared mls entropy operation request prepared

end Kernel

end Valhalla.PrivateKernel
