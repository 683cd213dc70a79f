import Valhalla.Lib.Maps
import Valhalla.PrivateKernel.State

/-!
# MLS and the working state (`Working` of `model.rs`, and the helpers of `engine/membership.rs` and `engine/messages.rs`)

OpenMLS is a parameter: what its calls return and how they change the provider's records. A working state is
a committed one whose records are in the provider.
-/

namespace Valhalla.PrivateKernel
open Fallible FixedWidth Check

/-! ### OpenMLS -/

abbrev Provider := Std.ExtTreeMap (List UInt8) (List UInt8) compare

structure Credential where
  basic : Bool
  identity : List UInt8
deriving DecidableEq

structure Leaf where
  credential : Credential
  signatureKey : List UInt8
deriving DecidableEq

structure Member where
  index : Nat
  leaf : Leaf
deriving DecidableEq

inductive Proposal
  | add (package : List UInt8) (leaf : Leaf)
  | remove (index : Nat)
  | other
deriving DecidableEq

/-- A staged commit, with the serialized context of the group it leads to. -/
structure Stage where
  epoch : UInt64
  context : List UInt8
  selfRemoved : Bool
  proposals : List Proposal
  path : Option Leaf
deriving DecidableEq

/-- A group of the fixed ciphersuite or another one. -/
structure GroupView where
  groupId : List UInt8
  suite : Bool
  epoch : UInt64
  pendingProposals : Bool
  pendingCommit : Option Stage
  active : Bool
  members : List Member
  ownIndex : Nat
deriving DecidableEq

/-- A protocol message before it is processed. -/
structure MessageView where
  isPrivate : Bool
  isCommit : Bool
  groupId : List UInt8
  epoch : UInt64
deriving DecidableEq

structure PackageView where
  suite : Bool
  leaf : Leaf
  validAt : UInt64 → Bool
  acceptable : Bool

structure WelcomeView where
  groupId : List UInt8
  suite : Bool
  epoch : UInt64
  context : List UInt8
  sender : Option Leaf
  ownLeaf : Option Leaf
  members : List Member
deriving DecidableEq

inductive Content (Staged : Type)
  | application (body : List UInt8)
  | commit (staged : Staged)
  | other

structure Processed (Staged : Type) where
  groupId : List UInt8
  epoch : UInt64
  aad : List UInt8
  sender : Option Nat
  credential : Credential
  content : Content Staged

/-- Why a message was not processed. -/
inductive ProcessError
  | tooDistantInThePast | secretReuse | generationOutOfBound | tooDistantInTheFuture | other
deriving DecidableEq

/-- What the kernel uses of OpenMLS; a failing call returns nothing. Serialized values are byte strings. -/
structure Mls where
  Signer : Type
  Group : Type
  Staged : Type
  Package : Type
  Message : Type
  StagedWelcome : Type
  newSigner : Entropy → Option Signer
  publicKey : Signer → List UInt8
  storeSigner : Provider → Signer → Option Provider
  readSigner : Provider → List UInt8 → Option Signer
  sign : Signer → List UInt8 → Option (List UInt8)
  newGroup : Entropy → Provider → Signer → (groupId : List UInt8) → Leaf → Option Provider
  load : Provider → (groupId : List UInt8) → Option (Option Group)
  view : Group → GroupView
  stage : Staged → Stage
  addMember : Entropy → Group → Provider → Signer → (aad : List UInt8) → Package →
    Option (List UInt8 × List UInt8 × Group × Provider)
  removeMember : Entropy → Group → Provider → Signer → (aad : List UInt8) → Nat → Option (List UInt8 × Group × Provider)
  selfUpdate : Entropy → Group → Provider → Signer → (aad : List UInt8) → Option Leaf →
    Option (List UInt8 × Bool × Group × Provider)
  mergePending : Group → Provider → Option Provider
  mergeStaged : Group → Provider → Staged → Option Provider
  createMessage : Entropy → Group → Provider → Signer → (aad body : List UInt8) → Option (List UInt8 × Provider)
  exportSecret : Group → (label context : List UInt8) → Option Bytes32
  protocolMessage : List UInt8 → Option Message
  message : Message → MessageView
  process : Group → Provider → Message → Except ProcessError (Processed Staged × Group × Provider)
  acceptableLifetime : Validity → Bool
  keyPackage : Entropy → Provider → Signer → Leaf → Validity → Option (List UInt8 × Provider)
  packageIn : List UInt8 → Option (Option Package)
  package : Package → PackageView
  stageWelcome : Provider → List UInt8 → Option (Option StagedWelcome)
  welcome : StagedWelcome → WelcomeView
  joinGroup : Provider → StagedWelcome → Option Provider

variable {crypto : Hashing}

/-- `messages::wire`: the length of a serialized value. -/
def wire (raw : List UInt8) : Except Error (List UInt8) := do
  require .bounds (decide (raw.length ≤ maxWireBytes))
  require .bounds (!raw.isEmpty)
  .ok raw

def boundedWire (raw : List UInt8) : Except Error Unit :=
  require .bounds (!raw.isEmpty && decide (raw.length ≤ maxWireBytes))

/-- `wire_hash`. -/
def wireHash (crypto : Hashing) (raw : List UInt8) : Bytes32 :=
  hash crypto ("vhalla/private-kernel/incoming-wire/v1".toUTF8.toList ++ [0]) raw

def groupContextHash (crypto : Hashing) (context : List UInt8) : Except Error Bytes32 := do
  let raw ← wire context
  .ok (hash crypto ("vhalla/private-kernel/group-context/v1".toUTF8.toList ++ [0]) raw)

def appAad (scope : PrivateRoomScope) : List UInt8 :=
  "vhalla/private-kernel/mls-context/v1".toUTF8.toList ++ (0 :: putScope scope)

def enrollmentLeaf (enrollment : VerifiedDeviceEnrollment crypto) (device : Key crypto) : Leaf :=
  ⟨⟨true, enrollment.encode⟩, device.bytes.toList⟩

def checkCredential (credential : Credential) (signatureKey : List UInt8) (enrollment : VerifiedDeviceEnrollment crypto) :
    Except Error Unit :=
  require .policy (credential.basic && signatureKey == enrollment.device.bytes.toList &&
    credential.identity == enrollment.encode)

def checkLeaf (leaf : Leaf) (enrollment : VerifiedDeviceEnrollment crypto) : Except Error Unit :=
  checkCredential leaf.credential leaf.signatureKey enrollment

def checkMember (expected : List (VerifiedDeviceEnrollment crypto)) (seen : List Nat) (member : Member) :
    Except Error (List Nat) := do
  require .policy (decide (seen.length < expected.length))
  let index ← Check.okOr .policy (expected.findIdx? fun e => e.device.bytes.toList == member.leaf.signatureKey)
  require .policy (!seen.contains index)
  let enrollment ← Check.okOr .policy expected[index]?
  checkLeaf member.leaf enrollment
  .ok (seen ++ [index])

def checkMembers (members : List Member) (expected : List (VerifiedDeviceEnrollment crypto)) : Except Error Unit := do
  let seen ← members.foldlM (checkMember expected) []
  require .policy (seen.length == expected.length)

/-! ### The working state -/

structure Working (crypto : Hashing) where
  state : State crypto
  provider : Provider

namespace Working
variable (mls : Mls)

def signer (work : Working crypto) : Except Error mls.Signer :=
  Check.okOr .missing (mls.readSigner work.provider work.state.localDevice.device.bytes.toList)

def group (work : Working crypto) : Except Error mls.Group := do
  require .policy (work.state.phase != .awaitingWelcome)
  let group ← Check.okOr .mls (mls.load work.provider work.state.anchor.scope.room.bytes.toList)
  Check.okOr .missing group

def checkGroup (work : Working crypto) (group : mls.Group) : Except Error Unit := do
  let view := mls.view group
  require .scope (view.groupId == work.state.anchor.scope.room.bytes.toList && view.suite && view.epoch == work.state.epoch)
  require .policy (!view.pendingProposals && view.pendingCommit.isNone)
  require .policy (view.active != (work.state.phase == .removed))
  checkMembers view.members work.state.roster
  if view.active then
    let own ← Check.okOr .policy (view.members.find? (·.index == view.ownIndex))
    checkLeaf own.leaf work.state.localDevice
  else .ok ()

def hydrate (state : State crypto) : Except Error (Working crypto) := do
  let work : Working crypto := ⟨{ state with records := [] }, Maps.ofEntries compare state.records⟩
  let signer ← work.signer mls
  require .scope (mls.publicKey signer == state.localDevice.device.bytes.toList)
  if state.phase = .awaitingWelcome then .ok work
  else
    let group ← work.group mls
    work.checkGroup mls group
    .ok work

/-- The bounds of `capture` on one record of the provider. -/
def captureRecord (total : Nat) (record : List UInt8 × List UInt8) : Except Error Nat := do
  require .bounds (!record.1.isEmpty && decide (record.1.length ≤ maxProviderKeyBytes) &&
    decide (record.2.length ≤ maxStateBytes))
  require .bounds (decide (total + record.1.length + record.2.length ≤ maxStateBytes))
  .ok (total + record.1.length + record.2.length)

def checkProvider (provider : Provider) : Except Error Unit := do
  require .bounds (decide (provider.size ≤ maxProviderRecords))
  let _ ← provider.toList.foldlM captureRecord 0
  .ok ()

def capture (work : Working crypto) : Except Error (State crypto) := do
  if work.state.phase = .awaitingWelcome then .ok ()
  else
    let group ← work.group mls
    work.checkGroup mls group
  checkProvider work.provider
  let state := { work.state with records := work.provider.toList }
  state.validate state.context
  .ok state

/-- `membership::signature`. -/
def signature (work : Working crypto) (message : List UInt8) : Except Error Signature := do
  let signer ← work.signer mls
  let raw ← Check.okOr .mls (mls.sign signer message)
  if h : raw.length = 64 then .ok ⟨raw.toArray, h⟩ else .error .mls

/-! ### Controls -/

/-- `membership::control`. -/
def control (work : Working crypto) (commit : List UInt8) (change : ControlChange crypto) :
    Except Error (VerifiedOwnerControl crypto) := do
  let nextEpoch ← Check.okOr .bounds (checkedAdd work.state.epoch 1)
  let commit ← ofRecord (Identifier.ofBytes crypto .commit commit)
  let claims : OwnerControlClaims crypto :=
    ⟨work.state.anchor.scope, work.state.owner.device, work.state.floor, work.state.epoch, nextEpoch, commit, change⟩
  ofRecord ((controlKind crypto).validate claims)
  let signature ← work.signature mls ((controlKind crypto).signingBytes claims)
  ofRecord (Verified.attach claims signature)

def checkControlHeader (scope : PrivateRoomScope) (control : VerifiedOwnerControl crypto) (commit : List UInt8) :
    Except Error Unit := do
  let claims := control.claims
  let digest ← if claims.scope = scope then ofRecord (Identifier.ofBytes crypto .commit commit) else .error .scope
  require .scope (claims.commit == digest)
  let frame ← Check.okOr .encoding (mls.protocolMessage commit)
  let view := mls.message frame
  require .scope (view.isPrivate && view.isCommit && view.groupId == scope.room.bytes.toList &&
    view.epoch == claims.priorEpoch)

def checkControl (work : Working crypto) (control : VerifiedOwnerControl crypto) (commit : List UInt8) : Except Error Unit := do
  let claims := control.claims
  require .policy (claims.scope == work.state.anchor.scope && claims.ownerDevice == work.state.owner.device &&
    claims.parent == work.state.floor && claims.priorEpoch == work.state.epoch)
  let next ← Check.okOr .bounds (checkedAdd work.state.epoch 1)
  require .policy (claims.nextEpoch == next)
  let digest ← ofRecord (Identifier.ofBytes crypto .commit commit)
  require .policy (claims.commit == digest)
  checkControlHeader mls work.state.anchor.scope control commit

/-- `advance`: the control becomes the floor. -/
def advance (work : Working crypto) (control : VerifiedOwnerControl crypto) (now : UInt64) : Except Error (Working crypto) := do
  let floor ← control.floor
  .ok { work with state := { work.state with floor, epoch := control.claims.nextEpoch, clock := now } }

def ownerPath (stage : Stage) (work : Working crypto) : Except Error Unit := do
  let next ← Check.okOr .bounds (checkedAdd work.state.epoch 1)
  require .policy (stage.epoch == next)
  match stage.path with
  | some leaf => checkLeaf leaf work.state.owner
  | none => .ok ()

def checkAdd (stage : Stage) (work : Working crypto) (member : VerifiedDeviceEnrollment crypto) (keyPackage : KeyPackageDigest) :
    Except Error Unit := do
  ownerPath stage work
  forM stage.proposals fun
    | .add package leaf => do
      let raw ← wire package
      let digest ← ofRecord (Identifier.ofBytes crypto .keyPackage raw)
      require .policy (digest == keyPackage)
      checkLeaf leaf member
    | _ => .error .policy
  require .policy (stage.proposals.length == 1)

def checkRemove (stage : Stage) (work : Working crypto) (members : List Member) (target : Key crypto) : Except Error Unit := do
  ownerPath stage work
  forM stage.proposals fun
    | .remove index => do
      let member ← Check.okOr .policy (members.find? (·.index == index))
      require .policy (member.leaf.signatureKey == target.bytes.toList)
    | _ => .error .policy
  require .policy (stage.proposals.length == 1)

/-- `renewal::check_stage`: nothing but a new path of the owner. -/
def checkStage (stage : Stage) (work : Working crypto) (replacement : VerifiedDeviceEnrollment crypto) : Except Error Unit := do
  let next ← Check.okOr .bounds (checkedAdd work.state.epoch 1)
  require .policy (stage.epoch == next && !stage.selfRemoved && stage.proposals.isEmpty)
  let leaf ← Check.okOr .policy stage.path
  checkLeaf leaf replacement

/-! ### Messages -/

/-- `process_error`. -/
def processError : ProcessError → Error
  | .tooDistantInThePast | .secretReuse | .generationOutOfBound => .ratchetGap true
  | .tooDistantInTheFuture => .ratchetGap false
  | .other => .mls

/-- `messages::process`: what the message said, and the provider after it. -/
def process (work : Working crypto) (group : mls.Group) (raw : List UInt8) :
    Except Error (Processed mls.Staged × mls.Group × Provider) := do
  boundedWire raw
  let message ← Check.okOr .encoding (mls.protocolMessage raw)
  let view := mls.message message
  require .scope (view.groupId == work.state.anchor.scope.room.bytes.toList)
  require .staleEpoch (decide (work.state.epoch ≤ view.epoch))
  require .futureEpoch (decide (view.epoch ≤ work.state.epoch))
  let (processed, group, provider) ← (mls.process group work.provider message).mapError processError
  require .scope (processed.groupId == work.state.anchor.scope.room.bytes.toList && processed.epoch == work.state.epoch &&
    processed.aad == appAad work.state.anchor.scope)
  .ok (processed, group, provider)

/-- `member_sender`: the rostered device that sent a message. -/
def memberSender (work : Working crypto) (members : List Member) (sender : Option Nat) (credential : Credential) (now : UInt64) :
    Except Error (Key crypto) := do
  let index ← Check.okOr .policy sender
  let member ← Check.okOr .policy (members.find? (·.index == index))
  let enrollment ← Check.okOr .policy
    (work.state.roster.find? fun record => record.device.bytes.toList == member.leaf.signatureKey)
  checkLeaf member.leaf enrollment
  checkCredential credential member.leaf.signatureKey enrollment
  ofRecord (enrollment.claims.validity.checkAt now)
  .ok enrollment.device

def ownerSender (work : Working crypto) (members : List Member) (sender : Option Nat) (credential : Credential) :
    Except Error Unit := do
  let index ← Check.okOr .policy sender
  let member ← Check.okOr .policy (members.find? (·.index == index))
  checkLeaf member.leaf work.state.owner
  checkCredential credential member.leaf.signatureKey work.state.owner

/-! ### Control envelopes -/

variable (cipher : Cipher)

def envelopeLabel : List UInt8 := "vhalla/private/control-envelope/v1".toUTF8.toList

/-- `transport::context`. -/
def envelopeContext (work : Working crypto) : List UInt8 :=
  putScope work.state.anchor.scope ++ (toBe work.state.epoch ++ (putFloor work.state.floor ++
    (work.state.rosterDigest.toList ++ work.state.owner.device.bytes.toList)))

/-- The key of `transport::cipher`. -/
def envelopeKey (work : Working crypto) (group : mls.Group) : Except Error Bytes32 := do
  require .scope ((mls.view group).epoch == work.state.epoch)
  Check.okOr .mls (mls.exportSecret group envelopeLabel work.envelopeContext)

def envelopeAad (work : Working crypto) (header : List UInt8) : List UInt8 := envelopeLabel ++ (work.envelopeContext ++ header)

/-- `transport::seal`. -/
def sealControl (work : Working crypto) (group : mls.Group) (draw : Except Error (Vector UInt8 24))
    (packet : ControlPacket crypto) : Except Error (List UInt8) := do
  let clear ← packet.encode
  let total := envelopeHeader + clear.length + 16
  require .bounds (decide (total ≤ maxPacket) &&
    decide (retainedMagic.length + 4 + packet.control.encode.length + 1 + 4 + total + 40 ≤ maxStoredRecordBytes))
  let kind ← controlKindByte packet.control
  let sequence ← ofRecord work.state.floor.nextSequence
  let nonce ← draw
  let header := envelopeMagic ++ ([kind] ++ (toBe work.state.epoch ++ (toBe sequence ++ (nonce.toList ++
    toBe (UInt32.ofNat (clear.length + 16))))))
  let key ← work.envelopeKey mls group
  let raw := header ++ cipher.encrypt key nonce (work.envelopeAad header) clear
  let envelope ← Envelope.decode raw
  envelope.agrees packet.control
  .ok raw

/-- `transport::open`. -/
def openControl (work : Working crypto) (envelope : Envelope) : Except Error (ControlPacket crypto) := do
  let sequence ← if envelope.prior = work.state.epoch then ofRecord work.state.floor.nextSequence else .error .policy
  require .policy (envelope.sequence == sequence)
  let group ← work.group mls
  let key ← work.envelopeKey mls group
  let clear ← Check.okOr .authentication
    (cipher.decrypt key envelope.nonce (work.envelopeAad envelope.header) envelope.ciphertext)
  let packet ← ControlPacket.decode clear
  envelope.agrees packet.control
  .ok packet

end Working

end Valhalla.PrivateKernel
