import Valhalla.Rooms.Wire
import Valhalla.Social.Derive

/-!
# Room-control chains (`authority.rs` of `vhalla-rooms`)

One chain of control records per owner with the grants it leaves open. Every claimed basis is checked against a
view of the social archive.
-/

namespace Valhalla.Rooms
open Fallible FixedWidth Check
open Social (OwnerId AgentId RecordId ControlView)

def maxControlRecords : Nat := 4096

inductive Denial
  | scope | kind | unknownOwner | staleSocialBasis | controllerKey | frozen | incomplete | capacityBlocked
  | incompleteHistory | staleRoomBasis | previous | sequence | agentAffiliation | agentKey | retiredAgent | grant
  | grantAgent | expired | charge | capacity
deriving DecidableEq, Repr

/-- A `GrantCreate` that was not revoked. -/
structure OpenGrant where
  agent : AgentId
  agentKey : Bytes32
  expiresAt : UInt64
  maximumCharge : UInt64
deriving DecidableEq

structure OwnerChain (crypto : Crypto) where
  head : Option RoomRecordId := none
  sequence : UInt64 := 0
  history : List (VerifiedRecord crypto) := []
  grants : Std.ExtTreeMap RoomRecordId OpenGrant compare := ∅

structure RoomAuthority (crypto : Crypto) where
  directory : DirectoryId
  realm : RealmId
  chains : Std.ExtTreeMap OwnerId (OwnerChain crypto) compare := ∅
  records : Nat := 0

variable {crypto : Crypto}

def ownerStatus (view : ControlView) (owner : OwnerId) (basis : RecordId) (key : Bytes32) : Except Denial Unit := do
  let status ← okOr .unknownOwner view.owners[owner]?
  require .frozen !status.frozen
  require .incomplete !status.incomplete
  require .capacityBlocked !status.capacityBlocked
  require .incompleteHistory (view.ownerHistoryComplete owner)
  require .staleSocialBasis (status.head == some basis)
  require .controllerKey (status.key == some key)

def agentStatus (view : ControlView) (owner : OwnerId) (agent : AgentId) (key : Bytes32) : Except Denial Unit := do
  let status ← okOr .agentAffiliation view.agents[agent]?
  require .agentAffiliation (status.owner == owner)
  require .agentKey (status.key == key)
  require .retiredAgent !status.retired

def controlOf : Body → Except Denial RoomControl
  | .control control => .ok control
  | _ => .error .kind

namespace RoomAuthority

def new (directory : DirectoryId) (realm : RealmId) : RoomAuthority crypto := { directory, realm }

variable (a : RoomAuthority crypto)

def chain (owner : OwnerId) : OwnerChain crypto := a.chains[owner]?.getD {}

/-- `entry(owner).or_default()`. -/
def entry (owner : OwnerId) : RoomAuthority crypto :=
  if a.chains.contains owner then a else { a with chains := a.chains.insert owner {} }

def modify (owner : OwnerId) (f : OwnerChain crypto → OwnerChain crypto) : RoomAuthority crypto :=
  { a with chains := a.chains.insert owner (f (a.chain owner)) }

def checkScope (directory : DirectoryId) (realm : RealmId) : Except Denial Unit :=
  require .scope (directory == a.directory && realm == a.realm)

end RoomAuthority

/-- What a control does to the open grants of its chain, in place. -/
def applyGrant (id : RoomRecordId) (owner : OwnerId) : CreateAction → Fallible Denial (RoomAuthority crypto) Unit
  | .grantCreate agent agentKey expiresAt maximumCharge _ =>
    update fun a => a.modify owner fun c =>
      { c with grants := c.grants.insert id ⟨agent, agentKey, expiresAt, maximumCharge⟩ }
  | .revokeGrant grant => do
    examine fun a => require .grant ((a.chain owner).grants.contains grant)
    update fun a => a.modify owner fun c => { c with grants := c.grants.erase grant }

def extendChain (record : VerifiedRecord crypto) (owner : OwnerId) : Fallible Denial (RoomAuthority crypto) Unit := do
  update fun a => a.modify owner fun c => { c with head := some record.id }
  let sequence ← examine fun a => okOr .sequence (checkedAdd (a.chain owner).sequence 1)
  update fun a => a.modify owner fun c => { c with sequence, history := c.history ++ [record] }
  update fun a => { a with records := a.records + 1 }

/-- The chain that is looked up is there from then on. -/
def commitControl (record : VerifiedRecord crypto) : Fallible Denial (RoomAuthority crypto) Unit := do
  let control ← examine fun _ => controlOf record.body
  examine fun a => a.checkScope control.directory control.realm
  examine fun a => require .capacity (decide (a.records < maxControlRecords))
  update fun a => a.entry control.owner
  examine fun a => require .previous (control.previous == (a.chain control.owner).head)
  examine fun a => require .sequence (control.sequence == (a.chain control.owner).sequence)
  applyGrant record.id control.owner control.action
  extendChain record control.owner

def checkAction (view : ControlView) (now : UInt64) (owner : OwnerId) : CreateAction → Except Denial Unit
  | .grantCreate agent agentKey expiresAt _ _ => do
    agentStatus view owner agent agentKey
    require .expired !decide (expiresAt ≤ now)
  | .revokeGrant _ => pure ()

/-- What `admit` checks before the chain. -/
def checkAdmission (a : RoomAuthority crypto) (record : VerifiedRecord crypto) (view : ControlView) (now : UInt64) :
    Except Denial Unit := do
  let control ← controlOf record.body
  a.checkScope control.directory control.realm
  ownerStatus view control.owner control.socialControl control.controllerKey
  checkAction view now control.owner control.action

def admitControl (record : VerifiedRecord crypto) (view : ControlView) (now : UInt64) : Fallible Denial (RoomAuthority crypto) Unit := do
  examine fun a => checkAdmission a record view now
  commitControl record

namespace RoomAuthority
variable (a : RoomAuthority crypto)

def assessCreation (intent : CreationIntent) (view : ControlView) (now : UInt64) : Except Denial Unit := do
  a.checkScope intent.directory intent.realm
  ownerStatus view intent.owner intent.socialControl intent.ownerKey
  agentStatus view intent.owner intent.agent intent.agentKey
  let chain ← okOr .staleRoomBasis a.chains[intent.owner]?
  require .staleRoomBasis (chain.head == some intent.roomControl)
  let grant ← okOr .grant chain.grants[intent.grant]?
  require .grantAgent (grant.agent == intent.agent && grant.agentKey == intent.agentKey)
  require .expired !(decide (grant.expiresAt ≤ now) || decide (intent.expiresAt ≤ now))
  require .charge !decide (intent.charge > grant.maximumCharge)

def assessUpdate (update : RoomUpdate) (view : ControlView) (now : UInt64) : Except Denial Unit := do
  a.checkScope update.directory update.realm
  ownerStatus view update.owner update.socialControl update.controllerKey
  require .expired !decide (update.expiresAt ≤ now)

def histories : List (OwnerId × List (VerifiedRecord crypto)) := a.chains.toList.map fun c => (c.1, c.2.history)

end RoomAuthority

/-! ### The control commitment -/

def controlDomain : List UInt8 := "vhalla/rooms/control-snapshot/v1\x00".toUTF8.toList

/-- An absent head or key is written as zeros. -/
def orZero (bytes : Option Bytes32) : List UInt8 := (bytes.getD zeroBytes).toList

def bit (b : Bool) (n : UInt8) : UInt8 := (if b then 1 else 0) <<< n

def putOwnerStatus (view : ControlView) (o : OwnerId × Social.OwnerStatus) : List UInt8 :=
  o.1.bytes.toList ++ (orZero (o.2.head.map Social.Id.bytes) ++ (orZero o.2.key ++
    [bit o.2.frozen 0 ||| bit o.2.incomplete 1 ||| bit o.2.capacityBlocked 2 ||| bit (!view.ownerHistoryComplete o.1) 3]))

def putAgentStatus (g : AgentId × Social.AgentStatus) : List UInt8 :=
  g.1.bytes.toList ++ (g.2.owner.bytes.toList ++ (g.2.key.toList ++ [bit g.2.retired 0 ||| bit g.2.active 1]))

def putOpenGrant (g : RoomRecordId × OpenGrant) : List UInt8 :=
  g.1.bytes.toList ++ (g.2.agent.bytes.toList ++ (g.2.agentKey.toList ++ (toBe g.2.expiresAt ++ toBe g.2.maximumCharge)))

/-- A number of items, as four bytes. -/
def putSize (n : Nat) : List UInt8 := toBe (UInt32.ofNat n)

def putCounted {α : Type} (put : α → List UInt8) (l : List α) : List UInt8 := putSize l.length ++ l.flatMap put

def putChain (c : OwnerId × OwnerChain crypto) : List UInt8 :=
  c.1.bytes.toList ++ (orZero (c.2.head.map Id.bytes) ++ (toBe c.2.sequence ++ (putSize c.2.grants.size ++
    c.2.grants.toList.flatMap putOpenGrant)))

namespace RoomAuthority
variable (a : RoomAuthority crypto)

/-- What `snapshot` hashes. -/
def snapshotPreimage (view : ControlView) : List UInt8 :=
  controlDomain ++ (a.directory.bytes.toList ++ (toBe a.realm.value ++
    (putSize view.owners.size ++ (view.owners.toList.flatMap (putOwnerStatus view) ++
      (putSize view.agents.size ++ (view.agents.toList.flatMap putAgentStatus ++
        (putSize a.chains.size ++ a.chains.toList.flatMap putChain)))))))

def snapshot (view : ControlView) : Bytes32 := crypto.sha256 (a.snapshotPreimage view)

end RoomAuthority

end Valhalla.Rooms
