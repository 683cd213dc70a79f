import Valhalla.Social.Control

/-!
# Storage accounting (`archive.rs` of `vhalla-social`)

The bucket of every record under a view, and the pressure on the local limits that the buckets add up to. Nothing
here depends on more of the view than its evidence and its nodes.
-/

namespace Valhalla.Social
open Fallible FixedWidth Check

inductive Bucket
  | data (owner : OwnerId)
  | control (owner : OwnerId)
  | reservedControl (owner : OwnerId)
  | pending (key : Bytes32)
deriving DecidableEq

structure OwnerPressure where
  data : Nat
  controls : Nat
  dataSpill : Nat
  controlSpill : Nat
  closed : Bool
deriving DecidableEq

structure CapacityPressure where
  pending : Nat
  dataSpill : Nat
  controlSpill : Nat
  globalClosed : Bool
  owners : Std.ExtTreeMap OwnerId OwnerPressure compare

structure Accounting where
  buckets : Std.ExtTreeMap RecordId Bucket compare
  pressure : CapacityPressure
  signerPending : Std.ExtTreeMap Bytes32 Nat compare
  data : Nat

namespace ControlView
variable (v : ControlView)

def controlAdmitted (id : RecordId) : Bool :=
  v.nodes.contains id && (v.evidence.body id).any fun body =>
    match body with
    | .control .. => true
    | _ => false

def ownsHistoricalKey (owner : OwnerId) (key : Bytes32) : Bool :=
  v.nodes.toList.any fun n => n.2.owner == owner && n.2.key == key

def storageBinding (id : RecordId) : Option (OwnerId × Bytes32) := do
  let fact ← v.evidence.get id
  match fact.body with
  | .agentGenesis owner _ key _ => if v.ownsHistoricalKey owner fact.primary then some (owner, key) else none
  | _ => none

def storageOwner (id : RecordId) (fact : Fact) : Option OwnerId :=
  match fact.body with
  | .ownerGenesis controller _ _ => if fact.primary = controller then some (ownerId id) else none
  | .control owner _ _ => if v.ownsHistoricalKey owner fact.primary then some owner else none
  | .agentGenesis .. => (v.storageBinding id).map Prod.fst
  | .social (.owner owner _) realm .. =>
    if realm == v.evidence.realm && v.ownsHistoricalKey owner fact.primary then some owner else none
  | .social (.agent owner agent _) realm .. =>
    if realm = v.evidence.realm then do
      let (boundOwner, key) ← v.storageBinding (agentRecord agent)
      if boundOwner == owner && fact.primary == key then some owner else none
    else none

def bucketOf (r : RecordId × Fact) : Bucket :=
  match r.2.body, v.storageOwner r.1 r.2 with
  | .control .., some owner => if v.controlAdmitted r.1 then .control owner else .reservedControl owner
  | _, some owner => .data owner
  | _, none => .pending r.2.primary

end ControlView

namespace Bucket

def dataOwner : Bucket → Option OwnerId
  | .data owner => some owner
  | _ => none

def controlOwner : Bucket → Option OwnerId
  | .control owner | .reservedControl owner => some owner
  | _ => none

def pendingKey : Bucket → Option Bytes32
  | .pending key => some key
  | _ => none

end Bucket

structure Classified where
  limits : Limits
  entries : List ((RecordId × Fact) × Bucket)

namespace Classified
variable (c : Classified)

def dataOwners : List OwnerId := c.entries.filterMap (·.2.dataOwner)

def controlOwners : List OwnerId := c.entries.filterMap (·.2.controlOwner)

def pendingKeys : List Bytes32 := c.entries.filterMap (·.2.pendingKey)

def writers : List (OwnerId × Bytes32) := c.entries.filterMap fun e => e.2.dataOwner.map fun owner => (owner, e.1.2.primary)

def writerSpill (owner : OwnerId) : Nat :=
  ((c.writers.filter (·.1 == owner)).eraseDups.map fun writer => c.writers.count writer - c.limits.dataPerWriter).sum

def pressureOf (owner : OwnerId) : OwnerPressure :=
  let data := c.dataOwners.count owner
  let controls := c.controlOwners.count owner
  let dataSpill := max (c.writerSpill owner) (data - c.limits.dataPerOwner)
  { data
    controls
    dataSpill
    controlSpill := controls - c.limits.controlPerOwner
    closed := decide (controls ≥ c.limits.controlPerOwner) || dataSpill != 0 }

def owners : Std.ExtTreeMap OwnerId OwnerPressure compare :=
  Maps.insertAll id c.pressureOf ∅ (c.dataOwners ++ c.controlOwners)

def pressure : CapacityPressure where
  pending := c.pendingKeys.length
  dataSpill := (c.owners.toList.map (·.2.dataSpill)).sum
  controlSpill := max (c.owners.toList.map (·.2.controlSpill)).sum (c.controlOwners.length - c.limits.controlReserve)
  globalClosed := decide (c.controlOwners.length ≥ c.limits.controlReserve) || decide (c.entries.length ≥ c.limits.records)
  owners := c.owners

def accounting : Accounting where
  buckets := Maps.insertAll (·.1.1) Prod.snd ∅ c.entries
  pressure := c.pressure
  signerPending := c.pendingKeys.foldl Maps.count ∅
  data := c.dataOwners.length

end Classified

namespace ControlView
variable (v : ControlView)

def classified : Classified := ⟨v.evidence.limits, v.evidence.records.map fun r => (r, v.bucketOf r)⟩

def accounting : Accounting := v.classified.accounting

def capacityPressure : CapacityPressure := v.accounting.pressure

end ControlView
end Valhalla.Social
