import Valhalla.Witness.Codec
import Mathlib.Data.List.Sort

/-!
# Task manifests (`manifest.rs`, and their part of `codec.rs`)

The verifier-authored task and its canonical encoding. A `ValidManifest` carries the fact that it passed
`TaskManifest.check`; `assign` merges a candidate with the fixed programs.
-/

namespace Valhalla.Witness
open Fallible FixedWidth

def maxSparkBytes : Nat := 5
def maxWorldBytes : Nat :=
  2 + (2 + maxWalls * 2) + (1 + maxSources * 5 + maxInitialSparks * maxSparkBytes) + (1 + maxDepots * 5) +
    (1 + maxBeacons * 25) + (1 + maxValves * 11) + (1 + maxCells * 10) + (1 + maxLinks * 14)
def maxEventBytes : Nat := 4 + 1 + 3
def maxCaseBytes : Nat := 8 + 4 + 8 + 4 + 1 + maxEvents * maxEventBytes + 8
def maxManifestBytes : Nat :=
  2 + maxWorldBytes + (1 + maxCells * (3 + maxProgramBodyBytes)) + (1 + maxCases * maxCaseBytes) + 17

structure ProgramSlot where
  cell : UInt16
  fixed : Option Program
deriving DecidableEq, Repr

structure WorkContract where
  usefulFloor : UInt64
  totalCeiling : UInt64
  requirePassed : Bool
deriving DecidableEq, Repr

structure TaskManifest where
  world : WorldSpec
  slots : List ProgramSlot
  cases : List CaseSpec
  contract : WorkContract
deriving DecidableEq, Repr

/-! ### Worlds -/

def putPoint (point : Point) : List UInt8 := putU8 point.x ++ putU8 point.y

def getPoint : GetM Point := do
  let x ← getU8 .point
  let y ← getU8 .point
  pure ⟨x, y⟩

def putSpark (spark : Spark) : List UInt8 := putU32 spark.id ++ putBool spark.bit

def getSpark : GetM Spark := do
  let id ← getU32 .spark
  let bit ← getBool .spark
  pure ⟨id, bit⟩

def putEndpoint : Endpoint → List UInt8
  | .cell id port => putU8 1 ++ (putU16 id ++ putU8 port.get)
  | .depot id => putU8 2 ++ putU16 id

def getEndpoint : GetM Endpoint := do
  match ← getU8 .endpoint with
  | 1 => do let id ← getU16 .cellId; let port ← getPort; pure (.cell id port)
  | 2 => do let id ← getU16 .depot; pure (.depot id)
  | found => throw (.discriminant .endpoint found)

/-- `len as u16`. -/
def putWallCount (len : Nat) : List UInt8 := putU16 (UInt16.ofNat len)

def getWallCount : GetM Nat := do
  let count ← getU16 .count
  if count.toNat > maxWalls then throw (.bound .count) else pure count.toNat

def putWalls (walls : List Point) : List UInt8 := putWallCount walls.length ++ walls.flatMap putPoint

def getWalls : GetM (List Point) := do
  let count ← getWallCount
  Reader.replicate getPoint count

def putSource (source : Source) : List UInt8 :=
  putU16 source.id ++ (putPoint source.position ++ putList putSpark source.sparks)

def getSparkCount (total : Nat) : GetM Nat := do
  let count ← getCount maxInitialSparks .count
  if total + count > maxInitialSparks then throw (.bound .spark) else pure count

def getSparks (total : Nat) : GetM (List Spark) := do
  let count ← getSparkCount total
  Reader.replicate getSpark count

def getSource (total : Nat) : GetM Source := do
  let id ← getU16 .source
  let position ← getPoint
  let sparks ← getSparks total
  pure ⟨id, position, sparks⟩

def getSources : GetM (List Source) := do
  let count ← getCount maxSources .count
  Reader.many (fun total source => total + source.sparks.length) getSource count 0

def putDepot (depot : Depot) : List UInt8 := putU16 depot.id ++ (putPoint depot.position ++ putU8 depot.capacity)

def getDepot : GetM Depot := do
  let id ← getU16 .depot
  let position ← getPoint
  let capacity ← getU8 .depot
  pure ⟨id, position, capacity⟩

def putBeacon (beacon : Beacon) : List UInt8 :=
  putU16 beacon.id ++ (putPoint beacon.position ++ (putBool beacon.accepts ++ (putU32 beacon.initialCharge ++
    (putU32 beacon.drainEvery ++ (putU32 beacon.drainAmount ++ (putU32 beacon.sparkCharge ++
    putU32 beacon.requiredDeliveries))))))

def getBeacon : GetM Beacon := do
  let id ← getU16 .beacon
  let position ← getPoint
  let accepts ← getBool .beacon
  let initialCharge ← getU32 .beacon
  let drainEvery ← getU32 .beacon
  let drainAmount ← getU32 .beacon
  let sparkCharge ← getU32 .beacon
  let requiredDeliveries ← getU32 .beacon
  pure ⟨id, position, accepts, initialCharge, drainEvery, drainAmount, sparkCharge, requiredDeliveries⟩

def putValve (valve : Valve) : List UInt8 :=
  putU16 valve.id ++ (putPoint valve.position ++ (putU16 valve.depot ++ (putU16 valve.beaconZero ++
    (putU16 valve.beaconOne ++ putBool valve.enabled))))

def getValve : GetM Valve := do
  let id ← getU16 .valveSpec
  let position ← getPoint
  let depot ← getU16 .valveSpec
  let beaconZero ← getU16 .valveSpec
  let beaconOne ← getU16 .valveSpec
  let enabled ← getBool .valveSpec
  pure ⟨id, position, depot, beaconZero, beaconOne, enabled⟩

def putCellBody (cell : CellBody) : List UInt8 :=
  putU16 cell.id ++ (putPoint cell.position ++ (putU8 (directionTag cell.heading) ++ (putBool cell.mobile ++
    cell.memory.toList)))

def getCellBody : GetM CellBody := do
  let id ← getU16 .cell
  let position ← getPoint
  let heading ← getDirection
  let mobile ← getBool .cell
  let memory ← getBytes memorySlots .cell
  pure ⟨id, position, heading, mobile, memory⟩

def putLink (link : Link) : List UInt8 :=
  putU16 link.id ++ (putEndpoint link.origin ++ (putU16 link.toCell ++ (putU8 link.toPort.get ++
    (putU32 link.delay ++ putBool link.enabled))))

def getLink : GetM Link := do
  let id ← getU16 .link
  let origin ← getEndpoint
  let toCell ← getU16 .link
  let toPort ← getPort
  let delay ← getU32 .link
  let enabled ← getBool .link
  pure ⟨id, origin, toCell, toPort, delay, enabled⟩

def putWorld (world : WorldSpec) : List UInt8 :=
  putU8 world.width ++ (putU8 world.height ++ (putWalls world.walls ++ (putList putSource world.sources ++
    (putList putDepot world.depots ++ (putList putBeacon world.beacons ++ (putList putValve world.valves ++
    (putList putCellBody world.cells ++ putList putLink world.links)))))))

def getWorld : GetM WorldSpec := do
  let width ← getU8 .point
  let height ← getU8 .point
  let walls ← getWalls
  let sources ← getSources
  let depots ← getList maxDepots getDepot
  let beacons ← getList maxBeacons getBeacon
  let valves ← getList maxValves getValve
  let cells ← getList maxCells getCellBody
  let links ← getList maxLinks getLink
  pure ⟨width, height, walls, sources, depots, beacons, valves, cells, links⟩

/-! ### Cases -/

def putEventKind : EventKind → List UInt8
  | .linkEnabled id enabled => putU8 1 ++ (putU16 id ++ putBool enabled)
  | .valveEnabled id enabled => putU8 2 ++ (putU16 id ++ putBool enabled)
  | .clearMemory cell => putU8 3 ++ putU16 cell

def getEventKind : GetM EventKind := do
  match ← getU8 .event with
  | 1 => do let id ← getU16 .event; let enabled ← getBool .event; pure (.linkEnabled id enabled)
  | 2 => do let id ← getU16 .event; let enabled ← getBool .event; pure (.valveEnabled id enabled)
  | 3 => do let cell ← getU16 .event; pure (.clearMemory cell)
  | found => throw (.discriminant .event found)

def putEvent (event : Event) : List UInt8 := putU32 event.tick ++ putEventKind event.event

def getEvent : GetM Event := do
  let tick ← getU32 .event
  let event ← getEventKind
  pure ⟨tick, event⟩

def putCase (case : CaseSpec) : List UInt8 :=
  putU64 case.seed ++ (putU32 case.ticks ++ (putU64 case.fuel ++ (putU32 case.activationFuel ++
    (putList putEvent case.events ++ putU64 case.loadingWork))))

def getCase : GetM CaseSpec := do
  let seed ← getU64 .case
  let ticks ← getU32 .case
  let fuel ← getU64 .case
  let activationFuel ← getU32 .case
  let events ← getList maxEvents getEvent
  let loadingWork ← getU64 .case
  pure ⟨seed, ticks, fuel, activationFuel, events, loadingWork⟩

/-! ### Manifests -/

def putProgramSlot (slot : ProgramSlot) : List UInt8 := putU16 slot.cell ++ putOption putProgramBody slot.fixed

def getProgramSlot (previous : Option UInt16) : GetM ProgramSlot := do
  let cell ← getCellAbove previous
  let fixed ← getOption .remember getProgramBody
  pure ⟨cell, fixed⟩

def getProgramSlots : GetM (List ProgramSlot) := do
  let count ← getCount maxCells .count
  Reader.many (fun _ slot => some slot.cell) getProgramSlot count none

def putContract (contract : WorkContract) : List UInt8 :=
  putU64 contract.usefulFloor ++ (putU64 contract.totalCeiling ++ putBool contract.requirePassed)

def getContract : GetM WorkContract := do
  let usefulFloor ← getU64 .contract
  let totalCeiling ← getU64 .contract
  let requirePassed ← getBool .contract
  pure ⟨usefulFloor, totalCeiling, requirePassed⟩

def putManifest (manifest : TaskManifest) : List UInt8 :=
  putWorld manifest.world ++ (putList putProgramSlot manifest.slots ++ (putList putCase manifest.cases ++
    putContract manifest.contract))

def getManifest : GetM TaskManifest := do
  let world ← getWorld
  let slots ← getProgramSlots
  let cases ← getList maxCases getCase
  let contract ← getContract
  pure ⟨world, slots, cases, contract⟩

def encodeManifest (manifest : TaskManifest) : List UInt8 := putHeader ++ putManifest manifest

def decodeManifest (raw : List UInt8) : Except CodecError TaskManifest :=
  decodeBounded maxManifestBytes (do header; getManifest) raw

/-! ### Validation -/

inductive ManifestError
  | world (error : WorldError)
  | slots | cases | contract | tooLarge | loadingWork | candidate
deriving DecidableEq, Repr

/-- The body of `ValidManifest::validate`: the world and the cases of an accepted manifest. -/
def TaskManifest.check (manifest : TaskManifest) : Except ManifestError (World × List Case) := do
  let world ← (World.new manifest.world).mapError .world
  Check.require .cases (!manifest.cases.isEmpty && decide (manifest.cases.length ≤ maxCases))
  let cases ← manifest.cases.mapM fun spec => (Case.new world spec).mapError .world
  let expected := (world.cells.map (·.id)).insertionSort (· ≤ ·)
  let named := manifest.slots.map (·.cell)
  Check.require .slots (named == expected && decide (named.length ≤ maxCells))
  let fuel ← cases.foldlM (fun fuel case => Check.okOr .contract (checkedAdd fuel case.fuel)) 0
  let maxUseful := UInt64.ofNat (maxInitialSparks * maxCases)
  Check.require .contract
    (decide (manifest.contract.totalCeiling ≤ fuel) && decide (manifest.contract.usefulFloor ≤ maxUseful))
  let encoded := encodeManifest manifest
  Check.require .tooLarge (decide (encoded.length ≤ maxManifestBytes))
  let floor := UInt64.ofNat encoded.length
  Check.require .loadingWork !(cases.any fun case => decide (case.loadingWork < floor))
  pure (world, cases)

structure ValidManifest where
  manifest : TaskManifest
  world : World
  cases : List Case
  valid : manifest.check = .ok (world, cases)

namespace ValidManifest

def validate (manifest : TaskManifest) : Except ManifestError ValidManifest :=
  match h : manifest.check with
  | .ok (world, cases) => .ok ⟨manifest, world, cases, h⟩
  | .error e => .error e

variable (m : ValidManifest)

/-- The cells a candidate must supply, ascending. -/
def openSlots : List UInt16 := (m.manifest.slots.filter (·.fixed.isNone)).map (·.cell)

end ValidManifest

def mergeSlots : List ProgramSlot → List (UInt16 × Program) → Except ManifestError (List (UInt16 × Program))
  | [], _ => .ok []
  | ⟨cell, some program⟩ :: slots, candidate => do
    let merged ← mergeSlots slots candidate
    pure ((cell, program) :: merged)
  | ⟨_, none⟩ :: _, [] => .error .candidate
  | ⟨cell, none⟩ :: slots, (_, program) :: candidate => do
    let merged ← mergeSlots slots candidate
    pure ((cell, program) :: merged)

def ValidManifest.assign (m : ValidManifest) (candidate : List (UInt16 × Program)) : Except ManifestError Assignment := do
  Check.require .candidate (candidate.map (·.1) == m.openSlots)
  let merged ← mergeSlots m.manifest.slots candidate
  (Assignment.validate m.world merged).mapError .world

end Valhalla.Witness
