import Valhalla.Lib.Check
import Valhalla.Witness.Model

/-!
# Worlds, cases and assignments (`world.rs`)

The platform's input types and their validators. `World.check` is the body of the source's
`World::new`; a `World` carries the fact that it accepted its specification, so every bound it
checks is available wherever a world is.
-/

namespace Valhalla.Witness
open FixedWidth Check

structure Point where
  x : UInt8
  y : UInt8
deriving DecidableEq, Repr

def absDiff (a b : UInt8) : UInt8 := if a ≤ b then b - a else a - b

def Point.distance (a b : Point) : UInt16 := (absDiff a.x b.x).toUInt16 + (absDiff a.y b.y).toUInt16

/-- A conserved token with a payload bit. -/
structure Spark where
  id : UInt32
  bit : Bool
deriving DecidableEq, Repr

structure CellBody where
  id : UInt16
  position : Point
  heading : Direction
  mobile : Bool
  memory : Vector UInt8 memorySlots
deriving DecidableEq, Repr

structure Source where
  id : UInt16
  position : Point
  sparks : List Spark
deriving DecidableEq, Repr

structure Depot where
  id : UInt16
  position : Point
  capacity : UInt8
deriving DecidableEq, Repr

structure Beacon where
  id : UInt16
  position : Point
  accepts : Bool
  initialCharge : UInt32
  drainEvery : UInt32
  drainAmount : UInt32
  sparkCharge : UInt32
  requiredDeliveries : UInt32
deriving DecidableEq, Repr

structure Valve where
  id : UInt16
  position : Point
  depot : UInt16
  beaconZero : UInt16
  beaconOne : UInt16
  enabled : Bool
deriving DecidableEq, Repr

/-- A link origin: a cell's output port or a depot's deposit report. -/
inductive Endpoint
  | cell (id : UInt16) (port : Port)
  | depot (id : UInt16)
deriving DecidableEq, Repr

structure Link where
  id : UInt16
  origin : Endpoint
  toCell : UInt16
  toPort : Port
  delay : UInt32
  enabled : Bool
deriving DecidableEq, Repr

inductive EventKind
  | linkEnabled (id : UInt16) (enabled : Bool)
  | valveEnabled (id : UInt16) (enabled : Bool)
  | clearMemory (cell : UInt16)
deriving DecidableEq, Repr

structure Event where
  tick : UInt32
  event : EventKind
deriving DecidableEq, Repr

structure WorldSpec where
  width : UInt8
  height : UInt8
  walls : List Point
  sources : List Source
  depots : List Depot
  beacons : List Beacon
  valves : List Valve
  cells : List CellBody
  links : List Link
deriving DecidableEq, Repr

inductive WorldError
  | gridDimensions | budget | loadingWork | entityLimits | walls | duplicateId | cellPosition
  | stationPosition | duplicateSpark | tooManySparks | depotCapacity | beaconParameters | valveTarget
  | valveGeometry | linkTarget | linkGeometry | eventTick | eventTarget | assignmentCells | unknownValve
deriving DecidableEq, Repr

/-! ### Walls as one bit row per line of the grid -/

abbrev WallRows := Vector UInt32 32

/-- `1u32 << point.x`; every caller has `point.x < 32`. -/
def wallBit (point : Point) : UInt32 := 1 <<< point.x.toUInt32

/-- `wall_rows[point.y]`; every caller has `point.y < 32`. -/
def WallRows.row (rows : WallRows) (point : Point) : UInt32 := rows[point.y.toNat]?.getD 0

def WallRows.has (rows : WallRows) (point : Point) : Bool := rows.row point &&& wallBit point != 0

def WallRows.add (rows : WallRows) (point : Point) : WallRows :=
  rows.setIfInBounds point.y.toNat (rows.row point ||| wallBit point)

namespace WorldSpec
variable (spec : WorldSpec)

def onGrid (point : Point) : Bool := decide (point.x < spec.width) && decide (point.y < spec.height)

def usable (rows : WallRows) (point : Point) : Bool := spec.onGrid point && !rows.has point

def checkWall (rows : WallRows) (point : Point) : Except WorldError WallRows := do
  require .walls (spec.onGrid point)
  require .walls !(rows.has point)
  pure (rows.add point)

def checkPosition (error : WorldError) (rows : WallRows) (positions : List Point) (point : Point) :
    Except WorldError (List Point) := do
  require error (spec.usable rows point && !positions.contains point)
  pure (positions ++ [point])

def stations : List Point :=
  spec.sources.map (·.position) ++ spec.depots.map (·.position) ++ spec.beacons.map (·.position) ++
    spec.valves.map (·.position)

def initialSparkList : List Spark := spec.sources.flatMap (·.sparks)

end WorldSpec

def checkSpark (sparks : List UInt32) (spark : Spark) : Except WorldError (List UInt32) := do
  require .duplicateSpark !(sparks.contains spark.id)
  require .tooManySparks (decide (sparks.length < maxInitialSparks))
  pure (sparks ++ [spark.id])

def checkDepot (depot : Depot) : Except WorldError Unit :=
  require .depotCapacity
    (decide (minDepotCapacity ≤ depot.capacity) && decide (depot.capacity ≤ maxDepotCapacity))

def checkBeacon (beacon : Beacon) : Except WorldError Unit :=
  require .beaconParameters
    (decide (minBeaconCharge ≤ beacon.initialCharge) && decide (beacon.initialCharge ≤ maxBeaconCharge) &&
      decide (minDrainEvery ≤ beacon.drainEvery) && decide (beacon.drainEvery ≤ maxDrainEvery) &&
      decide (minDrainAmount ≤ beacon.drainAmount) && decide (beacon.drainAmount ≤ maxDrainAmount) &&
      decide (minSparkCharge ≤ beacon.sparkCharge) && decide (beacon.sparkCharge ≤ maxSparkCharge) &&
      decide (beacon.requiredDeliveries ≤ maxRequiredDeliveries))

namespace WorldSpec
variable (spec : WorldSpec)

def checkValve (valve : Valve) : Except WorldError Unit := do
  let depot ← okOr .valveTarget (spec.depots.find? (·.id == valve.depot))
  let zero ← okOr .valveTarget (spec.beacons.find? (·.id == valve.beaconZero))
  let one ← okOr .valveTarget (spec.beacons.find? (·.id == valve.beaconOne))
  require .valveGeometry
    (valve.position.distance depot.position == 1 && valve.position.distance zero.position == 1 &&
      valve.position.distance one.position == 1 && !zero.accepts && one.accepts)

/-- Where a link starts, in the initial world. -/
def origin : Endpoint → Option Point
  | .cell id _ => (spec.cells.find? (·.id == id)).map (·.position)
  | .depot id => (spec.depots.find? (·.id == id)).map (·.position)

def checkLink (link : Link) : Except WorldError Unit := do
  let target ← okOr .linkTarget (spec.cells.find? (·.id == link.toCell))
  let origin ← okOr .linkTarget (spec.origin link.origin)
  require .linkGeometry
    (decide (minLinkDelay ≤ link.delay) && decide (link.delay ≤ maxLinkDelay) &&
      origin.distance target.position == 1)

/-- The body of `World::new`: the wall rows of an accepted specification. -/
def check : Except WorldError WallRows := do
  require .gridDimensions
    (decide (minSide ≤ spec.width) && decide (spec.width ≤ maxSide) && decide (minSide ≤ spec.height) &&
      decide (spec.height ≤ maxSide))
  require .entityLimits
    (decide (spec.walls.length ≤ maxWalls) && decide (minCells ≤ spec.cells.length) &&
      decide (spec.cells.length ≤ maxCells) && decide (spec.sources.length ≤ maxSources) &&
      decide (spec.depots.length ≤ maxDepots) && decide (minBeacons ≤ spec.beacons.length) &&
      decide (spec.beacons.length ≤ maxBeacons) && decide (spec.valves.length ≤ maxValves) &&
      decide (spec.links.length ≤ maxLinks))
  let rows ← spec.walls.foldlM spec.checkWall (Vector.replicate 32 0)
  require .duplicateId
    (distinct (spec.cells.map (·.id)) && distinct (spec.sources.map (·.id)) &&
      distinct (spec.depots.map (·.id)) && distinct (spec.beacons.map (·.id)) &&
      distinct (spec.valves.map (·.id)) && distinct (spec.links.map (·.id)))
  let _ ← (spec.cells.map (·.position)).foldlM (spec.checkPosition .cellPosition rows) []
  let _ ← spec.stations.foldlM (spec.checkPosition .stationPosition rows) []
  let _ ← spec.initialSparkList.foldlM checkSpark []
  forM spec.depots checkDepot
  forM spec.beacons checkBeacon
  forM spec.valves spec.checkValve
  forM spec.links spec.checkLink
  pure rows

end WorldSpec

structure World where
  spec : WorldSpec
  wallRows : WallRows
  valid : spec.check = .ok wallRows
deriving DecidableEq

namespace World

def new (spec : WorldSpec) : Except WorldError World :=
  match h : spec.check with
  | .ok rows => .ok ⟨spec, rows, h⟩
  | .error e => .error e

variable (world : World)

def width : UInt8 := world.spec.width
def height : UInt8 := world.spec.height
def walls : List Point := world.spec.walls
def sources : List Source := world.spec.sources
def depots : List Depot := world.spec.depots
def beacons : List Beacon := world.spec.beacons
def valves : List Valve := world.spec.valves
def cells : List CellBody := world.spec.cells
def links : List Link := world.spec.links

def isWall (point : Point) : Bool :=
  decide (point.y < maxSide) && decide (point.x < maxSide) && world.wallRows.has point

def initialSparks : UInt32 :=
  world.sources.foldl (fun count source => source.sparks.foldl (fun count _ => saturatingAdd count 1) count) 0

end World

structure CaseSpec where
  seed : UInt64
  ticks : UInt32
  fuel : UInt64
  activationFuel : UInt32
  events : List Event
  loadingWork : UInt64
deriving DecidableEq, Repr

def EventKind.exists (world : World) : EventKind → Bool
  | .linkEnabled id _ => world.links.any (·.id == id)
  | .valveEnabled id _ => world.valves.any (·.id == id)
  | .clearMemory cell => world.cells.any (·.id == cell)

def CaseSpec.checkEvent (world : World) (spec : CaseSpec) (event : Event) : Except WorldError Unit := do
  require .eventTick (decide (minTicks ≤ event.tick) && decide (event.tick ≤ spec.ticks))
  require .eventTarget (event.event.exists world)

/-- The body of `Case::new`. -/
def CaseSpec.check (world : World) (spec : CaseSpec) : Except WorldError Unit := do
  require .budget
    (decide (minTicks ≤ spec.ticks) && decide (spec.ticks ≤ maxTicks) && decide (spec.fuel ≤ maxFuel) &&
      decide (minActivationFuel ≤ spec.activationFuel) && decide (spec.activationFuel ≤ maxActivationFuel))
  require .loadingWork (decide (spec.loadingWork ≤ maxLoadingWork))
  require .entityLimits (decide (spec.events.length ≤ maxEvents))
  forM spec.events (spec.checkEvent world)

/-- A case validated against some world; the source's type does not say which one. -/
structure Case where
  spec : CaseSpec
  valid : ∃ world, spec.check world = .ok ()
deriving DecidableEq

namespace Case

def new (world : World) (spec : CaseSpec) : Except WorldError Case :=
  match h : spec.check world with
  | .ok () => .ok ⟨spec, world, h⟩
  | .error e => .error e

variable (case : Case)

def seed : UInt64 := case.spec.seed
def ticks : UInt32 := case.spec.ticks
def fuel : UInt64 := case.spec.fuel
def activationFuel : UInt32 := case.spec.activationFuel
def events : List Event := case.spec.events
def loadingWork : UInt64 := case.spec.loadingWork

end Case

structure Assignment where
  programs : List Program
  cells : List UInt16
  paired : programs.length = cells.length
deriving DecidableEq, Repr

namespace Assignment

/-- The program the sorted input names for a cell, with every `Route` valve known to the world. -/
def pick (world : World) (programs : List (UInt16 × Program)) (cell : CellBody) : Except WorldError Program := do
  let program ← okOr .assignmentCells ((programs.find? (·.1 == cell.id)).map (·.2))
  forM program.rules fun rule =>
    match rule.action with
    | .route valve _ => require .unknownValve (world.valves.any (·.id == valve.get))
    | _ => .ok ()
  pure program

/-- Validates `(cell id, program)` pairs sorted by cell id that cover every world cell once. -/
def validate (world : World) (programs : List (UInt16 × Program)) : Except WorldError Assignment := do
  require .assignmentCells
    (programs.length == world.cells.length && ascending (programs.map (·.1)))
  let ordered ← world.cells.mapM fun cell => do
    let program ← pick world programs cell
    pure (program, cell.id)
  pure ⟨ordered.map (·.1), ordered.map (·.2), by simp⟩

end Assignment

end Valhalla.Witness
