import Valhalla.Witness.World
import Valhalla.Witness.Ledger

/-!
# The run's data (`vm.rs`)

Signals, the world state, and what a run reports: activations, frames and outcomes. `RunError` has
one constructor the source does not: `panic` is an index out of bounds, where the Rust code panics
instead of returning.
-/

namespace Valhalla.Witness

/-- A signal in flight or in an inbox. -/
structure Signal where
  id : UInt64
  link : UInt16
  origin : Endpoint
  toCell : UInt16
  toPort : Port
  bit : Bool
  sentTick : UInt32
  deliverTick : UInt32
  receiptSpark : Option UInt32
deriving DecidableEq, Repr

inductive SignalOutcome
  | queued | disabled | notAdjacent | full | delivered | expired | consumed
deriving DecidableEq, Repr

structure SignalEvent where
  signal : Signal
  outcome : SignalOutcome
deriving DecidableEq, Repr

structure CellState where
  id : UInt16
  position : Point
  heading : Direction
  memory : Vector UInt8 memorySlots
  evidence : Vector (Option UInt32) memorySlots
  cargo : Option Spark
  inbox : Vector (Option Signal) ports
deriving DecidableEq, Repr

/-- Remaining sparks of a source, or stored sparks of a depot, oldest first. -/
structure SparkStore where
  id : UInt16
  sparks : List Spark
deriving DecidableEq, Repr

abbrev SourceState := SparkStore
abbrev DepotState := SparkStore

structure BeaconState where
  id : UInt16
  charge : UInt32
  delivered : UInt32
  drained : UInt32
  exhausted : Bool
deriving DecidableEq, Repr

/-- Enabled flag of a link or valve. -/
structure EnabledState where
  id : UInt16
  enabled : Bool
deriving DecidableEq, Repr

structure Delivery where
  tick : UInt32
  spark : Spark
  beacon : UInt16
deriving DecidableEq, Repr

structure State where
  tick : UInt32
  cells : List CellState
  sources : List SourceState
  depots : List DepotState
  beacons : List BeaconState
  valves : List EnabledState
  links : List EnabledState
  pending : List Signal
  delivered : List Delivery
  nextSignal : UInt64
deriving DecidableEq, Repr

namespace State

/-- The buffers of a run before anything is copied into them. -/
def allocated (world : World) : State where
  tick := 0
  cells := []
  sources := world.sources.map fun source => ⟨source.id, []⟩
  depots := world.depots.map fun depot => ⟨depot.id, []⟩
  beacons := []
  valves := []
  links := []
  pending := []
  delivered := []
  nextSignal := 1

def initial (world : World) : State :=
  let state := allocated world
  { state with
    cells := world.cells.map fun cell =>
      { id := cell.id
        position := cell.position
        heading := cell.heading
        memory := cell.memory
        evidence := Vector.replicate _ none
        cargo := none
        inbox := Vector.replicate _ none }
    sources := (state.sources.zip world.sources).map fun (entry, source) =>
      { entry with sparks := entry.sparks ++ source.sparks }
    beacons := world.beacons.map fun beacon => ⟨beacon.id, beacon.initialCharge, 0, 0, false⟩
    valves := world.valves.map fun valve => ⟨valve.id, valve.enabled⟩
    links := world.links.map fun link => ⟨link.id, link.enabled⟩ }

/-- `zip` over two buffers: entries of the longer one are left as they were. -/
def copyStores : List SparkStore → List SparkStore → List SparkStore
  | _ :: entries, store :: stores => store :: copyStores entries stores
  | entries, _ => entries

/-- Copies `other` into the buffers of `self`. -/
def copyFrom (self other : State) : State where
  tick := other.tick
  cells := other.cells
  sources := copyStores self.sources other.sources
  depots := copyStores self.depots other.depots
  beacons := other.beacons
  valves := other.valves
  links := other.links
  pending := other.pending
  delivered := other.delivered
  nextSignal := other.nextSignal

/-! ### Updates of one entry -/

variable (s : State) (i : Nat)

def modifyCell (f : CellState → CellState) : State := { s with cells := s.cells.modify i f }
def modifySource (f : SourceState → SourceState) : State := { s with sources := s.sources.modify i f }
def modifyDepot (f : DepotState → DepotState) : State := { s with depots := s.depots.modify i f }
def modifyBeacon (f : BeaconState → BeaconState) : State := { s with beacons := s.beacons.modify i f }

end State

/-- `sparks.remove(0)`. -/
def SparkStore.removeFirst (store : SparkStore) : SparkStore := { store with sparks := store.sparks.tail }

/-- `sparks.push(spark)`. -/
def SparkStore.push (spark : Spark) (store : SparkStore) : SparkStore :=
  { store with sparks := store.sparks ++ [spark] }

namespace CellState
variable (cell : CellState)

/-- `inbox[port]`, `memory[slot]` and `evidence[slot]`. -/
abbrev signalAt (port : Fin ports) : Option Signal := cell.inbox[port]
abbrev byteAt (slot : Fin memorySlots) : UInt8 := cell.memory[slot]
abbrev evidenceAt (slot : Fin memorySlots) : Option UInt32 := cell.evidence[slot]

def writeSlot (slot : Slot) (value : UInt8) (evidence : Option UInt32) : CellState :=
  { cell with
    memory := cell.memory.set slot.index value
    evidence := cell.evidence.set slot.index evidence }

def setInbox (port : Port) (signal : Option Signal) : CellState :=
  { cell with inbox := cell.inbox.set port.index signal }

end CellState

inductive ActionError
  | movementBlocked | cargoFull | notAtSource | sourceEmpty | cargoEmpty | depotFull
  | beaconRejectsBit | notAtReceiver | noMessage | noSignalQueued | unknownValve | valveNotAdjacent
  | valveDisabled | depotEmpty
deriving DecidableEq, Repr

inductive ActivationError
  | fuelExhausted | activationLimit
  | action (error : ActionError)
deriving DecidableEq, Repr

/-- One cell's turn. -/
structure Activation where
  cell : UInt16
  rule : Option UInt8
  action : Action
  success : Bool
  error : Option ActivationError
  positionBefore : Point
  positionAfter : Point
  workBefore : UInt64
  workAfter : UInt64
deriving DecidableEq, Repr

inductive RunStatus
  | complete | fuelExhausted | activationLimit
deriving DecidableEq, Repr

structure Outcome where
  allBeaconsPositive : Bool
  quotasMet : Bool
  conserved : Bool
  passed : Bool
deriving DecidableEq, Repr

structure RunResult where
  status : RunStatus
  ticksCompleted : UInt32
  initialSparks : UInt32
  ledger : Ledger
  outcome : Outcome
  finalState : State
deriving DecidableEq, Repr

inductive RunError
  | arithmetic | invariant | assignmentMismatch | panic
deriving DecidableEq, Repr

/-- What an observer sees of one tick. -/
structure Frame where
  tick : UInt32
  complete : Bool
  events : List EventKind
  signals : List SignalEvent
  activations : List Activation
  state : State
  ledger : Ledger
deriving DecidableEq, Repr

inductive Fault
  | stop (stop : Stop)
  | action (error : ActionError)
  | internal (error : RunError)
deriving DecidableEq, Repr

def Fault.ofMeter : MeterError → Fault
  | .stop reason => .stop reason
  | .arithmetic => .internal .arithmetic

end Valhalla.Witness
