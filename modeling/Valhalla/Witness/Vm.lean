import Valhalla.Witness.State

/-!
# One activation (`vm.rs`: `emit` to `activate`)

`Ctx` is the source's `Ctx` together with the `&mut State` that every function of the tick loop also
takes; the world is a parameter. A charge works on the meter inside it and turns a meter error into a
fault. An index out of bounds is the fault `.internal .panic`.
-/

namespace Valhalla.Witness
open Fallible FixedWidth

structure Ctx where
  meter : Meter
  signals : List SignalEvent
  state : State

abbrev VmM := Fallible Fault Ctx

namespace VmM

def charge (category : Category) (amount : UInt64) : VmM Unit :=
  of fun c =>
    match exec (Meter.charge category amount) c.meter with
    | (.ok (), meter) => (.ok (), { c with meter })
    | (.error e, meter) => (.error (.ofMeter e), { c with meter })

def getState : VmM State := view Ctx.state

def setState (f : State → State) : VmM Unit := update fun c => { c with state := f c.state }

/-- `ctx.signals.push(event)`. -/
def record (event : SignalEvent) : VmM Unit := update fun c => { c with signals := c.signals ++ [event] }

/-- `xs[i]`. -/
def index {α : Type} (xs : List α) (i : Nat) : VmM α := okOr (.internal .panic) xs[i]?

/-- `.ok_or(RunError::Invariant)?`. -/
def expect {α : Type} (o : Option α) : VmM α := okOr (.internal .invariant) o

/-- `.ok_or(Arithmetic)?`. -/
def checked {α : Type} (o : Option α) : VmM α := okOr (.internal .arithmetic) o

/-- Go on unless the action fails here. -/
def guard (error : ActionError) (b : Bool) : VmM Unit := if b then pure () else throw (.action error)

end VmM
open VmM

def destination (position : Point) (heading : Direction) (direction : Relative) : Option Point :=
  match face heading direction with
  | .north => (checkedSub position.y 1).map fun y => ⟨position.x, y⟩
  | .east => (checkedAdd position.x 1).map fun x => ⟨x, position.y⟩
  | .south => (checkedAdd position.y 1).map fun y => ⟨position.x, y⟩
  | .west => (checkedSub position.x 1).map fun x => ⟨x, position.y⟩

/-- Whether an actor's step is blocked; the source passes `state.cells[index]` by its index. -/
def blocked (world : World) (state : State) (actor : CellState) (direction : Relative) : Bool :=
  match destination actor.position actor.heading direction with
  | none => true
  | some point =>
    decide (world.width ≤ point.x) || decide (world.height ≤ point.y) || world.isWall point ||
      state.cells.any fun other => other.id != actor.id && other.position == point

def originPosition (world : World) (state : State) : Endpoint → Option Point
  | .cell id _ => (state.cells.find? (·.id == id)).map (·.position)
  | .depot id => (world.depots.find? (·.id == id)).map (·.position)

section
variable (world : World)

def emitOutcome (state : State) (enabled : Bool) (endpoint : Endpoint) (recipient : Point) :
    VmM SignalOutcome :=
  if !enabled then pure .disabled
  else do
    let origin ← expect (originPosition world state endpoint)
    if origin.distance recipient != 1 then pure .notAdjacent
    else if maxPending ≤ state.pending.length then pure .full
    else pure .queued

def enqueue (signal : Signal) (accepted : UInt32) (outcome : SignalOutcome) : VmM UInt32 :=
  if outcome = .queued then do
    setState fun s => { s with pending := s.pending ++ [signal] }
    checked (checkedAdd accepted 1)
  else pure accepted

/-- One iteration of the loop in `emit`: the signals accepted so far and one link of the endpoint. -/
def emitLink (endpoint : Endpoint) (bit : Bool) (evidence : Option UInt32) (accepted : UInt32) :
    Link × Nat → VmM UInt32
  | (link, i) => do
    charge .messages 1
    charge .checking 1
    let state ← getState
    let recipient ← expect ((state.cells.find? (·.id == link.toCell)).map (·.position))
    let deliverTick ← checked (checkedAdd state.tick link.delay)
    let signal : Signal :=
      { id := state.nextSignal
        link := link.id
        origin := endpoint
        toCell := link.toCell
        toPort := link.toPort
        bit
        sentTick := state.tick
        deliverTick
        receiptSpark := evidence }
    let nextSignal ← checked (checkedAdd state.nextSignal 1)
    setState fun s => { s with nextSignal }
    let entry ← index state.links i
    let outcome ← emitOutcome world state entry.enabled endpoint recipient
    let accepted ← enqueue signal accepted outcome
    record ⟨signal, outcome⟩
    pure accepted

def linksFrom (endpoint : Endpoint) : List (Link × Nat) :=
  world.links.zipIdx.filter (·.1.origin == endpoint)

def emit (endpoint : Endpoint) (bit : Bool) (evidence : Option UInt32) : VmM UInt32 :=
  (linksFrom world endpoint).foldlM (emitLink world endpoint bit evidence) 0

def atDepot (cell : CellState) : Bool := world.depots.any (·.position == cell.position)

def atBeacon (cell : CellState) : Bool := world.beacons.any (·.position == cell.position)

def atSource (cell : CellState) : Bool := world.sources.any (·.position == cell.position)

def senses (state : State) (cell : CellState) : Condition → VmM Bool
  | .carrying value => pure (cell.cargo.isSome == value)
  | .atSource value => pure (atSource world cell == value)
  | .atDepot value => pure (atDepot world cell == value)
  | .atBeacon value => pure (atBeacon world cell == value)
  | .atReceiver value => pure ((atDepot world cell || atBeacon world cell) == value)
  | .blocked direction value => pure (blocked world state cell direction == value)
  | .hasMessage port value => pure ((cell.signalAt port.index).isSome == value)
  | .messageBit port value => pure ((cell.signalAt port.index).any (·.bit == value))
  | .heading direction => pure (cell.heading == direction)
  | .memory _ _ => throw (.internal .invariant)

def checkCondition (state : State) (i : Nat) (condition : Condition) : VmM Bool := do
  charge .conditions 1
  let cell ← index state.cells i
  match condition with
  | .memory slot value => do
    charge .memoryReads 1
    pure (cell.byteAt slot.index == value)
  | condition => do
    charge .sensors 1
    senses world state cell condition

def readBit (cell : CellState) : BitSource → VmM (Bool × Option UInt32)
  | .constant value => do
    charge .checking 1
    pure (value, none)
  | .memory slot => do
    charge .memoryReads 1
    pure (cell.byteAt slot.index != 0, cell.evidenceAt slot.index)
  | .message port => do
    charge .sensors 1
    let signal ← okOr (.action .noMessage) (cell.signalAt port.index)
    pure (signal.bit, signal.receiptSpark)

/-- Credit a spark to the beacon with index `b`. -/
def credit (b : Nat) (spark : Spark) : VmM Unit := do
  charge .transfers 1
  let specification ← index world.beacons b
  let state ← getState
  let entry ← index state.beacons b
  let charge ← checked (checkedAdd entry.charge specification.sparkCharge)
  setState (·.modifyBeacon b fun e => { e with charge })
  let delivered ← checked (checkedAdd entry.delivered 1)
  setState fun s => s.modifyBeacon b fun e => { e with delivered }
  setState fun s => { s with delivered := s.delivered ++ [⟨s.tick, spark, specification.id⟩] }

/-! ### Actions of the cell with index `i` -/

def move (i : Nat) (direction : Relative) : VmM Unit := do
  charge .checking 1
  let body ← index world.cells i
  let state ← getState
  let cell ← index state.cells i
  guard .movementBlocked (body.mobile && !blocked world state cell direction)
  charge .transfers 1
  let position ← expect (destination cell.position cell.heading direction)
  setState (·.modifyCell i fun c => { c with position, heading := face c.heading direction })

def turn (i : Nat) (direction : Relative) : VmM Unit := do
  charge .transfers 1
  let state ← getState
  let _ ← index state.cells i
  setState (·.modifyCell i fun c => { c with heading := face c.heading direction })

def pickup (i : Nat) : VmM Unit := do
  charge .checking 1
  let state ← getState
  let cell ← index state.cells i
  guard .cargoFull cell.cargo.isNone
  let source ← okOr (.action .notAtSource) (world.sources.findIdx? (·.position == cell.position))
  let store ← index state.sources source
  let spark ← okOr (.action .sourceEmpty) store.sparks.head?
  charge .transfers 1
  setState (·.modifySource source SparkStore.removeFirst)
  setState (·.modifyCell i fun c => { c with cargo := some spark })

/-- `Drop` on the depot with index `d`. -/
def deposit (i d : Nat) (spark : Spark) : VmM Unit := do
  let specification ← index world.depots d
  let state ← getState
  let store ← index state.depots d
  guard .depotFull (decide (store.sparks.length < specification.capacity.toNat))
  charge .transfers 1
  setState (·.modifyCell i fun c => { c with cargo := none })
  setState (·.modifyDepot d (SparkStore.push spark))
  let _ ← emit world (.depot specification.id) spark.bit (some spark.id)

/-- `Drop` on the beacon with index `b`. -/
def deliverHere (i b : Nat) (spark : Spark) : VmM Unit := do
  let specification ← index world.beacons b
  guard .beaconRejectsBit (specification.accepts == spark.bit)
  credit world b spark
  setState (·.modifyCell i fun c => { c with cargo := none })

def drop (i : Nat) : VmM Unit := do
  charge .checking 1
  let state ← getState
  let cell ← index state.cells i
  let spark ← okOr (.action .cargoEmpty) cell.cargo
  match world.depots.findIdx? (·.position == cell.position) with
  | some d => deposit world i d spark
  | none =>
    match world.beacons.findIdx? (·.position == cell.position) with
    | some b => deliverHere world i b spark
    | none => throw (.action .notAtReceiver)

def writeMemory (i : Nat) (slot : Slot) (value : UInt8) : VmM Unit := do
  charge .memoryWrites 1
  let state ← getState
  let _ ← index state.cells i
  setState (·.modifyCell i fun c => c.writeSlot slot value none)

def takeMessage (i : Nat) (port : Port) (slot : Slot) : VmM Unit := do
  charge .sensors 1
  let state ← getState
  let cell ← index state.cells i
  let signal ← okOr (.action .noMessage) (cell.signalAt port.index)
  charge .memoryWrites 1
  charge .messages 1
  setState (·.modifyCell i fun c =>
    (c.writeSlot slot (if signal.bit then 1 else 0) signal.receiptSpark).setInbox port none)
  record ⟨signal, .consumed⟩

def send (i : Nat) (port : Port) (bit : BitSource) : VmM Unit := do
  let state ← getState
  let cell ← index state.cells i
  let (value, evidence) ← readBit cell bit
  let accepted ← emit world (.cell cell.id port) value evidence
  guard .noSignalQueued (accepted != 0)

def route (i : Nat) (valve : ValveId) (bit : BitSource) : VmM Unit := do
  let state ← getState
  let cell ← index state.cells i
  let (value, _) ← readBit cell bit
  charge .checking 1
  let v ← okOr (.action .unknownValve) (world.valves.findIdx? (·.id == valve.get))
  let specification ← index world.valves v
  guard .valveNotAdjacent (cell.position.distance specification.position == 1)
  let entry ← index state.valves v
  guard .valveDisabled entry.enabled
  let depot ← expect (world.depots.findIdx? (·.id == specification.depot))
  let store ← index state.depots depot
  let spark ← okOr (.action .depotEmpty) store.sparks.head?
  let beaconId := if value then specification.beaconOne else specification.beaconZero
  let b ← expect (world.beacons.findIdx? (·.id == beaconId))
  let target ← index world.beacons b
  guard .beaconRejectsBit (target.accepts == spark.bit)
  credit world b spark
  setState (·.modifyDepot depot SparkStore.removeFirst)

def execute (i : Nat) (action : Action) : VmM Unit := do
  charge .actions 1
  match action with
  | .wait => pure ()
  | .move direction => move world i direction
  | .turn direction => turn i direction
  | .pickup => pickup world i
  | .drop => drop world i
  | .writeMemory slot value => writeMemory i slot value
  | .takeMessage port slot => takeMessage i port slot
  | .send port bit => send world i port bit
  | .route valve bit => route world i valve bit

/-! ### Activations -/

def allHold (state : State) (i : Nat) : List Condition → VmM Bool
  | [] => pure true
  | condition :: rest => do
    if ← checkCondition world state i condition then allHold state i rest else pure false

/-- The first matching rule of the list, with its index counted from `n`. -/
def selectRule (state : State) (i : Nat) : Nat → List Rule → VmM (Option (Nat × Rule))
  | _, [] => pure none
  | n, rule :: rest => do
    charge .checking 1
    if ← allHold world state i rule.when then pure (some (n, rule))
    else selectRule state i (n + 1) rest

/-- The first half of `run_activation`: the selected rule and its `u8` index. -/
def choose (program : Program) (state : State) (i : Nat) : VmM (Option (UInt8 × Rule)) := do
  charge .scheduling 1
  let selected ← selectRule world state i 0 program.rules
  match selected with
  | none => pure none
  | some (n, rule) => do
    let number ← checked (if n < 256 then some (UInt8.ofNat n) else none)
    pure (some (number, rule))

def actionFailure : Fault → Option ActionError
  | .action error => some error
  | _ => none

/-- The `remember` byte of a rule. -/
def writeRemember (i : Nat) : Option MemoryWrite → VmM Unit
  | none => pure ()
  | some write => writeMemory i write.slot write.value

/-- The second half of `run_activation`: the action, then `remember` even if the action failed. -/
def perform (i : Nat) (action : Action) (remember : Option MemoryWrite) : VmM Unit := do
  let result ← attempt actionFailure (execute world i action)
  writeRemember i remember
  match result with
  | .ok () => pure ()
  | .error error => throw (.action error)

/-- `run_activation`: rules are matched against the committed `state`, the action works on the
scratch state in the context. The record is an out-parameter filled in before the action. -/
def runActivation (program : Program) (state : State) (i : Nat) (record : Activation) (c : Ctx) :
    (Except Fault Unit × Activation) × Ctx :=
  match exec (choose world program state i) c with
  | (.error fault, c) => ((.error fault, record), c)
  | (.ok selected, c) =>
    let action := (selected.map (·.2.action)).getD .wait
    let record := { record with rule := selected.map (·.1), action }
    let (result, c) := exec (perform world i action (selected.bind (·.2.remember))) c
    ((result, record), c)

end

end Valhalla.Witness
