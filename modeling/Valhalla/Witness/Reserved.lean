import Valhalla.Witness.Run
import Valhalla.Witness.StateCodec

/-!
# Runs that cannot allocate (`vm.rs`, with the capacities of `State::allocated` and `Machine::new`)

The functions of a run again, each push and each `extend` of a vector behind a check that the entry fits what was reserved for the
vector. Where it does not, the source would reallocate; here the run ends with `.panic`. Functions that let no vector grow are the
ones of the plain run.
-/

namespace Valhalla.Witness
open Fallible FixedWidth

def maxSignalEventsPerTick : Nat := maxCells * ports + maxPending + maxCells * maxLinks

/-- A vector with room for `capacity` entries is about to have `len`. -/
def reserve {σ : Type} (capacity len : Nat) : Fallible Fault σ Unit :=
  if len ≤ capacity then pure () else throw (.internal .panic)

namespace Reserved
open VmM

/-! ### States -/

/-- The vectors of `State::allocated` take up those of a state. -/
def hold {σ : Type} (s : State) : Fallible Fault σ Unit := do
  reserve maxCells s.cells.length
  reserve maxSources s.sources.length
  forM s.sources fun source => reserve maxInitialSparks source.sparks.length
  reserve maxDepots s.depots.length
  forM s.depots fun depot => reserve maxDepotCapacity.toNat depot.sparks.length
  reserve maxBeacons s.beacons.length
  reserve maxValves s.valves.length
  reserve maxLinks s.links.length
  reserve maxPending s.pending.length
  reserve maxDeliveries s.delivered.length

/-! ### Activations -/

section
variable (world : World)

def record (event : SignalEvent) : VmM Unit := do
  let signals ← view Ctx.signals
  reserve maxSignalEventsPerTick (signals.length + 1)
  VmM.record event

def enqueue (signal : Signal) (accepted : UInt32) (outcome : SignalOutcome) : VmM UInt32 :=
  if outcome = .queued then do
    let state ← getState
    reserve maxPending (state.pending.length + 1)
    setState fun s => { s with pending := s.pending ++ [signal] }
    checked (checkedAdd accepted 1)
  else pure accepted

def emitLink (endpoint : Endpoint) (bit : Bool) (evidence : Option UInt32) (accepted : UInt32) : Link × Nat → VmM UInt32
  | (link, i) => do
    charge .messages 1
    charge .checking 1
    let state ← getState
    let recipient ← expect ((state.cells.find? (·.id == link.toCell)).map (·.position))
    let deliverTick ← checked (checkedAdd state.tick link.delay)
    let signal : Signal :=
      { id := state.nextSignal
        link := link.id
        origin := endpoint
        toCell := link.toCell
        toPort := link.toPort
        bit
        sentTick := state.tick
        deliverTick
        receiptSpark := evidence }
    let nextSignal ← checked (checkedAdd state.nextSignal 1)
    setState fun s => { s with nextSignal }
    let entry ← index state.links i
    let outcome ← emitOutcome world state entry.enabled endpoint recipient
    let accepted ← enqueue signal accepted outcome
    record ⟨signal, outcome⟩
    pure accepted

def emit (endpoint : Endpoint) (bit : Bool) (evidence : Option UInt32) : VmM UInt32 :=
  (linksFrom world endpoint).foldlM (emitLink world endpoint bit evidence) 0

def credit (b : Nat) (spark : Spark) : VmM Unit := do
  charge .transfers 1
  let specification ← index world.beacons b
  let state ← getState
  let entry ← index state.beacons b
  let charge ← checked (checkedAdd entry.charge specification.sparkCharge)
  setState (·.modifyBeacon b fun e => { e with charge })
  let delivered ← checked (checkedAdd entry.delivered 1)
  setState fun s => s.modifyBeacon b fun e => { e with delivered }
  reserve maxDeliveries (state.delivered.length + 1)
  setState fun s => { s with delivered := s.delivered ++ [⟨s.tick, spark, specification.id⟩] }

def deposit (i d : Nat) (spark : Spark) : VmM Unit := do
  let specification ← index world.depots d
  let state ← getState
  let store ← index state.depots d
  guard .depotFull (decide (store.sparks.length < specification.capacity.toNat))
  charge .transfers 1
  setState (·.modifyCell i fun c => { c with cargo := none })
  reserve maxDepotCapacity.toNat (store.sparks.length + 1)
  setState (·.modifyDepot d (SparkStore.push spark))
  let _ ← emit world (.depot specification.id) spark.bit (some spark.id)

def deliverHere (i b : Nat) (spark : Spark) : VmM Unit := do
  let specification ← index world.beacons b
  guard .beaconRejectsBit (specification.accepts == spark.bit)
  credit world b spark
  setState (·.modifyCell i fun c => { c with cargo := none })

def drop (i : Nat) : VmM Unit := do
  charge .checking 1
  let state ← getState
  let cell ← index state.cells i
  let spark ← okOr (.action .cargoEmpty) cell.cargo
  match world.depots.findIdx? (·.position == cell.position) with
  | some d => deposit world i d spark
  | none =>
    match world.beacons.findIdx? (·.position == cell.position) with
    | some b => deliverHere world i b spark
    | none => throw (.action .notAtReceiver)

def takeMessage (i : Nat) (port : Port) (slot : Slot) : VmM Unit := do
  charge .sensors 1
  let state ← getState
  let cell ← index state.cells i
  let signal ← okOr (.action .noMessage) (cell.signalAt port.index)
  charge .memoryWrites 1
  charge .messages 1
  setState (·.modifyCell i fun c =>
    (c.writeSlot slot (if signal.bit then 1 else 0) signal.receiptSpark).setInbox port none)
  record ⟨signal, .consumed⟩

def send (i : Nat) (port : Port) (bit : BitSource) : VmM Unit := do
  let state ← getState
  let cell ← index state.cells i
  let (value, evidence) ← readBit cell bit
  let accepted ← emit world (.cell cell.id port) value evidence
  guard .noSignalQueued (accepted != 0)

def route (i : Nat) (valve : ValveId) (bit : BitSource) : VmM Unit := do
  let state ← getState
  let cell ← index state.cells i
  let (value, _) ← readBit cell bit
  charge .checking 1
  let v ← okOr (.action .unknownValve) (world.valves.findIdx? (·.id == valve.get))
  let specification ← index world.valves v
  guard .valveNotAdjacent (cell.position.distance specification.position == 1)
  let entry ← index state.valves v
  guard .valveDisabled entry.enabled
  let depot ← expect (world.depots.findIdx? (·.id == specification.depot))
  let store ← index state.depots depot
  let spark ← okOr (.action .depotEmpty) store.sparks.head?
  let beaconId := if value then specification.beaconOne else specification.beaconZero
  let b ← expect (world.beacons.findIdx? (·.id == beaconId))
  let target ← index world.beacons b
  guard .beaconRejectsBit (target.accepts == spark.bit)
  credit world b spark
  setState (·.modifyDepot depot SparkStore.removeFirst)

def execute (i : Nat) (action : Action) : VmM Unit := do
  charge .actions 1
  match action with
  | .wait => pure ()
  | .move direction => move world i direction
  | .turn direction => turn i direction
  | .pickup => pickup world i
  | .drop => drop world i
  | .writeMemory slot value => writeMemory i slot value
  | .takeMessage port slot => takeMessage i port slot
  | .send port bit => send world i port bit
  | .route valve bit => route world i valve bit

def perform (i : Nat) (action : Action) (remember : Option MemoryWrite) : VmM Unit := do
  let result ← attempt actionFailure (execute world i action)
  writeRemember i remember
  match result with
  | .ok () => pure ()
  | .error error => throw (.action error)

def runActivation (program : Program) (state : State) (i : Nat) (record : Activation) (c : Ctx) :
    (Except Fault Unit × Activation) × Ctx :=
  match exec (choose world program state i) c with
  | (.error fault, c) => ((.error fault, record), c)
  | (.ok selected, c) =>
    let action := (selected.map (·.2.action)).getD .wait
    let record := { record with rule := selected.map (·.1), action }
    let (result, c) := exec (perform world i action (selected.bind (·.2.remember))) c
    ((result, record), c)

def attemptActivation (case : Case) (program : Program) (i : Nat) (record : Activation) :
    TickM (Except Fault Unit × Activation) := do
  let meter ← okOr (.internal .arithmetic) (← view (·.meter.beginActivation case.activationFuel))
  let state ← view Machine.state
  hold state
  of fun m =>
    let (result, c) := runActivation world program m.state i record ⟨meter, m.signals, m.scratch.copyFrom m.state⟩
    (.ok result, { m with meter := c.meter.endActivation, signals := c.signals, scratch := c.state })

def activate (case : Case) (program : Program) (i : Nat) : TickM (Activation × Option Stop) := do
  let state ← view Machine.state
  let cell ← okOr (.internal .panic) state.cells[i]?
  let workBefore ← okOr (.internal .arithmetic) (← view (·.meter.total))
  let record : Activation :=
    { cell := cell.id
      rule := none
      action := .wait
      success := false
      error := none
      positionBefore := cell.position
      positionAfter := cell.position
      workBefore
      workAfter := workBefore }
  let signals ← view Machine.signals
  let (result, record) ← attemptActivation world case program i record
  let workAfter ← okOr (.internal .arithmetic) (← view (·.meter.total))
  conclude i signals.length { record with workAfter } result

/-! ### The phases of a tick -/

def expirePort (i : Nat) (port : Fin ports) : VmM Unit := do
  let state ← getState
  let cell ← index state.cells i
  match cell.signalAt port with
  | none => pure ()
  | some signal => do
    charge .messages 1
    record ⟨signal, .expired⟩
    setState (·.modifyCell i (·.setInbox ⟨port⟩ none))

def expireInboxes : VmM Unit := do
  let state ← getState
  forM (List.range state.cells.length) fun i => forM (List.finRange ports) (expirePort i)

def applyEvents (case : Case) (tick : UInt32) : TickM Unit :=
  forM (case.events.filter (·.tick == tick)) fun event => do
    live (applyEvent event.event)
    let events ← view Machine.events
    reserve maxEvents (events.length + 1)
    update fun m => { m with events := m.events ++ [event.event] }

def deliverAt (k : Nat) (signal : Signal) : VmM Unit := do
  charge .messages 1
  charge .checking 1
  setState fun s => { s with pending := s.pending.eraseIdx k }
  let state ← getState
  let link ← expect (state.links.find? (·.id == signal.link))
  let recipient ← expect (state.cells.findIdx? (·.id == signal.toCell))
  let origin ← expect (originPosition world state signal.origin)
  let cell ← index state.cells recipient
  let outcome := dueOutcome link.enabled origin cell.position (cell.signalAt signal.toPort.index)
  receive recipient signal outcome
  record ⟨signal, outcome⟩

def deliverFrom (tick : UInt32) : Nat → List Signal → VmM Unit
  | _, [] => pure ()
  | k, signal :: remaining =>
    if tick < signal.deliverTick then deliverFrom tick (k + 1) remaining
    else do
      deliverAt world k signal
      deliverFrom tick k remaining

def deliverDue (tick : UInt32) : VmM Unit := do
  let state ← getState
  deliverFrom world tick 0 state.pending

def turnOf (assignment : Assignment) (case : Case) (id : UInt16) : TickM Unit := do
  let state ← view Machine.state
  let i ← okOr (.internal .invariant) (state.cells.findIdx? (·.id == id))
  let program ← okOr (.internal .invariant) assignment.programs[i]?
  let (record, limit) ← activate world case program i
  let activations ← view Machine.activations
  reserve maxCells (activations.length + 1)
  update fun m => { m with activations := m.activations ++ [record] }
  match limit with
  | none => pure ()
  | some .fuel => throw (.stop .fuel)
  | some .activation => update fun m => { m with status := .activationLimit }

/-- A tick behind `schedule`, which filled the order list. -/
def tick (assignment : Assignment) (case : Case) (tick : UInt32) : TickM Unit := do
  let order ← view Machine.order
  reserve maxCells order.length
  live (charge .scheduling 1)
  live expireInboxes
  applyEvents case tick
  live (deliverDue world tick)
  let order ← view Machine.order
  forM order (turnOf world assignment case)
  live (drainBeacons world tick)
  let work ← okOr (.internal .arithmetic) (← view endChecking)
  live (charge .checking work)

/-! ### Runs -/

variable (assignment : Assignment) (case : Case)

def runTicks : List UInt32 → UInt32 → Machine → List Frame × Except RunError (Machine × UInt32)
  | [], completed, m => ([], .ok (m, completed))
  | t :: rest, completed, m =>
    match exec (tick world assignment case t) (m.prepare case t) with
    | (.error (.internal error), _) => ([], .error error)
    | (.error (.action _), _) => ([], .error .invariant)
    | (.error (.stop _), m) => ([m.frame t false], .ok ({ m with status := .fuelExhausted }, completed))
    | (.ok (), m) =>
      match checkedAdd completed 1 with
      | none => ([m.frame t true], .error .arithmetic)
      | some completed =>
        let (frames, result) := runTicks rest completed m
        (m.frame t true :: frames, result)

def machineRun (m : Machine) : Run :=
  match m.initialChecking world case with
  | .error error => ⟨[], .error error⟩
  | .ok initialChecking =>
    match exec (load case initialChecking) m.meter with
    | (.error .arithmetic, _) => ⟨[], .error .arithmetic⟩
    | (.error (.stop _), meter) =>
      let m := { m with meter, status := .fuelExhausted }
      ⟨[m.loadingFrame false], summary world case m 0⟩
    | (.ok (), meter) =>
      let m := { m with meter, status := .complete }
      let (frames, result) := runTicks world assignment case case.tickList 0 m
      ⟨m.loadingFrame true :: frames, result >>= fun (m, completed) => summary world case m completed⟩

/-- A run; `Machine::new` has filled the live state and copied it into the scratch state. -/
def run : Run :=
  match Machine.new world assignment case with
  | .error error => ⟨[], .error error⟩
  | .ok m =>
    match exec (hold m.state) m with
    | (.error _, _) => ⟨[], .error .panic⟩
    | (.ok (), m) => machineRun world assignment case m

end

end Reserved

end Valhalla.Witness
