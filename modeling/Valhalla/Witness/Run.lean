import Valhalla.Witness.Vm
import Mathlib.Data.List.Sort

/-!
# Ticks and runs (`vm.rs`: `activate` and `Machine`)

A machine holds the live state and the scratch state that activations work on. `tick` is the body of
the source's tick loop; `run` collects the frames an observer would see, in order, with the result.
-/

namespace Valhalla.Witness
open Fallible FixedWidth

structure Machine where
  meter : Meter
  state : State
  scratch : State
  signals : List SignalEvent
  activations : List Activation
  events : List EventKind
  order : List UInt16
  initialSparks : UInt32
  cellCount : UInt64
  beaconCount : UInt64
  status : RunStatus

abbrev TickM := Fallible Fault Machine

def Machine.ctx (m : Machine) : Ctx := ⟨m.meter, m.signals, m.state⟩

def Machine.setCtx (c : Ctx) (m : Machine) : Machine :=
  { m with meter := c.meter, signals := c.signals, state := c.state }

def live {α : Type} (m : VmM α) : TickM α := zoom Machine.ctx Machine.setCtx m

/-! ### Activation -/

section
variable (world : World)

def stopError : Stop → ActivationError
  | .fuel => .fuelExhausted
  | .activation => .activationLimit

def commit (i : Nat) : TickM Point := do
  let scratch ← view Machine.scratch
  let cell ← okOr (.internal .panic) scratch.cells[i]?
  update fun m => { m with state := m.scratch, scratch := m.state }
  pure cell.position

/-- The end of `activate`: a stopped activation is dropped with the events after `mark`, every other one
is committed. -/
def conclude (i mark : Nat) (record : Activation) : Except Fault Unit → TickM (Activation × Option Stop)
  | .error (.internal error) => throw (.internal error)
  | .error (.stop stop) => do
    update fun m => { m with signals := m.signals.take mark }
    pure ({ record with error := some (stopError stop) }, some stop)
  | .ok () => do
    let position ← commit i
    pure ({ record with success := true, positionAfter := position }, none)
  | .error (.action error) => do
    let position ← commit i
    pure ({ record with error := some (.action error), positionAfter := position }, none)

def attemptActivation (case : Case) (program : Program) (i : Nat) (record : Activation) :
    TickM (Except Fault Unit × Activation) := do
  let meter ← okOr (.internal .arithmetic) (← view (·.meter.beginActivation case.activationFuel))
  of fun m =>
    let (result, c) := runActivation world program m.state i record ⟨meter, m.signals, m.scratch.copyFrom m.state⟩
    (.ok result, { m with meter := c.meter.endActivation, signals := c.signals, scratch := c.state })

def activate (case : Case) (program : Program) (i : Nat) : TickM (Activation × Option Stop) := do
  let state ← view Machine.state
  let cell ← okOr (.internal .panic) state.cells[i]?
  let workBefore ← okOr (.internal .arithmetic) (← view (·.meter.total))
  let record : Activation :=
    { cell := cell.id
      rule := none
      action := .wait
      success := false
      error := none
      positionBefore := cell.position
      positionAfter := cell.position
      workBefore
      workAfter := workBefore }
  let signals ← view Machine.signals
  let (result, record) ← attemptActivation world case program i record
  let workAfter ← okOr (.internal .arithmetic) (← view (·.meter.total))
  conclude i signals.length { record with workAfter } result

/-! ### The phases of a tick -/

def expirePort (i : Nat) (port : Fin ports) : VmM Unit := do
  let state ← VmM.getState
  let cell ← VmM.index state.cells i
  match cell.signalAt port with
  | none => pure ()
  | some signal => do
    VmM.charge .messages 1
    VmM.record ⟨signal, .expired⟩
    VmM.setState (·.modifyCell i (·.setInbox ⟨port⟩ none))

def expireInboxes : VmM Unit := do
  let state ← VmM.getState
  forM (List.range state.cells.length) fun i => forM (List.finRange ports) (expirePort i)

/-- `entries.iter_mut().find(|e| e.id == id)?.enabled = enabled`. -/
def setEnabled (entries : List EnabledState) (id : UInt16) (enabled : Bool) : Option (List EnabledState) :=
  (entries.findIdx? (·.id == id)).map fun i => entries.modify i fun e => { e with enabled }

def applyEvent : EventKind → VmM Unit
  | .linkEnabled id enabled => do
    VmM.charge .checking 1
    VmM.charge .actions 1
    let state ← VmM.getState
    let links ← VmM.expect (setEnabled state.links id enabled)
    VmM.setState fun s => { s with links }
  | .valveEnabled id enabled => do
    VmM.charge .checking 1
    VmM.charge .actions 1
    let state ← VmM.getState
    let valves ← VmM.expect (setEnabled state.valves id enabled)
    VmM.setState fun s => { s with valves }
  | .clearMemory cell => do
    VmM.charge .checking 1
    VmM.charge .memoryWrites clearMemoryWrites
    let state ← VmM.getState
    let i ← VmM.expect (state.cells.findIdx? (·.id == cell))
    VmM.setState (·.modifyCell i fun c =>
      { c with memory := Vector.replicate _ 0, evidence := Vector.replicate _ none })

def applyEvents (case : Case) (tick : UInt32) : TickM Unit :=
  forM (case.events.filter (·.tick == tick)) fun event => do
    live (applyEvent event.event)
    update fun m => { m with events := m.events ++ [event.event] }

def dueOutcome (enabled : Bool) (origin recipient : Point) (inbox : Option Signal) : SignalOutcome :=
  if !enabled then .disabled
  else if origin.distance recipient != 1 then .notAdjacent
  else if inbox.isSome then .full
  else .delivered

def receive (recipient : Nat) (signal : Signal) (outcome : SignalOutcome) : VmM Unit :=
  if outcome = .delivered then VmM.setState (·.modifyCell recipient (·.setInbox signal.toPort (some signal)))
  else pure ()

/-- Deliver the due signal at position `k` of the queue. -/
def deliverAt (k : Nat) (signal : Signal) : VmM Unit := do
  VmM.charge .messages 1
  VmM.charge .checking 1
  VmM.setState fun s => { s with pending := s.pending.eraseIdx k }
  let state ← VmM.getState
  let link ← VmM.expect (state.links.find? (·.id == signal.link))
  let recipient ← VmM.expect (state.cells.findIdx? (·.id == signal.toCell))
  let origin ← VmM.expect (originPosition world state signal.origin)
  let cell ← VmM.index state.cells recipient
  let outcome := dueOutcome link.enabled origin cell.position (cell.signalAt signal.toPort.index)
  receive recipient signal outcome
  VmM.record ⟨signal, outcome⟩

/-- Walk the rest of the queue from position `k`: `remaining` are the entries from `k` on, which is
what the source's loop reads there, since a removal moves the next entry to the same position. -/
def deliverFrom (tick : UInt32) : Nat → List Signal → VmM Unit
  | _, [] => pure ()
  | k, signal :: remaining =>
    if tick < signal.deliverTick then deliverFrom tick (k + 1) remaining
    else do
      deliverAt world k signal
      deliverFrom tick k remaining

def deliverDue (tick : UInt32) : VmM Unit := do
  let state ← VmM.getState
  deliverFrom world tick 0 state.pending

def turnOf (assignment : Assignment) (case : Case) (id : UInt16) : TickM Unit := do
  let state ← view Machine.state
  let i ← okOr (.internal .invariant) (state.cells.findIdx? (·.id == id))
  let program ← okOr (.internal .invariant) assignment.programs[i]?
  let (record, limit) ← activate world case program i
  update fun m => { m with activations := m.activations ++ [record] }
  match limit with
  | none => pure ()
  | some .fuel => throw (.stop .fuel)
  | some .activation => update fun m => { m with status := .activationLimit }

/-- Drain the beacon with index `b` if its period divides the tick. -/
def drainBeacon (tick : UInt32) : Beacon × Nat → VmM Unit
  | (beacon, b) => do
    VmM.charge .checking 1
    let phase ← VmM.checked (checkedRem tick beacon.drainEvery)
    if phase = 0 then do
      VmM.charge .draining 1
      let state ← VmM.getState
      let entry ← VmM.index state.beacons b
      let drain := least entry.charge beacon.drainAmount
      let charge ← VmM.checked (checkedSub entry.charge drain)
      let drained ← VmM.checked (checkedAdd entry.drained drain)
      VmM.setState (·.modifyBeacon b fun e =>
        { e with charge, drained, exhausted := e.exhausted || charge == 0 })

def drainBeacons (tick : UInt32) : VmM Unit := forM world.beacons.zipIdx (drainBeacon tick)

def endChecking (m : Machine) : Option UInt64 := do
  let sum ← checkedAdd m.cellCount m.beaconCount
  checkedAdd sum m.initialSparks.toUInt64

def tick (assignment : Assignment) (case : Case) (tick : UInt32) : TickM Unit := do
  live (VmM.charge .scheduling 1)
  live expireInboxes
  applyEvents case tick
  live (deliverDue world tick)
  let order ← view Machine.order
  forM order (turnOf world assignment case)
  live (drainBeacons world tick)
  let work ← okOr (.internal .arithmetic) (← view endChecking)
  live (VmM.charge .checking work)

end

/-! ### Runs -/

/-- `u64::try_from(len)`. -/
def count (len : Nat) : Except RunError UInt64 :=
  if len < 2 ^ 64 then .ok (UInt64.ofNat len) else .error .arithmetic

/-- The splitmix64 finalizer; wrapping is its definition. -/
def mix (value : UInt64) : UInt64 :=
  let value := value + 0x9e3779b97f4a7c15
  let value := (value ^^^ (value >>> 30)) * 0xbf58476d1ce4e5b9
  let value := (value ^^^ (value >>> 27)) * 0x94d049bb133111eb
  value ^^^ (value >>> 31)

def orderKey (seed : UInt64) (tick : UInt32) (id : UInt16) : UInt64 × UInt16 :=
  (mix (seed ^^^ (tick.toUInt64 <<< 32) ^^^ id.toUInt64), id)

/-- Lexicographic order of keys; the ids make it total, so every sort gives the same list. -/
def keyLe (a b : UInt64 × UInt16) : Bool := decide (a.1 < b.1) || (a.1 == b.1 && decide (a.2 ≤ b.2))

def scheduled (seed : UInt64) (tick : UInt32) (ids : List UInt16) : List UInt16 :=
  ids.insertionSort fun a b => keyLe (orderKey seed tick a) (orderKey seed tick b)

namespace Machine

def new (world : World) (assignment : Assignment) (case : Case) : Except RunError Machine := do
  Check.require .assignmentMismatch (assignment.cells == world.cells.map (·.id))
  let state := State.initial world
  let cellCount ← count world.cells.length
  let beaconCount ← count world.beacons.length
  pure
    { meter := .new case.fuel
      state
      scratch := (State.allocated world).copyFrom state
      signals := []
      activations := []
      events := []
      order := []
      initialSparks := world.initialSparks
      cellCount
      beaconCount
      status := .complete }

/-- `schedule(tick)` and the resets before a tick. -/
def prepare (case : Case) (tick : UInt32) (m : Machine) : Machine :=
  { m with
    order := scheduled case.seed tick (m.state.cells.map (·.id))
    state := { m.state with tick }
    signals := []
    activations := []
    events := [] }

def frame (m : Machine) (tick : UInt32) (complete : Bool) : Frame where
  tick
  complete
  events := m.events
  signals := m.signals
  activations := m.activations
  state := m.state
  ledger := m.meter.ledger

def loadingFrame (m : Machine) (complete : Bool) : Frame where
  tick := 0
  complete
  events := []
  signals := []
  activations := []
  state := m.state
  ledger := m.meter.ledger

def sumLengths (lengths : List Nat) : Except RunError UInt64 :=
  lengths.foldlM (fun sum len => do
    let len ← count len
    Check.okOr .arithmetic (checkedAdd sum len)) 0

def initialChecking (world : World) (case : Case) (m : Machine) : Except RunError UInt64 := do
  let entities ← sumLengths
    [world.walls.length, world.cells.length, world.sources.length, world.depots.length,
      world.beacons.length, world.valves.length, world.links.length, case.events.length]
  Check.okOr .arithmetic (checkedAdd entities m.initialSparks.toUInt64)

def outcome (world : World) (m : Machine) : Except RunError Outcome := do
  let present ← sumLengths
    (m.state.sources.map (·.sparks.length) ++ m.state.depots.map (·.sparks.length) ++
      [m.state.cells.countP (·.cargo.isSome)] ++ [m.state.delivered.length])
  let allBeaconsPositive := m.state.beacons.all fun beacon => decide (0 < beacon.charge) && !beacon.exhausted
  let quotasMet := (world.beacons.zip m.state.beacons).all fun (goal, result) =>
    decide (goal.requiredDeliveries ≤ result.delivered)
  let conserved := present == m.initialSparks.toUInt64
  pure
    { allBeaconsPositive
      quotasMet
      conserved
      passed := m.status == .complete && allBeaconsPositive && quotasMet && conserved }

end Machine

structure Run where
  frames : List Frame
  result : Except RunError RunResult

section
variable (world : World) (assignment : Assignment) (case : Case)

/-- The ticks `1..=case.ticks()`. -/
def Case.tickList : List UInt32 := (List.range case.ticks.toNat).map fun k => UInt32.ofNat (k + 1)

def runTicks : List UInt32 → UInt32 → Machine → List Frame × Except RunError (Machine × UInt32)
  | [], completed, m => ([], .ok (m, completed))
  | t :: rest, completed, m =>
    match exec (tick world assignment case t) (m.prepare case t) with
    | (.error (.internal error), _) => ([], .error error)
    | (.error (.action _), _) => ([], .error .invariant)
    | (.error (.stop _), m) => ([m.frame t false], .ok ({ m with status := .fuelExhausted }, completed))
    | (.ok (), m) =>
      match checkedAdd completed 1 with
      | none => ([m.frame t true], .error .arithmetic)
      | some completed =>
        let (frames, result) := runTicks rest completed m
        (m.frame t true :: frames, result)

def summary (m : Machine) (completed : UInt32) : Except RunError RunResult := do
  let outcome ← m.outcome world
  pure
    { status := m.status
      ticksCompleted := completed
      initialSparks := m.initialSparks
      ledger := m.meter.ledger
      outcome := { outcome with passed := outcome.passed && completed == case.ticks }
      finalState := m.state }

def load (initialChecking : UInt64) : Fallible MeterError Meter Unit := do
  Meter.charge .loading case.loadingWork
  Meter.charge .checking initialChecking

def Machine.run (m : Machine) : Run :=
  match m.initialChecking world case with
  | .error error => ⟨[], .error error⟩
  | .ok initialChecking =>
    match exec (load case initialChecking) m.meter with
    | (.error .arithmetic, _) => ⟨[], .error .arithmetic⟩
    | (.error (.stop _), meter) =>
      let m := { m with meter, status := .fuelExhausted }
      ⟨[m.loadingFrame false], summary world case m 0⟩
    | (.ok (), meter) =>
      let m := { m with meter, status := .complete }
      let (frames, result) := runTicks world assignment case case.tickList 0 m
      ⟨m.loadingFrame true :: frames, result >>= fun (m, completed) => summary world case m completed⟩

def run : Run :=
  match Machine.new world assignment case with
  | .error error => ⟨[], .error error⟩
  | .ok m => m.run world assignment case

end

end Valhalla.Witness
