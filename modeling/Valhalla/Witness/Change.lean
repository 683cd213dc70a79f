import Valhalla.Lib.Trace
import Valhalla.Witness.Run

/-!
# The witness world as a transition system

What a run may do to the committed state, one indivisible change at a time and without the meter: a
tick expires the inboxes, applies scheduled events, delivers what is due, lets cells act and drains
each beacon once, in this order. A stage is left only when its work is done. Changes record what
happened to signals, deposits and drains. `Moves.lean` shows that every run of the machine is a run
of this system.
-/

namespace Valhalla.Witness
open FixedWidth

/-- Where a tick is; `draining b` has the beacons below `b` behind it. -/
inductive Stage
  | idle | expiring | scheduled | delivering | acting
  | draining (next : Nat)
deriving DecidableEq, Repr

inductive Note
  | signal (tick : UInt32) (event : SignalEvent)
  | deposited (spark : Spark)
  | drained (beacon : Nat) (left : UInt32)
deriving DecidableEq, Repr

abbrev Entry := UInt32 × SignalEvent

def logged (notes : List Note) : List Entry :=
  notes.filterMap fun
    | .signal tick event => some (tick, event)
    | _ => none

@[simp] theorem logged_nil : logged [] = [] := rfl

@[simp] theorem logged_append (h n : List Note) : logged (h ++ n) = logged h ++ logged n :=
  List.filterMap_append

@[simp] theorem logged_signal (tick : UInt32) (event : SignalEvent) :
    logged [.signal tick event] = [(tick, event)] := rfl

@[simp] theorem logged_deposited (spark : Spark) : logged [.deposited spark] = [] := rfl

@[simp] theorem logged_drained (b : Nat) (left : UInt32) : logged [.drained b left] = [] := rfl

/-- The bits that may be sent in a state, with the evidence they carry: literals, memory slots,
messages, and deposits reported by a depot. -/
inductive Reads (s : State) : Bool → Option UInt32 → Prop
  | constant (value : Bool) : Reads s value none
  | memory {i : Nat} {cell : CellState} (slot : Slot) (hc : s.cells[i]? = some cell) :
      Reads s (cell.byteAt slot.index != 0) (cell.evidenceAt slot.index)
  | message {i : Nat} {cell : CellState} {signal : Signal} (port : Port) (hc : s.cells[i]? = some cell)
      (hs : cell.signalAt port.index = some signal) : Reads s signal.bit signal.receiptSpark
  | deposit {d : Nat} {store : DepotState} {spark : Spark} (hd : s.depots[d]? = some store)
      (hs : spark ∈ store.sparks) : Reads s spark.bit (some spark.id)

theorem Reads.congr {s t : State} {bit : Bool} {evidence : Option UInt32} (h : Reads s bit evidence)
    (hc : t.cells = s.cells) (hd : t.depots = s.depots) : Reads t bit evidence := by
  cases h with
  | constant => exact .constant bit
  | memory slot h => exact .memory slot (hc ▸ h)
  | message port h hs => exact .message port (hc ▸ h) hs
  | deposit h hs => exact .deposit (hd ▸ h) hs

def Link.signal (link : Link) (s : State) (bit : Bool) (evidence : Option UInt32) (deliverTick : UInt32) :
    Signal where
  id := s.nextSignal
  link := link.id
  origin := link.origin
  toCell := link.toCell
  toPort := link.toPort
  bit
  sentTick := s.tick
  deliverTick
  receiptSpark := evidence

def SignalOutcome.ofEmission : SignalOutcome → Bool
  | .queued | .disabled | .notAdjacent | .full => true
  | _ => false

def SignalOutcome.ofRefusal : SignalOutcome → Bool
  | .disabled | .notAdjacent | .full => true
  | _ => false

namespace State

def emitted (s : State) (signal : Signal) (outcome : SignalOutcome) (nextSignal : UInt64) : State :=
  { s with nextSignal, pending := if outcome = .queued then s.pending ++ [signal] else s.pending }

/-- The state after a credit to the beacon with index `b` and identifier `id`. -/
def credited (s : State) (b : Nat) (charge delivered : UInt32) (spark : Spark) (id : UInt16) : State :=
  { s.modifyBeacon b fun e => { e with charge, delivered } with
    delivered := s.delivered ++ [⟨s.tick, spark, id⟩] }

end State

inductive Change (w : World) : Stage × State → List Note → Stage × State → Prop
  | begin {s : State} {tick : UInt32} (h : checkedAdd s.tick 1 = some tick) :
      Change w (.idle, s) [] (.expiring, { s with tick })
  | expire {s : State} {i : Nat} {cell : CellState} {signal : Signal} (port : Fin ports)
      (hc : s.cells[i]? = some cell) (hs : cell.signalAt port = some signal) :
      Change w (.expiring, s) [.signal s.tick ⟨signal, .expired⟩]
        (.expiring, s.modifyCell i (·.setInbox ⟨port⟩ none))
  | expired {s : State} (h : ∀ cell ∈ s.cells, ∀ port : Fin ports, cell.signalAt port = none) :
      Change w (.expiring, s) [] (.scheduled, s)
  | linkEnabled {s : State} {id : UInt16} {enabled : Bool} {links : List EnabledState}
      (h : setEnabled s.links id enabled = some links) :
      Change w (.scheduled, s) [] (.scheduled, { s with links })
  | valveEnabled {s : State} {id : UInt16} {enabled : Bool} {valves : List EnabledState}
      (h : setEnabled s.valves id enabled = some valves) :
      Change w (.scheduled, s) [] (.scheduled, { s with valves })
  | clearMemory {s : State} (i : Nat) :
      Change w (.scheduled, s) [] (.scheduled, s.modifyCell i fun c =>
        { c with memory := Vector.replicate _ 0, evidence := Vector.replicate _ none })
  | schedule {s : State} : Change w (.scheduled, s) [] (.delivering, s)
  | deliver {s : State} {k r : Nat} {signal : Signal} {cell : CellState}
      (hk : s.pending[k]? = some signal) (hdue : ¬ s.tick < signal.deliverTick)
      (hc : s.cells[r]? = some cell) (hempty : cell.signalAt signal.toPort.index = none) :
      Change w (.delivering, s) [.signal s.tick ⟨signal, .delivered⟩]
        (.delivering, ({ s with pending := s.pending.eraseIdx k } : State).modifyCell r
          (·.setInbox signal.toPort (some signal)))
  | refuse {s : State} {k : Nat} {signal : Signal} {outcome : SignalOutcome}
      (hk : s.pending[k]? = some signal) (hdue : ¬ s.tick < signal.deliverTick)
      (ho : outcome.ofRefusal = true) :
      Change w (.delivering, s) [.signal s.tick ⟨signal, outcome⟩]
        (.delivering, { s with pending := s.pending.eraseIdx k })
  | delivered {s : State} (h : ∀ signal ∈ s.pending, s.tick < signal.deliverTick) :
      Change w (.delivering, s) [] (.acting, s)
  | move {s : State} {i : Nat} {body : CellBody} {cell : CellState} {direction : Relative} {point : Point}
      (hb : w.cells[i]? = some body) (hc : s.cells[i]? = some cell) (hm : body.mobile = true)
      (hfree : blocked w s cell direction = false)
      (hd : destination cell.position cell.heading direction = some point) :
      Change w (.acting, s) [] (.acting, s.modifyCell i fun c =>
        { c with position := point, heading := face c.heading direction })
  | turn {s : State} (i : Nat) (direction : Relative) :
      Change w (.acting, s) [] (.acting, s.modifyCell i fun c => { c with heading := face c.heading direction })
  | pickup {s : State} {i j : Nat} {cell : CellState} {store : SourceState} {spark : Spark}
      (hc : s.cells[i]? = some cell) (hcargo : cell.cargo = none) (hj : s.sources[j]? = some store)
      (hh : store.sparks.head? = some spark) :
      Change w (.acting, s) [] (.acting, (s.modifySource j SparkStore.removeFirst).modifyCell i fun c =>
        { c with cargo := some spark })
  | deposit {s : State} {i d : Nat} {cell : CellState} {depot : Depot} {store : DepotState} {spark : Spark}
      (hc : s.cells[i]? = some cell) (hcargo : cell.cargo = some spark) (hw : w.depots[d]? = some depot)
      (hd : s.depots[d]? = some store) (hcap : store.sparks.length < depot.capacity.toNat) :
      Change w (.acting, s) [.deposited spark]
        (.acting, (s.modifyCell i fun c => { c with cargo := none }).modifyDepot d (SparkStore.push spark))
  | deliverHere {s : State} {i b : Nat} {cell : CellState} {beacon : Beacon} {entry : BeaconState}
      {spark : Spark} {charge delivered : UInt32} (hc : s.cells[i]? = some cell)
      (hcargo : cell.cargo = some spark) (hw : w.beacons[b]? = some beacon)
      (he : s.beacons[b]? = some entry) (ha : beacon.accepts = spark.bit)
      (hcharge : checkedAdd entry.charge beacon.sparkCharge = some charge)
      (hdel : checkedAdd entry.delivered 1 = some delivered) :
      Change w (.acting, s) [] (.acting, (s.credited b charge delivered spark beacon.id).modifyCell i fun c =>
        { c with cargo := none })
  | route {s : State} {d b : Nat} {store : DepotState} {beacon : Beacon} {entry : BeaconState}
      {spark : Spark} {charge delivered : UInt32} (hd : s.depots[d]? = some store)
      (hh : store.sparks.head? = some spark) (hw : w.beacons[b]? = some beacon)
      (he : s.beacons[b]? = some entry) (ha : beacon.accepts = spark.bit)
      (hcharge : checkedAdd entry.charge beacon.sparkCharge = some charge)
      (hdel : checkedAdd entry.delivered 1 = some delivered) :
      Change w (.acting, s) []
        (.acting, (s.credited b charge delivered spark beacon.id).modifyDepot d SparkStore.removeFirst)
  | write {s : State} (i : Nat) (slot : Slot) (value : UInt8) :
      Change w (.acting, s) [] (.acting, s.modifyCell i fun c => c.writeSlot slot value none)
  | take {s : State} {i : Nat} {cell : CellState} {signal : Signal} (port : Port) (slot : Slot)
      (hc : s.cells[i]? = some cell) (hs : cell.signalAt port.index = some signal) :
      Change w (.acting, s) [.signal s.tick ⟨signal, .consumed⟩] (.acting, s.modifyCell i fun c =>
        (c.writeSlot slot (if signal.bit then 1 else 0) signal.receiptSpark).setInbox port none)
  | emit {s : State} {l : Nat} {link : Link} {bit : Bool} {evidence : Option UInt32} {deliverTick : UInt32}
      {nextSignal : UInt64} {outcome : SignalOutcome} (hl : w.links[l]? = some link)
      (hr : Reads s bit evidence) (ht : checkedAdd s.tick link.delay = some deliverTick)
      (hn : checkedAdd s.nextSignal 1 = some nextSignal) (ho : outcome.ofEmission = true)
      (hfull : outcome = .queued → s.pending.length < maxPending) :
      Change w (.acting, s) [.signal s.tick ⟨link.signal s bit evidence deliverTick, outcome⟩]
        (.acting, s.emitted (link.signal s bit evidence deliverTick) outcome nextSignal)
  | acted {s : State} : Change w (.acting, s) [] (.draining 0, s)
  | drain {s : State} {b : Nat} {beacon : Beacon} {entry : BeaconState} {charge drained : UInt32}
      (hw : w.beacons[b]? = some beacon) (hphase : checkedRem s.tick beacon.drainEvery = some 0)
      (he : s.beacons[b]? = some entry)
      (hcharge : checkedSub entry.charge (least entry.charge beacon.drainAmount) = some charge)
      (hdrained : checkedAdd entry.drained (least entry.charge beacon.drainAmount) = some drained) :
      Change w (.draining b, s) [.drained b charge] (.draining (b + 1), s.modifyBeacon b fun e =>
        { e with charge, drained, exhausted := e.exhausted || charge == 0 })
  | skip {s : State} {b : Nat} {beacon : Beacon} {phase : UInt32} (hw : w.beacons[b]? = some beacon)
      (hphase : checkedRem s.tick beacon.drainEvery = some phase) (hne : phase ≠ 0) :
      Change w (.draining b, s) [] (.draining (b + 1), s)
  | finish {s : State} : Change w (.draining w.beacons.length, s) [] (.idle, s)

abbrev Changes (w : World) := Steps (Change w)

end Valhalla.Witness
