import Valhalla.Lib.FixedWidth

/-!
# The application language (`bounds.rs`, `model.rs`)

Cell programs: first-match rules over sensors, with one action each. The validated newtypes carry
their bound, so a slot or port out of range, a rule with nine conditions or an empty program cannot
be built; `new` is the only constructor the source exports.
-/

namespace Valhalla.Witness

/-! ### Static bounds -/

def minRules : Nat := 1
def maxRules : Nat := 32
def maxConditions : Nat := 8
abbrev memorySlots : Nat := 4
abbrev ports : Nat := 4
def minSide : UInt8 := 3
def maxSide : UInt8 := 32
def maxWalls : Nat := 512
def minCells : Nat := 1
def maxCells : Nat := 16
def maxSources : Nat := 8
def maxDepots : Nat := 8
def minBeacons : Nat := 1
def maxBeacons : Nat := 8
def maxValves : Nat := 8
def maxLinks : Nat := 32
def maxEvents : Nat := 64
def maxInitialSparks : Nat := 128
def maxPending : Nat := 128
def minTicks : UInt32 := 1
def maxTicks : UInt32 := 128
def maxFuel : UInt64 := 2000000
def minActivationFuel : UInt32 := 1
def maxActivationFuel : UInt32 := 1024
def maxLoadingWork : UInt64 := 65536
def minDepotCapacity : UInt8 := 1
def maxDepotCapacity : UInt8 := 128
def minBeaconCharge : UInt32 := 1
def maxBeaconCharge : UInt32 := 10000
def minDrainEvery : UInt32 := 1
def maxDrainEvery : UInt32 := maxTicks
def minDrainAmount : UInt32 := 1
def maxDrainAmount : UInt32 := 1024
def minSparkCharge : UInt32 := 1
def maxSparkCharge : UInt32 := 64
def maxRequiredDeliveries : UInt32 := 128
def minLinkDelay : UInt32 := 1
def maxLinkDelay : UInt32 := 16
def clearMemoryWrites : UInt64 := 4

/-! ### Programs -/

structure Slot where
  index : Fin memorySlots
deriving DecidableEq, Repr

structure Port where
  index : Fin ports
deriving DecidableEq, Repr

def Slot.new (index : UInt8) : Option Slot :=
  if h : index.toNat < memorySlots then some ⟨index.toNat, h⟩ else none

def Port.new (index : UInt8) : Option Port :=
  if h : index.toNat < ports then some ⟨index.toNat, h⟩ else none

def Slot.get (slot : Slot) : UInt8 := UInt8.ofNat slot.index

def Port.get (port : Port) : UInt8 := UInt8.ofNat port.index

structure ValveId where
  get : UInt16
deriving DecidableEq, Repr

/-- An absolute heading. -/
inductive Direction
  | north | east | south | west
deriving DecidableEq, Repr

/-- A heading relative to the cell's own. -/
inductive Relative
  | forward | left | right | back
deriving DecidableEq, Repr

/-- A leaf sensor. -/
inductive Condition
  | carrying (value : Bool)
  | atSource (value : Bool)
  | atDepot (value : Bool)
  | atBeacon (value : Bool)
  | atReceiver (value : Bool)
  | blocked (direction : Relative) (value : Bool)
  | hasMessage (port : Port) (value : Bool)
  | messageBit (port : Port) (value : Bool)
  | memory (slot : Slot) (value : UInt8)
  | heading (direction : Direction)
deriving DecidableEq, Repr

/-- Where a sent or routed bit comes from. -/
inductive BitSource
  | constant (value : Bool)
  | memory (slot : Slot)
  | message (port : Port)
deriving DecidableEq, Repr

inductive Action
  | move (direction : Relative)
  | turn (direction : Relative)
  | pickup
  | drop
  | wait
  | writeMemory (slot : Slot) (value : UInt8)
  | takeMessage (port : Port) (slot : Slot)
  | send (port : Port) (bit : BitSource)
  | route (valve : ValveId) (bit : BitSource)
deriving DecidableEq, Repr

/-- A byte written after the action, whether or not the action succeeded. -/
structure MemoryWrite where
  slot : Slot
  value : UInt8
deriving DecidableEq, Repr

inductive ModelError
  | noRules | tooManyRules | tooManyConditions
deriving DecidableEq, Repr

structure Rule where
  when : List Condition
  action : Action
  remember : Option MemoryWrite
  bounded : when.length ≤ maxConditions
deriving DecidableEq, Repr

def Rule.new (when : List Condition) (action : Action) (remember : Option MemoryWrite) :
    Except ModelError Rule :=
  if h : when.length > maxConditions then .error .tooManyConditions
  else .ok ⟨when, action, remember, Nat.le_of_not_gt h⟩

/-- A cell program: its rules are tried in order on every activation. -/
structure Program where
  rules : List Rule
  nonempty : minRules ≤ rules.length
  bounded : rules.length ≤ maxRules
deriving DecidableEq, Repr

def Program.new (rules : List Rule) : Except ModelError Program :=
  if h : rules.length < minRules then .error .noRules
  else if h' : rules.length > maxRules then .error .tooManyRules
  else .ok ⟨rules, Nat.le_of_not_lt h, Nat.le_of_not_gt h'⟩

def face (heading : Direction) (relative : Relative) : Direction :=
  let start := match heading with
    | .north => 0
    | .east => 1
    | .south => 2
    | .west => 3
  let offset := match relative with
    | .forward => 0
    | .right => 1
    | .back => 2
    | .left => 3
  match (start + offset) % 4 with
  | 0 => .north
  | 1 => .east
  | 2 => .south
  | _ => .west

theorem Slot.new_get (slot : Slot) : Slot.new slot.get = some slot := by
  obtain ⟨i, hi⟩ := slot
  have h : (UInt8.ofNat i).toNat = i := UInt8.toNat_ofNat_of_lt' (Nat.lt_trans hi (by decide))
  simp [Slot.new, Slot.get, h, hi]

theorem Slot.get_of_new {index : UInt8} {slot : Slot} (h : Slot.new index = some slot) :
    slot.get = index := by
  unfold Slot.new at h
  split at h
  · rw [← Option.some.inj h]; exact UInt8.ofNat_toNat
  · cases h

theorem Port.new_get (port : Port) : Port.new port.get = some port := by
  obtain ⟨i, hi⟩ := port
  have h : (UInt8.ofNat i).toNat = i := UInt8.toNat_ofNat_of_lt' (Nat.lt_trans hi (by decide))
  simp [Port.new, Port.get, h, hi]

theorem Port.get_of_new {index : UInt8} {port : Port} (h : Port.new index = some port) :
    port.get = index := by
  unfold Port.new at h
  split at h
  · rw [← Option.some.inj h]; exact UInt8.ofNat_toNat
  · cases h

end Valhalla.Witness
