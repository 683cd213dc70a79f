import Valhalla.Lib.Fallible
import Valhalla.Lib.FixedWidth

/-!
# The work ledger (`ledger.rs`)

Thirteen checked counters, and the meter that charges them: a charge adds as many units as fit
under the fuel bound and under the open activation window, and reports which bound stopped it. The
meter is a `Fallible` state, so a stopped charge keeps the units it could add.
-/

namespace Valhalla.Witness
open FixedWidth

inductive Stop
  | fuel | activation
deriving DecidableEq, Repr

inductive MeterError
  | stop (stop : Stop)
  | arithmetic
deriving DecidableEq, Repr

/-- A chargeable category; nothing in version 1 charges `copying` or `construction`. -/
inductive Category
  | loading | scheduling | conditions | sensors | memoryReads | memoryWrites | actions | messages
  | transfers | checking | draining
deriving DecidableEq, Repr

structure Ledger where
  loading : UInt64
  scheduling : UInt64
  conditions : UInt64
  sensors : UInt64
  memoryReads : UInt64
  memoryWrites : UInt64
  actions : UInt64
  messages : UInt64
  transfers : UInt64
  checking : UInt64
  draining : UInt64
  copying : UInt64
  construction : UInt64
deriving DecidableEq, Repr

namespace Ledger

def zero : Ledger := ⟨0, 0, 0, 0, 0, 0, 0, 0, 0, 0, 0, 0, 0⟩

def counters (l : Ledger) : List UInt64 :=
  [l.loading, l.scheduling, l.conditions, l.sensors, l.memoryReads, l.memoryWrites, l.actions,
    l.messages, l.transfers, l.checking, l.draining, l.copying, l.construction]

def total (l : Ledger) : Option UInt64 := l.counters.foldlM checkedAdd 0

def counter (l : Ledger) : Category → UInt64
  | .loading => l.loading
  | .scheduling => l.scheduling
  | .conditions => l.conditions
  | .sensors => l.sensors
  | .memoryReads => l.memoryReads
  | .memoryWrites => l.memoryWrites
  | .actions => l.actions
  | .messages => l.messages
  | .transfers => l.transfers
  | .checking => l.checking
  | .draining => l.draining

/-- Write through the source's `&mut u64` of a category. -/
def setCounter (l : Ledger) (value : UInt64) : Category → Ledger
  | .loading => { l with loading := value }
  | .scheduling => { l with scheduling := value }
  | .conditions => { l with conditions := value }
  | .sensors => { l with sensors := value }
  | .memoryReads => { l with memoryReads := value }
  | .memoryWrites => { l with memoryWrites := value }
  | .actions => { l with actions := value }
  | .messages => { l with messages := value }
  | .transfers => { l with transfers := value }
  | .checking => { l with checking := value }
  | .draining => { l with draining := value }

def units (l : Ledger) : Nat := (l.counters.map UInt64.toNat).sum

theorem foldlM_checkedAdd (vs : List UInt64) (acc : UInt64) (t : UInt64) :
    vs.foldlM checkedAdd acc = some t ↔ t.toNat = acc.toNat + (vs.map UInt64.toNat).sum := by
  induction vs generalizing acc with
  | nil => simp [UInt64.toNat_inj, eq_comm]
  | cons v vs ih =>
    rw [List.foldlM_cons, Option.bind_eq_bind, Option.bind_eq_some_iff]
    simp only [ih, List.map_cons, List.sum_cons]
    constructor
    · rintro ⟨s, hs, ht⟩
      have := checkedAdd_eq_some.1 hs
      simp at this; omega
    · intro ht
      have hlt := t.toNat_lt
      obtain ⟨s, hs⟩ := checkedAdd_isSome (a := acc) (b := v) (by simp; omega)
      have := checkedAdd_eq_some.1 hs
      exact ⟨s, hs, by simp at this; omega⟩

theorem total_eq_some {l : Ledger} {t : UInt64} : l.total = some t ↔ t.toNat = l.units := by
  simp [total, foldlM_checkedAdd, units]

theorem total_isSome {l : Ledger} (h : l.units < 2 ^ 64) : ∃ t, l.total = some t :=
  ⟨UInt64.ofNat l.units, total_eq_some.2 (UInt64.toNat_ofNat_of_lt' h)⟩

@[simp] theorem units_zero : zero.units = 0 := rfl

theorem counter_le_units (l : Ledger) (c : Category) : (l.counter c).toNat ≤ l.units := by
  cases c <;> simp only [counter, units, counters, List.map_cons, List.map_nil, List.sum_cons,
    List.sum_nil] <;> omega

theorem units_setCounter (l : Ledger) (c : Category) (value : UInt64) :
    (l.setCounter value c).units + (l.counter c).toNat = l.units + value.toNat := by
  cases c <;> simp only [counter, setCounter, units, counters, List.map_cons, List.map_nil,
    List.sum_cons, List.sum_nil] <;> omega

end Ledger

/-- The fuel meter: the open activation window is its start and its limit. -/
structure Meter where
  ledger : Ledger
  fuel : UInt64
  activation : Option (UInt64 × UInt32)
deriving DecidableEq, Repr

namespace Meter
open Fallible

def new (fuel : UInt64) : Meter := ⟨.zero, fuel, none⟩

def total (m : Meter) : Option UInt64 := m.ledger.total

/-- The units left in the activation window; `none` if the window starts above the total. -/
def activationRoom (m : Meter) (total : UInt64) : Option UInt64 :=
  match m.activation with
  | none => some (UInt64.ofNat (2 ^ 64 - 1))
  | some (start, limit) => (checkedSub total start).map (saturatingSub limit.toUInt64)

/-- Charges up to `amount` units to a category. -/
def charge (category : Category) (amount : UInt64) : Fallible MeterError Meter Unit := do
  let total ← okOr .arithmetic (← view total)
  let fuelRoom ← view fun m => saturatingSub m.fuel total
  let activationRoom ← okOr .arithmetic (← view (activationRoom · total))
  let allowed := least (least amount fuelRoom) activationRoom
  let counter ← okOr .arithmetic (← view fun m => checkedAdd (m.ledger.counter category) allowed)
  update fun m => { m with ledger := m.ledger.setCounter counter category }
  if allowed = amount then pure ()
  else do
    let total ← okOr .arithmetic (← view Meter.total)
    let fuel ← view Meter.fuel
    if fuel ≤ total then throw (.stop .fuel) else throw (.stop .activation)

/-- Opens an activation window of `limit` units above the current total. -/
def beginActivation (m : Meter) (limit : UInt32) : Option Meter :=
  m.total.map fun total => { m with activation := some (total, limit) }

def endActivation (m : Meter) : Meter := { m with activation := none }

end Meter

end Valhalla.Witness
