import Mathlib.Algebra.Order.Group.Multiset
import Valhalla.Witness.Shape

/-!
# Spark conservation

The sparks of a state as a multiset: in the sources, in the depots, carried, and delivered. Every
change moves single sparks between these four, so the multiset never changes (`Conserved.change`).
-/

namespace Valhalla.Witness

def storedSparks (stores : List SparkStore) : Multiset Spark :=
  (stores.map fun store => (store.sparks : Multiset Spark)).sum

def carriedSparks (cells : List CellState) : Multiset Spark :=
  (cells.map fun cell => (cell.cargo.toList : Multiset Spark)).sum

def deliveredSparks (deliveries : List Delivery) : Multiset Spark := deliveries.map (·.spark)

namespace State
variable (s : State)

def sparks : Multiset Spark :=
  storedSparks s.sources + storedSparks s.depots + carriedSparks s.cells + deliveredSparks s.delivered

def received : Multiset Spark := storedSparks s.depots + deliveredSparks s.delivered

end State

def World.sparks (w : World) : Multiset Spark := w.spec.initialSparkList

section
variable {i : Nat} {stores : List SparkStore} {store : SparkStore} {cells : List CellState} {spark : Spark}

theorem storedSparks_removeFirst (hi : stores[i]? = some store) (hh : store.sparks.head? = some spark) :
    storedSparks (stores.modify i SparkStore.removeFirst) + {spark} = storedSparks stores := by
  have h := List.sum_map_modify SparkStore.removeFirst (fun store => (store.sparks : Multiset Spark)) hi
  have hs : (store.sparks : Multiset Spark) = store.removeFirst.sparks + {spark} := by
    obtain ⟨rest, hrest⟩ := List.head?_eq_some_iff.1 hh
    simp [SparkStore.removeFirst, hrest, ← Multiset.cons_coe, Multiset.add_comm, ← Multiset.singleton_add]
  rw [hs, ← add_assoc, add_right_comm] at h
  exact add_right_cancel h

theorem storedSparks_push (hi : stores[i]? = some store) :
    storedSparks (stores.modify i (SparkStore.push spark)) = storedSparks stores + {spark} := by
  have h := List.sum_map_modify (SparkStore.push spark) (fun store => (store.sparks : Multiset Spark)) hi
  have hs : ((store.push spark).sparks : Multiset Spark) = {spark} + store.sparks := by
    simp [SparkStore.push, ← Multiset.coe_add, Multiset.add_comm]
  rw [hs, ← add_assoc] at h
  exact add_right_cancel h

theorem mem_storedSparks : spark ∈ storedSparks stores ↔ ∃ store ∈ stores, spark ∈ store.sparks := by
  unfold storedSparks
  induction stores with
  | nil => simp
  | cons store stores ih => simp [ih]

theorem carriedSparks_modify {cell : CellState} {f : CellState → CellState} (hi : cells[i]? = some cell) :
    carriedSparks (cells.modify i f) + cell.cargo.toList = carriedSparks cells + (f cell).cargo.toList :=
  List.sum_map_modify f (fun cell => (cell.cargo.toList : Multiset Spark)) hi

theorem carriedSparks_same {f : CellState → CellState} (hf : ∀ c, (f c).cargo = c.cargo := by intro; rfl) :
    carriedSparks (cells.modify i f) = carriedSparks cells := by
  unfold carriedSparks
  rw [List.map_modify_of f _ i cells fun c => by rw [hf]]

theorem carriedSparks_put {cell : CellState} {f : CellState → CellState} (hi : cells[i]? = some cell)
    (h : cell.cargo = none) (hf : (f cell).cargo = some spark) :
    carriedSparks (cells.modify i f) = carriedSparks cells + {spark} := by
  simpa [h, hf] using carriedSparks_modify (f := f) hi

theorem carriedSparks_clear {cell : CellState} {f : CellState → CellState} (hi : cells[i]? = some cell)
    (h : cell.cargo = some spark) (hf : (f cell).cargo = none) :
    carriedSparks (cells.modify i f) + {spark} = carriedSparks cells := by
  simpa [h, hf] using carriedSparks_modify (f := f) hi

theorem deliveredSparks_concat (deliveries : List Delivery) (delivery : Delivery) :
    deliveredSparks (deliveries ++ [delivery]) = deliveredSparks deliveries + {delivery.spark} := by
  rw [deliveredSparks, List.map_append, ← Multiset.coe_add]
  rfl

end

def Conserved (w : World) (s : State) : Prop := s.sparks = w.sparks

namespace Conserved
variable {w : World}

theorem initial (w : World) : Conserved w (State.initial w) := by
  have hs : storedSparks (State.initial w).sources = w.sparks := by
    rw [initial_sources]
    simp only [storedSparks, World.sparks, WorldSpec.initialSparkList, World.sources, List.map_map]
    induction w.spec.sources with
    | nil => rfl
    | cons source rest ih => simpa [← Multiset.coe_add] using ih
  have hd : storedSparks (State.initial w).depots = 0 := by
    simp only [storedSparks, State.initial, State.allocated, List.map_map]
    exact List.sum_eq_zero (by simp)
  have hc : carriedSparks (State.initial w).cells = 0 := by
    simp only [carriedSparks, State.initial, List.map_map]
    exact List.sum_eq_zero (by simp)
  have hv : deliveredSparks (State.initial w).delivered = 0 := rfl
  rw [Conserved, State.sparks, hs, hd, hc, hv]
  simp

theorem change {p q : Stage × State} {n : List Note} (h : Conserved w p.2) (hc : Change w p n q) :
    Conserved w q.2 := by
  refine Eq.trans ?_ h
  cases hc with
  | begin | linkEnabled | valveEnabled | refuse | emit | expired | schedule | delivered | acted | skip
  | finish | drain => rfl
  | expire | clearMemory | deliver | move | turn | write | take =>
    simp only [State.sparks, State.modifyCell]
    rw [carriedSparks_same]
  | pickup hcell hcargo hj hh =>
    simp only [State.sparks, State.modifyCell, State.modifySource]
    rw [carriedSparks_put hcell hcargo rfl, ← storedSparks_removeFirst hj hh]
    abel
  | deposit hcell hcargo hw hd =>
    simp only [State.sparks, State.modifyCell, State.modifyDepot]
    rw [storedSparks_push hd, ← carriedSparks_clear (f := fun c => { c with cargo := none }) hcell hcargo rfl]
    abel
  | deliverHere hcell hcargo =>
    simp only [State.sparks, State.modifyCell, State.modifyBeacon, State.credited]
    rw [deliveredSparks_concat, ← carriedSparks_clear (f := fun c => { c with cargo := none }) hcell hcargo rfl]
    abel
  | route hd hh =>
    simp only [State.sparks, State.modifyDepot, State.modifyBeacon, State.credited]
    rw [deliveredSparks_concat, ← storedSparks_removeFirst hd hh]
    abel

theorem changes {p q : Stage × State} {n : List Note} (h : Conserved w p.2) (hp : Changes w p n q) : Conserved w q.2 := by
  induction hp with
  | refl => exact h
  | tail _ hlast ih => exact change ih hlast

/-- A spark in a depot or delivered is an initial one, and no other spark of its name is waiting in a
source or carried. -/
theorem received {s : State} (h : Conserved w s) {spark : Spark} (hr : spark ∈ s.received) :
    spark ∈ w.spec.initialSparkList ∧
      ∀ other ∈ storedSparks s.sources + carriedSparks s.cells, other.id ≠ spark.id := by
  have hw : w.sparks = storedSparks s.sources + carriedSparks s.cells + s.received := by
    rw [← h, State.sparks, State.received]
    abel
  obtain ⟨ids, hids⟩ := w.checked.sparks
  have hnd : (w.sparks.map (·.id)).Nodup := (sparks_of_scan hids).1
  constructor
  · have : spark ∈ w.sparks := by rw [hw]; exact Multiset.mem_add.2 (.inr hr)
    exact Multiset.mem_coe.1 this
  · intro other ho he
    rw [hw, Multiset.map_add, Multiset.nodup_add] at hnd
    exact Multiset.disjoint_left.1 hnd.2.2 (Multiset.mem_map_of_mem _ ho)
      (he ▸ Multiset.mem_map_of_mem _ hr)

theorem card_le {s : State} (h : Conserved w s) : s.sparks.card ≤ maxInitialSparks := by
  obtain ⟨ids, hids⟩ := w.checked.sparks
  rw [h, World.sparks, Multiset.coe_card]
  exact (sparks_of_scan hids).2

end Conserved

end Valhalla.Witness
