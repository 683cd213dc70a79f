import Valhalla.Lib.Agreement
import Valhalla.Witness.Identity
import Valhalla.Witness.Replay

/-!
# The encoding of a state (`codec.rs`: `encode_state`)

States are only ever written. An encoding still names one state: every field is fixed in width, tagged or behind its count, so
that the bytes can be taken apart from the front, as long as no count is cut off by its cast to a byte.
-/

namespace Valhalla.Witness
open Fallible FixedWidth

def signalBytes : Nat := 8 + 2 + 4 + 2 + 1 + 1 + 4 + 4 + 5
def maxDeliveries : Nat := maxInitialSparks

def maxStateBytes : Nat :=
  4 + (1 + maxCells * (2 + 2 + 1 + 4 + 4 * 5 + 6 + 4 * (1 + signalBytes))) + (1 + maxSources * 3 + maxInitialSparks * maxSparkBytes) +
    (1 + maxDepots * 3 + maxInitialSparks * maxSparkBytes) + (1 + maxBeacons * 15) + (1 + maxValves * 3) + (1 + maxLinks * 3) +
    (1 + maxPending * signalBytes) + (1 + maxDeliveries * 11) + 8

/-- What `digest` hashes. -/
def digestInput (domain bytes : List UInt8) : List UInt8 := domain ++ toBe (UInt32.ofNat (min bytes.length (2 ^ 32 - 1))) ++ bytes

/-- Every count that the encoding casts to a byte is one. -/
structure State.Counted (s : State) : Prop where
  cells : s.cells.length < 256
  sources : s.sources.length < 256
  sourceSparks : ∀ source ∈ s.sources, source.sparks.length < 256
  depots : s.depots.length < 256
  depotSparks : ∀ depot ∈ s.depots, depot.sparks.length < 256
  beacons : s.beacons.length < 256
  valves : s.valves.length < 256
  links : s.links.length < 256
  pending : s.pending.length < 256
  delivered : s.delivered.length < 256

/-- Every vector of the state is within its bound. -/
structure State.Contained (s : State) : Prop where
  cells : s.cells.length ≤ maxCells
  sources : s.sources.length ≤ maxSources
  sourceSparks : (s.sources.map (·.sparks.length)).sum ≤ maxInitialSparks
  depots : s.depots.length ≤ maxDepots
  depotSparks : (s.depots.map (·.sparks.length)).sum ≤ maxInitialSparks
  beacons : s.beacons.length ≤ maxBeacons
  valves : s.valves.length ≤ maxValves
  links : s.links.length ≤ maxLinks
  pending : s.pending.length ≤ maxPending
  delivered : s.delivered.length ≤ maxDeliveries

/-! ### Fields -/

section
variable {α : Type} {put : α → List UInt8} {ok : α → Prop}

theorem unambiguous_int [FixedWidth α] : Unambiguous (toBe : α → List UInt8) fun _ => True := .of_codec (Codec.int ())

theorem unambiguous_bool : Unambiguous putBool fun _ => True := .of_codec (@codec_bool .bool)

theorem unambiguous_count : Unambiguous putCount (· < 256) := by
  refine .of_codec ((@codec_count .count 255 (by decide)).congr (fun n => ?_) fun _ _ => rfl)
  exact Nat.lt_succ_iff

theorem unambiguous_option (h : Unambiguous put fun _ => True) : Unambiguous (putOption put) fun _ => True := by
  intro a b rest rest' _ _ he
  cases a with
  | none =>
    cases b with
    | none => exact ⟨rfl, (List.cons.inj he).2⟩
    | some b => cases (List.cons.inj he).1
  | some a =>
    cases b with
    | none => cases (List.cons.inj he).1
    | some b =>
      obtain ⟨rfl, hrest⟩ := h trivial trivial (List.cons.inj he).2
      exact ⟨rfl, hrest⟩

theorem unambiguous_list (h : Unambiguous put ok) : Unambiguous (putList put) fun l => l.length < 256 ∧ ∀ a ∈ l, ok a := by
  intro l l' rest rest' hl hl' he
  simp only [putList, List.append_assoc] at he
  obtain ⟨hcount, he⟩ := unambiguous_count hl.1 hl'.1 he
  exact h.flatMap l.length ⟨rfl, hl.2⟩ ⟨hcount.symm, hl'.2⟩ he

end

/-! ### Records -/

theorem unambiguous_signal : Unambiguous putSignal fun _ => True := by
  refine unambiguous_int.field Signal.id fun _ => unambiguous_int.field Signal.link fun _ =>
    Unambiguous.field Signal.origin (.of_codec codec_endpoint) fun _ => unambiguous_int.field Signal.toCell fun _ =>
    Unambiguous.field Signal.toPort (.of_codec codec_port) fun _ => unambiguous_bool.field Signal.bit fun _ =>
    unambiguous_int.field Signal.sentTick fun _ => unambiguous_int.field Signal.deliverTick fun _ =>
    (unambiguous_option unambiguous_int).lastField Signal.receiptSpark fun a b ha hb he => ?_
  cases a
  cases b
  simp_all

theorem unambiguous_cellState : Unambiguous putCellState fun _ => True := by
  refine unambiguous_int.field CellState.id fun _ => Unambiguous.field CellState.position (.of_codec codec_point) fun _ =>
    Unambiguous.field CellState.heading (.of_codec codec_direction) fun _ =>
    Unambiguous.field CellState.memory (.of_codec (@codec_bytes .value memorySlots)) fun _ =>
    ((unambiguous_option unambiguous_int).vector memorySlots).field CellState.evidence fun _ =>
    (unambiguous_option (.of_codec codec_spark)).field CellState.cargo fun _ =>
    ((unambiguous_option unambiguous_signal).vector ports).lastField CellState.inbox fun a b ha hb he => ?_
  cases a
  cases b
  simp_all

theorem unambiguous_store : Unambiguous putSparkStore fun store => store.sparks.length < 256 := by
  refine unambiguous_int.field SparkStore.id fun _ =>
    (unambiguous_list (.of_codec codec_spark)).last SparkStore.sparks (fun _ h => ⟨h.1, fun _ _ => trivial⟩) fun a b ha hb he => ?_
  cases a
  cases b
  simp_all

theorem unambiguous_beaconState : Unambiguous putBeaconState fun _ => True := by
  refine unambiguous_int.field BeaconState.id fun _ => unambiguous_int.field BeaconState.charge fun _ =>
    unambiguous_int.field BeaconState.delivered fun _ => unambiguous_int.field BeaconState.drained fun _ =>
    unambiguous_bool.lastField BeaconState.exhausted fun a b ha hb he => ?_
  cases a
  cases b
  simp_all

theorem unambiguous_enabled : Unambiguous putEnabled fun _ => True := by
  refine unambiguous_int.field EnabledState.id fun _ => unambiguous_bool.lastField EnabledState.enabled fun a b ha hb he => ?_
  cases a
  cases b
  simp_all

theorem unambiguous_delivery : Unambiguous putDelivery fun _ => True := by
  refine unambiguous_int.field Delivery.tick fun _ => Unambiguous.field Delivery.spark (.of_codec codec_spark) fun _ =>
    unambiguous_int.lastField Delivery.beacon fun a b ha hb he => ?_
  cases a
  cases b
  simp_all

theorem unambiguous_state : Unambiguous encodeState State.Counted := by
  refine unambiguous_int.field State.tick fun _ =>
    (unambiguous_list unambiguous_cellState).bind State.cells (fun _ h => ⟨h.1.cells, fun _ _ => trivial⟩) fun _ =>
    (unambiguous_list unambiguous_store).bind State.sources (fun _ h => ⟨h.1.1.sources, h.1.1.sourceSparks⟩) fun _ =>
    (unambiguous_list unambiguous_store).bind State.depots (fun _ h => ⟨h.1.1.1.depots, h.1.1.1.depotSparks⟩) fun _ =>
    (unambiguous_list unambiguous_beaconState).bind State.beacons (fun _ h => ⟨h.1.1.1.1.beacons, fun _ _ => trivial⟩) fun _ =>
    (unambiguous_list unambiguous_enabled).bind State.valves (fun _ h => ⟨h.1.1.1.1.1.valves, fun _ _ => trivial⟩) fun _ =>
    (unambiguous_list unambiguous_enabled).bind State.links (fun _ h => ⟨h.1.1.1.1.1.1.links, fun _ _ => trivial⟩) fun _ =>
    (unambiguous_list unambiguous_signal).bind State.pending (fun _ h => ⟨h.1.1.1.1.1.1.1.pending, fun _ _ => trivial⟩) fun _ =>
    (unambiguous_list unambiguous_delivery).bind State.delivered (fun _ h => ⟨h.1.1.1.1.1.1.1.1.delivered, fun _ _ => trivial⟩) fun _ =>
    unambiguous_int.lastField State.nextSignal fun a b ha hb he => ?_
  cases a
  cases b
  simp_all

theorem digestInput_injective {domain a b : List UInt8} (h : digestInput domain a = digestInput domain b) : a = b := by
  obtain ⟨-, hbytes⟩ := List.append_inj h (by simp only [List.length_append, length_toBe])
  exact hbytes

/-- A state hash names one state, unless two hashed inputs collide. -/
theorem StateHash.of_injective (sha256 : Sha256) {s t : State} (hs : s.Counted) (ht : t.Counted)
    (h : StateHash.of sha256 (encodeState s) = StateHash.of sha256 (encodeState t)) :
    s = t ∨ digestInput stateDomain (encodeState s) ≠ digestInput stateDomain (encodeState t) ∧
      sha256 (digestInput stateDomain (encodeState s)) = sha256 (digestInput stateDomain (encodeState t)) := by
  by_cases hinput : digestInput stateDomain (encodeState s) = digestInput stateDomain (encodeState t)
  · exact .inl (unambiguous_state.eq hs ht (digestInput_injective hinput))
  · exact .inr ⟨hinput, congrArg StateHash.bytes h⟩

/-! ### Sizes -/

theorem length_putSignal_le (signal : Signal) : (putSignal signal).length ≤ signalBytes := by
  have horigin := length_putEndpoint_le signal.origin
  have hreceipt := length_putOption_le (fun id => (length_putU32 id).le) signal.receiptSpark
  simp only [putSignal, List.length_append, length_putU64, length_putU16, length_putU8, length_putBool, length_putU32, signalBytes]
  omega

theorem length_putCellState_le (cell : CellState) :
    (putCellState cell).length ≤ 2 + 2 + 1 + 4 + 4 * 5 + 6 + 4 * (1 + signalBytes) := by
  have hevidence := length_flatMap_le (fun id _ => length_putOption_le (fun id => (length_putU32 id).le) id) cell.evidence.length_toList.le
  have hcargo := length_putOption_le (fun spark => (length_putSpark spark).le) cell.cargo
  have hinbox := length_flatMap_le (fun signal _ => length_putOption_le length_putSignal_le signal) cell.inbox.length_toList.le
  simp only [putCellState, List.length_append, length_putU16, length_putPoint, length_putU8, Vector.length_toList, memorySlots,
    ports] at hevidence hcargo hinbox ⊢
  omega

theorem length_putBeaconState (beacon : BeaconState) : (putBeaconState beacon).length = 15 := by simp [putBeaconState]
theorem length_putEnabled (entry : EnabledState) : (putEnabled entry).length = 3 := by simp [putEnabled]
theorem length_putDelivery (delivery : Delivery) : (putDelivery delivery).length = 11 := by simp [putDelivery]

theorem length_putSparkStores (stores : List SparkStore) :
    (putList putSparkStore stores).length = 1 + stores.length * 3 + (stores.map (·.sparks.length)).sum * maxSparkBytes := by
  have hsparks : ∀ sparks : List Spark, (sparks.flatMap putSpark).length = sparks.length * maxSparkBytes := by
    intro sparks
    simp [List.length_flatMap, maxSparkBytes]
  have hstores : (stores.flatMap putSparkStore).length = stores.length * 3 + (stores.map (·.sparks.length)).sum * maxSparkBytes := by
    induction stores with
    | nil => rfl
    | cons store stores ih =>
      simp only [List.flatMap_cons, List.length_append, ih, putSparkStore, putList, length_putU16, length_putCount, hsparks, List.length_cons,
        List.map_cons, List.sum_cons, Nat.add_mul]
      omega
  rw [putList, List.length_append, length_putCount, hstores, Nat.add_assoc]

theorem State.Contained.counted {s : State} (h : s.Contained) : s.Counted := by
  have hmem : ∀ {stores : List SparkStore}, (stores.map (·.sparks.length)).sum ≤ maxInitialSparks →
      ∀ store ∈ stores, store.sparks.length < 256 := fun hsum store hm =>
    (List.le_sum_of_mem (List.mem_map_of_mem hm)).trans_lt (hsum.trans_lt (by decide))
  exact
    { cells := h.cells.trans_lt (by decide)
      sources := h.sources.trans_lt (by decide)
      sourceSparks := hmem h.sourceSparks
      depots := h.depots.trans_lt (by decide)
      depotSparks := hmem h.depotSparks
      beacons := h.beacons.trans_lt (by decide)
      valves := h.valves.trans_lt (by decide)
      links := h.links.trans_lt (by decide)
      pending := h.pending.trans_lt (by decide)
      delivered := h.delivered.trans_lt (by decide) }

theorem State.Contained.length_le {s : State} (h : s.Contained) : (encodeState s).length ≤ maxStateBytes := by
  have hcells := length_putList_le (fun cell _ => length_putCellState_le cell) h.cells
  have hsources : (putList putSparkStore s.sources).length =
      1 + s.sources.length * 3 + (s.sources.map (·.sparks.length)).sum * maxSparkBytes := length_putSparkStores s.sources
  have hdepots : (putList putSparkStore s.depots).length =
      1 + s.depots.length * 3 + (s.depots.map (·.sparks.length)).sum * maxSparkBytes := length_putSparkStores s.depots
  have hbeacons := length_putList_le (fun beacon _ => (length_putBeaconState beacon).le) h.beacons
  have hvalves := length_putList_le (fun valve _ => (length_putEnabled valve).le) h.valves
  have hlinks := length_putList_le (fun link _ => (length_putEnabled link).le) h.links
  have hpending := length_putList_le (fun signal _ => length_putSignal_le signal) h.pending
  have hdelivered := length_putList_le (fun delivery _ => (length_putDelivery delivery).le) h.delivered
  have hsourceCount := Nat.mul_le_mul_right 3 h.sources
  have hsourceSparks := Nat.mul_le_mul_right maxSparkBytes h.sourceSparks
  have hdepotCount := Nat.mul_le_mul_right 3 h.depots
  have hdepotSparks := Nat.mul_le_mul_right maxSparkBytes h.depotSparks
  simp only [encodeState, List.length_append, length_putU32, length_putU64, maxStateBytes, hsources, hdepots]
  simp only [maxCells, maxBeacons, maxValves, maxLinks, maxPending, maxDeliveries, maxSources, maxDepots, maxInitialSparks, maxSparkBytes,
    signalBytes] at hcells hbeacons hvalves hlinks hpending hdelivered hsourceCount hsourceSparks hdepotCount hdepotSparks ⊢
  omega

end Valhalla.Witness
