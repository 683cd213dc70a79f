import Valhalla.Witness.Held
import Valhalla.Witness.Sparks

/-!
# Evidence provenance

A receipt names a deposited spark. Evidence starts at a deposit, travels with signals, and is kept in
memory next to the byte it was stored with; whatever else writes a byte clears the evidence
(`Change.remembers`). `Provenance` is the invariant over the state and everything recorded so far.
-/

namespace Valhalla.Witness

theorem Change.received {w : World} {p q : Stage × State} {n : List Note} {spark : Spark} (hc : Change w p n q)
    (h : spark ∈ p.2.received ∨ Note.deposited spark ∈ n) : spark ∈ q.2.received := by
  cases hc with
  | begin | expired | linkEnabled | valveEnabled | clearMemory | schedule | delivered | move | turn | pickup
  | write | acted | skip | finish | expire | deliver | refuse | take | emit | drain =>
    exact h.resolve_right (by simp)
  | @deposit s i d _ _ _ dropped hcell hcargo hw hd =>
    have hr : State.received ((s.modifyCell i fun c => { c with cargo := none }).modifyDepot d (.push dropped)) =
        s.received + {dropped} := by
      simp only [State.received, State.modifyDepot, State.modifyCell]
      rw [storedSparks_push hd]
      abel
    rw [hr]
    rcases h with h | h
    · exact Multiset.mem_add.2 (.inl h)
    · cases List.mem_singleton.1 h
      exact Multiset.mem_add.2 (.inr (Multiset.mem_singleton_self _))
  | deliverHere =>
    simp only [State.received, State.modifyCell, State.credited, State.modifyBeacon]
    rw [deliveredSparks_concat, ← add_assoc]
    exact Multiset.mem_add.2 (.inl (h.resolve_right (by simp)))
  | route hd hh =>
    have h := h.resolve_right (by simp)
    simp only [State.received, State.modifyDepot, State.credited, State.modifyBeacon,
      deliveredSparks_concat, ← storedSparks_removeFirst hd hh, Multiset.mem_add] at h ⊢
    tauto

theorem Change.stored {w : World} {p q : Stage × State} {n : List Note} {spark : Spark} (hc : Change w p n q)
    (h : spark ∈ storedSparks q.2.depots) : spark ∈ storedSparks p.2.depots ∨ Note.deposited spark ∈ n := by
  cases hc with
  | begin | expired | linkEnabled | valveEnabled | clearMemory | schedule | delivered | move | turn | pickup
  | write | acted | skip | finish | expire | deliver | refuse | take | emit | drain | deliverHere => exact .inl h
  | deposit hcell hcargo hw hd =>
    replace h := (storedSparks_push hd).subst (motive := (spark ∈ ·)) h
    rw [Multiset.mem_add, Multiset.mem_singleton] at h
    rcases h with h | rfl
    · exact .inl h
    · exact .inr (by simp)
  | route hd hh =>
    refine .inl ?_
    rw [← storedSparks_removeFirst hd hh]
    exact Multiset.mem_add.2 (.inl h)

def Backed (h : List Note) (id : UInt32) (bit : Bool) : Prop :=
  ∃ spark : Spark, spark.id = id ∧ spark.bit = bit ∧ Note.deposited spark ∈ h

theorem Backed.append {h : List Note} {id : UInt32} {bit : Bool} (hb : Backed h id bit) (n : List Note) :
    Backed (h ++ n) id bit :=
  let ⟨spark, hid, hbit, hm⟩ := hb
  ⟨spark, hid, hbit, List.mem_append_left n hm⟩

def bitByte (bit : Bool) : UInt8 := if bit then 1 else 0

@[simp] theorem bitByte_ne_zero (bit : Bool) : (bitByte bit != 0) = bit := by cases bit <;> rfl

/-- A cell keeps the identifier `id` as evidence next to the byte. -/
def State.Remembers (s : State) (slot : Fin memorySlots) (byte : UInt8) (id : UInt32) : Prop :=
  ∃ cell ∈ s.cells, cell.byteAt slot = byte ∧ cell.evidenceAt slot = some id

namespace State
variable {s : State} {i : Nat} {slot : Fin memorySlots} {byte : UInt8} {id : UInt32}

theorem remembers_modifyCell {f : CellState → CellState} (h : (s.modifyCell i f).Remembers slot byte id) :
    s.Remembers slot byte id ∨
      ∃ cell, s.cells[i]? = some cell ∧ (f cell).byteAt slot = byte ∧ (f cell).evidenceAt slot = some id := by
  obtain ⟨cell, hc, hm⟩ := h
  rcases List.mem_modify hc with hc | ⟨cell', hc', rfl⟩
  · exact .inl ⟨cell, hc, hm⟩
  · exact .inr ⟨cell', hc', hm⟩

theorem remembers_of_same_memory {f : CellState → CellState} (h : (s.modifyCell i f).Remembers slot byte id)
    (hm : ∀ c, (f c).memory = c.memory := by intro; rfl)
    (he : ∀ c, (f c).evidence = c.evidence := by intro; rfl) : s.Remembers slot byte id := by
  rcases remembers_modifyCell h with h | ⟨cell, hc, hb, hid⟩
  · exact h
  · exact ⟨cell, List.mem_of_getElem? hc, by rwa [CellState.byteAt, hm] at hb, by rwa [CellState.evidenceAt, he] at hid⟩

theorem remembers_writeSlot {cell : CellState} {target : Slot} {value : UInt8} {evidence : Option UInt32}
    (hc : cell ∈ s.cells) (hm : (cell.writeSlot target value evidence).byteAt slot = byte)
    (he : (cell.writeSlot target value evidence).evidenceAt slot = some id) :
    s.Remembers slot byte id ∨ value = byte ∧ evidence = some id := by
  simp only [CellState.writeSlot, Fin.getElem_fin, Vector.getElem_set] at hm he
  split at hm
  · rename_i h; rw [if_pos h] at he; exact .inr ⟨hm, he⟩
  · rename_i h; rw [if_neg h] at he; exact .inl ⟨cell, hc, hm, he⟩

end State

theorem Change.remembers {w : World} {p q : Stage × State} {n : List Note} {slot : Fin memorySlots}
    {byte : UInt8} {id : UInt32} (hc : Change w p n q) (h : q.2.Remembers slot byte id) :
    p.2.Remembers slot byte id ∨
      ∃ signal, p.2.Holds signal ∧ signal.receiptSpark = some id ∧ byte = bitByte signal.bit := by
  cases hc with
  | begin | linkEnabled | valveEnabled | expired | schedule | delivered | acted | skip | finish | drain
  | refuse | route | emit => exact .inl h
  | expire | move | turn | deposit | deliverHere | deliver => exact .inl (State.remembers_of_same_memory h)
  | pickup => exact .inl (State.remembers_of_same_memory (s := State.modifySource _ _ _) h)
  | clearMemory =>
    rcases State.remembers_modifyCell h with h | ⟨cell, -, -, he⟩
    · exact .inl h
    · simp at he
  | write i target value =>
    rcases State.remembers_modifyCell h with h | ⟨cell, hcell, hm, he⟩
    · exact .inl h
    · rcases State.remembers_writeSlot (List.mem_of_getElem? hcell) hm he with h | ⟨-, h⟩
      · exact .inl h
      · cases h
  | @take s i cell signal port target hcell hs =>
    rcases State.remembers_modifyCell h with h | ⟨cell', hcell', hm, he⟩
    · exact .inl h
    · rcases State.remembers_writeSlot (List.mem_of_getElem? hcell') hm he with h | ⟨hv, he⟩
      · exact .inl h
      · exact .inr ⟨signal, .inr ⟨cell, List.mem_of_getElem? hcell, port.index, hs⟩, he, hv.symm⟩

/-- Everything that carries evidence is backed by a deposit on record. -/
structure Provenance (h : List Note) (s : State) : Prop where
  received : ∀ spark, Note.deposited spark ∈ h → spark ∈ s.received
  stored : ∀ spark ∈ storedSparks s.depots, Note.deposited spark ∈ h
  signals : ∀ signal, s.Holds signal → ∀ id, signal.receiptSpark = some id → Backed h id signal.bit
  memory : ∀ slot byte id, s.Remembers slot byte id → ∃ bit, byte = bitByte bit ∧ Backed h id bit

namespace Provenance
variable {h n : List Note}

theorem initial (w : World) : Provenance [] (State.initial w) where
  received := by simp
  stored := by
    intro spark hs
    simp only [storedSparks, State.initial, State.allocated, List.map_map] at hs
    rw [List.sum_eq_zero (by simp)] at hs
    simp at hs
  signals := by
    rintro signal (hs | ⟨cell, hc, port, hp⟩)
    · cases hs
    · simp only [State.initial, List.mem_map] at hc
      obtain ⟨body, -, rfl⟩ := hc
      simp at hp
  memory := by
    rintro slot byte id ⟨cell, hc, -, he⟩
    simp only [State.initial, List.mem_map] at hc
    obtain ⟨body, -, rfl⟩ := hc
    simp at he

theorem reads {s : State} {bit : Bool} {id : UInt32} (hp : Provenance h s) (hr : Reads s bit (some id)) :
    Backed h id bit := by
  generalize ho : some id = evidence at hr
  cases hr with
  | constant => cases ho
  | @memory i cell slot hc =>
    obtain ⟨bit', hb, hbacked⟩ := hp.memory slot.index _ id ⟨cell, List.mem_of_getElem? hc, rfl, ho.symm⟩
    rw [hb]
    simpa using hbacked
  | @message i cell signal port hc hs =>
    exact hp.signals signal (.inr ⟨cell, List.mem_of_getElem? hc, port.index, hs⟩) id ho.symm
  | @deposit d store spark hd hs =>
    cases ho
    exact ⟨spark, rfl, rfl, hp.stored spark (mem_storedSparks.2 ⟨store, List.mem_of_getElem? hd, hs⟩)⟩

theorem change {w : World} {p q : Stage × State} (hp : Provenance h p.2) (hc : Change w p n q) :
    Provenance (h ++ n) q.2 where
  received := by
    intro spark hs
    rcases List.mem_append.1 hs with hs | hs
    · exact hc.received (.inl (hp.received spark hs))
    · exact hc.received (.inr hs)
  stored := by
    intro spark hs
    rcases hc.stored hs with hs | hs
    · exact List.mem_append_left n (hp.stored spark hs)
    · exact List.mem_append_right h hs
  signals := by
    intro signal hs id hid
    rcases hc.holds hs with hs | ⟨link, bit, evidence, hf⟩
    · exact (hp.signals signal hs id hid).append n
    · obtain ⟨deliverTick, -, rfl⟩ := hf.eq
      obtain rfl : evidence = some id := hid
      exact (hp.reads hf.reads).append n
  memory := by
    intro slot byte id hr
    rcases hc.remembers hr with hr | ⟨signal, hs, hid, hb⟩
    · obtain ⟨bit, hb, hbacked⟩ := hp.memory slot byte id hr
      exact ⟨bit, hb, hbacked.append n⟩
    · exact ⟨signal.bit, hb, (hp.signals signal hs id hid).append n⟩

end Provenance

end Valhalla.Witness
