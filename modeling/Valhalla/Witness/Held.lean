import Valhalla.Witness.Shape
import Mathlib.Data.List.Perm.Basic
import Mathlib.Algebra.Order.Group.Multiset

/-!
# Signals held by a state

A state holds a signal in its queue or in an inbox. `Change.holds` says once how a change can affect
this: what is held afterwards was held before or was just emitted over a link of the world.
-/

namespace Valhalla.Witness
open FixedWidth

/-- The signal waits in the queue or in an inbox. -/
def State.Holds (s : State) (signal : Signal) : Prop :=
  signal ∈ s.pending ∨ ∃ cell ∈ s.cells, ∃ port : Fin ports, cell.signalAt port = some signal

structure Signal.From (signal : Signal) (link : Link) : Prop where
  carrier : signal.link = link.id
  origin : signal.origin = link.origin
  toCell : signal.toCell = link.toCell
  toPort : signal.toPort = link.toPort
  due : signal.deliverTick.toNat = signal.sentTick.toNat + link.delay.toNat

namespace State
variable {s : State} {signal : Signal} {i : Nat}

theorem holds_modifyCell {f : CellState → CellState} (h : (s.modifyCell i f).Holds signal) :
    s.Holds signal ∨ ∃ cell ∈ s.cells, ∃ port : Fin ports, (f cell).signalAt port = some signal := by
  rcases h with h | ⟨cell, hc, port, hp⟩
  · exact .inl (.inl h)
  · rcases List.mem_modify hc with hc | ⟨cell', hc', rfl⟩
    · exact .inl (.inr ⟨cell, hc, port, hp⟩)
    · exact .inr ⟨cell', List.mem_of_getElem? hc', port, hp⟩

theorem holds_of_same_inbox {f : CellState → CellState} (h : (s.modifyCell i f).Holds signal)
    (hf : ∀ c, (f c).inbox = c.inbox := by intro; rfl) : s.Holds signal := by
  rcases holds_modifyCell h with h | ⟨cell, hc, port, hp⟩
  · exact h
  · exact .inr ⟨cell, hc, port, by rwa [CellState.signalAt, hf] at hp⟩

theorem inbox_setInbox (cell : CellState) (p : Port) (o : Option Signal) (port : Fin ports) :
    (cell.setInbox p o).signalAt port = if p.index = port then o else cell.signalAt port := by
  simp [CellState.setInbox, Vector.getElem_set, Fin.ext_iff]

theorem holds_setInbox {port : Port} {o : Option Signal}
    (h : (s.modifyCell i (·.setInbox port o)).Holds signal) : s.Holds signal ∨ o = some signal := by
  rcases holds_modifyCell h with h | ⟨cell, hc, p, hp⟩
  · exact .inl h
  · rw [inbox_setInbox] at hp
    split at hp
    · exact .inr hp
    · exact .inl (.inr ⟨cell, hc, p, hp⟩)

theorem holds_of_pending {pending : List Signal} (h : ({ s with pending } : State).Holds signal)
    (hp : signal ∈ pending → s.Holds signal) : s.Holds signal := by
  rcases h with h | h
  · exact hp h
  · exact .inr h

end State

/-- The signal was just put on the queue. -/
structure Fresh (w : World) (s : State) (signal : Signal) (link : Link) (bit : Bool)
    (evidence : Option UInt32) : Prop where
  mem : link ∈ w.links
  reads : Reads s bit evidence
  eq : ∃ deliverTick, checkedAdd s.tick link.delay = some deliverTick ∧
    signal = link.signal s bit evidence deliverTick

theorem Fresh.from {w : World} {s : State} {signal : Signal} {link : Link} {bit : Bool} {evidence : Option UInt32}
    (h : Fresh w s signal link bit evidence) : signal.From link := by
  obtain ⟨deliverTick, ht, rfl⟩ := h.eq
  exact ⟨rfl, rfl, rfl, rfl, by simpa [Link.signal] using checkedAdd_eq_some.1 ht⟩

theorem Change.holds {w : World} {p q : Stage × State} {n : List Note} {signal : Signal}
    (hc : Change w p n q) (h : q.2.Holds signal) :
    p.2.Holds signal ∨ ∃ link bit evidence, Fresh w p.2 signal link bit evidence := by
  cases hc with
  | begin | linkEnabled | valveEnabled | expired | schedule | delivered | acted | skip | finish | drain =>
    exact .inl h
  | clearMemory | move | turn | write | deposit | deliverHere => exact .inl (State.holds_of_same_inbox h)
  | pickup => exact .inl (State.holds_of_same_inbox (s := State.modifySource _ _ _) h)
  | route => exact .inl h
  | expire port =>
    rcases State.holds_setInbox h with h | h
    · exact .inl h
    · cases h
  | refuse hk => exact .inl (State.holds_of_pending h fun hp => .inl (List.mem_of_mem_eraseIdx hp))
  | deliver hk =>
    rcases State.holds_setInbox h with h | h
    · exact .inl (State.holds_of_pending h fun hp => .inl (List.mem_of_mem_eraseIdx hp))
    · cases h; exact .inl (.inl (List.mem_of_getElem? hk))
  | take port slot hcell hs =>
    rcases State.holds_modifyCell h with h | ⟨cell, hcell, p, hp⟩
    · exact .inl h
    · rw [State.inbox_setInbox] at hp
      split at hp
      · cases hp
      · exact .inl (.inr ⟨cell, hcell, p, hp⟩)
  | @emit s _ link bit evidence deliverTick _ outcome hl hr ht hn ho hfull =>
    rcases h with h | h
    · simp only [State.emitted] at h
      split at h
      · rcases List.mem_append.1 h with h | h
        · exact .inl (.inl h)
        · exact .inr ⟨link, bit, evidence, List.mem_of_getElem? hl, hr, deliverTick, ht, List.mem_singleton.1 h⟩
      · exact .inl (.inl h)
    · exact .inl (.inr h)

def Linked (w : World) (s : State) : Prop := ∀ signal, s.Holds signal → ∃ link ∈ w.links, signal.From link

namespace Linked
variable {w : World}

theorem initial (w : World) : Linked w (State.initial w) := by
  rintro signal (h | ⟨cell, hc, port, hp⟩)
  · cases h
  · simp only [State.initial, List.mem_map] at hc
    obtain ⟨body, -, rfl⟩ := hc
    simp at hp

theorem change {p q : Stage × State} {n : List Note} (h : Linked w p.2) (hc : Change w p n q) :
    Linked w q.2 := by
  intro signal hs
  rcases hc.holds hs with hs | ⟨link, _, _, hf⟩
  · exact h signal hs
  · exact ⟨link, hf.mem, hf.from⟩

end Linked

end Valhalla.Witness

/-!
## Signal traffic

What changes of the state do to signals, with everything else left out: a queue, the inboxes as a
multiset, the next identifier, and four phases of a tick. Every change of the state is a step of this
smaller system (`Change.traffic`); `Lifecycle.lean` proves its invariants.
-/

namespace Valhalla.Witness
open FixedWidth

namespace Entry

/-- Recorded when the signal was emitted: delays are positive, so nothing later happens in that tick. -/
def emission (x : Entry) : Bool := x.1 == x.2.signal.sentTick

def queued (x : Entry) : Bool := x.2.outcome == .queued

/-- The signal left the queue. -/
def removal (x : Entry) : Bool := x.2.outcome == .delivered || x.2.outcome.ofRefusal && !x.emission

def delivery (x : Entry) : Bool := x.2.outcome == .delivered

/-- The signal left an inbox. -/
def ending (x : Entry) : Bool := x.2.outcome == .consumed || x.2.outcome == .expired

end Entry

def signalsOf (p : Entry → Bool) (log : List Entry) : Multiset Signal := (log.filter p).map (·.2.signal)

theorem signalsOf_concat (p : Entry → Bool) (log : List Entry) (x : Entry) :
    signalsOf p (log ++ [x]) = signalsOf p log + if p x then {x.2.signal} else 0 := by
  rw [signalsOf, List.filter_append, List.map_append, ← Multiset.coe_add, List.filter_singleton]
  cases p x <;> rfl

theorem mem_signalsOf {p : Entry → Bool} {log : List Entry} {signal : Signal} :
    signal ∈ signalsOf p log ↔ ∃ x ∈ log, p x = true ∧ x.2.signal = signal := by
  simp [signalsOf, and_assoc]

def emittedIds (log : List Entry) : List UInt64 := (log.filter (·.emission)).map (·.2.signal.id)

theorem emittedIds_concat (log : List Entry) (x : Entry) :
    emittedIds (log ++ [x]) = emittedIds log ++ if x.emission then [x.2.signal.id] else [] := by
  rw [emittedIds, List.filter_append, List.map_append, List.filter_singleton]
  cases x.emission <;> rfl

def CellState.received (cell : CellState) : Multiset Signal :=
  (cell.inbox.toList.map fun o => (o.toList : Multiset Signal)).sum

def inboxSignals (cells : List CellState) : Multiset Signal := (cells.map (·.received)).sum

section inboxes
variable {i : Nat} {cells : List CellState} {cell : CellState} {signal : Signal}

theorem CellState.received_set {f : CellState → CellState} {port : Fin ports} {o : Option Signal}
    (hf : (f cell).inbox = (cell.setInbox ⟨port⟩ o).inbox) :
    (f cell).received + (cell.signalAt port).toList = cell.received + o.toList := by
  have h := List.sum_map_modify (fun _ => o) (fun o => (o.toList : Multiset Signal))
    (l := cell.inbox.toList) (i := port) (a := cell.signalAt port) (by simp)
  rw [← List.set_eq_modify] at h
  simp only [CellState.received, hf]
  exact h

theorem inboxSignals_same {f : CellState → CellState} (hf : ∀ c, (f c).inbox = c.inbox) :
    inboxSignals (cells.modify i f) = inboxSignals cells := by
  unfold inboxSignals
  rw [List.map_modify_of f _ i cells fun c => by rw [CellState.received, CellState.received, hf]]

theorem inboxSignals_set {f : CellState → CellState} {port : Fin ports} {o : Option Signal}
    (hc : cells[i]? = some cell) (hf : (f cell).inbox = (cell.setInbox ⟨port⟩ o).inbox) :
    inboxSignals (cells.modify i f) + (cell.signalAt port).toList = inboxSignals cells + o.toList := by
  have h : inboxSignals (cells.modify i f) + cell.received = inboxSignals cells + (f cell).received :=
    List.sum_map_modify f _ hc
  have hp := CellState.received_set hf
  refine add_right_cancel (b := cell.received) ?_
  calc inboxSignals (cells.modify i f) + (cell.signalAt port).toList + cell.received
      = inboxSignals (cells.modify i f) + cell.received + (cell.signalAt port).toList := by abel
    _ = inboxSignals cells + ((f cell).received + (cell.signalAt port).toList) := by rw [h]; abel
    _ = inboxSignals cells + o.toList + cell.received := by rw [hp]; abel

theorem inboxSignals_clear {f : CellState → CellState} {port : Fin ports} (hc : cells[i]? = some cell)
    (hs : cell.signalAt port = some signal) (hf : (f cell).inbox = (cell.setInbox ⟨port⟩ none).inbox) :
    inboxSignals (cells.modify i f) + {signal} = inboxSignals cells := by
  have h := inboxSignals_set hc hf
  rw [hs] at h
  simpa using h

theorem inboxSignals_put {f : CellState → CellState} {port : Fin ports} (hc : cells[i]? = some cell)
    (hs : cell.signalAt port = none) (hf : (f cell).inbox = (cell.setInbox ⟨port⟩ (some signal)).inbox) :
    inboxSignals (cells.modify i f) = inboxSignals cells + {signal} := by
  have h := inboxSignals_set hc hf
  rw [hs] at h
  simpa using h

theorem CellState.mem_received : signal ∈ cell.received ↔ ∃ port : Fin ports, cell.signalAt port = some signal := by
  have h : signal ∈ cell.received ↔ some signal ∈ cell.inbox.toList := by
    unfold CellState.received
    induction cell.inbox.toList with
    | nil => simp
    | cons o rest ih => simp [ih, eq_comm]
  rw [h, Vector.mem_toList_iff, Vector.mem_iff_getElem]
  exact ⟨fun ⟨i, hi, he⟩ => ⟨⟨i, hi⟩, he⟩, fun ⟨port, he⟩ => ⟨port, port.isLt, he⟩⟩

theorem mem_inboxSignals :
    signal ∈ inboxSignals cells ↔ ∃ cell ∈ cells, ∃ port : Fin ports, cell.signalAt port = some signal := by
  simp only [← CellState.mem_received]
  unfold inboxSignals
  induction cells with
  | nil => simp
  | cons cell cells ih => simp [ih]

end inboxes

/-! ### Signal traffic -/

/-- The phases of a tick that signals can tell apart; `settled` is everything after the deliveries. -/
inductive Phase
  | expiring | scheduled | delivering | settled
deriving DecidableEq

def Stage.phase : Stage → Phase
  | .expiring => .expiring
  | .scheduled => .scheduled
  | .delivering => .delivering
  | .idle | .acting | .draining _ => .settled

/-- What a state says about signals. -/
structure Traffic where
  tick : UInt32
  pending : List Signal
  inbox : Multiset Signal
  next : UInt64

def State.traffic (s : State) : Traffic := ⟨s.tick, s.pending, inboxSignals s.cells, s.nextSignal⟩

/-- What a change can do to the signals. -/
inductive Traffic.Step : Phase × Traffic → List Entry → Phase × Traffic → Prop
  | quiet {φ : Phase} {v : Traffic} : Step (φ, v) [] (φ, v)
  | begin {v : Traffic} {tick : UInt32} (h : checkedAdd v.tick 1 = some tick) :
      Step (.settled, v) [] (.expiring, { v with tick })
  | expired {v : Traffic} (h : v.inbox = 0) : Step (.expiring, v) [] (.scheduled, v)
  | schedule {v : Traffic} : Step (.scheduled, v) [] (.delivering, v)
  | delivered {v : Traffic} (h : ∀ signal ∈ v.pending, v.tick < signal.deliverTick) :
      Step (.delivering, v) [] (.settled, v)
  | expire {v : Traffic} {signal : Signal} {inbox : Multiset Signal} (h : inbox + {signal} = v.inbox) :
      Step (.expiring, v) [(v.tick, ⟨signal, .expired⟩)] (.expiring, { v with inbox })
  | deliver {v : Traffic} {k : Nat} {signal : Signal} (hk : v.pending[k]? = some signal)
      (hdue : ¬ v.tick < signal.deliverTick) :
      Step (.delivering, v) [(v.tick, ⟨signal, .delivered⟩)]
        (.delivering, { v with pending := v.pending.eraseIdx k, inbox := v.inbox + {signal} })
  | refuse {v : Traffic} {k : Nat} {signal : Signal} {outcome : SignalOutcome}
      (hk : v.pending[k]? = some signal) (hdue : ¬ v.tick < signal.deliverTick)
      (ho : outcome.ofRefusal = true) :
      Step (.delivering, v) [(v.tick, ⟨signal, outcome⟩)]
        (.delivering, { v with pending := v.pending.eraseIdx k })
  | take {v : Traffic} {signal : Signal} {inbox : Multiset Signal} (h : inbox + {signal} = v.inbox) :
      Step (.settled, v) [(v.tick, ⟨signal, .consumed⟩)] (.settled, { v with inbox })
  | emit {v : Traffic} {signal : Signal} {next : UInt64} {outcome : SignalOutcome} (hid : signal.id = v.next)
      (hsent : signal.sentTick = v.tick) (hdue : signal.sentTick < signal.deliverTick)
      (hn : checkedAdd v.next 1 = some next) (ho : outcome.ofEmission = true) :
      Step (.settled, v) [(v.tick, ⟨signal, outcome⟩)]
        (.settled, { v with next, pending := if outcome = .queued then v.pending ++ [signal] else v.pending })

theorem Traffic.Step.quiet_of {φ : Phase} {v v' : Traffic} (h : v' = v) : Traffic.Step (φ, v) [] (φ, v') :=
  h ▸ .quiet

theorem State.traffic_modifyCell {s : State} {i : Nat} {f : CellState → CellState}
    (hf : ∀ c, (f c).inbox = c.inbox) : (s.modifyCell i f).traffic = s.traffic := by
  simp only [traffic, modifyCell, inboxSignals_same hf]

theorem Change.traffic {w : World} {p q : Stage × State} {n : List Note} (hc : Change w p n q) :
    Traffic.Step (p.1.phase, p.2.traffic) (logged n) (q.1.phase, q.2.traffic) := by
  cases hc with
  | begin h => exact .begin h
  | expired h =>
    refine .expired (Multiset.eq_zero_of_forall_notMem fun signal hs => ?_)
    obtain ⟨cell, hcell, port, hp⟩ := mem_inboxSignals.1 hs
    rw [h cell hcell port] at hp
    cases hp
  | schedule => exact .schedule
  | delivered h => exact .delivered h
  | expire port hcell hs => exact .expire (inboxSignals_clear hcell hs rfl)
  | @deliver s k r signal cell hk hdue hcell hempty =>
    have h := Traffic.Step.deliver (v := s.traffic) hk hdue
    rwa [show s.traffic.inbox + {signal} = _ from
      (inboxSignals_put (f := (·.setInbox signal.toPort (some signal))) hcell hempty rfl).symm] at h
  | refuse hk hdue ho => exact .refuse hk hdue ho
  | take port slot hcell hs => exact .take (inboxSignals_clear hcell hs rfl)
  | @emit s l link bit evidence deliverTick nextSignal outcome hl hr ht hn ho =>
    have hdue := checkedAdd_eq_some.1 ht
    have hpos : 1 ≤ link.delay.toNat := (w.link_valid (List.mem_of_getElem? hl)).2.2.1
    simp at hdue
    exact .emit rfl rfl (UInt32.lt_iff_toNat_lt.2 (by simp only [Link.signal]; omega)) hn ho
  | linkEnabled | valveEnabled | acted | drain | skip | finish | route => exact .quiet
  | clearMemory | move | turn | write | pickup | deliverHere =>
    exact .quiet_of (State.traffic_modifyCell fun _ => rfl)
  | @deposit s i =>
    exact .quiet_of (State.traffic_modifyCell (s := s) (i := i) (f := fun c => { c with cargo := none }) fun _ => rfl)

end Valhalla.Witness
