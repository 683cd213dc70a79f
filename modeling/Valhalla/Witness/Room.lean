import Valhalla.Witness.Reserved
import Valhalla.Witness.Runs

/-!
# An activation finds the room it needs

What a function adds to the signal events (`Records`), and that it makes no push without room, so that it agrees with the one that
checks. An activation emits over each link at most once or takes one message, so `maxLinks` free entries are enough; a credit moves
a spark that was not delivered before, so the deliveries have room; the queue and the depots are checked by the code itself.
-/

namespace Valhalla.Witness
open Fallible FixedWidth

/-! ### States -/

def Reached (w : World) (st : Stage) (s : State) : Prop := ∃ notes, Changes w (.idle, State.initial w) notes (st, s)

theorem pending_le {w : World} {p q : Stage × State} {n : List Note} (h : p.2.pending.length ≤ maxPending) (hc : Change w p n q) :
    q.2.pending.length ≤ maxPending := by
  cases hc with
  | @deliver s k r => exact (List.length_eraseIdx_le s.pending k).trans h
  | @refuse s k => exact (List.length_eraseIdx_le s.pending k).trans h
  | @emit s l link bit evidence deliverTick nextSignal outcome hl hr ht hn ho hfull =>
    simp only [State.emitted]
    split
    · rename_i hqueued
      rw [List.length_append, List.length_singleton]
      exact hfull hqueued
    · exact h
  | _ => exact h

theorem Conserved.card {w : World} {s : State} (h : Conserved w s) :
    (s.sources.map (·.sparks.length)).sum + (s.depots.map (·.sparks.length)).sum + s.cells.countP (·.cargo.isSome) +
      s.delivered.length ≤ maxInitialSparks := by
  have hcard := h.card_le
  simp only [State.sparks, Multiset.card_add, card_storedSparks, card_carriedSparks, deliveredSparks, Multiset.coe_card,
    List.length_map] at hcard
  exact hcard

theorem Conserved.room_of_cargo {w : World} {s : State} {i : Nat} {cell : CellState} {spark : Spark} (h : Conserved w s)
    (hi : s.cells[i]? = some cell) (hcargo : cell.cargo = some spark) : s.delivered.length + 1 ≤ maxDeliveries := by
  have hcard := h.card
  have hpos : 0 < s.cells.countP (·.cargo.isSome) :=
    List.countP_pos_iff.2 ⟨cell, List.mem_of_getElem? hi, by rw [hcargo]; rfl⟩
  simp only [maxDeliveries]
  omega

theorem Conserved.room_of_stored {w : World} {s : State} {d : Nat} {store : DepotState} {spark : Spark} (h : Conserved w s)
    (hd : s.depots[d]? = some store) (hhead : store.sparks.head? = some spark) : s.delivered.length + 1 ≤ maxDeliveries := by
  have hcard := h.card
  have hle : store.sparks.length ≤ (s.depots.map (·.sparks.length)).sum :=
    List.le_sum_of_mem (List.mem_map_of_mem (List.mem_of_getElem? hd))
  have hpos : 0 < store.sparks.length := by
    obtain ⟨rest, hrest⟩ := List.head?_eq_some_iff.1 hhead
    rw [hrest]
    exact Nat.succ_pos _
  simp only [maxDeliveries]
  omega

namespace Reached
variable {w : World} {st : Stage} {s : State}

theorem shape (h : Reached w st s) : Shape w s := by
  obtain ⟨notes, hp⟩ := h
  exact hp.preserves (I := fun p => Shape w p.2) (.initial w) fun _ _ _ hs hc => hs.change hc

theorem conserved (h : Reached w st s) : Conserved w s := by
  obtain ⟨notes, hp⟩ := h
  exact (Conserved.initial w).changes hp

theorem contained (h : Reached w st s) : s.Contained := by
  have hw := w.checked
  have hcard := h.conserved.card
  have hshape := h.shape
  obtain ⟨notes, hp⟩ := h
  have hpending := hp.preserves (I := fun p => p.2.pending.length ≤ maxPending) (Nat.zero_le _) fun _ _ _ hs hc => pending_le hs hc
  exact
    { cells := hshape.length_cells.trans_le hw.cellCount
      sources := hshape.length_sources.trans_le hw.sourceCount
      sourceSparks := by omega
      depots := hshape.length_depots.trans_le hw.depotCount
      depotSparks := by omega
      beacons := hshape.length_beacons.trans_le hw.beaconCount
      valves := hshape.length_valves.trans_le hw.valveCount
      links := hshape.length_links.trans_le hw.linkCount
      pending := hpending
      delivered := by simp only [maxDeliveries]; omega }

end Reached

/-! ### Charges and reads -/

/-- The function adds at most `n` signal events. -/
abbrev Records {α : Type} (n : Nat) (m : VmM α) : Prop := Grows (fun c : Ctx => c.signals.length) n m

section
variable {ω α β : Type} {obs : Ctx → ω} {c : Ctx} {m m' : VmM α}

/-- What does not depend on the meter. -/
def Unmetered (obs : Ctx → ω) : Prop := ∀ c meter, obs { c with meter } = obs c

theorem unmetered_signals : Unmetered fun c => c.signals.length := fun _ _ => rfl
theorem unmetered_state : Unmetered Ctx.state := fun _ _ => rfl

theorem keeps_charge (h : Unmetered obs) (category : Category) (amount : UInt64) : Keeps obs (VmM.charge category amount) := by
  intro c
  unfold VmM.charge
  rw [exec_of]
  split
  · exact h c _
  · exact h c _

theorem keeps_setState (f : State → State) : Keeps (fun c : Ctx => c.signals.length) (VmM.setState f) := .update fun _ => rfl

theorem keeps_guard (error : ActionError) (b : Bool) : Keeps obs (VmM.guard error b) := .ite (.pure _) (.throw _)

theorem keeps_readBit (h : Unmetered obs) (cell : CellState) (bit : BitSource) : Keeps obs (readBit cell bit) := by
  cases bit with
  | constant value => exact (keeps_charge h _ _).bind fun _ => .pure _
  | memory slot => exact (keeps_charge h _ _).bind fun _ => .pure _
  | message port => exact (keeps_charge h _ _).bind fun _ => (Keeps.okOr _ _).bind fun _ => .pure _

theorem keeps_senses (world : World) (state : State) (cell : CellState) (condition : Condition) :
    Keeps obs (senses world state cell condition) := by
  cases condition with
  | memory slot value => exact .throw _
  | _ => exact .pure _

theorem keeps_checkCondition (h : Unmetered obs) (world : World) (state : State) (i : Nat) (condition : Condition) :
    Keeps obs (checkCondition world state i condition) := by
  refine (keeps_charge h _ _).bind fun _ => (Keeps.okOr _ _).bind fun cell => ?_
  cases condition with
  | memory slot value => exact (keeps_charge h _ _).bind fun _ => .pure _
  | _ => exact (keeps_charge h _ _).bind fun _ => keeps_senses _ _ _ _

theorem keeps_allHold (h : Unmetered obs) (world : World) (state : State) (i : Nat) (conditions : List Condition) :
    Keeps obs (allHold world state i conditions) := by
  induction conditions with
  | nil => exact .pure _
  | cons condition rest ih => exact (keeps_checkCondition h _ _ _ _).bind fun b => .ite ih (.pure _)

theorem keeps_selectRule (h : Unmetered obs) (world : World) (state : State) (i n : Nat) (rules : List Rule) :
    Keeps obs (selectRule world state i n rules) := by
  induction rules generalizing n with
  | nil => exact .pure _
  | cons rule rest ih =>
    exact (keeps_charge h _ _).bind fun _ => (keeps_allHold h _ _ _ _).bind fun b => .ite (.pure _) (ih (n + 1))

theorem keeps_choose (h : Unmetered obs) (world : World) (program : Program) (state : State) (i : Nat) :
    Keeps obs (choose world program state i) := by
  refine (keeps_charge h _ _).bind fun _ => (keeps_selectRule h _ _ _ _ _).bind fun selected => ?_
  cases selected with
  | none => exact .pure _
  | some x => exact (Keeps.okOr _ _).bind fun _ => .pure _

theorem agrees_charge {category : Category} {amount : UInt64} (h : ∀ meter, Agrees m m' { c with meter }) :
    Agrees (VmM.charge category amount >>= fun _ => m) (VmM.charge category amount >>= fun _ => m') c := by
  refine .bind (.refl _ _) ?_
  unfold wp VmM.charge
  rw [exec_of]
  split
  · exact h _
  · trivial

theorem agrees_guard {error : ActionError} {b : Bool} (h : b = true → Agrees m m' c) :
    Agrees (VmM.guard error b >>= fun _ => m) (VmM.guard error b >>= fun _ => m') c := by
  cases b with
  | false => exact .bind (.refl _ _) trivial
  | true => exact .bind (.refl _ _) (h rfl)

end

theorem agrees_reserve {σ α : Type} {m m' : Fallible Fault σ α} {s : σ} {capacity len : Nat} (hle : len ≤ capacity) (h : Agrees m m' s) :
    Agrees (reserve capacity len >>= fun _ => m) m' s := by
  unfold reserve
  rw [if_pos hle, pure_bind]
  exact h

section
variable {w : World} {c : Ctx} {i : Nat}

/-! ### Emission -/

theorem wp_emitOutcome (state : State) (enabled : Bool) (endpoint : Endpoint) (recipient : Point) :
    wp (emitOutcome w state enabled endpoint recipient) (Post (fun outcome c' => c' = c ∧
      (outcome = .queued → state.pending.length < maxPending)) fun _ _ => True) c := by
  unfold emitOutcome
  split
  · exact ⟨rfl, fun h => by cases h⟩
  · refine (wp_bind _).2 ((wp_okOr ..).2 ⟨fun origin _ => ?_, fun _ => trivial⟩)
    rw [Post_ok]
    by_cases hnear : (origin.distance recipient != 1) = true
    · rw [if_pos hnear]
      exact ⟨rfl, fun h => by cases h⟩
    · rw [if_neg hnear]
      split
      · exact ⟨rfl, fun h => by cases h⟩
      · rename_i hroom
        exact ⟨rfl, fun _ => Nat.lt_of_not_le hroom⟩

theorem keeps_emitOutcome {ω : Type} {obs : Ctx → ω} (state : State) (enabled : Bool) (endpoint : Endpoint) (recipient : Point) :
    Keeps obs (emitOutcome w state enabled endpoint recipient) :=
  .ite (.pure _) ((Keeps.okOr _ _).bind fun _ => .ite (.pure _) (.ite (.pure _) (.pure _)))

theorem keeps_enqueue (signal : Signal) (accepted : UInt32) (outcome : SignalOutcome) :
    Keeps (fun c : Ctx => c.signals.length) (enqueue signal accepted outcome) := by
  exact .ite ((keeps_setState _).bind fun _ => .okOr _ _) (.pure _)

theorem records_record (event : SignalEvent) : Records 1 (VmM.record event) :=
  .update fun c => by simp

theorem records_emitLink (endpoint : Endpoint) (bit : Bool) (evidence : Option UInt32) (accepted : UInt32) (x : Link × Nat) :
    Records 1 (emitLink w endpoint bit evidence accepted x) :=
  .after (keeps_charge unmetered_signals _ _) fun _ => .after (keeps_charge unmetered_signals _ _) fun _ => .after (.view _) fun _ =>
    .after (.okOr _ _) fun _ => .after (.okOr _ _) fun _ => .after (.okOr _ _) fun _ => .after (keeps_setState _) fun _ =>
    .after (.okOr _ _) fun _ => .after (keeps_emitOutcome _ _ _ _) fun _ => .after (keeps_enqueue _ _ _) fun _ =>
    (records_record _).andThen fun _ => .pure _

theorem length_linksFrom_le (w : World) (endpoint : Endpoint) : (linksFrom w endpoint).length ≤ maxLinks := by
  refine (List.length_filter_le _ _).trans ?_
  rw [List.length_zipIdx]
  exact w.checked.linkCount

theorem records_emit (endpoint : Endpoint) (bit : Bool) (evidence : Option UInt32) : Records maxLinks (emit w endpoint bit evidence) :=
  (Grows.foldlM (fun accepted x => records_emitLink endpoint bit evidence accepted x) (linksFrom w endpoint) 0).mono
    (by rw [Nat.mul_one]; exact length_linksFrom_le w endpoint)

theorem agrees_record (event : SignalEvent) (h : c.signals.length + 1 ≤ maxSignalEventsPerTick) :
    Agrees (Reserved.record event) (VmM.record event) c :=
  .look (agrees_reserve h (.refl _ _))

theorem agrees_enqueue (signal : Signal) (accepted : UInt32) (outcome : SignalOutcome)
    (h : outcome = .queued → c.state.pending.length < maxPending) :
    Agrees (Reserved.enqueue signal accepted outcome) (enqueue signal accepted outcome) c := by
  unfold Reserved.enqueue enqueue
  split
  · rename_i hqueued
    exact .look (agrees_reserve (h hqueued) (.refl _ _))
  · exact .refl _ _

theorem agrees_emitLink (endpoint : Endpoint) (bit : Bool) (evidence : Option UInt32) (accepted : UInt32) (x : Link × Nat)
    (h : c.signals.length + 1 ≤ maxSignalEventsPerTick) :
    Agrees (Reserved.emitLink w endpoint bit evidence accepted x) (emitLink w endpoint bit evidence accepted x) c := by
  obtain ⟨link, i⟩ := x
  unfold Reserved.emitLink emitLink
  refine agrees_charge fun m₁ => agrees_charge fun m₂ => .view (.okOr fun recipient _ => .okOr fun deliverTick _ => .okOr fun next _ => ?_)
  refine .update (.okOr fun entry _ => .bind (.refl _ _) ((wp_emitOutcome _ _ _ _).post (fun outcome c' hc => ?_) fun _ _ _ => trivial))
  -- the queue is the one that the outcome was decided on
  obtain ⟨rfl, hroom⟩ := hc
  refine .bind (agrees_enqueue _ _ _ hroom) (((keeps_enqueue _ _ _).wp _).post (fun accepted' c'' hkept => ?_) fun _ _ _ => trivial)
  exact .congr (agrees_record _ (hkept ▸ h))

theorem agrees_emit (endpoint : Endpoint) (bit : Bool) (evidence : Option UInt32)
    (h : c.signals.length + maxLinks ≤ maxSignalEventsPerTick) :
    Agrees (Reserved.emit w endpoint bit evidence) (emit w endpoint bit evidence) c := by
  refine Agrees.foldlM (I := fun done c' => c'.signals.length ≤ c.signals.length + done.length)
    (fun done x rest hl accepted c' hc' => ⟨agrees_emitLink _ _ _ _ _ ?_, ?_⟩) 0 (Nat.le_refl _)
  · have hlen := length_linksFrom_le w endpoint
    rw [hl, List.length_append, List.length_cons] at hlen
    omega
  · rw [List.length_append]
    exact (records_emitLink endpoint bit evidence accepted x).wp hc'

/-! ### Actions -/

theorem agrees_credit {b : Nat} {spark : Spark} (h : c.state.delivered.length + 1 ≤ maxDeliveries) :
    Agrees (Reserved.credit w b spark) (credit w b spark) c := by
  unfold Reserved.credit credit
  refine agrees_charge fun m₁ => .okOr fun specification _ => .view (.okOr fun entry _ => .okOr fun charge _ => ?_)
  exact .update (.okOr fun delivered _ => .update (agrees_reserve h (.refl _ _)))

theorem agrees_deposit {d : Nat} {spark : Spark} (h : c.signals.length + maxLinks ≤ maxSignalEventsPerTick) :
    Agrees (Reserved.deposit w i d spark) (deposit w i d spark) c := by
  unfold Reserved.deposit deposit
  refine .okOr fun depot hdepot => .view (.okOr fun store _ => agrees_guard fun hroom => agrees_charge fun m₁ => .update ?_)
  have hcapacity : depot.capacity ≤ maxDepotCapacity := by
    have hd := w.checked.depots depot (List.mem_of_getElem? hdepot)
    simp only [checkDepot, Check.require_eq_ok, Bool.and_eq_true, decide_eq_true_eq] at hd
    exact hd.2
  refine agrees_reserve ((Nat.succ_le_of_lt (of_decide_eq_true hroom)).trans (UInt8.le_iff_toNat_le.1 hcapacity)) ?_
  exact .update (.congr (agrees_emit _ _ _ h))

theorem agrees_drop (hc : Conserved w c.state) (h : c.signals.length + maxLinks ≤ maxSignalEventsPerTick) :
    Agrees (Reserved.drop w i) (drop w i) c := by
  unfold Reserved.drop drop
  refine agrees_charge fun m₁ => .view (.okOr fun cell hcell => .okOr fun spark hcargo => ?_)
  cases w.depots.findIdx? (·.position == cell.position) with
  | some d => exact agrees_deposit h
  | none =>
    cases w.beacons.findIdx? (·.position == cell.position) with
    | none => exact .refl _ _
    | some b =>
      refine .okOr fun specification _ => agrees_guard fun _ => .congr (agrees_credit ?_)
      exact hc.room_of_cargo hcell hcargo

theorem agrees_takeMessage {port : Port} {slot : Slot} (h : c.signals.length + 1 ≤ maxSignalEventsPerTick) :
    Agrees (Reserved.takeMessage i port slot) (takeMessage i port slot) c := by
  unfold Reserved.takeMessage takeMessage
  refine agrees_charge fun m₁ => .view (.okOr fun cell _ => .okOr fun signal _ => agrees_charge fun m₂ => agrees_charge fun m₃ => ?_)
  exact .update (agrees_record _ h)

theorem agrees_send {port : Port} {bit : BitSource} (h : c.signals.length + maxLinks ≤ maxSignalEventsPerTick) :
    Agrees (Reserved.send w i port bit) (send w i port bit) c := by
  unfold Reserved.send send
  refine .view (.okOr fun cell _ => .bind (.refl _ _) (((keeps_readBit unmetered_signals cell bit).wp c).post (fun r c' hkept => ?_)
    fun _ _ _ => trivial))
  exact .congr (agrees_emit _ _ _ (hkept ▸ h))

theorem agrees_route {valve : ValveId} {bit : BitSource} (hc : Conserved w c.state) :
    Agrees (Reserved.route w i valve bit) (route w i valve bit) c := by
  unfold Reserved.route route
  refine .view (.okOr fun cell _ => .bind (.refl _ _) (((keeps_readBit unmetered_state cell bit).wp c).post (fun r c' hkept => ?_)
    fun _ _ _ => trivial))
  refine agrees_charge fun m₁ => .okOr fun v _ => .okOr fun specification _ => agrees_guard fun _ => .okOr fun entry _ => ?_
  refine agrees_guard fun _ => .okOr fun d _ => .okOr fun store hstore => .okOr fun spark hspark => .okOr fun b _ => .okOr fun target _ => ?_
  refine agrees_guard fun _ => .congr (agrees_credit ?_)
  rw [show Ctx.state { c' with meter := m₁ } = c.state from hkept]
  exact hc.room_of_stored hstore hspark

theorem agrees_execute (action : Action) (hc : Conserved w c.state) (h : c.signals.length + maxLinks ≤ maxSignalEventsPerTick) :
    Agrees (Reserved.execute w i action) (execute w i action) c := by
  unfold Reserved.execute execute
  refine agrees_charge fun m₁ => ?_
  cases action with
  | drop => exact agrees_drop hc h
  | takeMessage port slot => exact agrees_takeMessage ((Nat.add_le_add_left (by decide) _).trans h)
  | send port bit => exact agrees_send h
  | route valve bit => exact agrees_route hc
  | _ => exact .refl _ _

theorem agrees_perform (action : Action) (remember : Option MemoryWrite) (hc : Conserved w c.state)
    (h : c.signals.length + maxLinks ≤ maxSignalEventsPerTick) :
    Agrees (Reserved.perform w i action remember) (perform w i action remember) c :=
  .congr (.attempt (agrees_execute action hc h))

theorem runActivation_reserved (program : Program) (state : State) (record : Activation) (hc : Conserved w c.state)
    (h : c.signals.length + maxLinks ≤ maxSignalEventsPerTick) :
    Reserved.runActivation w program state i record c = runActivation w program state i record c := by
  have hstate := keeps_choose unmetered_state w program state i c
  have hsignals := keeps_choose unmetered_signals w program state i c
  unfold Reserved.runActivation runActivation
  revert hstate hsignals
  rcases exec (choose w program state i) c with ⟨e | selected, c'⟩ <;> intro hstate hsignals
  · rfl
  · have hstate : c'.state = c.state := hstate
    have hsignals : c'.signals.length = c.signals.length := hsignals
    have hagree : exec (Reserved.perform w i _ _) c' = exec (perform w i _ _) c' :=
      agrees_perform ((selected.map (·.2.action)).getD .wait) (selected.bind (·.2.remember)) (hstate ▸ hc) (hsignals ▸ h)
    simp only [hagree]

/-! ### What an activation records -/

theorem keeps_credit (b : Nat) (spark : Spark) : Keeps (fun c : Ctx => c.signals.length) (credit w b spark) :=
  (keeps_charge unmetered_signals _ _).bind fun _ => (Keeps.okOr _ _).bind fun _ => (Keeps.view _).bind fun _ => (Keeps.okOr _ _).bind fun _ =>
    (Keeps.okOr _ _).bind fun _ => (keeps_setState _).bind fun _ => (Keeps.okOr _ _).bind fun _ =>
    (keeps_setState _).bind fun _ => keeps_setState _

theorem keeps_writeMemory (slot : Slot) (value : UInt8) : Keeps (fun c : Ctx => c.signals.length) (writeMemory i slot value) :=
  (keeps_charge unmetered_signals _ _).bind fun _ => (Keeps.view _).bind fun _ => (Keeps.okOr _ _).bind fun _ => keeps_setState _

theorem keeps_move (direction : Relative) : Keeps (fun c : Ctx => c.signals.length) (move w i direction) :=
  (keeps_charge unmetered_signals _ _).bind fun _ => (Keeps.okOr _ _).bind fun _ => (Keeps.view _).bind fun _ => (Keeps.okOr _ _).bind fun _ =>
    (keeps_guard _ _).bind fun _ => (keeps_charge unmetered_signals _ _).bind fun _ => (Keeps.okOr _ _).bind fun _ => keeps_setState _

theorem keeps_turn (direction : Relative) : Keeps (fun c : Ctx => c.signals.length) (turn i direction) :=
  (keeps_charge unmetered_signals _ _).bind fun _ => (Keeps.view _).bind fun _ => (Keeps.okOr _ _).bind fun _ => keeps_setState _

theorem keeps_pickup : Keeps (fun c : Ctx => c.signals.length) (pickup w i) :=
  (keeps_charge unmetered_signals _ _).bind fun _ => (Keeps.view _).bind fun _ => (Keeps.okOr _ _).bind fun _ =>
    (keeps_guard _ _).bind fun _ => (Keeps.okOr _ _).bind fun _ => (Keeps.okOr _ _).bind fun _ => (Keeps.okOr _ _).bind fun _ =>
    (keeps_charge unmetered_signals _ _).bind fun _ => (keeps_setState _).bind fun _ => keeps_setState _

theorem records_deposit (d : Nat) (spark : Spark) : Records maxLinks (deposit w i d spark) :=
  .after (.okOr _ _) fun _ => .after (.view _) fun _ => .after (.okOr _ _) fun _ => .after (keeps_guard _ _) fun _ =>
    .after (keeps_charge unmetered_signals _ _) fun _ => .after (keeps_setState _) fun _ => .after (keeps_setState _) fun _ =>
    (records_emit _ _ _).andThen fun _ => .pure _

theorem records_drop : Records maxLinks (drop w i) := by
  refine .after (keeps_charge unmetered_signals _ _) fun _ => .after (.view _) fun _ => .after (.okOr _ _) fun cell => ?_
  refine .after (.okOr _ _) fun spark => ?_
  cases w.depots.findIdx? (·.position == cell.position) with
  | some d => exact records_deposit d spark
  | none =>
    refine .of_keeps ?_
    cases w.beacons.findIdx? (·.position == cell.position) with
    | none => exact .throw _
    | some b =>
      exact (Keeps.okOr _ _).bind fun _ => (keeps_guard _ _).bind fun _ => (keeps_credit b spark).bind fun _ => keeps_setState _

theorem records_takeMessage (port : Port) (slot : Slot) : Records maxLinks (takeMessage i port slot) := by
  refine .after (keeps_charge unmetered_signals _ _) fun _ => .after (.view _) fun _ => .after (.okOr _ _) fun _ => ?_
  refine .after (.okOr _ _) fun _ => .after (keeps_charge unmetered_signals _ _) fun _ => .after (keeps_charge unmetered_signals _ _) fun _ => ?_
  exact .after (keeps_setState _) fun _ => (records_record _).mono (by decide)

theorem records_send (port : Port) (bit : BitSource) : Records maxLinks (send w i port bit) :=
  .after (.view _) fun _ => .after (.okOr _ _) fun _ => .after (keeps_readBit unmetered_signals _ _) fun _ =>
    (records_emit _ _ _).andThen fun _ => keeps_guard _ _

theorem keeps_route (valve : ValveId) (bit : BitSource) : Keeps (fun c : Ctx => c.signals.length) (route w i valve bit) :=
  (Keeps.view _).bind fun _ => (Keeps.okOr _ _).bind fun _ => (keeps_readBit unmetered_signals _ _).bind fun _ =>
    (keeps_charge unmetered_signals _ _).bind fun _ => (Keeps.okOr _ _).bind fun _ => (Keeps.okOr _ _).bind fun _ =>
    (keeps_guard _ _).bind fun _ => (Keeps.okOr _ _).bind fun _ => (keeps_guard _ _).bind fun _ => (Keeps.okOr _ _).bind fun _ =>
    (Keeps.okOr _ _).bind fun _ => (Keeps.okOr _ _).bind fun _ => (Keeps.okOr _ _).bind fun _ => (Keeps.okOr _ _).bind fun _ =>
    (keeps_guard _ _).bind fun _ => (keeps_credit _ _).bind fun _ => keeps_setState _

theorem records_execute (action : Action) : Records maxLinks (execute w i action) := by
  refine .after (keeps_charge unmetered_signals _ _) fun _ => ?_
  cases action with
  | wait => exact .pure _
  | move direction => exact .of_keeps (keeps_move direction)
  | turn direction => exact .of_keeps (keeps_turn direction)
  | pickup => exact .of_keeps keeps_pickup
  | drop => exact records_drop
  | writeMemory slot value => exact .of_keeps (keeps_writeMemory slot value)
  | takeMessage port slot => exact records_takeMessage port slot
  | send port bit => exact records_send port bit
  | route valve bit => exact .of_keeps (keeps_route valve bit)

theorem keeps_writeRemember (remember : Option MemoryWrite) : Keeps (fun c : Ctx => c.signals.length) (writeRemember i remember) := by
  cases remember with
  | none => exact .pure _
  | some write => exact keeps_writeMemory write.slot write.value

theorem records_perform (action : Action) (remember : Option MemoryWrite) : Records maxLinks (perform w i action remember) := by
  have hexecute : Records maxLinks (attempt actionFailure (execute w i action)) := records_execute action
  unfold perform
  refine hexecute.andThen fun result => (keeps_writeRemember remember).bind fun _ => ?_
  cases result with
  | ok u => exact .pure _
  | error e => exact .throw _

theorem length_runActivation_le (program : Program) (state : State) (record : Activation) (c : Ctx) :
    (runActivation w program state i record c).2.signals.length ≤ c.signals.length + maxLinks := by
  have hchoose := keeps_choose unmetered_signals w program state i c
  unfold runActivation
  revert hchoose
  rcases exec (choose w program state i) c with ⟨e | selected, c'⟩ <;> intro hchoose
  · exact hchoose.le.trans (Nat.le_add_right _ _)
  · have hchoose : c'.signals.length = c.signals.length := hchoose
    have hperform := records_perform (w := w) (i := i) ((selected.map (·.2.action)).getD .wait) (selected.bind (·.2.remember)) c'
    simp only [hchoose] at hperform
    exact hperform

end

end Valhalla.Witness
