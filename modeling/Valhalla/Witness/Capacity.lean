import Valhalla.Witness.Room

/-!
# Every run stays within what was reserved for it

The signal events of a tick are counted phase by phase: expiry empties each port once, delivery takes each queued signal once, and
a turn adds what an activation may add. With that the run that checks every push is the plain run (`run_reserved`). The states of
a run are told apart by their encodings, and by their hashes up to a collision (`run_contained`).
-/

namespace Valhalla.Witness
open Fallible FixedWidth

/-! ### Activations -/

theorem reserve_of_le {σ : Type} {capacity len : Nat} (h : len ≤ capacity) : (reserve capacity len : Fallible Fault σ Unit) = pure () :=
  if_pos h

theorem forM_reserve {σ α : Type} {l : List α} {capacity : Nat} {len : α → Nat} (h : ∀ a ∈ l, len a ≤ capacity) :
    (forM l fun a => reserve capacity (len a) : Fallible Fault σ PUnit) = pure () := by
  induction l with
  | nil => rfl
  | cons a l ih =>
    rw [List.forM_cons, reserve_of_le (h a List.mem_cons_self), pure_bind]
    exact ih fun b hb => h b (List.mem_cons_of_mem a hb)

theorem hold_eq {σ : Type} {s : State} (h : s.Contained) : (Reserved.hold s : Fallible Fault σ Unit) = pure () := by
  have hmem : ∀ {stores : List SparkStore}, (stores.map (·.sparks.length)).sum ≤ maxInitialSparks →
      ∀ store ∈ stores, store.sparks.length ≤ maxInitialSparks := fun hsum store hm =>
    (List.le_sum_of_mem (List.mem_map_of_mem hm)).trans hsum
  have hdepots : ∀ depot ∈ s.depots, depot.sparks.length ≤ maxDepotCapacity.toNat := hmem h.depotSparks
  unfold Reserved.hold
  rw [reserve_of_le h.cells, reserve_of_le h.sources, forM_reserve (hmem h.sourceSparks), reserve_of_le h.depots,
    forM_reserve hdepots, reserve_of_le h.beacons, reserve_of_le h.valves, reserve_of_le h.links, reserve_of_le h.pending,
    reserve_of_le h.delivered]
  rfl

section
variable {w : World} {case : Case} {assignment : Assignment} {m : Machine} {c : Ctx} {i : Nat} {st st' : Stage}

theorem Reached.goes {m' : Machine} (h : Reached w st m.state) (hg : Goes w case st m st' m') : Reached w st' m'.state := by
  obtain ⟨notes, hp⟩ := h
  obtain ⟨notes', new, hp', -⟩ := hg.moves.path
  exact ⟨notes ++ notes', hp.trans hp'⟩

/-- The step adds at most `n` signal events. -/
abbrev Logs {α : Type} (n : Nat) (m : TickM α) : Prop := Grows (fun m : Machine => m.signals.length) n m

theorem logs_attemptActivation (program : Program) (record : Activation) :
    Logs maxLinks (attemptActivation w case program i record) := by
  refine .after (.view _) fun meter => .after (.okOr _ _) fun meter m => ?_
  exact length_runActivation_le program m.state record ⟨meter, m.signals, m.scratch.copyFrom m.state⟩

theorem keeps_commit {ω : Type} {obs : Machine → ω} (hobs : ∀ m state scratch, obs { m with state, scratch } = obs m) :
    Keeps obs (commit i) :=
  (Keeps.view _).bind fun _ => (Keeps.okOr _ _).bind fun _ => (Keeps.update fun m => hobs m _ _).bind fun _ => .pure _

theorem logs_conclude (mark : Nat) (record : Activation) (result : Except Fault Unit) : Logs 0 (conclude i mark record result) := by
  have hcommit : Keeps (fun m : Machine => m.signals.length) (commit i) := keeps_commit fun _ _ _ => rfl
  match result with
  | .ok () => exact .of_keeps (hcommit.bind fun _ => .pure _)
  | .error (.action error) => exact .of_keeps (hcommit.bind fun _ => .pure _)
  | .error (.internal error) => exact .throw _
  | .error (.stop stop) => exact Grows.andThen (.update fun m => List.length_take_le' _ _) fun _ => .pure _

theorem logs_activate (program : Program) : Logs maxLinks (activate w case program i) :=
  .after (.view _) fun _ => .after (.okOr _ _) fun _ => .after (.view _) fun _ => .after (.okOr _ _) fun _ => .after (.view _) fun _ =>
    (logs_attemptActivation program _).bind fun _ => .after (.view _) fun _ => .after (.okOr _ _) fun _ => logs_conclude _ _ _

theorem agrees_attemptActivation (program : Program) (record : Activation) (hs : m.Sane w) (hr : Reached w st m.state)
    (h : m.signals.length + maxLinks ≤ maxSignalEventsPerTick) :
    Agrees (Reserved.attemptActivation w case program i record) (attemptActivation w case program i record) m := by
  have hcopy : m.scratch.copyFrom m.state = m.state := State.copyFrom_eq hs.scratch hs.ready.good.fits
  unfold Reserved.attemptActivation attemptActivation
  refine .view (.okOr fun meter _ => .look ?_)
  rw [hold_eq hr.contained, pure_bind]
  unfold Agrees
  simp only [exec_of, hcopy]
  rw [runActivation_reserved program m.state record hr.conserved h]

theorem agrees_activate (program : Program) (hs : m.Sane w) (hr : Reached w st m.state)
    (h : m.signals.length + maxLinks ≤ maxSignalEventsPerTick) :
    Agrees (Reserved.activate w case program i) (activate w case program i) m := by
  unfold Reserved.activate activate
  refine .view (.okOr fun cell _ => .view (.okOr fun workBefore _ => .view (.congr ?_)))
  exact agrees_attemptActivation program _ hs hr h

theorem keeps_conclude (mark : Nat) (record : Activation) (result : Except Fault Unit) :
    Keeps Machine.activations (conclude i mark record result) := by
  have hcommit : Keeps Machine.activations (commit i) := keeps_commit fun _ _ _ => rfl
  match result with
  | .ok () => exact hcommit.bind fun _ => .pure _
  | .error (.action error) => exact hcommit.bind fun _ => .pure _
  | .error (.internal error) => exact .throw _
  | .error (.stop stop) => exact Keeps.bind (.update fun _ => rfl) fun _ => .pure _

theorem keeps_activate (program : Program) : Keeps Machine.activations (activate w case program i) := by
  refine (Keeps.view _).bind fun _ => (Keeps.okOr _ _).bind fun _ => (Keeps.view _).bind fun _ => (Keeps.okOr _ _).bind fun _ => ?_
  refine (Keeps.view _).bind fun _ => Keeps.bind ?_ fun _ => (Keeps.view _).bind fun _ => (Keeps.okOr _ _).bind fun _ => ?_
  · exact (Keeps.view _).bind fun _ => (Keeps.okOr _ _).bind fun _ _ => rfl
  · exact keeps_conclude _ _ _

/-! ### Turns -/

/-- How far the lists of a tick are filled. -/
structure Filled (signals activations : Nat) (m : Machine) : Prop where
  signals : m.signals.length ≤ signals
  activations : m.activations.length ≤ activations

theorem agrees_turnOf {signals activations : Nat} {id : UInt16} (hs : m.Sane w) (hr : Reached w st m.state)
    (h : Filled signals activations m) (hsignals : signals + maxLinks ≤ maxSignalEventsPerTick) (hactivations : activations + 1 ≤ maxCells) :
    Agrees (Reserved.turnOf w assignment case id) (turnOf w assignment case id) m := by
  unfold Reserved.turnOf turnOf
  refine .view (.okOr fun i _ => .okOr fun program _ => ?_)
  have hagree : Agrees (Reserved.activate w case program i) (activate w case program i) m :=
    agrees_activate program hs hr ((Nat.add_le_add_right h.signals _).trans hsignals)
  refine .bind hagree (((keeps_activate program).wp m).post (fun r m' hkept => ?_) fun _ _ _ => trivial)
  obtain ⟨record, limit⟩ := r
  have hkept : m'.activations = m.activations := hkept
  refine .look (agrees_reserve ?_ (.refl _ _))
  rw [hkept]
  exact (Nat.succ_le_succ h.activations).trans hactivations

theorem turnOf_fills {signals activations : Nat} {id : UInt16} (h : Filled signals activations m) :
    wp (turnOf w assignment case id) (Post (fun _ m' => Filled (signals + maxLinks) (activations + 1) m') fun _ _ => True) m := by
  simp only [turnOf, wp_bind, wp_view, Post_ok]
  refine (wp_okOr ..).2 ⟨fun i _ => ?_, fun _ => trivial⟩
  rw [Post_ok]
  refine (wp_okOr ..).2 ⟨fun program _ => ?_, fun _ => trivial⟩
  refine (((keeps_activate program).wp m).both ((logs_activate program).wp h.signals)).post (fun r m' hr => ?_) fun _ _ _ => trivial
  obtain ⟨record, limit⟩ := r
  obtain ⟨hkept, hsignals⟩ := hr
  have hfilled : Filled (signals + maxLinks) (activations + 1) { m' with activations := m'.activations ++ [record] } := by
    refine ⟨hsignals, ?_⟩
    rw [List.length_append, hkept]
    exact Nat.succ_le_succ h.activations
  cases limit with
  | none => exact hfilled
  | some stop =>
    cases stop with
    | fuel => trivial
    | activation => exact { hfilled with }

/-! ### The other phases -/

theorem records_expirePort (port : Fin ports) : Records 1 (expirePort i port) := by
  refine .after (.view _) fun _ => .after (.okOr _ _) fun cell => ?_
  cases cell.signalAt port with
  | none => exact .pure _
  | some signal =>
    exact .after (keeps_charge unmetered_signals _ _) fun _ => (records_record _).andThen fun _ => keeps_setState _

theorem agrees_expirePort (port : Fin ports) (h : c.signals.length + 1 ≤ maxSignalEventsPerTick) :
    Agrees (Reserved.expirePort i port) (expirePort i port) c := by
  unfold Reserved.expirePort expirePort
  refine .view (.okOr fun cell _ => ?_)
  cases cell.signalAt port with
  | none => exact .refl _ _
  | some signal => exact agrees_charge fun meter => .congr (agrees_record _ h)

theorem records_ports (i : Nat) : Records ports (forM (List.finRange ports) (expirePort i)) :=
  (Grows.forM (fun port => records_expirePort port) _).mono (by decide)

theorem length_expireInboxes_le (c : Ctx) :
    (exec expireInboxes c).2.signals.length ≤ c.signals.length + c.state.cells.length * ports := by
  have hrange := Grows.forM records_ports (List.range c.state.cells.length) c
  rwa [List.length_range] at hrange

theorem agrees_ports (i : Nat) (h : c.signals.length + ports ≤ maxSignalEventsPerTick) :
    Agrees (forM (List.finRange ports) (Reserved.expirePort i)) (forM (List.finRange ports) (expirePort i)) c := by
  refine .forM (I := fun done c' => c'.signals.length ≤ c.signals.length + done.length)
    (fun done port rest hl c₁ h₁ => ⟨agrees_expirePort port ?_, ?_⟩) (Nat.le_refl _)
  · have hlen : (List.finRange ports).length = ports := List.length_finRange
    rw [hl, List.length_append, List.length_cons] at hlen
    omega
  · rw [List.length_append]
    exact (records_expirePort port).wp h₁

theorem agrees_expireInboxes (h : c.signals.length + c.state.cells.length * ports ≤ maxSignalEventsPerTick) :
    Agrees Reserved.expireInboxes expireInboxes c := by
  refine .view (.forM (I := fun done c' => c'.signals.length ≤ c.signals.length + done.length * ports)
    (fun done i rest hl c₁ h₁ => ⟨?_, ?_⟩) (Nat.le_add_right _ _))
  · have hlen : done.length + 1 ≤ c.state.cells.length := by
      rw [← List.length_range (n := c.state.cells.length), hl, List.length_append, List.length_cons]
      omega
    have hmul := Nat.mul_le_mul_right ports hlen
    rw [Nat.succ_mul] at hmul
    exact agrees_ports i (by omega)
  · rw [List.length_append, List.length_singleton, Nat.add_mul, Nat.one_mul, ← Nat.add_assoc]
    exact (records_ports i).wp h₁

theorem keeps_applyEvent (event : EventKind) : Keeps (fun c : Ctx => c.signals.length) (applyEvent event) := by
  cases event with
  | _ =>
    exact (keeps_charge unmetered_signals _ _).bind fun _ => (keeps_charge unmetered_signals _ _).bind fun _ => (Keeps.view _).bind fun _ =>
      (Keeps.okOr _ _).bind fun _ => keeps_setState _

theorem applyEvents_fills {signals activations : Nat} (tick : UInt32) (h : Filled signals activations m) :
    wp (applyEvents case tick) (Post (fun _ => Filled signals activations) fun _ _ => True) m := by
  have hkept : Keeps (fun m : Machine => (m.signals.length, m.activations.length)) (applyEvents case tick) :=
    .forM fun event => Keeps.bind (fun m => Prod.ext (keeps_applyEvent event.event m.ctx) rfl) fun _ => .update fun _ => rfl
  obtain ⟨hsignals, hactivations⟩ := Prod.mk.inj (hkept m)
  exact wp.final ⟨hsignals.le.trans h.signals, hactivations.le.trans h.activations⟩

theorem agrees_applyEvents (tick : UInt32) (h : m.events = []) : Agrees (Reserved.applyEvents case tick) (applyEvents case tick) m := by
  have hcount : (case.events.filter (·.tick == tick)).length ≤ maxEvents := (List.length_filter_le _ _).trans case.bounds.2.2
  have hlive : ∀ event, Keeps Machine.events (live (applyEvent event)) := fun _ _ => rfl
  refine .forM (I := fun done m' => m'.events.length = done.length) (fun done event rest hl m₁ h₁ => ⟨?_, ?_⟩) (congrArg List.length h)
  · refine .bind (.refl _ _) (((hlive event.event).wp m₁).post (fun _ m₂ hkept => ?_) fun _ _ _ => trivial)
    refine .look (agrees_reserve ?_ (.refl _ _))
    rw [hkept, h₁]
    rw [hl, List.length_append, List.length_cons] at hcount
    omega
  · refine (wp_bind _).2 (((hlive event.event).wp m₁).post (fun _ m₂ hkept => ?_) fun _ _ _ => trivial)
    have hlen : (m₂.events ++ [event.event]).length = (done ++ [event]).length := by
      rw [List.length_append, List.length_append, hkept, h₁]
      rfl
    exact hlen

theorem keeps_receive (recipient : Nat) (signal : Signal) (outcome : SignalOutcome) :
    Keeps (fun c : Ctx => c.signals.length) (receive recipient signal outcome) := .ite (keeps_setState _) (.pure _)

theorem records_deliverAt (k : Nat) (signal : Signal) : Records 1 (deliverAt w k signal) :=
  .after (keeps_charge unmetered_signals _ _) fun _ => .after (keeps_charge unmetered_signals _ _) fun _ => .after (keeps_setState _) fun _ =>
    .after (.view _) fun _ => .after (.okOr _ _) fun _ => .after (.okOr _ _) fun _ => .after (.okOr _ _) fun _ => .after (.okOr _ _) fun _ =>
    .after (keeps_receive _ _ _) fun _ => records_record _

theorem agrees_deliverAt (k : Nat) (signal : Signal) (h : c.signals.length + 1 ≤ maxSignalEventsPerTick) :
    Agrees (Reserved.deliverAt w k signal) (deliverAt w k signal) c := by
  unfold Reserved.deliverAt deliverAt
  refine agrees_charge fun m₁ => agrees_charge fun m₂ => .update (.view (.okOr fun link _ => .okOr fun recipient _ => ?_))
  refine .okOr fun origin _ => .okOr fun cell _ => ?_
  refine .bind (.refl _ _) (((keeps_receive _ _ _).wp _).post (fun _ c' hkept => agrees_record _ ?_) fun _ _ _ => trivial)
  rw [hkept]
  exact h

theorem records_deliverFrom (tick : UInt32) (k : Nat) (remaining : List Signal) : Records remaining.length (deliverFrom w tick k remaining) := by
  induction remaining generalizing k with
  | nil => exact .pure _
  | cons signal remaining ih =>
    unfold deliverFrom
    rw [List.length_cons, Nat.add_comm]
    exact .ite ((ih (k + 1)).mono (Nat.le_add_left _ _)) ((records_deliverAt k signal).bind fun _ => ih k)

theorem agrees_deliverFrom (tick : UInt32) (k : Nat) {remaining : List Signal}
    (h : c.signals.length + remaining.length ≤ maxSignalEventsPerTick) :
    Agrees (Reserved.deliverFrom w tick k remaining) (deliverFrom w tick k remaining) c := by
  induction remaining generalizing k c with
  | nil => exact .refl _ _
  | cons signal remaining ih =>
    rw [List.length_cons] at h
    unfold Reserved.deliverFrom deliverFrom
    split
    · exact ih (k + 1) (by omega)
    · refine .bind (agrees_deliverAt k signal (by omega)) (((records_deliverAt k signal).wp (Nat.le_refl _)).post (fun _ c' hc' => ?_)
        fun _ _ _ => trivial)
      exact ih k (by omega)

theorem length_deliverDue_le (tick : UInt32) (c : Ctx) :
    (exec (deliverDue w tick) c).2.signals.length ≤ c.signals.length + c.state.pending.length :=
  records_deliverFrom tick 0 c.state.pending c

theorem agrees_deliverDue (tick : UInt32) (h : c.signals.length + c.state.pending.length ≤ maxSignalEventsPerTick) :
    Agrees (Reserved.deliverDue w tick) (deliverDue w tick) c := .view (agrees_deliverFrom tick 0 h)

/-! ### The tick -/

theorem live_fills {α : Type} {f : VmM α} {n signals activations : Nat}
    (hn : (exec f m.ctx).2.signals.length ≤ m.ctx.signals.length + n) (h : Filled signals activations m) :
    wp (live f) (Post (fun _ m' => Filled (signals + n) activations m' ∧ m'.events = m.events) fun _ _ => True) m :=
  wp.final (P := fun m' => Filled (signals + n) activations m' ∧ m'.events = m.events)
    ⟨⟨hn.trans (Nat.add_le_add_right h.signals n), h.activations⟩, rfl⟩

theorem agrees_turns {m₀ : Machine} (hs : m₀.Sane w) (hr : Reached w .expiring m₀.state)
    (hp : assignment.programs.length = w.cells.length) (horder : ∀ id ∈ m₀.order, id ∈ w.cells.map (·.id))
    (hlen : m₀.order.length ≤ maxCells) (hg : Goes w case .expiring m₀ .acting m) (h : Filled (maxCells * ports + maxPending) 0 m) :
    Agrees (forM m₀.order (Reserved.turnOf w assignment case)) (forM m₀.order (turnOf w assignment case)) m := by
  refine .forM (I := fun done m' => Goes w case .expiring m₀ .acting m' ∧
    Filled (maxCells * ports + maxPending + done.length * maxLinks) done.length m') (fun done id rest hl m₁ h₁ => ⟨?_, ?_⟩)
    ⟨hg, by rw [List.length_nil, Nat.zero_mul]; exact h⟩
  · rw [hl, List.length_append, List.length_cons] at hlen
    have hturns := Nat.mul_le_mul_right maxLinks (show done.length + 1 ≤ maxCells by omega)
    rw [Nat.succ_mul] at hturns
    refine agrees_turnOf (h₁.1.sane hs) (hr.goes h₁.1) h₁.2 ?_ (by omega)
    rw [Nat.add_assoc]
    exact Nat.add_le_add_left hturns _
  · have hid := horder id (hl ▸ by simp)
    refine ((turnOf_goes (h₁.1.sane hs) hid hp).both (turnOf_fills h₁.2)).post (fun _ m₂ h₂ => ⟨h₁.1.trans h₂.1, ?_⟩) fun _ _ _ => trivial
    rw [List.length_append, List.length_singleton, Nat.succ_mul, ← Nat.add_assoc]
    exact h₂.2

theorem agrees_tick (hs : m.Sane w) (hr : Reached w .expiring m.state) (hp : assignment.programs.length = w.cells.length)
    (horder : ∀ id ∈ m.order, id ∈ w.cells.map (·.id)) (hlen : m.order.length ≤ maxCells) (h : Filled 0 0 m) (hevents : m.events = []) :
    Agrees (Reserved.tick w assignment case m.state.tick) (tick w assignment case m.state.tick) m := by
  unfold Reserved.tick tick
  refine .look (agrees_reserve hlen ?_)
  have h₀ : Goes w case .expiring m .expiring m := .refl hs
  have hcharge := (live_goes h₀ hs (charge_stops hs.ready.sound)).both
    (live_fills (n := 0) (keeps_charge unmetered_signals .scheduling 1 m.ctx).le h)
  refine .bind (.refl _ _) (hcharge.post (fun _ m₁ hm₁ => ?_) fun _ _ _ => trivial)
  obtain ⟨h₁, hfill₁, hevents₁⟩ := hm₁
  have hs₁ := h₁.sane hs
  -- expiry
  have hcells : m₁.ctx.state.cells.length * ports ≤ maxCells * ports := Nat.mul_le_mul_right ports (hr.goes h₁).contained.cells
  have hexpire := (live_goes h₁ hs₁ ((expireInboxes_within hs₁.ready).stops (by simp))).both
    (live_fills ((length_expireInboxes_le m₁.ctx).trans (Nat.add_le_add_left hcells _)) hfill₁)
  refine .bind (.zoom (agrees_expireInboxes ?_)) (hexpire.post (fun _ m₂ hm₂ => ?_) fun _ _ _ => trivial)
  · exact (Nat.add_le_add hfill₁.signals hcells).trans (by decide)
  obtain ⟨h₂, hfill₂, hevents₂⟩ := hm₂
  -- the scheduled events
  have happly := (applyEvents_goes hs h₂).both (applyEvents_fills m.state.tick hfill₂)
  refine .bind (agrees_applyEvents _ (hevents₂.trans (hevents₁.trans hevents))) (happly.post (fun _ m₃ hm₃ => ?_) fun _ _ _ => trivial)
  obtain ⟨h₃, hfill₃⟩ := hm₃
  have h₃ := h₃.stage .schedule
  have hs₃ := h₃.sane hs
  -- delivery
  have hpending : m₃.ctx.state.pending.length ≤ maxPending := (hr.goes h₃).contained.pending
  have hdeliver := deliverDue_within hs₃.ready
  rw [show m₃.ctx.state.tick = m.state.tick from h₃.moves.tick] at hdeliver
  have hdeliver := (live_goes h₃ hs₃ (hdeliver.stops (by simp))).both
    (live_fills ((length_deliverDue_le m.state.tick m₃.ctx).trans (Nat.add_le_add_left hpending _)) hfill₃)
  refine .bind (.zoom (agrees_deliverDue _ ?_)) (hdeliver.post (fun _ m₄ hm₄ => ?_) fun _ _ _ => trivial)
  · exact (Nat.add_le_add hfill₃.signals hpending).trans (by decide)
  obtain ⟨h₄, hfill₄, -⟩ := hm₄
  refine .view ?_
  rw [h₄.order]
  exact .congr (agrees_turns hs hr hp horder hlen h₄ (by rwa [Nat.zero_add] at hfill₄))

/-! ### Runs -/

theorem Between.reached {done : List Frame} {t : UInt32} (h : Between w case done m) (ht : t.toNat = m.state.tick.toNat + 1)
    (hle : t ≤ maxTicks) : Reached w .expiring (m.prepare case t).state := by
  obtain ⟨-, notes, hp, -⟩ := h.prepare ht hle
  exact ⟨notes, hp⟩

theorem runTicks_reserved (hp : assignment.programs.length = w.cells.length) {ticks : List UInt32} (completed : UInt32) {done : List Frame}
    (h : Between w case done m) (ht : Consecutive m.state.tick.toNat ticks) :
    Reserved.runTicks w assignment case ticks completed m = runTicks w assignment case ticks completed m := by
  induction ticks generalizing m completed done with
  | nil => rfl
  | cons t rest ih =>
    obtain ⟨htick, hle, hrest⟩ := ht
    obtain ⟨hsane, -⟩ := h.prepare htick hle
    have hlen : (m.prepare case t).order.length ≤ maxCells := by
      have hcells : m.state.cells.length ≤ maxCells := h.sane.ready.good.shape.length_cells.trans_le w.checked.cellCount
      simpa only [Machine.prepare, scheduled, List.length_insertionSort, List.length_map] using hcells
    have hagree : Agrees (Reserved.tick w assignment case (m.prepare case t).state.tick)
        (tick w assignment case (m.prepare case t).state.tick) (m.prepare case t) :=
      agrees_tick hsane (h.reached htick hle) hp (fun _ => h.mem_order) hlen ⟨Nat.le_refl _, Nat.le_refl _⟩ rfl
    have hspec := tick_goes assignment case hsane hp (fun _ => h.mem_order) h.endChecking
    rw [show (m.prepare case t).state.tick = t from rfl] at hagree hspec
    unfold Agrees at hagree
    unfold Reserved.runTicks runTicks
    rw [hagree]
    unfold wp at hspec
    generalize exec (tick w assignment case t) (m.prepare case t) = r at hspec
    rcases r with ⟨(reason | error | error) | ⟨⟩, m'⟩
    · rfl
    · rfl
    · rfl
    · have hg : Goes w case .expiring (m.prepare case t) .idle m' := hspec
      have ht' : m'.state.tick = t := hg.moves.tick
      cases hcompleted : checkedAdd completed 1 with
      | none => rfl
      | some completed =>
        simp only [ih completed (h.next htick hle hg) (by rw [ht', htick]; exact hrest)]

theorem summary_ne_panic (hg : Good w m.state) (hi : m.initialSparks = w.initialSparks) (completed : UInt32) :
    summary w case m completed ≠ .error .panic := by
  obtain ⟨result, hresult, -⟩ := summary_ok m case hg hi completed
  rw [hresult]
  exact fun he => by cases he

/-- A run never needs more than what was reserved for it; nor does it panic otherwise. -/
theorem run_reserved (w : World) (assignment : Assignment) (case : Case) :
    Reserved.run w assignment case = run w assignment case ∧ (run w assignment case).result ≠ .error .panic := by
  by_cases hcells : assignment.cells = w.cells.map (·.id)
  · obtain ⟨m, hm, hstate, hscratch, hmeter, hsignals, hsparks, hc, hb⟩ := new_eq case hcells
    have hp : assignment.programs.length = w.cells.length := by rw [assignment.paired, hcells, List.length_map]
    have hreached : Reached w .idle m.state := ⟨[], hstate ▸ .refl _⟩
    obtain ⟨work, hwork⟩ := initialChecking_ok case hsparks
    have hload : wp (load case work) _ m.meter := load_spec (hmeter ▸ ⟨Nat.zero_le _, fun _ _ he => by cases he⟩)
    unfold Reserved.run run
    simp only [hm, hold_eq hreached.contained, exec_pure]
    unfold Reserved.machineRun Machine.run
    unfold wp at hload
    simp only [hwork]
    generalize exec (load case work) m.meter = r at hload
    rcases r with ⟨(reason | _) | ⟨⟩, meter⟩
    · have hbetween := between_of_new hstate hscratch hsparks hc hb (hmeter ▸ hload.2) .fuelExhausted false
      exact ⟨rfl, summary_ne_panic (m := { m with meter, status := .fuelExhausted }) hbetween.sane.ready.good hbetween.initialSparks 0⟩
    · exact ⟨rfl, fun he => by cases he⟩
    · have hbetween := between_of_new hstate hscratch hsparks hc hb (hmeter ▸ hload) .complete true
      have htick : (Machine.state { m with meter, status := .complete }).tick = 0 := congrArg State.tick hstate
      have hticks : Consecutive (Machine.state { m with meter, status := .complete }).tick.toNat case.tickList :=
        htick ▸ consecutive_tickList case
      obtain ⟨-, hspec⟩ := runTicks_spec hp 0 hbetween hticks htick.symm
      simp only [runTicks_reserved hp 0 hbetween hticks, true_and]
      generalize (runTicks w assignment case case.tickList 0 { m with meter, status := .complete }).2 = r at hspec
      rcases r with e | ⟨m', completed⟩
      · obtain ⟨rfl, -⟩ := hspec
        exact fun he => by cases he
      · exact summary_ne_panic hspec.1 hspec.2 completed
  · have hnew : Machine.new w assignment case = .error .assignmentMismatch := by
      simp [Machine.new, Check.require, hcells, bind, Except.bind]
    rw [Reserved.run, run, hnew]
    exact ⟨rfl, fun he => by cases he⟩

theorem runTicks_last {ticks : List UInt32} {completed last : UInt32} {m' : Machine}
    (h : (runTicks w assignment case ticks completed m).2 = .ok (m', last)) :
    m'.state = m.state ∧ m'.meter = m.meter ∨
      ∃ f ∈ (runTicks w assignment case ticks completed m).1, f.state = m'.state ∧ f.ledger = m'.meter.ledger := by
  induction ticks generalizing m completed with
  | nil =>
    cases h
    exact .inl ⟨rfl, rfl⟩
  | cons t rest ih =>
    unfold runTicks at h ⊢
    generalize exec (tick w assignment case t) (m.prepare case t) = r at h ⊢
    rcases r with ⟨(reason | error | error) | ⟨⟩, m₁⟩
    · cases h
      exact .inr ⟨_, List.mem_singleton_self _, rfl, rfl⟩
    · cases h
    · cases h
    · cases hcompleted : checkedAdd completed 1 with
      | none =>
        rw [hcompleted] at h
        cases h
      | some completed =>
        simp only [hcompleted] at h ⊢
        rcases ih h with ⟨hstate, hmeter⟩ | ⟨f, hf, hlast⟩
        · exact .inr ⟨_, List.mem_cons_self, hstate.symm, congrArg Meter.ledger hmeter.symm⟩
        · exact .inr ⟨f, List.mem_cons_of_mem _ hf, hlast⟩

theorem summary_state {m : Machine} {completed : UInt32} {result : RunResult} (h : summary w case m completed = .ok result) :
    result.finalState = m.state ∧ result.ledger = m.meter.ledger := by
  obtain ⟨outcome, -, h⟩ := Check.bind_eq_ok.1 h
  cases h
  exact ⟨rfl, rfl⟩

theorem run_last {result : RunResult} (h : (run w assignment case).result = .ok result) :
    ∃ f ∈ (run w assignment case).frames, f.state = result.finalState ∧ f.ledger = result.ledger := by
  unfold run at h ⊢
  cases hnew : Machine.new w assignment case with
  | error e =>
    rw [hnew] at h
    cases h
  | ok m =>
    rw [hnew] at h
    simp only [Machine.run] at h ⊢
    cases hinitial : m.initialChecking w case with
    | error e =>
      rw [hinitial] at h
      cases h
    | ok work =>
      simp only [hinitial] at h ⊢
      generalize exec (load case work) m.meter = r at h ⊢
      rcases r with ⟨(reason | _) | ⟨⟩, meter⟩
      · exact ⟨_, List.mem_singleton_self _, (summary_state h).1.symm, (summary_state h).2.symm⟩
      · cases h
      · obtain ⟨⟨m', completed⟩, hticks, hsummary⟩ := Check.bind_eq_ok.1 h
        obtain ⟨hfinal, hledger⟩ := summary_state hsummary
        rcases runTicks_last hticks with ⟨hstate, hmeter⟩ | ⟨f, hf, hstate, hlast⟩
        · exact ⟨_, List.mem_cons_self, (hfinal.trans hstate).symm, (hledger.trans (congrArg Meter.ledger hmeter)).symm⟩
        · exact ⟨f, List.mem_cons_of_mem _ hf, hstate.trans hfinal.symm, hlast.trans hledger.symm⟩

theorem run_final {result : RunResult} (h : (run w assignment case).result = .ok result) :
    ∃ f ∈ (run w assignment case).frames, f.state = result.finalState := by
  obtain ⟨f, hf, hstate, -⟩ := run_last h
  exact ⟨f, hf, hstate⟩

end

/-- A state of a run of the world, at any point of a tick. -/
def World.Reaches (w : World) (s : State) : Prop := ∃ st, Reached w st s

structure RunsContained (w : World) : Prop where
  /-- What a run reports is among the states of the world. -/
  reported : ∀ assignment case, (∀ f ∈ (run w assignment case).frames, w.Reaches f.state) ∧
    ∀ result, (run w assignment case).result = .ok result → w.Reaches result.finalState
  injective : ∀ s t, w.Reaches s → w.Reaches t → encodeState s = encodeState t → s = t
  /-- A hash is of one state, or two inputs of the hash function collide. -/
  hashed : ∀ sha256 s t, w.Reaches s → w.Reaches t → StateHash.of sha256 (encodeState s) = StateHash.of sha256 (encodeState t) →
    s = t ∨ digestInput stateDomain (encodeState s) ≠ digestInput stateDomain (encodeState t) ∧
      sha256 (digestInput stateDomain (encodeState s)) = sha256 (digestInput stateDomain (encodeState t))
  counted : ∀ s, w.Reaches s → s.Counted
  bounded : ∀ s, w.Reaches s → (encodeState s).length ≤ maxStateBytes
  /-- The run that panics where a vector would outgrow its capacity is the run itself, which does not panic. -/
  reserved : ∀ assignment case, Reserved.run w assignment case = run w assignment case ∧ (run w assignment case).result ≠ .error .panic

theorem World.Reaches.contained {w : World} {s : State} (h : w.Reaches s) : s.Contained := h.choose_spec.contained

theorem run_contained (w : World) : RunsContained w := by
  have hframes : ∀ assignment case, ∀ f ∈ (run w assignment case).frames, w.Reaches f.state := by
    intro assignment case f hf
    obtain ⟨before, after, hsplit⟩ := List.append_of_mem hf
    obtain ⟨st, ⟨notes, hp, -⟩, -⟩ := ((run_sound w assignment case).frames before f after hsplit).traced
    exact ⟨st, notes, hp⟩
  refine ⟨fun assignment case => ⟨hframes assignment case, fun result hresult => ?_⟩, fun s t hs ht he => ?_, fun sha256 s t hs ht he => ?_,
    fun s hs => hs.contained.counted, fun s hs => hs.contained.length_le, run_reserved w⟩
  · obtain ⟨f, hf, hfinal⟩ := run_final hresult
    exact hfinal ▸ hframes assignment case f hf
  · exact unambiguous_state.eq hs.contained.counted ht.contained.counted he
  · exact StateHash.of_injective sha256 hs.contained.counted ht.contained.counted he

end Valhalla.Witness
