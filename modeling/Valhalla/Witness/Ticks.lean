import Valhalla.Witness.Actions
import Valhalla.Witness.Phases

/-!
# A tick is a run of changes

The machine around the tick loop: an activation works on the scratch state and is committed or dropped
as a whole, and the phases follow one another through the stages. `tick_goes` is the result: from a
machine in which nothing can go wrong, a tick completes or is stopped, and only an event whose target is
missing in the world can end the run otherwise.
-/

namespace Valhalla.Witness
open Fallible FixedWidth

structure State.Fits (s : State) (w : World) : Prop where
  sources : s.sources.length = w.sources.length
  depots : s.depots.length = w.depots.length

theorem Good.fits {w : World} {s : State} (h : Good w s) : s.Fits w := ⟨h.shape.length_sources, h.shape.length_depots⟩

namespace State

theorem copyStores_eq {entries stores : List SparkStore} (h : entries.length = stores.length) :
    copyStores entries stores = stores := by
  induction entries generalizing stores with
  | nil =>
    obtain rfl := List.eq_nil_of_length_eq_zero h.symm
    rfl
  | cons entry entries ih =>
    cases stores with
    | nil => cases h
    | cons store stores => rw [copyStores, ih (by simpa using h)]

theorem copyFrom_eq {w : World} {s t : State} (hs : s.Fits w) (ht : t.Fits w) : s.copyFrom t = t := by
  unfold copyFrom
  rw [copyStores_eq (hs.sources.trans ht.sources.symm), copyStores_eq (hs.depots.trans ht.depots.symm)]

end State

structure Activation.Bounded (case : Case) (record : Activation) : Prop where
  start : record.workBefore ≤ record.workAfter
  limit : record.workAfter.toNat ≤ record.workBefore.toNat + case.activationFuel.toNat

/-- What a machine did between two points of a tick. -/
structure Goes (w : World) (case : Case) (st : Stage) (m : Machine) (st' : Stage) (m' : Machine) : Prop where
  moves : Moves w st m.ctx st' m'.ctx
  scratch : m'.scratch.Fits w
  cellCount : m'.cellCount = m.cellCount
  beaconCount : m'.beaconCount = m.beaconCount
  initialSparks : m'.initialSparks = m.initialSparks
  order : m'.order = m.order
  activations : ∃ more, m'.activations = m.activations ++ more ∧ ∀ record ∈ more, record.Bounded case

/-- A machine between two activations, in which nothing can go wrong. -/
structure Machine.Sane (w : World) (m : Machine) : Prop where
  ready : Ready w m.ctx
  closed : m.meter.activation = none
  scratch : m.scratch.Fits w

namespace Goes
variable {w : World} {case : Case} {st st' st'' : Stage} {m m' m'' : Machine}

theorem refl (h : m.Sane w) : Goes w case st m st m :=
  ⟨.refl h.ready.sound, h.scratch, rfl, rfl, rfl, rfl, [], by simp, by simp⟩

theorem trans (h : Goes w case st m st' m') (h' : Goes w case st' m' st'' m'') : Goes w case st m st'' m'' := by
  obtain ⟨more, hm, hb⟩ := h.activations
  obtain ⟨more', hm', hb'⟩ := h'.activations
  refine ⟨h.moves.trans h'.moves, h'.scratch, h'.cellCount.trans h.cellCount, h'.beaconCount.trans h.beaconCount,
    h'.initialSparks.trans h.initialSparks, h'.order.trans h.order, more ++ more', ?_, ?_⟩
  · rw [hm', hm, List.append_assoc]
  · exact fun record hr => (List.mem_append.1 hr).elim (hb record) (hb' record)

theorem sane (h : Goes w case st m st' m') (hs : m.Sane w) : m'.Sane w :=
  ⟨h.moves.ready hs.ready, h.moves.meter.activation.trans hs.closed, h.scratch⟩

theorem live {c : Ctx} (h : Moves w st m.ctx st' c) (hs : m.Sane w) : Goes w case st m st' (m.setCtx c) :=
  ⟨h, hs.scratch, rfl, rfl, rfl, rfl, [], by simp [Machine.setCtx], by simp⟩

theorem stage (h : Goes w case st m st' m') (hc : Change w (st', m'.state) [] (st'', m'.state)) :
    Goes w case st m st'' m' :=
  { h with moves := h.moves.change (s := m'.state) hc rfl rfl rfl }

end Goes

section
variable {w : World} {case : Case} {assignment : Assignment} {m m₀ : Machine} {i : Nat}

/-! ### Activations -/

/-- What an activation has done before it is committed or dropped. -/
structure Attempted (w : World) (case : Case) (m : Machine) (record : Activation)
    (r : Except Fault Unit × Activation) (m' : Machine) : Prop where
  same : m' = { m with meter := m'.meter, signals := m'.signals, scratch := m'.scratch }
  moves : Moves w .acting m.ctx .acting ⟨m'.meter, m'.signals, m'.scratch⟩
  work : m'.meter.units ≤ m.meter.units + case.activationFuel.toNat
  workBefore : r.2.workBefore = record.workBefore
  settled : ∀ e, r.1 = .error e → e.settled .acting = true

theorem runActivation_workBefore (program : Program) (s : State) (record : Activation) (c : Ctx) :
    (runActivation w program s i record c).1.2.workBefore = record.workBefore := by
  unfold runActivation
  generalize exec (choose w program s i) c = r
  rcases r with ⟨e | selected, c₁⟩ <;> rfl

theorem attemptActivation_spec {program : Program} {record : Activation} (hs : m.Sane w) (hi : i < w.cells.length) :
    wp (attemptActivation w case program i record) (Post (Attempted w case m record) fun _ _ => False) m := by
  obtain ⟨t, htu, -, hbegin, hwindow⟩ := Meter.beginActivation_of_sound hs.ready.sound case.activationFuel
  have hgood := hs.ready.good
  have hcopy : m.scratch.copyFrom m.state = m.state := State.copyFrom_eq hs.scratch hgood.fits
  have hstart : Ready w ⟨{ m.meter with activation := some (t, case.activationFuel) }, m.signals, m.state⟩ :=
    ⟨hgood, hwindow, hs.ready.fuel, hs.ready.next⟩
  have hrun := runActivation_acts program record hstart hi
  have hbefore := runActivation_workBefore (w := w) (i := i) program m.state record
    ⟨{ m.meter with activation := some (t, case.activationFuel) }, m.signals, m.state⟩
  have hbegin : m.meter.beginActivation case.activationFuel =
      some { m.meter with activation := some (t, case.activationFuel) } := hbegin
  simp only [attemptActivation, wp_bind, wp_view, Post_ok, hbegin, okOr_some, wp_pure]
  simp only [wp, exec_of, hcopy, Post_ok]
  generalize runActivation w program m.state i record
    ⟨{ m.meter with activation := some (t, case.activationFuel) }, m.signals, m.state⟩ = r at hrun hbefore
  obtain ⟨⟨result, record'⟩, c⟩ := r
  have hmoves : Moves w .acting ⟨{ m.meter with activation := some (t, case.activationFuel) }, m.signals, m.state⟩
      .acting c := by
    cases result with
    | ok u => exact hrun
    | error e => exact hrun.2
  have hsettled : ∀ e, result = .error e → e.settled .acting = true := by
    rintro e rfl
    exact hrun.1
  have hlimit := (hmoves.meter.sound.window t case.activationFuel hmoves.meter.activation).2
  refine ⟨rfl, ⟨hmoves.path, hmoves.tick, hmoves.meter.endActivation hs.closed, hmoves.next⟩, ?_, hbefore, hsettled⟩
  exact Nat.le_trans hlimit (Nat.le_of_eq (congrArg (· + _) htu))

theorem wp_commit {cell : CellState} {Q : Except Fault Point → Machine → Prop} (hcell : m.scratch.cells[i]? = some cell)
    (h : Q (.ok cell.position) { m with state := m.scratch, scratch := m.state }) : wp (commit i) Q m := by
  simpa only [commit, wp_bind, wp_view, Post_ok, hcell, okOr_some, wp_pure, wp_update] using h

theorem conclude_spec {m' : Machine} (record : Activation) {record' : Activation} {result : Except Fault Unit}
    (hs : m.Sane w) (hi : i < w.cells.length) (ha : Attempted w case m record (result, record) m') :
    wp (conclude i m.signals.length record' result) (Post (fun r m'' => Goes w case .acting m .acting m'' ∧
      m''.activations = m.activations ∧ r.1.workBefore = record'.workBefore ∧ r.1.workAfter = record'.workAfter)
      fun _ _ => False) m' := by
  obtain ⟨meter, signals, scratch, rfl⟩ : ∃ meter signals scratch, m' = { m with meter, signals, scratch } :=
    ⟨_, _, _, ha.same⟩
  have hmoves : Moves w .acting m.ctx .acting ⟨meter, signals, scratch⟩ := ha.moves
  have hgood := (hmoves.ready hs.ready).good
  obtain ⟨cell, hcell⟩ := hgood.shape.cell_at hi
  have committed : Goes w case .acting m .acting { m with meter, signals, state := scratch, scratch := m.state } :=
    ⟨hmoves, hs.ready.good.fits, rfl, rfl, rfl, rfl, [], by simp, by simp⟩
  match result, ha.settled with
  | .ok (), _ =>
    simp only [conclude, wp_bind]
    exact wp_commit hcell ⟨committed, rfl, rfl, rfl⟩
  | .error (.action error), _ =>
    simp only [conclude, wp_bind]
    exact wp_commit hcell ⟨committed, rfl, rfl, rfl⟩
  | .error (.stop stop), _ =>
    simp only [conclude, wp_bind, wp_update, Post_ok, wp_pure]
    obtain ⟨-, new, -, hsignals, -⟩ := hmoves.path
    have htake : signals.take m.signals.length = m.signals := by
      have hsignals : signals = m.signals ++ new := hsignals
      rw [hsignals, List.take_left]
    refine ⟨⟨⟨⟨[], [], .refl _, ?_, rfl⟩, rfl, hmoves.meter, Nat.add_le_add_left hmoves.meter.units _⟩, hgood.fits,
      rfl, rfl, rfl, rfl, [], by simp, by simp⟩, trivial, trivial, trivial⟩
    simpa [Machine.ctx] using htake
  | .error (.internal error), hsettled => cases hsettled _ rfl

theorem activate_goes {program : Program} (hs : m.Sane w) (hi : i < w.cells.length) :
    wp (activate w case program i) (Post (fun r m' => Goes w case .acting m .acting m' ∧
      m'.activations = m.activations ∧ r.1.Bounded case) fun _ _ => False) m := by
  obtain ⟨cell, hcell⟩ := hs.ready.good.shape.cell_at hi
  obtain ⟨t, htotal, htu⟩ := Meter.total_of_sound hs.ready.sound
  have hcell : m.state.cells[i]? = some cell := hcell
  have htotal : m.meter.total = some t := htotal
  simp only [activate, wp_bind, wp_view, Post_ok, hcell, htotal, okOr_some, wp_pure]
  refine (attemptActivation_spec hs hi).post (fun r m' ha => ?_) fun _ _ he => he
  obtain ⟨t', htotal', htu'⟩ := Meter.total_of_sound ha.moves.meter.sound
  have htotal' : m'.meter.total = some t' := htotal'
  simp only [Post_ok, htotal', okOr_some, wp_pure]
  refine (conclude_spec r.2 hs hi ⟨ha.same, ha.moves, ha.work, rfl, ha.settled⟩).post
    (fun r' m'' h => ⟨h.1, h.2.1, ?_, ?_⟩) fun _ _ he => he
  · rw [h.2.2.1, h.2.2.2, ha.workBefore]
    refine UInt64.le_iff_toNat_le.2 ?_
    rw [htu, htu']
    exact ha.moves.meter.units
  · rw [h.2.2.1, h.2.2.2, ha.workBefore, htu, htu']
    exact ha.work

theorem turnOf_goes {id : UInt16} (hs : m.Sane w) (hid : id ∈ w.cells.map (·.id))
    (hp : assignment.programs.length = w.cells.length) :
    wp (turnOf w assignment case id) (Post (fun _ m' => Goes w case .acting m .acting m') fun e m' =>
      (∃ reason, e = .stop reason) ∧ Goes w case .acting m .acting m') m := by
  have hshape := hs.ready.good.shape
  obtain ⟨i, hi⟩ : ∃ i, m.state.cells.findIdx? (·.id == id) = some i := List.exists_findIdx? (hshape.cells ▸ hid)
  have hlt : i < w.cells.length := by
    rw [← hshape.length_cells]
    exact List.findIdx?_lt hi
  obtain ⟨program, hprogram⟩ := List.exists_getElem? (hp ▸ hlt)
  simp only [turnOf, wp_bind, wp_view, Post_ok, hi, hprogram, okOr_some, wp_pure]
  refine (activate_goes hs hlt).post (fun r m' h => ?_) fun _ _ he => he.elim
  obtain ⟨record, limit⟩ := r
  obtain ⟨hgoes, hactivations, hbounded⟩ := h
  have hrecorded : Goes w case .acting m .acting { m' with activations := m'.activations ++ [record] } :=
    { hgoes with
      activations := ⟨[record], by rw [hactivations], fun record' hr => by rwa [List.mem_singleton.1 hr]⟩ }
  simp only [wp_update, Post_ok]
  cases limit with
  | none => exact hrecorded
  | some stop =>
    cases stop with
    | fuel => exact ⟨⟨_, rfl⟩, hrecorded⟩
    | activation => exact { hrecorded with }

/-! ### The tick -/

/-- How a tick that does not complete ends: it is stopped, or an event names a target the world lacks. -/
def Halts (w : World) (case : Case) (m₀ : Machine) (e : Fault) (m : Machine) : Prop :=
  ((∃ reason, e = .stop reason) ∧ ∃ st, Goes w case .expiring m₀ st m) ∨
    (e = .internal .invariant ∧ ∃ event ∈ case.events, event.event.exists w = false)

theorem live_goes {st st' : Stage} {α : Type} {f : VmM α} (hg : Goes w case .expiring m₀ st m) (hs : m.Sane w)
    (h : wp f (Post (fun _ c => Moves w st m.ctx st' c) fun e c =>
      (∃ reason, e = .stop reason) ∧ ∃ st'', Moves w st m.ctx st'' c) m.ctx) :
    wp (live f) (Post (fun _ m' => Goes w case .expiring m₀ st' m') (Halts w case m₀)) m := by
  refine (wp_zoom ..).2 (wp.mono h fun r c hr => ?_)
  cases r with
  | ok a => exact hg.trans (.live hr hs)
  | error e => exact .inl ⟨hr.1, _, hg.trans (.live hr.2.choose_spec hs)⟩

/-- Outside the acting stage only stops are left. -/
theorem stop_of_settled {st : Stage} {e : Fault} (h : e.settled st = true) (hst : st ≠ .acting) :
    ∃ reason, e = .stop reason := by
  cases e with
  | stop reason => exact ⟨reason, rfl⟩
  | action error => exact absurd (beq_iff_eq.1 h) hst
  | internal error => cases h

theorem Within.stops {st st' : Stage} {α : Type} {f : VmM α} {I : α → Ctx → Prop} {c : Ctx}
    (h : Within w st c f st' I c) (hst : st ≠ .acting) :
    wp f (Post (fun _ c' => Moves w st c st' c') fun e c' =>
      (∃ reason, e = .stop reason) ∧ ∃ st'', Moves w st c st'' c') c :=
  h.post (fun _ _ hI => hI.1) fun _ _ he => ⟨stop_of_settled he.1 hst, _, he.2⟩

theorem charge_stops {st : Stage} {category : Category} {amount : UInt64} {c : Ctx} (h : c.meter.Sound) :
    wp (VmM.charge category amount) (Post (fun _ c' => Moves w st c st c') fun e c' =>
      (∃ reason, e = .stop reason) ∧ ∃ st', Moves w st c st' c') c :=
  VmM.wp_charge h (fun _ hafter _ => (Moves.refl h).charged hafter) fun _ reason hafter =>
    ⟨⟨reason, rfl⟩, st, (Moves.refl h).charged hafter⟩

theorem applyEvents_goes {t : UInt32} (h₀ : m₀.Sane w) (hg : Goes w case .expiring m₀ .scheduled m) :
    wp (applyEvents case t) (Post (fun _ m' => Goes w case .expiring m₀ .scheduled m') (Halts w case m₀)) m := by
  refine wp_forM (I := fun _ m' => Goes w case .expiring m₀ .scheduled m') (fun done event rest hl m₁ hg₁ => ?_) hg
  have hs₁ := hg₁.sane h₀
  have happly : wp (live (applyEvent event.event)) (Post (fun _ m' => Goes w case .expiring m₀ .scheduled m')
      (Halts w case m₀)) m₁ := by
    cases he : event.event.exists w with
    | true => exact live_goes hg₁ hs₁ ((applyEvent_within hs₁.ready he).stops (by simp))
    | false =>
      refine (wp_zoom ..).2 (wp.mono (applyEvent_missing hs₁.ready he) fun r c hr => ?_)
      match r, hr with
      | .error e, .inl hmissing =>
        have hmem : event ∈ case.events.filter (·.tick == t) := hl ▸ by simp
        exact .inr ⟨hmissing, event, List.mem_of_mem_filter hmem, he⟩
      | .error e, .inr hstop =>
        exact .inl ⟨stop_of_settled hstop.1 (by simp), _, hg₁.trans (.live hstop.2 hs₁)⟩
  refine (wp_bind _).2 (happly.post (fun _ m₂ hg₂ => ?_) fun _ _ he => he)
  exact { hg₂ with }

theorem tick_goes (assignment : Assignment) (case : Case) (hs : m.Sane w)
    (hp : assignment.programs.length = w.cells.length)
    (horder : ∀ id ∈ m.order, id ∈ w.cells.map (·.id)) (hchecking : ∃ work, endChecking m = some work) :
    wp (tick w assignment case m.state.tick) (Post (fun _ m' => Goes w case .expiring m .idle m') (Halts w case m)) m := by
  unfold tick
  refine (wp_bind _).2 ((live_goes (.refl hs) hs (charge_stops hs.ready.sound)).post (fun _ m₁ h₁ => ?_) fun _ _ he => he)
  have hs₁ := h₁.sane hs
  refine (wp_bind _).2 ((live_goes h₁ hs₁ ((expireInboxes_within hs₁.ready).stops (by simp))).post (fun _ m₂ h₂ => ?_)
    fun _ _ he => he)
  refine (wp_bind _).2 ((applyEvents_goes hs h₂).post (fun _ m₃ h₃ => ?_) fun _ _ he => he)
  have h₃ := h₃.stage .schedule
  have hs₃ := h₃.sane hs
  have hdeliver := deliverDue_within hs₃.ready
  rw [show m₃.ctx.state.tick = m.state.tick from h₃.moves.tick] at hdeliver
  refine (wp_bind _).2 ((live_goes h₃ hs₃ (hdeliver.stops (by simp))).post (fun _ m₄ h₄ => ?_) fun _ _ he => he)
  rw [wp_bind, wp_view, Post_ok, h₄.order]
  have hturns : wp (forM m.order (turnOf w assignment case))
      (Post (fun _ m' => Goes w case .expiring m .acting m') (Halts w case m)) m₄ := by
    refine wp_forM (I := fun _ m' => Goes w case .expiring m .acting m') (fun done id rest hl m₅ h₅ => ?_) h₄
    have hid := horder id (hl ▸ by simp)
    exact (turnOf_goes (h₅.sane hs) hid hp).post (fun _ m₆ h₆ => h₅.trans h₆) fun e m₆ he =>
      .inl ⟨he.1, _, h₅.trans he.2⟩
  refine (wp_bind _).2 (hturns.post (fun _ m₅ h₅ => ?_) fun _ _ he => he)
  have h₅ := h₅.stage .acted
  have hs₅ := h₅.sane hs
  have hdrain := drainBeacons_moves hs₅.ready
  rw [show m₅.ctx.state.tick = m.state.tick from h₅.moves.tick] at hdrain
  refine (wp_bind _).2 ((live_goes h₅ hs₅ hdrain).post (fun _ m₆ h₆ => ?_) fun _ _ he => he)
  obtain ⟨work, hwork⟩ := hchecking
  have hwork : endChecking m₆ = some work := by
    rw [← hwork, endChecking, endChecking, h₆.cellCount, h₆.beaconCount, h₆.initialSparks]
  rw [wp_bind, wp_view, Post_ok, hwork, okOr_some, pure_bind]
  exact live_goes h₆ (h₆.sane hs) (charge_stops (h₆.sane hs).ready.sound)

end

end Valhalla.Witness
