import Valhalla.Witness.Fuel

/-!
# Running again with more fuel

The machine under a larger fuel bound does the same, tick after tick, unless it runs out of fuel. So a
run that ends otherwise is repeated exactly, frames and result.
-/

namespace Valhalla.Witness
open Fallible FixedWidth

/-! ### The phases of a tick -/

section
variable {w : World}

theorem expirePort_fueled (i : Nat) (port : Fin ports) : Fueled (expirePort i port) := by
  refine .bind .getState fun _ => .bind (.okOr _ _) fun cell => ?_
  split
  · exact .pure _
  · exact .bind (.charge _ _) fun _ => .bind (.record _) fun _ => .setState _

theorem expireInboxes_fueled : Fueled expireInboxes :=
  .bind .getState fun _ => ⟨fun fuel => .forM (fun i => .forM (fun port => (expirePort_fueled i port).sim fuel) _) _⟩

theorem applyEvent_fueled (event : EventKind) : Fueled (applyEvent event) := by
  cases event with
  | linkEnabled | valveEnabled =>
    exact .bind (.charge _ _) fun _ => .bind (.charge _ _) fun _ => .bind .getState fun _ => .bind (.okOr _ _) fun _ =>
      .setState _
  | clearMemory =>
    exact .bind (.charge _ _) fun _ => .bind (.charge _ _) fun _ => .bind .getState fun _ => .bind (.okOr _ _) fun _ =>
      .setState _

theorem receive_fueled (recipient : Nat) (signal : Signal) (outcome : SignalOutcome) :
    Fueled (receive recipient signal outcome) := by
  unfold receive
  split
  · exact .setState _
  · exact .pure _

theorem deliverAt_fueled (k : Nat) (signal : Signal) : Fueled (deliverAt w k signal) :=
  .bind (.charge _ _) fun _ => .bind (.charge _ _) fun _ => .bind (.setState _) fun _ => .bind .getState fun _ =>
    .bind (.okOr _ _) fun _ => .bind (.okOr _ _) fun _ => .bind (.okOr _ _) fun _ => .bind (.okOr _ _) fun _ =>
    .bind (receive_fueled ..) fun _ => .record _

theorem deliverFrom_fueled (tick : UInt32) (k : Nat) (signals : List Signal) :
    Fueled (deliverFrom w tick k signals) := by
  induction signals generalizing k with
  | nil => exact .pure _
  | cons signal remaining ih =>
    unfold deliverFrom
    split
    · exact ih (k + 1)
    · exact .bind (deliverAt_fueled k signal) fun _ => ih k

theorem deliverDue_fueled (tick : UInt32) : Fueled (deliverDue w tick) :=
  .bind .getState fun _ => deliverFrom_fueled ..

theorem drainBeacon_fueled (tick : UInt32) (entry : Beacon × Nat) : Fueled (drainBeacon tick entry) := by
  refine .bind (.charge _ _) fun _ => .bind (.okOr _ _) fun phase => ?_
  split
  · exact .bind (.charge _ _) fun _ => .bind .getState fun _ => .bind (.okOr _ _) fun _ => .bind (.okOr _ _) fun _ =>
      .bind (.okOr _ _) fun _ => .setState _
  · exact .pure _

theorem drainBeacons_fueled (tick : UInt32) : Fueled (drainBeacons w tick) :=
  ⟨fun fuel => .forM (fun entry => (drainBeacon_fueled tick entry).sim fuel) _⟩

end

/-! ### The machine -/

/-- The same machine under a larger fuel bound. -/
structure Machine.Raised (fuel : UInt64) (m m' : Machine) : Prop where
  eq : m' = { m with meter := m'.meter }
  meter : m.meter.Raised fuel m'.meter

namespace Machine.Raised
variable {fuel : UInt64} {m m' : Machine}

theorem view {α : Type} (h : m.Raised fuel m') (f : Machine → α)
    (hf : ∀ (m : Machine) (meter : Meter), f { m with meter } = f m) : f m' = f m := by
  rw [h.eq]
  exact hf m m'.meter

theorem update (h : m.Raised fuel m') (f : Machine → Machine)
    (hf : ∀ (m : Machine) (meter : Meter), f { m with meter } = { f m with meter })
    (hmeter : ∀ m : Machine, (f m).meter = m.meter) : (f m).Raised fuel (f m') := by
  refine ⟨?_, by rw [hmeter, hmeter]; exact h.meter⟩
  rw [hmeter, ← hf, ← h.eq]

theorem total (h : m.Raised fuel m') : m'.meter.total = m.meter.total := by
  rw [h.meter.eq]
  rfl

theorem ledger (h : m.Raised fuel m') : m'.meter.ledger = m.meter.ledger := by rw [h.meter.eq]

theorem state (h : m.Raised fuel m') : m'.state = m.state := h.view Machine.state fun _ _ => rfl

theorem scratch (h : m.Raised fuel m') : m'.scratch = m.scratch := h.view Machine.scratch fun _ _ => rfl

theorem signals (h : m.Raised fuel m') : m'.signals = m.signals := h.view Machine.signals fun _ _ => rfl

theorem events (h : m.Raised fuel m') : m'.events = m.events := h.view Machine.events fun _ _ => rfl

theorem activations (h : m.Raised fuel m') : m'.activations = m.activations := h.view Machine.activations fun _ _ => rfl

theorem order (h : m.Raised fuel m') : m'.order = m.order := h.view Machine.order fun _ _ => rfl

theorem status (h : m.Raised fuel m') : m'.status = m.status := h.view Machine.status fun _ _ => rfl

theorem initialSparks (h : m.Raised fuel m') : m'.initialSparks = m.initialSparks :=
  h.view Machine.initialSparks fun _ _ => rfl

theorem frame (h : m.Raised fuel m') (t : UInt32) (complete : Bool) : m'.frame t complete = m.frame t complete := by
  simp only [Machine.frame, h.ledger, h.events, h.signals, h.activations,
    h.state]

theorem loadingFrame (h : m.Raised fuel m') (complete : Bool) : m'.loadingFrame complete = m.loadingFrame complete := by
  simp only [Machine.loadingFrame, h.ledger, h.state]

theorem ctx (h : m.Raised fuel m') : m.ctx.Raised fuel m'.ctx := ⟨h.meter, h.signals, h.state⟩

theorem setCtx {c c' : Ctx} (h : m.Raised fuel m') (hc : c.Raised fuel c') :
    (m.setCtx c).Raised fuel (m'.setCtx c') := by
  refine ⟨?_, hc.meter⟩
  rw [h.eq]
  simp only [Machine.setCtx, hc.signals, hc.state]

end Machine.Raised

section
variable {w : World} {assignment : Assignment} {case : Case} {fuel : UInt64} {i : Nat}

theorem Fueled.live {α : Type} {m : VmM α} (h : Fueled m) :
    Sim (Machine.Raised fuel) (Fails Fault.Fatal) (live m) (live m) :=
  (h.sim fuel).zoom (fun _ _ hs => hs.ctx) fun _ _ _ _ hs hc => hs.setCtx hc

def FatalWork : Except Fault (Except Fault Unit × Activation) → Prop
  | .ok (result, _) => Fails Fault.Fatal result
  | .error e => e.Fatal

def FatalTurn : Except Fault (Activation × Option Stop) → Prop
  | .ok (_, limit) => limit = some .fuel
  | .error e => e.Fatal

theorem runActivation_fueled (program : Program) (s : State) (record : Activation) {c c' : Ctx} (h : c.Raised fuel c') :
    Fails Fault.Fatal (runActivation w program s i record c).1.1 ∨
      (runActivation w program s i record c').1 = (runActivation w program s i record c).1 ∧
      (runActivation w program s i record c).2.Raised fuel (runActivation w program s i record c').2 := by
  unfold runActivation
  obtain hfatal | ⟨hresult, hraised⟩ := (choose_fueled program s).sim fuel c c' h
  · revert hfatal
    rcases exec (choose w program s i) c with ⟨e | selected, c₁⟩
    · exact fun hfatal => .inl hfatal
    · exact False.elim
  · revert hresult hraised
    rcases exec (choose w program s i) c with ⟨e | selected, c₁⟩ <;>
      rcases exec (choose w program s i) c' with ⟨e' | selected', c₁'⟩ <;> rintro ⟨⟩ hraised
    · exact .inr ⟨rfl, hraised⟩
    · obtain hfatal | ⟨hresult, hraised⟩ := (perform_fueled (w := w) (i := i)
        ((selected.map (·.2.action)).getD .wait) (selected.bind (·.2.remember))).sim fuel c₁ c₁' hraised
      · exact .inl hfatal
      · exact .inr ⟨Prod.ext hresult rfl, hraised⟩

theorem attemptActivation_fueled (program : Program) (record : Activation) :
    Sim (Machine.Raised fuel) FatalWork (attemptActivation w case program i record)
      (attemptActivation w case program i record) := by
  intro m m' h
  have hmeter := h.meter.eq
  have hle := h.meter.le
  obtain ⟨t, -, ht, hbegin, hwindow⟩ := Meter.beginActivation_of_sound h.meter.sound case.activationFuel
  have hbegin' : m'.meter.beginActivation case.activationFuel =
      some { m'.meter with activation := some (t, case.activationFuel) } := by
    rw [Meter.beginActivation, h.total, ht]
    rfl
  have hctx : Ctx.Raised fuel
      ⟨{ m.meter with activation := some (t, case.activationFuel) }, m.signals, m.scratch.copyFrom m.state⟩
      ⟨{ m'.meter with activation := some (t, case.activationFuel) }, m'.signals, m'.scratch.copyFrom m'.state⟩ :=
    ⟨⟨by rw [hmeter], hle, hwindow⟩, h.signals,
      h.view (fun m => m.scratch.copyFrom m.state) fun _ _ => rfl⟩
  simp only [attemptActivation, exec_bind, exec_view, hbegin, hbegin', okOr_some, exec_pure, exec_of, h.state] at hctx ⊢
  obtain hfatal | ⟨hresult, hraised⟩ := runActivation_fueled (w := w) (i := i) program m.state record hctx
  · exact .inl hfatal
  · revert hresult hraised
    generalize runActivation w program m.state i record _ = r
    generalize runActivation w program m.state i record _ = r'
    intro hresult hraised
    refine .inr ⟨congrArg Except.ok hresult, ?_, ?_, hraised.meter.le, hraised.meter.sound.fuel,
      fun _ _ he => by cases he⟩
    · rw [h.eq]
      simp only [hraised.signals, hraised.state]
    · exact congrArg Meter.endActivation hraised.meter.eq

theorem commit_fueled : Sim (Machine.Raised fuel) (fun _ => False) (commit i) (commit i) :=
  .view_bind (fun _ _ h => h.scratch) fun _ => .okOr_bind fun _ =>
    .update_bind (fun _ _ h => h.update (fun m => { m with state := m.scratch, scratch := m.state }) (fun _ _ => rfl)
    fun _ => rfl) fun _ => .pure _

theorem conclude_fueled (mark : Nat) (record : Activation) (result : Except Fault Unit) :
    Sim (Machine.Raised fuel) FatalTurn (conclude i mark record result) (conclude i mark record result) := by
  match result with
  | .error (.internal error) => exact .throw _
  | .error (.stop stop) =>
    exact .update_bind (fun _ _ h => h.update (fun m => { m with signals := m.signals.take mark })
      (fun _ _ => rfl) fun _ => rfl) fun _ => .pure _
  | .ok () => exact commit_fueled.bind (fun _ h => h.elim) fun _ => .pure _
  | .error (.action error) => exact commit_fueled.bind (fun _ h => h.elim) fun _ => .pure _

theorem fatal_conclude {mark : Nat} {record : Activation} {result : Except Fault Unit} {m : Machine}
    (h : Fails Fault.Fatal result) : FatalTurn (exec (conclude i mark record result) m).1 := by
  match result, h with
  | .error (.internal error), _ => exact trivial
  | .error (.stop .fuel), _ => exact rfl

theorem activate_fueled (program : Program) :
    Sim (Machine.Raised fuel) FatalTurn (activate w case program i) (activate w case program i) := by
  refine .view_bind (fun _ _ h => h.state) fun _ => .okOr_bind fun _ =>
    .view_bind (fun _ _ h => h.total) fun _ => .okOr_bind fun _ => .view_bind (fun _ _ h => h.signals)
    fun _ => (attemptActivation_fueled program _).bind (fun m h => ?_) fun _ => .view_bind (fun _ _ h => h.total) fun _ =>
    .okOr_bind fun _ => conclude_fueled _ _ _
  revert h
  rw [exec_bind]
  rcases exec (attemptActivation w case program i _) m with ⟨e | ⟨result, record⟩, m₁⟩ <;> intro h
  · exact h
  · simp only [exec_bind, exec_view]
    cases m₁.meter.total with
    | none => exact trivial
    | some workAfter => exact fatal_conclude h

theorem turnOf_fueled (id : UInt16) :
    Sim (Machine.Raised fuel) (Fails Fault.Fatal) (turnOf w assignment case id) (turnOf w assignment case id) := by
  refine .view_bind (fun _ _ h => h.state) fun _ => .okOr_bind fun _ => .okOr_bind fun program =>
    (activate_fueled program).bind (fun m h => ?_) fun (record, limit) =>
    .update_bind (fun _ _ h => h.update (fun m => { m with activations := m.activations ++ [record] })
      (fun _ _ => rfl) fun _ => rfl) fun _ => ?_
  · revert h
    rw [exec_bind]
    rcases exec (activate w case program _) m with ⟨e | ⟨record, limit⟩, m₁⟩ <;> intro h
    · exact h
    · obtain rfl : limit = some .fuel := h
      exact trivial
  · match limit with
    | none => exact .pure _
    | some .fuel => exact .throw _
    | some .activation =>
      exact .update fun _ _ h => h.update (fun m => { m with status := .activationLimit }) (fun _ _ => rfl) fun _ => rfl

theorem applyEvents_fueled (tick : UInt32) :
    Sim (Machine.Raised fuel) (Fails Fault.Fatal) (applyEvents case tick) (applyEvents case tick) :=
  .forM (fun event : Event => (applyEvent_fueled event.event).live.andThen fun _ =>
    .update fun _ _ h => h.update (fun m => { m with events := m.events ++ [event.event] }) (fun _ _ => rfl)
      fun _ => rfl) _

theorem tick_fueled (w : World) (assignment : Assignment) (case : Case) (t : UInt32) :
    Sim (Machine.Raised fuel) (Fails Fault.Fatal) (tick w assignment case t) (tick w assignment case t) :=
  (Fueled.charge _ _).live.andThen fun _ => expireInboxes_fueled.live.andThen fun _ =>
    (applyEvents_fueled t).andThen fun _ => (deliverDue_fueled t).live.andThen fun _ =>
    .view_bind (fun _ _ h => h.order) fun _ => (Sim.forM turnOf_fueled _).andThen fun _ =>
    (drainBeacons_fueled t).live.andThen fun _ => .view_bind (fun _ _ h => h.view endChecking fun _ _ => rfl) fun _ =>
    .okOr_bind fun _ => (Fueled.charge _ _).live

end

/-! ### Whole runs -/

section
variable {w : World} {assignment : Assignment} {case case' : Case} {m m' : Machine}

/-- The same case with at least as much fuel. -/
structure Case.Raised (case case' : Case) : Prop where
  spec : case'.spec = { case.spec with fuel := case'.fuel }
  le : case.fuel ≤ case'.fuel

namespace Case.Raised

theorem prepare (h : case.Raised case') (hm : m.Raised case'.fuel m') (t : UInt32) :
    (m.prepare case t).Raised case'.fuel (m'.prepare case' t) := by
  have hseed : case'.seed = case.seed := by rw [seed, h.spec]; rfl
  have hprepare : m'.prepare case' t = m'.prepare case t := by simp only [Machine.prepare, hseed]
  rw [hprepare]
  exact hm.update (·.prepare case t) (fun _ _ => rfl) fun _ => rfl

theorem tick (h : case.Raised case') : Witness.tick w assignment case' = Witness.tick w assignment case := by
  have hactivation : case'.activationFuel = case.activationFuel := by rw [activationFuel, h.spec]; rfl
  have hevents : case'.events = case.events := by rw [events, h.spec]; rfl
  have hturn : turnOf w assignment case' = turnOf w assignment case := by
    funext id
    simp only [turnOf, activate, attemptActivation, hactivation]
  funext t
  simp only [Witness.tick, applyEvents, hturn, hevents]

end Case.Raised

theorem runTicks_fueled (hc : case.Raised case') {ticks : List UInt32} {n k : UInt32} {frames : List Frame}
    {last : Machine} (hm : m.Raised case'.fuel m')
    (hr : runTicks w assignment case ticks n m = (frames, .ok (last, k))) (hs : last.status ≠ .fuelExhausted) :
    ∃ last', runTicks w assignment case' ticks n m' = (frames, .ok (last', k)) ∧ last.Raised case'.fuel last' := by
  induction ticks generalizing n m m' frames with
  | nil => cases hr; exact ⟨m', rfl, hm⟩
  | cons t rest ih =>
    have htick := tick_fueled w assignment case t _ _ (hc.prepare hm t)
    rw [runTicks] at hr ⊢
    rw [hc.tick]
    generalize exec (tick w assignment case t) (m.prepare case t) = r at hr htick
    generalize exec (tick w assignment case t) (m'.prepare case' t) = r' at htick
    match r, r', hr, htick with
    | (.ok (), m₁), (.ok (), m₁'), hr, .inr ⟨_, hm₁⟩ =>
      have hframe : m₁'.frame t true = m₁.frame t true := hm₁.frame t true
      simp only at hr ⊢
      cases hn : checkedAdd n 1 with
      | none => rw [hn] at hr; cases hr
      | some n' =>
        rw [hn] at hr
        simp only at hr ⊢
        generalize hrest : runTicks w assignment case rest n' m₁ = restRun at hr
        obtain ⟨frames', result⟩ := restRun
        cases hr
        obtain ⟨last', hlast, hraised⟩ := ih hm₁ hrest
        exact ⟨last', by simp only [hlast, hframe], hraised⟩
    | (.error (.stop reason), m₁), _, hr, _ => cases hr; exact absurd rfl hs
    | (.error (.internal e), m₁), _, hr, _ => cases hr
    | (.error (.action e), m₁), _, hr, _ => cases hr

theorem summary_fueled (hc : case.Raised case') (hm : m.Raised case'.fuel m') (completed : UInt32) :
    summary w case' m' completed = summary w case m completed := by
  have hticks : case'.ticks = case.ticks := by rw [Case.ticks, hc.spec]; rfl
  have houtcome : Machine.outcome w m' = Machine.outcome w m := hm.view (Machine.outcome w) fun _ _ => rfl
  simp only [summary, hticks, houtcome, hm.status, hm.initialSparks, hm.state, hm.ledger]

theorem summary_status {completed : UInt32} {result : RunResult} (h : summary w case m completed = .ok result) :
    result.status = m.status := by
  simp only [summary, Check.bind_eq_ok] at h
  obtain ⟨outcome, -, h⟩ := h
  cases h
  rfl

theorem load_fueled (hc : case.Raised case') (work fuel : UInt64) :
    Sim (Meter.Raised fuel) (Fails MeterError.Fatal) (load case work) (load case' work) := by
  have hload : case'.loadingWork = case.loadingWork := by rw [Case.loadingWork, hc.spec]; rfl
  simp only [load, hload]
  exact (Meter.charge_fueled _ _ fuel).andThen fun _ => Meter.charge_fueled _ _ fuel

theorem machine_run_fueled (hc : case.Raised case') (hm : m.Raised case'.fuel m') {result : RunResult}
    (hr : (m.run w assignment case).result = .ok result) (hs : result.status ≠ .fuelExhausted) :
    m'.run w assignment case' = m.run w assignment case := by
  have hchecking : m'.initialChecking w case' = m.initialChecking w case := by
    have hevents : case'.events = case.events := by rw [Case.events, hc.spec]; rfl
    simp only [Machine.initialChecking, hevents, hm.initialSparks]
  have htickList : case'.tickList = case.tickList := by simp only [Case.tickList, Case.ticks, hc.spec]
  unfold Machine.run at hr ⊢
  rw [hchecking]
  cases hwork : m.initialChecking w case with
  | error e => rfl
  | ok work =>
    rw [hwork] at hr
    have hload := load_fueled hc work case'.fuel m.meter m'.meter hm.meter
    simp only at hr ⊢
    generalize exec (load case work) m.meter = r at hr hload
    generalize exec (load case' work) m'.meter = r' at hload
    rcases r with ⟨(reason | _) | u, meter⟩
    · exact absurd (summary_status hr) hs
    · cases hr
    · obtain hfails | ⟨hresult, hmeter⟩ := hload
      · cases hfails
      obtain ⟨_, meter'⟩ := r'
      cases hresult
      have hm' : Machine.Raised case'.fuel { m with meter, status := .complete }
          { m' with meter := meter', status := .complete } := ⟨by rw [hm.eq], hmeter⟩
      simp only at hr ⊢
      generalize hticks : runTicks w assignment case case.tickList 0 { m with meter, status := .complete } = ticks at hr
      obtain ⟨frames, _ | ⟨last, k⟩⟩ := ticks
      · cases hr
      · have hlast : summary w case last k = .ok result := hr
        obtain ⟨last', hticks', hraised⟩ := runTicks_fueled hc hm' hticks fun he => hs ((summary_status hlast).trans he)
        rw [htickList, hticks', hm'.loadingFrame]
        exact congrArg _ (summary_fueled hc hraised k)

theorem new_fueled (hc : case.Raised case') (h : Machine.new w assignment case = .ok m) :
    ∃ m', Machine.new w assignment case' = .ok m' ∧ m.Raised case'.fuel m' := by
  simp only [Machine.new, Check.bind_eq_ok] at h
  obtain ⟨u, hcheck, cellCount, hcells, beaconCount, hbeacons, h⟩ := h
  cases h
  exact ⟨_, by simp only [Machine.new, hcheck, hcells, hbeacons]; rfl, rfl, rfl, hc.le, Nat.zero_le _,
    fun _ _ he => by cases he⟩

theorem run_fueled (hc : case.Raised case') {result : RunResult}
    (hr : (run w assignment case).result = .ok result) (hs : result.status ≠ .fuelExhausted) :
    run w assignment case' = run w assignment case := by
  unfold run at hr ⊢
  cases hm : Machine.new w assignment case with
  | error e => rw [hm] at hr; cases hr
  | ok m =>
    rw [hm] at hr
    obtain ⟨m', hm', hraised⟩ := new_fueled hc hm
    rw [hm']
    exact machine_run_fueled hc hraised hr hs

end

/-- The work stays within the fuel and every activation within its limit; a run that fuel does not stop is
the same run under any larger admitted fuel. -/
theorem run_within_fuel (w : World) (assignment : Assignment) (case : Case) :
    (run w assignment case).Always (fun _ f =>
      (∃ total, f.ledger.total = some total ∧ total ≤ case.fuel) ∧ ∀ record ∈ f.activations, record.Bounded case) ∧
    ∀ (case' : Case) (result : RunResult), case.Raised case' → (run w assignment case).result = .ok result →
      result.status ≠ .fuelExhausted → run w assignment case' = run w assignment case := by
  refine ⟨fun before f after hs => ?_, fun case' result hc hr hs => run_fueled hc hr hs⟩
  obtain ⟨-, -, hledger, hactivations⟩ := (run_sound w assignment case).frames before f after hs
  obtain ⟨total, htotal⟩ := f.ledger.total_isSome (Nat.lt_of_le_of_lt hledger case.fuel.toNat_lt)
  have hunits := Ledger.total_eq_some.1 htotal
  exact ⟨⟨total, htotal, UInt64.le_iff_toNat_le.2 (hunits ▸ hledger)⟩, hactivations⟩

theorem tiny_run_within_fuel :
    run tinyWorld tinyAssignment ⟨tinyCase 3000, tinyWorld, by decide +kernel⟩ =
      run tinyWorld tinyAssignment ⟨tinyCase 2000, tinyWorld, tinyCase_valid⟩ := by
  have hstatus : (run tinyWorld tinyAssignment ⟨tinyCase 2000, tinyWorld, tinyCase_valid⟩).result.map (·.status) =
      .ok .complete := by decide +kernel
  cases hr : (run tinyWorld tinyAssignment ⟨tinyCase 2000, tinyWorld, tinyCase_valid⟩).result with
  | error e => rw [hr] at hstatus; cases hstatus
  | ok result =>
    rw [hr] at hstatus
    refine (run_within_fuel tinyWorld tinyAssignment _).2 _ result ⟨rfl, by decide⟩ hr ?_
    rw [show result.status = .complete from Except.ok.inj hstatus]
    decide

end Valhalla.Witness
