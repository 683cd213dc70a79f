import Valhalla.Witness.Ticks

/-!
# Every run is a run of changes

What an observer sees of a run: each reported frame is reached from the initial state by changes whose
signal events are the ones reported so far, a complete frame after whole ticks, within the fuel bound.
A run returns unless the assignment is for other cells or an event names a target the world lacks.
-/

namespace Valhalla.Witness
open Fallible FixedWidth

def framesLog (frames : List Frame) : List Entry := frames.flatMap fun f => f.signals.map (Prod.mk f.tick)

theorem framesLog_concat (frames : List Frame) (f : Frame) :
    framesLog (frames ++ [f]) = framesLog frames ++ f.signals.map (Prod.mk f.tick) := by
  simp [framesLog]

/-- The state is reached from the initial one, with these signal events recorded on the way. -/
def Traced (w : World) (log : List Entry) (st : Stage) (s : State) : Prop :=
  ∃ notes, Changes w (.idle, State.initial w) notes (st, s) ∧ logged notes = log

structure Frame.Sound (w : World) (case : Case) (before : List Frame) (f : Frame) : Prop where
  traced : ∃ st, Traced w (framesLog (before ++ [f])) st f.state ∧ (f.complete = true → st = .idle)
  tick : f.state.tick = f.tick
  ledger : f.ledger.units ≤ case.fuel.toNat
  activations : ∀ record ∈ f.activations, record.Bounded case

def Run.Always (r : Run) (P : List Frame → Frame → Prop) : Prop :=
  ∀ before f after, r.frames = before ++ f :: after → P before f

/-! ### Facts about the inputs -/

theorem Case.bounds (case : Case) :
    case.ticks ≤ maxTicks ∧ case.fuel ≤ maxFuel ∧ case.events.length ≤ maxEvents := by
  obtain ⟨w, h⟩ := case.valid
  simp only [CaseSpec.check, Check.bind_eq_ok, Check.require_eq_ok, Bool.and_eq_true, decide_eq_true_eq] at h
  obtain ⟨-, ⟨⟨⟨⟨-, hticks⟩, hfuel⟩, -⟩, -⟩, -, -, -, hevents, -⟩ := h
  exact ⟨hticks, hfuel, hevents⟩

theorem foldl_saturatingAdd {α : Type} (l : List α) (n : UInt32) (h : n.toNat + l.length < 2 ^ 32) :
    (l.foldl (fun count _ => saturatingAdd count 1) n).toNat = n.toNat + l.length := by
  induction l generalizing n with
  | nil => rfl
  | cons a l ih =>
    have hadd : (saturatingAdd n 1).toNat = min (n.toNat + (1 : UInt32).toNat) (256 ^ bytes UInt32 - 1) :=
      toNat_saturatingAdd (a := n) (b := 1)
    rw [List.length_cons] at h
    have hadd : (saturatingAdd n 1).toNat = n.toNat + 1 := by
      rw [hadd]
      simp
      omega
    rw [List.foldl_cons, ih _ (by omega), hadd, List.length_cons]
    omega

theorem World.initialSparks_eq (w : World) :
    w.initialSparks.toNat = w.sparks.card ∧ w.sparks.card ≤ maxInitialSparks := by
  obtain ⟨ids, hids⟩ := w.checked.sparks
  have hlen := (sparks_of_scan hids).2
  have hflat : w.initialSparks = w.spec.initialSparkList.foldl (fun count _ => saturatingAdd count 1) 0 := by
    simp only [World.initialSparks, World.sources, WorldSpec.initialSparkList, List.foldl_flatMap]
  refine ⟨?_, by simpa [World.sparks] using hlen⟩
  rw [hflat, foldl_saturatingAdd]
  · simp [World.sparks]
  · simp only [maxInitialSparks] at hlen
    simp
    omega

/-! ### The tick loop -/

/-- An event names a target the world lacks. -/
def Case.Missing (case : Case) (w : World) : Prop := ∃ event ∈ case.events, event.event.exists w = false

section
variable {w : World} {assignment : Assignment} {case : Case}

/-- A machine between two ticks of a run that reported the frames `done`. -/
structure Between (w : World) (case : Case) (done : List Frame) (m : Machine) : Prop where
  sane : m.Sane w
  traced : Traced w (framesLog done) .idle m.state
  fuel : m.meter.fuel = case.fuel
  cellCount : m.cellCount.toNat = w.cells.length
  beaconCount : m.beaconCount.toNat = w.beacons.length
  initialSparks : m.initialSparks = w.initialSparks

/-- The ticks from `n + 1` on, within the tick limit. -/
def Consecutive : Nat → List UInt32 → Prop
  | _, [] => True
  | n, t :: rest => t.toNat = n + 1 ∧ t ≤ maxTicks ∧ Consecutive (n + 1) rest

theorem consecutive_range' (n k : Nat) (h : n + k ≤ 128) :
    Consecutive n ((List.range' n k).map fun j => UInt32.ofNat (j + 1)) := by
  induction k generalizing n with
  | zero => trivial
  | succ k ih =>
    have ht : (UInt32.ofNat (n + 1)).toNat = n + 1 := UInt32.toNat_ofNat_of_lt' (by simp [UInt32.size]; omega)
    rw [List.range'_succ, List.map_cons]
    exact ⟨ht, UInt32.le_iff_toNat_le.2 (ht ▸ (by simp [maxTicks]; omega)), ih (n + 1) (by omega)⟩

theorem consecutive_tickList (case : Case) : Consecutive 0 case.tickList := by
  have h : case.ticks.toNat ≤ 128 := case.bounds.1
  rw [Case.tickList, List.range_eq_range']
  exact consecutive_range' 0 case.ticks.toNat (by omega)

namespace Between
variable {done : List Frame} {m : Machine}

theorem endChecking (h : Between w case done m) : ∃ work, endChecking m = some work := by
  have h₁ : w.cells.length ≤ 16 := w.checked.cellCount
  have h₂ : w.beacons.length ≤ 8 := w.checked.beaconCount
  have h₃ : w.initialSparks.toNat ≤ 128 := w.initialSparks_eq.1 ▸ w.initialSparks_eq.2
  have hc := h.cellCount
  have hb := h.beaconCount
  obtain ⟨sum, hsum⟩ := checkedAdd_isSome (a := m.cellCount) (b := m.beaconCount) (by simp; omega)
  have hsum' := checkedAdd_eq_some.1 hsum
  simp at hsum'
  obtain ⟨work, hwork⟩ := checkedAdd_isSome (a := sum) (b := m.initialSparks.toUInt64)
    (by rw [h.initialSparks]; simp; omega)
  exact ⟨work, by simp [Witness.endChecking, hsum, hwork]⟩

theorem prepare {t : UInt32} (h : Between w case done m) (ht : t.toNat = m.state.tick.toNat + 1) (hle : t ≤ maxTicks) :
    (m.prepare case t).Sane w ∧ Traced w (framesLog done) .expiring (m.prepare case t).state := by
  obtain ⟨notes, hpath, hlog⟩ := h.traced
  have hbegin : Change w (.idle, m.state) [] (.expiring, { m.state with tick := t }) :=
    .begin (checkedAdd_eq_some.2 (by simpa using ht))
  have hready := h.sane.ready
  refine ⟨⟨⟨hready.good.changes (p := (.idle, m.state)) (.single hbegin) hle, hready.sound, hready.fuel, hready.next⟩,
    h.sane.closed, h.sane.scratch⟩, notes ++ [], hpath.tail hbegin, ?_⟩
  simpa using hlog

theorem mem_order {t : UInt32} (h : Between w case done m) {id : UInt16} (hid : id ∈ (m.prepare case t).order) :
    id ∈ w.cells.map (·.id) := by
  rw [← h.sane.ready.good.shape.cells]
  exact (List.perm_insertionSort _ _).mem_iff.1 hid

theorem frame {t : UInt32} {m' : Machine} {st : Stage} (complete : Bool) (h : Between w case done m)
    (ht : t.toNat = m.state.tick.toNat + 1) (hle : t ≤ maxTicks) (hg : Goes w case .expiring (m.prepare case t) st m')
    (hst : complete = true → st = .idle) :
    (m'.frame t complete).Sound w case done ∧ Traced w (framesLog (done ++ [m'.frame t complete])) st m'.state := by
  obtain ⟨hsane, notes, hpath, hlog⟩ := h.prepare ht hle
  obtain ⟨notes', new, hpath', hsignals, hlog'⟩ := hg.moves.path
  obtain ⟨more, hactivations, hbounded⟩ := hg.activations
  have htrace : Traced w (framesLog (done ++ [m'.frame t complete])) st m'.state := by
    refine ⟨notes ++ notes', hpath.trans hpath', ?_⟩
    have hsignals : m'.signals = [] ++ new := hsignals
    rw [logged_append, hlog, hlog', framesLog_concat]
    simp only [Machine.frame, hsignals, List.nil_append]
    rfl
  refine ⟨⟨⟨st, htrace, hst⟩, hg.moves.tick, ?_, ?_⟩, htrace⟩
  · refine Nat.le_trans hg.moves.meter.sound.fuel (Nat.le_of_eq ?_)
    rw [hg.moves.meter.fuel]
    exact congrArg UInt64.toNat h.fuel
  · have hactivations : m'.activations = [] ++ more := hactivations
    intro record hr
    exact hbounded record (by simpa [Machine.frame, hactivations] using hr)

theorem next {t : UInt32} {m' : Machine} (h : Between w case done m) (ht : t.toNat = m.state.tick.toNat + 1) (hle : t ≤ maxTicks)
    (hg : Goes w case .expiring (m.prepare case t) .idle m') : Between w case (done ++ [m'.frame t true]) m' where
  sane := hg.sane (h.prepare ht hle).1
  traced := (h.frame true ht hle hg fun _ => rfl).2
  fuel := hg.moves.meter.fuel.trans h.fuel
  cellCount := hg.cellCount ▸ h.cellCount
  beaconCount := hg.beaconCount ▸ h.beaconCount
  initialSparks := hg.initialSparks.trans h.initialSparks

end Between

/-- The frames of a list are sound after the frames `done`. -/
def SoundAfter (w : World) (case : Case) (done frames : List Frame) : Prop :=
  ∀ before f after, frames = before ++ f :: after → f.Sound w case (done ++ before)

theorem SoundAfter.cons {done frames : List Frame} {f : Frame} (h : f.Sound w case done)
    (hf : SoundAfter w case (done ++ [f]) frames) : SoundAfter w case done (f :: frames) := by
  refine List.forall_split_cons (by simpa using h) fun before f' after hs => ?_
  simpa using hf before f' after hs

/-- The tick loop: sound frames, and a machine between two ticks unless an event had no target. -/
theorem runTicks_spec (hp : assignment.programs.length = w.cells.length) {ticks : List UInt32} (completed : UInt32)
    {m : Machine} {done : List Frame} (h : Between w case done m) (ht : Consecutive m.state.tick.toNat ticks)
    (hc : completed = m.state.tick) :
    SoundAfter w case done (runTicks w assignment case ticks completed m).1 ∧
    match (runTicks w assignment case ticks completed m).2 with
    | .ok (m', _) => Good w m'.state ∧ m'.initialSparks = w.initialSparks
    | .error e => e = .invariant ∧ case.Missing w := by
  induction ticks generalizing m completed done with
  | nil => exact ⟨List.forall_split_nil, h.sane.ready.good, h.initialSparks⟩
  | cons t rest ih =>
    obtain ⟨htick, hle, hrest⟩ := ht
    obtain ⟨hsane, -⟩ := h.prepare htick hle
    have hspec := tick_goes assignment case hsane hp (fun _ => h.mem_order) h.endChecking
    rw [show (m.prepare case t).state.tick = t from rfl] at hspec
    unfold runTicks
    unfold wp at hspec
    generalize exec (tick w assignment case t) (m.prepare case t) = r at hspec
    match r, hspec with
    | (.error (.internal error), m'), hspec =>
      obtain ⟨⟨_, he⟩, -⟩ | ⟨he, hmissing⟩ := hspec
      · cases he
      · cases he; exact ⟨List.forall_split_nil, rfl, hmissing⟩
    | (.error (.action error), m'), hspec =>
      obtain ⟨⟨_, he⟩, -⟩ | ⟨he, -⟩ := hspec <;> cases he
    | (.error (.stop reason), m'), hspec =>
      obtain ⟨-, st, hg⟩ | ⟨he, -⟩ := hspec
      · have hframe := Between.frame false h htick hle hg (by simp)
        exact ⟨.cons hframe.1 List.forall_split_nil, (hg.sane hsane).ready.good,
          hg.initialSparks.trans h.initialSparks⟩
      · cases he
    | (.ok (), m'), hspec =>
      have hg : Goes w case .expiring (m.prepare case t) .idle m' := hspec
      have hframe := Between.frame true h htick hle hg fun _ => rfl
      have ht' : m'.state.tick = t := hg.moves.tick
      have hcompleted : checkedAdd completed 1 = some t := checkedAdd_eq_some.2 (by simpa [hc] using htick)
      obtain ⟨hframes, hresult⟩ := ih t (h.next htick hle hg) (by rw [ht', htick]; exact hrest) ht'.symm
      simp only [hcompleted]
      exact ⟨.cons hframe.1 hframes, hresult⟩

/-! ### The result -/

theorem sumLengths_ok (lengths : List Nat) (h : lengths.sum < 2 ^ 64) :
    ∃ sum, Machine.sumLengths lengths = .ok sum ∧ sum.toNat = lengths.sum := by
  suffices H : ∀ (lengths : List Nat) (n : UInt64), n.toNat + lengths.sum < 2 ^ 64 →
      ∃ sum, lengths.foldlM (fun sum len => do
        let len ← count len
        Check.okOr RunError.arithmetic (checkedAdd sum len)) n = .ok sum ∧ sum.toNat = n.toNat + lengths.sum by
    simpa [Machine.sumLengths] using H lengths 0 (by simpa using h)
  intro lengths
  induction lengths with
  | nil => exact fun n _ => ⟨n, rfl, rfl⟩
  | cons len lengths ih =>
    intro n hn
    rw [List.sum_cons] at hn
    have hlen : (UInt64.ofNat len).toNat = len := UInt64.toNat_ofNat_of_lt' (by simp only [UInt64.size]; omega)
    have hcount : count len = .ok (UInt64.ofNat len) := if_pos (by omega)
    obtain ⟨next, hnext⟩ := checkedAdd_isSome (a := n) (b := UInt64.ofNat len) (by simp; omega)
    have hnext' : next.toNat = n.toNat + (UInt64.ofNat len).toNat := checkedAdd_eq_some.1 hnext
    obtain ⟨sum, hsum, hsum'⟩ := ih next (by omega)
    refine ⟨sum, ?_, by rw [hsum', hnext', hlen, List.sum_cons]; omega⟩
    rw [List.foldlM_cons, hcount]
    simp only [bind, Except.bind, hnext, Check.okOr]
    exact hsum

theorem card_storedSparks (stores : List SparkStore) :
    (storedSparks stores).card = (stores.map (·.sparks.length)).sum := by
  induction stores with
  | nil => rfl
  | cons store stores ih => simpa [storedSparks] using ih

theorem card_carriedSparks (cells : List CellState) : (carriedSparks cells).card = cells.countP (·.cargo.isSome) := by
  induction cells with
  | nil => rfl
  | cons cell cells ih =>
    rw [List.countP_cons, ← ih]
    cases hc : cell.cargo <;> simp [carriedSparks, hc, Nat.add_comm]

theorem outcome_ok {m : Machine} (hg : Good w m.state) (hi : m.initialSparks = w.initialSparks) :
    ∃ outcome, m.outcome w = .ok outcome ∧ outcome.conserved = true := by
  obtain ⟨hinitial, hbound⟩ := w.initialSparks_eq
  have hcard : (m.state.sources.map (·.sparks.length) ++ m.state.depots.map (·.sparks.length) ++
      [m.state.cells.countP (·.cargo.isSome)] ++ [m.state.delivered.length]).sum = w.sparks.card := by
    rw [← hg.conserved]
    simp [State.sparks, card_storedSparks, card_carriedSparks, deliveredSparks, Nat.add_assoc]
  obtain ⟨present, hpresent, hpresent'⟩ := sumLengths_ok (m.state.sources.map (·.sparks.length) ++
      m.state.depots.map (·.sparks.length) ++ [m.state.cells.countP (·.cargo.isSome)] ++
      [m.state.delivered.length]) (by rw [hcard]; simp only [maxInitialSparks] at hbound; omega)
  refine ⟨_, by simp only [Machine.outcome, hpresent]; rfl, ?_⟩
  simp only [beq_iff_eq]
  refine UInt64.toNat_inj.1 ?_
  rw [hpresent', hcard, hi, UInt32.toNat_toUInt64, hinitial]

theorem summary_ok (m : Machine) (case : Case) (hg : Good w m.state) (hi : m.initialSparks = w.initialSparks) (completed : UInt32) :
    ∃ result, summary w case m completed = .ok result ∧ result.outcome.conserved = true := by
  obtain ⟨outcome, houtcome, hconserved⟩ := outcome_ok hg hi
  exact ⟨_, by simp only [summary, houtcome]; rfl, hconserved⟩

/-! ### Whole runs -/

theorem initialChecking_ok {m : Machine} (case : Case) (hi : m.initialSparks = w.initialSparks) :
    ∃ work, m.initialChecking w case = .ok work := by
  have hw := w.checked
  have h₀ : w.initialSparks.toNat ≤ 128 := w.initialSparks_eq.1 ▸ w.initialSparks_eq.2
  have h₁ : w.walls.length ≤ 512 := hw.wallCount
  have h₂ : w.cells.length ≤ 16 := hw.cellCount
  have h₃ : w.sources.length ≤ 8 := hw.sourceCount
  have h₄ : w.depots.length ≤ 8 := hw.depotCount
  have h₅ : w.beacons.length ≤ 8 := hw.beaconCount
  have h₆ : w.valves.length ≤ 8 := hw.valveCount
  have h₇ : w.links.length ≤ 32 := hw.linkCount
  have h₈ : case.events.length ≤ 64 := case.bounds.2.2
  have hsum : [w.walls.length, w.cells.length, w.sources.length, w.depots.length, w.beacons.length,
      w.valves.length, w.links.length, case.events.length].sum ≤ 656 := by
    simp only [List.sum_cons, List.sum_nil]
    omega
  obtain ⟨entities, hentities, hentities'⟩ := sumLengths_ok _ (Nat.lt_of_le_of_lt hsum (by decide))
  obtain ⟨work, hwork⟩ := checkedAdd_isSome (a := entities) (b := m.initialSparks.toUInt64)
    (by rw [hi]; simp only [toNat_uInt64, UInt32.toNat_toUInt64, bytes_uInt64]; omega)
  exact ⟨work, by simp only [Machine.initialChecking, hentities, bind, Except.bind, hwork, Check.okOr]⟩

theorem load_spec {work : UInt64} {meter : Meter} (h : meter.Sound) : wp (load case work) (Post
    (fun _ meter' => meter.After meter') fun e meter' => (∃ reason, e = .stop reason) ∧ meter.After meter') meter := by
  refine (wp_bind _).2 ((Meter.wp_charge h).post (fun _ m₁ h₁ => ?_) fun _ _ he => ⟨he.2, he.1⟩)
  exact (Meter.wp_charge h₁.1.sound).post (fun _ m₂ h₂ => h₁.1.trans h₂.1) fun _ _ he => ⟨he.2, h₁.1.trans he.1⟩

theorem new_eq (case : Case) (hcells : assignment.cells = w.cells.map (·.id)) : ∃ m, Machine.new w assignment case = .ok m ∧
    m.state = State.initial w ∧ m.scratch = (State.allocated w).copyFrom (State.initial w) ∧
    m.meter = .new case.fuel ∧ m.signals = [] ∧ m.initialSparks = w.initialSparks ∧
    m.cellCount.toNat = w.cells.length ∧ m.beaconCount.toNat = w.beacons.length := by
  have hw := w.checked
  have h₁ : w.cells.length ≤ 16 := hw.cellCount
  have h₂ : w.beacons.length ≤ 8 := hw.beaconCount
  have hc : count w.cells.length = .ok (UInt64.ofNat w.cells.length) := if_pos (by omega)
  have hb : count w.beacons.length = .ok (UInt64.ofNat w.beacons.length) := if_pos (by omega)
  have hcheck : Check.require RunError.assignmentMismatch (assignment.cells == w.cells.map (·.id)) = .ok () := by
    rw [hcells, Check.require_eq_ok, beq_iff_eq]
  refine ⟨_, by simp only [Machine.new, hcheck, hc, hb]; rfl, rfl, rfl, rfl, rfl, rfl, ?_, ?_⟩
  all_goals exact UInt64.toNat_ofNat_of_lt' (by simp only [UInt64.size]; omega)

theorem between_of_new {m : Machine} {meter : Meter} (hstate : m.state = State.initial w)
    (hscratch : m.scratch = (State.allocated w).copyFrom (State.initial w))
    (hsparks : m.initialSparks = w.initialSparks) (hcells : m.cellCount.toNat = w.cells.length)
    (hbeacons : m.beaconCount.toNat = w.beacons.length) (hmeter : Meter.After (.new case.fuel) meter)
    (status : RunStatus) (complete : Bool) :
    Between w case [{ m with meter, status }.loadingFrame complete] { m with meter, status } := by
  have hgood := Good.initial w
  have hallocated : (State.allocated w).Fits w := ⟨by simp [State.allocated], by simp [State.allocated]⟩
  refine ⟨⟨⟨?_, hmeter.sound, ?_, ?_⟩, hmeter.activation, ?_⟩, ?_, hmeter.fuel, hcells, hbeacons, hsparks⟩
  · exact hstate ▸ hgood
  · exact hmeter.fuel ▸ case.bounds.2.1
  · show m.state.nextSignal.toNat ≤ meter.units + 1
    rw [hstate]
    exact Nat.le_add_left ..
  · show m.scratch.Fits w
    rw [hscratch, State.copyFrom_eq hallocated hgood.fits]
    exact hgood.fits
  · refine ⟨[], ?_, by simp [framesLog, Machine.loadingFrame]⟩
    show Changes w _ [] (.idle, m.state)
    rw [hstate]
    exact .refl _

theorem loadingFrame_sound {m : Machine} {meter : Meter} {status : RunStatus} {complete : Bool}
    (hb : Between w case [{ m with meter, status }.loadingFrame complete] { m with meter, status })
    (ht : m.state.tick = 0) : ({ m with meter, status }.loadingFrame complete).Sound w case [] :=
  ⟨⟨.idle, hb.traced, fun _ => rfl⟩, ht, Nat.le_trans hb.sane.ready.sound.fuel
    (Nat.le_of_eq (congrArg UInt64.toNat hb.fuel)), by simp [Machine.loadingFrame]⟩

end

structure Run.Sound (w : World) (assignment : Assignment) (case : Case) (r : Run) : Prop where
  frames : r.Always fun before f => f.Sound w case before
  conserved : ∀ result, r.result = .ok result → result.outcome.conserved = true
  error : ∀ e, r.result = .error e → assignment.cells ≠ w.cells.map (·.id) ∨ case.Missing w

theorem Run.Sound.of_result {w : World} {assignment : Assignment} {case : Case} {r : Run}
    (hframes : SoundAfter w case [] r.frames)
    (hresult : (∃ result, r.result = .ok result ∧ result.outcome.conserved = true) ∨
      (∃ e, r.result = .error e) ∧ (assignment.cells ≠ w.cells.map (·.id) ∨ case.Missing w)) :
    r.Sound w assignment case := by
  refine ⟨fun before f after hs => by simpa using hframes before f after hs, fun result hr => ?_, fun e he => ?_⟩
  · obtain ⟨result', hr', hconserved⟩ | ⟨⟨e, he⟩, -⟩ := hresult
    · exact Except.ok.inj (hr'.symm.trans hr) ▸ hconserved
    · cases he.symm.trans hr
  · obtain ⟨result, hr, -⟩ | ⟨-, hinputs⟩ := hresult
    · cases hr.symm.trans he
    · exact hinputs

theorem machine_run_sound {w : World} {assignment : Assignment} {case : Case} {m : Machine}
    (hp : assignment.programs.length = w.cells.length) (hstate : m.state = State.initial w)
    (hsparks : m.initialSparks = w.initialSparks) (hmeter : m.meter = .new case.fuel)
    (hb : ∀ meter status complete, Meter.After (.new case.fuel) meter →
      Between w case [{ m with meter, status }.loadingFrame complete] { m with meter, status }) :
    (m.run w assignment case).Sound w assignment case := by
  obtain ⟨work, hwork⟩ := initialChecking_ok case hsparks
  have htick : m.state.tick = 0 := by rw [hstate]; rfl
  have hload : wp (load case work) _ m.meter := load_spec (hmeter ▸ ⟨Nat.zero_le _, fun _ _ he => by cases he⟩)
  simp only [Machine.run, hwork]
  unfold wp at hload
  generalize exec (load case work) m.meter = r at hload
  match r, hload with
  | (.error .arithmetic, meter), hload => obtain ⟨⟨_, he⟩, -⟩ := hload; cases he
  | (.error (.stop reason), meter), hload =>
    have hb := hb meter .fuelExhausted false (hmeter ▸ hload.2)
    have hsummary := summary_ok { m with meter, status := .fuelExhausted } case hb.sane.ready.good hb.initialSparks 0
    exact .of_result (.cons (loadingFrame_sound hb htick) List.forall_split_nil) (.inl hsummary)
  | (.ok (), meter), hload =>
    have hb := hb meter .complete true (hmeter ▸ hload)
    have hticks := runTicks_spec hp 0 hb
      (by rw [show (Machine.state { m with meter, status := .complete }).tick = 0 from htick]
          exact consecutive_tickList case) htick.symm
    obtain ⟨hframes, hrest⟩ := hticks
    refine .of_result (.cons (loadingFrame_sound hb htick) hframes) ?_
    simp only
    generalize (runTicks w assignment case case.tickList 0 { m with meter, status := .complete }).2 = r at hrest
    match r, hrest with
    | .ok (m', completed), ⟨hgood, hinitial⟩ => exact .inl (summary_ok m' case hgood hinitial completed)
    | .error e, ⟨he, hmissing⟩ => exact .inr ⟨⟨e, rfl⟩, .inr hmissing⟩

theorem run_sound (w : World) (assignment : Assignment) (case : Case) :
    (run w assignment case).Sound w assignment case := by
  by_cases hcells : assignment.cells = w.cells.map (·.id)
  · obtain ⟨m, hm, hstate, hscratch, hmeter, hsignals, hsparks, hc, hb⟩ := new_eq case hcells
    have hp : assignment.programs.length = w.cells.length := by
      rw [assignment.paired, hcells, List.length_map]
    rw [run, hm]
    exact machine_run_sound hp hstate hsparks hmeter fun meter status complete hafter =>
      between_of_new hstate hscratch hsparks hc hb hafter status complete
  · have hrun : run w assignment case = ⟨[], .error .assignmentMismatch⟩ := by
      simp [run, Machine.new, Check.require, hcells, bind, Except.bind]
    rw [hrun]
    exact .of_result List.forall_split_nil (.inr ⟨⟨_, rfl⟩, .inl hcells⟩)

end Valhalla.Witness
