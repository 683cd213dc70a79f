import Valhalla.Witness.Geometry
import Valhalla.Witness.Lifecycle
import Valhalla.Witness.Provenance
import Valhalla.Witness.Runs

/-!
# What every run guarantees

The invariants of single changes, carried over to the runs of the machine: sparks are conserved,
evidence is backed by deposits, signals live and end as they should, beacon accounts balance and cells
stay apart. A run on validated inputs returns.
-/

namespace Valhalla.Witness
open Fallible FixedWidth

def Run.Returns (r : Run) (P : RunResult → Prop) : Prop := ∀ result, r.result = .ok result → P result

/-- A property of every state on the way, given everything recorded so far: of the states between two
changes, and of the reported ones. -/
structure Run.Throughout (r : Run) (w : World) (P : List Note → Stage → State → Prop) : Prop where
  between : ∀ h st s, Changes w (.idle, State.initial w) h (st, s) → P h st s
  reported : r.Always fun before f => ∃ h st, Changes w (.idle, State.initial w) h (st, f.state) ∧
    logged h = framesLog (before ++ [f]) ∧ f.state.tick = f.tick ∧ (f.complete = true → st = .idle) ∧
    P h st f.state

section
variable (w : World) (assignment : Assignment) (case : Case)

theorem run_throughout {P : List Note → Stage → State → Prop}
    (h : ∀ h st s, Changes w (.idle, State.initial w) h (st, s) → P h st s) :
    (run w assignment case).Throughout w P := by
  refine ⟨h, fun before f after hs => ?_⟩
  obtain ⟨⟨st, ⟨notes, hpath, hlog⟩, hidle⟩, htick, -, -⟩ := (run_sound w assignment case).frames before f after hs
  exact ⟨notes, st, hpath, hlog, htick, hidle, h notes st f.state hpath⟩

/-! ### Sparks -/

/-- Every reported state has exactly the sparks of the world, and so every returned outcome says. -/
theorem run_conserves :
    (run w assignment case).Always (fun _ f => f.state.sparks = w.sparks) ∧
      (run w assignment case).Returns fun result => result.outcome.conserved = true := by
  refine ⟨fun before f after hs => ?_, (run_sound w assignment case).conserved⟩
  obtain ⟨⟨st, ⟨notes, hpath, -⟩, -⟩, -⟩ := (run_sound w assignment case).frames before f after hs
  exact (Conserved.initial w).changes hpath

/-! ### Evidence -/

structure Certified (w : World) (h : List Note) (s : State) (id : UInt32) (bit : Bool) : Prop where
  spark : ∃ spark ∈ w.spec.initialSparkList, spark.id = id ∧ spark.bit = bit ∧
    Note.deposited spark ∈ h ∧ spark ∈ s.received
  gone : ∀ other ∈ storedSparks s.sources + carriedSparks s.cells, other.id ≠ id

structure Evidence (w : World) (h : List Note) (s : State) : Prop where
  signals : ∀ signal, s.Holds signal → ∀ id, signal.receiptSpark = some id → Certified w h s id signal.bit
  memory : ∀ cell ∈ s.cells, ∀ (slot : Fin memorySlots) (id : UInt32), cell.evidenceAt slot = some id →
    ∃ bit : Bool, cell.byteAt slot = (if bit then 1 else 0) ∧ Certified w h s id bit

theorem Provenance.changes {w : World} {h : List Note} {st : Stage} {s : State}
    (hp : Changes w (.idle, State.initial w) h (st, s)) : Provenance h s :=
  hp.recorded (I := fun h p => Provenance h p.2) (.initial w) fun _ _ _ _ hs hc => hs.change hc

theorem Backed.certified {w : World} {h : List Note} {s : State} {id : UInt32} {bit : Bool} (hb : Backed h id bit)
    (hp : Provenance h s) (hc : Conserved w s) : Certified w h s id bit := by
  obtain ⟨spark, rfl, rfl, hdeposited⟩ := hb
  have hreceived := hp.received spark hdeposited
  obtain ⟨hinitial, hgone⟩ := hc.received hreceived
  exact ⟨⟨spark, hinitial, rfl, rfl, hdeposited, hreceived⟩, hgone⟩

theorem run_evidence : (run w assignment case).Throughout w fun h _ s => Evidence w h s := by
  refine run_throughout w assignment case fun h st s hpath => ?_
  have hp := Provenance.changes hpath
  have hc : Conserved w s := (Conserved.initial w).changes hpath
  refine ⟨fun signal hs id hid => (hp.signals signal hs id hid).certified hp hc, fun cell hcell slot id he => ?_⟩
  obtain ⟨bit, hbyte, hbacked⟩ := hp.memory slot _ id ⟨cell, hcell, rfl, he⟩
  exact ⟨bit, hbyte, hbacked.certified hp hc⟩

/-! ### Signals -/

/-- Between two ticks: what is queued is due later, and what is in an inbox came in this tick. -/
structure Settled (s : State) : Prop where
  later : ∀ signal ∈ s.pending, s.tick < signal.deliverTick
  received : ∀ signal ∈ inboxSignals s.cells, signal.deliverTick = s.tick

theorem Lifecycle.changes {w : World} {h : List Note} {st : Stage} {s : State}
    (hp : Changes w (.idle, State.initial w) h (st, s)) : Lifecycle (logged h) (st.phase, s.traffic) :=
  hp.recorded (I := fun h (p : Stage × State) => Lifecycle (logged h) (p.1.phase, p.2.traffic)) (.initial w)
    fun _ _ _ _ hs hc => hs.change hc

theorem run_lifecycle : (run w assignment case).Throughout w fun h st s =>
    History (logged h) s ∧ s.pending.Pairwise (·.id < ·.id) ∧ (st = .idle → Settled s) := by
  refine run_throughout w assignment case fun h st s hpath => ?_
  have hl := Lifecycle.changes hpath
  refine ⟨hl.history, hl.numbered.ordered, ?_⟩
  rintro rfl
  exact ⟨fun signal hs => (hl.timed.waiting signal hs).2, fun signal hs => (hl.timed.received signal hs).2.symm⟩

/-! ### Beacons and cells -/

theorem Shape.changes {w : World} {h : List Note} {st : Stage} {s : State}
    (hp : Changes w (.idle, State.initial w) h (st, s)) : Shape w s :=
  hp.preserves (I := fun p => Shape w p.2) (.initial w) fun _ _ _ hs hc => hs.change hc

theorem Placed.changes {w : World} {h : List Note} {st : Stage} {s : State}
    (hp : Changes w (.idle, State.initial w) h (st, s)) : Placed w s :=
  (hp.preserves (I := fun p => Shape w p.2 ∧ Placed w p.2) ⟨.initial w, .initial w⟩
    fun _ _ _ hs hc => ⟨hs.1.change hc, hs.2.change hs.1 hc⟩).2

theorem run_accounts : (run w assignment case).Throughout w fun h _ s =>
    Shape w s ∧ Accounts w h s ∧ Placed w s ∧ (s.cells.map (·.position)).Nodup := by
  refine run_throughout w assignment case fun h st s hpath => ?_
  have haccounts : Accounts w h s :=
    hpath.recorded (I := fun h p => Accounts w h p.2) (.initial w) fun _ _ _ _ hs hc => hs.change hc
  have hplaced := Placed.changes hpath
  exact ⟨.changes hpath, haccounts, hplaced, hplaced.nodup⟩

end

/-! ### Runs return -/

theorem Assignment.validate_cells {w : World} {programs : List (UInt16 × Program)} {assignment : Assignment}
    (h : Assignment.validate w programs = .ok assignment) : assignment.cells = w.cells.map (·.id) := by
  simp only [Assignment.validate, Check.bind_eq_ok] at h
  obtain ⟨-, -, ordered, hordered, h⟩ := h
  cases h
  have hids : List.Forall₂ (fun (cell : CellBody) (entry : Program × UInt16) => cell.id = entry.2) w.cells ordered := by
    refine (Check.mapM_eq_ok.1 hordered).imp fun cell entry he => ?_
    obtain ⟨program, -, he⟩ := Check.bind_eq_ok.1 he
    cases he
    rfl
  exact (List.forall₂_eq_eq_eq ▸ List.forall₂_map_left_iff.2 (List.forall₂_map_right_iff.2 hids) :).symm

theorem Case.new_spec {w : World} {spec : CaseSpec} {case : Case} (h : Case.new w spec = .ok case) :
    case.spec = spec ∧ spec.check w = .ok () := by
  unfold Case.new at h
  split at h
  · rename_i hcheck
    cases h
    exact ⟨rfl, hcheck⟩
  · cases h

theorem Case.new_of_check {w : World} {spec : CaseSpec} (h : spec.check w = .ok ()) :
    Case.new w spec = .ok ⟨spec, w, h⟩ := by
  unfold Case.new
  split
  · rfl
  · rename_i he
    rw [h] at he
    cases he

theorem Case.not_missing {w : World} {spec : CaseSpec} {case : Case} (h : Case.new w spec = .ok case) :
    ¬ case.Missing w := by
  obtain ⟨rfl, hcheck⟩ := Case.new_spec h
  simp only [CaseSpec.check, Check.bind_eq_ok, Check.forM_eq_ok, CaseSpec.checkEvent, Check.require_eq_ok] at hcheck
  obtain ⟨-, -, -, -, -, -, hevents⟩ := hcheck
  rintro ⟨event, hm, hmissing⟩
  obtain ⟨-, -, hexists⟩ := hevents event hm
  rw [hexists] at hmissing
  cases hmissing

/-- A run of validated inputs returns a result. -/
theorem run_returns {w : World} {programs : List (UInt16 × Program)} {assignment : Assignment} {spec : CaseSpec}
    {case : Case} (ha : Assignment.validate w programs = .ok assignment) (hc : Case.new w spec = .ok case) :
    ∃ result, (run w assignment case).result = .ok result := by
  cases hr : (run w assignment case).result with
  | ok result => exact ⟨result, rfl⟩
  | error e =>
    rcases (run_sound w assignment case).error e hr with hcells | hmissing
    · exact absurd (Assignment.validate_cells ha) hcells
    · exact absurd hmissing (Case.not_missing hc)

def tinySpec : WorldSpec where
  width := 3
  height := 3
  walls := []
  sources := [⟨1, ⟨0, 0⟩, [⟨7, true⟩]⟩]
  depots := []
  beacons := [⟨1, ⟨1, 1⟩, true, 5, 1, 1, 10, 1⟩]
  valves := []
  cells := [⟨1, ⟨0, 0⟩, .east, true, Vector.replicate _ 0⟩]
  links := []

def tinyWorld : World := ⟨tinySpec, Vector.replicate _ 0, by decide +kernel⟩

def tinyProgram : Program := ⟨[⟨[], .pickup, none, by decide⟩], by decide, by decide⟩

def tinyAssignment : Assignment := ⟨[tinyProgram], [1], rfl⟩

def tinyCase (fuel : UInt64) : CaseSpec := ⟨42, 2, fuel, 60, [], 10⟩

theorem tinyCase_valid : (tinyCase 2000).check tinyWorld = .ok () := by decide +kernel

theorem tiny_run_returns :
    ∃ result, (run tinyWorld tinyAssignment ⟨tinyCase 2000, tinyWorld, tinyCase_valid⟩).result = .ok result :=
  have hvalid : Assignment.validate tinyWorld [(1, tinyProgram)] = .ok tinyAssignment := by decide +kernel
  run_returns hvalid (Case.new_of_check tinyCase_valid)

end Valhalla.Witness
