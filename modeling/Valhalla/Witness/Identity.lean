import Valhalla.Witness.Guarantees
import Valhalla.Witness.Roundtrip
import Mathlib.Algebra.Order.BigOperators.Group.List

/-!
# The laws of the encoding, and the identity of programs

The hand-computed size limits are large enough, so the decoders invert the encoders on every validated
manifest and every sorted candidate. The encoding of an assignment lists the cells in the order of the
world, which is the ascending order of a candidate only if the world declares its cells so.
-/

namespace Valhalla.Witness
open Fallible FixedWidth

/-! ### Sizes -/

@[simp] theorem length_putU8 (v : UInt8) : (putU8 v).length = 1 := rfl
@[simp] theorem length_putU16 (v : UInt16) : (putU16 v).length = 2 := length_toBe v
@[simp] theorem length_putU32 (v : UInt32) : (putU32 v).length = 4 := length_toBe v
@[simp] theorem length_putU64 (v : UInt64) : (putU64 v).length = 8 := length_toBe v
@[simp] theorem length_putBool (b : Bool) : (putBool b).length = 1 := rfl
@[simp] theorem length_putCount (n : Nat) : (putCount n).length = 1 := rfl
@[simp] theorem length_putWallCount (n : Nat) : (putWallCount n).length = 2 := length_toBe _
@[simp] theorem length_putHeader : putHeader.length = 2 := rfl

section
variable {α : Type} {put : α → List UInt8} {k n : Nat} {l : List α}

theorem length_putOption_le (h : ∀ a, (put a).length ≤ k) (o : Option α) : (putOption put o).length ≤ 1 + k := by
  cases o with
  | none => exact Nat.le_add_right 1 k
  | some a => simpa [putOption] using Nat.add_le_add_left (h a) 1

theorem length_flatMap_le (h : ∀ a ∈ l, (put a).length ≤ k) (hl : l.length ≤ n) : (l.flatMap put).length ≤ n * k := by
  refine Nat.le_trans ?_ (Nat.mul_le_mul_right k hl)
  rw [List.length_flatMap]
  simpa using List.sum_le_card_nsmul (l.map fun a => (put a).length) k (by simpa using h)

theorem length_putList_le (h : ∀ a ∈ l, (put a).length ≤ k) (hl : l.length ≤ n) :
    (putList put l).length ≤ 1 + n * k := by
  rw [putList, List.length_append, length_putCount]
  exact Nat.add_le_add_left (length_flatMap_le h hl) 1

end

theorem length_putCondition_le (c : Condition) : (putCondition c).length ≤ maxConditionBytes := by
  cases c <;> simp [putCondition, maxConditionBytes]

theorem length_putBitSource (b : BitSource) : (putBitSource b).length = 2 := by
  cases b <;> simp [putBitSource]

theorem length_putAction_le (a : Action) : (putAction a).length ≤ maxActionBytes := by
  cases a <;> simp [putAction, length_putBitSource, maxActionBytes]

theorem length_putRule_le (r : Rule) : (putRule r).length ≤ maxRuleBytes := by
  have hwhen := length_putList_le (fun c _ => length_putCondition_le c) r.bounded
  have haction := length_putAction_le r.action
  have hremember : (putOption putMemoryWrite r.remember).length ≤ 1 + 2 :=
    length_putOption_le (fun w => by simp [putMemoryWrite]) r.remember
  simp only [putRule, List.length_append, maxRuleBytes]
  omega

theorem length_putProgramBody_le (p : Program) : (putProgramBody p).length ≤ maxProgramBodyBytes :=
  length_putList_le (fun r _ => length_putRule_le r) p.bounded

theorem length_encodeProgram_le (p : Program) : (encodeProgram p).length ≤ maxProgramBytes := by
  simpa [encodeProgram, maxProgramBytes] using length_putProgramBody_le p

theorem length_encodeCandidate_le {programs : List (UInt16 × Program)} (h : programs.length ≤ maxCells) :
    (encodeCandidate programs).length ≤ maxAssignmentBytes := by
  have hentry : ∀ entry ∈ programs, (putCandidateEntry entry).length ≤ 2 + maxProgramBodyBytes := fun entry _ => by
    simpa [putCandidateEntry] using length_putProgramBody_le entry.2
  have hlist := length_putList_le hentry h
  simp only [encodeCandidate, putCandidate, List.length_append, length_putHeader, maxAssignmentBytes]
  omega

@[simp] theorem length_putPoint (p : Point) : (putPoint p).length = 2 := rfl
@[simp] theorem length_putSpark (s : Spark) : (putSpark s).length = 5 := by simp [putSpark]

theorem length_putSource (s : Source) : (putSource s).length = 5 + s.sparks.length * maxSparkBytes := by
  have hsparks : (s.sparks.flatMap putSpark).length = s.sparks.length * maxSparkBytes := by
    simp [List.length_flatMap, maxSparkBytes]
  simp only [putSource, putList, List.length_append, length_putU16, length_putPoint, length_putCount, hsparks]
  omega

theorem length_putSources_le {sources : List Source} (h : sources.length ≤ maxSources)
    (hsparks : (sources.map (·.sparks.length)).sum ≤ maxInitialSparks) :
    (putList putSource sources).length ≤ 1 + maxSources * 5 + maxInitialSparks * maxSparkBytes := by
  have hsum : (sources.flatMap putSource).length = sources.length * 5 + (sources.map (·.sparks.length)).sum * maxSparkBytes := by
    clear h hsparks
    induction sources with
    | nil => rfl
    | cons s sources ih =>
      simp only [List.flatMap_cons, List.length_append, ih, length_putSource, List.length_cons, List.map_cons,
        List.sum_cons, maxSparkBytes]
      omega
  simp only [putList, List.length_append, length_putCount, hsum, maxSparkBytes]
  omega

theorem length_putEndpoint_le (e : Endpoint) : (putEndpoint e).length ≤ 4 := by
  cases e <;> simp [putEndpoint]

theorem length_putWorld_le {spec : WorldSpec} (h : spec.Encodable) : (putWorld spec).length ≤ maxWorldBytes := by
  have hwalls : (putWalls spec.walls).length ≤ 2 + maxWalls * 2 := by
    rw [putWalls, List.length_append, length_putWallCount]
    exact Nat.add_le_add_left (length_flatMap_le (fun p _ => Nat.le_of_eq (length_putPoint p)) h.walls) 2
  have hsources := length_putSources_le h.sources h.sparks
  have hdepots : (putList putDepot spec.depots).length ≤ 1 + maxDepots * 5 :=
    length_putList_le (fun d _ => by simp [putDepot]) h.depots
  have hbeacons : (putList putBeacon spec.beacons).length ≤ 1 + maxBeacons * 25 :=
    length_putList_le (fun b _ => by simp [putBeacon]) h.beacons
  have hvalves : (putList putValve spec.valves).length ≤ 1 + maxValves * 11 :=
    length_putList_le (fun v _ => by simp [putValve]) h.valves
  have hcells : (putList putCellBody spec.cells).length ≤ 1 + maxCells * 10 :=
    length_putList_le (fun c _ => by simp [putCellBody, memorySlots]) h.cells
  have hlinks : (putList putLink spec.links).length ≤ 1 + maxLinks * 14 :=
    length_putList_le (fun l _ => by have := length_putEndpoint_le l.origin; simp [putLink]; omega) h.links
  simp only [putWorld, List.length_append, length_putU8, maxWorldBytes]
  omega

theorem length_putEvent_le (e : Event) : (putEvent e).length ≤ maxEventBytes := by
  obtain ⟨tick, event⟩ := e
  cases event <;> simp [putEvent, putEventKind, maxEventBytes]

theorem length_putProgramSlot_le (s : ProgramSlot) : (putProgramSlot s).length ≤ 3 + maxProgramBodyBytes := by
  have hfixed := length_putOption_le length_putProgramBody_le s.fixed
  simp only [putProgramSlot, List.length_append, length_putU16]
  omega

theorem length_putCase_le {case : CaseSpec} (h : case.events.length ≤ maxEvents) : (putCase case).length ≤ maxCaseBytes := by
  have hevents : (putList putEvent case.events).length ≤ 1 + maxEvents * maxEventBytes :=
    length_putList_le (fun e _ => length_putEvent_le e) h
  simp only [putCase, List.length_append, length_putU64, length_putU32, maxCaseBytes]
  omega

theorem length_encodeManifest_le {manifest : TaskManifest} (h : manifest.Encodable) :
    (encodeManifest manifest).length ≤ maxManifestBytes := by
  have hworld := length_putWorld_le h.world
  have hslots := length_putList_le (fun s _ => length_putProgramSlot_le s) h.slots
  have hcases : (putList putCase manifest.cases).length ≤ 1 + maxCases * maxCaseBytes :=
    length_putList_le (fun c hc => length_putCase_le (h.events c hc)) h.cases
  simp only [encodeManifest, putManifest, putContract, List.length_append, length_putHeader, length_putU64,
    length_putBool, maxManifestBytes]
  omega

/-! ### Validated manifests -/

theorem World.new_spec {spec : WorldSpec} {w : World} (h : World.new spec = .ok w) : w.spec = spec := by
  unfold World.new at h
  split at h
  · cases h
    rfl
  · cases h

theorem World.encodable (w : World) : w.spec.Encodable where
  walls := w.checked.wallCount
  sources := w.checked.sourceCount
  sparks := by
    obtain ⟨ids, hids⟩ := w.checked.sparks
    have hlen := (sparks_of_scan hids).2
    rwa [WorldSpec.initialSparkList, List.length_flatMap] at hlen
  depots := w.checked.depotCount
  beacons := w.checked.beaconCount
  valves := w.checked.valveCount
  cells := w.checked.cellCount
  links := w.checked.linkCount

/-- What an accepted manifest passed, as far as its encoding and its programs are concerned. -/
structure ValidManifest.Checked (m : ValidManifest) : Prop where
  world : m.manifest.world = m.world.spec
  cases : m.manifest.cases.length ≤ maxCases
  events : ∀ case ∈ m.manifest.cases, case.events.length ≤ maxEvents
  slots : m.manifest.slots.map (·.cell) = (m.world.cells.map (·.id)).insertionSort (· ≤ ·)
  count : m.manifest.slots.length ≤ maxCells

theorem CaseSpec.events_of_check {w : World} {spec : CaseSpec} (h : spec.check w = .ok ()) :
    spec.events.length ≤ maxEvents := by
  simp only [CaseSpec.check, Check.bind_eq_ok, Check.require_eq_ok, decide_eq_true_eq, exists_const] at h
  exact h.2.2.1

theorem ValidManifest.checked (m : ValidManifest) : m.Checked := by
  have h := m.valid
  simp only [TaskManifest.check, Check.bind_eq_ok, Check.mapError_eq_ok, Check.mapM_eq_ok, Check.require_eq_ok,
    Bool.and_eq_true, decide_eq_true_eq, beq_iff_eq, exists_const] at h
  obtain ⟨w, hw, ⟨-, hcases⟩, cases, hnew, ⟨hslots, hcount⟩, -, -, -, -, -, h⟩ := h
  obtain ⟨rfl, rfl⟩ := Prod.mk.inj (Except.ok.inj h)
  refine ⟨(World.new_spec hw).symm, hcases, fun case hm => ?_, hslots, by simpa using hcount⟩
  have hevents := hnew.imp fun case _ hc => And.intro (CaseSpec.events_of_check (Case.new_spec hc).2) hc
  exact ((List.forall₂_and_left (p := fun case => case.events.length ≤ maxEvents) _ _).1 hevents).1 case hm

theorem ascending_insertionSort {ids : List UInt16} (h : ids.Nodup) : (ids.insertionSort (· ≤ ·)).Pairwise (· < ·) := by
  have hsorted := List.pairwise_insertionSort (· ≤ ·) ids
  have hnodup : (ids.insertionSort (· ≤ ·)).Pairwise (· ≠ ·) := (List.perm_insertionSort _ ids).nodup_iff.2 h
  exact (hsorted.and hnodup).imp fun h => UInt16.lt_of_le_of_ne h.1 h.2

theorem ValidManifest.encodable (m : ValidManifest) : m.manifest.Encodable where
  world := m.checked.world ▸ m.world.encodable
  slots := m.checked.count
  ascending := m.checked.slots ▸ ascending_insertionSort m.world.checked.cellIds
  cases := m.checked.cases
  events := m.checked.events

/-! ### The laws -/

/-- Validated values survive their encodings, within the size limits, and decoders accept only encodings. -/
theorem codec_laws :
    (∀ m : ValidManifest, RoundTrips decodeManifest encodeManifest maxManifestBytes m.manifest) ∧
      (∀ program, RoundTrips decodeProgram encodeProgram maxProgramBytes program) ∧
      (∀ programs, programs.length ≤ 16 → (programs.map (·.1)).Pairwise (· < ·) →
        RoundTrips decodeCandidate encodeCandidate maxAssignmentBytes programs) ∧
      Canonical decodeProgram encodeProgram ∧ Canonical decodeCandidate encodeCandidate ∧
      Canonical decodeManifest encodeManifest ∧ Canonical decodeOutput encodeOutput ∧
      Canonical ClaimedReceipt.decode ClaimedReceipt.encode := by
  refine ⟨fun m => ?_, fun program => ?_, fun programs hlen hsorted => ?_, ?_, ?_, ?_, ?_, ?_⟩
  · have hsize := length_encodeManifest_le m.encodable
    exact ⟨decodeManifest_eq_ok.2 ⟨rfl, m.encodable, hsize⟩, hsize⟩
  · have hsize := length_encodeProgram_le program
    exact ⟨decodeProgram_eq_ok.2 ⟨rfl, hsize⟩, hsize⟩
  · have hsize := length_encodeCandidate_le hlen
    exact ⟨decodeCandidate_eq_ok.2 ⟨rfl, ⟨hlen, hsorted⟩, hsize⟩, hsize⟩
  · exact fun raw program h => (decodeProgram_eq_ok.1 h).1.symm
  · exact fun raw programs h => (decodeCandidate_eq_ok.1 h).1.symm
  · exact fun raw manifest h => (decodeManifest_eq_ok.1 h).1.symm
  · exact fun raw results h => (decodeOutput_eq_ok.1 h).1.symm
  · exact fun raw receipt h => (ClaimedReceipt.decode_eq_ok.1 h).1.symm

theorem tiny_codec_laws :
    RoundTrips decodeCandidate encodeCandidate maxAssignmentBytes [(1, tinyProgram)] ∧
      encodeProgram tinyProgram = [1, 1, 1, 0, 3, 0] :=
  ⟨codec_laws.2.2.1 _ (by decide) (by decide), codec_laws.2.2.2.1 _ tinyProgram (by decide +kernel)⟩

/-! ### Assignments -/

theorem mergeSlots_cells {slots : List ProgramSlot} {candidate merged : List (UInt16 × Program)}
    (h : mergeSlots slots candidate = .ok merged) : merged.map (·.1) = slots.map (·.cell) := by
  induction slots generalizing candidate merged with
  | nil => cases h; rfl
  | cons slot slots ih =>
    obtain ⟨cell, _ | program⟩ := slot
    · cases candidate with
      | nil => cases h
      | cons entry candidate =>
        obtain ⟨rest, hrest, h⟩ := Check.bind_eq_ok.1 h
        cases h
        rw [List.map_cons, List.map_cons, ih hrest]
    · obtain ⟨rest, hrest, h⟩ := Check.bind_eq_ok.1 h
      cases h
      rw [List.map_cons, List.map_cons, ih hrest]

/-- A candidate for open slots only is the merged list already. -/
theorem mergeSlots_open {slots : List ProgramSlot} {candidate merged : List (UInt16 × Program)}
    (h : mergeSlots slots candidate = .ok merged) (hopen : ∀ slot ∈ slots, slot.fixed = none)
    (hcells : candidate.map (·.1) = slots.map (·.cell)) : merged = candidate := by
  induction slots generalizing candidate merged with
  | nil =>
    cases h
    exact (List.map_eq_nil_iff.1 hcells).symm
  | cons slot slots ih =>
    obtain ⟨cell, fixed⟩ := slot
    obtain rfl : fixed = none := hopen _ List.mem_cons_self
    cases candidate with
    | nil => cases h
    | cons entry candidate =>
      obtain ⟨rest, hrest, h⟩ := Check.bind_eq_ok.1 h
      cases h
      obtain ⟨rfl, htail⟩ := List.cons.inj hcells
      rw [ih hrest (fun slot hs => hopen slot (List.mem_cons_of_mem _ hs)) htail]

theorem Assignment.mem_of_pick {w : World} {programs : List (UInt16 × Program)} {cell : CellBody} {program : Program}
    (h : Assignment.pick w programs cell = .ok program) : (cell.id, program) ∈ programs := by
  simp only [Assignment.pick, Check.bind_eq_ok, Check.okOr_eq_ok, Option.map_eq_some_iff] at h
  obtain ⟨_, ⟨entry, hfind, rfl⟩, -, -, h⟩ := h
  cases h
  have hid := List.find?_some hfind
  rw [beq_iff_eq] at hid
  rw [← hid]
  exact List.mem_of_find?_eq_some hfind

theorem Assignment.mem_of_validate {w : World} {programs : List (UInt16 × Program)} {assignment : Assignment}
    (h : Assignment.validate w programs = .ok assignment) :
    ∀ entry ∈ assignment.cells.zip assignment.programs, entry ∈ programs := by
  simp only [Assignment.validate, Check.bind_eq_ok] at h
  obtain ⟨-, -, ordered, hordered, h⟩ := h
  cases h
  have hall : List.Forall₂ (fun cell entry => (entry.2, entry.1) ∈ programs ∧ True) w.cells ordered := by
    refine (Check.mapM_eq_ok.1 hordered).imp fun cell entry he => ?_
    obtain ⟨program, hpick, he⟩ := Check.bind_eq_ok.1 he
    cases he
    exact ⟨mem_of_pick hpick, trivial⟩
  intro entry he
  rw [List.zip_map', List.mem_map] at he
  obtain ⟨pair, hpair, rfl⟩ := he
  exact ((List.forall₂_and_left _ _).1 hall.flip).1 pair hpair

theorem Assignment.zip_cells (a : Assignment) : (a.cells.zip a.programs).map (·.1) = a.cells :=
  List.map_fst_zip (Nat.le_of_eq a.paired.symm)

/-! ### The identity of programs -/

/-- The encoding of an assignment is the canonical encoding of the programs it binds. -/
structure ProgramIdentity (sha256 : Sha256) (m : ValidManifest) (candidate : List (UInt16 × Program))
    (assignment : Assignment) : Prop where
  ascending : ((assignment.cells.zip assignment.programs).map (·.1)).Pairwise (· < ·)
  decodes : ∃ merged, mergeSlots m.manifest.slots candidate = .ok merged ∧
    decodeCandidate (encodeAssignment assignment) = .ok merged
  hash : (∀ slot ∈ m.manifest.slots, slot.fixed = none) →
    ProgramHash.of sha256 (encodeAssignment assignment) = ProgramHash.of sha256 (encodeCandidate candidate)

theorem ValidManifest.assign_eq_ok {m : ValidManifest} {candidate : List (UInt16 × Program)} {assignment : Assignment} :
    m.assign candidate = .ok assignment ↔ candidate.map (·.1) = m.openSlots ∧
      ∃ merged, mergeSlots m.manifest.slots candidate = .ok merged ∧
        Assignment.validate m.world merged = .ok assignment := by
  simp [ValidManifest.assign]

theorem zip_eq_merged {m : ValidManifest} {candidate merged : List (UInt16 × Program)} {assignment : Assignment}
    (hmerge : mergeSlots m.manifest.slots candidate = .ok merged)
    (hvalid : Assignment.validate m.world merged = .ok assignment)
    (hcells : (m.world.cells.map (·.id)).Pairwise (· < ·)) : assignment.cells.zip assignment.programs = merged := by
  have hsorted : (m.world.cells.map (·.id)).insertionSort (· ≤ ·) = m.world.cells.map (·.id) :=
    List.Pairwise.insertionSort_eq (hcells.imp UInt16.le_of_lt)
  have hmerged : merged.map (·.1) = m.world.cells.map (·.id) := by
    rw [mergeSlots_cells hmerge, m.checked.slots, hsorted]
  refine List.eq_of_keys ?_ (hmerged ▸ m.world.checked.cellIds) (Assignment.mem_of_validate hvalid)
  rw [Assignment.zip_cells, Assignment.validate_cells hvalid, hmerged]

/-- An assignment is encoded canonically exactly if the world declares its cells in ascending order. -/
theorem programIdentity_iff (sha256 : Sha256) {m : ValidManifest} {candidate : List (UInt16 × Program)}
    {assignment : Assignment} (h : m.assign candidate = .ok assignment) :
    ProgramIdentity sha256 m candidate assignment ↔ (m.world.cells.map (·.id)).Pairwise (· < ·) := by
  obtain ⟨hcandidate, merged, hmerge, hvalid⟩ := ValidManifest.assign_eq_ok.1 h
  constructor
  · intro hi
    have hascending := hi.ascending
    rwa [Assignment.zip_cells, Assignment.validate_cells hvalid] at hascending
  · intro hcells
    have hzip := zip_eq_merged hmerge hvalid hcells
    have hascending : (merged.map (·.1)).Pairwise (· < ·) := by
      rw [mergeSlots_cells hmerge, m.checked.slots]
      exact ascending_insertionSort m.world.checked.cellIds
    have hcount : merged.length ≤ maxCells := by
      rw [← List.length_map (f := (·.1)), mergeSlots_cells hmerge, List.length_map]
      exact m.checked.count
    refine ⟨hzip ▸ hascending, ⟨merged, hmerge, ?_⟩, fun hopen => ?_⟩
    · rw [encodeAssignment, hzip]
      exact decodeCandidate_eq_ok.2 ⟨rfl, ⟨hcount, hascending⟩, length_encodeCandidate_le hcount⟩
    · have hall : m.openSlots = m.manifest.slots.map (·.cell) := by
        rw [ValidManifest.openSlots, List.filter_eq_self.2 fun slot hs => by rw [hopen slot hs]; rfl]
      rw [encodeAssignment, hzip, mergeSlots_open hmerge hopen (hcandidate.trans hall)]

def pairSpec (first second : UInt16) : WorldSpec :=
  { tinySpec with
    cells := [⟨first, ⟨0, 0⟩, .east, true, Vector.replicate _ 0⟩, ⟨second, ⟨2, 2⟩, .east, true, Vector.replicate _ 0⟩] }

def pairCase : CaseSpec := ⟨42, 2, 2000, 60, [], 200⟩

def pairManifest (first second : UInt16) : TaskManifest :=
  ⟨pairSpec first second, [⟨1, none⟩, ⟨2, none⟩], [pairCase], ⟨0, 2000, true⟩⟩

def orderedWorld : World := ⟨pairSpec 1 2, Vector.replicate _ 0, by decide +kernel⟩
def swappedWorld : World := ⟨pairSpec 2 1, Vector.replicate _ 0, by decide +kernel⟩

def orderedManifest : ValidManifest :=
  ⟨pairManifest 1 2, orderedWorld, [⟨pairCase, orderedWorld, by decide +kernel⟩], by decide +kernel⟩
def swappedManifest : ValidManifest :=
  ⟨pairManifest 2 1, swappedWorld, [⟨pairCase, swappedWorld, by decide +kernel⟩], by decide +kernel⟩

def waitProgram : Program := ⟨tinyProgram.rules.map fun rule => { rule with action := .wait }, by decide, by decide⟩

def pairCandidate : List (UInt16 × Program) := [(1, tinyProgram), (2, waitProgram)]

/-- SHA-256 on the hash inputs of the two encodings of `pairCandidate`, in cell order and swapped. -/
def pairSha256 : Sha256 := fun bytes =>
  if bytes = assignmentDomain ++ toBe (15 : UInt32) ++ encodeCandidate pairCandidate then
    #v[133, 47, 6, 190, 183, 47, 75, 49, 152, 186, 137, 134, 64, 223, 140, 3,
      239, 93, 206, 115, 79, 214, 151, 24, 195, 176, 105, 202, 58, 141, 43, 7]
  else
    #v[179, 214, 96, 190, 176, 192, 182, 100, 120, 66, 240, 104, 98, 51, 6, 2,
      184, 76, 80, 0, 26, 94, 115, 155, 136, 94, 61, 189, 156, 29, 158, 32]

theorem ordered_programIdentity :
    ProgramIdentity pairSha256 orderedManifest pairCandidate ⟨[tinyProgram, waitProgram], [1, 2], rfl⟩ :=
  (programIdentity_iff pairSha256 (by decide +kernel)).2 (by decide +kernel)

/-- With the cells declared as 2 and 1, the encoding of an assignment is not even decoded. -/
theorem swapped_not_programIdentity :
    swappedManifest.assign pairCandidate = .ok ⟨[waitProgram, tinyProgram], [2, 1], rfl⟩ ∧
      decodeCandidate (encodeAssignment ⟨[waitProgram, tinyProgram], [2, 1], rfl⟩) = .error (.unsorted .cellId) ∧
      ¬ ProgramIdentity pairSha256 swappedManifest pairCandidate ⟨[waitProgram, tinyProgram], [2, 1], rfl⟩ :=
  ⟨by decide +kernel, by decide +kernel, fun h => absurd h.ascending (by decide +kernel)⟩

end Valhalla.Witness
