import Valhalla.Lib.Entries
import Valhalla.Witness.Change

/-!
# What never changes in a run

A state lists the same entities as its world, in the same order (`Shape`), and every signal it holds
came from a link of the world (`Signal.From`). With the world's own validity these give every lookup
by identifier or position that the code makes.
-/

namespace Valhalla.Witness
open FixedWidth

/-! ### Facts the world's validator checked -/

/-- The parts of `WorldSpec.check` that hold of an accepted specification. -/
structure WorldSpec.Checked (spec : WorldSpec) (rows : WallRows) : Prop where
  width : spec.width ≤ maxSide
  height : spec.height ≤ maxSide
  wallCount : spec.walls.length ≤ maxWalls
  cellCount : spec.cells.length ≤ maxCells
  sourceCount : spec.sources.length ≤ maxSources
  depotCount : spec.depots.length ≤ maxDepots
  beaconCount : spec.beacons.length ≤ maxBeacons
  valveCount : spec.valves.length ≤ maxValves
  linkCount : spec.links.length ≤ maxLinks
  walls : spec.walls.foldlM spec.checkWall (Vector.replicate 32 0) = .ok rows
  cellIds : (spec.cells.map (·.id)).Nodup
  sourceIds : (spec.sources.map (·.id)).Nodup
  depotIds : (spec.depots.map (·.id)).Nodup
  beaconIds : (spec.beacons.map (·.id)).Nodup
  valveIds : (spec.valves.map (·.id)).Nodup
  linkIds : (spec.links.map (·.id)).Nodup
  cellPositions : ∃ ps, (spec.cells.map (·.position)).foldlM (spec.checkPosition .cellPosition rows) [] = .ok ps
  stationPositions : ∃ ps, spec.stations.foldlM (spec.checkPosition .stationPosition rows) [] = .ok ps
  sparks : ∃ ids, spec.initialSparkList.foldlM checkSpark [] = .ok ids
  depots : ∀ depot ∈ spec.depots, checkDepot depot = .ok ()
  beacons : ∀ beacon ∈ spec.beacons, checkBeacon beacon = .ok ()
  valves : ∀ valve ∈ spec.valves, spec.checkValve valve = .ok ()
  links : ∀ link ∈ spec.links, spec.checkLink link = .ok ()

theorem WorldSpec.Checked.of_check {spec : WorldSpec} {rows : WallRows} (h : spec.check = .ok rows) :
    spec.Checked rows := by
  simp only [WorldSpec.check, Check.bind_eq_ok, Check.require_eq_ok, Check.forM_eq_ok, Bool.and_eq_true,
    decide_eq_true_eq, Check.distinct_iff, exists_const] at h
  obtain ⟨⟨⟨⟨-, hw⟩, -⟩, hh⟩, ⟨⟨⟨⟨⟨⟨⟨⟨hwl, -⟩, hc⟩, hs⟩, hdp⟩, -⟩, hb⟩, hva⟩, hl⟩, rows', hwalls,
    ⟨⟨⟨⟨⟨hcell, hsource⟩, hdepot⟩, hbeacon⟩, hvalve⟩, hlink⟩, cs, hcs, ss, hss, is, his, hd, hbe, hv,
    hli, hrows⟩ := h
  cases hrows
  exact ⟨hw, hh, hwl, hc, hs, hdp, hb, hva, hl, hwalls, hcell, hsource, hdepot, hbeacon, hvalve, hlink, ⟨cs, hcs⟩, ⟨ss, hss⟩,
    ⟨is, his⟩, hd, hbe, hv, hli⟩

theorem World.checked (w : World) : w.spec.Checked w.wallRows := .of_check w.valid

theorem WorldSpec.positions_of_scan {spec : WorldSpec} {e : WorldError} {rows : WallRows} {ps qs : List Point}
    (h : ps.foldlM (spec.checkPosition e rows) [] = .ok qs) :
    ps.Nodup ∧ ∀ p ∈ ps, spec.usable rows p = true := by
  have := Check.foldlM_invariant (I := fun done taken => taken = done ∧ done.Nodup ∧
    ∀ p ∈ done, spec.usable rows p = true) ?_ ⟨rfl, .nil, by simp⟩ h
  · exact this.2
  · rintro done p _ taken' ⟨rfl, hnd, hall⟩ hp
    simp only [WorldSpec.checkPosition, Check.bind_eq_ok, Check.require_eq_ok, Bool.and_eq_true,
      Bool.not_eq_true', List.contains_eq_mem, decide_eq_false_iff_not, exists_const] at hp
    obtain ⟨⟨hu, hn⟩, ht⟩ := hp
    cases ht
    refine ⟨rfl, ?_, fun q hq => ?_⟩
    · exact List.nodup_append.2 ⟨hnd, by simp, fun a ha b hb => by simp at hb; rintro rfl; exact hn (hb ▸ ha)⟩
    · rcases List.mem_append.1 hq with hq | hq
      · exact hall q hq
      · rwa [List.mem_singleton.1 hq]

theorem sparks_of_scan {sparks : List Spark} {ids : List UInt32} (h : sparks.foldlM checkSpark [] = .ok ids) :
    (sparks.map (·.id)).Nodup ∧ sparks.length ≤ maxInitialSparks := by
  have := Check.foldlM_invariant (I := fun done ids => ids = done.map (·.id) ∧ (done.map (·.id)).Nodup ∧
    done.length ≤ maxInitialSparks) ?_ ⟨rfl, .nil, by simp⟩ h
  · exact this.2
  · rintro done spark _ ids' ⟨rfl, hnd, hlen⟩ hs
    simp only [checkSpark, Check.bind_eq_ok, Check.require_eq_ok, Bool.not_eq_true', List.contains_eq_mem,
      decide_eq_false_iff_not, decide_eq_true_eq, List.length_map, exists_const] at hs
    obtain ⟨hn, hlt, ht⟩ := hs
    cases ht
    refine ⟨by simp, ?_, by simpa using Nat.succ_le_of_lt hlt⟩
    rw [List.map_append]
    exact List.nodup_append.2 ⟨hnd, by simp, fun a ha b hb => by
      simp only [List.map_cons, List.map_nil, List.mem_singleton] at hb; rintro rfl; exact hn (hb ▸ ha)⟩

theorem World.link_valid (w : World) {link : Link} (h : link ∈ w.links) :
    link.toCell ∈ w.cells.map (·.id) ∧ (∃ point, w.spec.origin link.origin = some point) ∧
      minLinkDelay ≤ link.delay ∧ link.delay ≤ maxLinkDelay := by
  have hl := w.checked.links link h
  simp only [WorldSpec.checkLink, Check.bind_eq_ok, Check.okOr_eq_ok, Check.require_eq_ok, Bool.and_eq_true,
    decide_eq_true_eq] at hl
  obtain ⟨target, htarget, point, hpoint, ⟨hmin, hmax⟩, -⟩ := hl
  have hid : target.id = link.toCell := by simpa using List.find?_some htarget
  exact ⟨hid ▸ List.mem_map_of_mem (List.mem_of_find?_eq_some htarget), ⟨point, hpoint⟩, hmin, hmax⟩

theorem World.valve_valid (w : World) {valve : Valve} (h : valve ∈ w.valves) :
    valve.depot ∈ w.depots.map (·.id) ∧ valve.beaconZero ∈ w.beacons.map (·.id) ∧
      valve.beaconOne ∈ w.beacons.map (·.id) := by
  have hv := w.checked.valves valve h
  simp only [WorldSpec.checkValve, Check.bind_eq_ok, Check.okOr_eq_ok] at hv
  obtain ⟨depot, hdepot, zero, hzero, one, hone, -⟩ := hv
  have hd : depot.id = valve.depot := by simpa using List.find?_some hdepot
  have hz : zero.id = valve.beaconZero := by simpa using List.find?_some hzero
  have ho : one.id = valve.beaconOne := by simpa using List.find?_some hone
  exact ⟨hd ▸ List.mem_map_of_mem (List.mem_of_find?_eq_some hdepot),
    hz ▸ List.mem_map_of_mem (List.mem_of_find?_eq_some hzero),
    ho ▸ List.mem_map_of_mem (List.mem_of_find?_eq_some hone)⟩

theorem World.beacon_valid (w : World) {beacon : Beacon} (h : beacon ∈ w.beacons) :
    beacon.initialCharge ≤ maxBeaconCharge ∧ minDrainEvery ≤ beacon.drainEvery ∧
      beacon.sparkCharge ≤ maxSparkCharge := by
  have hb := w.checked.beacons beacon h
  simp only [checkBeacon, Check.require_eq_ok, Bool.and_eq_true, decide_eq_true_eq] at hb
  obtain ⟨⟨⟨⟨⟨⟨⟨⟨-, hinitial⟩, hevery⟩, -⟩, -⟩, -⟩, -⟩, hspark⟩, -⟩ := hb
  exact ⟨hinitial, hevery, hspark⟩

/-! ### Entities -/

theorem initial_sources (w : World) :
    (State.initial w).sources = w.sources.map fun source => ⟨source.id, source.sparks⟩ := by
  simp only [State.initial, State.allocated]
  induction w.sources with
  | nil => rfl
  | cons source rest ih => simpa using ih

structure Shape (w : World) (s : State) : Prop where
  cells : s.cells.map (·.id) = w.cells.map (·.id)
  sources : s.sources.map (·.id) = w.sources.map (·.id)
  depots : s.depots.map (·.id) = w.depots.map (·.id)
  beacons : s.beacons.map (·.id) = w.beacons.map (·.id)
  valves : s.valves.map (·.id) = w.valves.map (·.id)
  links : s.links.map (·.id) = w.links.map (·.id)

namespace Shape
variable {w : World} {s : State} {i : Nat}

theorem modifyCell {f : CellState → CellState} (h : Shape w s) (hf : ∀ c, (f c).id = c.id := by intro; rfl) :
    Shape w (s.modifyCell i f) :=
  { h with cells := (List.map_modify_of f _ i s.cells hf).trans h.cells }

theorem modifySource {f : SourceState → SourceState} (h : Shape w s) (hf : ∀ c, (f c).id = c.id := by intro; rfl) :
    Shape w (s.modifySource i f) :=
  { h with sources := (List.map_modify_of f _ i s.sources hf).trans h.sources }

theorem modifyDepot {f : DepotState → DepotState} (h : Shape w s) (hf : ∀ c, (f c).id = c.id := by intro; rfl) :
    Shape w (s.modifyDepot i f) :=
  { h with depots := (List.map_modify_of f _ i s.depots hf).trans h.depots }

theorem modifyBeacon {f : BeaconState → BeaconState} (h : Shape w s) (hf : ∀ c, (f c).id = c.id := by intro; rfl) :
    Shape w (s.modifyBeacon i f) :=
  { h with beacons := (List.map_modify_of f _ i s.beacons hf).trans h.beacons }

theorem credited {charge delivered : UInt32} {spark : Spark} {id : UInt16} (h : Shape w s) :
    Shape w (s.credited i charge delivered spark id) :=
  { h.modifyBeacon (i := i) (f := fun e => { e with charge, delivered }) with }

theorem map_id_setEnabled {entries entries' : List EnabledState} {id : UInt16} {enabled : Bool}
    (h : setEnabled entries id enabled = some entries') : entries'.map (·.id) = entries.map (·.id) := by
  obtain ⟨i, -, rfl⟩ := Option.map_eq_some_iff.1 h
  exact List.map_modify_of _ _ i entries fun _ => rfl

theorem change {p q : Stage × State} {n : List Note} (h : Shape w p.2) (hc : Change w p n q) : Shape w q.2 := by
  cases hc with
  | begin | emit => exact { h with }
  | expired | schedule | delivered | acted | skip | finish => exact h
  | linkEnabled hl => exact { h with links := (map_id_setEnabled hl).trans h.links }
  | valveEnabled hv => exact { h with valves := (map_id_setEnabled hv).trans h.valves }
  | refuse => exact { h with }
  | deliver => exact Shape.modifyCell { h with }
  | expire | clearMemory | move | turn | write | take => exact h.modifyCell
  | pickup => exact h.modifySource.modifyCell
  | deposit => exact h.modifyCell.modifyDepot
  | deliverHere => exact h.credited.modifyCell
  | route => exact h.credited.modifyDepot
  | drain => exact h.modifyBeacon

theorem initial (w : World) : Shape w (State.initial w) := by
  constructor
  case sources => simp [initial_sources, Function.comp_def]
  all_goals simp [State.initial, State.allocated, Function.comp_def]

/-! ### Lookups -/

section lookup
variable (h : Shape w s)
include h

theorem length_cells : s.cells.length = w.cells.length := by simpa using congrArg List.length h.cells
theorem length_sources : s.sources.length = w.sources.length := by simpa using congrArg List.length h.sources
theorem length_depots : s.depots.length = w.depots.length := by simpa using congrArg List.length h.depots
theorem length_beacons : s.beacons.length = w.beacons.length := by simpa using congrArg List.length h.beacons
theorem length_valves : s.valves.length = w.valves.length := by simpa using congrArg List.length h.valves
theorem length_links : s.links.length = w.links.length := by simpa using congrArg List.length h.links

theorem cell_at (hi : i < w.cells.length) : ∃ cell, s.cells[i]? = some cell :=
  List.exists_getElem? (h.length_cells ▸ hi)

theorem find_cell {id : UInt16} (hid : id ∈ w.cells.map (·.id)) : ∃ cell, s.cells.find? (·.id == id) = some cell :=
  List.exists_find? (h.cells ▸ hid)

theorem originPosition {link : Link} (hl : link ∈ w.links) :
    ∃ point, originPosition w s link.origin = some point := by
  obtain ⟨-, ⟨point, hp⟩, -⟩ := w.link_valid hl
  cases ho : link.origin with
  | cell id port =>
    rw [ho, WorldSpec.origin, Option.map_eq_some_iff] at hp
    obtain ⟨body, hbody, -⟩ := hp
    have hid : body.id = id := by simpa using List.find?_some hbody
    obtain ⟨cell, hcell⟩ := h.find_cell (List.mem_map.2 ⟨body, List.mem_of_find?_eq_some hbody, hid⟩)
    exact ⟨cell.position, by rw [Witness.originPosition, hcell]; rfl⟩
  | depot id => exact ⟨point, by rw [ho] at hp; exact hp⟩

end lookup

end Shape

end Valhalla.Witness
