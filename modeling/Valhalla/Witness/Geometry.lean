import Valhalla.Witness.Shape

/-!
# Where cells are

The wall rows of a world are its wall list as bits (`World.isWall_iff`). Cells stay on distinct squares
of the grid that are not walls, and a cell that is not mobile never moves.
-/

namespace Valhalla.Witness
open FixedWidth

/-! ### Wall rows -/

namespace WallRows
variable {rows : WallRows} {p q : Point}

theorem wallBit_ne_zero (h : p.x < maxSide) : wallBit p ≠ 0 := by
  have hx : p.x = UInt8.ofNat p.x.toNat := UInt8.ofNat_toNat.symm
  have hlt : p.x.toNat < 32 := h
  rw [wallBit, hx]
  generalize p.x.toNat = n at hlt
  revert n
  decide

theorem and_or_self (r b : UInt32) : (r ||| b) &&& b = b := by
  apply UInt32.toBitVec_inj.1
  apply BitVec.eq_of_getLsbD_eq
  intro i _
  simp only [UInt32.toBitVec_and, UInt32.toBitVec_or, BitVec.getLsbD_and, BitVec.getLsbD_or]
  cases b.toBitVec.getLsbD i <;> simp

theorem and_or_of_ne {r b c : UInt32} (h : r &&& c ≠ 0) : (r ||| b) &&& c ≠ 0 := by
  have absorb : r &&& ((r ||| b) &&& c) = r &&& c := by
    apply UInt32.toBitVec_inj.1
    apply BitVec.eq_of_getLsbD_eq
    intro i _
    simp only [UInt32.toBitVec_and, UInt32.toBitVec_or, BitVec.getLsbD_and, BitVec.getLsbD_or]
    cases r.toBitVec.getLsbD i <;> simp
  intro h0
  rw [h0, UInt32.and_zero] at absorb
  exact h absorb.symm

theorem row_add (h : q.y < maxSide) :
    (rows.add q).row p = if q.y = p.y then rows.row q ||| wallBit q else rows.row p := by
  have hy : q.y.toNat < 32 := h
  simp only [row, add, Vector.getElem?_setIfInBounds, UInt8.toNat_inj]
  split <;> simp_all

theorem has_add_self (hx : p.x < maxSide) (hy : p.y < maxSide) : (rows.add p).has p = true := by
  simpa [has, row_add hy, and_or_self] using wallBit_ne_zero hx

theorem has_add (hy : q.y < maxSide) (h : rows.has p = true) : (rows.add q).has p = true := by
  simp only [has, row_add hy, bne_iff_ne] at h ⊢
  split
  · rename_i heq
    have : rows.row q = rows.row p := by simp only [row, heq]
    exact and_or_of_ne (this ▸ h)
  · exact h

end WallRows

theorem WorldSpec.usable_iff {spec : WorldSpec} {rows : WallRows} {p : Point} :
    spec.usable rows p = true ↔ spec.onGrid p = true ∧ rows.has p = false := by
  simp [usable]

theorem World.lt_maxSide {w : World} {p : Point} (hx : p.x < w.width) (hy : p.y < w.height) :
    p.x < maxSide ∧ p.y < maxSide :=
  ⟨UInt8.lt_of_lt_of_le hx w.checked.width, UInt8.lt_of_lt_of_le hy w.checked.height⟩

theorem World.has_wall {w : World} {p : Point} (h : p ∈ w.walls) : w.wallRows.has p = true := by
  have := Check.foldlM_invariant (I := fun done rows => ∀ q ∈ done, WallRows.has rows q = true) ?_ (by simp)
    w.checked.walls
  · exact this p h
  · intro done q rows rows' hdone hq
    simp only [WorldSpec.checkWall, Check.bind_eq_ok, Check.require_eq_ok, exists_const, WorldSpec.onGrid,
      Bool.and_eq_true, decide_eq_true_eq] at hq
    obtain ⟨⟨hx, hy⟩, -, hrows⟩ := hq
    cases hrows
    obtain ⟨hx, hy⟩ := World.lt_maxSide hx hy
    intro r hr
    rcases List.mem_append.1 hr with hr | hr
    · exact WallRows.has_add hy (hdone r hr)
    · rw [List.mem_singleton.1 hr]
      exact WallRows.has_add_self hx hy

/-- A square of the grid that is not a wall. -/
structure World.Free (w : World) (p : Point) : Prop where
  width : p.x < w.width
  height : p.y < w.height
  wall : p ∉ w.walls

theorem World.free_of_usable {w : World} {p : Point} (h : w.spec.usable w.wallRows p = true) : w.Free p := by
  obtain ⟨hgrid, hrow⟩ := WorldSpec.usable_iff.1 h
  simp only [WorldSpec.onGrid, Bool.and_eq_true, decide_eq_true_eq] at hgrid
  exact ⟨hgrid.1, hgrid.2, fun hp => by simp [World.has_wall hp] at hrow⟩

theorem free_of_unblocked {w : World} {s : State} {cell : CellState} {direction : Relative} {p : Point}
    (h : blocked w s cell direction = false) (hd : destination cell.position cell.heading direction = some p) :
    w.Free p ∧ ∀ other ∈ s.cells, other.id ≠ cell.id → other.position ≠ p := by
  simp only [blocked, hd, Bool.or_eq_false_iff, decide_eq_false_iff_not, List.any_eq_false, Bool.and_eq_true,
    bne_iff_ne, beq_iff_eq, not_and, UInt8.not_le, World.isWall, Bool.and_eq_false_iff] at h
  obtain ⟨⟨⟨hx, hy⟩, hwall⟩, hothers⟩ := h
  refine ⟨⟨hx, hy, fun hp => ?_⟩, hothers⟩
  obtain ⟨hx, hy⟩ := World.lt_maxSide hx hy
  rcases hwall with (hwall | hwall) | hwall
  · exact hwall hy
  · exact hwall hx
  · rw [World.has_wall hp] at hwall
    cases hwall

/-! ### The cells of a state -/

/-- Cells are on distinct free squares, and immobile cells are where they started. -/
structure Placed (w : World) (s : State) : Prop where
  free : ∀ cell ∈ s.cells, w.Free cell.position
  apart : ∀ (i j : Nat) (a b : CellState), s.cells[i]? = some a → s.cells[j]? = some b → i ≠ j →
    a.position ≠ b.position
  fixed : ∀ (i : Nat) (body : CellBody) (cell : CellState), w.cells[i]? = some body →
    s.cells[i]? = some cell → body.mobile = false → cell.position = body.position

namespace Placed
variable {w : World} {s : State}

theorem nodup (h : Placed w s) : (s.cells.map (·.position)).Nodup := by
  rw [List.nodup_iff_pairwise_ne, List.pairwise_map, List.pairwise_iff_getElem]
  intro i j hi hj hij
  exact h.apart i j _ _ (List.getElem?_eq_getElem hi) (List.getElem?_eq_getElem hj) (Nat.ne_of_lt hij)

theorem initial (w : World) : Placed w (State.initial w) := by
  obtain ⟨ps, hps⟩ := w.checked.cellPositions
  obtain ⟨hnd, husable⟩ := WorldSpec.positions_of_scan hps
  refine ⟨fun cell hcell => ?_, fun i j a b ha hb hij => ?_, fun i body cell hb hc _ => ?_⟩
  · simp only [State.initial, List.mem_map] at hcell
    obtain ⟨body, hbody, rfl⟩ := hcell
    exact World.free_of_usable (husable _ (List.mem_map_of_mem hbody))
  · simp only [State.initial, List.getElem?_map, Option.map_eq_some_iff] at ha hb
    obtain ⟨x, hx, rfl⟩ := ha
    obtain ⟨y, hy, rfl⟩ := hb
    exact List.key_ne_of_nodup (g := CellBody.position) hnd hx hy hij
  · simp only [State.initial, List.getElem?_map, hb, Option.map_some, Option.some.injEq] at hc
    rw [← hc]

theorem frame {t : State} (h : Placed w s) (ht : t.cells.map (·.position) = s.cells.map (·.position)) :
    Placed w t := by
  have hpos : ∀ (i : Nat) (cell : CellState), t.cells[i]? = some cell →
      ∃ cell', s.cells[i]? = some cell' ∧ cell'.position = cell.position := by
    intro i cell hc
    have := congrArg (·[i]?) ht
    simp only [List.getElem?_map, hc, Option.map_some] at this
    exact Option.map_eq_some_iff.1 this.symm
  refine ⟨fun cell hcell => ?_, fun i j a b ha hb hij => ?_, fun i body cell hb hc hm => ?_⟩
  · obtain ⟨i, hi⟩ := List.mem_iff_getElem?.1 hcell
    obtain ⟨cell', hc', he⟩ := hpos i cell hi
    exact he ▸ h.free cell' (List.mem_of_getElem? hc')
  · obtain ⟨a', ha', hea⟩ := hpos i a ha
    obtain ⟨b', hb', heb⟩ := hpos j b hb
    exact hea ▸ heb ▸ h.apart i j a' b' ha' hb' hij
  · obtain ⟨cell', hc', he⟩ := hpos i cell hc
    exact he ▸ h.fixed i body cell' hb hc' hm

theorem move {i : Nat} {body : CellBody} {cell : CellState} {p : Point} {f : CellState → CellState}
    (h : Placed w s) (hs : Shape w s) (hb : w.cells[i]? = some body) (hc : s.cells[i]? = some cell)
    (hm : body.mobile = true) (hp : w.Free p) (hothers : ∀ other ∈ s.cells, other.id ≠ cell.id → other.position ≠ p)
    (hf : ∀ c, (f c).position = p := by intro; rfl) : Placed w (s.modifyCell i f) := by
  have hids : (s.cells.map (·.id)).Nodup := hs.cells ▸ w.checked.cellIds
  have hother : ∀ (j : Nat) (c : CellState), s.cells[j]? = some c → i ≠ j → c.position ≠ p := fun j c hj hij =>
    hothers c (List.mem_of_getElem? hj) (List.key_ne_of_nodup hids hj hc (Ne.symm hij))
  have hcase : ∀ (j : Nat) (c : CellState), (s.modifyCell i f).cells[j]? = some c →
      (i = j ∧ c.position = p) ∨ (i ≠ j ∧ s.cells[j]? = some c) := by
    intro j c hj
    simp only [State.modifyCell, List.getElem?_modify] at hj
    by_cases hij : i = j
    · subst hij
      simp only [hc, if_true, Option.map_eq_map, Option.map_some, Option.some.injEq] at hj
      exact .inl ⟨rfl, hj ▸ hf cell⟩
    · simp only [hij, if_false, Option.map_eq_map, Option.map_id'] at hj
      exact .inr ⟨hij, hj⟩
  refine ⟨fun c hcell => ?_, fun j k a b ha hb hjk => ?_, fun j body' c hb' hj hm' => ?_⟩
  · obtain ⟨j, hj⟩ := List.mem_iff_getElem?.1 hcell
    rcases hcase j c hj with ⟨-, he⟩ | ⟨-, hj⟩
    · rw [he]; exact hp
    · exact h.free c (List.mem_of_getElem? hj)
  · rcases hcase j a ha with ⟨rfl, hea⟩ | ⟨hij, ha⟩ <;> rcases hcase k b hb with ⟨rfl, heb⟩ | ⟨hik, hb⟩
    · exact absurd rfl hjk
    · rw [hea]; exact (hother k b hb hik).symm
    · rw [heb]; exact hother j a ha hij
    · exact h.apart j k a b ha hb hjk
  · rcases hcase j c hj with ⟨rfl, -⟩ | ⟨-, hj⟩
    · rw [hb] at hb'
      cases hb'
      rw [hm] at hm'
      cases hm'
    · exact h.fixed j body' c hb' hj hm'

theorem change {p q : Stage × State} {n : List Note} (h : Placed w p.2) (hs : Shape w p.2)
    (hc : Change w p n q) : Placed w q.2 := by
  cases hc with
  | begin | linkEnabled | valveEnabled | emit | expired | schedule | delivered | acted | skip | finish | refuse
  | drain | route => exact h.frame rfl
  | expire | clearMemory | turn | write | take | pickup | deposit | deliverHere | deliver =>
    exact h.frame (List.map_modify_of _ _ _ _ fun _ => rfl)
  | move hb hc hm hfree hd =>
    obtain ⟨hp, hothers⟩ := free_of_unblocked hfree hd
    exact h.move hs hb hc hm hp hothers

end Placed

end Valhalla.Witness
