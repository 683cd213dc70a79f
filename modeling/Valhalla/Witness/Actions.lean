import Valhalla.Witness.Moves

/-!
# Every action is a run of changes

One lemma for each function of an activation: started in a context in which nothing can go wrong, it
stays within the `acting` stage of the tick, and it fails only as an action or when stopped.
-/

namespace Valhalla.Witness
open Fallible FixedWidth

/-- The function stays within the acting stage of the tick. -/
abbrev Acts {α : Type} (w : World) (m : VmM α) (c : Ctx) : Prop := Within w .acting c m .acting (fun _ _ => True) c

section
variable {w : World} {c c₀ : Ctx} {i : Nat}

/-! ### Emission -/

theorem nextSignal_isSome (hr : Ready w c) : ∃ next, checkedAdd c.state.nextSignal 1 = some next := by
  have h₁ := hr.next
  have h₂ := hr.sound.fuel
  have h₃ : c.meter.fuel.toNat ≤ 2000000 := hr.fuel
  exact checkedAdd_isSome (by simp; omega)

theorem deliverTick_isSome (hr : Ready w c) {link : Link} (hl : link ∈ w.links) :
    ∃ deliverTick, checkedAdd c.state.tick link.delay = some deliverTick := by
  have h₁ : c.state.tick.toNat ≤ 128 := hr.good.tick
  have h₂ : link.delay.toNat ≤ 16 := (w.link_valid hl).2.2.2
  exact checkedAdd_isSome (by simp; omega)

theorem emitOutcome_eq {s : State} (enabled : Bool) {endpoint : Endpoint} (recipient : Point)
    (ho : ∃ point, originPosition w s endpoint = some point) :
    ∃ outcome, emitOutcome w s enabled endpoint recipient = pure outcome ∧ outcome.ofEmission = true ∧
      (outcome = .queued → s.pending.length < maxPending) := by
  obtain ⟨point, hp⟩ := ho
  unfold emitOutcome
  simp only [VmM.expect, hp, okOr_some, pure_bind]
  split
  · exact ⟨_, rfl, rfl, fun h => by cases h⟩
  · split
    · exact ⟨_, rfl, rfl, fun h => by cases h⟩
    · split
      · exact ⟨_, rfl, rfl, fun h => by cases h⟩
      · rename_i hroom
        exact ⟨_, rfl, rfl, fun _ => Nat.lt_of_not_le hroom⟩

theorem exec_enqueue {signal : Signal} {accepted : UInt32} (ha : accepted.toNat < maxLinks)
    (outcome : SignalOutcome) :
    ∃ accepted' : UInt32, accepted'.toNat ≤ accepted.toNat + 1 ∧ exec (enqueue signal accepted outcome) c =
      (.ok accepted', { c with state :=
        { c.state with pending := if outcome = .queued then c.state.pending ++ [signal] else c.state.pending } }) := by
  obtain ⟨next, hnext⟩ : ∃ next, checkedAdd accepted 1 = some next :=
    checkedAdd_isSome (by simp [maxLinks] at ha ⊢; omega)
  unfold enqueue
  split
  · refine ⟨next, Nat.le_of_eq (checkedAdd_eq_some.1 hnext), ?_⟩
    simp only [VmM.setState, VmM.checked, hnext, okOr_some, exec_bind, exec_update, exec_pure]
  · exact ⟨accepted, Nat.le_succ _, rfl⟩

theorem emitLink_within {endpoint : Endpoint} {bit : Bool} {evidence : Option UInt32} {accepted : UInt32}
    {link : Link} (hr : Ready w c) (hl : w.links[i]? = some link) (ho : link.origin = endpoint)
    (hreads : Reads c.state bit evidence) (ha : accepted.toNat < maxLinks) :
    Within w .acting c (emitLink w endpoint bit evidence accepted (link, i)) .acting (fun accepted' c' =>
      accepted'.toNat ≤ accepted.toNat + 1 ∧ Reads c'.state bit evidence) c := by
  subst ho
  have hlink := List.mem_of_getElem? hl
  have hshape := hr.good.shape
  obtain ⟨cell, hcell⟩ := hshape.find_cell (w.link_valid hlink).1
  unfold emitLink
  refine .charge (.refl hr.sound) fun m₁ h₁ hu₁ => .charge h₁ fun m₂ h₂ hu₂ => .get ?_
  refine .sure ⟨cell.position, by rw [hcell]; rfl⟩ fun recipient _ => ?_
  refine .sure (deliverTick_isSome hr hlink) fun deliverTick hdue => ?_
  refine .sure (nextSignal_isSome (c := c) hr) fun nextSignal hnext => .set ?_
  refine .sure (List.exists_getElem? (hshape.length_links ▸ (List.getElem?_eq_some_iff.1 hl).1)) fun entry _ => ?_
  obtain ⟨outcome, houtcome, hemission, hroom⟩ := emitOutcome_eq entry.enabled recipient
    (hshape.originPosition hlink)
  have hchange := Change.emit hl hreads hdue hnext hemission hroom
  refine .bind ?_
  rw [wp, houtcome]
  refine .bind ?_
  obtain ⟨accepted', haccepted, henqueue⟩ := exec_enqueue ha outcome
  rw [wp, henqueue]
  refine .record (.pure ?_ ⟨haccepted, hreads.congr rfl rfl⟩)
  -- the identifier goes up by one, and two units were charged
  have hid := checkedAdd_eq_some.1 hnext
  refine ⟨⟨_, [⟨link.signal c.state bit evidence deliverTick, outcome⟩], .single hchange, rfl, rfl⟩, rfl, h₂.meter, ?_⟩
  simp at hid hu₁ hu₂ ⊢
  omega

/-! The loop keeps the bit and its evidence readable and counts at most one signal for each link. -/

theorem emitLinks_within {endpoint : Endpoint} {bit : Bool} {evidence : Option UInt32} {links : List (Link × Nat)}
    (hlinks : ∀ x ∈ links, w.links[x.2]? = some x.1 ∧ x.1.origin = endpoint) {accepted : UInt32}
    (hr : Ready w c) (hreads : Reads c.state bit evidence) (ha : accepted.toNat + links.length ≤ maxLinks) :
    Acts w (links.foldlM (emitLink w endpoint bit evidence) accepted) c := by
  induction links generalizing accepted c with
  | nil => exact .pure (.refl hr.sound) trivial
  | cons x links ih =>
    obtain ⟨link, i⟩ := x
    obtain ⟨hl, ho⟩ := hlinks (link, i) (by simp)
    rw [List.length_cons] at ha
    rw [List.foldlM_cons]
    refine .call (emitLink_within hr hl ho hreads (by omega)) (.refl hr.sound) fun accepted' c' h hI => ?_
    have hle : accepted'.toNat + links.length ≤ maxLinks := by omega
    have hrest := ih (fun y hy => hlinks y (by simp [hy])) (h.ready hr) hI.2 hle
    exact .last (.call hrest h fun _ c'' h' _ => .pure (h.trans h') trivial)

theorem emit_acts {endpoint : Endpoint} {bit : Bool} {evidence : Option UInt32} (hr : Ready w c)
    (hreads : Reads c.state bit evidence) : Acts w (emit w endpoint bit evidence) c := by
  refine emitLinks_within (fun x hx => ?_) hr hreads ?_
  · obtain ⟨hmem, ho⟩ := List.mem_filter.1 hx
    exact ⟨List.mem_zipIdx_iff_getElem?.1 hmem, by simpa using ho⟩
  · have hlength := List.length_filter_le (fun x : Link × Nat => x.1.origin == endpoint) w.links.zipIdx
    rw [List.length_zipIdx] at hlength
    exact Nat.le_trans (Nat.le_of_eq (Nat.zero_add _)) (hlength.trans w.checked.linkCount)

/-! ### Credits -/

theorem State.credit_eq (s : State) (b : Nat) (charge delivered : UInt32) (spark : Spark) (id : UInt16) :
    { (s.modifyBeacon b fun e => { e with charge }).modifyBeacon b fun e => { e with delivered } with
      delivered := s.delivered ++ [⟨s.tick, spark, id⟩] } = s.credited b charge delivered spark id := by
  simp only [State.credited, State.modifyBeacon, List.modify_modify_eq]
  rfl

theorem credit_within {α : Type} {m : VmM α} {st' : Stage} {I : α → Ctx → Prop} {b : Nat} {beacon : Beacon}
    {spark : Spark} (h : Moves w .acting c₀ .acting c) (hr : Ready w c) (hw : w.beacons[b]? = some beacon)
    (k : ∀ meter entry charge delivered, Moves w .acting c₀ .acting { c with meter } →
      c.state.beacons[b]? = some entry → checkedAdd entry.charge beacon.sparkCharge = some charge →
      checkedAdd entry.delivered 1 = some delivered →
      Within w .acting c₀ m st' I { c with meter, state := c.state.credited b charge delivered spark beacon.id }) :
    Within w .acting c₀ (credit w b spark >>= fun _ => m) st' I c := by
  obtain ⟨entry, he⟩ := List.exists_getElem? (hr.good.shape.length_beacons ▸ (List.getElem?_eq_some_iff.1 hw).1)
  obtain ⟨hcharge, hdelivered⟩ := hr.good.entry_le hw he
  have hspark : beacon.sparkCharge.toNat ≤ 64 := (w.beacon_valid (List.mem_of_getElem? hw)).2.2
  unfold credit
  simp only [bind_assoc]
  refine .charge h fun meter hm _ => .sure ⟨beacon, hw⟩ fun specification hspec => .get ?_
  obtain rfl : beacon = specification := Option.some.inj (hw.symm.trans hspec)
  refine .sure ⟨entry, he⟩ fun entry' hentry => ?_
  obtain rfl : entry = entry' := Option.some.inj (he.symm.trans hentry)
  refine .sure (checkedAdd_isSome (by simp; omega)) fun charge hcharge' => .set ?_
  refine .sure (checkedAdd_isSome (by simp; omega)) fun delivered hdelivered' => .set (.set ?_)
  have hk := k meter entry charge delivered hm he hcharge' hdelivered'
  rw [← State.credit_eq] at hk
  exact hk

/-! ### Actions -/

theorem move_acts {direction : Relative} (hr : Ready w c) (hi : i < w.cells.length) : Acts w (move w i direction) c := by
  obtain ⟨body, hb⟩ := List.exists_getElem? hi
  obtain ⟨cell, hcell⟩ := hr.good.shape.cell_at hi
  unfold move
  refine .charge (.refl hr.sound) fun m₁ h₁ _ => .sure ⟨body, hb⟩ fun body' hb' => .get ?_
  refine .sure ⟨cell, hcell⟩ fun cell' hcell' => .guard h₁ fun hfree => .charge h₁ fun m₂ h₂ _ => ?_
  obtain rfl : cell = cell' := Option.some.inj (hcell.symm.trans hcell')
  obtain ⟨hmobile, hfree⟩ := Bool.and_eq_true_iff.1 hfree
  rw [Bool.not_eq_true'] at hfree
  have hdest : ∃ point, destination cell.position cell.heading direction = some point := by
    refine Option.ne_none_iff_exists'.1 fun hnone => ?_
    simp only [blocked] at hfree
    rw [hnone] at hfree
    cases hfree
  refine .sure hdest fun point hpoint => .last (.set (.pure ?_ trivial))
  exact h₂.change (Change.move hb' hcell' hmobile hfree hpoint) rfl rfl rfl

theorem turn_acts {direction : Relative} (hr : Ready w c) (hi : i < w.cells.length) : Acts w (turn i direction) c := by
  unfold turn
  refine .charge (.refl hr.sound) fun m₁ h₁ _ => .get (.sure (hr.good.shape.cell_at hi) fun cell _ => ?_)
  exact .last (.set (.pure (h₁.change (.turn i direction) rfl rfl rfl) trivial))

theorem pickup_acts (hr : Ready w c) (hi : i < w.cells.length) : Acts w (pickup w i) c := by
  unfold pickup
  refine .charge (.refl hr.sound) fun m₁ h₁ _ => .get (.sure (hr.good.shape.cell_at hi) fun cell hcell => ?_)
  refine .guard h₁ fun hcargo => .okOr h₁ fun j hj => ?_
  refine .sure (List.exists_getElem? (hr.good.shape.length_sources ▸ List.findIdx?_lt hj)) fun store hstore => ?_
  refine .okOr h₁ fun spark hspark => .charge h₁ fun m₂ h₂ _ => .set (.last (.set (.pure ?_ trivial)))
  exact h₂.change (.pickup hcell (by simpa using hcargo) hstore hspark) rfl rfl rfl

theorem deposit_acts {d : Nat} {cell : CellState} {spark : Spark} (hr : Ready w c) (hcell : c.state.cells[i]? = some cell)
    (hcargo : cell.cargo = some spark) (hd : d < w.depots.length) : Acts w (deposit w i d spark) c := by
  obtain ⟨depot, hdepot⟩ := List.exists_getElem? hd
  obtain ⟨store, hstore⟩ := List.exists_getElem? (hr.good.shape.length_depots ▸ hd)
  unfold deposit
  refine .sure ⟨depot, hdepot⟩ fun specification hspec => .get (.sure ⟨store, hstore⟩ fun store' hstore' => ?_)
  obtain rfl : store = store' := Option.some.inj (hstore.symm.trans hstore')
  have h₀ : Moves w .acting c .acting c := .refl hr.sound
  refine .guard h₀ fun hcapacity => .charge h₀ fun m₁ h₁ _ => .set (.set ?_)
  have hmove := h₁.change (.deposit hcell hcargo hspec hstore (by simpa using hcapacity)) rfl rfl rfl
  -- the report reads the spark that was just stored
  have hreads : Reads ((c.state.modifyCell i fun c => { c with cargo := none }).modifyDepot d (.push spark))
      spark.bit (some spark.id) := by
    have hstored : ((c.state.modifyCell i fun c => { c with cargo := none }).modifyDepot d (.push spark)).depots[d]? =
        some (store.push spark) := by
      simp [State.modifyDepot, State.modifyCell, hstore]
    exact .deposit hstored (by simp [SparkStore.push])
  exact .call (emit_acts (hmove.ready hr) hreads) hmove fun _ c' h _ => .pure (hmove.trans h) trivial

theorem deliverHere_acts {b : Nat} {cell : CellState} {spark : Spark} (hr : Ready w c)
    (hcell : c.state.cells[i]? = some cell) (hcargo : cell.cargo = some spark) (hb : b < w.beacons.length) :
    Acts w (deliverHere w i b spark) c := by
  obtain ⟨beacon, hbeacon⟩ := List.exists_getElem? hb
  have h₀ : Moves w .acting c .acting c := .refl hr.sound
  unfold deliverHere
  refine .sure ⟨beacon, hbeacon⟩ fun specification hspec => .guard h₀ fun haccept => ?_
  refine credit_within h₀ hr hspec fun meter entry charge delivered h he hcharge hdelivered => ?_
  refine .last (.set (.pure ?_ trivial))
  exact h.change (.deliverHere hcell hcargo hspec he (by simpa using haccept) hcharge hdelivered) rfl rfl rfl

theorem drop_acts (hr : Ready w c) (hi : i < w.cells.length) : Acts w (drop w i) c := by
  unfold drop
  refine .charge (.refl hr.sound) fun m₁ h₁ _ => .get (.sure (hr.good.shape.cell_at hi) fun cell hcell => ?_)
  refine .okOr h₁ fun spark hcargo => ?_
  cases hd : w.depots.findIdx? (·.position == cell.position) with
  | some d =>
    exact .last (.call (deposit_acts (h₁.ready hr) hcell hcargo (List.findIdx?_lt hd)) h₁ fun _ _ h _ =>
      .pure (h₁.trans h) trivial)
  | none =>
    cases hb : w.beacons.findIdx? (·.position == cell.position) with
    | some b =>
      exact .last (.call (deliverHere_acts (h₁.ready hr) hcell hcargo (List.findIdx?_lt hb)) h₁ fun _ _ h _ =>
        .pure (h₁.trans h) trivial)
    | none => exact .throw h₁

theorem writeMemory_acts {slot : Slot} {value : UInt8} (hr : Ready w c) (hi : i < w.cells.length) :
    Acts w (writeMemory i slot value) c := by
  unfold writeMemory
  refine .charge (.refl hr.sound) fun m₁ h₁ _ => .get (.sure (hr.good.shape.cell_at hi) fun cell _ => ?_)
  exact .last (.set (.pure (h₁.change (.write i slot value) rfl rfl rfl) trivial))

theorem takeMessage_acts {port : Port} {slot : Slot} (hr : Ready w c) (hi : i < w.cells.length) :
    Acts w (takeMessage i port slot) c := by
  unfold takeMessage
  refine .charge (.refl hr.sound) fun m₁ h₁ _ => .get (.sure (hr.good.shape.cell_at hi) fun cell hcell => ?_)
  refine .okOr h₁ fun signal hsignal => .charge h₁ fun m₂ h₂ _ => .charge h₂ fun m₃ h₃ _ => ?_
  exact .set (.last (.record (.pure (h₃.recorded (.take port slot hcell hsignal) rfl rfl rfl) trivial)))

theorem readBit_within {bit : BitSource} {cell : CellState} (hr : Ready w c) (hcell : c.state.cells[i]? = some cell) :
    Within w .acting c (readBit cell bit) .acting (fun r c' => c'.state = c.state ∧ Reads c.state r.1 r.2) c := by
  cases bit with
  | constant value =>
    exact .charge (.refl hr.sound) fun m₁ h₁ _ => .pure h₁ ⟨rfl, .constant value⟩
  | memory slot =>
    exact .charge (.refl hr.sound) fun m₁ h₁ _ => .pure h₁ ⟨rfl, .memory slot hcell⟩
  | message port =>
    exact .charge (.refl hr.sound) fun m₁ h₁ _ => .okOr h₁ fun signal hs => .pure h₁ ⟨rfl, .message port hcell hs⟩

theorem send_acts {port : Port} {bit : BitSource} (hr : Ready w c) (hi : i < w.cells.length) :
    Acts w (send w i port bit) c := by
  unfold send
  refine .get (.sure (hr.good.shape.cell_at hi) fun cell hcell => ?_)
  refine .call (readBit_within hr hcell) (.refl hr.sound) fun r c₁ h₁ hI => ?_
  refine .call (emit_acts (h₁.ready hr) (hI.1 ▸ hI.2)) h₁ fun accepted c₂ h₂ _ => ?_
  exact .guard_last (h₁.trans h₂)

theorem route_acts {valve : ValveId} {bit : BitSource} (hr : Ready w c) (hi : i < w.cells.length) :
    Acts w (route w i valve bit) c := by
  unfold route
  refine .get (.sure (hr.good.shape.cell_at hi) fun cell hcell => ?_)
  refine .call (readBit_within hr hcell) (.refl hr.sound) fun r c₁ h₁ hI => ?_
  refine .charge h₁ fun m₂ h₂ _ => .okOr h₂ fun v hv => ?_
  have hlt := List.findIdx?_lt hv
  refine .sure (List.exists_getElem? hlt) fun specification hspec => .guard h₂ fun _ => ?_
  refine .sure (List.exists_getElem? (hr.good.shape.length_valves ▸ hlt)) fun entry _ => .guard h₂ fun _ => ?_
  obtain ⟨hdepot, hzero, hone⟩ := w.valve_valid (List.mem_of_getElem? hspec)
  refine .sure (List.exists_findIdx? hdepot) fun d hd => ?_
  refine .sure (List.exists_getElem? (hr.good.shape.length_depots ▸ List.findIdx?_lt hd)) fun store hstore => ?_
  refine .okOr h₂ fun spark hspark => ?_
  have htarget : (if r.1 then specification.beaconOne else specification.beaconZero) ∈ w.beacons.map (·.id) := by
    split <;> assumption
  refine .sure (List.exists_findIdx? htarget) fun b hb => ?_
  refine .sure (List.exists_getElem? (List.findIdx?_lt hb)) fun target htarget => .guard h₂ fun haccept => ?_
  refine credit_within h₂ (h₂.ready hr) htarget fun meter beacon charge delivered h he hcharge hdelivered => ?_
  refine .last (.set (.pure ?_ trivial))
  refine h.change (.route ?_ hspark htarget he (by simpa using haccept) hcharge hdelivered) rfl rfl rfl
  show c₁.state.depots[d]? = some store
  rw [hI.1]
  exact hstore

theorem execute_acts {action : Action} (hr : Ready w c) (hi : i < w.cells.length) : Acts w (execute w i action) c := by
  unfold execute
  refine .charge (.refl hr.sound) fun m₁ h₁ _ => .last ?_
  have hr₁ := h₁.ready hr
  have done : ∀ {m : VmM Unit}, Acts w m { c with meter := m₁ } →
      Within w .acting c (m >>= pure) .acting (fun _ _ => True) { c with meter := m₁ } := fun hm =>
    .call hm h₁ fun _ _ h _ => .pure (h₁.trans h) trivial
  cases action with
  | wait => exact done (.pure (.refl hr₁.sound) trivial)
  | move direction => exact done (move_acts hr₁ hi)
  | turn direction => exact done (turn_acts hr₁ hi)
  | pickup => exact done (pickup_acts hr₁ hi)
  | drop => exact done (drop_acts hr₁ hi)
  | writeMemory slot value => exact done (writeMemory_acts hr₁ hi)
  | takeMessage port slot => exact done (takeMessage_acts hr₁ hi)
  | send port bit => exact done (send_acts hr₁ hi)
  | route valve bit => exact done (route_acts hr₁ hi)

/-! ### Rule selection

Sensors and memory are read from the committed state; only the meter moves. -/

theorem checkCondition_within {s : State} {cell : CellState} {condition : Condition}
    (h : Moves w .acting c₀ .acting c) (hcell : s.cells[i]? = some cell) :
    Within w .acting c₀ (checkCondition w s i condition) .acting (fun _ c' => c'.state = c.state) c := by
  unfold checkCondition
  refine .charge h fun m₁ h₁ _ => .sure ⟨cell, hcell⟩ fun cell' _ => ?_
  cases condition with
  | memory slot value => exact .charge h₁ fun m₂ h₂ _ => .pure h₂ rfl
  | _ => exact .charge h₁ fun m₂ h₂ _ => .pure h₂ rfl

theorem allHold_within {s : State} {cell : CellState} {conditions : List Condition}
    (h : Moves w .acting c₀ .acting c) (hcell : s.cells[i]? = some cell) :
    Within w .acting c₀ (allHold w s i conditions) .acting (fun _ c' => c'.state = c.state) c := by
  induction conditions generalizing c with
  | nil => exact .pure h rfl
  | cons condition rest ih =>
    unfold allHold
    refine .bind ((checkCondition_within h hcell).post (fun b c₁ hb => ?_) fun _ _ he => he)
    cases b with
    | false => exact .pure hb.1 hb.2
    | true => exact (ih hb.1).mono fun _ c' hc => hc.trans hb.2

theorem selectRule_within {s : State} {cell : CellState} {n : Nat} {rules : List Rule}
    (h : Moves w .acting c₀ .acting c) (hcell : s.cells[i]? = some cell) :
    Within w .acting c₀ (selectRule w s i n rules) .acting (fun selected c' => c'.state = c.state ∧
      ∀ x, selected = some x → x.1 < n + rules.length ∧ x.2 ∈ rules) c := by
  induction rules generalizing n c with
  | nil => exact .pure h ⟨rfl, by simp⟩
  | cons rule rest ih =>
    unfold selectRule
    refine .charge h fun m₁ h₁ _ => ?_
    refine .bind ((allHold_within h₁ hcell).post (fun b c₁ hb => ?_) fun _ _ he => he)
    cases b with
    | false =>
      refine (ih (n := n + 1) hb.1).mono fun selected c' hc => ⟨hc.1.trans hb.2, fun x hx => ?_⟩
      obtain ⟨hlt, hmem⟩ := hc.2 x hx
      exact ⟨by rw [List.length_cons]; omega, List.mem_cons_of_mem _ hmem⟩
    | true =>
      refine .pure hb.1 ⟨hb.2, fun x hx => ?_⟩
      cases hx
      exact ⟨by rw [List.length_cons]; omega, List.mem_cons_self ..⟩

theorem choose_within {s : State} {cell : CellState} (program : Program) (h : Moves w .acting c₀ .acting c)
    (hcell : s.cells[i]? = some cell) :
    Within w .acting c₀ (choose w program s i) .acting (fun _ c' => c'.state = c.state) c := by
  unfold choose
  refine .charge h fun m₁ h₁ _ => ?_
  refine .bind ((selectRule_within h₁ hcell).post (fun selected c₁ hs => ?_) fun _ _ he => he)
  obtain ⟨hmove, hstate, hselected⟩ := hs
  cases selected with
  | none => exact .pure hmove hstate
  | some x =>
    obtain ⟨n, rule⟩ := x
    have hn : n < 256 := by
      have := (hselected _ rfl).1
      have hbound : program.rules.length ≤ 32 := program.bounded
      simp only at this
      omega
    exact .sure ⟨_, if_pos hn⟩ fun number _ => .pure hmove hstate

/-! ### Activations -/

theorem writeRemember_acts {remember : Option MemoryWrite} (hr : Ready w c) (hi : i < w.cells.length) :
    Acts w (writeRemember i remember) c := by
  cases remember with
  | none => exact .pure (.refl hr.sound) trivial
  | some write => exact writeMemory_acts hr hi

theorem perform_acts (action : Action) (remember : Option MemoryWrite) (hr : Ready w c) (hi : i < w.cells.length) :
    Acts w (perform w i action remember) c := by
  unfold perform
  refine .bind ((wp_attempt ..).2 ((execute_acts hr hi).post (fun u c₁ h => ?_) fun e c₁ he => ⟨fun d hd => ?_, ?_⟩))
  · exact .call (writeRemember_acts (h.1.ready hr) hi) h.1 fun _ c₂ h' _ => .pure (h.1.trans h') trivial
  · exact .call (writeRemember_acts (he.2.ready hr) hi) he.2 fun _ c₂ h' _ => .throw (he.2.trans h')
  · exact fun _ => he

theorem runActivation_acts (program : Program) (record : Activation) (hr : Ready w c) (hi : i < w.cells.length) :
    Post (fun _ c' => Moves w .acting c .acting c') (fun e c' => e.settled .acting = true ∧ Moves w .acting c .acting c')
      (runActivation w program c.state i record c).1.1 (runActivation w program c.state i record c).2 := by
  obtain ⟨cell, hcell⟩ := hr.good.shape.cell_at hi
  have hstart : Moves w .acting c .acting c := .refl hr.sound
  have hchoose := choose_within program hstart hcell
  unfold Within wp at hchoose
  unfold runActivation
  generalize exec (choose w program c.state i) c = r at hchoose
  rcases r with ⟨e | selected, c₁⟩
  · exact hchoose
  · have hperform := perform_acts ((selected.map (·.2.action)).getD .wait)
      (selected.bind (·.2.remember)) (hchoose.1.ready hr) hi
    exact hperform.post (fun _ _ h => hchoose.1.trans h.1) fun _ _ he => ⟨he.1, hchoose.1.trans he.2⟩

end

end Valhalla.Witness
