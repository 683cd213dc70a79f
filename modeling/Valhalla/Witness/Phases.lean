import Valhalla.Witness.Moves

/-!
# The phases of a tick

Expiry, scheduled events, delivery and draining, each as a run of changes of its stage. A phase that
returns has done all its work: no inbox holds a signal after expiry, nothing due is queued after
delivery, and every beacon has been visited once after draining.
-/

namespace Valhalla.Witness
open Fallible FixedWidth

section
variable {w : World} {c c₀ : Ctx} {i : Nat}

/-! ### Expiry -/

/-- The inbox port is empty. -/
def State.Cleared (s : State) (i : Nat) (port : Fin ports) : Prop :=
  ∀ cell, s.cells[i]? = some cell → cell.signalAt port = none

theorem State.Cleared.setInbox {s : State} {j : Nat} {p : Fin ports} (h : s.Cleared j p) (port : Fin ports) :
    (s.modifyCell i (·.setInbox ⟨port⟩ none)).Cleared j p := by
  intro cell hcell
  simp only [modifyCell, List.getElem?_modify, Option.map_eq_map, Option.map_eq_some_iff] at hcell
  obtain ⟨cell', hcell', rfl⟩ := hcell
  split
  · rw [inbox_setInbox]
    split
    · rfl
    · exact h cell' hcell'
  · exact h cell' hcell'

theorem State.cleared_setInbox {s : State} {port : Fin ports} :
    (s.modifyCell i (·.setInbox ⟨port⟩ none)).Cleared i port := by
  intro cell hcell
  simp only [modifyCell, List.getElem?_modify, Option.map_eq_map, Option.map_eq_some_iff, if_true] at hcell
  obtain ⟨cell', -, rfl⟩ := hcell
  rw [inbox_setInbox, if_pos rfl]

theorem expirePort_within {port : Fin ports} (h : Moves w .expiring c₀ .expiring c)
    (hi : ∃ cell, c.state.cells[i]? = some cell) :
    Within w .expiring c₀ (expirePort i port) .expiring (fun _ c' => c'.state.Cleared i port ∧
      ∀ j p, c.state.Cleared j p → c'.state.Cleared j p) c := by
  unfold expirePort
  refine .get (.sure hi fun cell hcell => ?_)
  cases hs : cell.signalAt port with
  | none =>
    refine .pure h ⟨fun cell' hcell' => ?_, fun _ _ hp => hp⟩
    obtain rfl : cell = cell' := Option.some.inj (hcell.symm.trans hcell')
    exact hs
  | some signal =>
    refine .charge h fun m₁ h₁ _ => .record (.last (.set (.pure ?_ ⟨?_, ?_⟩)))
    · exact h₁.recorded (.expire port hcell hs) rfl rfl rfl
    · exact State.cleared_setInbox
    · exact fun j p hp => hp.setInbox port

theorem expireInboxes_within (hr : Ready w c) :
    Within w .expiring c expireInboxes .scheduled (fun _ _ => True) c := by
  have houter : Within w .expiring c
      (forM (List.range c.state.cells.length) fun i => forM (List.finRange ports) (expirePort i)) .expiring
      (fun _ c' => ∀ i ∈ List.range c.state.cells.length, ∀ port, c'.state.Cleared i port) c := by
    refine .forM (K := fun done c' => ∀ i ∈ done, ∀ port, c'.state.Cleared i port) ?_ (.refl hr.sound) (by simp)
    intro done i rest hl c₁ h₁ hdone
    have hi : i < w.cells.length := by
      rw [← hr.good.shape.length_cells]
      exact List.mem_range.1 (hl ▸ by simp)
    refine .mono (.forM (K := fun ports c' => (∀ i ∈ done, ∀ port, c'.state.Cleared i port) ∧
      ∀ port ∈ ports, c'.state.Cleared i port) ?_ h₁ ⟨hdone, by simp⟩) ?_
    · rintro ports port rest' - c₂ h₂ ⟨hdone₂, hports⟩
      refine (expirePort_within h₂ ((h₂.ready hr).good.shape.cell_at hi)).mono fun _ c₃ ⟨hcleared, hkept⟩ => ?_
      refine ⟨fun j hj p => hkept j p (hdone₂ j hj p), fun p hp => ?_⟩
      rcases List.mem_append.1 hp with hp | hp
      · exact hkept i p (hports p hp)
      · exact List.mem_singleton.1 hp ▸ hcleared
    · rintro - c₂ ⟨hdone₂, hports⟩ j hj p
      rcases List.mem_append.1 hj with hj | hj
      · exact hdone₂ j hj p
      · exact List.mem_singleton.1 hj ▸ hports p (List.mem_finRange p)
  unfold expireInboxes
  refine .get (houter.post (fun _ c' h => ⟨?_, trivial⟩) fun _ _ he => he)
  refine h.1.change (s := c'.state) (.expired fun cell hcell port => ?_) rfl rfl rfl
  obtain ⟨i, hi⟩ := List.mem_iff_getElem?.1 hcell
  refine h.2 i ?_ port cell hi
  rw [List.mem_range, hr.good.shape.length_cells, ← (h.1.ready hr).good.shape.length_cells]
  exact (List.getElem?_eq_some_iff.1 hi).1

/-! ### Scheduled events -/

theorem exists_setEnabled {entries : List EnabledState} {id : UInt16} {enabled : Bool}
    (h : id ∈ entries.map (·.id)) : ∃ entries', setEnabled entries id enabled = some entries' := by
  obtain ⟨i, hi⟩ := List.exists_findIdx? h
  exact ⟨_, by rw [setEnabled, hi]; rfl⟩

theorem setEnabled_missing {entries : List EnabledState} {id : UInt16} {enabled : Bool}
    (h : id ∉ entries.map (·.id)) : setEnabled entries id enabled = none := by
  rw [setEnabled, List.findIdx?_missing h]
  rfl

theorem applyEvent_within {event : EventKind} (hr : Ready w c) (he : event.exists w = true) :
    Within w .scheduled c (applyEvent event) .scheduled (fun _ _ => True) c := by
  have hshape := hr.good.shape
  cases event with
  | linkEnabled id enabled =>
    have hid : id ∈ c.state.links.map (·.id) := by rw [hshape.links]; simpa [EventKind.exists] using he
    refine .charge (.refl hr.sound) fun m₁ h₁ _ => .charge h₁ fun m₂ h₂ _ => .get ?_
    exact .sure (exists_setEnabled hid) fun links hl => .last (.set (.pure (h₂.change (.linkEnabled hl) rfl rfl rfl) trivial))
  | valveEnabled id enabled =>
    have hid : id ∈ c.state.valves.map (·.id) := by rw [hshape.valves]; simpa [EventKind.exists] using he
    refine .charge (.refl hr.sound) fun m₁ h₁ _ => .charge h₁ fun m₂ h₂ _ => .get ?_
    exact .sure (exists_setEnabled hid) fun valves hv => .last (.set (.pure (h₂.change (.valveEnabled hv) rfl rfl rfl) trivial))
  | clearMemory cell =>
    have hid : cell ∈ c.state.cells.map (·.id) := by rw [hshape.cells]; simpa [EventKind.exists] using he
    refine .charge (.refl hr.sound) fun m₁ h₁ _ => .charge h₁ fun m₂ h₂ _ => .get ?_
    exact .sure (List.exists_findIdx? hid) fun i _ => .last (.set (.pure (h₂.change (.clearMemory i) rfl rfl rfl) trivial))

theorem charges_then_missing {first second : Category} {m n : UInt64} {f : State → VmM Unit} (hr : Ready w c)
    (hf : f c.state = throw (.internal .invariant)) :
    wp (VmM.charge first m >>= fun _ => VmM.charge second n >>= fun _ => VmM.getState >>= f)
      (Post (fun _ _ => False) fun e c' => e = .internal .invariant ∨
        (e.settled .scheduled = true ∧ Moves w .scheduled c .scheduled c')) c := by
  have h₀ : Moves w .scheduled c .scheduled c := .refl hr.sound
  refine (wp_bind _).2 (VmM.wp_charge hr.sound (fun m₁ hm₁ _ => ?_) fun m₁ _ hm₁ => ?_)
  · rw [Post_ok]
    refine (wp_bind _).2 (VmM.wp_charge (c := { c with meter := m₁ }) hm₁.sound (fun m₂ hm₂ _ => ?_)
      fun m₂ _ hm₂ => ?_)
    · rw [Post_ok, wp_bind, VmM.getState, wp_view, Post_ok, hf]
      exact .inl rfl
    · exact .inr ⟨rfl, (h₀.charged hm₁).charged hm₂⟩
  · exact .inr ⟨rfl, h₀.charged hm₁⟩

/-- An event whose target is missing ends the run, unless a stop came first. -/
theorem applyEvent_missing {event : EventKind} (hr : Ready w c) (he : event.exists w = false) :
    wp (applyEvent event) (Post (fun _ _ => False) fun e c' => e = .internal .invariant ∨
      (e.settled .scheduled = true ∧ Moves w .scheduled c .scheduled c')) c := by
  have hshape := hr.good.shape
  cases event with
  | linkEnabled id enabled =>
    have hid : id ∉ c.state.links.map (·.id) := by rw [hshape.links]; simpa [EventKind.exists] using he
    exact charges_then_missing hr (by rw [setEnabled_missing hid]; rfl)
  | valveEnabled id enabled =>
    have hid : id ∉ c.state.valves.map (·.id) := by rw [hshape.valves]; simpa [EventKind.exists] using he
    exact charges_then_missing hr (by rw [setEnabled_missing hid]; rfl)
  | clearMemory cell =>
    have hid : cell ∉ c.state.cells.map (·.id) := by rw [hshape.cells]; simpa [EventKind.exists] using he
    exact charges_then_missing hr (by rw [List.findIdx?_missing hid]; rfl)

/-! ### Delivery -/

theorem exec_receive {recipient : Nat} {signal : Signal} (outcome : SignalOutcome) :
    exec (receive recipient signal outcome) c = (.ok (), { c with
      state := if outcome = .delivered then
          c.state.modifyCell recipient (·.setInbox signal.toPort (some signal)) else c.state }) := by
  unfold receive
  split <;> rfl

theorem dueOutcome_cases {enabled : Bool} {origin recipient : Point} {inbox : Option Signal} {outcome : SignalOutcome}
    (h : dueOutcome enabled origin recipient inbox = outcome) :
    (outcome = .delivered ∧ inbox = none) ∨ outcome.ofRefusal = true := by
  subst h
  unfold dueOutcome
  cases inbox <;> (repeat' split) <;> simp_all [SignalOutcome.ofRefusal]

theorem deliverAt_within {k : Nat} {signal : Signal} (h : Moves w .delivering c₀ .delivering c) (hr : Ready w c)
    (hk : c.state.pending[k]? = some signal) (hdue : ¬ c.state.tick < signal.deliverTick) :
    Within w .delivering c₀ (deliverAt w k signal) .delivering
      (fun _ c' => c'.state.pending = c.state.pending.eraseIdx k) c := by
  obtain ⟨link, hlink, hfrom⟩ := hr.good.linked signal (.inl (List.mem_of_getElem? hk))
  have hshape := hr.good.shape
  have hlinkId : signal.link ∈ c.state.links.map (·.id) := by
    rw [hshape.links, hfrom.carrier]
    exact List.mem_map_of_mem hlink
  have hcellId : signal.toCell ∈ c.state.cells.map (·.id) := by
    rw [hshape.cells, hfrom.toCell]
    exact (w.link_valid hlink).1
  unfold deliverAt
  refine .charge h fun m₁ h₁ _ => .charge h₁ fun m₂ h₂ _ => .set (.get ?_)
  refine .sure (List.exists_find? hlinkId) fun entry _ => .sure (List.exists_findIdx? hcellId) fun r hrecipient => ?_
  refine .sure (hfrom.origin ▸ hshape.originPosition hlink) fun origin _ => ?_
  refine .sure (List.exists_getElem? (List.findIdx?_lt hrecipient)) fun cell hcell => ?_
  generalize ho : dueOutcome entry.enabled origin cell.position (cell.signalAt signal.toPort.index) = outcome
  refine .bind ?_
  rw [wp, exec_receive]
  rcases dueOutcome_cases ho with ⟨rfl, hempty⟩ | hrefused
  · exact .last (.record (.pure (h₂.recorded (.deliver hk hdue hcell hempty) rfl rfl rfl) rfl))
  · have hne : outcome ≠ .delivered := by rintro rfl; cases hrefused
    simp only [hne, if_false]
    exact .last (.record (.pure (h₂.recorded (.refuse hk hdue hrefused) rfl rfl rfl) rfl))

theorem deliverFrom_within {tick : UInt32} (kept : List Signal) {remaining : List Signal} (hr : Ready w c₀)
    (ht : c₀.state.tick = tick) (h : Moves w .delivering c₀ .delivering c)
    (hp : c.state.pending = kept ++ remaining) (hkept : ∀ signal ∈ kept, tick < signal.deliverTick) :
    Within w .delivering c₀ (deliverFrom w tick kept.length remaining) .delivering
      (fun _ c' => ∀ signal ∈ c'.state.pending, tick < signal.deliverTick) c := by
  induction remaining generalizing kept c with
  | nil =>
    rw [List.append_nil] at hp
    exact .pure h (hp ▸ hkept)
  | cons signal remaining ih =>
    unfold deliverFrom
    split
    · rename_i hlater
      have := ih (kept ++ [signal]) h (by simpa using hp) fun s hs => by
        rcases List.mem_append.1 hs with hs | hs
        · exact hkept s hs
        · exact List.mem_singleton.1 hs ▸ hlater
      simpa using this
    · rename_i hdue
      have hk : c.state.pending[kept.length]? = some signal := by simp [hp]
      refine .bind ((deliverAt_within h (h.ready hr) hk (by rwa [h.tick, ht])).post (fun _ c₁ hI => ?_) fun _ _ he => he)
      refine ih kept hI.1 ?_ hkept
      rw [hI.2, hp]
      simp [List.eraseIdx_append_of_length_le]

/-- Delivery leaves only signals for later ticks in the queue. -/
theorem deliverDue_within (hr : Ready w c) :
    Within w .delivering c (deliverDue w c.state.tick) .acting (fun _ _ => True) c := by
  unfold deliverDue
  refine .get ((deliverFrom_within [] hr rfl (.refl hr.sound) rfl (by simp)).post (fun _ c' h => ⟨?_, trivial⟩)
    fun _ _ he => he)
  refine h.1.change (s := c'.state) (.delivered fun signal hs => ?_) rfl rfl rfl
  rw [h.1.tick]
  exact h.2 signal hs

/-! ### Draining -/

theorem drainBeacon_within {b : Nat} {beacon : Beacon} (hr : Ready w c) (hb : w.beacons[b]? = some beacon) :
    Within w (.draining b) c (drainBeacon c.state.tick (beacon, b)) (.draining (b + 1)) (fun _ _ => True) c := by
  have hevery : 1 ≤ beacon.drainEvery.toNat := (w.beacon_valid (List.mem_of_getElem? hb)).2.1
  obtain ⟨entry, hentry⟩ := List.exists_getElem? (hr.good.shape.length_beacons ▸ (List.getElem?_eq_some_iff.1 hb).1)
  obtain ⟨hcharge, -⟩ := hr.good.entry_le hb hentry
  unfold drainBeacon
  refine .charge (.refl hr.sound) fun m₁ h₁ _ => ?_
  refine .sure (checkedRem_isSome (by simp; omega)) fun phase hphase => ?_
  split
  · rename_i hzero
    subst hzero
    refine .charge h₁ fun m₂ h₂ _ => .get (.sure ⟨entry, hentry⟩ fun entry' hentry' => ?_)
    obtain rfl : entry = entry' := Option.some.inj (hentry.symm.trans hentry')
    have hleast : (least entry.charge beacon.drainAmount).toNat = min entry.charge.toNat beacon.drainAmount.toNat :=
      toNat_least (a := entry.charge) (b := beacon.drainAmount)
    refine .sure (checkedSub_isSome (by simp)) fun charge hcharge => ?_
    refine .sure (checkedAdd_isSome (by simp; omega)) fun drained hdrained => .last (.set (.pure ?_ trivial))
    exact h₂.change (.drain hb hphase hentry hcharge hdrained) rfl rfl rfl
  · rename_i hne
    exact .pure (h₁.change (.skip hb hphase hne) rfl rfl rfl) trivial

theorem drainBeacons_moves (hr : Ready w c) :
    wp (drainBeacons w c.state.tick) (Post (fun _ c' => Moves w (.draining 0) c .idle c') fun e c' =>
      (∃ reason, e = .stop reason) ∧ ∃ st, Moves w (.draining 0) c st c') c := by
  have hloop : wp (drainBeacons w c.state.tick) (Post
      (fun _ c' => Moves w (.draining 0) c (.draining w.beacons.zipIdx.length) c') fun e c' =>
      (∃ reason, e = .stop reason) ∧ ∃ st, Moves w (.draining 0) c st c') c := by
    refine wp_forM (I := fun done c' => Moves w (.draining 0) c (.draining done.length) c') ?_ (.refl hr.sound)
    rintro done ⟨beacon, b⟩ rest hl c₁ h₁
    have hb : w.beacons[done.length]? = some beacon ∧ b = done.length := by
      have hx : w.beacons.zipIdx[done.length]? = some (beacon, b) := by simp [hl]
      simpa [List.getElem?_zipIdx, and_comm, eq_comm] using hx
    obtain ⟨hb, rfl⟩ := hb
    have hdrain := drainBeacon_within (h₁.ready hr) hb
    rw [h₁.tick] at hdrain
    refine hdrain.post (fun _ c₂ h₂ => ?_) fun e c₂ he => ⟨?_, _, h₁.trans he.2⟩
    · rw [List.length_append]
      exact h₁.trans h₂.1
    · cases e with
      | stop reason => exact ⟨reason, rfl⟩
      | action error => cases he.1
      | internal error => cases he.1
  rw [List.length_zipIdx] at hloop
  exact hloop.post (fun _ c' h => h.change (s := c'.state) .finish rfl rfl rfl) fun _ _ he => he

end

end Valhalla.Witness
