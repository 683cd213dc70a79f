import Valhalla.Witness.Held

/-!
# The life of a signal

A signal is emitted, possibly queued, removed from the queue when it is due, and if it was delivered it
is consumed in that tick or expires at the start of the next one. Three invariants over the log and the
traffic say so: `Timed` (every entry and every waiting signal agrees with the signal's ticks), `Numbered`
(identifiers), and `Balanced` (what left the queue and the inboxes is what entered and is not there any
more, as multisets of signals). `Lifecycle` combines them, `History` says what a log then looks like.
-/

namespace Valhalla.Witness
open FixedWidth

/-! ### Times -/

def Entry.Stamped (x : Entry) : Prop :=
  x.2.signal.sentTick < x.2.signal.deliverTick ∧
    match x.2.outcome with
    | .queued => x.1 = x.2.signal.sentTick
    | .disabled | .notAdjacent | .full => x.1 = x.2.signal.sentTick ∨ x.1 = x.2.signal.deliverTick
    | .delivered | .consumed => x.1 = x.2.signal.deliverTick
    | .expired => x.1.toNat = x.2.signal.deliverTick.toNat + 1

/-- When a queued signal is due. -/
def Phase.Waiting (φ : Phase) (tick due : UInt32) : Prop :=
  match φ with
  | .settled => tick < due
  | _ => tick ≤ due

/-- When a signal in an inbox was due. -/
def Phase.Received (φ : Phase) (tick due : UInt32) : Prop :=
  match φ with
  | .expiring => tick.toNat = due.toNat + 1
  | .scheduled => False
  | .delivering | .settled => tick = due

structure Timed (log : List Entry) (p : Phase × Traffic) : Prop where
  stamped : ∀ x ∈ log, x.Stamped ∧ x.1 ≤ p.2.tick
  waiting : ∀ signal ∈ p.2.pending, signal.sentTick < signal.deliverTick ∧
    p.1.Waiting p.2.tick signal.deliverTick
  received : ∀ signal ∈ p.2.inbox, signal.sentTick < signal.deliverTick ∧
    p.1.Received p.2.tick signal.deliverTick
  first : log.Pairwise fun x y => x.1 = y.1 → y.2.outcome = .expired → x.2.outcome = .expired
  expiring : p.1 = .expiring → ∀ x ∈ log, x.1 = p.2.tick → x.2.outcome = .expired

namespace Timed
variable {log n : List Entry} {p q : Phase × Traffic}

theorem record {φ : Phase} {v v' : Traffic} {event : SignalEvent} (h : Timed log (φ, v))
    (hx : Entry.Stamped (v.tick, event)) (htick : v'.tick = v.tick)
    (hphase : φ = .expiring ↔ event.outcome = .expired)
    (hwaiting : ∀ signal ∈ v'.pending, signal.sentTick < signal.deliverTick ∧
      φ.Waiting v.tick signal.deliverTick)
    (hreceived : ∀ signal ∈ v'.inbox, signal.sentTick < signal.deliverTick ∧
      φ.Received v.tick signal.deliverTick) :
    Timed (log ++ [(v.tick, event)]) (φ, v') where
  stamped := by
    intro x hm
    rw [htick]
    rcases List.mem_append.1 hm with hm | hm
    · exact h.stamped x hm
    · rw [List.mem_singleton.1 hm]
      exact ⟨hx, UInt32.le_refl _⟩
  waiting := by rw [htick]; exact hwaiting
  received := by rw [htick]; exact hreceived
  first := by
    refine List.pairwise_append.2 ⟨h.first, List.pairwise_singleton _ _, fun x hm y hy => ?_⟩
    rw [List.mem_singleton.1 hy]
    exact fun ht he => h.expiring (hphase.2 he) x hm ht
  expiring := by
    intro hφ x hm ht
    rcases List.mem_append.1 hm with hm | hm
    · exact h.expiring hφ x hm (ht.trans htick)
    · rw [List.mem_singleton.1 hm]
      exact hphase.1 hφ

theorem step (h : Timed log p) (hs : Traffic.Step p n q) : Timed (log ++ n) q := by
  cases hs with
  | quiet => simpa using h
  | @begin v tick ht =>
    have hnext := checkedAdd_eq_some.1 ht
    simp at hnext
    have hle : ∀ x ∈ log, x.1.toNat ≤ v.tick.toNat := fun x hm => (h.stamped x hm).2
    rw [List.append_nil]
    refine ⟨fun x hm => ⟨(h.stamped x hm).1, ?_⟩, fun signal hm => ⟨(h.waiting signal hm).1, ?_⟩,
      fun signal hm => ⟨(h.received signal hm).1, ?_⟩, h.first, fun _ x hm hx => ?_⟩
    · have := hle x hm
      exact UInt32.le_iff_toNat_le.2 (by simp only; omega)
    · have : v.tick.toNat < signal.deliverTick.toNat := (h.waiting signal hm).2
      exact UInt32.le_iff_toNat_le.2 (by simp only; omega)
    · have : v.tick = signal.deliverTick := (h.received signal hm).2
      simp only [Phase.Received, ← this, hnext]
    · have := hle x hm
      rw [hx] at this
      simp only at this
      omega
  | expired hin =>
    rw [List.append_nil]
    refine ⟨h.stamped, h.waiting, fun signal hm => ?_, h.first, fun hφ => by cases hφ⟩
    simp only [hin] at hm
    cases Multiset.notMem_zero _ hm
  | schedule =>
    rw [List.append_nil]
    exact ⟨h.stamped, h.waiting, fun signal hm => (h.received signal hm).2.elim, h.first, fun hφ => by cases hφ⟩
  | delivered hlate =>
    rw [List.append_nil]
    exact ⟨h.stamped, fun signal hm => ⟨(h.waiting signal hm).1, hlate signal hm⟩, h.received, h.first,
      fun hφ => by cases hφ⟩
  | @expire v signal inbox hin =>
    have hmem : signal ∈ v.inbox := by rw [← hin]; simp
    refine h.record (h.received signal hmem) rfl (by simp) h.waiting fun other hm => h.received other ?_
    show other ∈ v.inbox
    rw [← hin]
    exact Multiset.mem_add.2 (.inl hm)
  | @deliver v k signal hk hdue =>
    have hw := h.waiting signal (List.mem_of_getElem? hk)
    have ht : v.tick = signal.deliverTick := UInt32.le_antisymm hw.2 (UInt32.not_lt.1 hdue)
    refine h.record ⟨hw.1, ht⟩ rfl (by simp) (fun other hm => h.waiting other (List.mem_of_mem_eraseIdx hm))
      fun other hm => ?_
    rcases Multiset.mem_add.1 hm with hm | hm
    · exact h.received other hm
    · rw [Multiset.mem_singleton.1 hm]
      exact ⟨hw.1, ht⟩
  | @refuse v k signal outcome hk hdue ho =>
    have hw := h.waiting signal (List.mem_of_getElem? hk)
    have ht : v.tick = signal.deliverTick := UInt32.le_antisymm hw.2 (UInt32.not_lt.1 hdue)
    refine h.record ⟨hw.1, ?_⟩ rfl ?_ (fun other hm => h.waiting other (List.mem_of_mem_eraseIdx hm)) h.received
    all_goals cases outcome <;> simp_all [SignalOutcome.ofRefusal]
  | @take v signal inbox hin =>
    have hmem : signal ∈ v.inbox := by rw [← hin]; simp
    refine h.record (h.received signal hmem) rfl (by simp) h.waiting fun other hm => h.received other ?_
    show other ∈ v.inbox
    rw [← hin]
    exact Multiset.mem_add.2 (.inl hm)
  | @emit v signal next outcome hid hsent hdue hn ho =>
    refine h.record ⟨hdue, ?_⟩ rfl ?_ (fun other hm => ?_) h.received
    · cases outcome <;> simp_all [SignalOutcome.ofEmission]
    · cases outcome <;> simp_all [SignalOutcome.ofEmission]
    · simp only at hm
      split at hm
      · rcases List.mem_append.1 hm with hm | hm
        · exact h.waiting other hm
        · rw [List.mem_singleton.1 hm]
          exact ⟨hdue, hsent ▸ hdue⟩
      · exact h.waiting other hm

theorem not_emission {event : SignalEvent} {tick : UInt32} (hw : event.signal.sentTick < event.signal.deliverTick)
    (hdue : event.signal.deliverTick.toNat ≤ tick.toNat) : Entry.emission (tick, event) = false := by
  rw [UInt32.lt_iff_toNat_lt] at hw
  simp only [Entry.emission, beq_eq_false_iff_ne, ne_eq, ← UInt32.toNat_inj]
  omega

end Timed

/-! ### Identifiers -/

structure Numbered (log : List Entry) (v : Traffic) : Prop where
  ids : (emittedIds log).Pairwise (· < ·)
  fresh : ∀ id ∈ emittedIds log, id < v.next
  ordered : v.pending.Pairwise (·.id < ·.id)
  young : ∀ signal ∈ v.pending, signal.id < v.next

namespace Numbered
variable {log n : List Entry} {p q : Phase × Traffic}

theorem frame {v v' : Traffic} (h : Numbered log v) (hn : emittedIds (log ++ n) = emittedIds log)
    (hpending : v'.pending.Sublist v.pending) (hnext : v'.next = v.next) : Numbered (log ++ n) v' where
  ids := by rw [hn]; exact h.ids
  fresh := by rw [hn, hnext]; exact h.fresh
  ordered := h.ordered.sublist hpending
  young := by rw [hnext]; exact fun signal hm => h.young signal (hpending.mem hm)

theorem emittedIds_of_later {x : Entry} (h : x.emission = false) : emittedIds (log ++ [x]) = emittedIds log := by
  simp [emittedIds_concat, h]

theorem step (h : Numbered log p.2) (ht : Timed log p) (hs : Traffic.Step p n q) : Numbered (log ++ n) q.2 := by
  cases hs with
  | quiet | begin | expired | schedule | delivered => exact h.frame (by simp) (.refl _) rfl
  | @expire v signal inbox hin =>
    have hr : signal.sentTick < signal.deliverTick ∧ v.tick.toNat = signal.deliverTick.toNat + 1 :=
      ht.received signal (by rw [← hin]; simp)
    exact h.frame (emittedIds_of_later (Timed.not_emission hr.1 (by simp only; omega))) (.refl _) rfl
  | @deliver v k signal hk hdue | @refuse v k signal outcome hk hdue ho =>
    have hw := ht.waiting signal (List.mem_of_getElem? hk)
    exact h.frame (emittedIds_of_later (Timed.not_emission hw.1 (UInt32.not_lt.1 hdue)))
      (List.eraseIdx_sublist ..) rfl
  | @take v signal inbox hin =>
    have hr : signal.sentTick < signal.deliverTick ∧ v.tick = signal.deliverTick :=
      ht.received signal (by rw [← hin]; simp)
    exact h.frame (emittedIds_of_later (Timed.not_emission hr.1 (by rw [← hr.2]))) (.refl _) rfl
  | @emit v signal next outcome hid hsent hdue hn ho =>
    have hnext := checkedAdd_eq_some.1 hn
    simp at hnext
    have hlt : v.next < next := UInt64.lt_iff_toNat_lt.2 (by omega)
    have hemit : Entry.emission (v.tick, ⟨signal, outcome⟩) = true := by simp [Entry.emission, hsent]
    have hids : emittedIds (log ++ [(v.tick, ⟨signal, outcome⟩)]) = emittedIds log ++ [v.next] := by
      rw [emittedIds_concat, if_pos hemit]
      simp only [hid]
    have hyoung : ∀ other ∈ v.pending, other.id < next := fun other hm => UInt64.lt_trans (h.young other hm) hlt
    refine ⟨?_, ?_, ?_, ?_⟩
    · rw [hids]
      exact List.pairwise_append.2 ⟨h.ids, List.pairwise_singleton _ _, fun id hm id' hm' => by
        rw [List.mem_singleton.1 hm']; exact h.fresh id hm⟩
    · rw [hids]
      intro id hm
      rcases List.mem_append.1 hm with hm | hm
      · exact UInt64.lt_trans (h.fresh id hm) hlt
      · rw [List.mem_singleton.1 hm]; exact hlt
    · simp only
      split
      · exact List.pairwise_append.2 ⟨h.ordered, List.pairwise_singleton _ _, fun other hm new hnew => by
          rw [List.mem_singleton.1 hnew, hid]; exact h.young other hm⟩
      · exact h.ordered
    · simp only
      split
      · intro other hm
        rcases List.mem_append.1 hm with hm | hm
        · exact hyoung other hm
        · rw [List.mem_singleton.1 hm, hid]; exact hlt
      · exact hyoung

end Numbered

/-! ### Balance -/

theorem Entry.of_refusal {x : Entry} (h : x.2.outcome.ofRefusal = true) :
    x.queued = false ∧ x.delivery = false ∧ x.ending = false := by
  obtain ⟨t, signal, outcome⟩ := x
  cases outcome <;> simp_all [SignalOutcome.ofRefusal, queued, delivery, ending]

theorem Entry.of_emission {x : Entry} (h : x.2.outcome.ofEmission = true) (he : x.emission = true) :
    x.removal = false ∧ x.delivery = false ∧ x.ending = false := by
  obtain ⟨t, signal, outcome⟩ := x
  cases outcome <;> simp_all [SignalOutcome.ofEmission, removal, delivery, ending]

structure Balanced (log : List Entry) (v : Traffic) : Prop where
  queue : signalsOf Entry.queued log = signalsOf Entry.removal log + v.pending
  inbox : signalsOf Entry.delivery log = signalsOf Entry.ending log + v.inbox

namespace Balanced
variable {log n : List Entry} {p q : Phase × Traffic}

theorem coe_eraseIdx {k : Nat} {signal : Signal} {pending : List Signal} (hk : pending[k]? = some signal) :
    ((pending.eraseIdx k : List Signal) : Multiset Signal) + {signal} = pending := by
  obtain ⟨hlt, rfl⟩ := List.getElem?_eq_some_iff.1 hk
  rw [← Multiset.coe_singleton, Multiset.coe_add, Multiset.coe_eq_coe]
  exact (List.perm_append_singleton _ _).trans (List.getElem_cons_eraseIdx_perm hlt)

theorem step (h : Balanced log p.2) (ht : Timed log p) (hs : Traffic.Step p n q) : Balanced (log ++ n) q.2 := by
  cases hs with
  | quiet | begin | expired | schedule | delivered =>
    rw [List.append_nil]
    exact ⟨h.queue, h.inbox⟩
  | @expire v signal inbox hin | @take v signal inbox hin =>
    refine ⟨?_, ?_⟩
    · simpa [signalsOf_concat, Entry.queued, Entry.removal, SignalOutcome.ofRefusal] using h.queue
    · have := h.inbox
      simp only [← hin] at this
      simp [signalsOf_concat, Entry.delivery, Entry.ending, this]
      abel
  | @deliver v k signal hk hdue =>
    refine ⟨?_, ?_⟩
    · have := h.queue
      simp only [← coe_eraseIdx hk] at this
      simp [signalsOf_concat, Entry.queued, Entry.removal, this]
      abel
    · have := h.inbox
      simp [signalsOf_concat, Entry.delivery, Entry.ending, this]
      abel
  | @refuse v k signal outcome hk hdue ho =>
    have hw := ht.waiting signal (List.mem_of_getElem? hk)
    have hlater : Entry.emission (v.tick, ⟨signal, outcome⟩) = false :=
      Timed.not_emission hw.1 (UInt32.not_lt.1 hdue)
    have hr : Entry.removal (v.tick, ⟨signal, outcome⟩) = true := by simp [Entry.removal, hlater, ho]
    obtain ⟨hq, hd, he⟩ := Entry.of_refusal (x := (v.tick, ⟨signal, outcome⟩)) ho
    refine ⟨?_, ?_⟩
    · have := h.queue
      simp only [← coe_eraseIdx hk] at this
      simp [signalsOf_concat, hq, hr, this]
      abel
    · simpa [signalsOf_concat, hd, he] using h.inbox
  | @emit v signal next outcome hid hsent hdue hn ho =>
    have hemit : Entry.emission (v.tick, ⟨signal, outcome⟩) = true := by simp [Entry.emission, hsent]
    obtain ⟨hr, hd, he⟩ := Entry.of_emission (x := (v.tick, ⟨signal, outcome⟩)) ho hemit
    refine ⟨?_, by simpa [signalsOf_concat, hd, he] using h.inbox⟩
    by_cases hq : outcome = .queued
    · subst hq
      simp [signalsOf_concat, Entry.queued, hr, h.queue, ← Multiset.coe_add, add_assoc]
    · simp [signalsOf_concat, Entry.queued, hr, hq, h.queue]

end Balanced

/-! ### The whole invariant -/

structure Lifecycle (log : List Entry) (p : Phase × Traffic) : Prop where
  timed : Timed log p
  numbered : Numbered log p.2
  balanced : Balanced log p.2

namespace Lifecycle
variable {log n : List Entry} {p q : Phase × Traffic}

theorem step (h : Lifecycle log p) (hs : Traffic.Step p n q) : Lifecycle (log ++ n) q :=
  ⟨h.timed.step hs, h.numbered.step h.timed hs, h.balanced.step h.timed hs⟩

theorem inboxSignals_initial (w : World) : inboxSignals (State.initial w).cells = 0 := by
  refine Multiset.eq_zero_of_forall_notMem fun signal hs => ?_
  obtain ⟨cell, hc, port, hp⟩ := mem_inboxSignals.1 hs
  simp only [State.initial, List.mem_map] at hc
  obtain ⟨body, -, rfl⟩ := hc
  simp at hp

theorem initial (w : World) : Lifecycle [] (Stage.idle.phase, (State.initial w).traffic) := by
  have hin : (State.initial w).traffic.inbox = 0 := inboxSignals_initial w
  have hpending : (State.initial w).traffic.pending = [] := rfl
  refine ⟨⟨by simp, by simp [hpending], by simp [hin], .nil, by simp⟩, ⟨.nil, by simp [emittedIds], ?_, ?_⟩, ?_, ?_⟩
  all_goals simp [hpending, hin, signalsOf]

theorem change {w : World} {h n : List Note} {p q : Stage × State}
    (hl : Lifecycle (logged h) (p.1.phase, p.2.traffic)) (hc : Change w p n q) :
    Lifecycle (logged (h ++ n)) (q.1.phase, q.2.traffic) := by
  rw [logged_append]
  exact hl.step hc.traffic

end Lifecycle

/-! ### What a log then looks like -/

def removals (log : List Entry) (signal : Signal) : List Entry :=
  log.filter fun x => x.removal && x.2.signal == signal

def endings (log : List Entry) (signal : Signal) : List Entry :=
  log.filter fun x => x.ending && x.2.signal == signal

structure History (log : List Entry) (s : State) : Prop where
  increasing : (emittedIds log).Pairwise (· < ·)
  removedOnce : ∀ x ∈ log, x.2.outcome = .queued →
    (removals log x.2.signal).length = if x.2.signal ∈ s.pending then 0 else 1
  removed : ∀ x ∈ log, x.removal = true →
    x.1 = x.2.signal.deliverTick ∧ (x.2.signal.sentTick, ⟨x.2.signal, .queued⟩) ∈ log
  endedOnce : ∀ x ∈ log, x.2.outcome = .delivered →
    (endings log x.2.signal).length = if x.2.signal ∈ inboxSignals s.cells then 0 else 1
  ended : ∀ x ∈ log, x.ending = true → (x.2.signal.deliverTick, ⟨x.2.signal, .delivered⟩) ∈ log ∧
    (x.2.outcome = .consumed → x.1 = x.2.signal.deliverTick) ∧
    (x.2.outcome = .expired → x.1.toNat = x.2.signal.deliverTick.toNat + 1)
  expiredFirst : log.Pairwise fun x y => x.1 = y.1 → y.2.outcome = .expired → x.2.outcome = .expired

namespace History
variable {log : List Entry}

theorem count_signalsOf (p : Entry → Bool) (log : List Entry) (signal : Signal) :
    (signalsOf p log).count signal = (log.filter fun x => p x && x.2.signal == signal).length := by
  rw [signalsOf, Multiset.coe_count, List.count_eq_countP, List.countP_map, List.countP_filter,
    List.countP_eq_length_filter]
  simp [Bool.and_comm]

theorem eq_of_queued {x : Entry} (h : x.Stamped) (hq : x.queued = true) :
    x = (x.2.signal.sentTick, ⟨x.2.signal, .queued⟩) := by
  obtain ⟨t, signal, outcome⟩ := x
  obtain rfl : outcome = .queued := by simpa [Entry.queued] using hq
  exact Prod.ext h.2 rfl

theorem eq_of_delivery {x : Entry} (h : x.Stamped) (hd : x.delivery = true) :
    x = (x.2.signal.deliverTick, ⟨x.2.signal, .delivered⟩) := by
  obtain ⟨t, signal, outcome⟩ := x
  obtain rfl : outcome = .delivered := by simpa [Entry.delivery] using hd
  exact Prod.ext h.2 rfl

theorem tick_of_removal {x : Entry} (h : x.Stamped) (hr : x.removal = true) : x.1 = x.2.signal.deliverTick := by
  obtain ⟨t, signal, outcome⟩ := x
  have hstamp := h.2
  simp only [Entry.removal, Entry.emission, Bool.or_eq_true, Bool.and_eq_true, Bool.not_eq_true',
    beq_eq_false_iff_ne] at hr
  cases outcome <;> simp_all [SignalOutcome.ofRefusal]

theorem nodup_queued (ht : ∀ x ∈ log, x.Stamped) (hids : (emittedIds log).Pairwise (· < ·)) :
    (signalsOf Entry.queued log).Nodup := by
  have hemission : ∀ x ∈ log, x.queued = true → x.emission = true := fun x hx hq => by
    rw [eq_of_queued (ht x hx) hq]
    simp [Entry.emission]
  have hsub : log.filter Entry.queued = (log.filter Entry.emission).filter Entry.queued := by
    rw [List.filter_filter]
    refine List.filter_congr fun x hx => ?_
    cases hq : x.queued
    · simp
    · simp [hemission x hx hq]
  rw [signalsOf, Multiset.coe_nodup, hsub, List.Nodup, List.pairwise_map]
  rw [emittedIds, List.pairwise_map] at hids
  refine (hids.sublist List.filter_sublist).imp fun {x y} hlt he => ?_
  rw [he] at hlt
  exact UInt64.lt_irrefl _ hlt

theorem delivery_le_removal (log : List Entry) : signalsOf Entry.delivery log ≤ signalsOf Entry.removal log := by
  have hsub : (log.filter Entry.delivery).Sublist (log.filter Entry.removal) :=
    List.monotone_filter_right log fun x hx => by
      simp only [Entry.delivery] at hx
      simp [Entry.removal, hx]
  exact Multiset.coe_le.2 (hsub.map _).subperm

theorem count_of_nodup {a b c : Multiset Signal} {signal : Signal} (h : c = a + b) (hc : c.Nodup)
    (hm : signal ∈ c) : a.count signal = if signal ∈ b then 0 else 1 := by
  have hone : c.count signal = 1 := Multiset.count_eq_one_of_mem hc hm
  rw [h, Multiset.count_add] at hone
  split
  · rename_i hb
    have := Multiset.one_le_count_iff_mem.2 hb
    omega
  · rename_i hb
    rw [Multiset.count_eq_zero_of_notMem hb] at hone
    omega

end History

theorem Lifecycle.history {log : List Entry} {φ : Phase} {s : State} (h : Lifecycle log (φ, s.traffic)) :
    History log s := by
  obtain ⟨htimed, hnumbered, hbalanced⟩ := h
  have stamped : ∀ x ∈ log, x.Stamped := fun x hx => (htimed.stamped x hx).1
  have hqueue : signalsOf Entry.queued log = signalsOf Entry.removal log + s.pending := hbalanced.queue
  have hinbox : signalsOf Entry.delivery log = signalsOf Entry.ending log + inboxSignals s.cells := hbalanced.inbox
  have nodup := History.nodup_queued stamped hnumbered.ids
  have removal_le : signalsOf Entry.removal log ≤ signalsOf Entry.queued log := hqueue ▸ Multiset.le_add_right _ _
  have ending_le : signalsOf Entry.ending log ≤ signalsOf Entry.delivery log := hinbox ▸ Multiset.le_add_right _ _
  have nodup' := Multiset.nodup_of_le ((History.delivery_le_removal log).trans removal_le) nodup
  refine ⟨hnumbered.ids, fun x hx ho => ?_, fun x hx hr => ⟨?_, ?_⟩, fun x hx ho => ?_, fun x hx he => ⟨?_, ?_, ?_⟩,
    htimed.first⟩
  · have hm : x.2.signal ∈ signalsOf Entry.queued log := mem_signalsOf.2 ⟨x, hx, by simp [Entry.queued, ho], rfl⟩
    have := History.count_of_nodup hqueue nodup hm
    rw [History.count_signalsOf] at this
    simpa [removals] using this
  · exact History.tick_of_removal (stamped x hx) hr
  · obtain ⟨y, hy, hq, hsignal⟩ := mem_signalsOf.1
      (Multiset.mem_of_le removal_le (mem_signalsOf.2 ⟨x, hx, hr, rfl⟩))
    rw [← hsignal, ← History.eq_of_queued (stamped y hy) hq]
    exact hy
  · have hm : x.2.signal ∈ signalsOf Entry.delivery log := mem_signalsOf.2 ⟨x, hx, by simp [Entry.delivery, ho], rfl⟩
    have := History.count_of_nodup hinbox nodup' hm
    rw [History.count_signalsOf] at this
    simpa [endings] using this
  · obtain ⟨y, hy, hd, hsignal⟩ := mem_signalsOf.1
      (Multiset.mem_of_le ending_le (mem_signalsOf.2 ⟨x, hx, he, rfl⟩))
    rw [← hsignal, ← History.eq_of_delivery (stamped y hy) hd]
    exact hy
  · intro ho
    have := (stamped x hx).2
    rw [ho] at this
    exact this
  · intro ho
    have := (stamped x hx).2
    rw [ho] at this
    exact this

end Valhalla.Witness
