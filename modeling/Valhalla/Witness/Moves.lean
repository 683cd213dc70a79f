import Valhalla.Witness.Charge
import Valhalla.Witness.Held
import Valhalla.Witness.Sparks
import Valhalla.Witness.Beacons

/-!
# Reasoning about the code by its changes

`Moves` relates two contexts when what the code did in between is a run of changes, with the events it
recorded, and the meter only went up. `Within` is the program logic of this development: it runs a
function from a checkpoint, its normal return and its failures are moves from the checkpoint, and no
failure is an internal error. There is one rule for each primitive; between two changes a rule only
follows the context, so that a change made by several assignments is closed at its last one.
-/

namespace Valhalla.Witness
open Fallible FixedWidth

def Fault.settled (st : Stage) : Fault → Bool
  | .stop _ => true
  | .action _ => st == .acting
  | .internal _ => false

/-- What holds of every state a run can reach before the tick limit. -/
structure Good (w : World) (s : State) : Prop where
  shape : Shape w s
  linked : Linked w s
  conserved : Conserved w s
  accounts : ∃ h, Accounts w h s
  tick : s.tick ≤ maxTicks

theorem Good.initial (w : World) : Good w (State.initial w) :=
  ⟨.initial w, .initial w, .initial w, ⟨[], .initial w⟩, UInt32.zero_le⟩

theorem Good.changes {w : World} {p q : Stage × State} {n : List Note} (h : Good w p.2) (hp : Changes w p n q)
    (ht : q.2.tick ≤ maxTicks) : Good w q.2 := by
  obtain ⟨notes, haccounts⟩ := h.accounts
  exact
    { shape := hp.preserves (I := fun p => Shape w p.2) h.shape fun _ _ _ hs hc => hs.change hc
      linked := hp.preserves (I := fun p => Linked w p.2) h.linked fun _ _ _ hs hc => hs.change hc
      conserved := h.conserved.changes hp
      accounts := ⟨_, hp.invariant (I := fun h p => Accounts w h p.2) haccounts fun _ _ _ _ hs hc => hs.change hc⟩
      tick := ht }

theorem Good.entry_le {w : World} {s : State} {b : Nat} {beacon : Beacon} {entry : BeaconState} (h : Good w s)
    (hw : w.beacons[b]? = some beacon) (he : s.beacons[b]? = some entry) :
    entry.charge.toNat + entry.drained.toNat ≤ 20000 ∧ entry.delivered.toNat ≤ 128 := by
  obtain ⟨notes, haccounts⟩ := h.accounts
  obtain ⟨hbalance, hcounted, -⟩ := haccounts.account b beacon entry hw he
  obtain ⟨hinitial, -, hspark⟩ := w.beacon_valid (List.mem_of_getElem? hw)
  have hinitial : beacon.initialCharge.toNat ≤ 10000 := hinitial
  have hspark : beacon.sparkCharge.toNat ≤ 64 := hspark
  have hdelivered : entry.delivered.toNat ≤ 128 := by
    have hcard : s.sparks.card ≤ 128 := h.conserved.card_le
    simp only [State.sparks, deliveredSparks, Multiset.card_add, Multiset.coe_card, List.length_map] at hcard
    have hcount := List.countP_le_length (p := (·.beacon == beacon.id)) (l := s.delivered)
    omega
  have hmul : entry.delivered.toNat * beacon.sparkCharge.toNat ≤ 128 * 64 := Nat.mul_le_mul hdelivered hspark
  exact ⟨by omega, hdelivered⟩

/-- What the code did from one context to another. -/
structure Moves (w : World) (st : Stage) (c : Ctx) (st' : Stage) (c' : Ctx) : Prop where
  path : ∃ notes new, Changes w (st, c.state) notes (st', c'.state) ∧ c'.signals = c.signals ++ new ∧
    logged notes = new.map (Prod.mk c.state.tick)
  tick : c'.state.tick = c.state.tick
  meter : c.meter.After c'.meter
  next : c'.state.nextSignal.toNat + c.meter.units ≤ c.state.nextSignal.toNat + c'.meter.units

/-- A context in which nothing can go wrong. -/
structure Ready (w : World) (c : Ctx) : Prop where
  good : Good w c.state
  sound : c.meter.Sound
  fuel : c.meter.fuel ≤ maxFuel
  next : c.state.nextSignal.toNat ≤ c.meter.units + 1

namespace Moves
variable {w : World} {st st' st'' : Stage} {c c' c'' : Ctx}

theorem refl (h : c.meter.Sound) : Moves w st c st c :=
  ⟨⟨[], [], .refl _, by simp, rfl⟩, rfl, .refl h, Nat.le_refl _⟩

theorem trans (h : Moves w st c st' c') (h' : Moves w st' c' st'' c'') : Moves w st c st'' c'' := by
  obtain ⟨notes, new, hp, hs, hl⟩ := h.path
  obtain ⟨notes', new', hp', hs', hl'⟩ := h'.path
  have hn := h.next
  have hn' := h'.next
  refine ⟨⟨notes ++ notes', new ++ new', hp.trans hp', ?_, ?_⟩, h'.tick.trans h.tick, h.meter.trans h'.meter, by omega⟩
  · rw [hs', hs, List.append_assoc]
  · rw [logged_append, hl, hl', h.tick, List.map_append]

theorem charged {meter : Meter} (h : Moves w st c st' c') (hm : c'.meter.After meter) :
    Moves w st c st' { c' with meter } :=
  h.trans ⟨⟨[], [], .refl _, by simp, rfl⟩, rfl, hm, Nat.add_le_add_left hm.units _⟩

theorem change {s : State} {n : List Note} (h : Moves w st c st' c') (hc : Change w (st', c'.state) n (st'', s))
    (hn : logged n = []) (ht : s.tick = c'.state.tick) (hnext : s.nextSignal = c'.state.nextSignal) :
    Moves w st c st'' { c' with state := s } :=
  h.trans ⟨⟨n, [], .single hc, by simp, hn⟩, ht, .refl h.meter.sound, by rw [hnext]⟩

theorem recorded {s : State} {n : List Note} {event : SignalEvent} (h : Moves w st c st' c')
    (hc : Change w (st', c'.state) n (st'', s)) (hn : logged n = [(c'.state.tick, event)])
    (ht : s.tick = c'.state.tick) (hnext : s.nextSignal = c'.state.nextSignal) :
    Moves w st c st'' { c' with state := s, signals := c'.signals ++ [event] } :=
  h.trans ⟨⟨n, [event], .single hc, rfl, hn⟩, ht, .refl h.meter.sound, by rw [hnext]⟩

theorem ready (h : Moves w st c st' c') (hr : Ready w c) : Ready w c' := by
  obtain ⟨notes, new, hp, -, -⟩ := h.path
  have hn := h.next
  have hn' := hr.next
  exact ⟨hr.good.changes hp (h.tick ▸ hr.good.tick), h.meter.sound, h.meter.fuel ▸ hr.fuel, by omega⟩

end Moves

theorem VmM.wp_charge {c : Ctx} {category : Category} {amount : UInt64} {Q : Except Fault Unit → Ctx → Prop}
    (h : c.meter.Sound)
    (ok : ∀ meter, c.meter.After meter → meter.units = c.meter.units + amount.toNat → Q (.ok ()) { c with meter })
    (stop : ∀ meter reason, c.meter.After meter → Q (.error (.stop reason)) { c with meter }) :
    wp (VmM.charge category amount) Q c := by
  have hcharge : wp (Meter.charge category amount) _ c.meter := Meter.wp_charge h
  simp only [wp, VmM.charge, exec_of] at hcharge ⊢
  generalize exec (Meter.charge category amount) c.meter = r at hcharge ⊢
  rcases r with ⟨e | u, meter⟩
  · obtain ⟨hafter, reason, rfl⟩ := hcharge
    exact stop meter reason hafter
  · exact ok meter hcharge.1 hcharge.2

/-- From the checkpoint `c₀` in stage `st`, now at `c`: a normal return is a move to stage `st'` that
satisfies `I`, a failure is one the stage may end with, and a move within the stage. -/
def Within {α : Type} (w : World) (st : Stage) (c₀ : Ctx) (m : VmM α) (st' : Stage) (I : α → Ctx → Prop) (c : Ctx) :
    Prop :=
  wp m (Post (fun a c' => Moves w st c₀ st' c' ∧ I a c') fun e c' => e.settled st = true ∧ Moves w st c₀ st c') c

namespace Within
variable {α β : Type} {w : World} {st st' : Stage} {c₀ c : Ctx} {I : α → Ctx → Prop} {J : β → Ctx → Prop}

theorem pure {a : α} (h : Moves w st c₀ st' c) (hI : I a c) : Within w st c₀ (pure a) st' I c := ⟨h, hI⟩

theorem throw {error : ActionError} (h : Moves w .acting c₀ .acting c) :
    Within w .acting c₀ (throw (Fault.action error) : VmM α) st' I c := ⟨rfl, h⟩

theorem last {m : VmM α} (h : Within w st c₀ (m >>= Pure.pure) st' I c) : Within w st c₀ m st' I c := by
  rwa [bind_pure] at h

theorem bind {m : VmM α} {f : α → VmM β} (h : wp m (Post (fun a c' => Within w st c₀ (f a) st' J c') fun e c' =>
    e.settled st = true ∧ Moves w st c₀ st c') c) : Within w st c₀ (m >>= f) st' J c :=
  (wp_bind _).2 h

theorem call {m : VmM α} {f : α → VmM β} (hm : Within w st c m st I c) (h : Moves w st c₀ st c)
    (k : ∀ a c', Moves w st c st c' → I a c' → Within w st c₀ (f a) st' J c') : Within w st c₀ (m >>= f) st' J c :=
  bind (hm.post (fun a c' hI => k a c' hI.1 hI.2) fun _ _ he => ⟨he.1, h.trans he.2⟩)

theorem mono {m : VmM α} {I' : α → Ctx → Prop} (hm : Within w st c₀ m st' I c) (h : ∀ a c', I a c' → I' a c') :
    Within w st c₀ m st' I' c :=
  wp.post hm (fun a c' hI => ⟨hI.1, h a c' hI.2⟩) fun _ _ he => he

theorem charge {m : VmM α} {category : Category} {amount : UInt64} (h : Moves w st c₀ st c)
    (k : ∀ meter, Moves w st c₀ st { c with meter } → meter.units = c.meter.units + amount.toNat →
      Within w st c₀ m st' I { c with meter }) :
    Within w st c₀ (VmM.charge category amount >>= fun _ => m) st' I c :=
  bind (VmM.wp_charge h.meter.sound (fun meter hafter => k meter (h.charged hafter)) fun _ _ hafter =>
    ⟨rfl, h.charged hafter⟩)

theorem get {f : State → VmM α} (k : Within w st c₀ (f c.state) st' I c) :
    Within w st c₀ (VmM.getState >>= f) st' I c := bind k

theorem set {m : VmM α} {f : State → State} (k : Within w st c₀ m st' I { c with state := f c.state }) :
    Within w st c₀ (VmM.setState f >>= fun _ => m) st' I c := bind k

theorem record {m : VmM α} {event : SignalEvent}
    (k : Within w st c₀ m st' I { c with signals := c.signals ++ [event] }) :
    Within w st c₀ (VmM.record event >>= fun _ => m) st' I c := bind k

theorem sure {e : RunError} {o : Option β} {f : β → VmM α} (h : ∃ a, o = some a)
    (k : ∀ a, o = some a → Within w st c₀ (f a) st' I c) :
    Within w st c₀ (okOr (.internal e) o >>= f) st' I c := by
  obtain ⟨a, ha⟩ := h
  rw [ha, okOr_some, pure_bind]
  exact k a ha

theorem okOr {error : ActionError} {o : Option β} {f : β → VmM α} (h : Moves w .acting c₀ .acting c)
    (k : ∀ a, o = some a → Within w .acting c₀ (f a) st' I c) :
    Within w .acting c₀ (Fallible.okOr (.action error) o >>= f) st' I c := by
  cases o with
  | none => exact bind ⟨rfl, h⟩
  | some a => exact bind (k a rfl)

theorem guard {m : VmM α} {error : ActionError} {b : Bool} (h : Moves w .acting c₀ .acting c)
    (k : b = true → Within w .acting c₀ m st' I c) :
    Within w .acting c₀ (VmM.guard error b >>= fun _ => m) st' I c := by
  cases b with
  | false => exact bind ⟨rfl, h⟩
  | true => exact bind (k rfl)

theorem guard_last {error : ActionError} {b : Bool} (h : Moves w .acting c₀ .acting c) :
    Within w .acting c₀ (VmM.guard error b) .acting (fun _ _ => True) c := by
  cases b with
  | false => exact ⟨rfl, h⟩
  | true => exact ⟨h, trivial⟩

theorem forM {f : β → VmM PUnit} {l : List β} {K : List β → Ctx → Prop}
    (step : ∀ done a rest, l = done ++ a :: rest → ∀ c, Moves w st c₀ st c → K done c →
      Within w st c₀ (f a) st (fun _ => K (done ++ [a])) c)
    (h : Moves w st c₀ st c) (hK : K [] c) : Within w st c₀ (forM l f) st (fun _ => K l) c :=
  wp_forM (I := fun done c => Moves w st c₀ st c ∧ K done c)
    (fun done a rest hl s hs => step done a rest hl s hs.1 hs.2) ⟨h, hK⟩

end Within

end Valhalla.Witness
