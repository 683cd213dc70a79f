import Valhalla.Witness.Guarantees

/-!
# Work bounds and more fuel

The ledger stays within the fuel of a case and an activation within its limit. A run that fuel does not
stop is the same run under any larger bound: every function of the machine is simulated by itself from
the context with more fuel (`Fueled`), since a charge that fuel did not stop goes the same way.
-/

namespace Valhalla.Witness
open Fallible FixedWidth

/-- The same meter under a larger fuel bound. -/
structure Meter.Raised (fuel : UInt64) (m m' : Meter) : Prop where
  eq : m' = { m with fuel }
  le : m.fuel ≤ fuel
  sound : m.Sound

/-- The same context under a larger fuel bound. -/
structure Ctx.Raised (fuel : UInt64) (c c' : Ctx) : Prop where
  meter : c.meter.Raised fuel c'.meter
  signals : c'.signals = c.signals
  state : c'.state = c.state

/-- A failure after which two runs need not agree: fuel ran out, or an internal error. -/
def Fault.Fatal : Fault → Prop
  | .stop .fuel | .internal _ => True
  | .stop .activation | .action _ => False

def MeterError.Fatal (e : MeterError) : Prop := (Fault.ofMeter e).Fatal

theorem Meter.charge_fueled (category : Category) (amount fuel : UInt64) :
    Sim (Meter.Raised fuel) (Fails MeterError.Fatal) (Meter.charge category amount) (Meter.charge category amount) := by
  rintro m _ ⟨rfl, hle, hsound⟩
  have hafter : wp (Meter.charge category amount) _ m := Meter.wp_charge hsound
  have hfuel := Meter.exec_charge_fuel category amount hsound hle
  unfold wp at hafter
  generalize exec (Meter.charge category amount) m = r at hafter hfuel
  match r, hafter with
  | (.ok (), meter), hafter =>
    rw [hfuel (by simp)]
    exact .inr ⟨rfl, rfl, hafter.1.fuel ▸ hle, hafter.1.sound⟩
  | (.error (.stop .fuel), meter), hafter => exact .inl trivial
  | (.error (.stop .activation), meter), hafter =>
    rw [hfuel (by simp)]
    exact .inr ⟨rfl, rfl, hafter.1.fuel ▸ hle, hafter.1.sound⟩
  | (.error .arithmetic, meter), hafter =>
    obtain ⟨-, _, he⟩ := hafter
    cases he

/-- With more fuel the function does the same unless it ends fatally. -/
structure Fueled {α : Type} (m : VmM α) : Prop where
  sim : ∀ fuel, Sim (Ctx.Raised fuel) (Fails Fault.Fatal) m m

namespace Fueled
variable {α β : Type}

theorem pure (a : α) : Fueled (pure a) := ⟨fun _ => .pure a⟩

theorem throw (e : Fault) : Fueled (throw e : VmM α) := ⟨fun _ => .throw e⟩

theorem bind {m : VmM α} {f : α → VmM β} (hm : Fueled m) (hf : ∀ a, Fueled (f a)) : Fueled (m >>= f) :=
  ⟨fun fuel => (hm.sim fuel).andThen fun a => (hf a).sim fuel⟩

theorem okOr (e : Fault) (o : Option α) : Fueled (okOr e o) := ⟨fun _ => .okOr e o⟩

theorem getState : Fueled VmM.getState := ⟨fun _ => .view fun _ _ h => h.state⟩

theorem setState (f : State → State) : Fueled (VmM.setState f) :=
  ⟨fun _ => .update fun _ _ h => ⟨h.meter, h.signals, congrArg f h.state⟩⟩

theorem record (event : SignalEvent) : Fueled (VmM.record event) :=
  ⟨fun _ => .update fun _ _ h => ⟨h.meter, congrArg (· ++ [event]) h.signals, h.state⟩⟩

theorem guard (error : ActionError) (b : Bool) : Fueled (VmM.guard error b) := by
  cases b
  · exact throw _
  · exact pure _

theorem charge (category : Category) (amount : UInt64) : Fueled (VmM.charge category amount) := by
  refine ⟨fun fuel c c' h => ?_⟩
  simp only [VmM.charge, exec_of]
  obtain hfatal | ⟨hresult, hmeter⟩ := Meter.charge_fueled category amount fuel c.meter c'.meter h.meter
  · left
    revert hfatal
    rcases exec (Meter.charge category amount) c.meter with ⟨e | _, meter⟩
    · exact id
    · exact False.elim
  · right
    revert hresult hmeter
    rcases exec (Meter.charge category amount) c.meter with ⟨e | _, meter⟩ <;>
      rcases exec (Meter.charge category amount) c'.meter with ⟨e' | _, meter'⟩ <;> rintro ⟨⟩ hmeter
    · exact ⟨rfl, hmeter, h.signals, h.state⟩
    · exact ⟨rfl, hmeter, h.signals, h.state⟩

end Fueled

/-! ### The functions of an activation -/

section
variable {w : World} {i : Nat}
open Fueled

theorem emitOutcome_fueled (state : State) (enabled : Bool) (endpoint : Endpoint) (recipient : Point) :
    Fueled (emitOutcome w state enabled endpoint recipient) := by
  unfold emitOutcome
  split
  · exact .pure _
  · refine .bind (.okOr _ _) fun origin => ?_
    split
    · exact .pure _
    · split <;> exact .pure _

theorem enqueue_fueled (signal : Signal) (accepted : UInt32) (outcome : SignalOutcome) :
    Fueled (enqueue signal accepted outcome) := by
  unfold enqueue
  split
  · exact .bind (.setState _) fun _ => .okOr _ _
  · exact .pure _

theorem emitLink_fueled (endpoint : Endpoint) (bit : Bool) (evidence : Option UInt32) (accepted : UInt32)
    (entry : Link × Nat) : Fueled (emitLink w endpoint bit evidence accepted entry) :=
  .bind (.charge _ _) fun _ => .bind (.charge _ _) fun _ => .bind .getState fun _ => .bind (.okOr _ _) fun _ =>
    .bind (.okOr _ _) fun _ => .bind (.okOr _ _) fun _ => .bind (.setState _) fun _ => .bind (.okOr _ _) fun _ =>
    .bind (emitOutcome_fueled ..) fun _ => .bind (enqueue_fueled ..) fun _ => .bind (.record _) fun _ => .pure _

theorem emit_fueled (endpoint : Endpoint) (bit : Bool) (evidence : Option UInt32) :
    Fueled (emit w endpoint bit evidence) :=
  ⟨fun fuel => .foldlM (fun accepted entry => (emitLink_fueled endpoint bit evidence accepted entry).sim fuel) _ _⟩

theorem senses_fueled (state : State) (cell : CellState) (condition : Condition) :
    Fueled (senses w state cell condition) := by
  cases condition with
  | memory => exact .throw _
  | carrying | atSource | atDepot | atBeacon | atReceiver | blocked | hasMessage | messageBit | heading => exact .pure _

theorem checkCondition_fueled (state : State) (condition : Condition) :
    Fueled (checkCondition w state i condition) := by
  refine .bind (.charge _ _) fun _ => .bind (.okOr _ _) fun cell => ?_
  split
  · exact .bind (.charge _ _) fun _ => .pure _
  · exact .bind (.charge _ _) fun _ => senses_fueled ..

theorem readBit_fueled (cell : CellState) (bit : BitSource) : Fueled (readBit cell bit) := by
  cases bit with
  | constant value => exact .bind (.charge _ _) fun _ => .pure _
  | memory slot => exact .bind (.charge _ _) fun _ => .pure _
  | message port => exact .bind (.charge _ _) fun _ => .bind (.okOr _ _) fun _ => .pure _

theorem credit_fueled (b : Nat) (spark : Spark) : Fueled (credit w b spark) :=
  .bind (.charge _ _) fun _ => .bind (.okOr _ _) fun _ => .bind .getState fun _ => .bind (.okOr _ _) fun _ =>
    .bind (.okOr _ _) fun _ => .bind (.setState _) fun _ => .bind (.okOr _ _) fun _ => .bind (.setState _) fun _ =>
    .setState _

theorem move_fueled (direction : Relative) : Fueled (move w i direction) :=
  .bind (.charge _ _) fun _ => .bind (.okOr _ _) fun _ => .bind .getState fun _ => .bind (.okOr _ _) fun _ =>
    .bind (.guard _ _) fun _ => .bind (.charge _ _) fun _ => .bind (.okOr _ _) fun _ => .setState _

theorem turn_fueled (direction : Relative) : Fueled (turn i direction) :=
  .bind (.charge _ _) fun _ => .bind .getState fun _ => .bind (.okOr _ _) fun _ => .setState _

theorem pickup_fueled : Fueled (pickup w i) :=
  .bind (.charge _ _) fun _ => .bind .getState fun _ => .bind (.okOr _ _) fun _ => .bind (.guard _ _) fun _ =>
    .bind (.okOr _ _) fun _ => .bind (.okOr _ _) fun _ => .bind (.okOr _ _) fun _ => .bind (.charge _ _) fun _ =>
    .bind (.setState _) fun _ => .setState _

theorem deposit_fueled (d : Nat) (spark : Spark) : Fueled (deposit w i d spark) :=
  .bind (.okOr _ _) fun _ => .bind .getState fun _ => .bind (.okOr _ _) fun _ => .bind (.guard _ _) fun _ =>
    .bind (.charge _ _) fun _ => .bind (.setState _) fun _ => .bind (.setState _) fun _ =>
    .bind (emit_fueled ..) fun _ => .pure _

theorem deliverHere_fueled (b : Nat) (spark : Spark) : Fueled (deliverHere w i b spark) :=
  .bind (.okOr _ _) fun _ => .bind (.guard _ _) fun _ => .bind (credit_fueled ..) fun _ => .setState _

theorem drop_fueled : Fueled (drop w i) := by
  refine .bind (.charge _ _) fun _ => .bind .getState fun _ => .bind (.okOr _ _) fun _ => .bind (.okOr _ _) fun _ => ?_
  split
  · exact deposit_fueled ..
  · split
    · exact deliverHere_fueled ..
    · exact .throw _

theorem writeMemory_fueled (slot : Slot) (value : UInt8) : Fueled (writeMemory i slot value) :=
  .bind (.charge _ _) fun _ => .bind .getState fun _ => .bind (.okOr _ _) fun _ => .setState _

theorem takeMessage_fueled (port : Port) (slot : Slot) : Fueled (takeMessage i port slot) :=
  .bind (.charge _ _) fun _ => .bind .getState fun _ => .bind (.okOr _ _) fun _ => .bind (.okOr _ _) fun _ =>
    .bind (.charge _ _) fun _ => .bind (.charge _ _) fun _ => .bind (.setState _) fun _ => .record _

theorem send_fueled (port : Port) (bit : BitSource) : Fueled (send w i port bit) :=
  .bind .getState fun _ => .bind (.okOr _ _) fun _ => .bind (readBit_fueled ..) fun _ => .bind (emit_fueled ..) fun _ =>
    .guard _ _

theorem route_fueled (valve : ValveId) (bit : BitSource) : Fueled (route w i valve bit) :=
  .bind .getState fun _ => .bind (.okOr _ _) fun _ => .bind (readBit_fueled ..) fun _ => .bind (.charge _ _) fun _ =>
    .bind (.okOr _ _) fun _ => .bind (.okOr _ _) fun _ => .bind (.guard _ _) fun _ => .bind (.okOr _ _) fun _ =>
    .bind (.guard _ _) fun _ => .bind (.okOr _ _) fun _ => .bind (.okOr _ _) fun _ => .bind (.okOr _ _) fun _ =>
    .bind (.okOr _ _) fun _ => .bind (.okOr _ _) fun _ => .bind (.guard _ _) fun _ => .bind (credit_fueled ..) fun _ =>
    .setState _

theorem execute_fueled (action : Action) : Fueled (execute w i action) := by
  refine .bind (.charge _ _) fun _ => ?_
  cases action with
  | wait => exact .pure _
  | move direction => exact move_fueled direction
  | turn direction => exact turn_fueled direction
  | pickup => exact pickup_fueled
  | drop => exact drop_fueled
  | writeMemory slot value => exact writeMemory_fueled slot value
  | takeMessage port slot => exact takeMessage_fueled port slot
  | send port bit => exact send_fueled port bit
  | route valve bit => exact route_fueled valve bit

theorem allHold_fueled (state : State) (conditions : List Condition) : Fueled (allHold w state i conditions) := by
  induction conditions with
  | nil => exact .pure _
  | cons condition rest ih =>
    refine .bind (checkCondition_fueled ..) fun holds => ?_
    cases holds
    · exact .pure _
    · exact ih

theorem selectRule_fueled (state : State) (n : Nat) (rules : List Rule) : Fueled (selectRule w state i n rules) := by
  induction rules generalizing n with
  | nil => exact .pure _
  | cons rule rest ih =>
    refine .bind (.charge _ _) fun _ => .bind (allHold_fueled ..) fun holds => ?_
    cases holds
    · exact ih (n + 1)
    · exact .pure _

theorem choose_fueled (program : Program) (state : State) : Fueled (choose w program state i) := by
  refine .bind (.charge _ _) fun _ => .bind (selectRule_fueled ..) fun selected => ?_
  cases selected with
  | none => exact .pure _
  | some selected => exact .bind (.okOr _ _) fun _ => .pure _

theorem perform_fueled (action : Action) (remember : Option MemoryWrite) : Fueled (perform w i action remember) := by
  have hattempt : Fueled (attempt actionFailure (execute w i action)) := ⟨fun fuel =>
    .attempt (fun e he => by rcases e with (_ | _) | _ | _ <;> first | rfl | cases he) ((execute_fueled action).sim fuel)⟩
  refine .bind hattempt fun result => .bind ?_ fun _ => ?_
  · cases remember with
    | none => exact .pure _
    | some write => exact writeMemory_fueled ..
  · cases result with
    | ok => exact .pure _
    | error => exact .throw _

end

end Valhalla.Witness
