import Valhalla.Witness.Ledger

/-!
# Charging

While the ledger has a total no charge fails arithmetically: `exec_charge` gives the outcome of every charge in
closed form. A charge never leaves the fuel bound or the open window (`After`), and a charge that fuel
did not stop goes the same way under more fuel (`exec_charge_fuel`).
-/

namespace Valhalla.Witness.Meter
open Fallible FixedWidth

variable {m m' m'' : Meter} {category : Category} {amount k fuel : UInt64}

def units (m : Meter) : Nat := m.ledger.units

/-- The ledger is within the fuel bound and within the open window. -/
structure Sound (m : Meter) : Prop where
  fuel : m.units ≤ m.fuel.toNat
  window : ∀ start limit, m.activation = some (start, limit) →
    start.toNat ≤ m.units ∧ m.units ≤ start.toNat + limit.toNat

structure Totalled (m : Meter) : Prop where
  total : m.units < 2 ^ 64
  window : ∀ start limit, m.activation = some (start, limit) → start.toNat ≤ m.units

theorem Sound.totalled (h : m.Sound) : m.Totalled :=
  ⟨Nat.lt_of_le_of_lt h.fuel m.fuel.toNat_lt, fun start limit ha => (h.window start limit ha).1⟩

/-- The units the open window still admits; `u64::MAX` without a window. -/
def windowRoom (m : Meter) : Nat :=
  match m.activation with
  | none => 2 ^ 64 - 1
  | some (start, limit) => start.toNat + limit.toNat - m.units

def room (m : Meter) : Nat := min (m.fuel.toNat - m.units) m.windowRoom

/-- The meter with `k` more units in a category. -/
def add (m : Meter) (category : Category) (k : UInt64) : Meter :=
  { m with ledger := m.ledger.setCounter (m.ledger.counter category + k) category }

theorem units_add (h : m.units + k.toNat < 2 ^ 64) : (m.add category k).units = m.units + k.toNat := by
  have hc := m.ledger.counter_le_units category
  have hs := m.ledger.units_setCounter category (m.ledger.counter category + k)
  have hadd : (m.ledger.counter category + k).toNat = (m.ledger.counter category).toNat + k.toNat := by
    rw [UInt64.toNat_add]
    exact Nat.mod_eq_of_lt (by simp only [units] at h; omega)
  simp only [units, add] at h ⊢
  omega

theorem total_of_totalled (h : m.Totalled) : ∃ t : UInt64, m.total = some t ∧ t.toNat = m.units := by
  obtain ⟨t, ht⟩ := m.ledger.total_isSome h.total
  exact ⟨t, ht, Ledger.total_eq_some.1 ht⟩

theorem total_of_sound (h : m.Sound) : ∃ t : UInt64, m.total = some t ∧ t.toNat = m.units := total_of_totalled h.totalled

theorem activationRoom_of_totalled (h : m.Totalled) {t : UInt64} (ht : t.toNat = m.units) :
    ∃ r : UInt64, m.activationRoom t = some r ∧ r.toNat = m.windowRoom := by
  unfold activationRoom windowRoom
  cases ha : m.activation with
  | none => exact ⟨_, rfl, rfl⟩
  | some window =>
    obtain ⟨start, limit⟩ := window
    have hstart := h.window start limit ha
    obtain ⟨used, hused⟩ := checkedSub_isSome (a := t) (b := start) (by simpa [ht] using hstart)
    have := checkedSub_eq_some.1 hused
    simp at this
    refine ⟨saturatingSub limit.toUInt64 used, by simp [hused], ?_⟩
    have hsub : (saturatingSub limit.toUInt64 used).toNat = limit.toUInt64.toNat - used.toNat :=
      toNat_saturatingSub (a := limit.toUInt64) (b := used)
    rw [hsub, UInt32.toNat_toUInt64]
    simp only
    omega

theorem exec_charge (h : m.Totalled) (hk : k.toNat = min amount.toNat m.room) :
    exec (charge category amount) m =
      (if k = amount then .ok ()
        else .error (.stop (if m.fuel.toNat ≤ m.units + k.toNat then .fuel else .activation)),
        m.add category k) := by
  obtain ⟨t, ht, htu⟩ := total_of_totalled h
  obtain ⟨room, hroom, hroomN⟩ := activationRoom_of_totalled h htu
  have hlt := m.fuel.toNat_lt
  have hsize : m.units + k.toNat < 2 ^ 64 := by
    have htotal := h.total
    simp only [Meter.room] at hk
    omega
  have hallowed : least (least amount (saturatingSub m.fuel t)) room = k := by
    refine toNat_injective ?_
    simp [hroomN, htu, hk, Meter.room, Nat.min_assoc]
  have hcounter : checkedAdd (m.ledger.counter category) k = some (m.ledger.counter category + k) := by
    have := m.ledger.counter_le_units category
    refine checkedAdd_eq_some.2 ?_
    simp only [toNat_uInt64, UInt64.toNat_add]
    exact Nat.mod_eq_of_lt (by simp only [units] at hsize; omega)
  simp only [charge, exec_bind, exec_view, ht, okOr_some, exec_pure, hroom, hallowed, hcounter, exec_update]
  by_cases hka : k = amount
  · simp only [hka, if_true, exec_pure, add]
  · have hunits : (m.add category k).units = m.units + k.toNat := units_add (by omega)
    have htotal : (m.add category k).total = some (UInt64.ofNat (m.units + k.toNat)) := by
      refine Ledger.total_eq_some.2 ?_
      rw [UInt64.toNat_ofNat_of_lt' hsize]
      exact hunits.symm
    have hle : m.fuel ≤ UInt64.ofNat (m.units + k.toNat) ↔ m.fuel.toNat ≤ m.units + k.toNat := by
      rw [UInt64.le_iff_toNat_le, UInt64.toNat_ofNat_of_lt' hsize]
    simp only [add] at htotal
    simp only [hka, if_false, exec_bind, exec_view, htotal, okOr_some, exec_pure, hle, add]
    split <;> rfl

/-! ### What charges leave alone -/

/-- What holds of a meter after some charges. -/
structure After (m m' : Meter) : Prop where
  sound : m'.Sound
  fuel : m'.fuel = m.fuel
  activation : m'.activation = m.activation
  units : m.units ≤ m'.units

theorem After.refl (h : m.Sound) : After m m := ⟨h, rfl, rfl, Nat.le_refl _⟩

theorem After.trans (h : After m m') (h' : After m' m'') : After m m'' :=
  ⟨h'.sound, h'.fuel.trans h.fuel, h'.activation.trans h.activation, h.units.trans h'.units⟩

/-! ### Activation windows -/

theorem beginActivation_of_sound (h : m.Sound) (limit : UInt32) :
    ∃ t : UInt64, t.toNat = m.units ∧ m.total = some t ∧
      m.beginActivation limit = some { m with activation := some (t, limit) } ∧
      Sound { m with activation := some (t, limit) } := by
  obtain ⟨t, ht, htu⟩ := total_of_sound h
  refine ⟨t, htu, ht, by rw [beginActivation, ht]; rfl, h.fuel, fun start limit' he => ?_⟩
  cases he
  exact ⟨Nat.le_of_eq htu, Nat.le_trans (Nat.le_of_eq htu.symm) (Nat.le_add_right ..)⟩

theorem After.endActivation {window : UInt64 × UInt32} (hclosed : m.activation = none)
    (h : After { m with activation := some window } m') : After m m'.endActivation :=
  ⟨⟨h.sound.fuel, fun start limit he => by cases he⟩, h.fuel, hclosed.symm, h.units⟩

theorem exists_allowed (m : Meter) (amount : UInt64) : ∃ k : UInt64, k.toNat = min amount.toNat m.room := by
  refine ⟨UInt64.ofNat (min amount.toNat m.room), UInt64.toNat_ofNat_of_lt' ?_⟩
  exact Nat.lt_of_le_of_lt (Nat.min_le_left ..) amount.toNat_lt

theorem After.add (h : m.Sound) (hk : k.toNat ≤ m.room) :
    After m (m.add category k) ∧ (m.add category k).units = m.units + k.toNat := by
  have hfuel := h.fuel
  have hlt := m.fuel.toNat_lt
  have hroom : m.room ≤ m.fuel.toNat - m.units := Nat.min_le_left ..
  have hwindow : m.room ≤ m.windowRoom := Nat.min_le_right ..
  have hunits : (m.add category k).units = m.units + k.toNat := units_add (by omega)
  refine ⟨⟨⟨?_, fun start limit ha => ?_⟩, rfl, rfl, by omega⟩, hunits⟩
  · rw [hunits]
    show m.units + k.toNat ≤ m.fuel.toNat
    omega
  · have ha : m.activation = some (start, limit) := ha
    have := h.window start limit ha
    simp only [windowRoom, ha] at hwindow
    omega

theorem wp_charge (h : m.Sound) : wp (charge category amount)
    (Post (fun _ m' => After m m' ∧ m'.units = m.units + amount.toNat)
      fun e m' => After m m' ∧ ∃ reason, e = .stop reason) m := by
  obtain ⟨k, hk⟩ := exists_allowed m amount
  have ha : After m (m.add category k) ∧ (m.add category k).units = m.units + k.toNat :=
    After.add h (hk ▸ Nat.min_le_right ..)
  rw [wp, exec_charge h.totalled hk]
  by_cases hka : k = amount
  · rw [if_pos hka]
    exact ⟨ha.1, hka ▸ ha.2⟩
  · rw [if_neg hka]
    exact ⟨ha.1, _, rfl⟩

theorem exec_charge_fuel (category : Category) (amount : UInt64) (h : m.Sound) (hle : m.fuel ≤ fuel)
    (hok : (exec (charge category amount) m).1 ≠ .error (.stop .fuel)) :
    exec (charge category amount) { m with fuel } =
      ((exec (charge category amount) m).1, { (exec (charge category amount) m).2 with fuel }) := by
  obtain ⟨k, hk⟩ := exists_allowed m amount
  have hle : m.fuel.toNat ≤ fuel.toNat := hle
  have hfuel := h.fuel
  have hsound : Sound { m with fuel } := ⟨hfuel.trans hle, h.window⟩
  rw [exec_charge h.totalled hk] at hok ⊢
  have hroom : Meter.room { m with fuel } = min (fuel.toNat - m.units) m.windowRoom := rfl
  by_cases hka : k = amount
  · subst hka
    have hk' : k.toNat = min k.toNat (Meter.room { m with fuel }) := by
      rw [hroom]
      simp only [Meter.room] at hk
      omega
    rw [exec_charge hsound.totalled hk', if_pos rfl, if_pos rfl]
    rfl
  · have hlt : k.toNat < amount.toNat := by
      refine Nat.lt_of_le_of_ne (hk ▸ Nat.min_le_left ..) fun he => hka (UInt64.toNat_inj.1 he)
    by_cases hstop : m.fuel.toNat ≤ m.units + k.toNat
    · rw [if_neg hka, if_pos hstop] at hok
      exact absurd rfl hok
    · -- the window stops the charge, and it stops it at the same unit
      have hk' : k.toNat = min amount.toNat (Meter.room { m with fuel }) := by
        rw [hroom]
        simp only [Meter.room] at hk
        omega
      have hstop' : ¬ fuel.toNat ≤ m.units + k.toNat := by omega
      rw [exec_charge hsound.totalled hk', if_neg hka, if_neg hka, if_neg hstop]
      refine Prod.ext ?_ rfl
      show Except.error (MeterError.stop (if fuel.toNat ≤ m.units + k.toNat then Stop.fuel else Stop.activation)) = _
      rw [if_neg hstop']

end Valhalla.Witness.Meter

/-!
## Charging one unit at a time (`reference` of the tests of `ledger.rs`)

The loop that a charge stands for: before each unit fuel is asked first, then the open window. A charge of any amount is that
loop, also over a ledger that is beyond its fuel or its window already.
-/

namespace Valhalla.Witness.Meter
open Fallible FixedWidth

variable {m : Meter} {category : Category} {k : UInt64}

/-- Whether the open window is spent; `none` if it starts above the total. -/
def windowSpent (m : Meter) (total : UInt64) : Option Bool :=
  match m.activation with
  | none => some false
  | some (start, limit) => (checkedSub total start).map fun spent => decide (limit.toUInt64 ≤ spent)

/-- One turn of the loop. A panic of its plain arithmetic is an arithmetic failure. -/
def chargeUnit (category : Category) : Fallible MeterError Meter Unit := do
  let total ← okOr .arithmetic (← view total)
  let fuel ← view Meter.fuel
  if fuel ≤ total then throw (.stop .fuel)
  else do
    let spent ← okOr .arithmetic (← view (windowSpent · total))
    if spent = true then throw (.stop .activation)
    else do
      let counter ← okOr .arithmetic (← view fun m => checkedAdd (m.ledger.counter category) 1)
      update fun m => { m with ledger := m.ledger.setCounter counter category }

/-- `reference`. -/
def unitLoop (category : Category) : Nat → Fallible MeterError Meter Unit
  | 0 => pure ()
  | n + 1 => do
    chargeUnit category
    unitLoop category n

/-! ### Adding units -/

theorem add_zero : m.add category 0 = m := by
  cases category <;> simp [add, Ledger.counter, Ledger.setCounter]

theorem add_add {j : UInt64} : (m.add category j).add category k = m.add category (j + k) := by
  cases category <;> simp [add, Ledger.counter, Ledger.setCounter, UInt64.add_assoc]

theorem Totalled.add_one (h : m.Totalled) (hroom : m.room ≠ 0) :
    (m.add category 1).Totalled ∧ (m.add category 1).units = m.units + 1 ∧ (m.add category 1).room = m.room - 1 := by
  have hlt := m.fuel.toNat_lt
  have hfuel : m.units < m.fuel.toNat := by
    simp only [room] at hroom
    omega
  have hunits : (m.add category 1).units = m.units + 1 := units_add (by simp; omega)
  refine ⟨⟨by rw [hunits]; omega, fun start limit ha => ?_⟩, hunits, ?_⟩
  · rw [hunits]
    exact Nat.le_succ_of_le (h.window start limit ha)
  · have hactivation : (m.add category 1).activation = m.activation := rfl
    have hsame : (m.add category 1).fuel = m.fuel := rfl
    simp only [room, windowRoom, hunits, hactivation, hsame]
    cases ha : m.activation with
    | none =>
      simp only
      omega
    | some window =>
      simp only
      omega

/-! ### One turn -/

theorem windowSpent_of_totalled (h : m.Totalled) {t : UInt64} (ht : t.toNat = m.units) :
    m.windowSpent t = some (decide (m.windowRoom = 0)) := by
  unfold windowSpent windowRoom
  cases ha : m.activation with
  | none => simp
  | some window =>
    obtain ⟨start, limit⟩ := window
    have hstart := h.window start limit ha
    obtain ⟨spent, hspent⟩ := checkedSub_isSome (a := t) (b := start) (by simpa [ht] using hstart)
    have := checkedSub_eq_some.1 hspent
    simp only [toNat_uInt64] at this
    simp only [hspent, Option.map_some, Option.some.injEq, decide_eq_decide, UInt64.le_iff_toNat_le, UInt32.toNat_toUInt64]
    omega

theorem exec_chargeUnit (h : m.Totalled) :
    exec (chargeUnit category) m =
      if m.room = 0 then (.error (.stop (if m.fuel.toNat ≤ m.units then .fuel else .activation)), m) else (.ok (), m.add category 1) := by
  obtain ⟨t, ht, htu⟩ := total_of_totalled h
  have hspent := windowSpent_of_totalled h htu
  have hle : m.fuel ≤ t ↔ m.fuel.toNat ≤ m.units := by rw [UInt64.le_iff_toNat_le, htu]
  simp only [chargeUnit, exec_bind, exec_view, ht, okOr_some, exec_pure]
  by_cases hfuel : m.fuel.toNat ≤ m.units
  · have hroom : m.room = 0 := by
      simp only [room]
      omega
    rw [if_pos (hle.2 hfuel), if_pos hroom, if_pos hfuel, exec_throw]
  · rw [if_neg (mt hle.1 hfuel)]
    simp only [exec_bind, exec_view, hspent, okOr_some, exec_pure, decide_eq_true_eq]
    by_cases hwindow : m.windowRoom = 0
    · have hroom : m.room = 0 := by
        simp only [room]
        omega
      rw [if_pos hwindow, if_pos hroom, if_neg hfuel, exec_throw]
    · have hroom : m.room ≠ 0 := by
        simp only [room]
        omega
      have hcounter : checkedAdd (m.ledger.counter category) 1 = some (m.ledger.counter category + 1) := by
        have hc := m.ledger.counter_le_units category
        have hlt := m.fuel.toNat_lt
        refine checkedAdd_eq_some.2 ?_
        simp only [toNat_uInt64, UInt64.toNat_add]
        exact Nat.mod_eq_of_lt (by simp only [units] at hfuel; simp; omega)
      rw [if_neg hwindow, if_neg hroom]
      simp only [exec_bind, exec_view, hcounter, okOr_some, exec_pure, exec_update, add]

/-! ### The loop -/

theorem exec_unitLoop {n : Nat} (h : m.Totalled) (hk : k.toNat = min n m.room) :
    exec (unitLoop category n) m =
      (if k.toNat = n then .ok ()
        else .error (.stop (if m.fuel.toNat ≤ m.units + k.toNat then .fuel else .activation)),
        m.add category k) := by
  induction n generalizing m k with
  | zero =>
    have hk : k = 0 := UInt64.toNat_inj.1 (by simpa using hk)
    subst hk
    rw [add_zero]
    rfl
  | succ n ih =>
    rw [unitLoop, exec_bind, exec_chargeUnit h]
    by_cases hroom : m.room = 0
    · have hk : k = 0 := UInt64.toNat_inj.1 (by simpa [hroom] using hk)
      subst hk
      rw [if_pos hroom, add_zero]
      rfl
    · obtain ⟨htotalled, hunits, hroom'⟩ : (m.add category 1).Totalled ∧ _ := h.add_one hroom
      have hpos : 0 < k.toNat := by omega
      have hpred : (k - 1).toNat = k.toNat - 1 := UInt64.toNat_sub_of_le k 1 (UInt64.le_iff_toNat_le.2 hpos)
      have hstep := ih htotalled (k := k - 1) (by rw [hpred, hroom']; omega)
      rw [if_neg hroom]
      simp only [hstep, add_add, hpred, hunits]
      have hsum : (1 : UInt64) + (k - 1) = k := by
        rw [UInt64.add_comm, UInt64.sub_add_cancel]
      have hfuel : (m.add category 1).fuel = m.fuel := rfl
      have hadd : m.units + 1 + (k.toNat - 1) = m.units + k.toNat := by omega
      have hiff : k.toNat - 1 = n ↔ k.toNat = n + 1 := by omega
      rw [hsum, hfuel, hadd]
      simp only [hiff]

/-- A charge is the loop of its units, it fails of fuel or of the window only, and without units it does nothing. -/
theorem charge_eq_unitLoop {t : UInt64} (ht : m.total = some t)
    (hwindow : ∀ start limit, m.activation = some (start, limit) → start ≤ t) (category : Category) (amount : UInt64) :
    exec (charge category amount) m = exec (unitLoop category amount.toNat) m ∧
      (exec (charge category amount) m).1 ≠ .error .arithmetic ∧ exec (charge category 0) m = (.ok (), m) := by
  have htu : t.toNat = m.units := Ledger.total_eq_some.1 ht
  have h : m.Totalled := by
    refine ⟨htu ▸ t.toNat_lt, fun start limit ha => ?_⟩
    rw [← htu]
    exact UInt64.le_iff_toNat_le.1 (hwindow start limit ha)
  obtain ⟨k, hk⟩ := exists_allowed m amount
  rw [exec_charge h hk, exec_unitLoop h hk, exec_charge (k := 0) h (by simp), add_zero]
  refine ⟨by simp only [UInt64.toNat_inj], ?_, by simp⟩
  by_cases hka : k = amount
  · simp [hka]
  · simp [hka]

/-- Seven units where the window admits three and fuel five. -/
theorem charge_window_spent :
    exec (charge .checking 7) ⟨.zero, 5, some (0, 3)⟩ = exec (unitLoop .checking 7) ⟨.zero, 5, some (0, 3)⟩ :=
  (charge_eq_unitLoop (t := 0) (by decide) (by simp) .checking 7).1

end Valhalla.Witness.Meter
