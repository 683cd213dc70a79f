import Valhalla.Witness.Capacity
import Valhalla.Witness.Identity
import Valhalla.Witness.Replay

/-!
# Every permitted run returns (`platform.rs`)

Under a capability for the manifest and the assignment, with an allowance for the fuel of all cases, a run returns the result of every
case: no sum overflows, because a case charges at most its fuel and delivers at most the sparks of its world. The receipt of the run
is matched by no other claim than its own.
-/

namespace Valhalla.Witness
open Fallible FixedWidth

/-! ### Sums -/

section
variable {α ε : Type} {f : α → UInt64} {e : ε}

theorem foldlM_okOr {l : List α} {acc t : UInt64} : l.foldlM (fun sum x => Check.okOr e (checkedAdd sum (f x))) acc = .ok t ↔
    t.toNat = acc.toNat + (l.map fun x => (f x).toNat).sum := by
  induction l generalizing acc with
  | nil => simp [pure, Except.pure, UInt64.toNat_inj, eq_comm]
  | cons x l ih =>
    simp only [List.foldlM_cons, Check.bind_eq_ok, Check.okOr_eq_ok, checkedAdd_eq_some, ih, List.map_cons, List.sum_cons]
    constructor
    · rintro ⟨mid, hmid, ht⟩
      have hmid' : mid.toNat = acc.toNat + (f x).toNat := hmid
      omega
    · intro ht
      have hlt := t.toNat_lt
      obtain ⟨mid, hmid⟩ := checkedAdd_isSome (a := acc) (b := f x) (by simp; omega)
      have hmid' : mid.toNat = acc.toNat + (f x).toNat := checkedAdd_eq_some.1 hmid
      exact ⟨mid, hmid', by omega⟩

theorem foldlM_okOr_isOk (f : α → UInt64) (e : ε) (l : List α) (acc : UInt64) (h : acc.toNat + (l.map fun x => (f x).toNat).sum < 2 ^ 64) :
    ∃ t, l.foldlM (fun sum x => Check.okOr e (checkedAdd sum (f x))) acc = .ok t ∧
      t.toNat = acc.toNat + (l.map fun x => (f x).toNat).sum := by
  have ht : (UInt64.ofNat (acc.toNat + (l.map fun x => (f x).toNat).sum)).toNat = acc.toNat + (l.map fun x => (f x).toNat).sum :=
    UInt64.toNat_ofNat_of_lt' h
  exact ⟨_, foldlM_okOr.2 ht, ht⟩

theorem foldl_add {l : List α} {acc t : UInt64} (h : l.foldlM (fun sum x => Check.okOr e (checkedAdd sum (f x))) acc = .ok t) :
    l.foldl (fun sum x => sum + f x) acc = t := by
  induction l generalizing acc with
  | nil => exact Except.ok.inj h
  | cons x l ih =>
    simp only [List.foldlM_cons, Check.bind_eq_ok, Check.okOr_eq_ok] at h
    obtain ⟨mid, hmid, h⟩ := h
    have hmid' : mid.toNat = acc.toNat + (f x).toNat := checkedAdd_eq_some.1 hmid
    have hadd : acc + f x = mid := UInt64.toNat_inj.1 (by rw [UInt64.toNat_add, ← hmid', Nat.mod_eq_of_lt mid.toNat_lt])
    rw [List.foldl_cons, hadd]
    exact ih h

theorem sum_countP {κ : Type} [DecidableEq κ] (key : α → κ) {keys : List κ} (hkeys : keys.Nodup) {l : List α}
    (hl : ∀ x ∈ l, key x ∈ keys) : (keys.map fun k => l.countP (key · == k)).sum = l.length := by
  induction l with
  | nil => simp
  | cons x l ih =>
    have hone : ∀ keys : List κ, (keys.map fun k => if (key x == k) = true then 1 else 0).sum = keys.count (key x) := by
      intro keys
      induction keys with
      | nil => rfl
      | cons k keys ih => rw [List.map_cons, List.sum_cons, ih, List.count_cons, Nat.add_comm, BEq.comm]
    have hcount := List.count_eq_one_of_mem hkeys (hl x List.mem_cons_self)
    have hrest := ih fun y hy => hl y (List.mem_cons_of_mem _ hy)
    simp only [List.countP_cons, List.sum_map_add, hone, hcount, hrest, List.length_cons]

end

/-! ### Cases -/

structure CaseResult.Reports (sha256 : Sha256) (w : World) (assignment : Assignment) (case : Case) (r : CaseResult) : Prop where
  run : ∃ result, (Witness.run w assignment case).result = .ok result ∧ r.status = result.status ∧
    r.ticksCompleted = result.ticksCompleted ∧ r.outcome = result.outcome ∧ r.ledger = result.ledger ∧
    r.finalState = .of sha256 (encodeState result.finalState) ∧ r.useful.toNat = result.finalState.delivered.length
  conserved : r.outcome.conserved = true
  work : r.ledger.units ≤ case.fuel.toNat
  useful : r.useful.toNat ≤ maxInitialSparks

section
variable {sha256 : Sha256} {w : World} {assignment : Assignment} {case : Case} {result : RunResult} {tallied : Tallied}

theorem sum_delivered {h : List Note} {s : State} (hs : Shape w s) (ha : Accounts w h s) :
    (s.beacons.map fun beacon => beacon.delivered.toUInt64.toNat).sum = s.delivered.length := by
  have hlen : s.beacons.length = w.beacons.length := by simpa using congrArg List.length hs.beacons
  have hcounts : (s.beacons.map fun beacon => beacon.delivered.toUInt64.toNat) =
      (w.beacons.map (·.id)).map fun id => s.delivered.countP (·.beacon == id) := by
    rw [List.map_map]
    refine List.ext_getElem (by simpa using hlen) ?_
    intro i hi hi'
    rw [List.length_map] at hi hi'
    have hcounted := (ha.account i _ _ (List.getElem?_eq_getElem hi') (List.getElem?_eq_getElem hi)).counted
    simpa using hcounted
  rw [hcounts]
  refine sum_countP Delivery.beacon w.checked.beaconIds ?_
  intro delivery hdelivery
  obtain ⟨beacon, hbeacon, hid, -⟩ := ha.accepted delivery hdelivery
  exact hid ▸ List.mem_map_of_mem hbeacon

theorem final_facts (h : (run w assignment case).result = .ok result) : result.ledger.units ≤ case.fuel.toNat ∧
    (result.finalState.beacons.map fun beacon => beacon.delivered.toUInt64.toNat).sum = result.finalState.delivered.length ∧
    result.finalState.delivered.length ≤ maxInitialSparks := by
  obtain ⟨f, hf, hstate, hledger⟩ := run_last h
  obtain ⟨before, after, hsplit⟩ := List.append_of_mem hf
  obtain ⟨⟨st, ⟨notes, hpath, -⟩, -⟩, -, hunits, -⟩ := (run_sound w assignment case).frames before f after hsplit
  rw [hledger] at hunits
  rw [hstate] at hpath
  have haccounts : Accounts w notes result.finalState :=
    hpath.recorded (I := fun h p => Accounts w h p.2) (.initial w) fun _ _ _ _ hs hc => hs.change hc
  have hcard := ((Conserved.initial w).changes hpath).card_le
  refine ⟨hunits, sum_delivered (.changes hpath) haccounts, Nat.le_trans ?_ hcard⟩
  simp [State.sparks, deliveredSparks]

theorem runCase_ok (sha256 : Sha256) (tallied : Tallied) (h : (run w assignment case).result = .ok result)
    (huseful : tallied.useful.toNat + maxInitialSparks < 2 ^ 64) (htotal : tallied.total.toNat + case.fuel.toNat < 2 ^ 64) :
    ∃ r useful total, runCase sha256 w assignment tallied case = .ok ⟨tallied.cases ++ [r], useful, total⟩ ∧
      r.Reports sha256 w assignment case ∧ useful.toNat = tallied.useful.toNat + r.useful.toNat ∧
      total.toNat = tallied.total.toNat + r.ledger.units := by
  obtain ⟨hunits, hsum, hsparks⟩ := final_facts h
  obtain ⟨delivered, hdelivered, hcount⟩ := foldlM_okOr_isOk (fun beacon : BeaconState => beacon.delivered.toUInt64)
    (RunRefused.engine .arithmetic) result.finalState.beacons 0 (by rw [hsum]; simp [maxInitialSparks] at hsparks ⊢; omega)
  have hdelivered' : delivered.toNat = result.finalState.delivered.length := by
    rw [hcount, hsum]
    simp
  obtain ⟨useful, huseful'⟩ := checkedAdd_isSome (a := tallied.useful) (b := delivered) (by simp; omega)
  obtain ⟨work, hwork⟩ := result.ledger.total_isSome (Nat.lt_of_le_of_lt hunits case.fuel.toNat_lt)
  have hwork' := Ledger.total_eq_some.1 hwork
  obtain ⟨total, htotal'⟩ := checkedAdd_isSome (a := tallied.total) (b := work) (by simp; omega)
  refine ⟨⟨result.status, result.ticksCompleted, result.outcome, .of sha256 (encodeState result.finalState), result.ledger, delivered⟩,
    useful, total, ?_, ⟨⟨result, h, rfl, rfl, rfl, rfl, rfl, hdelivered'⟩, (run_sound w assignment case).conserved result h, hunits, ?_⟩,
    checkedAdd_eq_some.1 huseful', ?_⟩
  · simp only [runCase, Check.bind_eq_ok, Check.mapError_eq_ok, Check.okOr_eq_ok]
    exact ⟨result, h, delivered, hdelivered, useful, huseful', work, hwork, total, htotal', rfl⟩
  · exact hdelivered'.trans_le hsparks
  · rw [← hwork']
    exact checkedAdd_eq_some.1 htotal'

theorem runCases_ok (sha256 : Sha256) (tallied : Tallied) {cases : List Case} (hreturns : ∀ case ∈ cases, ∃ result, (run w assignment case).result = .ok result)
    (huseful : tallied.useful.toNat + cases.length * maxInitialSparks < 2 ^ 64)
    (htotal : tallied.total.toNat + (cases.map fun case => case.fuel.toNat).sum < 2 ^ 64) :
    ∃ rs useful total, cases.foldlM (runCase sha256 w assignment) tallied = .ok ⟨tallied.cases ++ rs, useful, total⟩ ∧
      List.Forall₂ (CaseResult.Reports sha256 w assignment) cases rs ∧
      useful.toNat = tallied.useful.toNat + (rs.map fun r => r.useful.toNat).sum ∧
      total.toNat = tallied.total.toNat + (rs.map fun r => r.ledger.units).sum := by
  induction cases generalizing tallied with
  | nil => exact ⟨[], tallied.useful, tallied.total, by rw [List.append_nil]; rfl, .nil, rfl, rfl⟩
  | cons case cases ih =>
    rw [List.length_cons, Nat.add_mul] at huseful
    rw [List.map_cons, List.sum_cons] at htotal
    obtain ⟨result, hresult⟩ := hreturns case List.mem_cons_self
    obtain ⟨r, useful, total, hcase, hreports, huseful', htotal'⟩ := runCase_ok sha256 tallied hresult (by omega) (by omega)
    have hu := hreports.useful
    have ht := hreports.work
    obtain ⟨rs, useful', total', hrest, hall, huseful'', htotal''⟩ := ih ⟨tallied.cases ++ [r], useful, total⟩
      (fun case hm => hreturns case (List.mem_cons_of_mem _ hm)) (by simp only; omega) (by simp only; omega)
    refine ⟨r :: rs, useful', total', ?_, .cons hreports hall, ?_, ?_⟩
    · rw [List.foldlM_cons, hcase]
      simpa using hrest
    · simp only [List.map_cons, List.sum_cons] at huseful'' ⊢
      omega
    · simp only [List.map_cons, List.sum_cons] at htotal'' ⊢
      omega

end

/-! ### Whole manifests -/

section
variable {m : ValidManifest} {candidate : List (UInt16 × Program)} {assignment : Assignment}

theorem ValidManifest.cases_facts (m : ValidManifest) : (∀ case ∈ m.cases, ∃ spec, Case.new m.world spec = .ok case) ∧
    m.cases.length ≤ maxCases ∧ m.fuelTotal.toNat = (m.cases.map fun case => case.fuel.toNat).sum := by
  have h := m.valid
  simp only [TaskManifest.check, Check.bind_eq_ok, Check.mapError_eq_ok, Check.mapM_eq_ok, Check.require_eq_ok,
    Bool.and_eq_true, decide_eq_true_eq, exists_const] at h
  obtain ⟨w, -, ⟨-, hcount⟩, cases, hnew, -, fuel, hfuel, -, -, -, h⟩ := h
  obtain ⟨rfl, rfl⟩ := Prod.mk.inj (Except.ok.inj h)
  refine ⟨?_, hnew.length_eq ▸ hcount, ?_⟩
  · intro case hm
    obtain ⟨i, hi, rfl⟩ := List.mem_iff_getElem.1 hm
    exact ⟨_, hnew.get (hnew.length_eq ▸ hi) hi⟩
  · rw [ValidManifest.fuelTotal, foldl_add hfuel, foldlM_okOr.1 hfuel]
    simp

theorem assigned_returns (ha : m.assign candidate = .ok assignment) :
    ∀ case ∈ m.cases, ∃ result, (run m.world assignment case).result = .ok result := by
  obtain ⟨-, merged, -, hvalid⟩ := ValidManifest.assign_eq_ok.1 ha
  intro case hm
  obtain ⟨spec, hnew⟩ := m.cases_facts.1 case hm
  cases hr : (run m.world assignment case).result with
  | ok result => exact ⟨result, rfl⟩
  | error e =>
    rcases (run_sound m.world assignment case).error e hr with hcells | hmissing
    · exact absurd (Assignment.validate_cells hvalid) hcells
    · exact absurd hmissing (Case.not_missing hnew)

/-- What `run` checks before it executes anything. -/
structure RunCapability.Permits (sha256 : Sha256) (capability : RunCapability) (m : ValidManifest) (assignment : Assignment) : Prop where
  manifest : capability.manifest = m.hash sha256
  program : capability.program = .of sha256 (encodeAssignment assignment)
  allowance : m.fuelTotal ≤ capability.allowance.maxTotal

/-- What `run` answers on an assignment with these results. -/
def RunCapability.answer (sha256 : Sha256) (capability : RunCapability) (m : ValidManifest) (assignment : Assignment) (tallied : Tallied) :
    Except RunRefused WitnessRun :=
  if capability.manifest ≠ m.hash sha256 then .error .manifest
  else if capability.program ≠ .of sha256 (encodeAssignment assignment) then .error .program
  else if capability.allowance.maxTotal < m.fuelTotal then .error .allowance
  else .ok ⟨capability.manifest, capability.program, capability.role, tallied.cases, tallied.useful, tallied.total⟩

theorem RunCapability.answer_eq_ok {sha256 : Sha256} {capability : RunCapability} {tallied : Tallied} {run : WitnessRun} :
    capability.answer sha256 m assignment tallied = .ok run ↔ capability.Permits sha256 m assignment ∧
      run = ⟨capability.manifest, capability.program, capability.role, tallied.cases, tallied.useful, tallied.total⟩ := by
  rw [answer]
  constructor
  · intro h
    split at h <;> try cases h
    rename_i hmanifest
    split at h <;> try cases h
    rename_i hprogram
    split at h <;> cases h
    rename_i hallowance
    exact ⟨⟨not_not.1 hmanifest, not_not.1 hprogram, UInt64.not_lt.1 hallowance⟩, rfl⟩
  · rintro ⟨hp, rfl⟩
    rw [if_neg (not_not.2 hp.manifest), if_neg (not_not.2 hp.program), if_neg (UInt64.not_lt.2 hp.allowance)]

structure Results (sha256 : Sha256) (m : ValidManifest) (assignment : Assignment) (tallied : Tallied) : Prop where
  reports : List.Forall₂ (CaseResult.Reports sha256 m.world assignment) m.cases tallied.cases
  useful : tallied.useful.toNat = (tallied.cases.map fun r => r.useful.toNat).sum
  total : tallied.total.toNat = (tallied.cases.map fun r => r.ledger.units).sum
  within : tallied.total ≤ m.fuelTotal
  count : tallied.cases.length = m.cases.length ∧ m.cases.length ≤ maxCases

theorem platformRun_results (sha256 : Sha256) (ha : m.assign candidate = .ok assignment) :
    ∃ tallied, Results sha256 m assignment tallied ∧ ∀ capability,
      platformRun sha256 m assignment capability = capability.answer sha256 m assignment tallied := by
  obtain ⟨-, hcount, hfuel⟩ := m.cases_facts
  have hlt := m.fuelTotal.toNat_lt
  unfold maxCases at hcount
  obtain ⟨rs, useful, total, hcases, hall, huseful, htotal⟩ := runCases_ok sha256 ⟨[], 0, 0⟩ (assigned_returns ha)
    (by simp [maxInitialSparks]; omega) (by simp; omega)
  have hwork : ∀ {cases : List Case} {rs : List CaseResult}, List.Forall₂ (CaseResult.Reports sha256 m.world assignment) cases rs →
      (rs.map fun r => r.ledger.units).sum ≤ (cases.map fun case => case.fuel.toNat).sum := by
    intro cases rs hall
    induction hall with
    | nil => exact Nat.le_refl _
    | cons hr _ ih => simpa using Nat.add_le_add hr.work ih
  refine ⟨⟨rs, useful, total⟩, ⟨hall, by simpa using huseful, by simpa using htotal, ?_, hall.length_eq.symm, hcount⟩, ?_⟩
  · have hle := hwork hall
    show total ≤ m.fuelTotal
    rw [UInt64.le_iff_toNat_le]
    simp at htotal
    omega
  · intro capability
    simp only [platformRun, RunCapability.answer, Check.require, beq_iff_eq, decide_eq_true_eq]
    by_cases hmanifest : capability.manifest = m.hash sha256
    · by_cases hprogram : capability.program = .of sha256 (encodeAssignment assignment)
      · by_cases hallowance : m.fuelTotal ≤ capability.allowance.maxTotal
        · simp [hmanifest, hprogram, hallowance, hcases, bind, Except.bind, pure, Except.pure, UInt64.not_lt.2 hallowance]
        · simp [hmanifest, hprogram, hallowance, bind, Except.bind, UInt64.not_le.1 hallowance]
      · simp [hmanifest, hprogram, bind, Except.bind]
    · simp [hmanifest, bind, Except.bind]

theorem ClaimedReceipt.encode_inj {claimed claimed' : ClaimedReceipt} (h : claimed.encode = claimed'.encode) : claimed = claimed' := by
  have hlen : ∀ claimed : ClaimedReceipt, claimed.encode.length ≤ receiptBytes := by
    intro claimed
    simp [encode, putReceipt, receiptBytes]
  have hdecode := ClaimedReceipt.decode_eq_ok.2 ⟨h, trivial, hlen claimed'⟩
  rw [ClaimedReceipt.decode_eq_ok.2 ⟨rfl, trivial, hlen claimed⟩] at hdecode
  exact Except.ok.inj hdecode

end

/-- A run returns exactly where it is permitted, with the same results for prover and verifier; only its own claim matches its receipt. -/
theorem permitted_runs (sha256 : Sha256) {m : ValidManifest} {candidate : List (UInt16 × Program)} {assignment : Assignment}
    (ha : m.assign candidate = .ok assignment) : ∃ tallied, Results sha256 m assignment tallied ∧
      (∀ capability run, platformRun sha256 m assignment capability = .ok run ↔ capability.Permits sha256 m assignment ∧
        run = ⟨capability.manifest, capability.program, capability.role, tallied.cases, tallied.useful, tallied.total⟩) ∧
      (∀ capability error, platformRun sha256 m assignment capability ≠ .error (.engine error)) ∧
      ∀ capability run binding claimed, platformRun sha256 m assignment capability = .ok run →
        (run.intoReceipt sha256 binding).caseCount.toNat = m.cases.length ∧
        (claimed.matches (run.intoReceipt sha256 binding) = true ↔ claimed = (run.intoReceipt sha256 binding).claim) := by
  obtain ⟨tallied, hresults, hruns⟩ := platformRun_results sha256 ha
  have hok : ∀ capability run, platformRun sha256 m assignment capability = .ok run ↔ capability.Permits sha256 m assignment ∧
      run = ⟨capability.manifest, capability.program, capability.role, tallied.cases, tallied.useful, tallied.total⟩ := by
    intro capability run
    rw [hruns, RunCapability.answer_eq_ok]
  refine ⟨tallied, hresults, hok, ?_, ?_⟩
  · intro capability error h
    rw [hruns, RunCapability.answer] at h
    split at h <;> try cases h
    split at h <;> try cases h
    split at h <;> cases h
  · intro capability run binding claimed h
    obtain ⟨-, rfl⟩ := (hok capability run).1 h
    obtain ⟨hcount, hle⟩ := hresults.count
    constructor
    · show (UInt8.ofNat tallied.cases.length).toNat = m.cases.length
      rw [hcount, UInt8.toNat_ofNat_of_lt' (Nat.lt_of_le_of_lt hle (by decide))]
    · rw [ClaimedReceipt.matches, beq_iff_eq]
      constructor
      · exact fun he => ClaimedReceipt.encode_inj he
      · rintro rfl
        rfl

theorem ordered_assigned : orderedManifest.assign pairCandidate = .ok ⟨[tinyProgram, waitProgram], [1, 2], rfl⟩ := by
  decide +kernel

theorem ordered_permitted_runs : ∃ tallied, Results pairSha256 orderedManifest ⟨[tinyProgram, waitProgram], [1, 2], rfl⟩ tallied := by
  obtain ⟨tallied, hresults, -⟩ := permitted_runs pairSha256 ordered_assigned
  exact ⟨tallied, hresults⟩

end Valhalla.Witness
