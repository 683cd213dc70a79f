import Valhalla.Relay.Custody

/-!
# What the statements keep

Every statement rewrites the row of one job, or inserts one. `Sound.rewrites` says what a rewritten row has to show; the
rest is one lemma for each transaction.
-/

namespace Valhalla.Relay
open Fallible FixedWidth Check
open Valhalla.PrivateKernel (OperationId)

/-! ### One row -/

/-- One row becomes another one, and the evidence of its job may change. -/
structure Rewrites (id : Bytes32) (row row' : Row) (db db' : Db) : Prop where
  before : db.jobs[id]? = some row
  jobs : db'.jobs = db.jobs.insert id row'
  evidence : ∀ other, other ≠ id → db'.evidence[other]? = db.evidence[other]?
  binding : db'.binding = db.binding
  lineage : db'.lineage = db.lineage
  item : row'.item = row.item
  sequence : row'.sequence = row.sequence
  operation : row'.operation = row.operation

section
variable {crypto : Crypto} {log log' : List Entry} {id : Bytes32} {row row' row'' : Row} {db db' db'' : Db} {clock : Nat}

theorem Rewrites.after (h : Rewrites id row row' db db') : db'.jobs[id]? = some row' := by
  rw [h.jobs, Maps.getElem?_insert, if_pos rfl]

theorem Rewrites.other (h : Rewrites id row row' db db') {other : Bytes32} (hne : other ≠ id) :
    db'.jobs[other]? = db.jobs[other]? := by
  rw [h.jobs, Maps.getElem?_insert, if_neg (Ne.symm hne)]

theorem Rewrites.trans (h : Rewrites id row row' db db') (h' : Rewrites id row' row'' db' db'') : Rewrites id row row'' db db'' := by
  refine ⟨h.before, ?_, fun other hne => (h'.evidence other hne).trans (h.evidence other hne), h'.binding.trans h.binding,
    h'.lineage.trans h.lineage, h'.item.trans h.item, h'.sequence.trans h.sequence, h'.operation.trans h.operation⟩
  rw [h'.jobs, h.jobs]
  refine Std.ExtTreeMap.ext_getElem? fun {a} => ?_
  rw [Maps.getElem?_insert, Maps.getElem?_insert, Maps.getElem?_insert]
  split <;> rfl

theorem Rewrites.updateJob {f : Row → Row} (hrow : db.jobs[id]? = some row) (hitem : (f row).item = row.item)
    (hsequence : (f row).sequence = row.sequence) (hoperation : (f row).operation = row.operation) :
    Rewrites id row (f row) db (db.updateJob id f) := by
  unfold Db.updateJob
  rw [hrow]
  exact ⟨hrow, rfl, fun _ _ => rfl, rfl, rfl, hitem, hsequence, hoperation⟩

theorem updateJob_evidence {f : Row → Row} : (db.updateJob id f).evidence = db.evidence := by
  unfold Db.updateJob
  split <;> rfl

theorem clock_updateJob {f : Row → Row} : (db.updateJob id f).clock = db.clock := by
  unfold Db.updateJob
  split <;> rfl

theorem Rewrites.atClock (h : Rewrites id row row' db db') : Rewrites id row row' db { db' with clock } :=
  ⟨h.before, h.jobs, h.evidence, h.binding, h.lineage, h.item, h.sequence, h.operation⟩

theorem Rewrites.cases (h : Rewrites id row row' db db') {other : Bytes32} {r : Row} (hr : db'.jobs[other]? = some r) :
    (other = id ∧ r = row') ∨ (other ≠ id ∧ db.jobs[other]? = some r) := by
  by_cases hne : other = id
  · subst hne
    rw [h.after] at hr
    cases hr
    exact .inl ⟨rfl, rfl⟩
  · rw [h.other hne] at hr
    exact .inr ⟨hne, hr⟩

theorem Rewrites.old (h : Rewrites id row row' db db') {other : Bytes32} {r : Row} (hr : db'.jobs[other]? = some r) :
    ∃ r₀, db.jobs[other]? = some r₀ ∧ r.sequence = r₀.sequence ∧ r.operation = r₀.operation := by
  rcases h.cases hr with ⟨rfl, rfl⟩ | ⟨-, hr⟩
  · exact ⟨row, h.before, h.sequence, h.operation⟩
  · exact ⟨r, hr, rfl, rfl⟩

theorem Rewrites.total_le (h : Rewrites id row row' db db') {w : Bytes32 × Row → Nat} (hw : w (id, row') ≤ w (id, row)) :
    Weights.total w db'.jobs.toList ≤ Weights.total w db.jobs.toList := by
  have hnew : db'.jobs.toList.Perm ((id, row') :: (db.jobs.erase id).toList) := by
    rw [h.jobs]
    exact Maps.toList_insert_perm_erase
  rw [Weights.total_perm hnew, Weights.total_perm (Maps.toList_perm_erase h.before), Weights.total_cons, Weights.total_cons]
  exact Nat.add_le_add_right hw _

theorem length_filter_eq_total {α : Type} {p : α → Bool} (l : List α) : (l.filter p).length = Weights.total (fun a => (p a).toNat) l := by
  induction l with
  | nil => rfl
  | cons a l ih =>
    rw [List.filter_cons, Weights.total_cons, ← ih]
    cases p a with
    | false => rw [if_neg Bool.false_ne_true, Bool.toNat_false, Nat.zero_add]
    | true => rw [if_pos rfl, List.length_cons, Bool.toNat_true, Nat.add_comm]

theorem Sound.atClock (h : Sound crypto db log) : Sound crypto { db with clock } log :=
  ⟨h.kept, h.absent, h.sequences, h.operations, h.count, h.bytes, h.limits, h.lineage⟩

theorem Sound.rewrites (h : Sound crypto db log) (hrow : Rewrites id row row' db db') (hlive : row'.live = true → row.live = true)
    (hlog : ∀ other, other ≠ id → Agree other log log') (hkept : Kept crypto db.binding log' db'.evidence[id]? id row') :
    Sound crypto db' log' := by
  refine ⟨fun other r hr => ?_, fun other hnone => ?_, fun a b ra rb ha hb hab => ?_, fun a b ra rb ha hb hab => ?_, ?_, ?_, ?_, ?_⟩
  · rw [hrow.binding]
    rcases hrow.cases hr with ⟨rfl, rfl⟩ | ⟨hne, hr⟩
    · exact hkept
    · rw [hrow.evidence other hne]
      exact (h.kept other r hr).congr (hlog other hne)
  · have hne : other ≠ id := by
      rintro rfl
      rw [hrow.after] at hnone
      cases hnone
    rw [hrow.other hne] at hnone
    rw [hrow.evidence other hne]
    obtain ⟨hevidence, hentries⟩ := h.absent other hnone
    exact ⟨hevidence, fun entry hentry hid => hentries entry (((hlog other hne).mem entry hid).1 hentry) hid⟩
  · obtain ⟨ra₀, ha₀, hsa, -⟩ := hrow.old ha
    obtain ⟨rb₀, hb₀, hsb, -⟩ := hrow.old hb
    exact h.sequences a b ra₀ rb₀ ha₀ hb₀ (by rw [← hsa, ← hsb, hab])
  · obtain ⟨ra₀, ha₀, -, hoa⟩ := hrow.old ha
    obtain ⟨rb₀, hb₀, -, hob⟩ := hrow.old hb
    exact h.operations a b ra₀ rb₀ ha₀ hb₀ (by rw [← hoa, ← hob, hab])
  · rw [hrow.binding, length_filter_eq_total]
    refine Nat.le_trans (hrow.total_le ?_) (by rw [← length_filter_eq_total]; exact h.count)
    show row'.live.toNat ≤ row.live.toNat
    cases hl : row'.live with
    | false => exact Nat.zero_le _
    | true => rw [hlive hl]
  · rw [hrow.binding, hrow.lineage]
    refine Nat.le_trans (Nat.add_le_add_right (hrow.total_le ?_) _) h.bytes
    show row'.item.length ≤ row.item.length
    rw [hrow.item]
  · rw [hrow.binding]
    exact h.limits
  · have hsame : db'.checkedLineage = db.checkedLineage := by rw [Db.checkedLineage, Db.checkedLineage, hrow.lineage]
    rw [hsame, hrow.lineage]
    exact h.lineage

theorem live_of_state (h : row.state = 0 ∨ row.state = 1) : row.live = true := by
  unfold Row.live
  rcases h with h | h <;> rw [h] <;> rfl

theorem Shape.waiting (h : Shape log id row) (hstate : row.state = 0 ∨ row.state = 1) :
    row.position = none ∧ row.uncertain ≤ 1 ∧ row.state ≠ 2 := by
  cases h with
  | pending hs hu hp => exact ⟨hp, by omega, by omega⟩
  | uncertain hs hu hp => exact ⟨hp, by omega, by omega⟩
  | retained hs => omega
  | stopped hs => omega

/-! ### The transactions of a tick -/

theorem Sound.stop (h : Sound crypto db log) (hrow : db.jobs[id]? = some row) (hstate : row.state = 0 ∨ row.state = 1)
    (hspent : row.attempts ≥ db.binding.policy.maxAttempts) :
    Rewrites id row { row with state := 3 } db (db.stop id) ∧ Sound crypto (db.stop id) log := by
  have hrewrites : Rewrites id row { row with state := 3 } db (db.stop id) :=
    Rewrites.updateJob (f := fun row => { row with state := 3 }) hrow rfl rfl rfl
  have hkept := h.kept id row hrow
  obtain ⟨hposition, huncertain, hlive⟩ := hkept.shape.waiting hstate
  have hmax := (maxAttempts_le h.limits).1
  refine ⟨hrewrites, h.rewrites hrewrites (fun _ => live_of_state hstate) (fun _ _ => .refl) ?_⟩
  rw [Db.stop, updateJob_evidence]
  exact {
    item := by
      obtain ⟨item, hitem⟩ := hkept.item
      exact ⟨item, ⟨hitem.bytes, hitem.digest, hitem.scope, hitem.sequence, hitem.operation⟩⟩
    shape := .stopped rfl huncertain hposition
    error := hkept.error
    attempts := hkept.attempts
    budget := hkept.budget
    spent := hkept.spent
    fresh := fun hzero => absurd hzero (by show row.attempts ≠ 0; omega)
    doubt := fun _ ending hm hd => hkept.doubt hlive ending hm hd
    outage := fun ending hl ho => absurd (hkept.outage ending hl ho).2 (Nat.not_lt.2 hspent)
    bounded := hkept.bounded }

def Row.charged (row : Row) (due : Nat) : Row :=
  { row with state := 1, attempts := row.attempts + 1, nextDue := due, uncertain := 1, lastError := 0 }

theorem Sound.charge (due : Nat) (h : Sound crypto db log) (hrow : db.jobs[id]? = some row) (hstate : row.state = 0 ∨ row.state = 1)
    (hroom : row.attempts < db.binding.policy.maxAttempts) :
    Rewrites id row (row.charged due) db (db.charge id (row.attempts + 1) due) ∧
      Sound crypto (db.charge id (row.attempts + 1) due) (.attempt id .unknown :: log) := by
  have hrewrites : Rewrites id row (row.charged due) db (db.charge id (row.attempts + 1) due) :=
    Rewrites.updateJob (f := fun r => { r with state := 1, attempts := row.attempts + 1, nextDue := due, uncertain := 1, lastError := 0 })
      hrow rfl rfl rfl
  have hkept := h.kept id row hrow
  obtain ⟨hposition, -, -⟩ := hkept.shape.waiting hstate
  refine ⟨hrewrites, h.rewrites hrewrites (fun _ => live_of_state hstate) (fun other hne => .cons (Ne.symm hne)) ?_⟩
  rw [Db.charge, updateJob_evidence]
  have hcharges : Ending.unknown.charges = true := rfl
  exact {
    item := by
      obtain ⟨item, hitem⟩ := hkept.item
      exact ⟨item, ⟨hitem.bytes, hitem.digest, hitem.scope, hitem.sequence, hitem.operation⟩⟩
    shape := .uncertain rfl rfl hposition
    error := Nat.zero_le _
    attempts := by
      show row.attempts + 1 = _
      rw [charged_attempt, hcharges, if_pos rfl, hkept.attempts, Nat.add_comm]
    budget := hroom
    spent := by
      show _ = row.attempts + 1 + _
      rw [total_attempt, hcharges, if_pos rfl, hkept.spent]
      omega
    fresh := fun hzero => absurd hzero (Nat.succ_ne_zero _)
    doubt := fun _ _ _ _ => rfl
    outage := fun ending hl ho => by
      rw [latest_cons, if_pos (show Entry.id (.attempt id .unknown) = id from rfl)] at hl
      cases hl
      cases ho
    bounded := hkept.bounded }

structure Before (log : List Entry) (id : Bytes32) (row : Row) (prior : JobStatus) : Prop where
  attempts : row.attempts = prior.attempts + 1
  doubt : ∀ ending, .attempt id ending ∈ log → ending.doubtful id = true → prior.uncertain = true

def Row.settled (row : Row) (prior : JobStatus) (result : Store.Settlement) : Row :=
  { row with
    state := result.state, attempts := if result.outage then prior.attempts else row.attempts, uncertain := result.uncertain.toNat,
    position := result.position, lastError := result.error }

theorem Rewrites.outage (attempts : Nat) (hrow : db.jobs[id]? = some row) :
    Rewrites id row { row with attempts } db ((db.recordOutage id).uncharge id attempts) := by
  have hout : (db.recordOutage id).jobs[id]? = some row := hrow
  have huncharge := Rewrites.updateJob (f := fun r => { r with attempts }) hout rfl rfl rfl
  refine ⟨hrow, huncharge.jobs, fun other hne => ?_, huncharge.binding, huncharge.lineage, rfl, rfl, rfl⟩
  rw [Db.uncharge, updateJob_evidence]
  exact Maps.getElem?_insert.trans (if_neg (Ne.symm hne))

theorem Rewrites.settled (prior : JobStatus) (result : Store.Settlement) (hrow : db.jobs[id]? = some row) :
    Rewrites id row (row.settled prior result) db (Store.settled id prior result db) := by
  have hsettle : ∀ {db : Db} {row : Row}, db.jobs[id]? = some row → Rewrites id row
      { row with state := result.state, uncertain := result.uncertain.toNat, position := result.position, lastError := result.error }
      db (db.settle id result.state result.uncertain result.position result.error) := fun hrow =>
    Rewrites.updateJob (f := fun r =>
      { r with state := result.state, uncertain := result.uncertain.toNat, position := result.position, lastError := result.error })
      hrow rfl rfl rfl
  unfold Store.settled Row.settled
  cases result.outage with
  | false => exact hsettle hrow
  | true =>
    have hout := Rewrites.outage prior.attempts hrow
    exact hout.trans (hsettle hout.after)

theorem evidence_settled {prior : JobStatus} {result : Store.Settlement} :
    (Store.settled id prior result db).evidence[id]? =
      if result.outage then some (.outage db.evidence[id]?) else db.evidence[id]? := by
  unfold Store.settled Db.settle
  rw [updateJob_evidence]
  cases result.outage with
  | false => rfl
  | true =>
    rw [if_pos rfl, if_pos rfl, Db.uncharge, updateJob_evidence]
    exact Maps.getElem?_insert.trans (if_pos rfl)

/-- The columns of an answer agree with it. -/
structure Settles (log : List Entry) (id : Bytes32) (row : Row) (prior : JobStatus) (answer : Except NetError RelayReceipt)
    (result : Store.Settlement) : Prop where
  shape : Shape (.attempt id (.answered answer) :: log) id (row.settled prior result)
  error : result.error ≤ 9
  outage : result.outage = (Ending.answered answer).outage
  waits : result.outage = true → result.state = 1
  doubt : result.state ≠ 2 → (Ending.answered answer).doubtful id = true ∨ prior.uncertain = true → result.uncertain = true

theorem errorCode_le (error : NetError) : errorCode error ≤ 9 := by
  cases error <;> decide

theorem not_permanent_of_outage {error : NetError} (h : Store.isOutage error = true) : Store.isPermanent error = false := by
  cases error <;> first | rfl | cases h

theorem settlement_settles {policy : RetryPolicy} {prior : JobStatus} {attempt : Nat} (answer : Except NetError RelayReceipt) :
    Settles log id row prior answer (Store.settlement policy id prior attempt answer) := by
  cases answer with
  | ok receipt =>
    by_cases hc : Store.isRetention id receipt = true
    · simp only [Store.settlement, if_pos hc]
      exact ⟨.retained rfl rfl receipt List.mem_cons_self hc rfl, Nat.zero_le _, rfl, (fun h => by cases h), fun h => absurd rfl h⟩
    · simp only [Store.settlement, if_neg hc]
      exact ⟨.stopped rfl (Nat.le_refl _) rfl, errorCode_le .malformed, rfl, (fun h => by cases h), fun _ _ => rfl⟩
  | error error =>
    simp only [Store.settlement]
    cases hout : Store.isOutage error with
    | true =>
      simp only [not_permanent_of_outage hout, Bool.not_true, Bool.false_and, Bool.or_false, Bool.or_true, if_true, Bool.false_eq_true, if_false]
      exact ⟨.uncertain rfl rfl rfl, errorCode_le _, hout.symm, fun _ => rfl, fun _ _ => rfl⟩
    | false =>
      simp only [Bool.or_false, Bool.not_false, Bool.true_and]
      refine ⟨?_, errorCode_le _, hout.symm, (fun h => by cases h), fun _ hd => ?_⟩
      · split
        · exact .stopped rfl (Bool.toNat_le _) rfl
        · cases prior.uncertain with
          | true => exact .uncertain rfl rfl rfl
          | false => exact .pending rfl rfl rfl
      · rcases hd with hd | hd
        · rw [Ending.doubtful, hout] at hd
          cases hd
        · exact hd

theorem Sound.settle {prior : JobStatus} {answer : Except NetError RelayReceipt} {result : Store.Settlement}
    (h : Sound crypto db (.attempt id .unknown :: log)) (hrow : db.jobs[id]? = some row) (hstate : row.state = 1)
    (hbefore : Before log id row prior) (hroom : prior.attempts < db.binding.policy.maxAttempts)
    (hs : Settles log id row prior answer result) :
    Rewrites id row (row.settled prior result) db (Store.settled id prior result db) ∧
      Sound crypto (Store.settled id prior result db) (.attempt id (.answered answer) :: log) := by
  have hrewrites := Rewrites.settled prior result hrow
  have hkept := h.kept id row hrow
  have hunknown : Ending.unknown.charges = true := rfl
  have hcharged : charged id log = prior.attempts := by
    have hattempts := hkept.attempts
    rw [charged_attempt, hunknown, if_pos rfl, hbefore.attempts] at hattempts
    omega
  have htotal : total id log = prior.attempts + (db.evidence[id]?.map EvidenceRow.spentAttempts).getD 0 := by
    have hspent := hkept.spent
    rw [total_attempt, hunknown, if_pos rfl, hbefore.attempts] at hspent
    omega
  have hcharges : (Ending.answered answer).charges = !result.outage := by rw [hs.outage]; rfl
  have hlatest : ∀ ending, latest id (.attempt id (.answered answer) :: log) = some (.attempt id ending) → ending = .answered answer := by
    intro ending hl
    rw [latest_cons, if_pos (show Entry.id (.attempt id (.answered answer)) = id from rfl)] at hl
    cases hl
    rfl
  have hagree : ∀ other, other ≠ id → Agree other (.attempt id .unknown :: log) (.attempt id (.answered answer) :: log) :=
    fun other hne => (Agree.cons (Ne.symm hne)).symm.trans (.cons (Ne.symm hne))
  refine ⟨hrewrites, h.rewrites hrewrites (fun _ => live_of_state (.inr hstate)) hagree ?_⟩
  rw [evidence_settled]
  exact {
    item := by
      obtain ⟨item, hitem⟩ := hkept.item
      exact ⟨item, ⟨hitem.bytes, hitem.digest, hitem.scope, hitem.sequence, hitem.operation⟩⟩
    shape := hs.shape
    error := hs.error
    attempts := by
      show (if result.outage then prior.attempts else row.attempts) = _
      rw [charged_attempt, hcharges, hcharged, hbefore.attempts]
      cases result.outage with
      | false => exact Nat.add_comm ..
      | true => exact (Nat.zero_add _).symm
    budget := by
      show (if result.outage then prior.attempts else row.attempts) ≤ _
      rw [hbefore.attempts]
      split <;> omega
    spent := by
      show _ = (if result.outage then prior.attempts else row.attempts) + _
      rw [total_attempt, hcharges, htotal, hbefore.attempts]
      cases result.outage with
      | false => exact Nat.add_right_comm ..
      | true => cases db.evidence[id]? <;> rfl
    fresh := by
      show (if result.outage then prior.attempts else row.attempts) = 0 → _
      rw [hbefore.attempts]
      cases result.outage with
      | false => exact fun hzero => absurd hzero (Nat.succ_ne_zero _)
      | true =>
        intro _ _
        refine ⟨_, rfl, .inl ?_⟩
        cases db.evidence[id]? with
        | none => exact Nat.one_ne_zero
        | some e =>
          show min (e.outages + 1) maxOutages ≠ 0
          rw [maxOutages]
          omega
    doubt := by
      intro hne ending hm hd
      show result.uncertain.toNat = 1
      rw [hs.doubt hne]
      · rfl
      rcases List.mem_cons.1 hm with hm | hm
      · cases hm
        exact .inl hd
      · exact .inr (hbefore.doubt ending hm hd)
    outage := by
      intro ending hl ho
      rw [hlatest ending hl, ← hs.outage] at ho
      refine ⟨hs.waits ho, ?_⟩
      show (if result.outage then prior.attempts else row.attempts) < _
      rw [ho, if_pos rfl]
      exact hroom
    bounded := by
      intro e he
      cases hout : result.outage with
      | false =>
        rw [hout, if_neg Bool.false_ne_true] at he
        exact hkept.bounded e he
      | true =>
        rw [hout, if_pos rfl] at he
        cases he
        cases hold : db.evidence[id]? with
        | none => exact ⟨by decide, by decide, by decide⟩
        | some old =>
          obtain ⟨-, hres, hspent⟩ := hkept.bounded old hold
          refine ⟨?_, hres, hspent⟩
          show min (old.outages + 1) maxOutages < 2 ^ 32
          rw [maxOutages]
          omega }

/-! ### Resuming -/

/-- The evidence of a job that `resume` re-arms still reads back. -/
def Fits (db : Db) (id : Bytes32) : Prop :=
  ∀ row : Row, db.jobs[id]? = some row → (db.evidence[id]?.map EvidenceRow.resumes).getD 0 + 1 < 2 ^ 32 ∧
    (db.evidence[id]?.map EvidenceRow.spentAttempts).getD 0 + row.attempts < 2 ^ 32

def Row.rearmed (row : Row) (clock : Nat) : Row := { row with state := row.uncertain, attempts := 0, nextDue := clock }

theorem resumes_resumed {attempts clock : Nat} {old : Option EvidenceRow} :
    (EvidenceRow.resumed attempts clock old).resumes = (old.map EvidenceRow.resumes).getD 0 + 1 := by
  cases old with
  | none => rfl
  | some old => rfl

theorem spent_resumed {attempts clock : Nat} {old : Option EvidenceRow} :
    (EvidenceRow.resumed attempts clock old).spentAttempts = (old.map EvidenceRow.spentAttempts).getD 0 + attempts := by
  cases old with
  | none => exact (Nat.zero_add _).symm
  | some old => rfl

theorem Sound.rearmed (clock : Nat) (h : Sound crypto db log) (hrow : db.jobs[id]? = some row) :
    ∃ db', Db.rearm clock db id = .ok db' ∧ db'.clock = db.clock ∧ Rewrites id row (row.rearmed clock) db db' ∧
      db'.evidence[id]? = some (EvidenceRow.resumed row.attempts clock db.evidence[id]?) := by
  obtain ⟨prior, hprior, hreports⟩ := h.status hrow
  obtain ⟨e, he⟩ : ∃ e, EvidenceRow.resumed row.attempts clock db.evidence[id]? = e := ⟨_, rfl⟩
  have hinsert : ({ db with evidence := db.evidence.insert id e } : Db).jobs[id]? = some row := hrow
  have hupdate := Rewrites.updateJob (f := fun r => { r with state := prior.uncertain.toNat, attempts := 0, nextDue := clock }) hinsert rfl rfl rfl
  refine ⟨_, ?_, ?_, ⟨hrow, ?_, fun other hne => ?_, hupdate.binding, hupdate.lineage, rfl, rfl, rfl⟩, ?_⟩
  · rw [Db.rearm, hprior]
    show Except.ok _ = Except.ok _
    rw [hreports.attempts, he]
  · exact clock_updateJob
  · rw [hupdate.jobs, hreports.uncertain]
    rfl
  · rw [updateJob_evidence]
    exact Maps.getElem?_insert.trans (if_neg (Ne.symm hne))
  · rw [updateJob_evidence, he]
    exact Maps.getElem?_insert.trans (if_pos rfl)

theorem Sound.rearm (clock : Nat) (h : Sound crypto db log) (hrow : db.jobs[id]? = some row) (hstate : row.state = 3) (hfits : Fits db id) :
    ∃ db', Db.rearm clock db id = .ok db' ∧ db'.clock = db.clock ∧ Rewrites id row (row.rearmed clock) db db' ∧
      Sound crypto db' (.resumed id :: log) := by
  have hkept := h.kept id row hrow
  obtain ⟨hresumes, hspent⟩ := hfits row hrow
  obtain ⟨db', hrearm, hclock, hrewrites, hevidence⟩ := h.rearmed clock hrow
  obtain ⟨e, he, heresumes, hespent, heoutages⟩ : ∃ e, EvidenceRow.resumed row.attempts clock db.evidence[id]? = e ∧
      e.resumes = (db.evidence[id]?.map EvidenceRow.resumes).getD 0 + 1 ∧
      e.spentAttempts = (db.evidence[id]?.map EvidenceRow.spentAttempts).getD 0 + row.attempts ∧ e.outages < 2 ^ 32 := by
    refine ⟨_, rfl, resumes_resumed, spent_resumed, ?_⟩
    cases hold : db.evidence[id]? with
    | none => exact Nat.two_pow_pos 32
    | some old => exact (hkept.bounded old hold).1
  have hlive : row.live = true := by
    rw [Row.live, hstate]
    rfl
  obtain ⟨huncertain, hposition, hne⟩ : row.uncertain ≤ 1 ∧ row.position = none ∧ row.state ≠ 2 := by
    cases hkept.shape with
    | stopped hs hu hp => exact ⟨hu, hp, by omega⟩
    | pending hs => omega
    | uncertain hs => omega
    | retained hs => omega
  refine ⟨db', hrearm, hclock, hrewrites, h.rewrites hrewrites (fun _ => hlive) (fun other hother => .cons (Ne.symm hother)) ?_⟩
  · rw [hevidence, he]
    exact {
      item := by
        obtain ⟨item, hitem⟩ := hkept.item
        exact ⟨item, ⟨hitem.bytes, hitem.digest, hitem.scope, hitem.sequence, hitem.operation⟩⟩
      shape := by
        rcases Nat.le_one_iff_eq_zero_or_eq_one.1 huncertain with hu | hu
        · exact .pending hu hu hposition
        · exact .uncertain hu hu hposition
      error := hkept.error
      attempts := charged_resumed.symm
      budget := Nat.zero_le _
      spent := by
        show _ = 0 + e.spentAttempts
        rw [total_resumed, hkept.spent, hespent]
        omega
      fresh := fun _ _ => ⟨e, rfl, .inr (by omega)⟩
      doubt := fun _ ending hm hd => hkept.doubt hne ending (List.mem_of_ne_of_mem (fun h => by cases h) hm) hd
      outage := fun ending hl _ => by
        rw [latest_cons, if_pos (show Entry.id (.resumed id) = id from rfl)] at hl
        cases hl
      bounded := fun e' he' => by
        cases he'
        exact ⟨heoutages, by omega, by omega⟩ }

/-! ### A new job -/

theorem charged_absent (h : ∀ entry ∈ log, entry.id ≠ id) : charged id log = 0 ∧ total id log = 0 ∧ latest id log = none := by
  induction log with
  | nil => exact ⟨rfl, rfl, rfl⟩
  | cons entry log ih =>
    obtain ⟨hc, ht, hl⟩ := ih fun entry' he => h entry' (List.mem_cons_of_mem _ he)
    have hagree : Agree id log (entry :: log) := .cons (h entry List.mem_cons_self)
    exact ⟨hagree.charged.trans hc, hagree.total.trans ht, hagree.latest.trans hl⟩

def newRow (crypto : Crypto) (item : RelayItem) (clock : Nat) : Row :=
  ⟨beVector 8 item.sequence.toNat, item.operation.bytes, item.encode crypto, 0, 0, clock, 0, none, 0⟩

theorem Sound.insertJob {item : RelayItem} (clock : Nat) (h : Sound crypto db log) (hnew : db.jobs[item.digest crypto]? = none)
    (hscope : item.scope.bytes = db.binding.scope)
    (hfree : ∀ (other : Bytes32) (r : Row), db.jobs[other]? = some r → r.sequence ≠ beVector 8 item.sequence.toNat ∧ r.operation ≠ item.operation.bytes)
    (hcount : (db.jobs.toList.filter fun entry => entry.2.live).length < db.binding.limits.maxJobs)
    (hbytes : Weights.total (fun entry => entry.2.item.length) db.jobs.toList + Db.inherited db.lineage + (item.encode crypto).length ≤
      db.binding.limits.maxBytes) :
    Sound crypto (db.insertJob crypto item clock) log := by
  obtain ⟨hevidence, hentries⟩ := h.absent _ hnew
  have hjobs : (db.insertJob crypto item clock).jobs = db.jobs.insert (item.digest crypto) (newRow crypto item clock) := rfl
  have hperm := Maps.toList_insert_perm hnew (v := newRow crypto item clock)
  have hrows : ∀ (other : Bytes32) (r : Row), (db.insertJob crypto item clock).jobs[other]? = some r →
      (other = item.digest crypto ∧ r = newRow crypto item clock) ∨ db.jobs[other]? = some r := by
    intro other r hr
    rw [hjobs, Maps.getElem?_insert] at hr
    split at hr
    · rename_i hsame
      cases hr
      exact .inl ⟨hsame.symm, rfl⟩
    · exact .inr hr
  obtain ⟨hcharged, htotal, hlatest⟩ := charged_absent hentries
  refine ⟨fun other r hr => ?_, fun other hnone => ?_, fun a b ra rb ha hb hab => ?_, fun a b ra rb ha hb hab => ?_, ?_, ?_, h.limits, h.lineage⟩
  · rcases hrows other r hr with ⟨rfl, rfl⟩ | hr
    · exact {
        item := ⟨item, ⟨rfl, rfl, hscope, rfl, rfl⟩⟩
        shape := .pending rfl rfl rfl
        error := Nat.zero_le _
        attempts := hcharged.symm
        budget := Nat.zero_le _
        spent := by
          show _ = 0 + (db.evidence[item.digest crypto]?.map EvidenceRow.spentAttempts).getD 0
          rw [htotal, hevidence]
          rfl
        fresh := fun _ hne => absurd rfl hne
        doubt := fun _ ending hm _ => absurd rfl (hentries _ hm)
        outage := fun ending hl _ => by
          rw [hlatest] at hl
          cases hl
        bounded := fun e he => by
          rw [show (db.insertJob crypto item clock).evidence = db.evidence from rfl, hevidence] at he
          cases he }
    · exact h.kept other r hr
  · rw [hjobs, Maps.getElem?_insert] at hnone
    split at hnone
    · cases hnone
    · exact h.absent other hnone
  · rcases hrows a ra ha with ⟨rfl, rfl⟩ | ha <;> rcases hrows b rb hb with ⟨rfl, rfl⟩ | hb
    · rfl
    · exact absurd hab.symm (hfree b rb hb).1
    · exact absurd hab (hfree a ra ha).1
    · exact h.sequences a b ra rb ha hb hab
  · rcases hrows a ra ha with ⟨rfl, rfl⟩ | ha <;> rcases hrows b rb hb with ⟨rfl, rfl⟩ | hb
    · rfl
    · exact absurd hab.symm (hfree b rb hb).2
    · exact absurd hab (hfree a ra ha).2
    · exact h.operations a b ra rb ha hb hab
  · show ((db.insertJob crypto item clock).jobs.toList.filter fun entry => entry.2.live).length ≤ db.binding.limits.maxJobs
    rw [hjobs, length_filter_eq_total, Weights.total_perm hperm, Weights.total_cons, ← length_filter_eq_total]
    show 1 + _ ≤ _
    omega
  · show Weights.total _ (db.insertJob crypto item clock).jobs.toList + Db.inherited db.lineage ≤ db.binding.limits.maxBytes
    rw [hjobs, Weights.total_perm hperm, Weights.total_cons]
    show (item.encode crypto).length + _ + _ ≤ _
    omega

theorem sound_created {binding : Binding} {seed : Option (Lineage × UInt64)} (h : Db.created binding seed = .ok db) : Sound crypto db [] := by
  have hempty : ∀ {db : Db}, db.jobs = ∅ → db.evidence = ∅ → checkLimits db.binding.limits db.binding.policy = .ok () →
      db.checkedLineage = .ok db.lineage → Db.inherited db.lineage ≤ db.binding.limits.maxBytes → Sound crypto db [] := by
    intro db hjobs hevidence hlimits hlineage hbytes
    have hnone : ∀ id : Bytes32, db.jobs[id]? = none := fun id => by rw [hjobs]; exact Std.ExtTreeMap.getElem?_empty
    have habsent : ∀ {id : Bytes32} {row : Row} {P : Prop}, db.jobs[id]? = some row → P := fun {id row P} hrow => by
      rw [hnone] at hrow
      cases hrow
    refine ⟨fun _ _ hrow => habsent hrow, fun id _ => ⟨by rw [hevidence]; exact Std.ExtTreeMap.getElem?_empty, fun _ he => by cases he⟩,
      fun _ _ _ _ hrow => habsent hrow, fun _ _ _ _ hrow => habsent hrow, ?_, ?_, hlimits, hlineage⟩
    · rw [hjobs, Maps.toList_empty]
      exact Nat.zero_le _
    · rw [hjobs, Maps.toList_empty, Weights.total_nil, Nat.zero_add]
      exact hbytes
  simp only [Db.created, bind_eq_ok] at h
  obtain ⟨_, hlimits, h⟩ := h
  cases seed with
  | none =>
    cases h
    exact hempty rfl rfl hlimits rfl (Nat.zero_le _)
  | some seed =>
    simp only [bind_eq_ok] at h
    obtain ⟨_, hprior, _, hseed, h⟩ := h
    cases h
    simp only [require_eq_ok, Bool.and_eq_true, decide_eq_true_eq] at hseed
    refine hempty rfl rfl hlimits ?_ hseed.1.1.2
    have hcheck : (decide (1 ≤ seed.1.generation) && decide (seed.1.generation < maxGenerations) &&
        seed.1.receipt != Vector.replicate 32 0) = true := by
      rw [Bool.and_eq_true, Bool.and_eq_true, decide_eq_true_eq, decide_eq_true_eq]
      exact hseed.1.1.1
    simp only [Db.checkedLineage, hcheck, hprior, require, if_true, bind, Except.bind, pure, Except.pure]

end

end Valhalla.Relay
