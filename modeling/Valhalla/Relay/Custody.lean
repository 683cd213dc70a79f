import Valhalla.Relay.Delivery

/-!
# What the tables say about the attempts

`Kept` relates the row of a job, and its evidence, to what happened to the job. `Sound` says it of every job, and that
the queue stays within its limits. What is sound reads back without an error.
-/

namespace Valhalla.Relay
open Fallible FixedWidth Check
open Valhalla.PrivateKernel (OperationId)

/-! ### Attempts in the log -/

def Entry.id : Entry → Bytes32
  | .attempt id _ => id
  | .resumed id => id

namespace Ending

def outage : Ending → Bool
  | .answered (.error error) => Store.isOutage error
  | _ => false

def charges (ending : Ending) : Bool := !ending.outage

def doubtful (id : Bytes32) : Ending → Bool
  | .unknown => true
  | .answered (.ok receipt) => !Store.isRetention id receipt
  | .answered (.error error) => Store.isOutage error

end Ending

def Entry.charges (id : Bytes32) : Entry → Bool
  | .attempt id' ending => id' == id && ending.charges
  | .resumed _ => false

def total (id : Bytes32) (log : List Entry) : Nat := log.countP (Entry.charges id)

def charged (id : Bytes32) : List Entry → Nat
  | [] => 0
  | .resumed id' :: log => if id' = id then 0 else charged id log
  | .attempt id' ending :: log => (if id' = id && ending.charges then 1 else 0) + charged id log

/-- The last that happened to a job. -/
def latest (id : Bytes32) (log : List Entry) : Option Entry := log.find? fun entry => entry.id == id

section
variable {id id' : Bytes32} {log log' : List Entry} {entry : Entry} {ending : Ending}

theorem latest_cons : latest id (entry :: log) = if entry.id = id then some entry else latest id log := by
  unfold latest
  rw [List.find?_cons]
  by_cases h : entry.id = id
  · rw [if_pos h, beq_iff_eq.2 h]
  · rw [if_neg h, beq_eq_false_iff_ne.2 h]

theorem total_attempt : total id (.attempt id ending :: log) = total id log + if ending.charges then 1 else 0 := by
  unfold total
  rw [List.countP_cons, Entry.charges, beq_self_eq_true, Bool.true_and]

theorem total_resumed : total id (.resumed id' :: log) = total id log := by
  unfold total
  rw [List.countP_cons]
  rfl

theorem charged_attempt : charged id (.attempt id ending :: log) = (if ending.charges then 1 else 0) + charged id log := by
  simp [charged]

theorem charged_resumed : charged id (.resumed id :: log) = 0 := if_pos rfl

/-- Two logs say the same of a job. -/
structure Agree (id : Bytes32) (log log' : List Entry) : Prop where
  total : total id log' = total id log
  charged : charged id log' = charged id log
  latest : latest id log' = latest id log
  mem : ∀ entry, entry.id = id → (entry ∈ log' ↔ entry ∈ log)

theorem Agree.refl : Agree id log log := ⟨rfl, rfl, rfl, fun _ _ => Iff.rfl⟩

theorem Agree.symm (h : Agree id log log') : Agree id log' log :=
  ⟨h.total.symm, h.charged.symm, h.latest.symm, fun entry he => (h.mem entry he).symm⟩

theorem Agree.trans {log'' : List Entry} (h : Agree id log log') (h' : Agree id log' log'') : Agree id log log'' :=
  ⟨h'.total.trans h.total, h'.charged.trans h.charged, h'.latest.trans h.latest, fun entry he =>
    (h'.mem entry he).trans (h.mem entry he)⟩

theorem Agree.cons (h : entry.id ≠ id) : Agree id log (entry :: log) := by
  refine ⟨?_, ?_, by rw [latest_cons, if_neg h], fun other hother => ?_⟩
  · unfold Relay.total
    rw [List.countP_cons, if_neg, Nat.add_zero]
    cases entry with
    | attempt id' ending =>
      have hne : id' ≠ id := h
      rw [Entry.charges, beq_eq_false_iff_ne.2 hne]
      exact Bool.false_ne_true
    | resumed id' => exact Bool.false_ne_true
  · cases entry with
    | attempt id' ending =>
      have hne : id' ≠ id := h
      rw [Relay.charged, decide_eq_false hne, Bool.false_and, if_neg Bool.false_ne_true, Nat.zero_add]
    | resumed id' => exact if_neg h
  · rw [List.mem_cons, or_iff_right]
    rintro rfl
    exact h hother

end

/-! ### The row of a job -/

section
variable (crypto : Crypto) (binding : Binding) (log : List Entry)

/-- The columns that each state goes with. -/
inductive Shape (id : Bytes32) (row : Row) : Prop
  | pending (state : row.state = 0) (uncertain : row.uncertain = 0) (position : row.position = none)
  | uncertain (state : row.state = 1) (uncertain : row.uncertain = 1) (position : row.position = none)
  | retained (state : row.state = 2) (uncertain : row.uncertain = 0) (receipt : RelayReceipt)
      (received : .attempt id (.answered (.ok receipt)) ∈ log) (checked : Store.isRetention id receipt = true)
      (position : row.position = some receipt.position.toNat)
  | stopped (state : row.state = 3) (uncertain : row.uncertain ≤ 1) (position : row.position = none)

structure Carries (id : Bytes32) (row : Row) (item : RelayItem) : Prop where
  bytes : row.item = item.encode crypto
  digest : item.digest crypto = id
  scope : item.scope.bytes = binding.scope
  sequence : row.sequence = beVector 8 item.sequence.toNat
  operation : row.operation = item.operation.bytes

/-- What a row says of what happened to its job. -/
structure Kept (evidence : Option EvidenceRow) (id : Bytes32) (row : Row) : Prop where
  item : ∃ item, Carries crypto binding id row item
  shape : Shape log id row
  error : row.lastError ≤ 9
  attempts : row.attempts = charged id log
  budget : row.attempts ≤ binding.policy.maxAttempts
  spent : total id log = row.attempts + (evidence.map EvidenceRow.spentAttempts).getD 0
  fresh : row.attempts = 0 → row.state ≠ 0 → ∃ e, evidence = some e ∧ (e.outages ≠ 0 ∨ e.resumes ≠ 0)
  doubt : row.state ≠ 2 → ∀ ending, .attempt id ending ∈ log → ending.doubtful id = true → row.uncertain = 1
  outage : ∀ ending, latest id log = some (.attempt id ending) → ending.outage = true →
    row.state = 1 ∧ row.attempts < binding.policy.maxAttempts
  bounded : ∀ e, evidence = some e → e.outages < 2 ^ 32 ∧ e.resumes < 2 ^ 32 ∧ e.spentAttempts < 2 ^ 32

end

/-- What holds of the database and of what happened. -/
structure Sound (crypto : Crypto) (db : Db) (log : List Entry) : Prop where
  kept : ∀ (id : Bytes32) (row : Row), db.jobs[id]? = some row → Kept crypto db.binding log db.evidence[id]? id row
  absent : ∀ id : Bytes32, db.jobs[id]? = none → db.evidence[id]? = none ∧ ∀ entry ∈ log, entry.id ≠ id
  sequences : ∀ (id id' : Bytes32) (row row' : Row), db.jobs[id]? = some row → db.jobs[id']? = some row' →
    row.sequence = row'.sequence → id = id'
  operations : ∀ (id id' : Bytes32) (row row' : Row), db.jobs[id]? = some row → db.jobs[id']? = some row' →
    row.operation = row'.operation → id = id'
  count : (db.jobs.toList.filter fun entry => entry.2.live).length ≤ db.binding.limits.maxJobs
  bytes : Weights.total (fun entry => entry.2.item.length) db.jobs.toList + Db.inherited db.lineage ≤ db.binding.limits.maxBytes
  limits : checkLimits db.binding.limits db.binding.policy = .ok ()
  lineage : db.checkedLineage = .ok db.lineage

section
variable {crypto : Crypto} {binding : Binding} {log log' : List Entry} {evidence : Option EvidenceRow} {id id' : Bytes32}
  {row : Row} {db : Db}

theorem Shape.congr (h : Shape log id row) (ha : Agree id log log') : Shape log' id row := by
  cases h with
  | pending hs hu hp => exact .pending hs hu hp
  | uncertain hs hu hp => exact .uncertain hs hu hp
  | retained hs hu receipt hr hc hp => exact .retained hs hu receipt ((ha.mem _ rfl).2 hr) hc hp
  | stopped hs hu hp => exact .stopped hs hu hp

theorem Kept.congr (h : Kept crypto binding log evidence id row) (ha : Agree id log log') :
    Kept crypto binding log' evidence id row where
  item := h.item
  shape := h.shape.congr ha
  error := h.error
  attempts := by rw [h.attempts, ha.charged]
  budget := h.budget
  spent := by rw [ha.total, h.spent]
  fresh := h.fresh
  doubt hs ending hm hd := h.doubt hs ending ((ha.mem _ rfl).1 hm) hd
  outage ending hl ho := h.outage ending (ha.latest ▸ hl) ho
  bounded := h.bounded

theorem maxAttempts_le (h : checkLimits binding.limits binding.policy = .ok ()) :
    1 ≤ binding.policy.maxAttempts ∧ binding.policy.maxAttempts ≤ 100 := by
  simp only [checkLimits, require_eq_ok, Bool.and_eq_true, decide_eq_true_eq] at h
  omega

theorem maxBytes_le (h : checkLimits binding.limits binding.policy = .ok ()) :
    binding.limits.maxBytes ≤ 1024 * 1024 * 1024 := by
  simp only [checkLimits, require_eq_ok, Bool.and_eq_true, decide_eq_true_eq] at h
  omega

theorem tryU32_eq_ok {n : Nat} (h : n < 2 ^ 32) : tryU32 n = .ok n := if_pos h

theorem operation_ext {a b : OperationId} (h : a.bytes = b.bytes) : a = b := by
  obtain ⟨_, _⟩ := a
  obtain ⟨_, _⟩ := b
  cases h
  rfl

/-! ### Reading -/

theorem fromBe_beVector {sequence : UInt64} : (fromBe (beVector 8 sequence.toNat).toList : UInt64) = sequence :=
  fromBe_toBe sequence

theorem Kept.evidenceRow (h : Kept crypto db.binding log db.evidence[id]? id row) :
    ∃ e, db.evidenceRow id = .ok e ∧ (∀ e', db.evidence[id]? = some e' → e.outages = e'.outages ∧ e.resumes = e'.resumes) := by
  unfold Db.evidenceRow
  cases he : db.evidence[id]? with
  | none => exact ⟨_, rfl, fun e' he' => by cases he'⟩
  | some e =>
    obtain ⟨hout, hres, hspent⟩ := h.bounded e he
    simp only [tryU32_eq_ok hout, tryU32_eq_ok hres, tryU32_eq_ok hspent]
    refine ⟨_, rfl, fun e' he' => ?_⟩
    cases he'
    exact ⟨rfl, rfl⟩

theorem Kept.checkUncharged {state : JobState} (h : Kept crypto db.binding log db.evidence[id]? id row)
    (hstate : row.state = 0 ↔ state = .pending) : db.checkUncharged id row.attempts state = .ok () := by
  unfold Db.checkUncharged
  split
  · rename_i huncharged
    rw [Bool.and_eq_true, beq_iff_eq, bne_iff_ne] at huncharged
    obtain ⟨e, he, hsame⟩ := h.evidenceRow
    obtain ⟨e', he', hne⟩ := h.fresh huncharged.1 fun hzero => huncharged.2 (hstate.1 hzero)
    obtain ⟨hout, hres⟩ := hsame e' he'
    rw [he]
    refine require_eq_ok.2 (bne_iff_ne.2 fun hdefault => ?_)
    rw [hdefault] at hout hres
    rcases hne with hne | hne
    · exact hne hout.symm
    · exact hne hres.symm
  · rfl

/-- What `find` reports of a row. -/
structure Reports (row : Row) (status : JobStatus) : Prop where
  sequence : status.sequence = fromBe row.sequence.toList
  operation : status.operation.bytes = row.operation
  state : decodeState row.state = .ok status.state
  attempts : status.attempts = row.attempts
  uncertain : status.uncertain.toNat = row.uncertain
  position : status.position = row.position

theorem decodeError_ok {n : Nat} (h : n ≤ 9) : ∃ e, decodeError n = .ok e := by
  match n, h with
  | 0, _ | 1, _ | 2, _ | 3, _ | 4, _ | 5, _ | 6, _ | 7, _ | 8, _ | 9, _ => exact ⟨_, rfl⟩

theorem Shape.decoded (h : Shape log id row) : ∃ state uncertain, decodeState row.state = .ok state ∧
    decodeUncertain row.uncertain = .ok uncertain ∧ uncertain.toNat = row.uncertain ∧ (row.state = 0 ↔ state = .pending) ∧
      (row.position == some 0 || ((state == .retained) != row.position.isSome) || (state == .retained && uncertain) ||
        (state == .uncertain && !uncertain) || (state == .pending && uncertain)) = false := by
  cases h with
  | pending hs hu hp =>
    rw [hs, hu, hp]
    exact ⟨.pending, false, rfl, rfl, rfl, by decide, rfl⟩
  | uncertain hs hu hp =>
    rw [hs, hu, hp]
    exact ⟨.uncertain, true, rfl, rfl, rfl, by decide, rfl⟩
  | retained hs hu receipt _ hc hp =>
    rw [hs, hu, hp]
    refine ⟨.retained, false, rfl, rfl, rfl, by decide, ?_⟩
    simp only [Store.isRetention, Bool.and_eq_true, decide_eq_true_eq] at hc
    have hpos : receipt.position.toNat ≠ 0 := Nat.ne_of_gt hc.1.1
    simp [hpos]
  | stopped hs hu hp =>
    rw [hs, hp]
    rcases Nat.le_one_iff_eq_zero_or_eq_one.1 hu with hu | hu <;> rw [hu]
    · exact ⟨.stopped, false, rfl, rfl, rfl, by decide, rfl⟩
    · exact ⟨.stopped, true, rfl, rfl, rfl, by decide, rfl⟩

theorem Sound.find (h : Sound crypto db log) (hrow : db.jobs[id]? = some row) :
    ∃ status, db.find id = .ok (some status) ∧ Reports row status := by
  have hkept := h.kept id row hrow
  obtain ⟨item, hitem⟩ := hkept.item
  obtain ⟨state, uncertain, hstate, huncertain, htoNat, hpending, hcolumns⟩ := hkept.shape.decoded
  obtain ⟨lastError, herror⟩ := decodeError_ok hkept.error
  have hmax := (maxAttempts_le h.limits).2
  have hattempts : tryU32 row.attempts = .ok row.attempts := tryU32_eq_ok (by have := hkept.budget; omega)
  have hoperation : (OperationId.fromBytes row.operation).mapError (fun _ => Error.corrupt) = .ok item.operation := by
    rw [mapError_eq_ok, PrivateKernel.OperationId.fromBytes_eq_ok, hitem.operation]
  have hsequence : (fromBe row.sequence.toList : UInt64) = item.sequence := by rw [hitem.sequence, fromBe_beVector]
  refine ⟨⟨id, fromBe row.sequence.toList, item.operation, state, row.attempts, row.nextDue, uncertain, row.position, lastError⟩, ?_,
    ⟨rfl, hitem.operation.symm, hstate, rfl, htoNat, rfl⟩⟩
  have hcheck : (!((fromBe row.sequence.toList : UInt64) == 0 || decide (row.attempts > db.binding.policy.maxAttempts) ||
      row.position == some 0 || ((state == .retained) != row.position.isSome) || (state == .retained && uncertain) ||
      (state == .uncertain && !uncertain) || (state == .pending && uncertain))) = true := by
    have hzero : ((fromBe row.sequence.toList : UInt64) == 0) = false := by
      rw [hsequence]
      exact beq_eq_false_iff_ne.2 item.admissible.sequence
    have hover : decide (row.attempts > db.binding.policy.maxAttempts) = false := decide_eq_false (Nat.not_lt.2 hkept.budget)
    rw [hzero, hover, Bool.false_or, Bool.false_or, hcolumns]
    rfl
  rw [Db.find, hrow]
  simp only [hoperation, hstate, hattempts, huncertain, hcheck, hkept.checkUncharged hpending, herror, require, if_true, bind, Except.bind]
  rfl

theorem Sound.find_none (hrow : db.jobs[id]? = none) : db.find id = .ok none := by
  rw [Db.find, hrow]

theorem Sound.status (h : Sound crypto db log) (hrow : db.jobs[id]? = some row) :
    ∃ status, db.status id = .ok status ∧ Reports row status := by
  obtain ⟨status, hfind, hreports⟩ := h.find hrow
  refine ⟨status, ?_, hreports⟩
  rw [Db.status, hfind]
  rfl

theorem Sound.item (h : Sound crypto db log) (hrow : db.jobs[id]? = some row) :
    ∃ item, db.item crypto id = .ok item ∧ Carries crypto db.binding id row item := by
  obtain ⟨item, hitem⟩ := (h.kept id row hrow).item
  refine ⟨item, ?_, hitem⟩
  have hlen : (item.encode crypto).length ≤ maxItemBytes := RelayItem.length_encode_le
  have hmatch : (item.digest crypto == id && item.scope.bytes == db.binding.scope) = true := by
    rw [hitem.digest, hitem.scope, beq_self_eq_true, beq_self_eq_true]
    rfl
  rw [Db.item, hrow]
  simp only [hitem.bytes, hlen, decide_true, RelayItem.decode_encode, hmatch, require, if_true, Except.mapError, bind, Except.bind, pure, Except.pure]

theorem Sound.usage (h : Sound crypto db log) :
    ∃ usage, db.usage = .ok usage ∧ usage.1 = (db.jobs.toList.filter fun entry => entry.2.live).length ∧
      usage.2 = Weights.total (fun entry => entry.2.item.length) db.jobs.toList + Db.inherited db.lineage := by
  have hbytes := h.bytes
  have hmax := maxBytes_le h.limits
  have hfits : Weights.total (fun entry => entry.2.item.length) db.jobs.toList + Db.inherited db.lineage < 2 ^ 64 := by omega
  refine ⟨(_, _), ?_, rfl, rfl⟩
  rw [Db.usage, h.lineage]
  simp only [hfits, decide_true, require, if_true, bind, Except.bind, pure, Except.pure]

theorem Sound.validate (h : Sound crypto db log) : db.validate crypto = .ok () := by
  obtain ⟨usage, husage, hcount, hbytes⟩ := h.usage
  rw [Db.validate, bind_eq_ok]
  refine ⟨usage, husage, bind_eq_ok.2 ⟨(), ?_, forM_eq_ok.2 fun id hid => ?_⟩⟩
  · rw [require_eq_ok, Bool.and_eq_true, decide_eq_true_eq, decide_eq_true_eq, hcount, hbytes]
    exact ⟨h.count, h.bytes⟩
  · obtain ⟨⟨id, row⟩, hmem, rfl⟩ := List.mem_map.1 hid
    have hrow : db.jobs[id]? = some row := by
      rw [Db.bySequence, List.mem_mergeSort] at hmem
      exact Std.ExtTreeMap.mem_toList_iff_getElem?_eq_some.1 hmem
    obtain ⟨status, hstatus, hreports⟩ := h.status hrow
    obtain ⟨item, hitem, hcarries⟩ := h.item hrow
    have hsequence : item.sequence = status.sequence := by rw [hreports.sequence, hcarries.sequence, fromBe_beVector]
    have hoperation : item.operation = status.operation := operation_ext (by rw [hreports.operation, hcarries.operation])
    rw [Db.validateJob, hstatus]
    simp only [hitem, hsequence, hoperation, beq_self_eq_true, decide_true, Bool.and_self, require, if_true, bind, Except.bind]

end

end Valhalla.Relay
