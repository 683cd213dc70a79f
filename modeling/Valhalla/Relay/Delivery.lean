import Valhalla.Lib.Maps
import Valhalla.Lib.Weights
import Valhalla.Relay.Item

/-!
# The delivery queue (`delivery.rs`)

The tables, and the operations as transactions around calls of the transport. A transaction is atomic and may fail, or
be cut by a crash, before or after it is durable. The instants that `Instant::now` returns and the answers of the
transport are inputs. `log` is not in the database: it says what happened to the jobs.
-/

namespace Valhalla.Relay
open Fallible FixedWidth Check
open Valhalla.PrivateKernel (OperationId)

def maxItemBytes : Nat := maxPutBody - 32
def maxTickBytes : Nat := 4 * 1024 * 1024
def maxClockRegressionSecs : Nat := 3600
def maxOutages : Nat := 1000000
def maxGenerations : Nat := 16
def i64Max : Nat := 2 ^ 63 - 1

inductive Error
  | bounds | scope | conflict | capacity | busy | storage | corrupt | clock | needsReopen
deriving DecidableEq, Repr

structure Limits where
  maxJobs : Nat
  maxBytes : Nat
deriving DecidableEq

structure RetryPolicy where
  maxAttempts : Nat
  initialBackoffSecs : Nat
  maxBackoffSecs : Nat
deriving DecidableEq

def checkLimits (limits : Limits) (policy : RetryPolicy) : Except Error Unit :=
  require .bounds (1 ≤ limits.maxJobs && limits.maxJobs ≤ maxRelayItems && limits.maxBytes != 0 &&
    limits.maxBytes ≤ 1024 * 1024 * 1024 && 1 ≤ policy.maxAttempts && policy.maxAttempts ≤ 100 &&
    1 ≤ policy.initialBackoffSecs && policy.initialBackoffSecs ≤ 3600 &&
    policy.initialBackoffSecs ≤ policy.maxBackoffSecs && policy.maxBackoffSecs ≤ 86400)

inductive JobState
  | pending | uncertain | retained | stopped
deriving DecidableEq, Repr

structure JobStatus where
  id : Bytes32
  sequence : UInt64
  operation : OperationId
  state : JobState
  attempts : Nat
  nextDue : Nat
  uncertain : Bool
  position : Option Nat
  lastError : Option NetError
deriving DecidableEq

structure JobEvidence where
  outages : Nat
  resumes : Nat
  spentAttempts : Nat
  resumedAt : Nat
deriving DecidableEq

instance : Inhabited JobEvidence := ⟨⟨0, 0, 0, 0⟩⟩

/-- What a drained predecessor leaves to its successor. -/
structure LedgerSnapshot where
  outgoing : UInt64
  applied : UInt64
  retainedJobs : UInt64
  canonicalBytes : UInt64
  chargedAttempts : UInt64
  outages : UInt64
  resumes : UInt64
  commitment : Bytes32
deriving DecidableEq

/-- The checks of `decode`. -/
def LedgerSnapshot.check (value : LedgerSnapshot) : Except Error Unit :=
  require .corrupt (value.commitment != Vector.replicate 32 0 && value.canonicalBytes.toNat ≤ 1024 * 1024 * 1024 &&
    value.retainedJobs.toNat ≤ maxGenerations * maxRelayItems)

/-! ### The tables -/

/-- A row of `jobs`. -/
structure Row where
  sequence : Vector UInt8 8
  operation : Vector UInt8 16
  item : List UInt8
  state : Nat
  attempts : Nat
  nextDue : Nat
  uncertain : Nat
  position : Option Nat
  lastError : Nat
deriving DecidableEq

/-- A row of `job_evidence`. -/
structure EvidenceRow where
  outages : Nat
  resumes : Nat
  spentAttempts : Nat
  resumedAt : Nat
deriving DecidableEq

/-- `INSERT … ON CONFLICT(id) DO UPDATE` of an outage. -/
def EvidenceRow.outage : Option EvidenceRow → EvidenceRow
  | none => ⟨1, 0, 0, 0⟩
  | some row => { row with outages := min (row.outages + 1) maxOutages }

def EvidenceRow.resumed (attempts clock : Nat) : Option EvidenceRow → EvidenceRow
  | none => ⟨0, 1, attempts, clock⟩
  | some row => { row with resumes := row.resumes + 1, spentAttempts := row.spentAttempts + attempts, resumedAt := clock }

/-- The row of `lineage`. -/
structure Lineage where
  generation : Nat
  prior : LedgerSnapshot
  receipt : Bytes32
deriving DecidableEq

/-- What `meta` never changes. -/
structure Binding where
  context : List UInt8
  scope : Bytes32
  endpoint : Bytes32
  limits : Limits
  policy : RetryPolicy

structure Db where
  binding : Binding
  clock : Nat
  jobs : Std.ExtTreeMap Bytes32 Row compare
  evidence : Std.ExtTreeMap Bytes32 EvidenceRow compare
  lineage : Option Lineage

/-- `u32::try_from`. -/
def tryU32 (n : Nat) : Except Error Nat := if n < 2 ^ 32 then .ok n else .error .corrupt

def errorCode : NetError → Nat
  | .connect => 1
  | .timeout => 2
  | .denied => 3
  | .conflict => 4
  | .capacity => 5
  | .bounds => 6
  | .scope => 7
  | .malformed => 8
  | .unavailable => 9

def decodeError : Nat → Except Error (Option NetError)
  | 0 => .ok none
  | 1 => .ok (some .connect)
  | 2 => .ok (some .timeout)
  | 3 => .ok (some .denied)
  | 4 => .ok (some .conflict)
  | 5 => .ok (some .capacity)
  | 6 => .ok (some .bounds)
  | 7 => .ok (some .scope)
  | 8 => .ok (some .malformed)
  | 9 => .ok (some .unavailable)
  | _ => .error .corrupt

def decodeState : Nat → Except Error JobState
  | 0 => .ok .pending
  | 1 => .ok .uncertain
  | 2 => .ok .retained
  | 3 => .ok .stopped
  | _ => .error .corrupt

def decodeUncertain : Nat → Except Error Bool
  | 0 => .ok false
  | 1 => .ok true
  | _ => .error .corrupt

/-- Pending, uncertain or stopped. -/
def Row.live (row : Row) : Bool := row.state == 0 || row.state == 1 || row.state == 3

def Row.order (row : Row) : Nat := ofBeBytes row.sequence.toList

namespace Db
variable (crypto : Crypto) (db : Db)

/-- `lineage`. -/
def checkedLineage : Except Error (Option Lineage) :=
  match db.lineage with
  | none => .ok none
  | some lineage => do
    require .corrupt (1 ≤ lineage.generation && lineage.generation < maxGenerations && lineage.receipt != Vector.replicate 32 0)
    lineage.prior.check
    pure (some lineage)

def inherited : Option Lineage → Nat
  | none => 0
  | some lineage => lineage.prior.canonicalBytes.toNat

def usage : Except Error (Nat × Nat) := do
  let count := (db.jobs.toList.filter fun entry => entry.2.live).length
  let total := Weights.total (fun entry => entry.2.item.length) db.jobs.toList
  let lineage ← db.checkedLineage
  require .corrupt (total + inherited lineage < 2 ^ 64)
  pure (count, total + inherited lineage)

def evidenceRow (id : Bytes32) : Except Error JobEvidence :=
  match db.evidence[id]? with
  | none => .ok default
  | some row => do
    let outages ← tryU32 row.outages
    let resumes ← tryU32 row.resumes
    let spentAttempts ← tryU32 row.spentAttempts
    pure ⟨outages, resumes, spentAttempts, row.resumedAt⟩

def checkUncharged (id : Bytes32) (attempts : Nat) (state : JobState) : Except Error Unit :=
  if attempts == 0 && state != .pending then do
    let evidence ← db.evidenceRow id
    require .corrupt (evidence != default)
  else .ok ()

def find (id : Bytes32) : Except Error (Option JobStatus) :=
  match db.jobs[id]? with
  | none => .ok none
  | some row => do
    let sequence : UInt64 := fromBe row.sequence.toList
    let operation ← (OperationId.fromBytes row.operation).mapError fun _ => .corrupt
    let state ← decodeState row.state
    let attempts ← tryU32 row.attempts
    let uncertain ← decodeUncertain row.uncertain
    require .corrupt (!(sequence == 0 || decide (attempts > db.binding.policy.maxAttempts) || row.position == some 0 ||
      ((state == .retained) != row.position.isSome) || (state == .retained && uncertain) ||
      (state == .uncertain && !uncertain) || (state == .pending && uncertain)))
    db.checkUncharged id attempts state
    let lastError ← decodeError row.lastError
    pure (some ⟨id, sequence, operation, state, attempts, row.nextDue, uncertain, row.position, lastError⟩)

/-- `find(id)?.ok_or(Error::Corrupt)`. -/
def status (id : Bytes32) : Except Error JobStatus := do
  let found ← db.find id
  Check.okOr .corrupt found

def item (id : Bytes32) : Except Error RelayItem :=
  match db.jobs[id]? with
  | none => .error .corrupt
  | some row => do
    require .corrupt (row.item.length ≤ maxItemBytes)
    let item ← (RelayItem.decode crypto row.item).mapError fun _ => .corrupt
    require .corrupt (item.digest crypto == id && item.scope.bytes == db.binding.scope)
    pure item

/-- `ORDER BY sequence`. -/
def bySequence : List (Bytes32 × Row) := db.jobs.toList.mergeSort fun a b => a.2.order ≤ b.2.order

def validateJob (id : Bytes32) : Except Error Unit := do
  let status ← db.status id
  let item ← db.item crypto id
  require .corrupt (item.sequence == status.sequence && decide (item.operation = status.operation))

def validate : Except Error Unit := do
  let usage ← db.usage
  require .corrupt (usage.1 ≤ db.binding.limits.maxJobs && usage.2 ≤ db.binding.limits.maxBytes)
  forM (db.bySequence.map Prod.fst) (db.validateJob crypto)

def due (clock limit : Nat) (only : Option Bytes32) : List Bytes32 :=
  (((db.jobs.toList.filter fun entry => (entry.2.state == 0 || entry.2.state == 1) && decide (entry.2.nextDue ≤ clock) &&
    (only.isNone || only == some entry.1)).mergeSort fun a b =>
      decide (a.2.nextDue < b.2.nextDue) || (a.2.nextDue == b.2.nextDue && decide (a.2.order ≤ b.2.order))).map Prod.fst).take limit

/-- The jobs that `resume` selects. -/
def stopped (only : Option Bytes32) : List Bytes32 :=
  ((db.bySequence.filter fun entry => entry.2.state == 3).map Prod.fst).filter fun id => only.isNone || only == some id

/-! ### Statements -/

def insertJob (item : RelayItem) (clock : Nat) (db : Db) : Db :=
  { db with
    jobs := db.jobs.insert (item.digest crypto)
      ⟨beVector 8 item.sequence.toNat, item.operation.bytes, item.encode crypto, 0, 0, clock, 0, none, 0⟩ }

/-- `UPDATE jobs … WHERE id`. -/
def updateJob (id : Bytes32) (f : Row → Row) (db : Db) : Db :=
  match db.jobs[id]? with
  | some row => { db with jobs := db.jobs.insert id (f row) }
  | none => db

def stop (id : Bytes32) (db : Db) : Db := db.updateJob id fun row => { row with state := 3 }

def charge (id : Bytes32) (attempts due : Nat) (db : Db) : Db :=
  db.updateJob id fun row => { row with state := 1, attempts, nextDue := due, uncertain := 1, lastError := 0 }

def recordOutage (id : Bytes32) (db : Db) : Db :=
  { db with evidence := db.evidence.insert id (EvidenceRow.outage db.evidence[id]?) }

def uncharge (id : Bytes32) (attempts : Nat) (db : Db) : Db := db.updateJob id fun row => { row with attempts }

def settle (id : Bytes32) (state : Nat) (uncertain : Bool) (position : Option Nat) (error : Nat) (db : Db) : Db :=
  db.updateJob id fun row => { row with state, uncertain := uncertain.toNat, position, lastError := error }

/-- One job of `resume`. -/
def rearm (clock : Nat) (db : Db) (id : Bytes32) : Except Error Db := do
  let prior ← db.status id
  pure ({ db with evidence := db.evidence.insert id (EvidenceRow.resumed prior.attempts clock db.evidence[id]?) }.updateJob id fun row =>
    { row with state := prior.uncertain.toNat, attempts := 0, nextDue := clock })

end Db

/-! ### The store -/

/-- How an attempt ended, as far as the store knows. -/
inductive Ending
  | unknown
  | answered (answer : Except NetError RelayReceipt)

inductive Entry
  | attempt (id : Bytes32) (ending : Ending)
  | resumed (id : Bytes32)

def settleLast (ending : Ending) : List Entry → List Entry
  | .attempt id _ :: log => .attempt id ending :: log
  | log => log

structure Store where
  db : Db
  needsReopen : Bool
  /-- What happened to the jobs, the latest first. -/
  log : List Entry

/-- How a transaction ends. -/
inductive Commit
  | done
  | failed (durable : Bool)
  | crashed (durable : Bool)

inductive Halt
  | error (error : Error)
  | crashed

abbrev Custody := Fallible Halt Store

namespace Store

def live (store : Store) : Except Error Unit := require .needsReopen (!store.needsReopen)

/-- `clock`. -/
def clockAt (now : UInt64) (store : Store) : Except Error Nat := do
  store.live
  require .clock (now.toNat ≤ i64Max - store.db.binding.policy.maxBackoffSecs)
  if now.toNat < store.db.clock then
    if store.db.clock - now.toNat ≤ maxClockRegressionSecs then .ok store.db.clock else .error .clock
  else .ok now.toNat

def reads {α : Type} (f : Store → Except Error α) : Custody α := of fun store => ((f store).mapError .error, store)

/-- `begin`, statements and `commit`, with what the log says once they are durable. -/
def transact (outcome : Commit) (clock : Nat) (body : Db → Except Error Db) (note : List Entry → List Entry) : Custody Unit :=
  of fun store =>
    if store.needsReopen then (.error (.error .needsReopen), store)
    else match body store.db with
      | .error error => (.error (.error error), { store with needsReopen := true })
      | .ok db => match outcome with
        | .done => (.ok (), ⟨{ db with clock }, false, note store.log⟩)
        | .failed durable =>
          (.error (.error .storage), if durable then ⟨{ db with clock }, true, note store.log⟩ else { store with needsReopen := true })
        | .crashed durable =>
          (.error .crashed, if durable then ⟨{ db with clock }, true, note store.log⟩ else { store with needsReopen := true })

variable (crypto : Crypto)

/-- What `enqueue` checks; the prior status of an exact retry. -/
def admitJob (item : RelayItem) (now : UInt64) (store : Store) : Except Error (Nat × Option JobStatus) := do
  let clock ← store.clockAt now
  require .scope (item.scope.bytes == store.db.binding.scope)
  let found ← store.db.find (item.digest crypto)
  match found with
  | some prior => do
    let held ← store.db.item crypto (item.digest crypto)
    require .conflict (decide (held = item))
    pure (clock, some prior)
  | none => do
    let lineage ← store.db.checkedLineage
    require .conflict (match lineage with
      | none => true
      | some lineage => decide (lineage.prior.outgoing < item.sequence))
    require .conflict (!store.db.jobs.toList.any fun entry =>
      entry.2.sequence == beVector 8 item.sequence.toNat || entry.2.operation == item.operation.bytes)
    let usage ← store.db.usage
    require .capacity (usage.1 < store.db.binding.limits.maxJobs &&
      usage.2 + (item.encode crypto).length ≤ store.db.binding.limits.maxBytes)
    pure (clock, none)

def enqueue (item : RelayItem) (now : UInt64) (outcome : Commit) : Custody JobStatus := do
  let checked ← reads (admitJob crypto item now)
  match checked.2 with
  | some prior => pure prior
  | none => do
    transact outcome checked.1 (fun db => .ok (db.insertJob crypto item checked.1)) id
    reads fun store => store.db.status (item.digest crypto)

/-- What `resume` checks, and the jobs it selects. -/
def selectStopped (only : Option Bytes32) (now : UInt64) (store : Store) : Except Error (Nat × List Bytes32) := do
  let clock ← store.clockAt now
  match only with
  | none => pure ()
  | some wanted => do
    let found ← store.db.find wanted
    require .bounds found.isSome
  pure (clock, store.db.stopped only)

def resume (only : Option Bytes32) (now : UInt64) (outcome : Commit) : Custody (List JobStatus) := do
  let selected ← reads (selectStopped only now)
  if selected.2.isEmpty then pure []
  else do
    transact outcome selected.1 (fun db => selected.2.foldlM (Db.rearm selected.1) db) fun log =>
      selected.2.foldl (fun log id => .resumed id :: log) log
    reads fun store => selected.2.mapM store.db.status

structure TickBudget where
  maxJobs : Nat
  maxBytes : Nat
  /-- In nanoseconds, as all instants. -/
  deadline : Nat

structure TickReport where
  jobs : List JobStatus
  bytes : Nat
  budgetExhausted : Bool

/-- The instants and outcomes around one job of a tick; a crash comes instead of an answer. -/
structure Turn where
  before : Nat
  charge : Commit
  after : Nat
  answer : Option (Except NetError RelayReceipt)
  settle : Commit

/-- The new columns after an answer. -/
structure Settlement where
  state : Nat
  uncertain : Bool
  position : Option Nat
  error : Nat
  outage : Bool

def isOutage : NetError → Bool
  | .connect | .timeout | .unavailable => true
  | _ => false

def isPermanent : NetError → Bool
  | .conflict | .bounds | .scope | .malformed => true
  | _ => false

def isRetention (id : Bytes32) (receipt : RelayReceipt) : Bool :=
  decide (0 < receipt.position.toNat) && decide (receipt.position.toNat ≤ i64Max) && receipt.digest == id

def settlement (policy : RetryPolicy) (id : Bytes32) (prior : JobStatus) (attempt : Nat) :
    Except NetError RelayReceipt → Settlement
  | .ok receipt =>
    if isRetention id receipt then ⟨2, false, some receipt.position.toNat, 0, false⟩
    else ⟨3, true, none, errorCode .malformed, false⟩
  | .error error =>
    let outage := isOutage error
    let uncertain := prior.uncertain || outage
    ⟨if isPermanent error || (!outage && decide (attempt ≥ policy.maxAttempts)) then 3 else if uncertain then 1 else 0,
      uncertain, none, errorCode error, outage⟩

def settled (id : Bytes32) (prior : JobStatus) (result : Settlement) (db : Db) : Db :=
  (if result.outage then (db.recordOutage id).uncharge id prior.attempts else db).settle id result.state result.uncertain
    result.position result.error

/-- The delay before the next attempt. -/
def backoff (policy : RetryPolicy) (exponent : Nat) : Nat :=
  min (policy.initialBackoffSecs * (if exponent < 64 then 2 ^ exponent else 2 ^ 64 - 1)) policy.maxBackoffSecs

def inspect (id : Bytes32) (store : Store) : Except Error (JobStatus × Nat) := do
  let prior ← store.db.status id
  let item ← store.db.item crypto id
  pure (prior, (item.encode crypto).length)

def tickJobs (clock : Nat) (budget : TickBudget) (turns : Nat → Turn) : List Bytes32 → Nat → TickReport → Custody TickReport
  | [], _, report => pure report
  | id :: ids, n, report =>
    if (turns n).before ≥ budget.deadline then pure { report with budgetExhausted := true }
    else do
      let (prior, size) ← reads (inspect crypto id)
      let policy ← view fun store => store.db.binding.policy
      if report.bytes + size > budget.maxBytes then pure { report with budgetExhausted := true }
      else if prior.attempts ≥ policy.maxAttempts then do
        transact (turns n).charge clock (fun db => .ok (db.stop id)) fun log => log
        let status ← reads fun store => store.db.status id
        tickJobs clock budget turns ids (n + 1) { report with jobs := report.jobs ++ [status] }
      else do
        let evidence ← reads fun store => store.db.evidenceRow id
        let attempt := prior.attempts + 1
        let due := clock + backoff policy (prior.attempts + evidence.outages)
        transact (turns n).charge clock (fun db => .ok (db.charge id attempt due)) fun log => .attempt id .unknown :: log
        if (turns n).after ≥ budget.deadline then do
          let status ← reads fun store => store.db.status id
          pure { report with budgetExhausted := true, jobs := report.jobs ++ [status] }
        else match (turns n).answer with
          | none => throw .crashed
          | some answer => do
            let result := settlement policy id prior attempt answer
            transact (turns n).settle clock (fun db => .ok (settled id prior result db)) (settleLast (.answered answer))
            let status ← reads fun store => store.db.status id
            let report := { report with bytes := report.bytes + size, jobs := report.jobs ++ [status] }
            if result.error = errorCode .denied then pure report
            else tickJobs clock budget turns ids (n + 1) report

/-- The transport's endpoint and namespace, the instants of the call, and what happens at each job. -/
structure TickCall where
  endpoint : Bytes32
  scope : Bytes32
  now : UInt64
  budget : TickBudget
  only : Option Bytes32
  start : Nat
  second : Nat
  turns : Nat → Turn

def checkTick (call : TickCall) (store : Store) : Except Error Nat := do
  let clock ← store.clockAt call.now
  require .scope (call.endpoint == store.db.binding.endpoint && call.scope == store.db.binding.scope)
  require .bounds (1 ≤ call.budget.maxJobs && call.budget.maxJobs ≤ 64 && call.budget.maxBytes != 0 &&
    call.budget.maxBytes ≤ maxTickBytes && call.budget.deadline - call.start ≤ 90 * 10 ^ 9)
  pure clock

/-- `tick` and `tick_only`. -/
def tickSelected (call : TickCall) : Custody TickReport := do
  let clock ← reads (checkTick call)
  if call.second ≥ call.budget.deadline then pure ⟨[], 0, true⟩
  else do
    let ids ← view fun store => store.db.due clock call.budget.maxJobs call.only
    tickJobs crypto clock call.budget call.turns ids 0 ⟨[], 0, ids.length == call.budget.maxJobs⟩

/-- What `open` reads before its transaction. -/
def checkOpen (context : List UInt8) (scope endpoint : Bytes32) (store : Store) : Except Error Nat := do
  require .scope (store.db.binding.context == context && store.db.binding.scope == scope && store.db.binding.endpoint == endpoint)
  (checkLimits store.db.binding.limits store.db.binding.policy).mapError fun _ => .corrupt
  let _ ← store.db.checkedLineage
  store.db.validate crypto
  pure store.db.clock

/-- `open`. -/
def reopen (context : List UInt8) (scope endpoint : Bytes32) (outcome : Commit) : Custody Unit := do
  update fun store => { store with needsReopen := false }
  let clock ← reads (checkOpen crypto context scope endpoint)
  transact outcome clock .ok id

end Store

/-- The database after `create_new`, or after `create_successor` with the seed's lineage and clock. -/
def Db.created (binding : Binding) (seed : Option (Lineage × UInt64)) : Except Error Db := do
  checkLimits binding.limits binding.policy
  match seed with
  | none => pure ⟨binding, 0, ∅, ∅, none⟩
  | some (lineage, now) => do
    lineage.prior.check
    require .bounds (1 ≤ lineage.generation && lineage.generation < maxGenerations && lineage.receipt != Vector.replicate 32 0 &&
      lineage.prior.canonicalBytes.toNat ≤ binding.limits.maxBytes && lineage.prior.outgoing.toNat ≤ i64Max &&
      now.toNat ≤ i64Max - binding.policy.maxBackoffSecs)
    pure ⟨binding, now.toNat, ∅, ∅, some lineage⟩

end Valhalla.Relay
