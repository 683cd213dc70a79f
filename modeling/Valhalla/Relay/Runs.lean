import Valhalla.Relay.Queue

/-!
# The queue keeps its promises

The runs of one queue: calls on an open store, with crashes and reopenings. A run in which every `resume` leaves evidence
that fits `u32` keeps every job readable, and what the rows say of the attempts is true. `resume` itself does not look:
after 2^32 of them the job cannot be read, nor the queue opened.
-/

namespace Valhalla.Relay
open Fallible FixedWidth Check Store
open Valhalla.PrivateKernel (OperationId)

inductive Call
  | enqueue (item : RelayItem) (now : UInt64) (outcome : Commit)
  | tick (call : TickCall)
  | resume (only : Option Bytes32) (now : UInt64) (outcome : Commit)

def halted {α : Type} : Except Halt α → Option Halt
  | .ok _ => none
  | .error halt => some halt

def Call.run (crypto : Crypto) (store : Store) : Call → Option Halt × Store
  | .enqueue item now outcome => ((halted (exec (Store.enqueue crypto item now outcome) store).1), (exec (Store.enqueue crypto item now outcome) store).2)
  | .tick call => ((halted (exec (tickSelected crypto call) store).1), (exec (tickSelected crypto call) store).2)
  | .resume only now outcome => ((halted (exec (Store.resume only now outcome) store).1), (exec (Store.resume only now outcome) store).2)

structure World where
  store : Store
  opened : Bool

inductive Event
  | call (call : Call)
  | reopen (context : List UInt8) (scope endpoint : Bytes32) (outcome : Commit)
  | close

/-- One event; a crash can also come between two calls. -/
inductive Step (crypto : Crypto) : World → Event → World → Prop
  | returned {w : World} {call : Call} {halt : Option Halt} {store : Store} (ho : w.opened = true)
      (h : call.run crypto w.store = (halt, store)) (hne : halt ≠ some .crashed) : Step crypto w (.call call) ⟨store, true⟩
  | cut {w : World} {call : Call} {store : Store} (ho : w.opened = true) (h : call.run crypto w.store = (some .crashed, store)) :
      Step crypto w (.call call) ⟨store, false⟩
  | opened {w : World} {context : List UInt8} {scope endpoint : Bytes32} {outcome : Commit} {store : Store} (hc : w.opened = false)
      (h : exec (Store.reopen crypto context scope endpoint outcome) w.store = (.ok (), store)) :
      Step crypto w (.reopen context scope endpoint outcome) ⟨store, true⟩
  | refused {w : World} {context : List UInt8} {scope endpoint : Bytes32} {outcome : Commit} {halt : Halt} {store : Store}
      (hc : w.opened = false) (h : exec (Store.reopen crypto context scope endpoint outcome) w.store = (.error halt, store)) :
      Step crypto w (.reopen context scope endpoint outcome) ⟨store, false⟩
  | close {w : World} : Step crypto w .close ⟨w.store, false⟩

def Event.Fits (w : World) : Event → Prop
  | .call (.resume only _ _) => ∀ id ∈ w.store.db.stopped only, Relay.Fits w.store.db id
  | _ => True

/-- The runs. -/
def Next (crypto : Crypto) (w : World) (events : List Event) (w' : World) : Prop := ∃ event, events = [event] ∧ Step crypto w event w'

/-- The runs whose resumptions all fit. -/
def Fitting (crypto : Crypto) (w : World) (events : List Event) (w' : World) : Prop :=
  ∃ event, events = [event] ∧ event.Fits w ∧ Step crypto w event w'

def World.new (db : Db) : World := ⟨⟨db, false, []⟩, true⟩

/-! ### The promises -/

structure Safe (crypto : Crypto) (s : Store) : Prop where
  readable : ∀ (id : Bytes32) (row : Row), s.db.jobs[id]? = some row → (∃ status, s.db.find id = .ok (some status)) ∧
    (∃ item, s.db.item crypto id = .ok item ∧ item.digest crypto = id) ∧ ∃ evidence, s.db.evidenceRow id = .ok evidence
  opens : ∀ context scope endpoint outcome, (exec (Store.reopen crypto context scope endpoint outcome) s).1 ≠ .error (.error .corrupt)
  calls : ∀ (opened : Bool) (call : Call), (Event.call call).Fits ⟨s, opened⟩ → (call.run crypto s).1 ≠ some (.error .corrupt)
  sequences : ∀ (id id' : Bytes32) (row row' : Row), s.db.jobs[id]? = some row → s.db.jobs[id']? = some row' →
    row.sequence = row'.sequence → id = id'
  operations : ∀ (id id' : Bytes32) (row row' : Row), s.db.jobs[id]? = some row → s.db.jobs[id']? = some row' →
    row.operation = row'.operation → id = id'
  /-- Only a receipt for the job retains it. -/
  retained : ∀ (id : Bytes32) (row : Row), s.db.jobs[id]? = some row → row.state = 2 → ∃ receipt,
    .attempt id (.answered (.ok receipt)) ∈ s.log ∧ receipt.digest = id ∧ 0 < receipt.position.toNat ∧
      row.position = some receipt.position.toNat
  /-- A crash, an outage or a malformed receipt leaves a job uncertain. -/
  doubt : ∀ (id : Bytes32) (row : Row) (ending : Ending), s.db.jobs[id]? = some row → row.state ≠ 2 → .attempt id ending ∈ s.log →
    ending.doubtful id = true → row.uncertain = 1
  /-- The attempts are those since the last resumption that were no outages. -/
  budget : ∀ (id : Bytes32) (row : Row), s.db.jobs[id]? = some row → row.attempts = charged id s.log ∧
    charged id s.log ≤ s.db.binding.policy.maxAttempts
  outage : ∀ (id : Bytes32) (row : Row) (ending : Ending), s.db.jobs[id]? = some row → latest id s.log = some (.attempt id ending) →
    ending.outage = true → row.state = 1

def spentOf (db : Db) (id : Bytes32) (row : Row) : Nat := (db.evidence[id]?.map EvidenceRow.spentAttempts).getD 0 + row.attempts

/-- What holds between a state and a later one. -/
structure Grows (s s' : Store) : Prop where
  clock : s.db.clock ≤ s'.db.clock
  rows : ∀ (id : Bytes32) (row : Row), s.db.jobs[id]? = some row → ∃ row', s'.db.jobs[id]? = some row' ∧ row'.item = row.item ∧
    row'.sequence = row.sequence ∧ row'.operation = row.operation ∧ (row.state = 2 → row' = row) ∧
      spentOf s.db id row ≤ spentOf s'.db id row'

section
variable {crypto : Crypto} {s s' : Store} {w w' : World} {events events' : List Event} {event : Event} {call : Call} {db : Db}

theorem Held.run (h : Held crypto s s') {opened : Bool} (hfits : (Event.call call).Fits ⟨s', opened⟩) :
    Held crypto s (call.run crypto s').2 ∧ (call.run crypto s').1 ≠ some (.error .corrupt) := by
  have hends : ∀ {α : Type} {p : Except Halt α × Store}, Ends crypto s p → Held crypto s p.2 ∧ halted p.1 ≠ some (.error .corrupt) := by
    intro α p he
    refine ⟨he.held, fun hc => he.readable ?_⟩
    cases hp : p.1 with
    | ok a =>
      rw [hp] at hc
      cases hc
    | error halt =>
      rw [hp] at hc
      cases hc
      rfl
  cases call with
  | enqueue item now outcome => exact hends h.enqueue
  | tick call => exact hends (h.tick call)
  | resume only now outcome => exact hends (h.resume hfits)

theorem Held.step (h : Held crypto s w.store) (hfits : event.Fits w) (hs : Step crypto w event w') : Held crypto s w'.store := by
  cases hs with
  | returned _ hrun _ =>
    have hheld := (h.run hfits).1
    rwa [hrun] at hheld
  | cut _ hrun =>
    have hheld := (h.run hfits).1
    rwa [hrun] at hheld
  | opened _ hopen => exact Eq.subst (motive := Held crypto s) (congrArg Prod.snd hopen) (h.reopen _ _ _ _).held
  | refused _ hopen => exact Eq.subst (motive := Held crypto s) (congrArg Prod.snd hopen) (h.reopen _ _ _ _).held
  | close => exact h

theorem Held.steps (h : Held crypto s w.store) (hs : Steps (Fitting crypto) w events w') : Held crypto s w'.store :=
  hs.preserves (I := fun w => Held crypto s w.store) h fun _ _ _ hw ⟨_, _, hfits, hstep⟩ => hw.step hfits hstep

theorem Sound.held (h : Sound crypto s.db s.log) : Held crypto s s := ⟨h, .refl⟩

theorem Sound.safe (h : Sound crypto s.db s.log) : Safe crypto s where
  readable id row hrow := by
    obtain ⟨status, hfind, -⟩ := h.find hrow
    obtain ⟨item, hitem, hcarries⟩ := h.item hrow
    obtain ⟨evidence, hevidence, -⟩ := (h.kept id row hrow).evidenceRow
    exact ⟨⟨status, hfind⟩, ⟨item, hitem, hcarries.digest⟩, ⟨evidence, hevidence⟩⟩
  opens context scope endpoint outcome := (h.held.reopen context scope endpoint outcome).readable
  calls opened call hfits := (h.held.run hfits).2
  sequences := h.sequences
  operations := h.operations
  retained id row hrow hs := by
    cases (h.kept id row hrow).shape with
    | retained _ _ receipt hr hc hp =>
      simp only [isRetention, Bool.and_eq_true, decide_eq_true_eq, beq_iff_eq] at hc
      exact ⟨receipt, hr, hc.2, hc.1.1, hp⟩
    | pending hs' => omega
    | uncertain hs' => omega
    | stopped hs' => omega
  doubt id row ending hrow hs hm hd := (h.kept id row hrow).doubt hs ending hm hd
  budget id row hrow := by
    have hkept := h.kept id row hrow
    exact ⟨hkept.attempts, hkept.attempts ▸ hkept.budget⟩
  outage id row ending hrow hl ho := ((h.kept id row hrow).outage ending hl ho).1

theorem Held.grows (hs : Sound crypto s.db s.log) (h : Held crypto s s') : Grows s s' := by
  refine ⟨h.later.clock, fun id row hrow => ?_⟩
  obtain ⟨row', hrow', hitem, hsequence, hoperation, hretained⟩ := h.later.rows id row hrow
  refine ⟨row', hrow', hitem, hsequence, hoperation, hretained, ?_⟩
  have hspent := (hs.kept id row hrow).spent
  have hspent' := (h.sound.kept id row' hrow').spent
  have hle : total id s.log ≤ total id s'.log := h.later.log.sublist.countP_le
  unfold spentOf
  omega

end

/-- In every run whose resumptions fit, the queue is safe, and nothing is lost from any state to a later one. -/
theorem fitting_safe {crypto : Crypto} {binding : Binding} {seed : Option (Lineage × UInt64)} {db : Db} {w w' : World}
    {events events' : List Event} (hdb : Db.created binding seed = .ok db) (h : Steps (Fitting crypto) (.new db) events w)
    (h' : Steps (Fitting crypto) w events' w') : Safe crypto w'.store ∧ Grows w.store w'.store := by
  have hstart : Held crypto (World.new db).store (World.new db).store := Sound.held (sound_created hdb)
  have hsound : Sound crypto w.store.db w.store.log := (hstart.steps h).sound
  have hheld : Held crypto w.store w'.store := hsound.held.steps h'
  exact ⟨hheld.sound.safe, hheld.grows hsound⟩

section
variable {t : Store} {α : Type}

theorem exec_reads_ok {f : Store → Except Error α} {a : α} (hf : f t = .ok a) : exec (reads f) t = (.ok a, t) := by
  rw [reads, exec_of, hf]
  rfl

theorem exec_transact_ok {clock : Nat} {body : Db → Except Error Db} {note : List Entry → List Entry} {db : Db}
    (hlive : t.needsReopen = false) (hbody : body t.db = .ok db) :
    exec (transact .done clock body note) t = (.ok (), ⟨{ db with clock }, false, note t.log⟩) := by
  rw [transact, exec_of, hlive, hbody]
  rfl

theorem exec_transact_done {outcome : Commit} {clock : Nat} {f : Db → Db} {note : List Entry → List Entry} (hdone : outcome = .done)
    (hlive : t.needsReopen = false) :
    exec (transact outcome clock (fun db => .ok (f db)) note) t = (.ok (), ⟨{ f t.db with clock }, false, note t.log⟩) := by
  rw [hdone]
  exact exec_transact_ok hlive rfl

end

def sampleCrypto : Crypto := ⟨fun _ => Vector.replicate 32 1, fun _ => true, fun _ => false, fun _ _ _ => true⟩

def sampleScope : RelayNamespace := ⟨Vector.replicate 32 5, by decide⟩

def sampleOperation : OperationId := ⟨Vector.replicate 16 1, by decide⟩

def sampleItem : RelayItem := ⟨sampleScope, 1, sampleOperation, .outbox .application, [0], ⟨by decide, rfl, by decide, by decide⟩⟩

def sampleBinding : Binding := ⟨[], sampleScope.bytes, Vector.replicate 32 6, ⟨4, 1024 * 1024⟩, ⟨1, 1, 1⟩⟩

def sampleDb : Db := ⟨sampleBinding, 0, ∅, ∅, none⟩

def sampleId : Bytes32 := Vector.replicate 32 1

/-- Nothing fails, and the relay answers with a receipt without a position. -/
def malformedTurn : Turn := ⟨0, .done, 0, some (.ok ⟨0, sampleId, false⟩), .done⟩

def malformedTick : TickCall :=
  ⟨Vector.replicate 32 6, sampleScope.bytes, 0, ⟨1, maxTickBytes, 10⟩, none, 0, 0, fun _ => malformedTurn⟩

theorem sampleDb_created : Db.created sampleBinding none = .ok sampleDb := rfl

def enqueued : Store := ⟨{ sampleDb.insertJob sampleCrypto sampleItem 0 with clock := 0 }, false, []⟩

theorem enqueued_sound : Sound sampleCrypto enqueued.db enqueued.log := by
  have hsound : Sound sampleCrypto (World.new sampleDb).store.db (World.new sampleDb).store.log := sound_created sampleDb_created
  have hadmitted := (admitJob_spec sampleItem 0 hsound).2 0 rfl
  exact (hsound.insertJob 0 hadmitted.new hadmitted.scope hadmitted.free hadmitted.count hadmitted.bytes).atClock

theorem sample_enqueued : (Call.enqueue sampleItem 0 .done).run sampleCrypto (World.new sampleDb).store = (none, enqueued) := by
  have hadmit : admitJob sampleCrypto sampleItem 0 (World.new sampleDb).store = .ok (0, none) := rfl
  have hlive : (World.new sampleDb).store.needsReopen = false := rfl
  have hdigest : sampleItem.digest sampleCrypto = sampleId := rfl
  have hrow : enqueued.db.jobs[sampleId]? = some (newRow sampleCrypto sampleItem 0) := Maps.getElem?_insert.trans (if_pos rfl)
  obtain ⟨status, hstatus, -⟩ := enqueued_sound.status hrow
  show (halted _, _) = _
  rw [Store.enqueue, exec_bind_ok (exec_reads_ok hadmit)]
  dsimp only
  rw [exec_bind_ok (exec_transact_done rfl hlive), hdigest, exec_reads_ok hstatus]
  rfl

theorem sample_fitting_safe : Safe sampleCrypto enqueued ∧ Grows (World.new sampleDb).store enqueued :=
  fitting_safe sampleDb_created (.refl _) (.single ⟨.call (.enqueue sampleItem 0 .done), rfl, trivial, .returned rfl sample_enqueued (by decide)⟩)

/-! ### A job that is resumed too often -/

section
variable {s t : Store} {row : Row} {α : Type}

structure OneJob (row : Row) (t : Store) : Prop where
  sound : Sound sampleCrypto t.db t.log
  live : t.needsReopen = false
  clock : t.db.clock = 0
  binding : t.db.binding = sampleBinding
  jobs : t.db.jobs = (∅ : Std.ExtTreeMap Bytes32 Row compare).insert sampleId row

theorem OneJob.present (h : OneJob row t) : t.db.jobs[sampleId]? = some row := by
  rw [h.jobs, Maps.getElem?_insert, if_pos rfl]

theorem OneJob.toList (h : OneJob row t) : t.db.jobs.toList = [(sampleId, row)] := by
  have hperm := Maps.toList_insert_perm (m := (∅ : Std.ExtTreeMap Bytes32 Row compare)) (k := sampleId) (v := row) Std.ExtTreeMap.getElem?_empty
  rw [Maps.toList_empty] at hperm
  rw [h.jobs]
  exact List.perm_singleton.1 hperm

theorem OneJob.clockAt (h : OneJob row t) : clockAt 0 t = .ok 0 := by
  rw [Store.clockAt, Store.live, h.live, h.binding, h.clock]
  rfl

theorem OneJob.rewrites {row' : Row} {db' : Db} {log : List Entry} (h : OneJob row t) (hr : Rewrites sampleId row row' t.db db')
    (hs : Sound sampleCrypto db' log) : OneJob row' ⟨{ db' with clock := 0 }, false, log⟩ := by
  refine ⟨hs.atClock, rfl, rfl, hr.binding.trans h.binding, ?_⟩
  show db'.jobs = _
  rw [hr.jobs, h.jobs]
  refine Std.ExtTreeMap.ext_getElem? fun {a} => ?_
  rw [Maps.getElem?_insert, Maps.getElem?_insert, Maps.getElem?_insert]
  split <;> rfl

theorem OneJob.due (h : OneJob row t) (hstate : row.state = 0 ∨ row.state = 1) (hdue : row.nextDue = 0) :
    t.db.due 0 1 none = [sampleId] := by
  have hselected : ((row.state == 0 || row.state == 1) && decide (row.nextDue ≤ 0) && ((none : Option Bytes32).isNone || none == some sampleId)) = true := by
    rw [hdue]
    rcases hstate with hs | hs <;> rw [hs] <;> rfl
  rw [Db.due, h.toList, List.filter_cons, if_pos hselected, List.filter_nil, List.mergeSort_singleton]
  rfl

theorem OneJob.tick (h : OneJob row t) (hstate : row.state = 0 ∨ row.state = 1) (hattempts : row.attempts = 0) (hdue : row.nextDue = 0) :
    ∃ report t' row', exec (tickSelected sampleCrypto malformedTick) t = (.ok report, t') ∧ OneJob row' t' ∧ row'.state = 3 ∧
      row'.attempts = 1 ∧ row'.uncertain = 1 ∧ t'.db.evidence = t.db.evidence := by
  obtain ⟨prior, hprior, hreports⟩ := h.sound.status h.present
  obtain ⟨item, hitem, -⟩ := h.sound.item h.present
  obtain ⟨evidence, hevidence, -⟩ := (h.sound.kept _ _ h.present).evidenceRow
  have hpolicy : t.db.binding.policy = ⟨1, 1, 1⟩ := congrArg Binding.policy h.binding
  have hzero : prior.attempts = 0 := hreports.attempts.trans hattempts
  have hcheck : checkTick malformedTick t = .ok 0 := by
    rw [checkTick, show malformedTick.now = 0 from rfl, h.clockAt, h.binding]
    rfl
  have hinspect : inspect sampleCrypto sampleId t = .ok (prior, (item.encode sampleCrypto).length) := by
    rw [inspect, hprior]
    show (do let item ← t.db.item sampleCrypto sampleId; Pure.pure (prior, (item.encode sampleCrypto).length)) = _
    rw [hitem]
    rfl
  have hsize : ¬ 0 + (item.encode sampleCrypto).length > malformedTick.budget.maxBytes := by
    have hle : (item.encode sampleCrypto).length ≤ maxPutBody - 32 := item.length_encode_le
    exact Nat.not_lt.2 ((Nat.zero_add _).trans_le (hle.trans (by decide)))
  have hroom : ¬ prior.attempts ≥ t.db.binding.policy.maxAttempts := by
    rw [hpolicy, hzero]
    decide
  have hroom' : row.attempts < t.db.binding.policy.maxAttempts := by
    rw [hpolicy, hattempts]
    decide
  obtain ⟨due, hdue'⟩ : ∃ due, 0 + backoff t.db.binding.policy (prior.attempts + evidence.outages) = due := ⟨_, rfl⟩
  obtain ⟨hcharge, hcharged⟩ := h.sound.charge due h.present hstate hroom'
  have hone := h.rewrites hcharge hcharged
  have hbefore : Before t.log sampleId (row.charged due) prior := by
    refine ⟨congrArg (· + 1) hreports.attempts.symm, fun ending hm hd => ?_⟩
    have huncertain := (h.sound.kept _ _ h.present).doubt (by omega) ending hm hd
    rw [← hreports.uncertain] at huncertain
    exact Bool.toNat_eq_one.1 huncertain
  have hsettles : Settles t.log sampleId (row.charged due) prior
    (.ok ⟨0, sampleId, false⟩) (settlement ⟨1, 1, 1⟩ sampleId prior (prior.attempts + 1) (.ok ⟨0, sampleId, false⟩)) := settlement_settles _
  have hless : prior.attempts < (t.db.charge sampleId (row.attempts + 1) due).binding.policy.maxAttempts := by
    rw [hcharge.binding, hpolicy, hzero]
    decide
  obtain ⟨hsettle, hsettled⟩ := hone.sound.settle hone.present rfl hbefore hless hsettles
  have htwo := hone.rewrites hsettle hsettled
  obtain ⟨status, hstatus, -⟩ := htwo.sound.status htwo.present
  have hdenied : ¬ (settlement t.db.binding.policy sampleId prior (row.attempts + 1) (.ok ⟨0, sampleId, false⟩)).error = errorCode .denied :=
    show ¬ errorCode .malformed = errorCode .denied by decide
  have hafter : t.db.due 0 1 none = [sampleId] := h.due hstate hdue
  refine ⟨⟨[status], 0 + (item.encode sampleCrypto).length, true⟩, _, _, ?_, htwo, rfl, ?_, rfl, ?_⟩
  · rw [tickSelected, exec_bind_ok (exec_reads_ok hcheck), if_neg (by decide), exec_bind_ok (exec_view _),
      show malformedTick.budget.maxJobs = 1 from rfl, show malformedTick.only = none from rfl, hafter, tickJobs, if_neg (by decide),
      exec_bind_ok (exec_reads_ok hinspect)]
    dsimp only
    rw [exec_bind_ok (exec_view _), if_neg hsize, if_neg hroom, exec_bind_ok (exec_reads_ok hevidence), hdue']
    rw [hreports.attempts, exec_bind_ok (exec_transact_done (show (malformedTick.turns 0).charge = .done from rfl) h.live), if_neg (by decide)]
    dsimp only [malformedTick, malformedTurn]
    rw [exec_bind_ok (exec_transact_done rfl rfl), exec_bind_ok (exec_reads_ok hstatus), if_neg hdenied, hpolicy]
    rfl
  · show row.attempts + 1 = 1
    rw [hattempts]
  · exact updateJob_evidence.trans updateJob_evidence

theorem OneJob.stopped (h : OneJob row t) (hstate : row.state = 3) : t.db.stopped none = [sampleId] := by
  have hselected : (row.state == 3) = true := by
    rw [hstate]
    rfl
  rw [Db.stopped, Db.bySequence, h.toList, List.mergeSort_singleton, List.filter_cons, if_pos hselected]
  rfl

theorem OneJob.resume (h : OneJob row t) (hstate : row.state = 3) :
    ∃ db', Rewrites sampleId row (row.rearmed 0) t.db db' ∧
      db'.evidence[sampleId]? = some (EvidenceRow.resumed row.attempts 0 t.db.evidence[sampleId]?) ∧
      (Fits t.db sampleId → Sound sampleCrypto db' (.resumed sampleId :: t.log)) ∧
      exec (Store.resume none 0 .done) t = exec (reads fun store => [sampleId].mapM store.db.status)
        ⟨{ db' with clock := 0 }, false, .resumed sampleId :: t.log⟩ := by
  obtain ⟨db', hrearm, -, hrewrites, hevidence⟩ := h.sound.rearmed 0 h.present
  refine ⟨db', hrewrites, hevidence, fun hfits => ?_, ?_⟩
  · obtain ⟨db'', hrearm', -, -, hsound⟩ := h.sound.rearm 0 h.present hstate hfits
    rw [hrearm] at hrearm'
    cases hrearm'
    exact hsound
  · have hselected : selectStopped none 0 t = .ok (0, [sampleId]) := by
      rw [selectStopped, h.clockAt, ← h.stopped hstate]
      rfl
    have hfold : [sampleId].foldlM (Db.rearm 0) t.db = .ok db' := by
      rw [List.foldlM_cons, hrearm]
      rfl
    rw [Store.resume, exec_bind_ok (exec_reads_ok hselected), if_neg (by decide), exec_bind_ok (exec_transact_ok h.live hfold)]
    rfl

theorem find_throws {db : Db} {id : Bytes32} : ThrowsOnly (· = .corrupt) (db.find id) := by
  have hu32 : ∀ {n : Nat}, ThrowsOnly (· = .corrupt) (tryU32 n) := fun {n} => by
    unfold tryU32
    split
    · exact .ok
    · exact .error rfl
  have hevidence : ThrowsOnly (· = .corrupt) (db.evidenceRow id) := by
    unfold Db.evidenceRow
    split
    · exact .ok
    · exact .bind hu32 fun _ => .bind hu32 fun _ => .bind hu32 fun _ => .ok
  unfold Db.find
  split
  · exact .ok
  · refine .bind (.mapError fun _ => rfl) fun _ => .bind ?_ fun _ => .bind hu32 fun _ => .bind ?_ fun _ => .bind (.require rfl) fun _ =>
      .bind ?_ fun _ => .bind ?_ fun _ => .ok
    · unfold decodeState
      split <;> first | exact .ok | exact .error rfl
    · unfold decodeUncertain
      split <;> first | exact .ok | exact .error rfl
    · unfold Db.checkUncharged
      split
      · exact .bind hevidence fun _ => .require rfl
      · exact .ok
    · unfold decodeError
      split <;> first | exact .ok | exact .error rfl

/-- A job in doubt without charged attempts, and evidence past `u32`. -/
theorem find_corrupt {db : Db} {id : Bytes32} {row : Row} {evidence : EvidenceRow} (hrow : db.jobs[id]? = some row)
    (hstate : row.state = 1) (hattempts : row.attempts = 0) (hevidence : db.evidence[id]? = some evidence)
    (hresumes : 2 ^ 32 ≤ evidence.resumes) : db.find id = .error .corrupt := by
  cases hfind : db.find id with
  | error e => rw [find_throws e hfind]
  | ok status =>
    simp only [Db.find, hrow, bind_eq_ok, hstate, hattempts] at hfind
    obtain ⟨_, -, state, hs, attempts, ha, _, -, _, -, _, hunch, -⟩ := hfind
    cases hs
    cases ha
    simp only [Db.checkUncharged, if_pos (show ((0 : Nat) == 0 && JobState.uncertain != .pending) = true from rfl), bind_eq_ok,
      Db.evidenceRow, hevidence, tryU32, if_neg (Nat.not_lt.2 hresumes)] at hunch
    obtain ⟨_, ⟨_, -, _, hr, -⟩, -⟩ := hunch
    cases hr

/-- The job was resumed `n` times, and is stopped again. -/
structure Spun (n : Nat) (t : Store) : Prop where
  job : ∃ row, OneJob row t ∧ row.state = 3 ∧ row.attempts = 1 ∧ row.uncertain = 1
  resumes : (t.db.evidence[sampleId]?.map EvidenceRow.resumes).getD 0 = n
  spent : (t.db.evidence[sampleId]?.map EvidenceRow.spentAttempts).getD 0 = n

theorem Steps.call {crypto : Crypto} {call : Call} {halt : Option Halt} {t' : Store} (h : call.run crypto t = (halt, t'))
    (hne : halt ≠ some .crashed) : Steps (Next crypto) ⟨t, true⟩ [.call call] ⟨t', true⟩ :=
  .single ⟨.call call, rfl, .returned rfl h hne⟩

theorem Spun.next {n : Nat} (h : Spun n t) (hn : n + 1 < 2 ^ 32) :
    ∃ events t', Steps (Next sampleCrypto) ⟨t, true⟩ events ⟨t', true⟩ ∧ Spun (n + 1) t' := by
  obtain ⟨row, hjob, hstate, hattempts, huncertain⟩ := h.job
  obtain ⟨db', hrewrites, hevidence, hsound, hexec⟩ := hjob.resume hstate
  have hfits : Fits t.db sampleId := fun r hr => by
    rw [hjob.present] at hr
    cases hr
    rw [h.resumes, h.spent, hattempts]
    exact ⟨hn, hn⟩
  have hrearmed := hjob.rewrites hrewrites (hsound hfits)
  obtain ⟨status, hstatus, -⟩ := hrearmed.sound.status hrearmed.present
  have hread : [sampleId].mapM ({ db' with clock := 0 } : Db).status = .ok [status] := by
    rw [List.mapM_cons, hstatus]
    rfl
  obtain ⟨report, t', row', htick, hjob', hstate', hattempts', huncertain', hevidence'⟩ :=
    hrearmed.tick (.inr huncertain) rfl rfl
  have hevidence'' : t'.db.evidence[sampleId]? = some (EvidenceRow.resumed row.attempts 0 t.db.evidence[sampleId]?) := by
    rw [hevidence']
    exact hevidence
  have hresume : (Call.resume none 0 .done).run sampleCrypto t = (none, ⟨{ db' with clock := 0 }, false, .resumed sampleId :: t.log⟩) := by
    show (halted _, _) = _
    rw [hexec, exec_reads_ok hread]
    rfl
  have htick' : (Call.tick malformedTick).run sampleCrypto ⟨{ db' with clock := 0 }, false, .resumed sampleId :: t.log⟩ = (none, t') := by
    show (halted _, _) = _
    rw [htick]
    rfl
  refine ⟨_, t', (Steps.call hresume (by decide)).trans (Steps.call htick' (by decide)),
    ⟨row', hjob', hstate', hattempts', huncertain'⟩, ?_, ?_⟩
  · rw [hevidence'']
    show (EvidenceRow.resumed _ _ _).resumes = _
    rw [resumes_resumed, h.resumes]
  · rw [hevidence'']
    show (EvidenceRow.resumed _ _ _).spentAttempts = _
    rw [spent_resumed, h.spent, hattempts]

theorem Spun.runs {n : Nat} (h : Spun 0 t) (hn : n < 2 ^ 32) :
    ∃ events t', Steps (Next sampleCrypto) ⟨t, true⟩ events ⟨t', true⟩ ∧ Spun n t' := by
  induction n with
  | zero => exact ⟨[], t, .refl _, h⟩
  | succ n ih =>
    obtain ⟨events, t₁, hsteps, hspun⟩ := ih (by omega)
    obtain ⟨events', t₂, hsteps', hspun'⟩ := hspun.next hn
    exact ⟨_, t₂, hsteps.trans hsteps', hspun'⟩

theorem sample_starts : ∃ events t', Steps (Next sampleCrypto) (.new sampleDb) events ⟨t', true⟩ ∧ Spun 0 t' := by
  have hjob : OneJob (newRow sampleCrypto sampleItem 0) enqueued := ⟨enqueued_sound, rfl, rfl, rfl, rfl⟩
  obtain ⟨report, t', row', htick, hjob', hstate', hattempts', huncertain', hevidence'⟩ := hjob.tick (.inl rfl) rfl rfl
  have htick' : (Call.tick malformedTick).run sampleCrypto enqueued = (none, t') := by
    show (halted _, _) = _
    rw [htick]
    rfl
  have hnone : t'.db.evidence[sampleId]? = none := by
    rw [hevidence']
    exact Std.ExtTreeMap.getElem?_empty
  refine ⟨_, t', (Steps.call sample_enqueued (by decide)).trans (Steps.call htick' (by decide)),
    ⟨row', hjob', hstate', hattempts', huncertain'⟩, ?_, ?_⟩ <;> rw [hnone] <;> rfl

/-- After 2^32 resumptions the job is reported corrupt. -/
theorem resumed_too_often : ∃ (events : List Event) (w : World), Steps (Next sampleCrypto) (.new sampleDb) events w ∧
    w.store.db.find sampleId = .error .corrupt ∧ ¬ Safe sampleCrypto w.store := by
  obtain ⟨events, t, hsteps, hspun⟩ := sample_starts
  obtain ⟨events', t', hsteps', hspun'⟩ := hspun.runs (show 2 ^ 32 - 1 < 2 ^ 32 by decide)
  obtain ⟨row, hjob, hstate, hattempts, huncertain⟩ := hspun'.job
  obtain ⟨db', hrewrites, hevidence, -, hexec⟩ := hjob.resume hstate
  have hresumes : 2 ^ 32 ≤ (EvidenceRow.resumed row.attempts 0 t'.db.evidence[sampleId]?).resumes := by
    rw [resumes_resumed, hspun'.resumes]
    decide
  have hrow : ({ db' with clock := 0 } : Db).jobs[sampleId]? = some (row.rearmed 0) := hrewrites.after
  have hfind : ({ db' with clock := 0 } : Db).find sampleId = .error .corrupt := find_corrupt hrow huncertain rfl hevidence hresumes
  have hread : [sampleId].mapM ({ db' with clock := 0 } : Db).status = .error .corrupt := by
    rw [List.mapM_cons, Db.status, hfind]
    rfl
  have hresume : (Call.resume none 0 .done).run sampleCrypto t' =
      (some (.error .corrupt), ⟨{ db' with clock := 0 }, false, .resumed sampleId :: t'.log⟩) := by
    show (halted _, _) = _
    rw [hexec, reads, exec_of, hread]
    rfl
  refine ⟨_, _, (hsteps.trans hsteps').trans (Steps.call hresume (fun h => by cases h)), hfind, fun hsafe => ?_⟩
  obtain ⟨⟨status, hstatus⟩, -⟩ := hsafe.readable sampleId _ hrow
  rw [hfind] at hstatus
  cases hstatus

end

end Valhalla.Relay
