import Valhalla.Lib.Trace
import Valhalla.Relay.Changes

/-!
# Every run of the queue

No operation loses what is sound, wherever its transactions fail or are cut, and none reports `Corrupt` as long as the
evidence of a re-armed job still fits `u32`.
-/

namespace Valhalla.Relay
open Fallible FixedWidth Check Store
open Valhalla.PrivateKernel (OperationId)

/-! ### What only grows -/

structure Later (s s' : Store) : Prop where
  binding : s'.db.binding = s.db.binding
  clock : s.db.clock ≤ s'.db.clock
  rows : ∀ (id : Bytes32) (row : Row), s.db.jobs[id]? = some row → ∃ row', s'.db.jobs[id]? = some row' ∧
    row'.item = row.item ∧ row'.sequence = row.sequence ∧ row'.operation = row.operation ∧ (row.state = 2 → row' = row)
  log : s.log <:+ s'.log

section
variable {crypto : Crypto} {s s' s'' : Store} {log : List Entry} {db db' : Db} {id : Bytes32} {row row' : Row} {clock : Nat}

theorem Later.refl : Later s s := ⟨rfl, Nat.le_refl _, fun _ row h => ⟨row, h, rfl, rfl, rfl, fun _ => rfl⟩, List.suffix_refl _⟩

theorem Later.trans (h : Later s s') (h' : Later s' s'') : Later s s'' := by
  refine ⟨h'.binding.trans h.binding, Nat.le_trans h.clock h'.clock, fun id row hrow => ?_, h.log.trans h'.log⟩
  obtain ⟨row', hrow', hitem, hsequence, hoperation, hretained⟩ := h.rows id row hrow
  obtain ⟨row'', hrow'', hitem', hsequence', hoperation', hretained'⟩ := h'.rows id row' hrow'
  refine ⟨row'', hrow'', hitem'.trans hitem, hsequence'.trans hsequence, hoperation'.trans hoperation, fun hs => ?_⟩
  rw [← hretained hs]
  exact hretained' (by rw [hretained hs]; exact hs)

theorem Rewrites.later {flag : Bool} (h : Rewrites id row row' s.db db') (hne : row.state ≠ 2) (hclock : s.db.clock ≤ clock)
    (hlog : s.log <:+ log) : Later s ⟨{ db' with clock }, flag, log⟩ := by
  refine ⟨h.binding, hclock, fun other r hr => ?_, hlog⟩
  by_cases hother : other = id
  · subst hother
    rw [h.before] at hr
    cases hr
    exact ⟨row', h.after, h.item, h.sequence, h.operation, fun hs => absurd hs hne⟩
  · exact ⟨r, (h.other hother).trans hr, rfl, rfl, rfl, fun _ => rfl⟩

/-- A sound state that comes after another one. -/
structure Held (crypto : Crypto) (s s' : Store) : Prop where
  sound : Sound crypto s'.db s'.log
  later : Later s s'

/-- How an operation ends: in a sound state, and not with `Corrupt`. -/
structure Ends {α : Type} (crypto : Crypto) (s : Store) (p : Except Halt α × Store) : Prop where
  held : Held crypto s p.2
  readable : p.1 ≠ .error (.error .corrupt)

variable {α β : Type} {t : Store}

theorem Ends.pure {a : α} (h : Held crypto s t) : Ends crypto s (exec (Pure.pure a : Custody α) t) :=
  ⟨h, fun he => by cases he⟩

theorem Ends.reads {f : Store → Except Error α} {g : α → Custody β} (h : Held crypto s t) (hf : ThrowsOnly (· ≠ .corrupt) (f t))
    (hg : ∀ a, f t = .ok a → Ends crypto s (exec (g a) t)) : Ends crypto s (exec (Store.reads f >>= g) t) := by
  rw [exec_bind, Store.reads, exec_of]
  cases hft : f t with
  | error e => exact ⟨h, fun he => hf e hft (by cases he; rfl)⟩
  | ok a => exact hg a hft

theorem Ends.reads_ok {f : Store → Except Error α} {g : α → Custody β} {a : α} (hf : f t = .ok a)
    (hg : Ends crypto s (exec (g a) t)) : Ends crypto s (exec (Store.reads f >>= g) t) := by
  rw [exec_bind, Store.reads, exec_of, hf]
  exact hg

theorem Ends.reads_last {f : Store → Except Error α} {a : α} (h : Held crypto s t) (hf : f t = .ok a) :
    Ends crypto s (exec (Store.reads f) t) := by
  rw [Store.reads, exec_of, hf]
  exact ⟨h, fun he => by cases he⟩

theorem Ends.transact {outcome : Commit} {body : Db → Except Error Db} {note : List Entry → List Entry} {f : Unit → Custody α}
    (h : Held crypto s t) (hbody : body t.db = .ok db) (hnew : ∀ flag, Held crypto s ⟨{ db with clock }, flag, note t.log⟩)
    (hf : Ends crypto s (exec (f ()) ⟨{ db with clock }, false, note t.log⟩)) :
    Ends crypto s (exec (Store.transact outcome clock body note >>= f) t) := by
  have hold : ∀ flag, Held crypto s { t with needsReopen := flag } := fun _ => ⟨h.sound, h.later.trans ⟨rfl, Nat.le_refl _, fun _ row hrow =>
    ⟨row, hrow, rfl, rfl, rfl, fun _ => rfl⟩, List.suffix_refl _⟩⟩
  rw [exec_bind, Store.transact, exec_of]
  split
  · rename_i r t' hr
    split at hr
    · cases hr
    · rw [hbody] at hr
      cases outcome with
      | done =>
        cases hr
        exact hf
      | failed => cases hr
      | crashed => cases hr
  · rename_i e t' hr
    split at hr
    · cases hr
      exact ⟨h, fun he => by cases he⟩
    · rw [hbody] at hr
      cases outcome with
      | done => cases hr
      | failed durable =>
        cases hr
        refine ⟨?_, fun he => by cases he⟩
        cases durable
        · exact hold true
        · exact hnew true
      | crashed durable =>
        cases hr
        refine ⟨?_, fun he => by cases he⟩
        cases durable
        · exact hold true
        · exact hnew true

/-! ### The jobs of a tick -/

theorem Rewrites.status (h : Rewrites id row row' db db') (hs : Sound crypto { db' with clock } log) :
    ∃ status, ({ db' with clock } : Db).status id = .ok status := by
  have hrow : ({ db' with clock } : Db).jobs[id]? = some row' := h.after
  obtain ⟨status, hstatus, -⟩ := hs.status hrow
  exact ⟨status, hstatus⟩

/-- A job that a tick may attempt. -/
def Waiting (db : Db) (id : Bytes32) : Prop := ∃ row : Row, db.jobs[id]? = some row ∧ (row.state = 0 ∨ row.state = 1)

theorem Held.tickJobs {budget : TickBudget} {turns : Nat → Turn} (ids : List Bytes32) (n : Nat) (report : TickReport) {t : Store}
    (h : Held crypto s t) (hnodup : ids.Nodup) (hids : ∀ id ∈ ids, Waiting t.db id) (hclock : t.db.clock ≤ clock) :
    Ends crypto s (exec (tickJobs crypto clock budget turns ids n report) t) := by
  induction ids generalizing n report t with
  | nil => exact .pure h
  | cons id ids ih =>
    obtain ⟨hid, hnodup⟩ := List.nodup_cons.1 hnodup
    obtain ⟨row, hrow, hstate⟩ := hids id List.mem_cons_self
    have hne : row.state ≠ 2 := by omega
    obtain ⟨prior, hprior, hreports⟩ := h.sound.status hrow
    obtain ⟨item, hitem, -⟩ := h.sound.item hrow
    obtain ⟨evidence, hevidence, -⟩ := (h.sound.kept id row hrow).evidenceRow
    -- the other jobs still wait after a change of this one
    have hrest : ∀ {row' : Row} {db' : Db}, Rewrites id row row' t.db db' → ∀ other ∈ ids, Waiting db' other := by
      intro row' db' hrewrites other hother
      obtain ⟨r, hr, hs⟩ := hids other (List.mem_cons_of_mem _ hother)
      exact ⟨r, (hrewrites.other fun he => hid (he ▸ hother)).trans hr, hs⟩
    rw [Store.tickJobs]
    split
    · exact .pure h
    refine .reads_ok (a := (prior, (item.encode crypto).length)) ?_ ?_
    · rw [inspect, hprior]
      show (do let item ← t.db.item crypto id; Pure.pure (prior, (item.encode crypto).length)) = _
      rw [hitem]
      rfl
    dsimp only
    rw [exec_bind_ok (exec_view _)]
    split
    · exact .pure h
    split
    · rename_i hspent
      rw [hreports.attempts] at hspent
      obtain ⟨hrewrites, hsound⟩ := h.sound.stop hrow hstate hspent
      have hnew : ∀ flag, Held crypto s ⟨{ t.db.stop id with clock }, flag, t.log⟩ := fun flag =>
        ⟨hsound.atClock, h.later.trans (hrewrites.later hne hclock (List.suffix_refl _))⟩
      refine .transact h rfl hnew ?_
      obtain ⟨status, hstatus⟩ := hrewrites.status (hnew false).sound
      refine .reads_ok hstatus ?_
      exact ih _ _ (hnew false) hnodup (hrest hrewrites.atClock) (Nat.le_refl _)
    · rename_i hroom
      rw [hreports.attempts, Nat.not_le] at hroom
      refine .reads_ok hevidence ?_
      rw [hreports.attempts]
      obtain ⟨hrewrites, hsound⟩ := h.sound.charge (clock + backoff t.db.binding.policy (row.attempts + evidence.outages)) hrow hstate hroom
      have hnew : ∀ flag, Held crypto s ⟨{ t.db.charge id (row.attempts + 1)
          (clock + backoff t.db.binding.policy (row.attempts + evidence.outages)) with clock }, flag, .attempt id .unknown :: t.log⟩ := fun flag =>
        ⟨hsound.atClock, h.later.trans (hrewrites.later hne hclock (List.suffix_cons _ _))⟩
      refine .transact h rfl hnew ?_
      generalize t.db.charge id (row.attempts + 1) (clock + backoff t.db.binding.policy (row.attempts + evidence.outages)) = db₁ at hrewrites hnew hsound ⊢
      split
      · obtain ⟨status, hstatus⟩ := hrewrites.status (hnew false).sound
        exact .reads_ok hstatus (.pure (hnew false))
      · cases hanswer : (turns n).answer with
        | none => exact ⟨hnew false, fun he => by cases he⟩
        | some answer =>
          dsimp only
          have hbefore : Before t.log id (row.charged (clock + backoff t.db.binding.policy (row.attempts + evidence.outages))) prior := by
            refine ⟨by rw [hreports.attempts]; rfl, fun ending hm hd => ?_⟩
            have huncertain := (h.sound.kept id row hrow).doubt hne ending hm hd
            rw [← hreports.uncertain] at huncertain
            exact Bool.toNat_eq_one.1 huncertain
          have hbinding : db₁.binding = t.db.binding := hrewrites.binding
          have hless : prior.attempts < db₁.binding.policy.maxAttempts := by
            rw [hbinding, hreports.attempts]
            exact hroom
          have hsettles : Settles t.log id (row.charged (clock + backoff t.db.binding.policy (row.attempts + evidence.outages))) prior
            answer (settlement t.db.binding.policy id prior (row.attempts + 1) answer) := settlement_settles answer
          obtain ⟨hrewrites', hsound'⟩ := (hnew false).sound.settle hrewrites.after rfl hbefore hless hsettles
          have hwhole := hrewrites.atClock.trans hrewrites'
          have hnew' : ∀ flag, Held crypto s ⟨{ settled id prior (settlement t.db.binding.policy id prior (row.attempts + 1) answer)
              { db₁ with clock } with clock }, flag, .attempt id (.answered answer) :: t.log⟩ := fun flag =>
            ⟨hsound'.atClock, h.later.trans (hwhole.later hne hclock (List.suffix_cons _ _))⟩
          refine .transact (hnew false) rfl hnew' ?_
          obtain ⟨status, hstatus⟩ := hwhole.status (hnew' false).sound
          refine .reads_ok hstatus ?_
          dsimp only
          split
          · exact .pure (hnew' false)
          · exact ih _ _ (hnew' false) hnodup (hrest hwhole.atClock) (Nat.le_refl _)

/-! ### The operations -/

theorem clockAt_spec {now : UInt64} : ThrowsOnly (· ≠ .corrupt) (clockAt now t) ∧
    ∀ c, clockAt now t = .ok c → t.db.clock ≤ c := by
  refine ⟨.bind (.require (by decide)) fun _ => .bind (.require (by decide)) fun _ => ?_, fun c hc => ?_⟩
  · split
    · split
      · exact .ok
      · exact .error (by decide)
    · exact .ok
  · simp only [clockAt, bind_eq_ok] at hc
    obtain ⟨_, -, _, -, hc⟩ := hc
    split at hc
    · split at hc
      · cases hc
        exact Nat.le_refl _
      · cases hc
    · rename_i hlt
      cases hc
      exact Nat.not_lt.1 hlt

theorem mem_due {limit : Nat} {only : Option Bytes32} (h : id ∈ db.due clock limit only) : Waiting db id := by
  have hmem := List.mem_of_mem_take h
  obtain ⟨⟨id, row⟩, hentry, rfl⟩ := List.mem_map.1 hmem
  rw [List.mem_mergeSort, List.mem_filter] at hentry
  obtain ⟨hentry, hselected⟩ := hentry
  simp only [Bool.and_eq_true, Bool.or_eq_true, beq_iff_eq] at hselected
  exact ⟨row, Std.ExtTreeMap.mem_toList_iff_getElem?_eq_some.1 hentry, hselected.1.1⟩

theorem nodup_ids {l : List (Bytes32 × Row)} (h : l.Sublist db.jobs.toList) : (l.map Prod.fst).Nodup := by
  refine (List.Sublist.map Prod.fst h).nodup ?_
  rw [Std.ExtTreeMap.map_fst_toList_eq_keys]
  exact Std.ExtTreeMap.nodup_keys

theorem nodup_due {limit : Nat} {only : Option Bytes32} : (db.due clock limit only).Nodup :=
  (List.take_sublist _ _).nodup (((List.mergeSort_perm _ _).map Prod.fst).nodup_iff.2 (nodup_ids List.filter_sublist))

theorem Held.tick (call : TickCall) (h : Held crypto s t) : Ends crypto s (exec (tickSelected crypto call) t) := by
  refine .reads h ?_ fun clock hclock => ?_
  · exact .bind clockAt_spec.1 fun _ => .bind (.require (by decide)) fun _ => .bind (.require (by decide)) fun _ => .ok
  · simp only [checkTick, bind_eq_ok] at hclock
    obtain ⟨_, hc, _, -, _, -, hclock⟩ := hclock
    cases hclock
    split
    · exact .pure h
    · rw [exec_bind_ok (exec_view _)]
      exact h.tickJobs _ _ _ nodup_due (fun id hid => mem_due hid) (clockAt_spec.2 _ hc)

/-- What `enqueue` has checked of a new job. -/
structure Admitted (crypto : Crypto) (item : RelayItem) (t : Store) (clock : Nat) : Prop where
  clock : t.db.clock ≤ clock
  new : t.db.jobs[item.digest crypto]? = none
  scope : item.scope.bytes = t.db.binding.scope
  free : ∀ (other : Bytes32) (r : Row), t.db.jobs[other]? = some r →
    r.sequence ≠ beVector 8 item.sequence.toNat ∧ r.operation ≠ item.operation.bytes
  count : (t.db.jobs.toList.filter fun entry => entry.2.live).length < t.db.binding.limits.maxJobs
  bytes : Weights.total (fun entry => entry.2.item.length) t.db.jobs.toList + Db.inherited t.db.lineage + (item.encode crypto).length ≤
    t.db.binding.limits.maxBytes

theorem admitJob_spec (item : RelayItem) (now : UInt64) (h : Sound crypto t.db t.log) :
    ThrowsOnly (· ≠ .corrupt) (admitJob crypto item now t) ∧
      ∀ clock, admitJob crypto item now t = .ok (clock, none) → Admitted crypto item t clock := by
  obtain ⟨usage, husage, hcount, hbytes⟩ := h.usage
  cases hrow : t.db.jobs[item.digest crypto]? with
  | some row =>
    obtain ⟨status, hfind, -⟩ := h.find hrow
    obtain ⟨held, hheld, -⟩ := h.item hrow
    refine ⟨.bind clockAt_spec.1 fun c => .bind (.require (by decide)) fun _ => ?_, fun clock hadmit => ?_⟩
    · rw [hfind]
      show ThrowsOnly _ (do let held ← t.db.item crypto (item.digest crypto); _)
      rw [hheld]
      exact .bind .ok fun _ => .bind (.require (by decide)) fun _ => .ok
    · simp only [admitJob, bind_eq_ok, hfind] at hadmit
      obtain ⟨_, -, _, -, found, hfound, hadmit⟩ := hadmit
      cases hfound
      obtain ⟨_, -, hadmit⟩ := bind_eq_ok.1 hadmit
      obtain ⟨_, -, hadmit⟩ := bind_eq_ok.1 hadmit
      cases hadmit
  | none =>
    have hfind : t.db.find (item.digest crypto) = .ok none := Sound.find_none hrow
    refine ⟨.bind clockAt_spec.1 fun c => .bind (.require (by decide)) fun _ => ?_, fun clock hadmit => ?_⟩
    · rw [hfind]
      show ThrowsOnly _ (do let lineage ← t.db.checkedLineage; _)
      rw [h.lineage]
      refine .bind .ok fun _ => .bind (.require (by decide)) fun _ => .bind (.require (by decide)) fun _ => ?_
      rw [husage]
      exact .bind .ok fun _ => .bind (.require (by decide)) fun _ => .ok
    · simp only [admitJob, bind_eq_ok, hfind] at hadmit
      obtain ⟨_, hc, _, hscope, found, hfound, hadmit⟩ := hadmit
      cases hfound
      simp only [bind_eq_ok, require_eq_ok, husage] at hadmit
      obtain ⟨_, -, _, -, _, hfree, usage', husage', _, hroom, hadmit⟩ := hadmit
      cases husage'
      cases hadmit
      rw [Bool.and_eq_true, decide_eq_true_eq, decide_eq_true_eq, hcount, hbytes] at hroom
      rw [require_eq_ok, beq_iff_eq] at hscope
      refine ⟨clockAt_spec.2 _ hc, hrow, hscope, fun other r hr => ?_, hroom.1, hroom.2⟩
      rw [Bool.not_eq_true', List.any_eq_false] at hfree
      have hnot := hfree (other, r) (Std.ExtTreeMap.mem_toList_iff_getElem?_eq_some.2 hr)
      rw [Bool.or_eq_true, beq_iff_eq, beq_iff_eq, not_or] at hnot
      exact hnot

theorem Held.enqueue {item : RelayItem} {now : UInt64} {outcome : Commit} (h : Held crypto s t) :
    Ends crypto s (exec (enqueue crypto item now outcome) t) := by
  obtain ⟨hthrows, hadmits⟩ := admitJob_spec item now h.sound
  refine .reads h hthrows fun ⟨clock, found⟩ hchecked => ?_
  cases found with
  | some prior => exact .pure h
  | none =>
    have hadmitted := hadmits clock hchecked
    have hsound := h.sound.insertJob clock hadmitted.new hadmitted.scope hadmitted.free hadmitted.count hadmitted.bytes
    have hrow : (t.db.insertJob crypto item clock).jobs[item.digest crypto]? = some (newRow crypto item clock) :=
      Maps.getElem?_insert.trans (if_pos rfl)
    have hnew : ∀ flag, Held crypto s ⟨{ t.db.insertJob crypto item clock with clock }, flag, t.log⟩ := fun flag => by
      refine ⟨hsound.atClock, h.later.trans ⟨rfl, hadmitted.clock, fun other r hr => ⟨r, ?_, rfl, rfl, rfl, fun _ => rfl⟩, List.suffix_refl _⟩⟩
      refine Maps.getElem?_insert.trans ((if_neg fun he => ?_).trans hr)
      rw [← he, hadmitted.new] at hr
      cases hr
    refine .transact h rfl hnew ?_
    have hrow' : ({ t.db.insertJob crypto item clock with clock } : Db).jobs[item.digest crypto]? = some (newRow crypto item clock) := hrow
    obtain ⟨status, hstatus, -⟩ := (hnew false).sound.status hrow'
    exact .reads_last (hnew false) hstatus

theorem Sound.rearmAll (clock : Nat) (ids : List Bytes32) (h : Sound crypto db log) (hnodup : ids.Nodup)
    (hids : ∀ id ∈ ids, ∃ row : Row, db.jobs[id]? = some row ∧ row.state = 3) (hfits : ∀ id ∈ ids, Fits db id) :
    ∃ db', ids.foldlM (Db.rearm clock) db = .ok db' ∧ Sound crypto db' (ids.foldl (fun log id => .resumed id :: log) log) ∧
      Later ⟨db, false, log⟩ ⟨db', false, ids.foldl (fun log id => .resumed id :: log) log⟩ := by
  induction ids generalizing db log with
  | nil => exact ⟨db, rfl, h, .refl⟩
  | cons id ids ih =>
    obtain ⟨hid, hnodup⟩ := List.nodup_cons.1 hnodup
    obtain ⟨row, hrow, hstate⟩ := hids id List.mem_cons_self
    obtain ⟨db₁, hrearm, hclock, hrewrites, hsound⟩ := h.rearm clock hrow hstate (hfits id List.mem_cons_self)
    have hother : ∀ other ∈ ids, other ≠ id := fun other ho he => hid (he ▸ ho)
    obtain ⟨db', hfold, hsound', hlater⟩ := ih hsound hnodup
      (fun other ho => by
        obtain ⟨r, hr, hs⟩ := hids other (List.mem_cons_of_mem _ ho)
        exact ⟨r, (hrewrites.other (hother other ho)).trans hr, hs⟩)
      (fun other ho r hr => by
        rw [hrewrites.other (hother other ho)] at hr
        rw [hrewrites.evidence other (hother other ho)]
        exact hfits other (List.mem_cons_of_mem _ ho) r hr)
    refine ⟨db', ?_, hsound', Later.trans ?_ hlater⟩
    · rw [List.foldlM_cons, hrearm]
      exact hfold
    · have hstep : Later ⟨db, false, log⟩ ⟨{ db₁ with clock := db.clock }, false, .resumed id :: log⟩ :=
        Rewrites.later hrewrites (by omega) (Nat.le_refl _) (List.suffix_cons _ _)
      exact ⟨hstep.binding, Nat.le_of_eq hclock.symm, hstep.rows, hstep.log⟩

theorem mem_stopped {only : Option Bytes32} (h : id ∈ db.stopped only) : ∃ row : Row, db.jobs[id]? = some row ∧ row.state = 3 := by
  have hmem := (List.mem_filter.1 h).1
  obtain ⟨⟨id, row⟩, hentry, rfl⟩ := List.mem_map.1 hmem
  rw [Db.bySequence, List.mem_filter, List.mem_mergeSort] at hentry
  exact ⟨row, Std.ExtTreeMap.mem_toList_iff_getElem?_eq_some.1 hentry.1, beq_iff_eq.1 hentry.2⟩

theorem nodup_stopped {only : Option Bytes32} : (db.stopped only).Nodup := by
  refine List.Nodup.filter _ ?_
  refine (List.Sublist.map Prod.fst List.filter_sublist).nodup ?_
  exact ((List.mergeSort_perm _ _).map Prod.fst).nodup_iff.2 (nodup_ids (List.Sublist.refl _))

theorem Held.resume {only : Option Bytes32} {now : UInt64} {outcome : Commit} (h : Held crypto s t)
    (hfits : ∀ id ∈ t.db.stopped only, Fits t.db id) : Ends crypto s (exec (resume only now outcome) t) := by
  refine .reads h ?_ fun ⟨clock, ids⟩ hselected => ?_
  · refine .bind clockAt_spec.1 fun _ => ?_
    cases only with
    | none => exact .ok
    | some wanted =>
      refine .bind ?_ fun _ => .bind (.require (by decide)) fun _ => .ok
      cases hrow : t.db.jobs[wanted]? with
      | none =>
        rw [Sound.find_none hrow]
        exact .ok
      | some row =>
        obtain ⟨status, hfind, -⟩ := h.sound.find hrow
        rw [hfind]
        exact .ok
  · obtain ⟨hclock, rfl⟩ : t.db.clock ≤ clock ∧ t.db.stopped only = ids := by
      obtain ⟨_, hc, hselected⟩ := bind_eq_ok.1 hselected
      cases only with
      | none =>
        cases hselected
        exact ⟨clockAt_spec.2 _ hc, rfl⟩
      | some wanted =>
        obtain ⟨_, -, hselected⟩ := bind_eq_ok.1 hselected
        obtain ⟨_, -, hselected⟩ := bind_eq_ok.1 hselected
        cases hselected
        exact ⟨clockAt_spec.2 _ hc, rfl⟩
    split
    · exact .pure h
    · obtain ⟨db', hfold, hsound, hlater⟩ := h.sound.rearmAll clock _ nodup_stopped (fun id hid => mem_stopped hid) hfits
      have hnew : ∀ flag, Held crypto s ⟨{ db' with clock }, flag, (t.db.stopped only).foldl (fun log id => .resumed id :: log) t.log⟩ :=
        fun flag => ⟨hsound.atClock, h.later.trans ⟨hlater.binding, hclock, hlater.rows, hlater.log⟩⟩
      refine .transact h hfold hnew ?_
      obtain ⟨statuses, hstatuses⟩ : ∃ statuses, (t.db.stopped only).mapM ({ db' with clock } : Db).status = .ok statuses := by
        refine mapM_total fun id hid => ?_
        obtain ⟨row, hrow, -⟩ := mem_stopped hid
        obtain ⟨row', hrow', -⟩ := hlater.rows id row hrow
        have hrow'' : ({ db' with clock } : Db).jobs[id]? = some row' := hrow'
        obtain ⟨status, hstatus, -⟩ := (hnew false).sound.status hrow''
        exact ⟨status, hstatus⟩
      exact .reads_last (hnew false) hstatuses

theorem Held.reopen (h : Held crypto s t) (context : List UInt8) (scope endpoint : Bytes32) (outcome : Commit) :
    Ends crypto s (exec (reopen crypto context scope endpoint outcome) t) := by
  have hopen : ∀ flag, Held crypto s { t with needsReopen := flag } := fun _ => ⟨h.sound, h.later.trans ⟨rfl, Nat.le_refl _, fun _ row hrow =>
    ⟨row, hrow, rfl, rfl, rfl, fun _ => rfl⟩, List.suffix_refl _⟩⟩
  have hchecked : ∀ clock, checkOpen crypto context scope endpoint { t with needsReopen := false } = .ok clock → clock = t.db.clock := by
    intro clock hc
    simp only [checkOpen, bind_eq_ok] at hc
    obtain ⟨_, -, _, -, _, -, _, -, hc⟩ := hc
    cases hc
    rfl
  rw [Store.reopen, exec_bind_ok (exec_update _)]
  refine .reads (hopen false) ?_ fun clock hclock => ?_
  · refine .bind (.require (by decide)) fun _ => ?_
    dsimp only
    rw [h.sound.limits]
    refine .bind .ok fun _ => ?_
    rw [h.sound.lineage]
    refine .bind .ok fun _ => ?_
    rw [h.sound.validate]
    exact .bind .ok fun _ => .ok
  · rw [hchecked clock hclock]
    have hend : Ends crypto s (exec (Store.transact outcome t.db.clock .ok id >>= fun u => Pure.pure u) { t with needsReopen := false }) :=
      .transact (hopen false) rfl hopen (.pure (hopen false))
    rwa [bind_pure] at hend

end

end Valhalla.Relay
