import Valhalla.Botcaptcha.OneUse

/-!
# Refusals for capacity

Only `prune` removes entries, and no verification calls it. A window that is full of expired entries refuses every
response until then, so a refusal for capacity speaks of live entries exactly where no entry has expired.
-/

namespace Valhalla.Botcaptcha
open Fallible FixedWidth Check
open Valhalla.Witness hiding version

namespace OneUseWindow
variable {w : OneUseWindow} {clock : UInt64} {subjectKey : Bytes32}

def live (w : OneUseWindow) (clock : UInt64) : List (Bytes32 × Entry) :=
  w.entries.toList.filter fun e => decide (clock ≤ e.2.expiresAt)

def ofSubject (w : OneUseWindow) (subjectKey : Bytes32) : List (Bytes32 × Entry) :=
  w.entries.toList.filter fun e => e.2.subjectKey == subjectKey

def liveOf (w : OneUseWindow) (subjectKey : Bytes32) (clock : UInt64) : List (Bytes32 × Entry) :=
  (w.ofSubject subjectKey).filter fun e => decide (clock ≤ e.2.expiresAt)

theorem length_live : (w.live clock).length = w.entries.size ↔ ∀ e ∈ w.entries.toList, clock ≤ e.2.expiresAt := by
  rw [live, ← Std.ExtTreeMap.length_toList, List.length_filter_eq_length_iff]
  simp only [decide_eq_true_eq]

theorem length_ofSubject : (w.ofSubject subjectKey).length = w.openOf subjectKey := by
  rw [ofSubject, openOf, subjects, List.count, List.countP_map, List.countP_eq_length_filter]
  rfl

theorem length_liveOf : (w.liveOf subjectKey clock).length = w.openOf subjectKey ↔
    ∀ e ∈ w.ofSubject subjectKey, clock ≤ e.2.expiresAt := by
  rw [liveOf, ← length_ofSubject, List.length_filter_eq_length_iff]
  simp only [decide_eq_true_eq]

/-- When `consume` refuses a free scope. -/
theorem exec_consume_free {scopeKey responseHash : Bytes32} {expiresAt : UInt64} (hpeek : w.peek scopeKey responseHash = none) :
    (exec (consume scopeKey subjectKey responseHash expiresAt) w).1 =
      if maxOpenChallenges ≤ w.entries.size then .error .capacity
      else if maxOpenPerSubject ≤ w.heldBy subjectKey then .error .subjectCapacity
      else .ok () := by
  rw [consume, exec_examine_bind]
  unfold admissible heldBy
  rw [hpeek]
  by_cases hsize : w.entries.size ≥ maxOpenChallenges
  · rw [if_pos hsize]
    simp [Check.require, hsize]
    rfl
  · rw [if_neg hsize]
    by_cases hheld : w.perSubject[subjectKey]?.getD 0 ≥ maxOpenPerSubject
    · rw [if_pos hheld]
      simp [Check.require, hsize, hheld]
      rfl
    · rw [if_neg hheld]
      simp [Check.require, hsize, hheld]
      rfl

end OneUseWindow

/-! ### The checks before the window -/

/-- The refusals that speak of the window's size. -/
def WitnessError.isCapacity : WitnessError → Bool
  | .capacity | .subjectCapacity => true
  | _ => false

/-- No error of a computation speaks of the window's size. -/
abbrev Prior {α : Type} (x : Except WitnessError α) : Prop := ThrowsOnly (fun e => e.isCapacity = false) x

namespace WitnessVerifier
variable {crypto : Crypto} {v v' : WitnessVerifier}

theorem prior_checkSignature {weak invalid : WitnessError} {key : Bytes32} {message : List UInt8} {signature : Signature}
    (hweak : weak.isCapacity = false) (hinvalid : invalid.isCapacity = false) :
    Prior (checkSignature crypto weak invalid key message signature) :=
  .bind (.require hinvalid) fun _ => .bind (.require hweak) fun _ => .require hinvalid

theorem prior_verify {challenge : Challenge} {expected : ChallengeContext} {startedAt now : UInt64} :
    Prior (VerifiedChallenge.verify crypto challenge expected startedAt now) := by
  unfold VerifiedChallenge.verify
  split
  · rename_i e h
    exact .error (prior_checkSignature rfl rfl e h)
  · refine .bind ?_ fun _ => .ok
    exact .bind (.require rfl) fun _ => .bind (.okOr rfl) fun _ => .bind (.require rfl) fun _ => .bind (.require rfl) fun _ =>
      .bind (.require rfl) fun _ => .require rfl

theorem prior_refuseConsumed {scopeKey responseHash : Bytes32} : Prior (v.refuseConsumed scopeKey responseHash) := by
  unfold refuseConsumed OneUseWindow.peek
  cases v.window.entries[scopeKey]? with
  | none => exact .ok
  | some entry =>
    by_cases hsame : entry.responseHash = responseHash
    · simp only [if_pos hsame]
      exact .error rfl
    · simp only [if_neg hsame]
      exact .error rfl

theorem prior_checkResponse {manifest : ValidManifest} {response : Response} {verified : VerifiedChallenge crypto} :
    Prior (checkResponse crypto manifest response v verified) := by
  refine .bind (.okOr rfl) fun _ => .bind (.require rfl) fun _ => .bind (prior_checkSignature rfl rfl) fun _ =>
    .bind prior_refuseConsumed fun _ => .bind (.require rfl) fun _ => .bind (.require rfl) fun _ => .bind ?_ fun _ =>
      .bind ?_ fun _ => .ok
  · exact .bind (.mapError fun _ => rfl) fun _ => .bind (.mapError fun _ => rfl) fun _ => .bind (.require rfl) fun _ =>
      .bind (.require rfl) fun _ => .bind (.mapError fun _ => rfl) fun _ => .ok
  · exact .bind (.require rfl) fun _ => .bind (.require rfl) fun _ => .bind (.require rfl) fun _ => .require rfl

theorem prior_checkHashcash {response : HashcashResponse} {verified : VerifiedChallenge crypto} :
    Prior (checkHashcash crypto response v verified) :=
  .bind (.okOr rfl) fun _ => .bind (prior_checkSignature rfl rfl) fun _ => .bind (.require rfl) fun _ =>
    .bind prior_refuseConsumed fun _ => .bind (.require rfl) fun _ => .ok

theorem refuseConsumed_eq_ok {scopeKey responseHash : Bytes32} {u : Unit} (h : v.refuseConsumed scopeKey responseHash = .ok u) :
    v.window.peek scopeKey responseHash = none := by
  unfold refuseConsumed at h
  split at h
  · cases h
  · assumption

def passes {α : Type} (v : WitnessVerifier) (challenge : Challenge) (expected : ChallengeContext) (now : UInt64)
    (check : WitnessVerifier → VerifiedChallenge crypto → Except WitnessError α) : Bool :=
  match VerifiedChallenge.verify crypto challenge expected v.startedAt (v.advanced now).clock with
  | .ok verified => (check (v.advanced now) verified).isOk
  | .error _ => false

structure Refuses (v : WitnessVerifier) (passes : Bool) (subjectKey : Bytes32) (refused : WitnessError → Prop) : Prop where
  capacity : refused .capacity ↔ passes = true ∧ maxOpenChallenges ≤ v.window.entries.size
  subjectCapacity : refused .subjectCapacity ↔ passes = true ∧ v.window.entries.size < maxOpenChallenges ∧
    maxOpenPerSubject ≤ v.window.heldBy subjectKey

/-- A check that refuses what is consumed, and nothing for the window's size. -/
structure Guards {α : Type} (responseHash : Bytes32)
    (check : WitnessVerifier → VerifiedChallenge crypto → Except WitnessError α) : Prop where
  prior : ∀ v verified, Prior (check v verified)
  free : ∀ v verified checked, check v verified = .ok checked → v.window.peek verified.scopeKey responseHash = none

theorem consumeWindow_free {scopeKey responseHash : Bytes32} (subjectKey : Bytes32) (expiresAt : UInt64)
    (hpeek : v.window.peek scopeKey responseHash = none) :
    (exec (consumeWindow scopeKey subjectKey responseHash expiresAt) v).1 =
      if maxOpenChallenges ≤ v.window.entries.size then .error .capacity
      else if maxOpenPerSubject ≤ v.window.heldBy subjectKey then .error .subjectCapacity
      else .ok () := by
  rw [consumeWindow, exec_of]
  show (exec (OneUseWindow.consume scopeKey subjectKey responseHash expiresAt) v.window).1.mapError windowError = _
  rw [OneUseWindow.exec_consume_free hpeek]
  split
  · rfl
  · split <;> rfl

theorem Refuses.of_prior {α : Type} {subjectKey : Bytes32} {x : Except WitnessError α} (h : Prior x) (passes : Bool)
    (hpasses : passes = false) : Refuses v passes subjectKey fun e => x = .error e := by
  refine ⟨⟨fun he => ?_, fun he => ?_⟩, fun he => ?_, fun he => ?_⟩
  · cases h _ he
  · rw [hpasses] at he
    cases he.1
  · cases h _ he
  · rw [hpasses] at he
    cases he.1

theorem Refuses.of_sizes {α : Type} {subjectKey : Bytes32} {x : Except WitnessError α} {r : Except WitnessError Unit}
    (hr : r = if maxOpenChallenges ≤ v.window.entries.size then .error .capacity
      else if maxOpenPerSubject ≤ v.window.heldBy subjectKey then .error .subjectCapacity else .ok ())
    (hx : ∀ e, x = .error e ↔ r = .error e) : Refuses v true subjectKey fun e => x = .error e := by
  subst hr
  refine ⟨?_, ?_⟩
  · rw [hx]
    by_cases hsize : maxOpenChallenges ≤ v.window.entries.size
    · simp [hsize]
    · by_cases hheld : maxOpenPerSubject ≤ v.window.heldBy subjectKey <;> simp [hsize, hheld]
  · rw [hx]
    by_cases hsize : maxOpenChallenges ≤ v.window.entries.size
    · simp [hsize, Nat.not_lt.2 hsize]
    · have hlt := Nat.lt_of_not_ge hsize
      by_cases hheld : maxOpenPerSubject ≤ v.window.heldBy subjectKey <;> simp [hsize, hheld, hlt]

theorem Refuses.advanced {now : UInt64} {passes : Bool} {subjectKey : Bytes32} {refused : WitnessError → Prop}
    (h : Refuses (v.advanced now) passes subjectKey refused) : Refuses v passes subjectKey refused := ⟨h.capacity, h.subjectCapacity⟩

theorem accept_refuses {α : Type} {challenge : Challenge} {expected : ChallengeContext} {now : UInt64} {responseHash : Bytes32}
    {check : WitnessVerifier → VerifiedChallenge crypto → Except WitnessError α} (hcheck : Guards responseHash check)
    (v : WitnessVerifier) : Refuses v (v.passes challenge expected now check) challenge.subjectKey
      fun e => (exec (accept challenge expected now responseHash check) v).1 = .error e := by
  have hadvance : exec (advance now) v = (.ok (v.advanced now).clock, v.advanced now) := rfl
  rw [accept, exec_bind_ok hadvance, exec_examine_bind, passes]
  have hstarted : (v.advanced now).startedAt = v.startedAt := rfl
  rw [hstarted]
  have hprior : Prior (VerifiedChallenge.verify crypto challenge expected v.startedAt (v.advanced now).clock) := prior_verify
  cases hverify : VerifiedChallenge.verify crypto challenge expected v.startedAt (v.advanced now).clock with
  | error e =>
    rw [hverify] at hprior
    exact .of_prior (.error (hprior e rfl)) _ rfl
  | ok verified =>
    have hchallenge := (VerifiedChallenge.verify_ok hverify).1
    have hguard := hcheck.prior (v.advanced now) verified
    dsimp only
    rw [exec_examine_bind]
    cases hchecked : check (v.advanced now) verified with
    | error e =>
      rw [hchecked] at hguard
      exact .of_prior (.error (hguard e rfl)) _ rfl
    | ok checked =>
      have hfree := hcheck.free _ _ _ hchecked
      rw [← hchallenge]
      refine (Refuses.of_sizes (consumeWindow_free _ verified.challenge.expiresAt hfree) fun e => ?_).advanced
      dsimp only
      rw [exec_bind]
      rcases exec (consumeWindow verified.scopeKey verified.challenge.subjectKey responseHash verified.challenge.expiresAt)
        (v.advanced now) with ⟨_ | _, _⟩ <;> simp

theorem guards_checkResponse {manifest : ValidManifest} {response : Response} :
    Guards (response.hash crypto) (checkResponse crypto manifest response) where
  prior _ _ := prior_checkResponse
  free v verified receipt h := by
    simp only [checkResponse, bind_eq_ok] at h
    obtain ⟨_, -, _, -, _, -, _, hfree, -⟩ := h
    exact refuseConsumed_eq_ok hfree

theorem guards_checkHashcash {response : HashcashResponse} :
    Guards (response.hash crypto) (checkHashcash crypto response) where
  prior _ _ := prior_checkHashcash
  free v verified checked h := by
    simp only [checkHashcash, bind_eq_ok] at h
    obtain ⟨_, -, _, -, _, -, _, hfree, -⟩ := h
    exact refuseConsumed_eq_ok hfree

end WitnessVerifier

/-! ### Calls -/

namespace Call

def passing (crypto : Crypto) (v : WitnessVerifier) : Call → Option (Challenge × UInt64)
  | verifyResponse challenge manifest response expected now =>
    if v.passes challenge expected now (WitnessVerifier.checkResponse crypto manifest response) then
      some (challenge, (v.advanced now).clock)
    else none
  | verifyBytes challenge manifest response expected now =>
    match Challenge.decode challenge, Response.decode response with
    | .ok challenge, .ok response =>
      if v.passes challenge expected now (WitnessVerifier.checkResponse crypto manifest response) then
        some (challenge, (v.advanced now).clock)
      else none
    | _, _ => none
  | verifyHashcash challenge response expected now =>
    if v.passes challenge expected now (WitnessVerifier.checkHashcash crypto response) then
      some (challenge, (v.advanced now).clock)
    else none
  | prune _ => none
  | setAllowance _ => none

structure Meets (v v' : WitnessVerifier) (call : Call) (passing : Option (Challenge × UInt64))
    (result : Except WitnessError (Option Evidence)) : Prop where
  capacity : result = .error .capacity ↔ passing.isSome ∧ maxOpenChallenges ≤ v.window.entries.size
  subjectCapacity : result = .error .subjectCapacity ↔ ∃ p, passing = some p ∧
    v.window.entries.size < maxOpenChallenges ∧ maxOpenPerSubject ≤ v.window.heldBy p.1.subjectKey
  presented : ∀ p, passing = some p → call.challenge = some p.1 ∧ v'.clock = p.2

variable {crypto : Crypto} {v v' : WitnessVerifier}

theorem Meets.of_prior {call : Call} {result : Except WitnessError (Option Evidence)} (h : Prior result) :
    Meets v v' call none result := by
  refine ⟨⟨fun he => ?_, fun he => ?_⟩, ⟨fun he => ?_, fun he => ?_⟩, fun p hp => ?_⟩
  · cases h _ he
  · cases he.1
  · cases h _ he
  · obtain ⟨_, hp, -⟩ := he
    cases hp
  · cases hp

theorem meets_of_accept {α : Type} {call : Call} {challenge : Challenge} {expected : ChallengeContext} {now : UInt64}
    {responseHash : Bytes32} {check : WitnessVerifier → VerifiedChallenge crypto → Except WitnessError α}
    {evidence : VerifiedChallenge crypto × α → Evidence} {result : Except WitnessError (Option Evidence)}
    (hcheck : WitnessVerifier.Guards responseHash check) (hcall : call.challenge = some challenge)
    (h : exec (WitnessVerifier.accept challenge expected now responseHash check >>= fun p => pure (some (evidence p))) v =
      (result, v')) :
    Meets v v' call (if v.passes challenge expected now check then some (challenge, (v.advanced now).clock) else none)
      result := by
  have hrefuses : WitnessVerifier.Refuses v (v.passes challenge expected now check) challenge.subjectKey
    fun e => (exec (WitnessVerifier.accept challenge expected now responseHash check) v).1 = .error e :=
      WitnessVerifier.accept_refuses hcheck v
  have hresult : (∀ e, result = .error e ↔
      (exec (WitnessVerifier.accept challenge expected now responseHash check) v).1 = .error e) ∧
      v'.clock = (v.advanced now).clock := by
    rcases WitnessVerifier.exec_accept v challenge expected now responseHash check with ⟨error, hexec⟩ | ⟨_, _, hexec, -⟩
    · rw [exec_bind_error hexec] at h
      cases h
      simp [hexec]
    · rw [exec_bind_ok hexec] at h
      cases h
      simp [hexec]
      rfl
  refine ⟨?_, ?_, fun p hp => ?_⟩
  · rw [hresult.1, hrefuses.capacity]
    cases v.passes challenge expected now check <;> simp
  · rw [hresult.1, hrefuses.subjectCapacity]
    cases v.passes challenge expected now check <;> simp
  · split at hp
    · cases hp
      exact ⟨hcall, hresult.2⟩
    · cases hp

theorem meets {call : Call} {result : Except WitnessError (Option Evidence)} (h : exec (call.perform crypto) v = (result, v')) :
    Meets v v' call (call.passing crypto v) result := by
  cases call with
  | verifyResponse challenge manifest response expected now =>
    simp only [perform, WitnessVerifier.verifyResponse, bind_assoc, pure_bind] at h
    exact meets_of_accept WitnessVerifier.guards_checkResponse rfl h
  | verifyBytes rawChallenge manifest rawResponse expected now =>
    simp only [perform, WitnessVerifier.verifyBytes, bind_assoc, exec_examine_bind] at h
    cases hchallenge : Challenge.decode rawChallenge with
    | error error =>
      rw [hchallenge] at h
      cases h
      rw [passing, hchallenge]
      exact .of_prior (.error rfl)
    | ok challenge =>
      rw [hchallenge] at h
      cases hresponse : Response.decode rawResponse with
      | error error =>
        rw [hresponse] at h
        cases h
        rw [passing, hchallenge, hresponse]
        exact .of_prior (.error rfl)
      | ok response =>
        rw [hresponse] at h
        simp only [WitnessVerifier.verifyResponse, bind_assoc, pure_bind] at h
        rw [passing, hchallenge, hresponse]
        refine meets_of_accept WitnessVerifier.guards_checkResponse ?_ h
        show (Challenge.decode rawChallenge).toOption = some challenge
        rw [hchallenge]
        rfl
  | verifyHashcash challenge response expected now =>
    simp only [perform, WitnessVerifier.verifyHashcash, bind_assoc, pure_bind] at h
    exact meets_of_accept WitnessVerifier.guards_checkHashcash rfl h
  | prune now =>
    cases h
    exact .of_prior .ok
  | setAllowance allowance =>
    cases h
    exact .of_prior .ok

end Call

/-! ### Refusals of a run -/

namespace Note

structure RefusedLive (note : Note) : Prop where
  capacity : note.result = .error .capacity → (note.after.window.live note.after.clock).length = maxOpenChallenges
  subjectCapacity : note.result = .error .subjectCapacity → ∀ c, note.call.challenge = some c →
    (note.after.window.liveOf c.subjectKey note.after.clock).length = maxOpenPerSubject

structure MetLive (crypto : Crypto) (note : Note) : Prop where
  capacity : ∀ c clock, note.call.passing crypto note.before = some (c, clock) →
    note.before.window.entries.size = maxOpenChallenges → ∀ e ∈ note.before.window.entries.toList, clock ≤ e.2.expiresAt
  subjectCapacity : ∀ c clock, note.call.passing crypto note.before = some (c, clock) →
    note.before.window.entries.size < maxOpenChallenges → note.before.window.openOf c.subjectKey = maxOpenPerSubject →
      ∀ e ∈ note.before.window.ofSubject c.subjectKey, clock ≤ e.2.expiresAt

variable {crypto : Crypto} {note : Note}

theorem refusedLive_iff (hexec : exec (note.call.perform crypto) note.before = (note.result, note.after))
    (hbefore : note.before.window.Accounted) : note.RefusedLive ↔ note.MetLive crypto := by
  have hmeets := Call.meets hexec
  have hwindow : ∀ e, note.result = .error e → note.after.window = note.before.window := by
    intro e he
    have heffect := WitnessVerifier.effect hexec
    rw [he] at heffect
    cases heffect with
    | refused _ _ window => exact window
  constructor
  · intro h
    refine ⟨fun c clock hpass hsize => ?_, fun c clock hpass hsize hheld => ?_⟩
    · have herror := hmeets.capacity.2 ⟨by rw [hpass]; rfl, Nat.le_of_eq hsize.symm⟩
      have hlive := h.capacity herror
      rw [hwindow _ herror, (hmeets.presented _ hpass).2, ← hsize] at hlive
      exact OneUseWindow.length_live.1 hlive
    · have herror := hmeets.subjectCapacity.2 ⟨_, hpass, hsize, by rw [hbefore.heldBy_eq, hheld]⟩
      obtain ⟨hchallenge, hclock⟩ := hmeets.presented _ hpass
      have hlive := h.subjectCapacity herror c hchallenge
      rw [hwindow _ herror, hclock, ← hheld] at hlive
      exact OneUseWindow.length_liveOf.1 hlive
  · intro h
    refine ⟨fun herror => ?_, fun herror c hc => ?_⟩
    · obtain ⟨hpass, hle⟩ := hmeets.capacity.1 herror
      obtain ⟨⟨c, clock⟩, hpass⟩ := Option.isSome_iff_exists.1 hpass
      have hsize := Nat.le_antisymm hbefore.total hle
      rw [hwindow _ herror, (hmeets.presented _ hpass).2, ← hsize]
      exact OneUseWindow.length_live.2 (h.capacity c clock hpass hsize)
    · obtain ⟨⟨c', clock⟩, hpass, hsize, hle⟩ := hmeets.subjectCapacity.1 herror
      obtain ⟨hchallenge, hclock⟩ := hmeets.presented _ hpass
      rw [hc] at hchallenge
      cases hchallenge
      rw [hbefore.heldBy_eq] at hle
      have hheld := Nat.le_antisymm (hbefore.perSubject _) hle
      rw [hwindow _ herror, hclock, ← hheld]
      exact OneUseWindow.length_liveOf.2 (h.subjectCapacity _ clock hpass hsize hheld)

end Note

theorem Step.recorded {crypto : Crypto} {v v' : WitnessVerifier} {notes : List Note} (h : Step crypto v notes v')
    (hv : v.window.Accounted) : v'.window.Accounted ∧ ∀ n ∈ notes,
      exec (n.call.perform crypto) n.before = (n.result, n.after) ∧ n.before.window.Accounted := by
  cases h with
  | call hexec =>
    refine ⟨(WitnessVerifier.effect hexec).accounted hv, fun n hn => ?_⟩
    rw [List.mem_singleton.1 hn]
    exact ⟨hexec, hv⟩

/-- In every run of a verifier from a window that can be built, with any `now` for each call, the refusals for
capacity speak of live entries exactly at the calls that meet no expired entry in a full window, nor among the
entries of a subject that has all of them. -/
theorem capacity_live {crypto : Crypto} {startedAt : UInt64} {allowance : WorkAllowance} {window : OneUseWindow}
    {log : List Note} {v : WitnessVerifier} (hwindow : window.Reachable)
    (h : Steps (Step crypto) (.new startedAt allowance window) log v) :
    ∀ note ∈ log, note.RefusedLive ↔ note.MetLive crypto := by
  have hrun := h.recorded (I := fun log v => v.window.Accounted ∧ ∀ n ∈ log,
    exec (n.call.perform crypto) n.before = (n.result, n.after) ∧ n.before.window.Accounted)
    ⟨hwindow.accounted, fun _ hn => absurd hn List.not_mem_nil⟩ fun log v notes v' hlog hs => by
      obtain ⟨hv, hnotes⟩ := hs.recorded hlog.1
      refine ⟨hv, fun n hn => ?_⟩
      rcases List.mem_append.1 hn with hn | hn
      · exact hlog.2 n hn
      · exact hnotes n hn
  intro note hnote
  obtain ⟨hexec, hbefore⟩ := hrun.2 note hnote
  exact Note.refusedLive_iff hexec hbefore

/-! ### A subject whose entries have all expired -/

namespace OneUseWindow

def consumeAll (scopeKeys : List Bytes32) (subjectKey responseHash : Bytes32) (expiresAt : UInt64) :
    Fallible WindowError OneUseWindow Unit :=
  forM scopeKeys fun scopeKey => consume scopeKey subjectKey responseHash expiresAt

theorem Reachable.consumeAll {w : OneUseWindow} (h : w.Reachable) (scopeKeys : List Bytes32) (subjectKey responseHash : Bytes32)
    (expiresAt : UInt64) : (exec (OneUseWindow.consumeAll scopeKeys subjectKey responseHash expiresAt) w).2.Reachable := by
  induction scopeKeys generalizing w with
  | nil => exact h
  | cons scopeKey scopeKeys ih =>
    rw [OneUseWindow.consumeAll, List.forM_cons, exec_bind]
    rcases hone : exec (OneUseWindow.consume scopeKey subjectKey responseHash expiresAt) w with ⟨_ | _, w'⟩
    · exact h.consume hone
    · exact ih (h.consume hone)

end OneUseWindow

/-- Sixty-four entries of the subject, expired since 1000. -/
def sampleCrowd : OneUseWindow :=
  (exec (OneUseWindow.consumeAll ((List.range maxOpenPerSubject).map fun n => Vector.replicate 32 (UInt8.ofNat n)) sampleSubject (beVector 32 0) 1000) .new).2

def sampleCrowded : WitnessVerifier := .new 990 ⟨0⟩ sampleCrowd

def sampleRefused : Note := ⟨samplePresents, .error .subjectCapacity, sampleCrowded, sampleCrowded.advanced 1010⟩

theorem sample_refused : exec (samplePresents.perform sampleCrypto) sampleCrowded =
    (.error .subjectCapacity, sampleCrowded.advanced 1010) := by
  have hresult : (exec (samplePresents.perform sampleCrypto) sampleCrowded).1 = .error .subjectCapacity := by
    decide +kernel
  simp only [samplePresents, Call.perform, WitnessVerifier.verifyHashcash, bind_assoc, pure_bind] at hresult ⊢
  -- a refused response leaves the verifier with its clock advanced
  rcases WitnessVerifier.exec_accept sampleCrowded sampleChallenge sampleContext 1010 (sampleResponse.hash sampleCrypto)
    (WitnessVerifier.checkHashcash sampleCrypto sampleResponse) with ⟨error, hexec⟩ | ⟨_, _, hexec, -⟩
  · rw [exec_bind_error hexec] at hresult ⊢
    cases hresult
    rfl
  · rw [exec_bind_ok hexec] at hresult
    cases hresult

theorem sampleCrowd_expired : (sampleCrowd.liveOf sampleSubject 1010).length = 0 := by
  have hexpired : sampleCrowd.entries.toList.all (fun e => decide (e.2.expiresAt < 1010)) = true := by decide +kernel
  rw [List.length_eq_zero_iff, OneUseWindow.liveOf, List.filter_eq_nil_iff]
  intro e he hlive
  have hlt := of_decide_eq_true (List.all_eq_true.1 hexpired e (List.mem_filter.1 he).1)
  exact absurd (of_decide_eq_true hlive) (UInt64.not_le.2 hlt)

theorem sample_expired_refusal : sampleCrowd.Reachable ∧ ¬ ∀ log v, Steps (Step sampleCrypto) (.new 990 ⟨0⟩ sampleCrowd) log v →
    ∀ note ∈ log, note.RefusedLive := by
  refine ⟨OneUseWindow.Reachable.new.consumeAll _ _ _ _, fun h => ?_⟩
  have hlive := h [sampleRefused] _ (.single (.call sample_refused)) sampleRefused (List.mem_singleton.2 rfl)
  have hcount : (sampleCrowd.liveOf sampleSubject 1010).length = maxOpenPerSubject :=
    hlive.subjectCapacity rfl sampleChallenge rfl
  rw [sampleCrowd_expired] at hcount
  cases hcount

/-- The refusal of the crowded window is judged by the condition: it is not live, and the condition fails. -/
theorem sample_capacity_live : sampleRefused.RefusedLive ↔ sampleRefused.MetLive sampleCrypto :=
  capacity_live (OneUseWindow.Reachable.new.consumeAll _ _ _ _) (.single (.call sample_refused)) sampleRefused
    (List.mem_singleton.2 rfl)

end Valhalla.Botcaptcha
