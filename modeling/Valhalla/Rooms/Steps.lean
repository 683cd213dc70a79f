import Valhalla.Rooms.Chains
import Valhalla.Rooms.Registry

/-!
# What an operation does to the registry

`Sound.outcome` lists the effects of the four operations. A refusal leaves the registry as it is, but for a control
record that is refused by the chain of an owner that has none: the empty chain stays.
-/

namespace Valhalla.Rooms
open Fallible FixedWidth Check
open Social (OwnerId AgentId RecordId ControlView)

/-- An operation with its arguments. -/
inductive Call (crypto : Crypto)
  | apply (record : VerifiedRecord crypto) (view : ControlView) (now : UInt64)
  | award (record : Social.VerifiedRecord crypto) (view : ControlView) (now : UInt64)
  | setEligible (eligible : List OwnerId) (now : UInt64)
  | applyRotation (fromHeight : UInt64) (validators : List ValidatorMember) (now : UInt64)

variable {crypto : Crypto}

structure DirectoryPolicy.Valid (policy : DirectoryPolicy) : Prop where
  baseCost : policy.baseCost ≠ 0
  windowSeconds : policy.windowSeconds ≠ 0
  maxInWindow : 0 < policy.maxInWindow.toNat
  maxInWindow_le : policy.maxInWindow.toNat ≤ maxRooms
  supportEpochSeconds : policy.supportEpochSeconds ≠ 0
  maxLifetimeRooms : 0 < policy.maxLifetimeRooms.toNat
  maxLifetimeRooms_le : policy.maxLifetimeRooms.toNat ≤ maxRooms
  cost : ∃ cost, policy.cost policy.maxLifetimeRooms = .ok cost

theorem DirectoryPolicy.validate_eq_ok {policy : DirectoryPolicy} : policy.validate = .ok () ↔ policy.Valid := by
  have hwindow : policy.maxInWindow ≠ 0 ↔ 0 < policy.maxInWindow.toNat := by
    rw [Nat.pos_iff_ne_zero, ne_eq, ne_eq, ← UInt16.toNat_inj]
    rfl
  have hlifetime : policy.maxLifetimeRooms ≠ 0 ↔ 0 < policy.maxLifetimeRooms.toNat := by
    rw [Nat.pos_iff_ne_zero, ne_eq, ne_eq, ← UInt32.toNat_inj]
    rfl
  simp only [validate, bind_eq_ok, require_eq_ok, Bool.not_eq_true', Bool.or_eq_false_iff, beq_eq_false_iff_ne, decide_eq_false_iff_not,
    Nat.not_lt, gt_iff_lt]
  constructor
  · rintro ⟨-, ⟨⟨⟨⟨⟨⟨hbase, hseconds⟩, hmax⟩, hmaxLe⟩, hepoch⟩, hrooms⟩, hroomsLe⟩, cost, hcost, -⟩
    exact ⟨hbase, hseconds, hwindow.1 hmax, hmaxLe, hepoch, hlifetime.1 hrooms, hroomsLe, cost, hcost⟩
  · intro h
    obtain ⟨cost, hcost⟩ := h.cost
    exact ⟨(), ⟨⟨⟨⟨⟨⟨h.baseCost, h.windowSeconds⟩, hwindow.2 h.maxInWindow⟩, h.maxInWindow_le⟩, h.supportEpochSeconds⟩,
      hlifetime.2 h.maxLifetimeRooms⟩, h.maxLifetimeRooms_le⟩, cost, hcost, rfl⟩

/-- The two configuration changes return no value. -/
def Call.run : Call crypto → RegistryM crypto (Option Applied)
  | .apply record view now => do
    let applied ← applyRecord record view now
    pure (some applied)
  | .award record view now => do
    let applied ← Rooms.award record view now
    pure (some applied)
  | .setEligible eligible now => do
    Rooms.setEligible eligible now
    pure none
  | .applyRotation fromHeight validators now => do
    Rooms.applyRotation fromHeight validators now
    pure none

def Call.now : Call crypto → UInt64
  | .apply _ _ now => now
  | .award _ _ now => now
  | .setEligible _ now => now
  | .applyRotation _ _ now => now

/-- The state behind `finish`. -/
def Registry.finished (r : Registry crypto) (now revision : UInt64) : Registry crypto := { r with lastTime := now, revision }

theorem Registry.windows_finished (r : Registry crypto) (now revision : UInt64) : (r.finished now revision).windows = r.windows := rfl

theorem Registry.window_finished (r : Registry crypto) (now revision : UInt64) (owner : OwnerId) :
    (r.finished now revision).window owner = r.window owner := rfl

def Registry.Counts (r : Registry crypto) : Prop := r.revision.toNat + 1 < 2 ^ 64

theorem exec_finish (r : Registry crypto) (now : UInt64) :
    (∃ revision, revision.toNat = r.revision.toNat + 1 ∧ exec (finish now) r = (.ok (), r.finished now revision)) ∨
      ¬ r.Counts ∧ exec (finish now) r = (.error .capacity, r.finished now r.revision) := by
  have hone : (1 : UInt64).toNat = 1 := rfl
  rw [finish, exec_bind_ok (exec_update _), exec_examine_bind]
  dsimp only
  cases hadd : checkedAdd r.revision 1 with
  | some revision => exact .inl ⟨revision, checkedAdd_eq_some.1 hadd, rfl⟩
  | none =>
    refine .inr ⟨fun hcounts => ?_, rfl⟩
    obtain ⟨revision, hsome⟩ := checkedAdd_isSome (a := r.revision) (b := 1) (by
      simp only [toNat_uInt64, bytes_uInt64, hone]
      exact hcounts)
    rw [hsome] at hadd
    cases hadd

/-- The invariants behind the case analysis. -/
structure Registry.Sound (r : Registry crypto) : Prop where
  authority : r.authority.Sound
  policy : r.policy.Valid
  windows : ∀ (owner : OwnerId) (times : List UInt64), r.windows[owner]? = some times → times.length ≤ r.policy.maxInWindow.toNat
  evidence : ∀ (id : RecordId) (e : Evidence crypto), r.evidence[id]? = some e → r.support.contains e.award.key = true

/-- What the chain of an owner without records refuses: it has no head, starts at zero and has no open grants. -/
def RoomControl.Unfounded (control : RoomControl) : Prop :=
  control.previous ≠ none ∨ control.sequence ≠ 0 ∨ ∃ grant, control.action = .revokeGrant grant

theorem RoomControl.unfounded_iff (crypto : Crypto) {control : RoomControl} :
    control.Unfounded ↔ ({} : OwnerChain crypto).accepts control ≠ .ok () := by
  have hpermits : ({} : OwnerChain crypto).permits control.action = .ok () ↔ ∀ grant, control.action ≠ .revokeGrant grant := by
    cases control.action with
    | grantCreate => simp [OwnerChain.permits]
    | revokeGrant grant => simp [OwnerChain.permits]
  have haccepts : ({} : OwnerChain crypto).accepts control = .ok () ↔
      control.previous = none ∧ control.sequence = 0 ∧ ∀ grant, control.action ≠ .revokeGrant grant := by
    rw [← hpermits]
    simp [OwnerChain.accepts]
  rw [ne_eq, haccepts, RoomControl.Unfounded]
  by_cases hprevious : control.previous = none
  · by_cases hsequence : control.sequence = 0
    · simp [hprevious, hsequence]
    · simp [hsequence]
  · simp [hprevious]

/-- An admissible control record for an owner without a chain, which the empty chain refuses. -/
structure Registry.Enters (r : Registry crypto) (record : VerifiedRecord crypto) (view : ControlView) (now : UInt64)
    (control : RoomControl) : Prop where
  body : record.body = .control control
  clock : ¬ now < r.lastTime
  admission : checkAdmission r.authority record view now = .ok ()
  room : r.authority.records < maxControlRecords
  absent : r.authority.chains[control.owner]? = none
  unfounded : control.Unfounded

/-- The effect of an operation before the clock and the revision move. -/
inductive Effect (r : Registry crypto) : Call crypto → Option Applied → Registry crypto → Prop
  | control {record : VerifiedRecord crypto} {view : ControlView} {now : UInt64} {control : RoomControl} {sequence : UInt64}
      (body : record.body = .control control) (admission : checkAdmission r.authority record view now = .ok ())
      (check : r.authority.checkCommit record = .ok control)
      (accepts : (r.authority.chain control.owner).accepts control = .ok ())
      (next : checkedAdd (r.authority.chain control.owner).sequence 1 = some sequence) :
      Effect r (.apply record view now) (some .control) { r with authority := r.authority.pushed record control sequence }
  | existing {record : VerifiedRecord crypto} {view : ControlView} {now : UInt64} {intent : CreationIntent} {genesis : RoomGenesisId}
      (body : record.body = .create intent) (hgenesis : record.genesisId = some genesis)
      (known : r.byGenesis.contains genesis = true) : Effect r (.apply record view now) (some (.existing genesis)) r
  | created {record : VerifiedRecord crypto} {view : ControlView} {now : UInt64} {intent : CreationIntent} {genesis : RoomGenesisId}
      {account : Account} (body : record.body = .create intent) (hgenesis : record.genesisId = some genesis)
      (fresh : r.byGenesis.contains genesis = false) (check : r.checkCreate intent view now = .ok account)
      (rate : ((r.window intent.owner).dropWhile (r.expired now)).length < r.policy.maxInWindow.toNat) :
      Effect r (.apply record view now) (some (.created genesis))
        ((r.pruneWindow intent.owner now).addRoom record genesis intent account now)
  | updated {record : VerifiedRecord crypto} {view : ControlView} {now : UInt64} {edit : RoomUpdate} {slug : Slug} {room : Room crypto}
      (body : record.body = .update edit) (check : r.checkUpdate edit view now = .ok (slug, room)) :
      Effect r (.apply record view now) (some (.updated record.id))
        { r with rooms := r.rooms.insert slug (room.revise record edit.action) }
  | awarded {record : Social.VerifiedRecord crypto} {view : ControlView} {now : UInt64} {award : SupportAward} {account : Account}
      (fresh : r.evidence.contains record.id = false) (evidence : r.checkEvidence record view now = .ok award)
      (new : r.support.contains award.key = false) (check : r.checkAward award = .ok account) :
      Effect r (.award record view now) (some .awarded) (r.addAward record award account)
  | eligible {eligible : List OwnerId} {now : UInt64} (bound : eligible.length ≤ maxOwners) :
      Effect r (.setEligible eligible now) none { r with eligible := collect eligible }
  | rotation {fromHeight : UInt64} {validators : List ValidatorMember} {now : UInt64}
      (check : r.checkRotation fromHeight validators = .ok ()) :
      Effect r (.applyRotation fromHeight validators now) none
        { r with validatorSchedule := r.validatorSchedule.insert fromHeight (Ascending.sorted compare validators) }

inductive Outcome (r : Registry crypto) (call : Call crypto) : Except RegistryError (Option Applied) → Registry crypto → Prop
  /-- Refused, and nothing changed. -/
  | refused (e : RegistryError) : Outcome r call (.error e) r
  /-- Refused by the chain of an owner without one. -/
  | entered {e : RegistryError} {record : VerifiedRecord crypto} {view : ControlView} {now : UInt64} {control : RoomControl}
      (hcall : call = .apply record view now) (enters : r.Enters record view now control) :
      Outcome r call (.error e) { r with authority := r.authority.entry control.owner }
  /-- Evidence that is known, or that supports nothing new. -/
  | known {record : Social.VerifiedRecord crypto} {view : ControlView} {now : UInt64} (hcall : call = .award record view now)
      (clock : ¬ now < r.lastTime) (known : r.evidence.contains record.id = true) :
      Outcome r call (.ok (some .duplicateAward)) r
  | duplicate {record : Social.VerifiedRecord crypto} {view : ControlView} {now : UInt64} {award : SupportAward}
      (hcall : call = .award record view now) (clock : ¬ now < r.lastTime) (fresh : r.evidence.contains record.id = false)
      (evidence : r.checkEvidence record view now = .ok award) (old : r.support.contains award.key = true) :
      Outcome r call (.ok (some .duplicateAward)) (r.addEvidence record award)
  | applied {r' : Registry crypto} {result : Option Applied} {revision : UInt64} (clock : ¬ call.now < r.lastTime)
      (effect : Effect r call result r') (next : revision.toNat = r.revision.toNat + 1) :
      Outcome r call (.ok result) (r'.finished call.now revision)
  /-- Applied behind the last revision. -/
  | exhausted {r' : Registry crypto} {result : Option Applied} (clock : ¬ call.now < r.lastTime)
      (effect : Effect r call result r') (full : ¬ r.Counts) : Outcome r call (.error .capacity) (r'.finished call.now r.revision)

theorem Effect.revision_eq {r r' : Registry crypto} {call : Call crypto} {result : Option Applied} (h : Effect r call result r') :
    r'.revision = r.revision := by
  cases h <;> rfl

/-- Behind an effect only the clock and the revision move. -/
theorem Effect.outcome {r r' : Registry crypto} {call : Call crypto} {result : Option Applied} (h : Effect r call result r')
    (hclock : ¬ call.now < r.lastTime) :
    Outcome r call ((exec (finish call.now) r').1.map fun _ => result) (exec (finish call.now) r').2 := by
  have hsame := h.revision_eq
  obtain ⟨revision, hrevision, hfinish⟩ | ⟨hfull, hfinish⟩ := exec_finish r' call.now
  · rw [hfinish]
    exact .applied hclock h (hsame ▸ hrevision)
  · rw [hfinish, hsame]
    exact .exhausted hclock h (by rwa [Registry.Counts, hsame] at hfull)

/-! ### The four operations -/

theorem exec_clock {α : Type} {m : RegistryM crypto α} {r : Registry crypto} {now : UInt64} :
    exec (do checkClock now; m) r = if now < r.lastTime then (.error .clock, r) else exec m r := by
  rw [checkClock, exec_examine_bind]
  unfold require
  by_cases h : now < r.lastTime
  · simp only [h, decide_true, Bool.not_true, Bool.false_eq_true, if_false, if_true]
  · simp only [h, decide_false, Bool.not_false, if_true, if_false]

theorem exec_bind_pure {α β : Type} {m : RegistryM crypto α} {r : Registry crypto} {b : β} :
    exec (do let _ ← m; pure b) r = ((exec m r).1.map fun _ => b, (exec m r).2) := by
  rw [exec_bind]
  generalize exec m r = outcome
  obtain ⟨result, r'⟩ := outcome
  cases result <;> rfl

theorem exec_apply_ok {r r' : Registry crypto} {record : VerifiedRecord crypto} {view : ControlView} {now : UInt64}
    {applied : Applied} (hclock : ¬ now < r.lastTime) (hbody : exec (applyBody record view now) r = (.ok applied, r')) :
    exec (Call.run (.apply record view now)) r = ((exec (finish now) r').1.map fun _ => some applied, (exec (finish now) r').2) := by
  have happly : exec (applyRecord record view now) r = exec (do finish now; pure applied) r' := by
    rw [applyRecord, exec_clock, if_neg hclock, exec_bind_ok hbody]
  have hrun : Call.run (.apply record view now) = (do
      let applied ← applyRecord record view now
      pure (some applied)) := rfl
  rw [hrun, exec_bind, happly, exec_bind_pure]
  generalize exec (finish now) r' = outcome
  obtain ⟨result, r''⟩ := outcome
  cases result <;> rfl

theorem exec_apply_error {r r' : Registry crypto} {record : VerifiedRecord crypto} {view : ControlView} {now : UInt64}
    {e : RegistryError} (hclock : ¬ now < r.lastTime) (hbody : exec (applyBody record view now) r = (.error e, r')) :
    exec (Call.run (.apply record view now)) r = (.error e, r') := by
  have happly : exec (applyRecord record view now) r = (.error e, r') := by
    rw [applyRecord, exec_clock, if_neg hclock, exec_bind_error hbody]
  rw [Call.run, exec_bind_error happly]

theorem exec_onAuthority {α : Type} {m : Fallible Denial (RoomAuthority crypto) α} {r : Registry crypto} :
    exec (onAuthority m) r = ((exec m r.authority).1.mapError .authority, { r with authority := (exec m r.authority).2 }) := rfl

theorem exec_create {record : VerifiedRecord crypto} {genesis : RoomGenesisId} {intent : CreationIntent} {view : ControlView}
    {now : UInt64} {r : Registry crypto} (hgenesis : record.genesisId = some genesis) :
    exec (create record intent view now) r =
      if r.byGenesis.contains genesis then (.ok (.existing genesis), r) else
        match r.checkCreate intent view now with
        | .error e => (.error e, r)
        | .ok account =>
          if ((r.window intent.owner).dropWhile (r.expired now)).length < r.policy.maxInWindow.toNat then
            (.ok (.created genesis), (r.pruneWindow intent.owner now).addRoom record genesis intent account now)
          else (.error .rateLimit, r.pruneWindow intent.owner now) := by
  have hwindow : (r.pruneWindow intent.owner now).window intent.owner = (r.window intent.owner).dropWhile (r.expired now) := by
    rw [Registry.window, Registry.pruneWindow, Maps.getElem?_insert, if_pos rfl]
    rfl
  rw [create, exec_examine_bind, hgenesis]
  dsimp only [Check.okOr]
  rw [exec_bind_ok (exec_view _)]
  split
  · rfl
  · rw [exec_examine_bind]
    cases r.checkCreate intent view now with
    | error e => rfl
    | ok account =>
      dsimp only
      rw [exec_bind_ok (exec_update _), exec_examine_bind, hwindow]
      have hmax : (r.pruneWindow intent.owner now).policy = r.policy := rfl
      rw [hmax]
      by_cases hrate : ((r.window intent.owner).dropWhile (r.expired now)).length < r.policy.maxInWindow.toNat
      · rw [if_pos hrate, require, if_pos (by simp only [ge_iff_le, Nat.not_le.2 hrate, decide_false, Bool.not_false])]
        rfl
      · rw [if_neg hrate, require, if_neg (by simp only [ge_iff_le, Nat.not_lt.1 hrate, decide_true, Bool.not_true]; decide)]

theorem exec_award {record : Social.VerifiedRecord crypto} {view : ControlView} {now : UInt64} {r : Registry crypto} :
    exec (Rooms.award record view now) r =
      if now < r.lastTime then (.error .clock, r) else if r.evidence.contains record.id then (.ok .duplicateAward, r) else
        match r.checkEvidence record view now with
        | .error e => (.error e, r)
        | .ok award =>
          if r.support.contains award.key then (.ok .duplicateAward, r.addEvidence record award) else
            match r.checkAward award with
            | .error e => (.error e, r)
            | .ok account => exec (do finish now; pure .awarded) (r.addAward record award account) := by
  rw [Rooms.award, exec_clock]
  split
  · rfl
  rw [exec_bind_ok (exec_view _)]
  split
  · rfl
  rw [exec_examine_bind]
  cases r.checkEvidence record view now with
  | error e => rfl
  | ok award =>
    dsimp only
    rw [exec_bind_ok (exec_view _)]
    split
    · rfl
    rw [exec_examine_bind]
    cases r.checkAward award <;> rfl

namespace Registry.Sound
variable {r : Registry crypto} (h : r.Sound)
include h

theorem outcome_control {record : VerifiedRecord crypto} {control : RoomControl} (hbody : record.body = .control control)
    {view : ControlView} {now : UInt64} (hclock : ¬ now < r.lastTime) {result : Except RegistryError (Option Applied)}
    {r' : Registry crypto} (hexec : exec (Call.run (.apply record view now)) r = (result, r')) :
    Outcome r (.apply record view now) result r' := by
  have happly : applyBody record view now = (do onAuthority (admitControl record view now); pure .control) := by
    rw [applyBody, hbody]
  cases hadmission : checkAdmission r.authority record view now with
  | error e =>
    have hrun : exec (admitControl record view now) r.authority = (.error e, r.authority) := by
      rw [exec_admitControl, hadmission]
    have hfail : exec (applyBody record view now) r = (.error (.authority e), r) := by
      rw [happly, exec_bind, exec_onAuthority, hrun]
      rfl
    rw [exec_apply_error hclock hfail] at hexec
    cases hexec
    exact .refused _
  | ok u =>
    have hrun : exec (admitControl record view now) r.authority = exec (commitControl record) r.authority := by
      rw [exec_admitControl, hadmission]
    have hcommitted := h.authority.committed record
    rw [← hrun] at hcommitted
    generalize houtcome : exec (admitControl record view now) r.authority = outcome at hcommitted
    obtain ⟨answer, a'⟩ := outcome
    cases hcommitted with
    | @refused e check =>
      have hfail : exec (applyBody record view now) r = (.error (.authority e), r) := by
        rw [happly, exec_bind, exec_onAuthority, houtcome]
        rfl
      rw [exec_apply_error hclock hfail] at hexec
      cases hexec
      exact .refused _
    | @entered e control' check accepts =>
      obtain ⟨hcontrol, -, -, hroom⟩ := RoomAuthority.Sound.checkCommit check
      cases hbody.symm.trans hcontrol
      have hfail : exec (applyBody record view now) r =
          (.error (.authority e), { r with authority := r.authority.entry control.owner }) := by
        rw [happly, exec_bind, exec_onAuthority, houtcome]
        rfl
      rw [exec_apply_error hclock hfail] at hexec
      cases hexec
      cases habsent : r.authority.chains[control.owner]? with
      | some c =>
        rw [RoomAuthority.entry_of_some r.authority habsent]
        exact .refused _
      | none =>
        have hempty : r.authority.chain control.owner = {} := by rw [RoomAuthority.chain, habsent]; rfl
        refine .entered rfl ⟨hbody, hclock, hadmission, hroom, habsent, (RoomControl.unfounded_iff crypto).2 fun hok => ?_⟩
        rw [hempty, hok] at accepts
        cases accepts
    | @pushed control' sequence check accepts next =>
      obtain ⟨hcontrol, -, -, hroom⟩ := RoomAuthority.Sound.checkCommit check
      cases hbody.symm.trans hcontrol
      have hok : exec (applyBody record view now) r =
          (.ok .control, { r with authority := r.authority.pushed record control sequence }) := by
        rw [happly, exec_bind, exec_onAuthority, houtcome]
        rfl
      rw [exec_apply_ok hclock hok] at hexec
      cases hexec
      exact (Effect.control hbody hadmission check accepts next).outcome hclock

theorem pruneWindow_eq {owner : OwnerId} {now : UInt64}
    (hfull : r.policy.maxInWindow.toNat ≤ ((r.window owner).dropWhile (r.expired now)).length) : r.pruneWindow owner now = r := by
  have hpositive := h.policy.maxInWindow
  have hsuffix : (r.window owner).dropWhile (r.expired now) <:+ r.window owner := List.dropWhile_suffix _
  have hle := hsuffix.length_le
  cases hwindow : r.windows[owner]? with
  | none =>
    have hempty : r.window owner = [] := by rw [Registry.window, hwindow]; rfl
    rw [hempty] at hfull
    exact absurd hfull (Nat.not_le.2 hpositive)
  | some times =>
    have htimes : r.window owner = times := by rw [Registry.window, hwindow]; rfl
    have hbound := h.windows owner times hwindow
    rw [htimes] at hfull hsuffix
    have hsame : times.dropWhile (r.expired now) = times := hsuffix.eq_of_length_le (Nat.le_trans hbound hfull)
    have hinsert : r.windows.insert owner times = r.windows := Maps.insert_of_some hwindow
    rw [Registry.pruneWindow, htimes, hsame, hinsert]

theorem outcome_create {record : VerifiedRecord crypto} {intent : CreationIntent} (hbody : record.body = .create intent)
    {view : ControlView} {now : UInt64} (hclock : ¬ now < r.lastTime) {result : Except RegistryError (Option Applied)}
    {r' : Registry crypto} (hexec : exec (Call.run (.apply record view now)) r = (result, r')) :
    Outcome r (.apply record view now) result r' := by
  have happly : applyBody record view now = create record intent view now := by rw [applyBody, hbody]
  have hfailed : ∀ {e : RegistryError}, exec (create record intent view now) r = (.error e, r) →
      Outcome r (.apply record view now) result r' := by
    intro e hfail
    rw [exec_apply_error hclock (happly ▸ hfail)] at hexec
    cases hexec
    exact .refused _
  cases hgenesis : record.genesisId with
  | none => exact hfailed (e := .bounds) (by rw [create, exec_examine_bind, hgenesis]; rfl)
  | some genesis =>
    have hcreate := @exec_create crypto record genesis intent view now r hgenesis
    cases hknown : r.byGenesis.contains genesis with
    | true =>
      rw [if_pos hknown] at hcreate
      rw [← happly] at hcreate
      rw [exec_apply_ok hclock hcreate] at hexec
      cases hexec
      exact (Effect.existing hbody hgenesis hknown).outcome hclock
    | false =>
      rw [hknown, if_neg Bool.false_ne_true] at hcreate
      cases hcheck : r.checkCreate intent view now with
      | error e =>
        rw [hcheck] at hcreate
        exact hfailed hcreate
      | ok account =>
        rw [hcheck] at hcreate
        dsimp only at hcreate
        by_cases hrate : ((r.window intent.owner).dropWhile (r.expired now)).length < r.policy.maxInWindow.toNat
        · rw [if_pos hrate] at hcreate
          rw [← happly] at hcreate
          rw [exec_apply_ok hclock hcreate] at hexec
          cases hexec
          exact (Effect.created hbody hgenesis hknown hcheck hrate).outcome hclock
        · rw [if_neg hrate, h.pruneWindow_eq (Nat.not_lt.1 hrate)] at hcreate
          exact hfailed hcreate

omit h in
theorem outcome_update {record : VerifiedRecord crypto} {edit : RoomUpdate} (hbody : record.body = .update edit)
    {view : ControlView} {now : UInt64} (hclock : ¬ now < r.lastTime) {result : Except RegistryError (Option Applied)}
    {r' : Registry crypto} (hexec : exec (Call.run (.apply record view now)) r = (result, r')) :
    Outcome r (.apply record view now) result r' := by
  have happly : applyBody record view now = applyUpdate record edit view now := by rw [applyBody, hbody]
  cases hcheck : r.checkUpdate edit view now with
  | error e =>
    have hfail : exec (applyUpdate record edit view now) r = (.error e, r) := by
      rw [applyUpdate, exec_examine_bind, hcheck]
    rw [exec_apply_error hclock (happly ▸ hfail)] at hexec
    cases hexec
    exact .refused _
  | ok found =>
    obtain ⟨slug, room⟩ := found
    have hok : exec (applyUpdate record edit view now) r =
        (.ok (.updated record.id), { r with rooms := r.rooms.insert slug (room.revise record edit.action) }) := by
      rw [applyUpdate, exec_examine_bind, hcheck]
      rfl
    rw [← happly] at hok
    rw [exec_apply_ok hclock hok] at hexec
    cases hexec
    exact (Effect.updated hbody hcheck).outcome hclock

omit h in
theorem outcome_award {record : Social.VerifiedRecord crypto} {view : ControlView} {now : UInt64}
    {result : Except RegistryError (Option Applied)} {r' : Registry crypto}
    (hexec : exec (Call.run (.award record view now)) r = (result, r')) : Outcome r (.award record view now) result r' := by
  rw [Call.run, exec_bind, exec_award] at hexec
  by_cases hclock : now < r.lastTime
  · rw [if_pos hclock] at hexec
    cases hexec
    exact .refused _
  rw [if_neg hclock] at hexec
  cases hknown : r.evidence.contains record.id with
  | true =>
    rw [hknown, if_pos rfl] at hexec
    cases hexec
    exact .known rfl hclock hknown
  | false =>
    rw [hknown, if_neg Bool.false_ne_true] at hexec
    cases hevidence : r.checkEvidence record view now with
    | error e =>
      rw [hevidence] at hexec
      cases hexec
      exact .refused _
    | ok award =>
      rw [hevidence] at hexec
      dsimp only at hexec
      cases hold : r.support.contains award.key with
      | true =>
        rw [hold, if_pos rfl] at hexec
        cases hexec
        exact .duplicate rfl hclock hknown hevidence hold
      | false =>
        rw [hold, if_neg Bool.false_ne_true] at hexec
        cases hcheck : r.checkAward award with
        | error e =>
          rw [hcheck] at hexec
          cases hexec
          exact .refused _
        | ok account =>
          rw [hcheck] at hexec
          dsimp only at hexec
          have heffect := Effect.awarded hknown hevidence hold hcheck
          obtain ⟨revision, hrevision, hfinish⟩ | ⟨hfull, hfinish⟩ := exec_finish (r.addAward record award account) now
          · rw [exec_bind_ok hfinish] at hexec
            cases hexec
            exact .applied hclock heffect hrevision
          · rw [exec_bind_error hfinish] at hexec
            cases hexec
            exact .exhausted hclock heffect hfull

omit h in
theorem outcome_setEligible {eligible : List OwnerId} {now : UInt64} {result : Except RegistryError (Option Applied)}
    {r' : Registry crypto} (hexec : exec (Call.run (.setEligible eligible now)) r = (result, r')) :
    Outcome r (.setEligible eligible now) result r' := by
  rw [Call.run, Rooms.setEligible, exec_bind, exec_clock] at hexec
  by_cases hclock : now < r.lastTime
  · rw [if_pos hclock] at hexec
    cases hexec
    exact .refused _
  rw [if_neg hclock, exec_examine_bind] at hexec
  cases hbound : require RegistryError.capacity !decide (eligible.length > maxOwners) with
  | error e =>
    rw [hbound] at hexec
    cases hexec
    exact .refused _
  | ok u =>
    have hle : eligible.length ≤ maxOwners := by
      simpa only [require_eq_ok, Bool.not_eq_true', decide_eq_false_iff_not, gt_iff_lt, Nat.not_lt] using hbound
    have heffect : Effect r (.setEligible eligible now) none { r with eligible := collect eligible } := .eligible hle
    rw [hbound] at hexec
    dsimp only at hexec
    rw [exec_bind_ok (exec_update _)] at hexec
    obtain ⟨revision, hrevision, hfinish⟩ | ⟨hfull, hfinish⟩ := exec_finish { r with eligible := collect eligible } now
    · rw [hfinish] at hexec
      cases hexec
      exact .applied hclock heffect hrevision
    · rw [hfinish] at hexec
      cases hexec
      exact .exhausted hclock heffect hfull

omit h in
theorem outcome_applyRotation {fromHeight : UInt64} {validators : List ValidatorMember} {now : UInt64}
    {result : Except RegistryError (Option Applied)} {r' : Registry crypto}
    (hexec : exec (Call.run (.applyRotation fromHeight validators now)) r = (result, r')) :
    Outcome r (.applyRotation fromHeight validators now) result r' := by
  rw [Call.run, Rooms.applyRotation, exec_bind, exec_clock] at hexec
  by_cases hclock : now < r.lastTime
  · rw [if_pos hclock] at hexec
    cases hexec
    exact .refused _
  rw [if_neg hclock, exec_examine_bind] at hexec
  cases hcheck : r.checkRotation fromHeight validators with
  | error e =>
    rw [hcheck] at hexec
    cases hexec
    exact .refused _
  | ok u =>
    rw [hcheck] at hexec
    dsimp only at hexec
    rw [exec_bind_ok (exec_update _)] at hexec
    have heffect : Effect r (.applyRotation fromHeight validators now) none { r with
        validatorSchedule := r.validatorSchedule.insert fromHeight (Ascending.sorted compare validators) } := .rotation hcheck
    obtain ⟨revision, hrevision, hfinish⟩ | ⟨hfull, hfinish⟩ := exec_finish { r with
      validatorSchedule := r.validatorSchedule.insert fromHeight (Ascending.sorted compare validators) } now
    · rw [hfinish] at hexec
      cases hexec
      exact .applied hclock heffect hrevision
    · rw [hfinish] at hexec
      cases hexec
      exact .exhausted hclock heffect hfull

theorem outcome (call : Call crypto) : Outcome r call (exec call.run r).1 (exec call.run r).2 := by
  cases call with
  | apply record view now =>
    by_cases hclock : now < r.lastTime
    · have hrun : exec (Call.run (.apply record view now)) r = (.error .clock, r) := by
        rw [Call.run, applyRecord, exec_bind, exec_clock, if_pos hclock]
      rw [hrun]
      exact .refused _
    · cases hbody : record.body with
      | control control => exact h.outcome_control hbody hclock rfl
      | create intent => exact h.outcome_create hbody hclock rfl
      | update edit => exact outcome_update hbody hclock rfl
  | award record view now => exact outcome_award rfl
  | setEligible eligible now => exact outcome_setEligible rfl
  | applyRotation fromHeight validators now => exact outcome_applyRotation rfl

end Registry.Sound

/-! ### Reachable registries -/

theorem Registry.getElem?_addRoom_windows {r : Registry crypto} {record : VerifiedRecord crypto} {genesis : RoomGenesisId}
    {intent : CreationIntent} {account : Account} {now : UInt64} (owner : OwnerId) :
    ((r.pruneWindow intent.owner now).addRoom record genesis intent account now).windows[owner]? =
      if intent.owner = owner then some ((r.window intent.owner).dropWhile (r.expired now) ++ [now]) else r.windows[owner]? := by
  rw [addRoom, Maps.getElem?_insert, window, pruneWindow, Maps.getElem?_insert, Maps.getElem?_insert, if_pos rfl]
  split <;> rfl

theorem Registry.window_addRoom {r : Registry crypto} {record : VerifiedRecord crypto} {genesis : RoomGenesisId}
    {intent : CreationIntent} {account : Account} {now : UInt64} (owner : OwnerId) :
    ((r.pruneWindow intent.owner now).addRoom record genesis intent account now).window owner =
      if intent.owner = owner then (r.window intent.owner).dropWhile (r.expired now) ++ [now] else r.window owner := by
  rw [window, getElem?_addRoom_windows]
  split <;> rfl

theorem Effect.sound {r r' : Registry crypto} {call : Call crypto} {result : Option Applied} (h : Effect r call result r')
    (hr : r.Sound) : r'.Sound := by
  cases h with
  | control body admission check accepts next => exact ⟨hr.authority.pushed check accepts next, hr.policy, hr.windows, hr.evidence⟩
  | existing => exact hr
  | @created record view now intent genesis account body hgenesis fresh check rate =>
    refine ⟨hr.authority, hr.policy, fun owner times htimes => ?_, hr.evidence⟩
    rw [Registry.getElem?_addRoom_windows] at htimes
    split at htimes
    · cases htimes
      rw [List.length_append]
      exact rate
    · exact hr.windows owner times htimes
  | updated => exact ⟨hr.authority, hr.policy, hr.windows, hr.evidence⟩
  | @awarded record view now award account fresh evidence new check =>
    refine ⟨hr.authority, hr.policy, hr.windows, fun id e he => ?_⟩
    have hget : (r.evidence.insert record.id ⟨award, record⟩)[id]? = some e := he
    show (r.support.insert award.key).contains e.award.key = true
    rw [Maps.getElem?_insert] at hget
    rw [Std.ExtTreeSet.contains_insert]
    split at hget
    · cases hget
      simp
    · simp [hr.evidence id e hget]
  | eligible => exact ⟨hr.authority, hr.policy, hr.windows, hr.evidence⟩
  | rotation => exact ⟨hr.authority, hr.policy, hr.windows, hr.evidence⟩

theorem Outcome.sound {r r' : Registry crypto} {call : Call crypto} {result : Except RegistryError (Option Applied)}
    (h : Outcome r call result r') (hr : r.Sound) : r'.Sound := by
  cases h with
  | refused => exact hr
  | entered => exact ⟨hr.authority.entry _, hr.policy, hr.windows, hr.evidence⟩
  | known => exact hr
  | @duplicate record view now award hcall clock fresh evidence old =>
    refine ⟨hr.authority, hr.policy, hr.windows, fun id e he => ?_⟩
    have hget : (r.evidence.insert record.id ⟨award, record⟩)[id]? = some e := he
    rw [Maps.getElem?_insert] at hget
    split at hget
    · cases hget
      exact old
    · exact hr.evidence id e hget
  | applied clock effect next => exact ⟨(effect.sound hr).authority, (effect.sound hr).policy, (effect.sound hr).windows,
      (effect.sound hr).evidence⟩
  | exhausted clock effect full => exact ⟨(effect.sound hr).authority, (effect.sound hr).policy, (effect.sound hr).windows,
      (effect.sound hr).evidence⟩

def Registry.after (r : Registry crypto) (call : Call crypto) : Registry crypto := (exec call.run r).2

/-- Registries that operations on an empty one lead to. -/
inductive Registry.Reachable : Registry crypto → Prop
  | new {directory : DirectoryId} {realm : RealmId} {policy : DirectoryPolicy} {eligible : List OwnerId} {r : Registry crypto}
      (h : Registry.new directory realm policy eligible = .ok r) : Reachable r
  | step {r : Registry crypto} (hr : Reachable r) (call : Call crypto) : Reachable (r.after call)

theorem Registry.Sound.new {directory : DirectoryId} {realm : RealmId} {policy : DirectoryPolicy} {eligible : List OwnerId}
    {r : Registry crypto} (h : Registry.new directory realm policy eligible = .ok r) : r.Sound := by
  simp only [Registry.new, bind_eq_ok] at h
  obtain ⟨_, hpolicy, _, -, he⟩ := h
  cases he
  refine ⟨.new directory realm, DirectoryPolicy.validate_eq_ok.1 hpolicy, fun owner times htimes => ?_, fun id e he => ?_⟩
  · simp at htimes
  · simp at he

theorem Registry.Reachable.sound {r : Registry crypto} (h : r.Reachable) : r.Sound := by
  induction h with
  | new h => exact .new h
  | step hr call ih => exact (ih.outcome call).sound ih

/-! An empty registry. -/

def samplePolicy : DirectoryPolicy := ⟨1, 60, 2, 3600, 16⟩

def sampleRegistry (crypto : Crypto) : Registry crypto where
  directory := ⟨zeroBytes⟩
  realm := ⟨77⟩
  policy := samplePolicy
  authority := .new ⟨zeroBytes⟩ ⟨77⟩
  eligible := collect []

theorem sampleRegistry_reachable (crypto : Crypto) : (sampleRegistry crypto).Reachable := by
  have hpolicy : samplePolicy.validate = .ok () := by decide +kernel
  have hnew : Registry.new ⟨zeroBytes⟩ ⟨77⟩ samplePolicy [] = .ok (sampleRegistry crypto) := by
    rw [Registry.new, hpolicy]
    rfl
  exact .new hnew

theorem sampleRegistry_counts (crypto : Crypto) : (sampleRegistry crypto).Counts := by
  unfold Registry.Counts
  show (0 : UInt64).toNat + 1 < 2 ^ 64
  decide

end Valhalla.Rooms
