import Valhalla.Lib.Weights
import Valhalla.Rooms.Authority

/-!
# What a control record does to its chain

`exec_commitControl` says it once: the record is refused before the chain is looked up, or refused by the chain,
which is there from then on, or pushed onto it. Reachable authorities keep `Sound`.
-/

namespace Valhalla.Rooms
open Fallible FixedWidth Check
open Social (OwnerId AgentId RecordId ControlView)

variable {crypto : Crypto}

namespace OwnerChain

def permits (c : OwnerChain crypto) : CreateAction → Except Denial Unit
  | .grantCreate .. => .ok ()
  | .revokeGrant grant => require .grant (c.grants.contains grant)

def accepts (c : OwnerChain crypto) (control : RoomControl) : Except Denial Unit := do
  require .previous (control.previous == c.head)
  require .sequence (control.sequence == c.sequence)
  c.permits control.action

end OwnerChain

def CreateAction.grants (id : RoomRecordId) (grants : Std.ExtTreeMap RoomRecordId OpenGrant compare) :
    CreateAction → Std.ExtTreeMap RoomRecordId OpenGrant compare
  | .grantCreate agent agentKey expiresAt maximumCharge _ => grants.insert id ⟨agent, agentKey, expiresAt, maximumCharge⟩
  | .revokeGrant grant => grants.erase grant

def OwnerChain.push (c : OwnerChain crypto) (record : VerifiedRecord crypto) (action : CreateAction) (sequence : UInt64) :
    OwnerChain crypto where
  head := some record.id
  sequence := sequence
  history := c.history ++ [record]
  grants := action.grants record.id c.grants

namespace RoomAuthority
variable (a : RoomAuthority crypto) (owner : OwnerId) (f g : OwnerChain crypto → OwnerChain crypto)

theorem ext {a b : RoomAuthority crypto} (hdirectory : a.directory = b.directory) (hrealm : a.realm = b.realm)
    (hchains : a.chains = b.chains) (hrecords : a.records = b.records) : a = b := by
  obtain ⟨directory, realm, chains, records⟩ := a
  cases hdirectory
  cases hrealm
  cases hchains
  cases hrecords
  rfl

theorem getElem?_modify (o : OwnerId) : (a.modify owner f).chains[o]? = if owner = o then some (f (a.chain owner)) else a.chains[o]? :=
  Maps.getElem?_insert

theorem chain_modify : (a.modify owner f).chain owner = f (a.chain owner) := by
  rw [chain, getElem?_modify, if_pos rfl]
  rfl

theorem modify_modify : (a.modify owner f).modify owner g = a.modify owner fun c => g (f c) := by
  refine ext rfl rfl (Std.ExtTreeMap.ext_getElem? fun {o} => ?_) rfl
  rw [getElem?_modify, getElem?_modify, getElem?_modify, chain_modify]
  split <;> rfl

theorem getElem?_entry (o : OwnerId) : (a.entry owner).chains[o]? = if owner = o then some (a.chain owner) else a.chains[o]? := by
  unfold entry
  rw [Std.ExtTreeMap.contains_eq_isSome_getElem?]
  split
  · rename_i hsome
    obtain ⟨c, hc⟩ := Option.isSome_iff_exists.1 hsome
    rw [chain, hc]
    split
    · rename_i ho
      rw [← ho, hc]
      rfl
    · rfl
  · rename_i hnone
    rw [Option.not_isSome_iff_eq_none] at hnone
    rw [Maps.getElem?_insert, chain, hnone]
    rfl

theorem chain_entry : (a.entry owner).chain owner = a.chain owner := by
  rw [chain, getElem?_entry, if_pos rfl]
  rfl

theorem entry_frame : (a.entry owner).directory = a.directory ∧ (a.entry owner).realm = a.realm ∧
    (a.entry owner).records = a.records := by
  unfold entry
  split
  · exact ⟨rfl, rfl, rfl⟩
  · exact ⟨rfl, rfl, rfl⟩

theorem modify_entry : (a.entry owner).modify owner f = a.modify owner f := by
  obtain ⟨hdirectory, hrealm, hrecords⟩ := a.entry_frame owner
  refine ext hdirectory hrealm (Std.ExtTreeMap.ext_getElem? fun {o} => ?_) hrecords
  rw [getElem?_modify, getElem?_modify, chain_entry, getElem?_entry]
  split <;> rfl

theorem entry_of_some {owner : OwnerId} {c : OwnerChain crypto} (h : a.chains[owner]? = some c) : a.entry owner = a := by
  rw [entry, Std.ExtTreeMap.contains_eq_isSome_getElem?, h]
  rfl

def pushed (record : VerifiedRecord crypto) (control : RoomControl) (sequence : UInt64) : RoomAuthority crypto :=
  { a.modify control.owner fun c => c.push record control.action sequence with records := a.records + 1 }

theorem getElem?_pushed (record : VerifiedRecord crypto) (control : RoomControl) (sequence : UInt64) (o : OwnerId) :
    (a.pushed record control sequence).chains[o]? =
      if control.owner = o then some ((a.chain control.owner).push record control.action sequence) else a.chains[o]? :=
  a.getElem?_modify control.owner (fun c => c.push record control.action sequence) o

def checkCommit (record : VerifiedRecord crypto) : Except Denial RoomControl := do
  let control ← controlOf record.body
  a.checkScope control.directory control.realm
  require .capacity (decide (a.records < maxControlRecords))
  pure control

end RoomAuthority

theorem exec_applyGrant (a : RoomAuthority crypto) (owner : OwnerId) (id : RoomRecordId) (action : CreateAction) :
    exec (applyGrant id owner action) a =
      match (a.chain owner).permits action with
      | .ok () => (.ok (), a.modify owner fun c => { c with grants := action.grants id c.grants })
      | .error e => (.error e, a) := by
  cases action with
  | grantCreate => rfl
  | revokeGrant grant =>
    rw [applyGrant, exec_examine_bind, OwnerChain.permits]
    cases require Denial.grant ((a.chain owner).grants.contains grant) <;> rfl

theorem exec_extendChain (a : RoomAuthority crypto) (owner : OwnerId) (record : VerifiedRecord crypto) :
    exec (extendChain record owner) a =
      match checkedAdd (a.chain owner).sequence 1 with
      | some sequence =>
        (.ok (), { a.modify owner fun c => { c with head := some record.id, sequence, history := c.history ++ [record] } with
          records := a.records + 1 })
      | none => (.error .sequence, a.modify owner fun c => { c with head := some record.id }) := by
  rw [extendChain, exec_bind_ok (exec_update _), exec_examine_bind, RoomAuthority.chain_modify]
  cases checkedAdd (a.chain owner).sequence 1 with
  | none => rfl
  | some sequence =>
    simp only [Check.okOr, exec_bind_ok (exec_update _), exec_update, RoomAuthority.modify_modify]
    rfl

theorem exec_push (a : RoomAuthority crypto) (record : VerifiedRecord crypto) (control : RoomControl)
    (hpermits : (a.chain control.owner).permits control.action = .ok ()) :
    (checkedAdd (a.chain control.owner).sequence 1 = none ∧
      (exec (do applyGrant record.id control.owner control.action; extendChain record control.owner) a).1 = .error .sequence) ∨
    ∃ sequence, checkedAdd (a.chain control.owner).sequence 1 = some sequence ∧
      exec (do applyGrant record.id control.owner control.action; extendChain record control.owner) a =
        (.ok (), a.pushed record control sequence) := by
  have happly : exec (applyGrant record.id control.owner control.action) a =
      (.ok (), a.modify control.owner fun c => { c with grants := control.action.grants record.id c.grants }) := by
    rw [exec_applyGrant, hpermits]
  rw [exec_bind_ok happly, exec_extendChain, RoomAuthority.chain_modify]
  cases hsequence : checkedAdd (a.chain control.owner).sequence 1 with
  | none => exact .inl ⟨rfl, rfl⟩
  | some sequence =>
    refine .inr ⟨sequence, rfl, ?_⟩
    simp only [RoomAuthority.modify_modify]
    rfl

theorem exec_commitControl (a : RoomAuthority crypto) (record : VerifiedRecord crypto) :
    (∃ e, a.checkCommit record = .error e ∧ exec (commitControl record) a = (.error e, a)) ∨
    ∃ control, a.checkCommit record = .ok control ∧
      ((∃ e, (a.chain control.owner).accepts control = .error e ∧
          exec (commitControl record) a = (.error e, a.entry control.owner)) ∨
        ((a.chain control.owner).accepts control = .ok () ∧
          ((checkedAdd (a.chain control.owner).sequence 1 = none ∧
              (exec (commitControl record) a).1 = .error .sequence) ∨
            ∃ sequence, checkedAdd (a.chain control.owner).sequence 1 = some sequence ∧
              exec (commitControl record) a = (.ok (), a.pushed record control sequence)))) := by
  rw [commitControl, exec_examine_bind]
  cases hcontrol : controlOf record.body with
  | error e => exact .inl ⟨e, by rw [RoomAuthority.checkCommit, hcontrol]; rfl, rfl⟩
  | ok control =>
    dsimp only
    rw [exec_examine_bind]
    cases hscope : a.checkScope control.directory control.realm with
    | error e => exact .inl ⟨e, by rw [RoomAuthority.checkCommit, hcontrol]; simp [hscope], rfl⟩
    | ok u =>
      dsimp only
      rw [exec_examine_bind]
      cases hcapacity : require Denial.capacity (decide (a.records < maxControlRecords)) with
      | error e => exact .inl ⟨e, by rw [RoomAuthority.checkCommit, hcontrol]; simp [hscope, hcapacity], rfl⟩
      | ok u =>
        refine .inr ⟨control, by simp [RoomAuthority.checkCommit, hcontrol, hscope, hcapacity], ?_⟩
        have hpush := exec_push (a.entry control.owner) record control
        rw [RoomAuthority.chain_entry] at hpush
        dsimp only
        rw [exec_bind_ok (exec_update _), exec_examine_bind, RoomAuthority.chain_entry]
        cases hprevious : require Denial.previous (control.previous == (a.chain control.owner).head) with
        | error e => exact .inl ⟨e, by simp [OwnerChain.accepts, hprevious], rfl⟩
        | ok u =>
          dsimp only
          rw [exec_examine_bind, RoomAuthority.chain_entry]
          cases hsequence : require Denial.sequence (control.sequence == (a.chain control.owner).sequence) with
          | error e => exact .inl ⟨e, by simp [OwnerChain.accepts, hprevious, hsequence], rfl⟩
          | ok u =>
            have hentry := exec_applyGrant (a.entry control.owner) control.owner record.id control.action
            rw [RoomAuthority.chain_entry] at hentry
            cases hpermits : (a.chain control.owner).permits control.action with
            | error e =>
              rw [hpermits] at hentry
              exact .inl ⟨e, by simp [OwnerChain.accepts, hprevious, hsequence, hpermits], exec_bind_error hentry⟩
            | ok u =>
              refine .inr ⟨by simp [OwnerChain.accepts, hprevious, hsequence, hpermits], ?_⟩
              obtain hoverflow | ⟨sequence, hadd, hexec⟩ := hpush hpermits
              · exact .inl hoverflow
              · refine .inr ⟨sequence, hadd, hexec.trans ?_⟩
                rw [RoomAuthority.pushed, RoomAuthority.modify_entry, (a.entry_frame control.owner).2.2]
                rfl

/-! ### Sound chains -/

inductive OwnerChain.Built (directory : DirectoryId) (realm : RealmId) (owner : OwnerId) : OwnerChain crypto → Prop
  | empty : Built directory realm owner {}
  | push {c : OwnerChain crypto} {record : VerifiedRecord crypto} {control : RoomControl} {sequence : UInt64}
      (hc : Built directory realm owner c) (body : record.body = .control control)
      (scope : control.directory = directory ∧ control.realm = realm ∧ control.owner = owner)
      (accepts : c.accepts control = .ok ()) (next : checkedAdd c.sequence 1 = some sequence) :
      Built directory realm owner (c.push record control.action sequence)

namespace OwnerChain.Built
variable {directory : DirectoryId} {realm : RealmId} {owner : OwnerId} {c : OwnerChain crypto}

theorem sequence_eq (h : Built directory realm owner c) : c.sequence.toNat = c.history.length := by
  induction h with
  | empty => rfl
  | push hc body scope accepts next ih =>
    have hadd := checkedAdd_eq_some.1 next
    simp only [toNat_uInt64] at hadd
    rw [OwnerChain.push, List.length_append, List.length_singleton, ← ih]
    exact hadd

theorem head_eq (h : Built directory realm owner c) : c.head = c.history.getLast?.map VerifiedRecord.id := by
  cases h with
  | empty => rfl
  | push => rw [OwnerChain.push, List.getLast?_concat]; rfl

theorem head_eq_none (h : Built directory realm owner c) : c.head = none ↔ c.sequence = 0 := by
  have hlen := h.sequence_eq
  have hzero : c.sequence = 0 ↔ c.history.length = 0 := by
    rw [← hlen]
    exact ⟨fun he => by rw [he]; rfl, fun he => UInt64.toNat.inj he⟩
  rw [h.head_eq, hzero, List.length_eq_zero_iff]
  simp

theorem grants_le (h : Built directory realm owner c) : c.grants.size ≤ c.history.length := by
  induction h with
  | empty => exact Nat.le_refl 0
  | @push c record control sequence hc body scope accepts next ih =>
    rw [OwnerChain.push, List.length_append, List.length_singleton]
    cases control.action with
    | grantCreate => exact Nat.le_trans Std.ExtTreeMap.size_insert_le (Nat.succ_le_succ ih)
    | revokeGrant => exact Nat.le_trans (Nat.le_trans Std.ExtTreeMap.size_erase_le ih) (Nat.le_succ _)

end OwnerChain.Built

def recordCount (chains : Std.ExtTreeMap OwnerId (OwnerChain crypto) compare) : Nat :=
  Weights.total (fun c => c.2.history.length) chains.toList

structure RoomAuthority.Sound (a : RoomAuthority crypto) : Prop where
  built : ∀ (owner : OwnerId) (c : OwnerChain crypto), a.chains[owner]? = some c →
    OwnerChain.Built a.directory a.realm owner c
  records : a.records = recordCount a.chains
  bounded : a.records ≤ maxControlRecords

theorem recordCount_insert (chains : Std.ExtTreeMap OwnerId (OwnerChain crypto) compare) (owner : OwnerId)
    (c : OwnerChain crypto) : recordCount (chains.insert owner c) + (chains[owner]?.getD {}).history.length =
      recordCount chains + c.history.length := by
  have hinsert : recordCount (chains.insert owner c) = c.history.length + recordCount (chains.erase owner) :=
    Weights.total_perm Maps.toList_insert_perm_erase
  rw [hinsert]
  cases ho : chains[owner]? with
  | none =>
    rw [Maps.erase_of_none ho]
    show c.history.length + recordCount chains + 0 = recordCount chains + c.history.length
    omega
  | some old =>
    have hold : recordCount chains = old.history.length + recordCount (chains.erase owner) :=
      Weights.total_perm (Maps.toList_perm_erase ho)
    rw [hold, Option.getD_some]
    omega

namespace RoomAuthority.Sound
variable {a : RoomAuthority crypto}

theorem new (directory : DirectoryId) (realm : RealmId) : (RoomAuthority.new directory realm : RoomAuthority crypto).Sound :=
  ⟨fun owner c hc => by simp [RoomAuthority.new] at hc, rfl, Nat.zero_le _⟩

theorem chain (h : a.Sound) (owner : OwnerId) : OwnerChain.Built a.directory a.realm owner (a.chain owner) := by
  rw [RoomAuthority.chain]
  cases hc : a.chains[owner]? with
  | none => exact .empty
  | some c => exact h.built owner c hc

theorem history_le (h : a.Sound) (owner : OwnerId) : (a.chain owner).history.length ≤ a.records := by
  rw [h.records, RoomAuthority.chain]
  cases hc : a.chains[owner]? with
  | none => exact Nat.zero_le _
  | some c =>
    rw [recordCount, Weights.total_perm (Maps.toList_perm_erase hc)]
    exact Nat.le_add_right _ _

theorem entry (h : a.Sound) (owner : OwnerId) : (a.entry owner).Sound := by
  obtain ⟨hdirectory, hrealm, hrecords⟩ := a.entry_frame owner
  refine ⟨fun o c hc => ?_, ?_, hrecords ▸ h.bounded⟩
  · rw [RoomAuthority.getElem?_entry] at hc
    rw [hdirectory, hrealm]
    split at hc
    · rename_i ho
      cases hc
      exact ho ▸ h.chain owner
    · exact h.built o c hc
  · rw [hrecords, h.records, RoomAuthority.entry, Std.ExtTreeMap.contains_eq_isSome_getElem?]
    cases hc : a.chains[owner]? with
    | some c => rfl
    | none =>
      have hinsert := recordCount_insert a.chains owner {}
      rw [hc] at hinsert
      exact hinsert.symm

theorem checkCommit {record : VerifiedRecord crypto} {control : RoomControl} (h : a.checkCommit record = .ok control) :
    record.body = .control control ∧ control.directory = a.directory ∧ control.realm = a.realm ∧
      a.records < maxControlRecords := by
  simp only [RoomAuthority.checkCommit, RoomAuthority.checkScope, bind_eq_ok, require_eq_ok, Bool.and_eq_true, beq_iff_eq,
    decide_eq_true_eq] at h
  obtain ⟨control', hcontrol, -, ⟨hdirectory, hrealm⟩, -, hrecords, he⟩ := h
  cases he
  refine ⟨?_, hdirectory, hrealm, hrecords⟩
  unfold controlOf at hcontrol
  split at hcontrol
  · rename_i hbody
    cases hcontrol
    exact hbody
  · cases hcontrol

theorem pushed (h : a.Sound) {record : VerifiedRecord crypto} {control : RoomControl} {sequence : UInt64}
    (hcommit : a.checkCommit record = .ok control) (haccepts : (a.chain control.owner).accepts control = .ok ())
    (hnext : checkedAdd (a.chain control.owner).sequence 1 = some sequence) : (a.pushed record control sequence).Sound := by
  obtain ⟨hbody, hdirectory, hrealm, hroom⟩ := checkCommit hcommit
  have hbuilt : OwnerChain.Built a.directory a.realm control.owner
      ((a.chain control.owner).push record control.action sequence) :=
    .push (h.chain control.owner) hbody ⟨hdirectory, hrealm, rfl⟩ haccepts hnext
  refine ⟨fun o c hc => ?_, ?_, hroom⟩
  · rw [RoomAuthority.getElem?_pushed] at hc
    split at hc
    · rename_i ho
      cases hc
      exact ho ▸ hbuilt
    · exact h.built o c hc
  · have hinsert := recordCount_insert a.chains control.owner ((a.chain control.owner).push record control.action sequence)
    have hlen : ((a.chain control.owner).push record control.action sequence).history.length =
        (a.chain control.owner).history.length + 1 := List.length_append
    rw [hlen] at hinsert
    show a.records + 1 = recordCount
      (a.chains.insert control.owner ((a.chain control.owner).push record control.action sequence))
    have hchain : (a.chain control.owner).history.length = (a.chains[control.owner]?.getD {}).history.length := rfl
    have hrecords := h.records
    omega

theorem next (h : a.Sound) (owner : OwnerId) (hroom : a.records < maxControlRecords) :
    ∃ sequence, checkedAdd (a.chain owner).sequence 1 = some sequence := by
  have hlen := (h.chain owner).sequence_eq
  have hle := h.history_le owner
  refine checkedAdd_isSome ?_
  simp only [toNat_uInt64, bytes_uInt64, hlen]
  have hone : (1 : UInt64).toNat = 1 := rfl
  have hmax : maxControlRecords < 256 ^ 8 := by decide
  omega

end RoomAuthority.Sound

/-- What a control record does to an authority: nothing, or a lookup that leaves a chain, or one more record. -/
inductive Committed (a : RoomAuthority crypto) (record : VerifiedRecord crypto) : Except Denial Unit → RoomAuthority crypto → Prop
  | refused {e : Denial} (check : a.checkCommit record = .error e) : Committed a record (.error e) a
  | entered {e : Denial} {control : RoomControl} (check : a.checkCommit record = .ok control)
      (accepts : (a.chain control.owner).accepts control = .error e) : Committed a record (.error e) (a.entry control.owner)
  | pushed {control : RoomControl} {sequence : UInt64} (check : a.checkCommit record = .ok control)
      (accepts : (a.chain control.owner).accepts control = .ok ())
      (next : checkedAdd (a.chain control.owner).sequence 1 = some sequence) :
      Committed a record (.ok ()) (a.pushed record control sequence)

theorem RoomAuthority.Sound.committed {a : RoomAuthority crypto} (h : a.Sound) (record : VerifiedRecord crypto) :
    Committed a record (exec (commitControl record) a).1 (exec (commitControl record) a).2 := by
  obtain ⟨e, hcheck, hexec⟩ | ⟨control, hcheck, ⟨e, haccepts, hexec⟩ | ⟨haccepts, ⟨hnone, -⟩ | ⟨sequence, hnext, hexec⟩⟩⟩ :=
    exec_commitControl a record
  · rw [hexec]
    exact .refused hcheck
  · rw [hexec]
    exact .entered hcheck haccepts
  · obtain ⟨sequence, hnext⟩ := h.next control.owner (RoomAuthority.Sound.checkCommit hcheck).2.2.2
    rw [hnone] at hnext
    cases hnext
  · rw [hexec]
    exact .pushed hcheck haccepts hnext

theorem RoomAuthority.Sound.answer {a : RoomAuthority crypto} (h : a.Sound) (record : VerifiedRecord crypto) :
    (exec (commitControl record) a).1 = (do
      let control ← a.checkCommit record
      (a.chain control.owner).accepts control) := by
  have hcommitted := h.committed record
  generalize exec (commitControl record) a = outcome at hcommitted
  obtain ⟨result, a'⟩ := outcome
  cases hcommitted with
  | refused check =>
    rw [check]
    rfl
  | entered check accepts =>
    rw [check]
    exact accepts.symm
  | pushed check accepts next =>
    rw [check]
    exact accepts.symm

theorem Committed.sound {a a' : RoomAuthority crypto} {record : VerifiedRecord crypto} {result : Except Denial Unit}
    (h : Committed a record result a') (ha : a.Sound) : a'.Sound := by
  cases h with
  | refused => exact ha
  | entered => exact ha.entry _
  | pushed check accepts next => exact ha.pushed check accepts next

theorem exec_admitControl (a : RoomAuthority crypto) (record : VerifiedRecord crypto) (view : ControlView) (now : UInt64) :
    exec (admitControl record view now) a =
      match checkAdmission a record view now with
      | .ok () => exec (commitControl record) a
      | .error e => (.error e, a) := by
  rw [admitControl, exec_examine_bind]
  cases checkAdmission a record view now <;> rfl

inductive RoomAuthority.Reachable : RoomAuthority crypto → Prop
  | new (directory : DirectoryId) (realm : RealmId) : Reachable (.new directory realm)
  | admission {a : RoomAuthority crypto} (ha : Reachable a) (record : VerifiedRecord crypto) (view : ControlView) (now : UInt64) :
      Reachable (exec (admitControl record view now) a).2
  | restoration {a : RoomAuthority crypto} (ha : Reachable a) (record : VerifiedRecord crypto) :
      Reachable (exec (commitControl record) a).2

theorem RoomAuthority.Reachable.sound {a : RoomAuthority crypto} (h : a.Reachable) : a.Sound := by
  induction h with
  | new directory realm => exact .new directory realm
  | @admission a ha record view now ih =>
    rw [exec_admitControl]
    cases checkAdmission a record view now with
    | error e => exact ih
    | ok u => exact (ih.committed record).sound ih
  | @restoration a ha record ih => exact (ih.committed record).sound ih

end Valhalla.Rooms
