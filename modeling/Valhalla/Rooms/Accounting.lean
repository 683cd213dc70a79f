import Valhalla.Lib.Rate
import Valhalla.Rooms.Steps
import Valhalla.Social.Union

/-!
# The ledger of the registry

Slots, charges, credits and creation times of every owner add up in every reachable registry, and every room is what
its own records say. `Registry.Ledger` is kept by each effect; `Registry.Accounted` is what follows from it.
-/

namespace Valhalla.Rooms
open Fallible FixedWidth Check
open Social (OwnerId AgentId RecordId ControlView)

variable {crypto : Crypto}

/-! ### What the checks say -/

structure Registry.Creates (r : Registry crypto) (intent : CreationIntent) (view : ControlView) (now : UInt64)
    (account : Account) : Prop where
  policy : intent.policy = r.policy.id crypto
  authority : r.authority.assessCreation intent view now = .ok ()
  fresh : r.rooms[intent.slug]? = none
  rooms : r.rooms.size < maxRooms
  owners : r.accounts.contains intent.owner = true ∨ r.accounts.size < maxOwners
  slot : intent.slot.toNat = (r.account intent.owner).lifetimeSlots.toNat + 1
  charge : r.policy.cost intent.slot = .ok intent.charge
  spent : account.spent.toNat = (r.account intent.owner).spent.toNat + intent.charge.toNat
  credit : account.spent.toNat ≤ account.earned.toNat
  earned : account.earned = (r.account intent.owner).earned
  lifetimeSlots : account.lifetimeSlots = intent.slot

theorem Registry.creates {r : Registry crypto} {intent : CreationIntent} {view : ControlView} {now : UInt64} {account : Account}
    (h : r.checkCreate intent view now = .ok account) : r.Creates intent view now account := by
  simp only [checkCreate, bind_eq_ok, require_eq_ok, okOr_eq_ok, mapError_eq_ok, beq_iff_eq, Bool.not_eq_true', Bool.and_eq_false_iff,
    decide_eq_false_iff_not, Bool.not_eq_false', Nat.not_le, ge_iff_le, gt_iff_lt, UInt64.not_lt] at h
  obtain ⟨_, hpolicy, _, hauthority, _, hfresh, _, hrooms, _, howners, slot, hslot, _, hsame, cost, hcost, _, hcharge, spent, hspent, _,
    hcredit, he⟩ := h
  cases he
  subst hsame
  subst hcharge
  have hfresh' : r.rooms[intent.slug]? = none := by
    rw [Std.ExtTreeMap.contains_eq_isSome_getElem?, Option.isSome_eq_false_iff, Option.isNone_iff_eq_none] at hfresh
    exact hfresh
  exact ⟨hpolicy, hauthority, hfresh', hrooms, howners, checkedAdd_eq_some.1 hslot, hcost, checkedAdd_eq_some.1 hspent, hcredit, rfl, rfl⟩

structure Registry.Updates (r : Registry crypto) (edit : RoomUpdate) (view : ControlView) (now : UInt64) (slug : Slug)
    (room : Room crypto) : Prop where
  authority : r.authority.assessUpdate edit view now = .ok ()
  indexed : r.byGenesis[edit.genesis]? = some slug
  found : r.rooms[slug]? = some room
  live : room.archived = false
  owner : room.intent.owner = edit.owner
  previous : room.head = edit.previous
  bound : room.revisions.length < maxRevisions

theorem Registry.updates {r : Registry crypto} {edit : RoomUpdate} {view : ControlView} {now : UInt64} {slug : Slug} {room : Room crypto}
    (h : r.checkUpdate edit view now = .ok (slug, room)) : r.Updates edit view now slug room := by
  simp only [checkUpdate, bind_eq_ok, require_eq_ok, okOr_eq_ok, mapError_eq_ok, beq_iff_eq, Bool.not_eq_true',
    decide_eq_false_iff_not, Nat.not_le, ge_iff_le] at h
  obtain ⟨_, hauthority, slug', hslug, room', hroom, _, hlive, _, howner, _, hprevious, _, hbound, he⟩ := h
  cases he
  exact ⟨hauthority, hslug, hroom, hlive, howner, hprevious, hbound⟩

structure Registry.Awards (r : Registry crypto) (award : SupportAward) (account : Account) : Prop where
  support : r.support.size < maxSupport
  owners : r.accounts.contains award.beneficiary = true ∨ r.accounts.size < maxOwners
  earned : account.earned.toNat = (r.account award.beneficiary).earned.toNat + 1
  spent : account.spent = (r.account award.beneficiary).spent
  lifetimeSlots : account.lifetimeSlots = (r.account award.beneficiary).lifetimeSlots

theorem Registry.awards {r : Registry crypto} {award : SupportAward} {account : Account} (h : r.checkAward award = .ok account) :
    r.Awards award account := by
  simp only [checkAward, bind_eq_ok, require_eq_ok, okOr_eq_ok, Bool.not_eq_true', Bool.and_eq_false_iff, Bool.not_eq_false',
    decide_eq_false_iff_not, Nat.not_le, ge_iff_le] at h
  obtain ⟨_, hsupport, _, howners, earned, hearned, he⟩ := h
  cases he
  exact ⟨hsupport, howners, checkedAdd_eq_some.1 hearned, rfl, rfl⟩

structure Registry.Rotates (r : Registry crypto) (fromHeight : UInt64) (validators : List ValidatorMember) : Prop where
  later : ∀ height, r.validatorSchedule.contains height = true → height < fromHeight
  nonempty : validators ≠ []
  bound : validators.length ≤ maxValidators
  room : r.validatorSchedule.size < maxRotations
  members : checkMembers crypto .bounds .cost validators = .ok ()

theorem Registry.rotates {r : Registry crypto} {fromHeight : UInt64} {validators : List ValidatorMember}
    (h : r.checkRotation fromHeight validators = .ok ()) : r.Rotates fromHeight validators := by
  simp only [checkRotation, bind_eq_ok, require_eq_ok, Bool.not_eq_true', Bool.or_eq_false_iff, decide_eq_false_iff_not, Nat.not_lt,
    gt_iff_lt, ge_iff_le, Nat.not_le, List.isEmpty_eq_false_iff] at h
  obtain ⟨_, hlatest, _, ⟨⟨hnonempty, hbound⟩, hroom⟩, hmembers⟩ := h
  refine ⟨fun height hheight => ?_, hnonempty, hbound, hroom, hmembers⟩
  have hsome := Std.ExtTreeMap.isSome_maxKey?_of_contains hheight
  obtain ⟨last, hlast⟩ := Option.isSome_iff_exists.1 hsome
  have hle : height ≤ last := Std.isLE_compare.1 (Std.ExtTreeMap.le_maxKey?_of_contains hheight (by simp only [hlast, Option.get_some]))
  rw [latest, hlast, Option.any_some, decide_eq_false_iff_not, UInt64.not_le] at hlatest
  exact UInt64.lt_of_le_of_lt hle hlatest

/-! ### Rooms and their revisions -/

inductive Room.Built : Room crypto → Prop
  | created {record : VerifiedRecord crypto} {genesis : RoomGenesisId} {intent : CreationIntent} (now : UInt64)
      (body : record.body = .create intent) (hgenesis : record.genesisId = some genesis) :
      Built ⟨genesis, intent, intent.description, record.id, now, false, record, []⟩
  | revised {room : Room crypto} {record : VerifiedRecord crypto} {edit : RoomUpdate} (hroom : Built room)
      (body : record.body = .update edit) (genesis : edit.genesis = room.genesis) (owner : room.intent.owner = edit.owner)
      (previous : room.head = edit.previous) (live : room.archived = false) (bound : room.revisions.length < maxRevisions) :
      Built (room.revise record edit.action)

/-- The head and the description behind one more revision. -/
def Room.follow (state : RoomRecordId × Description) (record : VerifiedRecord crypto) : RoomRecordId × Description :=
  (record.id, match record.body with
    | .update edit =>
      match edit.action with
      | .describe text => text
      | _ => state.2
    | _ => state.2)

def isArchive (record : VerifiedRecord crypto) : Bool :=
  match record.body with
  | .update edit =>
    match edit.action with
    | .archive => true
    | _ => false
  | _ => false

structure Room.Folded (room : Room crypto) : Prop where
  states : (room.head, room.description) = room.revisions.foldl follow (room.record.id, room.intent.description)
  archived : room.archived = room.revisions.any isArchive
  last : ∀ before record rest, room.revisions = before ++ record :: rest → isArchive record = true → rest = []

def Registry.roomsOf (r : Registry crypto) (owner : OwnerId) : List (Room crypto) :=
  (r.rooms.toList.map Prod.snd).filter fun room => room.intent.owner == owner

theorem Registry.mem_roomsOf {r : Registry crypto} {owner : OwnerId} {room : Room crypto} :
    room ∈ r.roomsOf owner ↔ (∃ slug : Slug, r.rooms[slug]? = some room) ∧ room.intent.owner = owner := by
  rw [roomsOf, List.mem_filter, List.mem_map, beq_iff_eq]
  refine and_congr_left fun _ => ?_
  constructor
  · rintro ⟨⟨slug, _⟩, he, rfl⟩
    exact ⟨slug, Std.ExtTreeMap.mem_toList_iff_getElem?_eq_some.1 he⟩
  · rintro ⟨slug, he⟩
    exact ⟨(slug, room), Std.ExtTreeMap.mem_toList_iff_getElem?_eq_some.2 he, rfl⟩

theorem Registry.roomsOf_insert {r r' : Registry crypto} {slug : Slug} {room : Room crypto} (h : r.rooms[slug]? = none)
    (hrooms : r'.rooms = r.rooms.insert slug room) (owner : OwnerId) :
    (r'.roomsOf owner).Perm (if room.intent.owner = owner then room :: r.roomsOf owner else r.roomsOf owner) := by
  have hperm := ((Maps.toList_insert_perm (v := room) h).map Prod.snd).filter fun room => room.intent.owner == owner
  rw [roomsOf, hrooms]
  refine hperm.trans ?_
  simp only [List.map_cons, List.filter_cons, beq_iff_eq]
  exact .refl _

theorem Registry.roomsOf_revise {β : Type} {r r' : Registry crypto} {slug : Slug} {room room' : Room crypto}
    (h : r.rooms[slug]? = some room) (hrooms : r'.rooms = r.rooms.insert slug room') {f : Room crypto → β} (hf : f room' = f room)
    (hintent : room'.intent = room.intent) (owner : OwnerId) : ((r'.roomsOf owner).map f).Perm ((r.roomsOf owner).map f) := by
  have hnew := ((Maps.toList_insert_perm_erase (m := r.rooms) (k := slug) (v := room')).map Prod.snd).filter
    fun room => room.intent.owner == owner
  have hold := ((Maps.toList_perm_erase h).map Prod.snd).filter fun room => room.intent.owner == owner
  rw [roomsOf, roomsOf, hrooms]
  refine (hnew.map f).trans (List.Perm.trans ?_ (hold.map f).symm)
  simp only [List.map_cons, List.filter_cons, hintent]
  split
  · rw [List.map_cons, List.map_cons, hf]
  · exact .refl _

/-! ### The books of one owner -/

structure Creation where
  slot : Nat
  charge : Nat
  time : Nat

/-- The account of an owner agrees with the creations, the credits and the remembered times. -/
structure Books (span limit clock : Nat) (account : Account) (creations : List Creation) (credits : Nat) (window : List Nat) :
    Prop where
  slots : (creations.map Creation.slot).Perm (List.range' 1 account.lifetimeSlots.toNat)
  spent : Weights.total Creation.charge creations = account.spent.toNat
  credit : account.spent.toNat ≤ account.earned.toNat
  earned : credits = account.earned.toNat
  kept : Rate.Kept span clock (creations.map Creation.time) window
  rate : Rate.Limited span limit (creations.map Creation.time)

namespace Books
variable {span limit clock now credits : Nat} {account account' : Account} {creations : List Creation} {window : List Nat}

theorem empty : Books span limit clock {} [] 0 [] :=
  ⟨.nil, rfl, Nat.le_refl _, rfl, Rate.kept_nil, Rate.limited_nil⟩

theorem later (h : Books span limit clock account creations credits window) (hle : clock ≤ now) :
    Books span limit now account creations credits window :=
  ⟨h.slots, h.spent, h.credit, h.earned, h.kept.later hle, h.rate⟩

theorem perm {creations' : List Creation} (h : Books span limit clock account creations credits window)
    (hperm : creations'.Perm creations) : Books span limit clock account creations' credits window :=
  ⟨(hperm.map _).trans h.slots, Weights.total_perm hperm ▸ h.spent, h.credit, h.earned, h.kept.perm (hperm.map _),
    h.rate.perm (hperm.map _)⟩

theorem create {slot charge : Nat} {p : Nat → Bool} (h : Books span limit now account creations credits window)
    (hslot : slot = account.lifetimeSlots.toNat + 1) (hlifetime : account'.lifetimeSlots.toNat = slot)
    (hspent : account'.spent.toNat = account.spent.toNat + charge) (hearned : account'.earned = account.earned)
    (hcredit : account'.spent.toNat ≤ account'.earned.toNat) (hp : ∀ x, p x = true → x + span ≤ now)
    (hrate : (window.dropWhile p).length < limit) :
    Books span limit now account' (⟨slot, charge, now⟩ :: creations) credits (window.dropWhile p ++ [now]) := by
  have hkept := h.kept.dropWhile hp
  refine ⟨?_, ?_, hcredit, hearned ▸ h.earned, hkept.push, h.rate.push hkept hrate⟩
  · rw [List.map_cons, hlifetime, hslot, List.range'_concat]
    refine (h.slots.cons _).trans ?_
    rw [Nat.one_mul, Nat.add_comm]
    exact (List.perm_append_singleton _ _).symm
  · rw [Weights.total_cons, h.spent, hspent]
    exact Nat.add_comm _ _

theorem award (h : Books span limit clock account creations credits window) (hspent : account'.spent = account.spent)
    (hearned : account'.earned.toNat = account.earned.toNat + 1) (hlifetime : account'.lifetimeSlots = account.lifetimeSlots) :
    Books span limit clock account' creations (credits + 1) window := by
  have hcredit := h.credit
  refine ⟨hlifetime ▸ h.slots, hspent ▸ h.spent, ?_, ?_, h.kept, h.rate⟩
  · rw [hspent, hearned]
    omega
  · rw [hearned, h.earned]

end Books

/-! ### The ledger -/

namespace Registry
variable (r : Registry crypto) (owner : OwnerId)

def creations : List Creation :=
  (r.roomsOf owner).map fun room => ⟨room.intent.slot.toNat, room.intent.charge.toNat, room.createdAt.toNat⟩

def credits : Nat := (r.support.toList.filter fun key => key.beneficiary == owner).length

structure Ledger (r : Registry crypto) : Prop where
  books : ∀ owner, Books r.policy.windowSeconds.toNat r.policy.maxInWindow.toNat r.lastTime.toNat (r.account owner)
    (r.creations owner) (r.credits owner) ((r.window owner).map UInt64.toNat)
  rooms : ∀ (slug : Slug) (room : Room crypto), r.rooms[slug]? = some room →
    room.Built ∧ room.intent.slug = slug ∧ r.policy.cost room.intent.slot = .ok room.intent.charge
  genesis : ∀ (genesis : RoomGenesisId) (slug : Slug), r.byGenesis[genesis]? = some slug ↔
    ∃ room : Room crypto, r.rooms[slug]? = some room ∧ room.genesis = genesis
  backed : ∀ key, r.support.contains key = true → ∃ (id : RecordId) (e : Evidence crypto), r.evidence[id]? = some e ∧ e.award.key = key

end Registry

theorem Registry.expired_iff {r : Registry crypto} (h : r.Sound) {now time : UInt64} :
    r.expired now time = true ↔ time.toNat + r.policy.windowSeconds.toNat ≤ now.toNat := by
  have hpositive : r.policy.windowSeconds.toNat ≠ 0 := fun hzero => h.policy.windowSeconds (UInt64.toNat.inj hzero)
  have hsub : (saturatingSub now time).toNat = now.toNat - time.toNat := by
    simpa only [toNat_uInt64] using toNat_saturatingSub (a := now) (b := time)
  rw [expired, decide_eq_true_iff, ge_iff_le, UInt64.le_iff_toNat_le, hsub]
  omega

theorem Registry.map_dropWhile_expired {r : Registry crypto} (h : r.Sound) {now : UInt64} {times : List UInt64} :
    (times.dropWhile (r.expired now)).map UInt64.toNat =
      (times.map UInt64.toNat).dropWhile fun x => decide (x + r.policy.windowSeconds.toNat ≤ now.toNat) := by
  rw [List.dropWhile_map]
  refine congrArg _ (congrArg (List.dropWhile · times) (funext fun time => ?_))
  rw [Function.comp_apply, Bool.eq_iff_iff, expired_iff h, decide_eq_true_iff]

namespace Registry.Ledger
variable {r r' : Registry crypto} {now : UInt64}

theorem later (h : r.Ledger) (hle : r.lastTime.toNat ≤ now.toNat) (authority : RoomAuthority crypto)
    (eligible : Std.ExtTreeSet OwnerId compare) (validatorSchedule : Std.ExtTreeMap UInt64 (List ValidatorMember) compare)
    (revision : UInt64) : Ledger { r with authority, eligible, validatorSchedule, lastTime := now, revision } :=
  ⟨fun owner => (h.books owner).later hle, h.rooms, h.genesis, h.backed⟩

theorem created (h : r.Ledger) (hle : r.lastTime.toNat ≤ now.toNat) (hsound : r.Sound) {record : VerifiedRecord crypto}
    {genesis : RoomGenesisId} {intent : CreationIntent} {view : ControlView} {account : Account} (hbody : record.body = .create intent)
    (hgenesis : record.genesisId = some genesis) (hfresh : r.byGenesis.contains genesis = false)
    (hcheck : r.Creates intent view now account)
    (hrate : ((r.window intent.owner).dropWhile (r.expired now)).length < r.policy.maxInWindow.toNat)
    (hpolicy : r'.policy = r.policy) (hclock : r'.lastTime = now) (hsupport : r'.support = r.support)
    (hevidence : r'.evidence = r.evidence) (haccounts : r'.accounts = r.accounts.insert intent.owner account)
    (hwindows : ∀ owner : OwnerId, r'.windows[owner]? = if intent.owner = owner then
      some ((r.window intent.owner).dropWhile (r.expired now) ++ [now]) else r.windows[owner]?)
    (hrooms : r'.rooms = r.rooms.insert intent.slug ⟨genesis, intent, intent.description, record.id, now, false, record, []⟩)
    (hbyGenesis : r'.byGenesis = r.byGenesis.insert genesis intent.slug) : r'.Ledger := by
  refine ⟨fun owner => ?_, fun slug room hroom => ?_, fun g slug => ?_, hsupport ▸ hevidence ▸ h.backed⟩
  · have hbooks := (h.books owner).later hle
    have hcredits : r'.credits owner = r.credits owner := by rw [credits, credits, hsupport]
    have hperm := roomsOf_insert hcheck.fresh hrooms owner
    rw [hpolicy, hcredits, hclock, creations, Registry.account, window, haccounts, hwindows, Maps.getElem?_insert]
    by_cases ho : intent.owner = owner
    · subst ho
      rw [if_pos rfl] at hperm ⊢
      rw [if_pos rfl, Option.getD_some, Option.getD_some, List.map_append, map_dropWhile_expired hsound]
      rw [← List.length_map UInt64.toNat, map_dropWhile_expired hsound] at hrate
      exact (hbooks.create hcheck.slot (congrArg _ hcheck.lifetimeSlots) hcheck.spent hcheck.earned hcheck.credit
        (fun x hx => decide_eq_true_iff.1 hx) hrate).perm (hperm.map _)
    · rw [if_neg ho] at hperm ⊢
      rw [if_neg ho]
      exact hbooks.perm (hperm.map _)
  · rw [hrooms, Maps.getElem?_insert] at hroom
    rw [hpolicy]
    split at hroom
    · rename_i hslug
      cases hroom
      exact ⟨.created now hbody hgenesis, hslug, hcheck.charge⟩
    · exact h.rooms slug room hroom
  · have hnone : r.byGenesis[genesis]? = none := by
      rwa [Std.ExtTreeMap.contains_eq_isSome_getElem?, Option.isSome_eq_false_iff, Option.isNone_iff_eq_none] at hfresh
    rw [hbyGenesis, hrooms, Maps.getElem?_insert, Maps.getElem?_insert]
    by_cases hg : genesis = g
    · subst hg
      rw [if_pos rfl]
      constructor
      · intro hslug
        cases hslug
        exact ⟨_, if_pos rfl, rfl⟩
      · rintro ⟨room, hroom, hsame⟩
        split at hroom
        · rename_i hslug
          rw [hslug]
        · rw [(h.genesis genesis slug).2 ⟨room, hroom, hsame⟩] at hnone
          cases hnone
    · rw [if_neg hg, h.genesis]
      refine exists_congr fun room => ?_
      by_cases hslug : intent.slug = slug
      · subst hslug
        rw [if_pos rfl, hcheck.fresh]
        constructor
        · rintro ⟨hroom, -⟩
          cases hroom
        · rintro ⟨hroom, hsame⟩
          cases hroom
          exact absurd hsame hg
      · rw [if_neg hslug]

theorem updated (h : r.Ledger) (hle : r.lastTime.toNat ≤ now.toNat) {record : VerifiedRecord crypto} {edit : RoomUpdate}
    {view : ControlView} {slug : Slug} {room : Room crypto} (hbody : record.body = .update edit)
    (hcheck : r.Updates edit view now slug room) (hpolicy : r'.policy = r.policy) (hclock : r'.lastTime = now)
    (hsupport : r'.support = r.support) (hevidence : r'.evidence = r.evidence) (haccounts : r'.accounts = r.accounts)
    (hwindows : r'.windows = r.windows) (hrooms : r'.rooms = r.rooms.insert slug (room.revise record edit.action))
    (hbyGenesis : r'.byGenesis = r.byGenesis) : r'.Ledger := by
  have hintent : (room.revise record edit.action).intent = room.intent := rfl
  obtain ⟨hbuilt, hslug, hcost⟩ := h.rooms slug room hcheck.found
  have hgenesis : edit.genesis = room.genesis := by
    obtain ⟨room', hroom', hsame⟩ := (h.genesis edit.genesis slug).1 hcheck.indexed
    rw [hcheck.found] at hroom'
    cases hroom'
    exact hsame.symm
  refine ⟨fun owner => ?_, fun slug' room' hroom => ?_, fun g slug' => ?_, hsupport ▸ hevidence ▸ h.backed⟩
  · have hperm : (r'.creations owner).Perm (r.creations owner) := roomsOf_revise hcheck.found hrooms rfl hintent owner
    have hcredits : r'.credits owner = r.credits owner := by rw [credits, credits, hsupport]
    rw [hpolicy, hcredits, hclock, account, window, haccounts, hwindows]
    exact ((h.books owner).later hle).perm hperm
  · rw [hrooms, Maps.getElem?_insert] at hroom
    rw [hpolicy]
    split at hroom
    · rename_i hs
      cases hroom
      exact ⟨.revised hbuilt hbody hgenesis hcheck.owner hcheck.previous hcheck.live hcheck.bound, hslug.trans hs, hcost⟩
    · exact h.rooms slug' room' hroom
  · rw [hbyGenesis, h.genesis, hrooms, Maps.getElem?_insert]
    by_cases hs : slug = slug'
    · subst hs
      rw [if_pos rfl, hcheck.found]
      constructor
      · rintro ⟨room', hroom', hsame⟩
        cases hroom'
        exact ⟨_, rfl, hsame⟩
      · rintro ⟨room', hroom', hsame⟩
        cases hroom'
        exact ⟨room, rfl, hsame⟩
    · rw [if_neg hs]

theorem awarded (h : r.Ledger) (hle : r.lastTime.toNat ≤ now.toNat) {record : Social.VerifiedRecord crypto} {award : SupportAward}
    {account : Account} (hfresh : r.evidence.contains record.id = false) (hnew : r.support.contains award.key = false)
    (hcheck : r.Awards award account) (hpolicy : r'.policy = r.policy) (hclock : r'.lastTime = now)
    (hsupport : r'.support = r.support.insert award.key) (hevidence : r'.evidence = r.evidence.insert record.id ⟨award, record⟩)
    (haccounts : r'.accounts = r.accounts.insert award.beneficiary account) (hwindows : r'.windows = r.windows)
    (hrooms : r'.rooms = r.rooms) (hbyGenesis : r'.byGenesis = r.byGenesis) : r'.Ledger := by
  refine ⟨fun owner => ?_, ?_, ?_, fun key hkey => ?_⟩
  · have hbooks := (h.books owner).later hle
    have hcreations : r'.creations owner = r.creations owner := by rw [creations, creations, roomsOf, roomsOf, hrooms]
    have hperm := (Maps.toList_insert_new_perm hnew).filter fun key => key.beneficiary == owner
    have hkey : award.key.beneficiary = award.beneficiary := rfl
    rw [List.filter_cons, hkey] at hperm
    rw [hpolicy, hcreations, hclock, Registry.account, window, haccounts, hwindows, Maps.getElem?_insert, credits, hsupport,
      hperm.length_eq]
    by_cases ho : award.beneficiary = owner
    · subst ho
      rw [if_pos rfl, if_pos (beq_self_eq_true _), List.length_cons]
      exact hbooks.award hcheck.spent hcheck.earned hcheck.lifetimeSlots
    · rw [if_neg ho, if_neg fun hsame => ho (beq_iff_eq.1 hsame)]
      exact hbooks
  · rw [hrooms, hpolicy]
    exact h.rooms
  · rw [hrooms, hbyGenesis]
    exact h.genesis
  · rw [hsupport, Std.ExtTreeSet.contains_insert, Bool.or_eq_true, beq_iff_eq, Std.LawfulEqCmp.compare_eq_iff_eq] at hkey
    rw [hevidence]
    obtain rfl | hkey := hkey
    · exact ⟨record.id, ⟨award, record⟩, by rw [Maps.getElem?_insert, if_pos rfl], rfl⟩
    · obtain ⟨id, e, he, hsame⟩ := h.backed key hkey
      refine ⟨id, e, ?_, hsame⟩
      rw [Maps.getElem?_insert, if_neg, he]
      rintro rfl
      rw [Std.ExtTreeMap.contains_eq_isSome_getElem?, he] at hfresh
      cases hfresh

theorem duplicate (h : r.Ledger) {record : Social.VerifiedRecord crypto} {award : SupportAward}
    (hfresh : r.evidence.contains record.id = false) : (r.addEvidence record award).Ledger := by
  refine ⟨h.books, h.rooms, h.genesis, fun key hkey => ?_⟩
  obtain ⟨id, e, he, hsame⟩ := h.backed key hkey
  refine ⟨id, e, ?_, hsame⟩
  show (r.evidence.insert record.id ⟨award, record⟩)[id]? = some e
  rw [Maps.getElem?_insert, if_neg, he]
  rintro rfl
  rw [Std.ExtTreeMap.contains_eq_isSome_getElem?, he] at hfresh
  cases hfresh

end Registry.Ledger

theorem Effect.ledger {r r' : Registry crypto} {call : Call crypto} {result : Option Applied} (h : Effect r call result r')
    (hclock : ¬ call.now < r.lastTime) (hsound : r.Sound) (hr : r.Ledger) (revision : UInt64) :
    (r'.finished call.now revision).Ledger := by
  have hle : r.lastTime.toNat ≤ call.now.toNat := by rwa [UInt64.lt_iff_toNat_lt, Nat.not_lt] at hclock
  cases h with
  | control => exact hr.later hle _ _ _ _
  | existing => exact hr.later hle _ _ _ _
  | @created record view now intent genesis account body hgenesis fresh check rate =>
    refine hr.created hle hsound body hgenesis fresh (Registry.creates check) rate rfl rfl rfl rfl rfl (fun owner => ?_) rfl rfl
    rw [Registry.windows_finished]
    exact Registry.getElem?_addRoom_windows owner
  | updated body check => exact hr.updated hle body (Registry.updates check) rfl rfl rfl rfl rfl rfl rfl rfl
  | awarded fresh evidence new check => exact hr.awarded hle fresh new (Registry.awards check) rfl rfl rfl rfl rfl rfl rfl rfl
  | eligible => exact hr.later hle _ _ _ _
  | rotation => exact hr.later hle _ _ _ _

theorem Outcome.ledger {r r' : Registry crypto} {call : Call crypto} {result : Except RegistryError (Option Applied)}
    (h : Outcome r call result r') (hsound : r.Sound) (hr : r.Ledger) : r'.Ledger := by
  cases h with
  | refused => exact hr
  | entered => exact hr.later (Nat.le_refl _) _ _ _ _
  | known => exact hr
  | duplicate hcall clock fresh evidence old => exact hr.duplicate fresh
  | applied clock effect next => exact effect.ledger clock hsound hr _
  | exhausted clock effect full => exact effect.ledger clock hsound hr _

theorem Registry.Ledger.new {directory : DirectoryId} {realm : RealmId} {policy : DirectoryPolicy} {eligible : List OwnerId}
    {r : Registry crypto} (h : Registry.new directory realm policy eligible = .ok r) : r.Ledger := by
  simp only [Registry.new, bind_eq_ok] at h
  obtain ⟨_, -, _, -, he⟩ := h
  cases he
  refine ⟨fun owner => ?_, fun slug room hroom => ?_, fun genesis slug => ?_, fun key hkey => ?_⟩
  · have haccount : (∅ : Std.ExtTreeMap OwnerId Account compare)[owner]?.getD {} = {} := by simp
    have hwindow : (∅ : Std.ExtTreeMap OwnerId (List UInt64) compare)[owner]?.getD [] = [] := by simp
    rw [Registry.account, Registry.window, haccount, hwindow]
    exact .empty
  · simp at hroom
  · simp
  · simp at hkey

theorem Registry.Reachable.ledger {r : Registry crypto} (h : r.Reachable) : r.Ledger := by
  induction h with
  | new h => exact .new h
  | step hr call ih => exact (hr.sound.outcome call).ledger hr.sound ih

/-! ### Accounting -/

/-- The account of an owner in terms of rooms, prices, support and creation times. -/
structure Registry.Balanced (r : Registry crypto) (owner : OwnerId) : Prop where
  lifetimeSlots : (r.account owner).lifetimeSlots.toNat = (r.roomsOf owner).length
  slots : ((r.roomsOf owner).map fun room => room.intent.slot.toNat).Perm (List.range' 1 (r.roomsOf owner).length)
  charges : (r.account owner).spent.toNat = Weights.total (fun room => room.intent.charge.toNat) (r.roomsOf owner)
  prices : ∃ costs, (List.range' 1 (r.roomsOf owner).length).mapM (fun slot => r.policy.cost (UInt32.ofNat slot)) = .ok costs ∧
    (r.account owner).spent.toNat = Weights.total UInt64.toNat costs
  credit : (r.account owner).spent.toNat ≤ (r.account owner).earned.toNat
  earned : (r.account owner).earned.toNat = r.credits owner
  rate : ∀ start, ((r.roomsOf owner).filter fun room => decide (start ≤ room.createdAt.toNat) &&
    decide (room.createdAt.toNat < start + r.policy.windowSeconds.toNat)).length ≤ r.policy.maxInWindow.toNat

structure Registry.Accounted (r : Registry crypto) : Prop where
  balanced : ∀ owner, r.Balanced owner
  backed : ∀ key, r.support.contains key = true ↔
    ∃ (id : RecordId) (e : Evidence crypto), r.evidence[id]? = some e ∧ e.award.key = key
  inverse : ∀ (genesis : RoomGenesisId) (slug : Slug), r.byGenesis[genesis]? = some slug ↔
    ∃ room : Room crypto, r.rooms[slug]? = some room ∧ room.genesis = genesis
  rooms : ∀ (slug : Slug) (room : Room crypto), r.rooms[slug]? = some room → room.intent.slug = slug ∧ room.Folded

def DirectoryPolicy.price (policy : DirectoryPolicy) (slot : Nat) : UInt64 := (policy.cost (UInt32.ofNat slot)).toOption.getD 0

theorem DirectoryPolicy.price_of_cost {policy : DirectoryPolicy} {slot : Nat} {cost : UInt64}
    (h : policy.cost (UInt32.ofNat slot) = .ok cost) : policy.price slot = cost := by
  rw [price, h]
  rfl

theorem Registry.Ledger.balanced {r : Registry crypto} (h : r.Ledger) (owner : OwnerId) : r.Balanced owner := by
  have hbooks := h.books owner
  have hslots : ((r.roomsOf owner).map fun room => room.intent.slot.toNat).Perm
      (List.range' 1 (r.account owner).lifetimeSlots.toNat) := by
    have hperm := hbooks.slots
    rwa [creations, List.map_map] at hperm
  have hlen : (r.account owner).lifetimeSlots.toNat = (r.roomsOf owner).length := by
    simpa using hslots.length_eq.symm
  rw [hlen] at hslots
  have hspent : (r.account owner).spent.toNat = Weights.total (fun room => room.intent.charge.toNat) (r.roomsOf owner) := by
    rw [← hbooks.spent, creations, Weights.total_map]
  refine ⟨hlen, hslots, hspent, ?_, hbooks.credit, hbooks.earned.symm, fun start => ?_⟩
  · have hprice : ∀ room ∈ r.roomsOf owner, r.policy.cost (UInt32.ofNat room.intent.slot.toNat) = .ok room.intent.charge := by
      intro room hroom
      obtain ⟨⟨slug, hget⟩, -⟩ := mem_roomsOf.1 hroom
      rw [UInt32.ofNat_toNat]
      exact (h.rooms slug room hget).2.2
    refine ⟨(List.range' 1 (r.roomsOf owner).length).map r.policy.price, ?_, ?_⟩
    · rw [mapM_eq_ok, List.forall₂_map_right_iff, List.forall₂_same]
      intro slot hslot
      obtain ⟨room, hroom, rfl⟩ := List.mem_map.1 (hslots.mem_iff.2 hslot)
      rw [DirectoryPolicy.price_of_cost (hprice room hroom)]
      exact hprice room hroom
    · rw [Weights.total_map, ← Weights.total_perm hslots, Weights.total_map, hspent]
      refine Weights.total_congr fun room hroom => ?_
      rw [DirectoryPolicy.price_of_cost (hprice room hroom)]
  · have hrate := hbooks.rate start
    rw [Rate.during, creations, List.map_map, List.filter_map, List.length_map] at hrate
    exact hrate

end Valhalla.Rooms
