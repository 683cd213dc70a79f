import Valhalla.Rooms.Accounting
import Valhalla.Rooms.Refusals

/-!
# The guard of the store (`is_extension_of`)

What a later snapshot must have kept of an earlier one. Every operation that changes the registry extends it, unless
it is a refusal that leaves an empty chain.
-/

namespace Valhalla.Rooms
open Fallible FixedWidth Check
open Social (OwnerId AgentId RecordId ControlView)

variable {crypto : Crypto}

namespace Registry
variable (r previous : Registry crypto)

def keepsContext : Bool :=
  r.directory == previous.directory && r.realm == previous.realm && r.policy == previous.policy &&
    decide (previous.revision ≤ r.revision) && decide (previous.lastTime ≤ r.lastTime) &&
      (previous.support.toList.all fun key => r.support.contains key) &&
        previous.validatorSchedule.toList.all fun s => r.validatorSchedule[s.1]? == some s.2

/-- All that may happen without a new revision is new evidence for counted support. -/
def addsEvidence : Bool :=
  r.lastTime == previous.lastTime && r.eligible == previous.eligible && r.support == previous.support &&
    r.accounts == previous.accounts && r.windows == previous.windows && r.authority.records == previous.authority.records &&
      r.rooms.size == previous.rooms.size && decide (previous.evidence.size < r.evidence.size) &&
        r.evidence.toList.all fun e => previous.support.contains e.2.award.key

def keepsHistories : Bool :=
  previous.authority.histories.all fun h => r.authority.chains[h.1]?.any fun next => h.2.isPrefixOf next.history

def keepsRooms : Bool :=
  previous.rooms.toList.all fun e => r.rooms[e.1]?.any fun next =>
    next.record == e.2.record && next.createdAt == e.2.createdAt && e.2.revisions.isPrefixOf next.revisions &&
      !(r.revision == previous.revision && next.revisions.length != e.2.revisions.length)

def keepsEvidence : Bool :=
  previous.evidence.toList.all fun e => r.evidence[e.1]?.any fun next => next.award == e.2.award && next.record == e.2.record

def keepsAccounts : Bool :=
  previous.accounts.toList.all fun a => r.accounts[a.1]?.any fun next =>
    decide (a.2.earned ≤ next.earned) && decide (a.2.spent ≤ next.spent) && decide (a.2.lifetimeSlots ≤ next.lifetimeSlots)

def live (time : UInt64) : Bool := decide (saturatingSub r.lastTime time < r.policy.windowSeconds)

/-- A window may drop what has expired, and never what still counts. -/
def keepsWindows : Bool :=
  previous.windows.toList.all fun w => (w.2.filter r.live).isPrefixOf ((r.window w.1).filter r.live)

/-- `self.is_extension_of(previous)`. -/
def isExtensionOf : Bool :=
  r.keepsContext previous && (r.revision != previous.revision || r.addsEvidence previous) && r.keepsHistories previous &&
    r.keepsRooms previous && r.keepsEvidence previous && r.keepsAccounts previous && r.keepsWindows previous

end Registry

/-! ### What the guard says -/

structure Registry.AddsEvidence (r previous : Registry crypto) : Prop where
  lastTime : r.lastTime = previous.lastTime
  eligible : r.eligible = previous.eligible
  support : r.support = previous.support
  accounts : r.accounts = previous.accounts
  windows : r.windows = previous.windows
  records : r.authority.records = previous.authority.records
  rooms : r.rooms.size = previous.rooms.size
  more : previous.evidence.size < r.evidence.size
  counted : ∀ (id : RecordId) (e : Evidence crypto), r.evidence[id]? = some e → previous.support.contains e.award.key = true

structure Registry.Holds (r previous : Registry crypto) : Prop where
  controls : ∀ (owner : OwnerId) (chain : OwnerChain crypto), previous.authority.chains[owner]? = some chain →
    ∃ next : OwnerChain crypto, r.authority.chains[owner]? = some next ∧ chain.history <+: next.history
  rooms : ∀ (slug : Slug) (room : Room crypto), previous.rooms[slug]? = some room →
    ∃ next : Room crypto, r.rooms[slug]? = some next ∧ next.record = room.record ∧ next.createdAt = room.createdAt ∧
      room.revisions <+: next.revisions
  evidence : ∀ (id : RecordId) (e : Evidence crypto), previous.evidence[id]? = some e → r.evidence[id]? = some e
  support : ∀ key, previous.support.contains key = true → r.support.contains key = true
  accounts : ∀ (owner : OwnerId) (account : Account), previous.accounts[owner]? = some account →
    ∃ next : Account, r.accounts[owner]? = some next ∧ account.earned ≤ next.earned ∧ account.spent ≤ next.spent ∧
      account.lifetimeSlots ≤ next.lifetimeSlots
  rotations : ∀ (height : UInt64) (members : List ValidatorMember), previous.validatorSchedule[height]? = some members →
    r.validatorSchedule[height]? = some members
  windows : ∀ owner, (previous.window owner).filter r.live <+: (r.window owner).filter r.live

structure Registry.Extends (r previous : Registry crypto) : Prop where
  directory : r.directory = previous.directory
  realm : r.realm = previous.realm
  policy : r.policy = previous.policy
  revision : previous.revision ≤ r.revision
  lastTime : previous.lastTime ≤ r.lastTime
  holds : r.Holds previous
  same : r.revision = previous.revision → r.AddsEvidence previous
  lengths : r.revision = previous.revision → ∀ (slug : Slug) (room next : Room crypto), previous.rooms[slug]? = some room →
    r.rooms[slug]? = some next → next.revisions.length = room.revisions.length

namespace Registry
variable {r previous : Registry crypto}

theorem keepsContext_iff : r.keepsContext previous = true ↔ r.directory = previous.directory ∧ r.realm = previous.realm ∧
    r.policy = previous.policy ∧ previous.revision ≤ r.revision ∧ previous.lastTime ≤ r.lastTime ∧
      (∀ key, previous.support.contains key = true → r.support.contains key = true) ∧
        ∀ (height : UInt64) (members : List ValidatorMember), previous.validatorSchedule[height]? = some members →
          r.validatorSchedule[height]? = some members := by
  simp only [keepsContext, Bool.and_eq_true, beq_iff_eq, decide_eq_true_eq, Maps.all_toList, Maps.all_toList_set, and_assoc]

theorem addsEvidence_iff : r.addsEvidence previous = true ↔ r.AddsEvidence previous := by
  simp only [addsEvidence, Bool.and_eq_true, beq_iff_eq, decide_eq_true_eq, Maps.all_toList, and_assoc]
  constructor
  · rintro ⟨htime, heligible, hsupport, haccounts, hwindows, hrecords, hrooms, hmore, hcounted⟩
    exact ⟨htime, heligible, hsupport, haccounts, hwindows, hrecords, hrooms, hmore, hcounted⟩
  · intro h
    exact ⟨h.lastTime, h.eligible, h.support, h.accounts, h.windows, h.records, h.rooms, h.more, h.counted⟩

theorem keepsHistories_iff : r.keepsHistories previous = true ↔
    ∀ (owner : OwnerId) (chain : OwnerChain crypto), previous.authority.chains[owner]? = some chain →
      ∃ next : OwnerChain crypto, r.authority.chains[owner]? = some next ∧ chain.history <+: next.history := by
  simp only [keepsHistories, RoomAuthority.histories, List.all_map, Maps.all_toList, Function.comp_apply, Option.any_eq_true,
    List.isPrefixOf_iff_prefix]

theorem keepsRooms_iff : r.keepsRooms previous = true ↔
    ∀ (slug : Slug) (room : Room crypto), previous.rooms[slug]? = some room →
      ∃ next : Room crypto, r.rooms[slug]? = some next ∧ next.record = room.record ∧ next.createdAt = room.createdAt ∧
        room.revisions <+: next.revisions ∧ (r.revision = previous.revision → next.revisions.length = room.revisions.length) := by
  simp only [keepsRooms, Maps.all_toList, Option.any_eq_true, Bool.and_eq_true, beq_iff_eq, List.isPrefixOf_iff_prefix,
    Bool.not_eq_true', Bool.and_eq_false_imp, bne_eq_false_iff_eq, and_assoc]

theorem keepsEvidence_iff : r.keepsEvidence previous = true ↔
    ∀ (id : RecordId) (e : Evidence crypto), previous.evidence[id]? = some e → r.evidence[id]? = some e := by
  simp only [keepsEvidence, Maps.all_toList, Option.any_eq_true, Bool.and_eq_true, beq_iff_eq]
  refine forall_congr' fun id => forall_congr' fun e => imp_congr_right fun _ => ?_
  constructor
  · rintro ⟨⟨award, record⟩, hnext, haward, hrecord⟩
    cases haward
    cases hrecord
    exact hnext
  · intro hnext
    exact ⟨e, hnext, rfl, rfl⟩

theorem keepsAccounts_iff : r.keepsAccounts previous = true ↔
    ∀ (owner : OwnerId) (account : Account), previous.accounts[owner]? = some account →
      ∃ next : Account, r.accounts[owner]? = some next ∧ account.earned ≤ next.earned ∧ account.spent ≤ next.spent ∧
        account.lifetimeSlots ≤ next.lifetimeSlots := by
  simp only [keepsAccounts, Maps.all_toList, Option.any_eq_true, Bool.and_eq_true, decide_eq_true_eq, and_assoc]

theorem keepsWindows_iff : r.keepsWindows previous = true ↔
    ∀ owner, (previous.window owner).filter r.live <+: (r.window owner).filter r.live := by
  simp only [keepsWindows, Maps.all_toList, List.isPrefixOf_iff_prefix]
  refine forall_congr' fun owner => ?_
  have hwindow : previous.window owner = previous.windows[owner]?.getD [] := rfl
  rw [hwindow]
  cases previous.windows[owner]? with
  | none => exact ⟨fun _ => List.nil_prefix, fun _ times htimes => by cases htimes⟩
  | some times => exact ⟨fun h => h times rfl, fun h times' htimes => by cases htimes; exact h⟩

theorem isExtensionOf_iff : r.isExtensionOf previous = true ↔ r.Extends previous := by
  simp only [isExtensionOf, Bool.and_eq_true, Bool.or_eq_true, bne_iff_ne, keepsContext_iff, addsEvidence_iff, keepsHistories_iff,
    keepsRooms_iff, keepsEvidence_iff, keepsAccounts_iff, keepsWindows_iff]
  constructor
  · rintro ⟨⟨⟨⟨⟨⟨⟨hdirectory, hrealm, hpolicy, hrevision, htime, hsupport, hrotations⟩, hsame⟩, hhistories⟩, hrooms⟩, hevidence⟩,
      haccounts⟩, hwindows⟩
    refine ⟨hdirectory, hrealm, hpolicy, hrevision, htime, ⟨hhistories, fun slug room hroom => ?_, hevidence, hsupport, haccounts,
      hrotations, hwindows⟩, fun heq => hsame.resolve_left fun hne => hne heq, fun heq slug room next hroom hnext => ?_⟩
    · obtain ⟨next, hnext, hrecord, hcreated, hprefix, -⟩ := hrooms slug room hroom
      exact ⟨next, hnext, hrecord, hcreated, hprefix⟩
    · obtain ⟨next', hnext', -, -, -, hlen⟩ := hrooms slug room hroom
      rw [hnext] at hnext'
      cases hnext'
      exact hlen heq
  · intro h
    refine ⟨⟨⟨⟨⟨⟨⟨h.directory, h.realm, h.policy, h.revision, h.lastTime, h.holds.support, h.holds.rotations⟩, ?_⟩, h.holds.controls⟩,
      fun slug room hroom => ?_⟩, h.holds.evidence⟩, h.holds.accounts⟩, h.holds.windows⟩
    · by_cases heq : r.revision = previous.revision
      · exact .inr (h.same heq)
      · exact .inl heq
    · obtain ⟨next, hnext, hrecord, hcreated, hprefix⟩ := h.holds.rooms slug room hroom
      exact ⟨next, hnext, hrecord, hcreated, hprefix, fun heq => h.lengths heq slug room next hroom hnext⟩

/-! ### Composition -/

theorem live_of_live {r₂ r₁ : Registry crypto} (hpolicy : r₂.policy = r₁.policy) (hle : r₁.lastTime ≤ r₂.lastTime) {time : UInt64}
    (h : r₂.live time = true) : r₁.live time = true := by
  have hsub : ∀ now : UInt64, (saturatingSub now time).toNat = now.toNat - time.toNat := fun now => by
    simpa only [toNat_uInt64] using toNat_saturatingSub (a := now) (b := time)
  rw [UInt64.le_iff_toNat_le] at hle
  rw [live, decide_eq_true_eq, UInt64.lt_iff_toNat_lt, hsub] at h ⊢
  rw [← hpolicy]
  omega

theorem filter_live_filter {r₂ r₁ : Registry crypto} (hpolicy : r₂.policy = r₁.policy) (hle : r₁.lastTime ≤ r₂.lastTime)
    (times : List UInt64) : (times.filter r₁.live).filter r₂.live = times.filter r₂.live := by
  rw [List.filter_filter]
  refine List.filter_congr fun time _ => ?_
  cases hlive : r₂.live time with
  | false => rfl
  | true => rw [live_of_live hpolicy hle hlive]; rfl

theorem Holds.trans {r₃ r₂ r₁ : Registry crypto} (hpolicy : r₃.policy = r₂.policy) (hle : r₂.lastTime ≤ r₃.lastTime)
    (h : r₃.Holds r₂) (h' : r₂.Holds r₁) : r₃.Holds r₁ where
  controls owner chain hchain := by
    obtain ⟨next, hnext, hprefix⟩ := h'.controls owner chain hchain
    obtain ⟨last, hlast, hprefix'⟩ := h.controls owner next hnext
    exact ⟨last, hlast, hprefix.trans hprefix'⟩
  rooms slug room hroom := by
    obtain ⟨next, hnext, hrecord, hcreated, hprefix⟩ := h'.rooms slug room hroom
    obtain ⟨last, hlast, hrecord', hcreated', hprefix'⟩ := h.rooms slug next hnext
    exact ⟨last, hlast, hrecord'.trans hrecord, hcreated'.trans hcreated, hprefix.trans hprefix'⟩
  evidence id e he := h.evidence id e (h'.evidence id e he)
  support key hkey := h.support key (h'.support key hkey)
  accounts owner account haccount := by
    obtain ⟨next, hnext, hearned, hspent, hslots⟩ := h'.accounts owner account haccount
    obtain ⟨last, hlast, hearned', hspent', hslots'⟩ := h.accounts owner next hnext
    exact ⟨last, hlast, UInt64.le_trans hearned hearned', UInt64.le_trans hspent hspent', UInt32.le_trans hslots hslots'⟩
  rotations height members hmembers := h.rotations height members (h'.rotations height members hmembers)
  windows owner := by
    have hprefix := (h'.windows owner).filter r₃.live
    rw [filter_live_filter hpolicy hle, filter_live_filter hpolicy hle] at hprefix
    exact hprefix.trans (h.windows owner)

theorem AddsEvidence.trans {r₃ r₂ r₁ : Registry crypto} (h : r₃.AddsEvidence r₂) (h' : r₂.AddsEvidence r₁) : r₃.AddsEvidence r₁ where
  lastTime := h.lastTime.trans h'.lastTime
  eligible := h.eligible.trans h'.eligible
  support := h.support.trans h'.support
  accounts := h.accounts.trans h'.accounts
  windows := h.windows.trans h'.windows
  records := h.records.trans h'.records
  rooms := h.rooms.trans h'.rooms
  more := Nat.lt_trans h'.more h.more
  counted id e he := h'.support ▸ h.counted id e he

theorem Extends.trans {r₃ r₂ r₁ : Registry crypto} (h : r₃.Extends r₂) (h' : r₂.Extends r₁) : r₃.Extends r₁ := by
  have hboth : r₃.revision = r₁.revision → r₃.revision = r₂.revision ∧ r₂.revision = r₁.revision := fun heq => by
    have hle := h.revision
    have hle' := h'.revision
    rw [heq] at hle
    have heq' : r₂.revision = r₁.revision := UInt64.le_antisymm hle hle'
    exact ⟨heq.trans heq'.symm, heq'⟩
  refine ⟨h.directory.trans h'.directory, h.realm.trans h'.realm, h.policy.trans h'.policy, UInt64.le_trans h'.revision h.revision,
    UInt64.le_trans h'.lastTime h.lastTime, h.holds.trans h.policy h.lastTime h'.holds, fun heq => ?_, fun heq slug room last hroom hlast => ?_⟩
  · obtain ⟨hsame, hsame'⟩ := hboth heq
    exact (h.same hsame).trans (h'.same hsame')
  · obtain ⟨hsame, hsame'⟩ := hboth heq
    obtain ⟨next, hnext, -⟩ := h'.holds.rooms slug room hroom
    exact (h.lengths hsame slug next last hnext hlast).trans (h'.lengths hsame' slug room next hroom hnext)

/-! ### Operations -/

theorem Holds.refl (r : Registry crypto) : r.Holds r :=
  ⟨fun _ chain h => ⟨chain, h, List.prefix_rfl⟩, fun _ room h => ⟨room, h, rfl, rfl, List.prefix_rfl⟩, fun _ _ h => h, fun _ h => h,
    fun _ account h => ⟨account, h, UInt64.le_refl _, UInt64.le_refl _, UInt32.le_refl _⟩, fun _ _ h => h, fun _ => List.prefix_rfl⟩

end Registry

theorem Effect.holds {r r' : Registry crypto} {call : Call crypto} {result : Option Applied} (h : Effect r call result r')
    (revision : UInt64) : (r'.finished call.now revision).Holds r := by
  have hrefl := Registry.Holds.refl r
  cases h with
  | @control record view now control sequence body admission check accepts next =>
    refine ⟨fun owner chain hchain => ?_, hrefl.rooms, hrefl.evidence, hrefl.support, hrefl.accounts, hrefl.rotations,
      fun _ => List.prefix_rfl⟩
    show ∃ next, (r.authority.pushed record control sequence).chains[owner]? = some next ∧ _
    rw [RoomAuthority.getElem?_pushed]
    split
    · rename_i ho
      have hsame : r.authority.chain control.owner = chain := by rw [ho, RoomAuthority.chain, hchain]; rfl
      exact ⟨_, rfl, hsame ▸ List.prefix_append _ _⟩
    · exact ⟨chain, hchain, List.prefix_rfl⟩
  | existing =>
    exact ⟨hrefl.controls, hrefl.rooms, hrefl.evidence, hrefl.support, hrefl.accounts, hrefl.rotations, fun _ => List.prefix_rfl⟩
  | @created record view now intent genesis account body hgenesis fresh check rate =>
    have hcheck := Registry.creates check
    refine ⟨hrefl.controls, fun slug room hroom => ⟨room, ?_, rfl, rfl, List.prefix_rfl⟩, hrefl.evidence, hrefl.support,
      fun owner old hold => ?_, hrefl.rotations, fun owner => ?_⟩
    · show (r.rooms.insert intent.slug _)[slug]? = some room
      rw [Maps.getElem?_insert, if_neg, hroom]
      rintro rfl
      rw [hcheck.fresh] at hroom
      cases hroom
    · show ∃ next, (r.accounts.insert intent.owner account)[owner]? = some next ∧ _
      rw [Maps.getElem?_insert]
      split
      · rename_i ho
        have hsame : r.account intent.owner = old := by rw [ho, Registry.account, hold]; rfl
        have hspent := hcheck.spent
        have hslot := hcheck.slot
        rw [hsame] at hspent hslot
        refine ⟨account, rfl, ?_, ?_, ?_⟩
        · rw [hcheck.earned, hsame]
          exact UInt64.le_refl _
        · rw [UInt64.le_iff_toNat_le, hspent]
          exact Nat.le_add_right _ _
        · rw [UInt32.le_iff_toNat_le, hcheck.lifetimeSlots, hslot]
          exact Nat.le_succ _
      · exact ⟨old, hold, UInt64.le_refl _, UInt64.le_refl _, UInt32.le_refl _⟩
    · rw [Registry.window_finished, Registry.window_addRoom]
      have hlive : ∀ time, r.expired now time = true →
          (((r.pruneWindow intent.owner now).addRoom record genesis intent account now).finished
            (Call.apply record view now).now revision).live time = false :=
        fun time hexpired => by
          rw [Registry.expired, decide_eq_true_eq] at hexpired
          exact decide_eq_false_iff_not.2 (UInt64.not_lt.2 hexpired)
      split
      · rename_i ho
        rw [List.filter_append, Rate.filter_dropWhile hlive, ho]
        exact List.prefix_append _ _
      · exact List.prefix_rfl
  | @updated record view now edit slug room body check =>
    have hcheck := Registry.updates check
    refine ⟨hrefl.controls, fun slug' room' hroom => ?_, hrefl.evidence, hrefl.support, hrefl.accounts, hrefl.rotations,
      fun _ => List.prefix_rfl⟩
    show ∃ next, (r.rooms.insert slug (room.revise record edit.action))[slug']? = some next ∧ _
    rw [Maps.getElem?_insert]
    split
    · rename_i hslug
      rw [← hslug, hcheck.found] at hroom
      cases hroom
      exact ⟨_, rfl, rfl, rfl, List.prefix_append _ _⟩
    · exact ⟨room', hroom, rfl, rfl, List.prefix_rfl⟩
  | @awarded record view now award account fresh evidence new check =>
    have hcheck := Registry.awards check
    refine ⟨hrefl.controls, hrefl.rooms, fun id e he => ?_, fun key hkey => ?_, fun owner old hold => ?_, hrefl.rotations,
      fun _ => List.prefix_rfl⟩
    · show (r.evidence.insert record.id ⟨award, record⟩)[id]? = some e
      rw [Maps.getElem?_insert, if_neg, he]
      rintro rfl
      rw [Std.ExtTreeMap.contains_eq_isSome_getElem?, he] at fresh
      cases fresh
    · show (r.support.insert award.key).contains key = true
      rw [Std.ExtTreeSet.contains_insert, hkey, Bool.or_true]
    · show ∃ next, (r.accounts.insert award.beneficiary account)[owner]? = some next ∧ _
      rw [Maps.getElem?_insert]
      split
      · rename_i ho
        have hsame : r.account award.beneficiary = old := by rw [ho, Registry.account, hold]; rfl
        have hearned := hcheck.earned
        rw [hsame] at hearned
        refine ⟨account, rfl, ?_, ?_, ?_⟩
        · rw [UInt64.le_iff_toNat_le, hearned]
          exact Nat.le_succ _
        · rw [hcheck.spent, hsame]
          exact UInt64.le_refl _
        · rw [hcheck.lifetimeSlots, hsame]
          exact UInt32.le_refl _
      · exact ⟨old, hold, UInt64.le_refl _, UInt64.le_refl _, UInt32.le_refl _⟩
  | eligible =>
    exact ⟨hrefl.controls, hrefl.rooms, hrefl.evidence, hrefl.support, hrefl.accounts, hrefl.rotations, fun _ => List.prefix_rfl⟩
  | @rotation fromHeight validators now check =>
    refine ⟨hrefl.controls, hrefl.rooms, hrefl.evidence, hrefl.support, hrefl.accounts, fun height members hmembers => ?_,
      fun _ => List.prefix_rfl⟩
    have hcontains : r.validatorSchedule.contains height = true := by
      rw [Std.ExtTreeMap.contains_eq_isSome_getElem?, hmembers]
      rfl
    have hlater := (Registry.rotates check).later height hcontains
    show (r.validatorSchedule.insert fromHeight (Ascending.sorted compare validators))[height]? = some members
    rw [Maps.getElem?_insert, if_neg, hmembers]
    rintro rfl
    exact absurd hlater (UInt64.lt_irrefl _)

theorem Effect.frame {r r' : Registry crypto} {call : Call crypto} {result : Option Applied} (h : Effect r call result r') :
    r'.directory = r.directory ∧ r'.realm = r.realm ∧ r'.policy = r.policy := by
  cases h <;> exact ⟨rfl, rfl, rfl⟩

theorem Registry.extends_addEvidence {r : Registry crypto} (hsound : r.Sound) {record : Social.VerifiedRecord crypto}
    {award : SupportAward} (hfresh : r.evidence.contains record.id = false) (hold : r.support.contains award.key = true) :
    (r.addEvidence record award).Extends r := by
  have hrefl := Registry.Holds.refl r
  have hnone : r.evidence[record.id]? = none := by
    rwa [Std.ExtTreeMap.contains_eq_isSome_getElem?, Option.isSome_eq_false_iff, Option.isNone_iff_eq_none] at hfresh
  have hget : ∀ id : RecordId, (r.addEvidence record award).evidence[id]? =
      if record.id = id then some ⟨award, record⟩ else r.evidence[id]? := fun id => Maps.getElem?_insert
  have hsize : (r.addEvidence record award).evidence.size = r.evidence.size + 1 := Maps.size_insert_new hnone
  refine ⟨rfl, rfl, rfl, UInt64.le_refl _, UInt64.le_refl _, ⟨hrefl.controls, hrefl.rooms, fun id e he => ?_, hrefl.support,
    hrefl.accounts, hrefl.rotations, fun _ => List.prefix_rfl⟩, fun _ => ⟨rfl, rfl, rfl, rfl, rfl, rfl, rfl, ?_, fun id e he => ?_⟩,
    fun _ slug room next hroom hnext => ?_⟩
  · rw [hget, if_neg, he]
    rintro rfl
    rw [hnone] at he
    cases he
  · rw [hsize]
    exact Nat.lt_succ_self _
  · rw [hget] at he
    split at he
    · cases he
      exact hold
    · exact hsound.evidence id e he
  · have hsame : r.rooms[slug]? = some next := hnext
    rw [hroom] at hsame
    cases hsame
    rfl

theorem Registry.Sound.extends_after {r : Registry crypto} (hsound : r.Sound) (hcounts : r.Counts) {call : Call crypto}
    (hfounded : ¬ call.Enters r) : r.after call = r ∨ (r.after call).Extends r := by
  have houtcome := hsound.outcome call
  unfold Registry.after
  generalize (exec call.run r).1 = result at houtcome
  generalize (exec call.run r).2 = r' at houtcome
  cases houtcome with
  | refused => exact .inl rfl
  | @entered e record view now control hcall enters =>
    subst hcall
    exact absurd ⟨control, enters⟩ hfounded
  | known => exact .inl rfl
  | duplicate hcall clock fresh evidence old => exact .inr (Registry.extends_addEvidence hsound fresh old)
  | @applied r' result revision clock effect next =>
    obtain ⟨hdirectory, hrealm, hpolicy⟩ := effect.frame
    have hne : revision ≠ r.revision := fun heq => by
      rw [heq] at next
      omega
    refine .inr ⟨hdirectory, hrealm, hpolicy, ?_, UInt64.not_lt.1 clock, effect.holds revision, fun heq => absurd heq hne,
      fun heq => absurd heq hne⟩
    show r.revision ≤ revision
    rw [UInt64.le_iff_toNat_le, next]
    exact Nat.le_succ _
  | exhausted clock effect full => exact absurd hcounts full

/-! ### Runs -/

def Registry.afterAll (r : Registry crypto) (calls : List (Call crypto)) : Registry crypto := calls.foldl after r

/-- No operation of a run is behind the last revision or leaves an empty chain. -/
def Registry.Founded (r : Registry crypto) : List (Call crypto) → Prop
  | [] => True
  | call :: calls => r.Counts ∧ ¬ call.Enters r ∧ (r.after call).Founded calls

theorem Registry.Reachable.extends_afterAll {r : Registry crypto} (hr : r.Reachable) {calls : List (Call crypto)}
    (h : r.Founded calls) : r.afterAll calls = r ∨ (r.afterAll calls).Extends r := by
  induction calls generalizing r with
  | nil => exact .inl rfl
  | cons call calls ih =>
    obtain ⟨hcounts, hfounded, hrest⟩ := h
    obtain hsame | hfirst := hr.sound.extends_after hcounts hfounded
    · show (r.after call).afterAll calls = r ∨ ((r.after call).afterAll calls).Extends r
      rw [hsame] at hrest ⊢
      exact ih hr hrest
    · obtain hsame | hlater := ih (hr.step call) hrest
      · exact .inr (hsame.symm ▸ hfirst)
      · exact .inr (hlater.trans hfirst)

/-- The guard accepts what runs lead to, composes, and lets nothing go that was held. -/
theorem guard_follows_runs :
    (∀ (r : Registry crypto) (calls : List (Call crypto)), r.Reachable → r.Founded calls → (r.afterAll calls).snapshot ≠ r.snapshot →
      (r.afterAll calls).isExtensionOf r = true) ∧
    (∀ r₃ r₂ r₁ : Registry crypto, r₃.isExtensionOf r₂ = true → r₂.isExtensionOf r₁ = true → r₃.isExtensionOf r₁ = true) ∧
    ∀ r previous : Registry crypto, r.isExtensionOf previous = true → r.Holds previous := by
  refine ⟨fun r calls hr hfounded hchanged => ?_, fun r₃ r₂ r₁ h h' => ?_, fun r previous h => ?_⟩
  · obtain hsame | hextends := hr.extends_afterAll hfounded
    · exact absurd (congrArg Registry.snapshot hsame) hchanged
    · exact Registry.isExtensionOf_iff.2 hextends
  · exact Registry.isExtensionOf_iff.2 ((Registry.isExtensionOf_iff.1 h).trans (Registry.isExtensionOf_iff.1 h'))
  · exact (Registry.isExtensionOf_iff.1 h).holds

theorem sample_guard_accepts : (sampleStart.afterAll [.setEligible [sampleRevocation.owner] 7]).isExtensionOf sampleStart = true := by
  have hchanged : (sampleStart.afterAll [.setEligible [sampleRevocation.owner] 7]).snapshot ≠ sampleStart.snapshot := by decide +kernel
  exact guard_follows_runs.1 sampleStart _ sampleStart_reachable ⟨sampleStart_counts, id, trivial⟩ hchanged

/-- The refused revocation changes the snapshot, and the guard refuses it. -/
theorem sample_guard_refuses : sampleStart.Reachable ∧
    (sampleStart.afterAll [.apply sampleRecord (sampleView 0) 0]).snapshot ≠ sampleStart.snapshot ∧
      (sampleStart.afterAll [.apply sampleRecord (sampleView 0) 0]).isExtensionOf sampleStart = false := by
  have hafter : sampleStart.afterAll [.apply sampleRecord (sampleView 0) 0] =
      { sampleStart with authority := sampleStart.authority.entry sampleRevocation.owner } := by
    rw [Registry.afterAll, List.foldl_cons, List.foldl_nil]
    exact sampleRecord_enters.after sampleStart_reachable.sound
  refine ⟨sampleStart_reachable, fun hsame => ?_, ?_⟩
  · have hlen := sampleRecord_enters.length_snapshot
    rw [← hafter, hsame] at hlen
    omega
  · rw [hafter, Bool.eq_false_iff]
    intro h
    have hmore := ((Registry.isExtensionOf_iff.1 h).same rfl).more
    exact absurd hmore (Nat.lt_irrefl _)

end Valhalla.Rooms
