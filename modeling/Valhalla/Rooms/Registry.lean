import Valhalla.Lib.Ascending
import Valhalla.Rooms.Authority

/-!
# The room registry (`registry.rs`, `awards.rs` of `vhalla-rooms`)

Sequential directory state over verified records: control chains, mature awards, and the rules on slugs, slots,
charges, credits and rates. Every operation changes the state in the order of the source, and an error leaves it
as it was at that moment.
-/

namespace Valhalla.Rooms
open Fallible FixedWidth Check
open Social (OwnerId AgentId RecordId ControlView)

def maxRooms : Nat := 4096
def maxSupport : Nat := 8192
def maxRotations : Nat := 64
def maxRevisions : Nat := 256

/-! ### Awards -/

inductive AwardDenial
  | notSupport | notCommitted | unknownPost | notPost | postNotCommitted | selfSupport | ineligible | epoch
deriving DecidableEq, Repr

structure SupportAward where
  sourceOwner : OwnerId
  beneficiary : OwnerId
  activityEpoch : UInt64
  evidenceId : RecordId
deriving DecidableEq

def upReaction : Social.Body → Except AwardDenial (Social.Actor × RecordId)
  | .social actor _ _ _ (.react post (.up _) _) => .ok (actor, post)
  | _ => .error .notSupport

def originalPost : Social.Body → Except AwardDenial Social.Actor
  | .social actor _ _ _ (.post ..) => .ok actor
  | .social actor _ _ _ (.postFaceted ..) => .ok actor
  | _ => .error .notPost

def assessSupport {crypto : Crypto} (record : Social.VerifiedRecord crypto) (view : ControlView)
    (eligible : Std.ExtTreeSet OwnerId compare) (epochSeconds acceptedAt now : UInt64) : Except AwardDenial SupportAward := do
  require .epoch !(epochSeconds == 0 || decide (acceptedAt > now))
  require .notCommitted (view.socialStatus record.id == .committed)
  let (actor, post) ← upReaction record.body
  let body ← okOr .unknownPost (view.evidence.body post)
  let postActor ← originalPost body
  require .postNotCommitted (view.socialStatus post == .committed)
  require .selfSupport !(actor.ownerOf == postActor.ownerOf)
  require .ineligible (eligible.contains actor.ownerOf)
  pure ⟨actor.ownerOf, postActor.ownerOf, acceptedAt / epochSeconds, record.id⟩

/-! ### Policy -/

inductive RegistryError
  | bounds | authority (denial : Denial) | award (denial : AwardDenial) | wrongPolicy | taken | slot | cost
  | insufficientCredit | rateLimit | missing | ownerMismatch | staleRevision | archived | capacity | clock | corrupt
deriving DecidableEq, Repr

structure DirectoryPolicy where
  baseCost : UInt64
  windowSeconds : UInt64
  maxInWindow : UInt16
  supportEpochSeconds : UInt64
  maxLifetimeRooms : UInt32
deriving DecidableEq

namespace DirectoryPolicy
variable (policy : DirectoryPolicy)

def bytes : List UInt8 :=
  toBe policy.baseCost ++ (toBe policy.windowSeconds ++ (toBe policy.maxInWindow ++ (toBe policy.supportEpochSeconds ++
    toBe policy.maxLifetimeRooms)))

def domain : List UInt8 := "vhalla/rooms/directory-policy/v1\x00".toUTF8.toList

def id (crypto : Crypto) : PolicyId := ⟨crypto.sha256 (domain ++ policy.bytes)⟩

/-- The price of slot `n` is `baseCost * n²`. -/
def cost (slot : UInt32) : Except RegistryError UInt64 := do
  require .slot !(slot == 0 || decide (slot > policy.maxLifetimeRooms))
  okOr .cost ((checkedMul policy.baseCost slot.toUInt64).bind fun v => checkedMul v slot.toUInt64)

def validate : Except RegistryError Unit := do
  require .bounds !(policy.baseCost == 0 || policy.windowSeconds == 0 || policy.maxInWindow == 0 ||
    decide (policy.maxInWindow.toNat > maxRooms) || policy.supportEpochSeconds == 0 || policy.maxLifetimeRooms == 0 ||
    decide (policy.maxLifetimeRooms.toNat > maxRooms))
  let _ ← policy.cost policy.maxLifetimeRooms
  pure ()

end DirectoryPolicy

/-! ### State -/

structure Account where
  earned : UInt64 := 0
  spent : UInt64 := 0
  lifetimeSlots : UInt32 := 0
deriving DecidableEq

structure Room (crypto : Crypto) where
  genesis : RoomGenesisId
  intent : CreationIntent
  description : Description
  head : RoomRecordId
  createdAt : UInt64
  archived : Bool
  record : VerifiedRecord crypto
  revisions : List (VerifiedRecord crypto)
deriving DecidableEq

/-- A dedup key of awards: `(beneficiary, source, epoch)`. -/
structure Support where
  beneficiary : OwnerId
  source : OwnerId
  epoch : UInt64
deriving DecidableEq

namespace Support

instance : Ord Support := ⟨compareLex (compareOn beneficiary) (compareLex (compareOn source) (compareOn epoch))⟩

instance transCmp : Std.TransCmp (compare : Support → Support → Ordering) :=
  inferInstanceAs (Std.TransCmp (compareLex (compareOn beneficiary) (compareLex (compareOn source) (compareOn epoch))))

instance lawfulEqCmp : Std.LawfulEqCmp (compare : Support → Support → Ordering) where
  eq_of_compare {a b} h := by
    have hthen : compare a b = (compare a.beneficiary b.beneficiary).then
        ((compare a.source b.source).then (compare a.epoch b.epoch)) := rfl
    rw [hthen, Ordering.then_eq_eq, Ordering.then_eq_eq] at h
    obtain ⟨hbeneficiary, hsource, hepoch⟩ := h
    obtain ⟨beneficiary, source, epoch⟩ := a
    cases (Std.LawfulEqCmp.eq_of_compare hbeneficiary : beneficiary = b.beneficiary)
    cases (Std.LawfulEqCmp.eq_of_compare hsource : source = b.source)
    cases (Std.LawfulEqCmp.eq_of_compare hepoch : epoch = b.epoch)
    rfl

end Support

def SupportAward.key (award : SupportAward) : Support := ⟨award.beneficiary, award.sourceOwner, award.activityEpoch⟩

structure Evidence (crypto : Crypto) where
  award : SupportAward
  record : Social.VerifiedRecord crypto
deriving DecidableEq

structure Registry (crypto : Crypto) where
  directory : DirectoryId
  realm : RealmId
  policy : DirectoryPolicy
  authority : RoomAuthority crypto
  eligible : Std.ExtTreeSet OwnerId compare
  support : Std.ExtTreeSet Support compare := ∅
  evidence : Std.ExtTreeMap RecordId (Evidence crypto) compare := ∅
  accounts : Std.ExtTreeMap OwnerId Account compare := ∅
  windows : Std.ExtTreeMap OwnerId (List UInt64) compare := ∅
  rooms : Std.ExtTreeMap Slug (Room crypto) compare := ∅
  byGenesis : Std.ExtTreeMap RoomGenesisId Slug compare := ∅
  validatorSchedule : Std.ExtTreeMap UInt64 (List ValidatorMember) compare := ∅
  lastTime : UInt64 := 0
  revision : UInt64 := 0

/-- What an operation changed. -/
inductive Applied
  | control
  | created (genesis : RoomGenesisId)
  | existing (genesis : RoomGenesisId)
  | updated (record : RoomRecordId)
  | awarded
  | duplicateAward
deriving DecidableEq

variable {crypto : Crypto}

def collect (owners : List OwnerId) : Std.ExtTreeSet OwnerId compare := Maps.insertKeys ∅ owners

namespace Registry

def new (directory : DirectoryId) (realm : RealmId) (policy : DirectoryPolicy) (eligible : List OwnerId) :
    Except RegistryError (Registry crypto) := do
  policy.validate
  require .capacity !decide (eligible.length > maxOwners)
  pure { directory, realm, policy, authority := .new directory realm, eligible := collect eligible }

variable (r : Registry crypto)

def account (owner : OwnerId) : Account := r.accounts[owner]?.getD {}

/-- `windows.entry(owner).or_default()`. -/
def window (owner : OwnerId) : List UInt64 := r.windows[owner]?.getD []

def expired (now : UInt64) (time : UInt64) : Bool := decide (saturatingSub now time ≥ r.policy.windowSeconds)

def pruneWindow (owner : OwnerId) (now : UInt64) : Registry crypto :=
  { r with windows := r.windows.insert owner ((r.window owner).dropWhile (r.expired now)) }

end Registry

abbrev RegistryM (crypto : Crypto) := Fallible RegistryError (Registry crypto)

def onAuthority {α : Type} (m : Fallible Denial (RoomAuthority crypto) α) : RegistryM crypto α :=
  of fun r => ((exec m r.authority).1.mapError .authority, { r with authority := (exec m r.authority).2 })

/-- The clock and the number of applied transitions. -/
def finish (now : UInt64) : RegistryM crypto Unit := do
  update fun r => { r with lastTime := now }
  let revision ← examine fun r => okOr .capacity (checkedAdd r.revision 1)
  update fun r => { r with revision }

def checkClock (now : UInt64) : RegistryM crypto Unit := examine fun r => require .clock !decide (now < r.lastTime)

/-! ### Rooms -/

namespace Registry
variable (r : Registry crypto)

/-- What `create` checks before the window; the account that it leads to. -/
def checkCreate (intent : CreationIntent) (view : ControlView) (now : UInt64) : Except RegistryError Account := do
  require .wrongPolicy (intent.policy == r.policy.id crypto)
  (r.authority.assessCreation intent view now).mapError .authority
  require .taken !r.rooms.contains intent.slug
  require .capacity !decide (r.rooms.size ≥ maxRooms)
  require .capacity !(!r.accounts.contains intent.owner && decide (r.accounts.size ≥ maxOwners))
  let slot ← okOr .slot (checkedAdd (r.account intent.owner).lifetimeSlots 1)
  require .slot (intent.slot == slot)
  let cost ← r.policy.cost slot
  require .cost (intent.charge == cost)
  let spent ← okOr .cost (checkedAdd (r.account intent.owner).spent intent.charge)
  require .insufficientCredit !decide (spent > (r.account intent.owner).earned)
  pure { r.account intent.owner with spent, lifetimeSlots := slot }

def addRoom (record : VerifiedRecord crypto) (genesis : RoomGenesisId) (intent : CreationIntent) (account : Account)
    (now : UInt64) : Registry crypto :=
  { r with
    windows := r.windows.insert intent.owner (r.window intent.owner ++ [now])
    rooms := r.rooms.insert intent.slug
      ⟨genesis, intent, intent.description, record.id, now, false, record, []⟩
    byGenesis := r.byGenesis.insert genesis intent.slug
    accounts := r.accounts.insert intent.owner account }

def checkUpdate (update : RoomUpdate) (view : ControlView) (now : UInt64) : Except RegistryError (Slug × Room crypto) := do
  (r.authority.assessUpdate update view now).mapError .authority
  let slug ← okOr .missing r.byGenesis[update.genesis]?
  let room ← okOr .missing r.rooms[slug]?
  require .archived !room.archived
  require .ownerMismatch (room.intent.owner == update.owner)
  require .staleRevision (room.head == update.previous)
  require .capacity !decide (room.revisions.length ≥ maxRevisions)
  pure (slug, room)

end Registry

def Room.revise (room : Room crypto) (record : VerifiedRecord crypto) (action : UpdateAction) : Room crypto :=
  { room with
    description := match action with
      | .describe text => text
      | _ => room.description
    archived := match action with
      | .archive => true
      | _ => room.archived
    head := record.id
    revisions := room.revisions ++ [record] }

def create (record : VerifiedRecord crypto) (intent : CreationIntent) (view : ControlView) (now : UInt64) :
    RegistryM crypto Applied := do
  let genesis ← examine fun _ => okOr .bounds record.genesisId
  if ← Fallible.view fun r => r.byGenesis.contains genesis then
    pure (.existing genesis)
  else do
    let account ← examine fun r => r.checkCreate intent view now
    update fun r => r.pruneWindow intent.owner now
    examine fun r => require .rateLimit !decide ((r.window intent.owner).length ≥ r.policy.maxInWindow.toNat)
    update fun r => r.addRoom record genesis intent account now
    pure (.created genesis)

def applyUpdate (record : VerifiedRecord crypto) (edit : RoomUpdate) (view : ControlView) (now : UInt64) :
    RegistryM crypto Applied := do
  let (slug, room) ← examine fun r => r.checkUpdate edit view now
  update fun r => { r with rooms := r.rooms.insert slug (room.revise record edit.action) }
  pure (.updated record.id)

/-- The part of `apply` that depends on the kind of the record. -/
def applyBody (record : VerifiedRecord crypto) (view : ControlView) (now : UInt64) : RegistryM crypto Applied :=
  match record.body with
  | .control _ => do
    onAuthority (admitControl record view now)
    pure .control
  | .create intent => create record intent view now
  | .update edit => applyUpdate record edit view now

/-- `Registry::apply`. -/
def applyRecord (record : VerifiedRecord crypto) (view : ControlView) (now : UInt64) : RegistryM crypto Applied := do
  checkClock now
  let applied ← applyBody record view now
  finish now
  pure applied

/-! ### Awards and configuration -/

namespace Registry
variable (r : Registry crypto)

def checkAward (award : SupportAward) : Except RegistryError Account := do
  require .capacity !decide (r.support.size ≥ maxSupport)
  require .capacity !(!r.accounts.contains award.beneficiary && decide (r.accounts.size ≥ maxOwners))
  let earned ← okOr .cost (checkedAdd (r.account award.beneficiary).earned 1)
  pure { r.account award.beneficiary with earned }

def checkEvidence (record : Social.VerifiedRecord crypto) (view : ControlView) (now : UInt64) :
    Except RegistryError SupportAward := do
  let award ← (assessSupport record view r.eligible r.policy.supportEpochSeconds now now).mapError .award
  require .capacity !decide (r.evidence.size ≥ maxSupport)
  pure award

def addEvidence (record : Social.VerifiedRecord crypto) (award : SupportAward) : Registry crypto :=
  { r with evidence := r.evidence.insert record.id ⟨award, record⟩ }

def addAward (record : Social.VerifiedRecord crypto) (award : SupportAward) (account : Account) : Registry crypto :=
  { r.addEvidence record award with
    support := r.support.insert award.key
    accounts := r.accounts.insert award.beneficiary account }

end Registry

def award (record : Social.VerifiedRecord crypto) (view : ControlView) (now : UInt64) : RegistryM crypto Applied := do
  checkClock now
  if ← Fallible.view fun r => r.evidence.contains record.id then
    pure .duplicateAward
  else do
    let award ← examine fun r => r.checkEvidence record view now
    if ← Fallible.view fun r => r.support.contains award.key then do
      update fun r => r.addEvidence record award
      pure .duplicateAward
    else do
      let account ← examine fun r => r.checkAward award
      update fun r => r.addAward record award account
      finish now
      pure .awarded

def setEligible (eligible : List OwnerId) (now : UInt64) : RegistryM crypto Unit := do
  checkClock now
  examine fun _ => require .capacity !decide (eligible.length > maxOwners)
  update fun r => { r with eligible := collect eligible }
  finish now

def checkMember (crypto : Crypto) (invalid overflow : RegistryError) (acc : List Bytes32 × UInt64) (member : ValidatorMember) :
    Except RegistryError (List Bytes32 × UInt64) := do
  require invalid !(member.power == 0 || acc.1.contains member.key || !crypto.decodesKey member.key)
  let total ← okOr overflow ((checkedAdd acc.2 member.power).filter fun total => decide (total.toNat ≤ (2 ^ 64 - 1) / 3))
  pure (member.key :: acc.1, total)

def checkMembers (crypto : Crypto) (invalid overflow : RegistryError) (members : List ValidatorMember) :
    Except RegistryError Unit := do
  let _ ← members.foldlM (checkMember crypto invalid overflow) ([], 0)
  pure ()

/-- The last activation that was decided. -/
def Registry.latest (r : Registry crypto) : Option UInt64 := r.validatorSchedule.maxKey?

def Registry.checkRotation (r : Registry crypto) (fromHeight : UInt64) (validators : List ValidatorMember) :
    Except RegistryError Unit := do
  require .bounds !r.latest.any fun latest => decide (fromHeight ≤ latest)
  require .capacity !(validators.isEmpty || decide (validators.length > maxValidators) ||
    decide (r.validatorSchedule.size ≥ maxRotations))
  checkMembers crypto .bounds .cost validators

def applyRotation (fromHeight : UInt64) (validators : List ValidatorMember) (now : UInt64) : RegistryM crypto Unit := do
  checkClock now
  examine fun r => r.checkRotation fromHeight validators
  update fun r => { r with
    validatorSchedule := r.validatorSchedule.insert fromHeight (Ascending.sorted compare validators) }
  finish now

end Valhalla.Rooms

/-!
## Snapshots of the registry (`registry.rs` of `vhalla-rooms`)

The bytes behind a restart. Everything that is derived from the records is left out and rebuilt.
-/

namespace Valhalla.Rooms
open Fallible FixedWidth
open Social (OwnerId AgentId RecordId)

variable {crypto : Crypto}

structure PublicActivityPolicy where
  record : RoomRecordId
  network : Bytes32
  enabled : Bool
deriving DecidableEq

def activityPolicy (record : VerifiedRecord crypto) : Option PublicActivityPolicy :=
  match record.body with
  | .update edit =>
    match edit.action with
    | .setPublicActivityPolicy network enabled => some ⟨record.id, network, enabled⟩
    | _ => none
  | _ => none

def Room.publicActivityPolicy (room : Room crypto) : Option PublicActivityPolicy := room.revisions.reverse.findSome? activityPolicy

/-- `VRSN` and a version. -/
def versioned (version : UInt8) : List UInt8 := "VRSN".toUTF8.toList ++ [0, 0, 0, version]

def snapshotMagic : List UInt8 := versioned 1
def snapshotMagicPublicActivity : List UInt8 := versioned 2
def snapshotMagicSchedule : List UInt8 := versioned 3

def snapshotDomain : List UInt8 := "vhalla/rooms/registry-snapshot/v1\x00".toUTF8.toList

def checksum (crypto : Crypto) (payload : List UInt8) : Bytes32 := crypto.sha256 (snapshotDomain ++ payload)

/-! ### Sections -/

/-- Bytes behind their number (`bytes_len`). -/
def putBlob (raw : List UInt8) : List UInt8 := putSize raw.length ++ raw

def putRecord (record : VerifiedRecord crypto) : List UInt8 := putBlob record.encode

def putHistory (h : OwnerId × List (VerifiedRecord crypto)) : List UInt8 := h.1.bytes.toList ++ putCounted putRecord h.2

def putRoom (room : Room crypto) : List UInt8 :=
  putRecord room.record ++ (toBe room.createdAt ++ putCounted putRecord room.revisions)

def putAccount (a : OwnerId × Account) : List UInt8 :=
  a.1.bytes.toList ++ (toBe a.2.earned ++ (toBe a.2.spent ++ toBe a.2.lifetimeSlots))

def putWindow (w : OwnerId × List UInt64) : List UInt8 := w.1.bytes.toList ++ putCounted toBe w.2

def putEvidence (e : Evidence crypto) : List UInt8 :=
  e.award.sourceOwner.bytes.toList ++ (e.award.beneficiary.bytes.toList ++ (toBe e.award.activityEpoch ++ putBlob e.record.encode))

def putMember (member : ValidatorMember) : List UInt8 := member.key.toList ++ toBe member.power

def putRotation (s : UInt64 × List ValidatorMember) : List UInt8 := toBe s.1 ++ putCounted putMember s.2

namespace Registry
variable (r : Registry crypto)

def snapshotMagic : List UInt8 :=
  if !r.validatorSchedule.isEmpty then snapshotMagicSchedule
  else if r.rooms.toList.any (·.2.publicActivityPolicy.isSome) then snapshotMagicPublicActivity
  else Rooms.snapshotMagic

def putSchedule : List UInt8 :=
  if !r.validatorSchedule.isEmpty then putCounted putRotation r.validatorSchedule.toList else []

def payload : List UInt8 :=
  r.directory.bytes.toList ++ (toBe r.realm.value ++ (r.policy.bytes ++ (toBe r.lastTime ++ (toBe r.revision ++
    (putCounted (fun owner => owner.bytes.toList) r.eligible.toList ++ (putCounted putHistory r.authority.histories ++
      (putCounted putRoom (r.rooms.toList.map Prod.snd) ++ (putCounted putAccount r.accounts.toList ++
        (putCounted putWindow r.windows.toList ++ (putCounted putEvidence (r.evidence.toList.map Prod.snd) ++
          r.putSchedule))))))))))

def snapshot : List UInt8 := r.snapshotMagic ++ (r.payload ++ (checksum crypto r.payload).toList)

def digest : Bytes32 := checksum crypto ((r.snapshot.drop Rooms.snapshotMagic.length).take
  (r.snapshot.length - 32 - Rooms.snapshotMagic.length))

theorem length_magic : r.snapshotMagic.length = Rooms.snapshotMagic.length := by
  have hlen : ∀ version version', (versioned version).length = (versioned version').length := fun version version' => by
    rw [versioned, versioned, List.length_append, List.length_append]
    rfl
  unfold snapshotMagic
  split
  · exact hlen 3 1
  · split
    · exact hlen 2 1
    · rfl

end Registry

end Valhalla.Rooms
