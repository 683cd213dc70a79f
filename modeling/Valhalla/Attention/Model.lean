import Valhalla.Social.Archive

/-!
# Private acknowledgements (`vhalla-attention`)

Reader scopes, interaction groups and the marks of both lanes. Every table is bounded; an entry that finds no
room costs the precision of its owner, and an owner that finds no room the precision of the whole lane.
-/

namespace Valhalla.Attention
open FixedWidth Check Social

def maxPage : Nat := 64
def maxMarks : Nat := 256
def maxStateBytes : Nat := 300000

inductive Error
  | bounds | encoding | context | missingSource | social (e : Social.Error)
deriving DecidableEq

structure ReaderScope where
  realm : RealmId
  owner : OwnerId
  agent : Option AgentId
  profile : Bytes32
  device : Bytes32
deriving DecidableEq

def ReaderScope.digest (crypto : Crypto) (scope : ReaderScope) : Bytes32 :=
  crypto.sha256 ("vhalla/discovery/reader/v1".toUTF8.toList ++ (0 :: (toBe scope.realm.value ++ (scope.owner.bytes.toList ++
    ((match scope.agent with | none => [0] | some agent => 1 :: agent.bytes.toList) ++
    (scope.profile.toList ++ scope.device.toList))))))

inductive Reason
  | mention | reply | follow | reaction | repost | quote | watchedThread
deriving DecidableEq, Repr

/-- The discriminant, which is also the order. -/
def Reason.byte : Reason → UInt8
  | .mention => 0
  | .reply => 1
  | .follow => 2
  | .reaction => 3
  | .repost => 4
  | .quote => 5
  | .watchedThread => 6

theorem Reason.byte_injective {a b : Reason} (h : a.byte = b.byte) : a = b := by
  cases a <;> cases b <;> first | rfl | cases h

inductive Lane
  | selected | requests
deriving DecidableEq, Repr

def Lane.other : Lane → Lane
  | .selected => .requests
  | .requests => .selected

structure Group where
  recipient : OwnerId
  sourceOwner : OwnerId
  target : RecordId
  reason : Reason
deriving DecidableEq

/-- One revision or preference event within a group. -/
structure Update where
  group : Group
  event : RecordId
deriving DecidableEq

namespace Group

/-- By recipient, source owner, target and reason (`derive(Ord)`). -/
instance : Ord Group :=
  ⟨compareLex (compareOn recipient) (compareLex (compareOn sourceOwner) (compareLex (compareOn target)
    (compareOn (·.reason.byte))))⟩

instance transCmp : Std.TransCmp (compare : Group → Group → Ordering) :=
  inferInstanceAs (Std.TransCmp (compareLex (compareOn recipient) (compareLex (compareOn sourceOwner)
    (compareLex (compareOn target) (compareOn (·.reason.byte))))))

instance lawfulEqCmp : Std.LawfulEqCmp (compare : Group → Group → Ordering) where
  eq_of_compare {a b} h := by
    have hthen : compare a b = (compare a.recipient b.recipient).then ((compare a.sourceOwner b.sourceOwner).then
        ((compare a.target b.target).then (compare a.reason.byte b.reason.byte))) := rfl
    rw [hthen, Ordering.then_eq_eq, Ordering.then_eq_eq, Ordering.then_eq_eq] at h
    obtain ⟨hrecipient, hsource, htarget, hreason⟩ := h
    obtain ⟨recipient, sourceOwner, target, reason⟩ := a
    cases (Std.LawfulEqCmp.eq_of_compare hrecipient : recipient = b.recipient)
    cases (Std.LawfulEqCmp.eq_of_compare hsource : sourceOwner = b.sourceOwner)
    cases (Std.LawfulEqCmp.eq_of_compare htarget : target = b.target)
    cases (Reason.byte_injective (Std.LawfulEqCmp.eq_of_compare hreason) : reason = b.reason)
    rfl

end Group

namespace Update

instance : Ord Update := ⟨compareLex (compareOn group) (compareOn event)⟩

instance transCmp : Std.TransCmp (compare : Update → Update → Ordering) :=
  inferInstanceAs (Std.TransCmp (compareLex (compareOn group) (compareOn event)))

instance lawfulEqCmp : Std.LawfulEqCmp (compare : Update → Update → Ordering) where
  eq_of_compare {a b} h := by
    have hthen : compare a b = (compare a.group b.group).then (compare a.event b.event) := rfl
    rw [hthen, Ordering.then_eq_eq] at h
    obtain ⟨hgroup, hevent⟩ := h
    obtain ⟨group, event⟩ := a
    cases (Std.LawfulEqCmp.eq_of_compare hgroup : group = b.group)
    cases (Std.LawfulEqCmp.eq_of_compare hevent : event = b.event)
    rfl

end Update

inductive ReadState
  | unread | read | unknown
deriving DecidableEq, Repr

def readState (known unknown : Bool) : ReadState := if known then .read else if unknown then .unknown else .unread

structure Notification where
  update : Update
  lane : Lane
deriving DecidableEq

structure NotificationSnapshot where
  reader : ReaderScope
  entries : List Notification
  bounded : entries.length ≤ maxPage
  own : ∀ entry ∈ entries, entry.update.group.recipient = reader.owner

/-! ### Marks -/

abbrev Owners := Std.ExtTreeSet OwnerId compare

/-- The acknowledgements of one lane. -/
structure Marks where
  groups : Std.ExtTreeMap Group RecordId compare
  updates : Std.ExtTreeSet Update compare
  groupsUnknown : Bool
  updatesUnknown : Bool
  groupUnknownOwners : Owners
  updateUnknownOwners : Owners
deriving DecidableEq

def losePrecision (owners : Owners) (whole : Bool) (owner : OwnerId) : Owners × Bool :=
  if owners.size < maxMarks ∨ owners.contains owner = true then (owners.insert owner, whole) else (owners, true)

namespace Marks

def empty : Marks := ⟨∅, ∅, false, false, ∅, ∅⟩

def loseGroup (marks : Marks) (owner : OwnerId) : Marks :=
  let lost := losePrecision marks.groupUnknownOwners marks.groupsUnknown owner
  { marks with groupUnknownOwners := lost.1, groupsUnknown := lost.2 }

def loseUpdate (marks : Marks) (owner : OwnerId) : Marks :=
  let lost := losePrecision marks.updateUnknownOwners marks.updatesUnknown owner
  { marks with updateUnknownOwners := lost.1, updatesUnknown := lost.2 }

def markGroup (marks : Marks) (update : Update) : Marks :=
  match marks.groups[update.group]? with
  | some witness =>
    { marks with groups := marks.groups.insert update.group (if (compare update.event witness).isLT then update.event else witness) }
  | none =>
    if marks.groups.size < maxMarks then { marks with groups := marks.groups.insert update.group update.event }
    else marks.loseGroup update.group.sourceOwner

def markUpdate (marks : Marks) (update : Update) : Marks :=
  if marks.updates.size < maxMarks ∨ marks.updates.contains update = true then
    { marks with updates := marks.updates.insert update }
  else marks.loseUpdate update.group.sourceOwner

def mark (marks : Marks) (update : Update) : Marks := (marks.markGroup update).markUpdate update

def updateOwners (marks : Marks) : Owners := Maps.ofKeys compare (marks.updates.toList.map (·.group.sourceOwner))

def forgetUpdates (marks : Marks) : Marks :=
  { marks.updateOwners.toList.foldl loseUpdate marks with updates := ∅ }

def knowsGroup (marks : Marks) (update : Update) : Bool := marks.groups.contains update.group

def knowsUpdate (marks : Marks) (update : Update) : Bool := marks.updates.contains update

def losesGroup (marks : Marks) (update : Update) : Bool :=
  marks.groupsUnknown || marks.groupUnknownOwners.contains update.group.sourceOwner

def losesUpdate (marks : Marks) (update : Update) : Bool :=
  marks.updatesUnknown || marks.updateUnknownOwners.contains update.group.sourceOwner

end Marks

end Valhalla.Attention

/-! ### Attention -/

namespace Valhalla
open Check Attention

/-- The private state of a reader. -/
structure Attention where
  reader : ReaderScope
  generation : UInt64
  selected : Marks
  requests : Marks
deriving DecidableEq

namespace Attention
open FixedWidth Social

def new (reader : ReaderScope) : Attention := ⟨reader, 0, .empty, .empty⟩

def marks (state : Attention) : Lane → Marks
  | .selected => state.selected
  | .requests => state.requests

def setMarks (state : Attention) (lane : Lane) (marks : Marks) : Attention :=
  match lane with
  | .selected => { state with selected := marks }
  | .requests => { state with requests := marks }

def read (state : Attention) (update : Update) (lane : Lane) : ReadState × ReadState :=
  let preferred := state.marks lane
  let other := state.marks lane.other
  (readState (preferred.knowsGroup update || other.knowsGroup update) (preferred.losesGroup update || other.losesGroup update),
   readState (preferred.knowsUpdate update || other.knowsUpdate update) (preferred.losesUpdate update || other.losesUpdate update))

def advance (state next : Attention) : Except Error Attention :=
  if next = state then .ok next
  else do
    let generation ← Check.okOr .bounds (checkedAdd state.generation 1)
    .ok { next with generation }

def markEntry (state : Attention) (entry : Notification) : Attention :=
  state.setMarks entry.lane ((state.marks entry.lane).mark entry.update)

def acknowledge {crypto : Crypto} (state : Attention) (shown : NotificationSnapshot) (archive : Archive crypto) :
    Except Error Attention := do
  require .context (shown.reader == state.reader && archive.realm == state.reader.realm)
  require .missingSource (shown.entries.all fun entry => archive.records.contains entry.update.event)
  state.advance (shown.entries.foldl markEntry state)

def forgetExactMarks (state : Attention) : Except Error Attention :=
  state.advance { state with selected := state.selected.forgetUpdates, requests := state.requests.forgetUpdates }

end Attention

end Valhalla
