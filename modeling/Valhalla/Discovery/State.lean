import Valhalla.Discovery.Query

/-!
# Private reader preferences (`state.rs` of `vhalla-discovery`)

The bounded state of one reader, its edits, and its canonical bytes. A failed edit leaves the state as it was, and one that
changes something is a new generation.
-/

namespace Valhalla.Discovery
open Fallible FixedWidth Check
open Social (RecordId OwnerId AgentId PostRef Id IdKind View)

def maxStateBytes : Nat := 1024 * 1024
def maxPreferences : Nat := 256

inductive Subscription
  | owner (id : OwnerId)
  | agent (id : AgentId)
  | channel (room : RoomId)
  | tag (tag : String)
  | thread (root : RecordId)
deriving DecidableEq

namespace Subscription

/-- The variant, and its field among those of all variants. -/
def code : Subscription → Nat × Bytes32 × Nat × String
  | .owner id => (0, id.bytes, 0, "")
  | .agent id => (1, id.bytes, 0, "")
  | .channel room => (2, Vector.replicate 32 0, room.value.toNat, "")
  | .tag name => (3, Vector.replicate 32 0, 0, name)
  | .thread root => (4, root.bytes, 0, "")

theorem code_injective : Function.Injective code := by
  intro a b h
  cases a <;> cases b <;> simp_all [code, Social.Id.bytes_injective.eq_iff]
  case channel.channel a b =>
    cases a
    cases b
    exact congrArg _ (BitVec.eq_of_toNat_eq h)

instance : Ord Subscription :=
  ⟨compareLex (compareOn fun s => s.code.1) (compareLex (compareOn fun s => s.code.2.1)
    (compareLex (compareOn fun s => s.code.2.2.1) (compareOn fun s => s.code.2.2.2)))⟩

instance transCmp : Std.TransCmp (compare : Subscription → Subscription → Ordering) :=
  inferInstanceAs (Std.TransCmp (compareLex (compareOn fun s : Subscription => s.code.1) (compareLex (compareOn fun s => s.code.2.1)
    (compareLex (compareOn fun s => s.code.2.2.1) (compareOn fun s => s.code.2.2.2)))))

instance lawfulEqCmp : Std.LawfulEqCmp (compare : Subscription → Subscription → Ordering) where
  eq_of_compare {a b} h := by
    obtain ⟨hvariant, hrest⟩ := Ordering.then_eq_eq.1 h
    obtain ⟨hid, hrest⟩ := Ordering.then_eq_eq.1 hrest
    obtain ⟨hroom, htag⟩ := Ordering.then_eq_eq.1 hrest
    refine code_injective (Prod.ext (Std.LawfulEqCmp.eq_of_compare hvariant) (Prod.ext ?_ (Prod.ext ?_ ?_)))
    · exact Std.LawfulEqCmp.eq_of_compare hid
    · exact Std.LawfulEqCmp.eq_of_compare hroom
    · exact Std.LawfulEqCmp.eq_of_compare htag

end Subscription

inductive Change
  | subscribe (subscription : Subscription) (yes : Bool)
  | muteOwner (owner : OwnerId) (yes : Bool)
  | blockOwner (owner : OwnerId) (yes : Bool)
  | muteThread (root : RecordId) (yes : Bool)
  | bookmark (reference : PostRef) (yes : Bool)
  | interest (tag : String) (delta : Int)
  | clearInterests
  | saveSearch (name query : String)
  | removeSearch (name : String)
  | wider (wider : Bool)
deriving DecidableEq

structure Preferences where
  subscriptions : Std.ExtTreeSet Subscription compare
  muted : Std.ExtTreeSet OwnerId compare
  blocked : Std.ExtTreeSet OwnerId compare
  mutedThreads : Std.ExtTreeSet RecordId compare
  bookmarks : Std.ExtTreeSet PostRef compare
  /-- In the order of the bytes of a tag, which is that of its characters. -/
  interests : Std.ExtTreeMap String Int compare
  searches : Std.ExtTreeMap String String compare
  wider : Bool
deriving DecidableEq

def Preferences.empty : Preferences := ⟨∅, ∅, ∅, ∅, ∅, ∅, ∅, false⟩

structure DiscoveryState where
  reader : Bytes32
  generation : UInt64
  preferences : Preferences
  observations : Std.ExtTreeMap RecordId UInt64 compare
  nextOrdinal : UInt64
  seen : Std.ExtTreeSet PostRef compare
  feedback : Std.ExtTreeMap RecordId (PostRef × Int) compare
  learningIgnored : Std.ExtTreeSet PostRef compare
deriving DecidableEq

def validName (s : String) : Except Error Unit :=
  require .bounds (!(utf8 s).isEmpty && decide ((utf8 s).length ≤ 48) && !(utf8 s).any isAsciiControl)

/-- Put a value in a bounded set, or take it out. -/
def toggle {α : Type} [Ord α] [Std.TransCmp (compare : α → α → Ordering)] (set : Std.ExtTreeSet α compare) (v : α) (yes : Bool) (most : Nat) :
    Except Error (Std.ExtTreeSet α compare) := do
  if yes then
    require .budget !(!set.contains v && set.size == most)
    pure (set.insert v)
  else pure (set.erase v)

namespace DiscoveryState

def new (reader : Bytes32) : DiscoveryState := ⟨reader, 0, .empty, ∅, 0, ∅, ∅, ∅⟩

section
variable (state : DiscoveryState)

def ordinal (id : RecordId) : Option UInt64 := state.observations[id]?

def cutoff : UInt64 := state.nextOrdinal

/-- `DiscoveryState::seen` -/
def hasSeen (reference : PostRef) : Bool := state.seen.contains reference

def feedbackEntries : List (PostRef × Int) := state.feedback.toList.map Prod.snd

def learningBookmarks : List PostRef := state.preferences.bookmarks.toList.filter fun r => !state.learningIgnored.contains r

/-- The edit of a copy. -/
def changed (next : DiscoveryState) : Change → Except Error DiscoveryState
  | .subscribe s yes => do
    match s with
    | .tag tag => validTag tag
    | _ => pure ()
    let subscriptions ← toggle next.preferences.subscriptions s yes maxPreferences
    pure { next with preferences := { next.preferences with subscriptions } }
  | .muteOwner o yes => do
    let muted ← toggle next.preferences.muted o yes maxPreferences
    pure { next with preferences := { next.preferences with muted } }
  | .blockOwner o yes => do
    let blocked ← toggle next.preferences.blocked o yes maxPreferences
    pure { next with preferences := { next.preferences with blocked } }
  | .muteThread r yes => do
    let mutedThreads ← toggle next.preferences.mutedThreads r yes maxPreferences
    pure { next with preferences := { next.preferences with mutedThreads } }
  | .bookmark r yes => do
    let bookmarks ← toggle next.preferences.bookmarks r yes maxPreferences
    pure { next with
      preferences := { next.preferences with bookmarks }
      learningIgnored := if yes then next.learningIgnored else next.learningIgnored.erase r }
  | .interest tag delta => do
    validTag tag
    require .bounds (decide (-4 ≤ delta ∧ delta ≤ 4))
    let interests := next.preferences.interests
    require .budget !(!interests.contains tag && interests.size == maxPreferences)
    let value := max (-4) (min 4 (interests[tag]?.getD 0 + delta))
    pure { next with preferences := { next.preferences with
      interests := if value = 0 then interests.erase tag else interests.insert tag value } }
  | .clearInterests =>
    pure { next with
      preferences := { next.preferences with interests := ∅ }
      feedback := ∅
      learningIgnored := next.preferences.bookmarks }
  | .saveSearch name query => do
    validName name
    let _ ← Query.parse query
    let searches := next.preferences.searches
    require .budget !(!searches.contains name && searches.size == 32)
    pure { next with preferences := { next.preferences with searches := searches.insert name query } }
  | .removeSearch name => do
    validName name
    pure { next with preferences := { next.preferences with searches := next.preferences.searches.erase name } }
  | .wider wider => pure { next with preferences := { next.preferences with wider } }

/-- The first sight of a post. -/
def observeOne (next : DiscoveryState) (id : RecordId) : Except Error DiscoveryState :=
  if next.observations.contains id then .ok next
  else do
    require .budget !(next.observations.size == maxDocuments)
    let nextOrdinal ← okOr .bounds (checkedAdd next.nextOrdinal 1)
    pure { next with nextOrdinal, observations := next.observations.insert id nextOrdinal }

end

def mutate (change : DiscoveryState → Except Error DiscoveryState) : Fallible Error DiscoveryState Unit := of fun state =>
  match change state with
  | .error e => (.error e, state)
  | .ok next =>
    if next ≠ state then
      match checkedAdd state.generation 1 with
      | none => (.error .bounds, state)
      | some generation => (.ok (), { next with generation })
    else (.ok (), state)

def apply (change : Change) : Fallible Error DiscoveryState Unit := mutate fun next => next.changed change

def eligiblePosts (view : View) : List RecordId :=
  Ascending.canonical compare ((view.posts.filter fun post => post.state == .committed || post.state == .provisional).map (·.id))

def observe (view : View) : Fallible Error DiscoveryState Unit := mutate fun next => (eligiblePosts view).foldlM observeOne next

def evidence (view : View) (reference : PostRef) : Except Error Unit := require .evidence (view.exactRevisionText reference).isOk

def markSeen (view : View) (reference : PostRef) : Fallible Error DiscoveryState Unit := do
  examine fun _ => evidence view reference
  mutate fun next => do
    let seen ← toggle next.seen reference true maxDocuments
    pure { next with seen }

/-- `DiscoveryState::feedback` -/
def giveFeedback (view : View) (reference : PostRef) (value : Int) : Fallible Error DiscoveryState Unit := do
  examine fun _ => require .bounds (decide (-1 ≤ value ∧ value ≤ 1))
  examine fun _ => if value ≠ 0 then evidence view reference else .ok ()
  mutate fun next =>
    if value = 0 then .ok { next with feedback := next.feedback.erase reference.post }
    else do
      require .budget !(!next.feedback.contains reference.post && next.feedback.size == maxDocuments)
      pure { next with feedback := next.feedback.insert reference.post (reference, value) }

end DiscoveryState

end Valhalla.Discovery

/-!
## The private state as bytes (`state.rs` of `vhalla-discovery`)

The writer and the strict reader of a state. The reader collects what it reads in sets and maps, checks what an edit checks,
and writes the result again to find out whether it was canonical.
-/

namespace Valhalla.Discovery
open Fallible FixedWidth Check
open Social (RecordId OwnerId AgentId PostRef Id IdKind)

/-- `VHDS` and the version. -/
def magic : List UInt8 := [86, 72, 68, 83, 0, 0, 0, 1]

/-! ### Writers -/

def putCount (n : Nat) : List UInt8 := toBe (UInt16.ofNat n)

def putText (s : String) : List UInt8 := putCount (utf8 s).length ++ utf8 s

def putItems {α : Type} (put : α → List UInt8) (items : List α) : List UInt8 := putCount items.length ++ items.flatMap put

def putId {kind : IdKind} (id : Id kind) : List UInt8 := id.bytes.toList

def putSubscription : Subscription → List UInt8
  | .owner id => 0 :: putId id
  | .agent id => 1 :: putId id
  | .channel room => 2 :: toBe room.value
  | .tag tag => 3 :: putText tag
  | .thread id => 4 :: putId id

def putRef (r : PostRef) : List UInt8 := putId r.post ++ putId r.revision

/-- A small signed number as a byte (`as u8`). -/
def putSmall (offset value : Int) : List UInt8 := [UInt8.ofNat (value + offset).toNat]

def putFeedback (entry : PostRef × Int) : List UInt8 := putRef entry.1 ++ putSmall 1 entry.2

def putInterest (entry : String × Int) : List UInt8 := putText entry.1 ++ putSmall 4 entry.2

def putSearch (entry : String × String) : List UInt8 := putText entry.1 ++ putText entry.2

def putObservation (entry : RecordId × UInt64) : List UInt8 := putId entry.1 ++ toBe entry.2

def DiscoveryState.encode (s : DiscoveryState) : List UInt8 :=
  magic ++ (s.reader.toList ++ (toBe s.generation ++ (toBe s.nextOrdinal ++
    (putItems putSubscription s.preferences.subscriptions.toList ++ (putItems putId s.preferences.muted.toList ++
    (putItems putId s.preferences.blocked.toList ++ (putItems putId s.preferences.mutedThreads.toList ++
    (putItems putRef s.preferences.bookmarks.toList ++ (putItems putRef s.seen.toList ++
    (putItems putFeedback s.feedbackEntries ++ (putItems putRef s.learningIgnored.toList ++
    (putItems putInterest s.preferences.interests.toList ++ (putItems putSearch s.preferences.searches.toList ++
    ([if s.preferences.wider then 1 else 0] ++ putItems putObservation s.observations.toList))))))))))))))

def stateDomain : List UInt8 := "vhalla/discovery/private/v1".toUTF8.toList

def DiscoveryState.digest (crypto : Crypto) (s : DiscoveryState) : Bytes32 := crypto.sha256 (stateDomain ++ s.encode)

/-! ### Readers -/

abbrev Input := Reader Error

def getCount (most : Nat) : Input Nat := do
  let n ← (Reader.int .encoding : Input UInt16)
  if toNat n > most then throw .bounds else pure (toNat n)

def getText (most : Nat) : Input String := do
  let n ← getCount most
  let bytes ← Reader.take .encoding n
  match String.fromUTF8? ⟨bytes.toArray⟩ with
  | some text => pure text
  | none => throw .encoding

def getItems {α : Type} (most : Nat) (get : Input α) : Input (List α) := do
  let n ← getCount most
  Reader.replicate get n

def getId {kind : IdKind} : Input (Id kind) := do
  let bytes ← Reader.array .encoding 32
  pure ⟨bytes⟩

def getChecked (most : Nat) (check : String → Except Error Unit) : Input String := do
  let text ← getText most
  match check text with
  | .ok () => pure text
  | .error e => throw e

def getSubscription : Input Subscription := do
  match ← (Reader.int .encoding : Input UInt8) with
  | 0 => do
    let id ← getId
    pure (.owner id)
  | 1 => do
    let id ← getId
    pure (.agent id)
  | 2 => do
    let room ← (Reader.int .encoding : Input (BitVec 128))
    pure (.channel ⟨room⟩)
  | 3 => do
    let tag ← getChecked 48 validTag
    pure (.tag tag)
  | 4 => do
    let id ← getId
    pure (.thread id)
  | _ => throw .encoding

def getRef : Input PostRef := do
  let post ← getId
  let revision ← getId
  pure ⟨post, revision⟩

/-- A signed number in its byte, if that is one of the good ones. -/
def getSmall (offset : Int) (good : UInt8 → Bool) : Input Int := do
  let v ← (Reader.int .encoding : Input UInt8)
  if good v then pure (v.toNat - offset) else throw .encoding

def getFeedback : Input (PostRef × Int) := do
  let r ← getRef
  let value ← getSmall 1 fun v => v == 0 || v == 2
  pure (r, value)

def getIgnored (bookmarks : Std.ExtTreeSet PostRef compare) : Input PostRef := do
  let r ← getRef
  if !bookmarks.contains r then throw .encoding else pure r

def getInterest : Input (String × Int) := do
  let tag ← getChecked 48 validTag
  let value ← getSmall 4 fun n => !(decide (n > 8) || n == 4)
  pure (tag, value)

def validQuery (query : String) : Except Error Unit := do
  let _ ← Query.parse query

def getSearch : Input (String × String) := do
  let name ← getChecked 48 validName
  let query ← getChecked 256 validQuery
  pure (name, query)

def getWider : Input Bool := do
  match ← (Reader.int .encoding : Input UInt8) with
  | 0 => pure false
  | 1 => pure true
  | _ => throw .encoding

def getObservation (next : UInt64) (ordinals : Std.ExtTreeSet UInt64 compare) : Input (RecordId × UInt64) := do
  let id ← getId
  let n ← (Reader.int .encoding : Input UInt64)
  if n = 0 ∨ next < n ∨ ordinals.contains n = true then throw .encoding else pure (id, n)

def getObservations (next : UInt64) : Input (List (RecordId × UInt64)) := do
  let n ← getCount maxDocuments
  Reader.many (fun ordinals entry => ordinals.insert entry.2) (getObservation next) n ∅

def getMagic : Input Unit := do
  let found ← Reader.take .encoding magic.length
  if found ≠ magic then throw .encoding else pure ()

def getReader (reader : Bytes32) : Input Unit := do
  let found ← Reader.array .encoding 32
  if found ≠ reader then throw .stale else pure ()

/-- A later item takes the place of an earlier one with its key (`insert`). -/
def getState (reader : Bytes32) : Input DiscoveryState := do
  getMagic
  getReader reader
  let generation ← Reader.int .encoding
  let nextOrdinal ← Reader.int .encoding
  let subscriptions ← getItems maxPreferences getSubscription
  let muted ← getItems maxPreferences getId
  let blocked ← getItems maxPreferences getId
  let mutedThreads ← getItems maxPreferences getId
  let bookmarks ← getItems maxPreferences getRef
  let seen ← getItems maxDocuments getRef
  let feedback ← getItems maxDocuments getFeedback
  let learningIgnored ← getItems maxPreferences (getIgnored (Maps.ofKeys compare bookmarks))
  let interests ← getItems maxPreferences getInterest
  let searches ← getItems 32 getSearch
  let wider ← getWider
  let observations ← getObservations nextOrdinal
  pure
    { reader
      generation
      nextOrdinal
      preferences :=
        { subscriptions := Maps.ofKeys compare subscriptions
          muted := Maps.ofKeys compare muted
          blocked := Maps.ofKeys compare blocked
          mutedThreads := Maps.ofKeys compare mutedThreads
          bookmarks := Maps.ofKeys compare bookmarks
          interests := Maps.ofEntries compare interests
          searches := Maps.ofEntries compare searches
          wider }
      seen := Maps.ofKeys compare seen
      feedback := Maps.ofEntries compare (feedback.map fun entry => (entry.1.post, entry))
      learningIgnored := Maps.ofKeys compare learningIgnored
      observations := Maps.ofEntries compare observations }

def DiscoveryState.decode (raw : List UInt8) (reader : Bytes32) : Except Error DiscoveryState :=
  if raw.length > maxStateBytes then .error .bounds
  else
    match exec (getState reader) raw with
    | (.error e, _) => .error e
    | (.ok s, rest) =>
      if s.nextOrdinal ≠ UInt64.ofNat s.observations.size ∨ rest ≠ [] ∨ s.encode ≠ raw then .error .encoding else .ok s

end Valhalla.Discovery
