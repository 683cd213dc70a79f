import Valhalla.Rooms.Registry

/-!
# Public room text (`lib.rs` and `continuity.rs` of `vhalla-room-activity`)

Signed events, the admission of the next event of an author's chain, and the staging of historical ancestors in
front of a terminal event. Preparing returns a candidate; a commit compares what it was prepared against.
-/

namespace Valhalla.RoomActivity
open Fallible FixedWidth Check
open Rooms (DirectoryId RoomGenesisId RoomRecordId Registry Room VerifiedRecord isControl)

inductive Error
  | bounds | encoding | protocol | key | signer | signature | scope | unknownRoom | policy | author | sequence | duplicate
  | gap | fork | replay | sequenceExhausted | staleBase | stalePolicy
deriving DecidableEq, Repr

def magic : List UInt8 := [86, 72, 82, 65, 1]
def idDomain : List UInt8 := "vhalla/room-activity/content-id/v1".toUTF8.toList ++ [0]
def signDomain : List UInt8 := "vhalla/room-activity/signature/v1".toUTF8.toList ++ [0]
def fixedUnsignedBytes : Nat := 5 + 32 + 16 + 32 + 32 + 32 + 32 + 8 + 32 + 8 + 1 + 2
def maxTextBytes : Nat := 4096
def maxEventBytes : Nat := fixedUnsignedBytes + maxTextBytes + 64
def maxHistorySegment : Nat := 32

def zeroBytes : Bytes32 := Vector.replicate 32 0

/-- Full content commitment. -/
structure EventId where
  bytes : Bytes32
deriving DecidableEq

def EventId.zero : EventId := ⟨zeroBytes⟩

/-! ### Events -/

/-- Immutable routing and signing scope. -/
structure RoomScope where
  network : Bytes32
  realm : RealmId
  directory : DirectoryId
  room : RoomGenesisId
deriving DecidableEq

def RoomScope.check (scope : RoomScope) : Except Error Unit := require .scope (scope.network != zeroBytes)

def checkText (text : String) : Except Error Unit := do
  require .bounds (text.utf8ByteSize != 0 && decide (text.utf8ByteSize ≤ maxTextBytes))
  require .encoding !(text.toList.any fun c => isControl c && c != '\n' && c != '\t')

/-- Nonempty inert text. -/
structure Text where
  str : String
  valid : checkText str = .ok ()
deriving DecidableEq

inductive Content
  | text (text : Text)
deriving DecidableEq

structure EventClaims where
  scope : RoomScope
  policy : RoomRecordId
  author : Bytes32
  sequence : UInt64
  previous : EventId
  createdAt : UInt64
  content : Content
deriving DecidableEq

def unsignedBytes (claims : EventClaims) : List UInt8 :=
  match claims.content with
  | .text text =>
    magic ++ (claims.scope.network.toList ++ (toBe claims.scope.realm.value ++ (claims.scope.directory.bytes.toList ++
      (claims.scope.room.bytes.toList ++ (claims.policy.bytes.toList ++ (claims.author.toList ++ (toBe claims.sequence ++
        (claims.previous.bytes.toList ++ (toBe claims.createdAt ++ (0 :: (toBe (UInt16.ofNat text.str.utf8ByteSize) ++
          text.str.toUTF8.toList)))))))))))

section
variable (crypto : Crypto)

def checkedKey (key : Bytes32) : Except Error Unit := do
  require .key (crypto.decodesKey key)
  require .key !crypto.isWeak key

/-- `UnsignedEvent::new`. -/
def EventClaims.check (claims : EventClaims) : Except Error Unit := do
  claims.scope.check
  checkedKey crypto claims.author
  require .sequence !(claims.sequence == 0 || (claims.sequence == 1) != (claims.previous == .zero))
  require .bounds (decide ((unsignedBytes claims).length + 64 ≤ maxEventBytes))

def EventClaims.id (claims : EventClaims) : EventId := ⟨crypto.sha256 (idDomain ++ unsignedBytes claims)⟩

def signingBytes (id : EventId) : List UInt8 := signDomain ++ id.bytes.toList

/-- `SignedEvent::verify`. -/
def verify (claims : EventClaims) (signature : Signature) : Except Error Unit := do
  claims.check crypto
  require .signature (crypto.verifyStrict claims.author (signingBytes (claims.id crypto)) signature)

end

/-- Authenticated bytes without policy and chain admission. -/
structure VerifiedEvent (crypto : Crypto) where
  claims : EventClaims
  signature : Signature
  verified : verify crypto claims signature = .ok ()
deriving DecidableEq

variable {crypto : Crypto}

def VerifiedEvent.id (event : VerifiedEvent crypto) : EventId := event.claims.id crypto

/-! ### Admission -/

/-- An immutable policy basis. -/
structure AdmissionContext (crypto : Crypto) where
  network : Bytes32
  registry : Registry crypto
  nonzero : network ≠ zeroBytes

namespace AdmissionContext
variable (context : AdmissionContext crypto)

def digest : Bytes32 := context.registry.digest

def roomOf (claims : EventClaims) : Except Error (Room crypto) := do
  require .scope (claims.scope.network == context.network && claims.scope.realm == context.registry.realm &&
    claims.scope.directory == context.registry.directory)
  Check.okOr .unknownRoom (context.registry.byGenesis[claims.scope.room]? >>= fun slug => context.registry.rooms[slug]?)

def allowsPublicActivity (room : Room crypto) (network : Bytes32) (policy : RoomRecordId) : Bool :=
  !room.archived && room.publicActivityPolicy.any fun active => active.enabled && active.network == network && active.record == policy

def check (claims : EventClaims) : Except Error Unit := do
  let room ← context.roomOf claims
  require .policy (allowsPublicActivity room context.network claims.policy)

def checkHistorical (claims : EventClaims) : Except Error Unit := do
  let room ← context.roomOf claims
  require .policy (room.revisions.any fun record => decide (record.id = claims.policy) &&
    (Rooms.activityPolicy record).any fun policy => policy.network == context.network && policy.enabled)

end AdmissionContext

/-- One retained position of an author's chain. -/
structure ChainPosition where
  sequence : UInt64
  id : EventId
deriving DecidableEq

def position (event : VerifiedEvent crypto) : ChainPosition := ⟨event.claims.sequence, event.id⟩

structure AuthorChain where
  scope : RoomScope
  author : Bytes32
  head : Option ChainPosition
deriving DecidableEq

/-- A checked candidate, not durable. -/
structure PendingAdmission (crypto : Crypto) where
  event : VerifiedEvent crypto
  base : Option ChainPosition
  next : ChainPosition
  registryDigest : Bytes32

/-- A local receipt. -/
structure AdmittedEvent (crypto : Crypto) where
  event : VerifiedEvent crypto
  registryDigest : Bytes32

/-- The event directly behind a position (both `prepare_next` and `check_extension`). -/
def checkSuccessor (tail : ChainPosition) (event : VerifiedEvent crypto) : Except Error Unit := do
  if event.claims.sequence = tail.sequence then .error (if event.id = tail.id then .duplicate else .fork)
  else if event.claims.sequence < tail.sequence then .error .replay
  else do
    let next ← Check.okOr .sequenceExhausted (checkedAdd tail.sequence 1)
    require .gap (event.claims.sequence == next)
    require .fork (event.claims.previous == tail.id)

namespace AuthorChain

def new (crypto : Crypto) (scope : RoomScope) (author : Bytes32) : Except Error AuthorChain := do
  scope.check
  checkedKey crypto author
  pure ⟨scope, author, none⟩

def prepareNext (chain : AuthorChain) (event : VerifiedEvent crypto) (context : AdmissionContext crypto) :
    Except Error (PendingAdmission crypto) := do
  require .scope (event.claims.scope == chain.scope)
  require .author (event.claims.author == chain.author)
  context.check event.claims
  match chain.head with
  | some head => checkSuccessor head event
  | none => require .gap (event.claims.sequence == 1)
  pure ⟨event, chain.head, position event, context.digest⟩

def commitAfterPersist (candidate : PendingAdmission crypto) (context : AdmissionContext crypto) :
    Fallible Error AuthorChain (AdmittedEvent crypto) := do
  examine fun chain => require .staleBase (chain.head == candidate.base && chain.scope == candidate.event.claims.scope &&
    chain.author == candidate.event.claims.author)
  examine fun _ => require .stalePolicy (candidate.registryDigest == context.digest &&
    candidate.event.claims.scope.network == context.network)
  examine fun _ => context.check candidate.event.claims
  update fun chain => { chain with head := some candidate.next }
  pure ⟨candidate.event, candidate.registryDigest⟩

end AuthorChain

/-! ### Historical continuity -/

/-- A hidden staging position. -/
structure ContinuityPosition where
  scope : RoomScope
  author : Bytes32
  base : Option ChainPosition
  tail : Option ChainPosition
deriving DecidableEq

structure PendingHistorySegment (crypto : Crypto) where
  before : ContinuityPosition
  next : ChainPosition
  events : List (VerifiedEvent crypto)
  registry : Bytes32

/-- Locally retained historical evidence. -/
structure HistoricalSegment (crypto : Crypto) where
  events : List (VerifiedEvent crypto)
  registry : Bytes32

structure PendingContinuityAdmission (crypto : Crypto) where
  before : ContinuityPosition
  event : VerifiedEvent crypto
  registry : Bytes32

def checkExtension (tail : Option ChainPosition) (event : VerifiedEvent crypto) : Except Error Unit :=
  match tail with
  | some tail => checkSuccessor tail event
  | none => require .gap (event.claims.sequence == 1 && event.claims.previous == .zero)

namespace ContinuityPosition

/-- `begin`. -/
def start (chain : AuthorChain) : ContinuityPosition := ⟨chain.scope, chain.author, chain.head, chain.head⟩

variable (staged : ContinuityPosition)

def checkIdentity (event : VerifiedEvent crypto) : Except Error Unit := do
  require .scope (event.claims.scope == staged.scope)
  require .author (event.claims.author == staged.author)

def checkAncestor (context : AdmissionContext crypto) (tail : Option ChainPosition) (event : VerifiedEvent crypto) :
    Except Error (Option ChainPosition) := do
  staged.checkIdentity event
  context.checkHistorical event.claims
  checkExtension tail event
  pure (some (position event))

def prepareSegment (events : List (VerifiedEvent crypto)) (context : AdmissionContext crypto) :
    Except Error (PendingHistorySegment crypto) := do
  require .bounds (!events.isEmpty && decide (events.length ≤ maxHistorySegment))
  let tail ← events.foldlM (staged.checkAncestor context) staged.tail
  -- `expect`: the segment is not empty
  let next ← Check.okOr .bounds tail
  pure ⟨staged, next, events, context.digest⟩

def commitSegmentAfterPersist (candidate : PendingHistorySegment crypto) (context : AdmissionContext crypto) :
    Fallible Error ContinuityPosition (HistoricalSegment crypto) := do
  examine fun staged => require .staleBase (staged == candidate.before)
  examine fun staged => require .stalePolicy (context.digest == candidate.registry && context.network == staged.scope.network)
  update fun staged => { staged with tail := some candidate.next }
  pure ⟨candidate.events, candidate.registry⟩

end ContinuityPosition

def PendingHistorySegment.nextPosition (segment : PendingHistorySegment crypto) : ContinuityPosition :=
  { segment.before with tail := some segment.next }

namespace AuthorChain

def prepareContinuityTerminal (chain : AuthorChain) (staged : ContinuityPosition) (event : VerifiedEvent crypto)
    (context : AdmissionContext crypto) : Except Error (PendingContinuityAdmission crypto) := do
  require .staleBase (chain.scope == staged.scope && chain.author == staged.author && chain.head == staged.base)
  staged.checkIdentity event
  context.check event.claims
  checkExtension staged.tail event
  pure ⟨staged, event, context.digest⟩

def commitContinuityTerminalAfterPersist (candidate : PendingContinuityAdmission crypto) (staged : ContinuityPosition)
    (context : AdmissionContext crypto) : Fallible Error AuthorChain (AdmittedEvent crypto) := do
  examine fun chain => require .staleBase (staged == candidate.before && chain.scope == candidate.before.scope &&
    chain.author == candidate.before.author && chain.head == candidate.before.base)
  examine fun chain => require .stalePolicy (context.digest == candidate.registry && context.network == chain.scope.network)
  examine fun _ => context.check candidate.event.claims
  update fun chain => { chain with head := some (position candidate.event) }
  pure ⟨candidate.event, candidate.registry⟩

end AuthorChain

end Valhalla.RoomActivity
