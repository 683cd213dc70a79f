import Valhalla.Lib.Ascending
import Valhalla.Rooms.Model

/-!
# Batches and their bytes (`lib.rs` of `vhalla-rooms-consensus`)

Batches, submission bodies and the two configuration updates of the intake, with their encoders, which bring
lists into normal form, and their decoders, which refuse any other form.
-/

namespace Valhalla.RoomsConsensus
open Fallible FixedWidth Social
open Rooms (ValidatorMember maxOwners maxValidators)

def maxBatchBytes : Nat := 48 * 1024
def maxBatchItems : Nat := 32
def maxGameCommitments : Nat := 32
def frontierBytes : Nat := 8 + 32 + 32 + 32 + 32 + 8

structure CommittedRotation where
  fromHeight : UInt64
  validators : List ValidatorMember
deriving DecidableEq

structure Frontier where
  height : UInt64
  value : Bytes32
  registry : Bytes32
  social : Bytes32
  control : Bytes32
  time : UInt64
deriving DecidableEq

inductive GameCommitmentKind
  | sessionOpen | event | checkpoint | settlement
deriving DecidableEq

structure GameCommitment where
  realm : RealmId
  room : RoomId
  session : Bytes32
  epoch : UInt64
  kind : GameCommitmentKind
  object : Bytes32
deriving DecidableEq

/-- What a producer submits. -/
structure BatchBody where
  time : UInt64
  evidence : List (List UInt8)
  records : List (List UInt8)
  games : List GameCommitment
  eligible : Option (List OwnerId)
  rotation : Option CommittedRotation
deriving DecidableEq

structure Batch extends BatchBody where
  parent : Frontier
  resultRegistry : Bytes32
  resultSocial : Bytes32
  resultControl : Bytes32
deriving DecidableEq

inductive DecodeError
  | decode
deriving DecidableEq, Repr

/-! ### Versions -/

inductive Version
  | v1 | v2 | v3 | v4
deriving DecidableEq

/-- The oldest form that can carry what the body has. -/
def BatchBody.version (body : BatchBody) : Version :=
  if body.rotation.isSome then .v4
  else if !body.games.isEmpty then .v3
  else if body.eligible.isNone then .v1
  else .v2

def batchMagic : Version → List UInt8
  | .v1 => [86, 82, 66, 49]
  | .v2 => [86, 82, 66, 50]
  | .v3 => [86, 82, 66, 51]
  | .v4 => [86, 82, 66, 52]

def bodyMagic : Version → List UInt8
  | .v1 => [86, 66, 66, 49]
  | .v2 => [86, 66, 66, 50]
  | .v3 => [86, 66, 66, 51]
  | .v4 => [86, 66, 66, 52]

def eligibleMagic : List UInt8 := [86, 66, 69, 49]
def rotationMagic : List UInt8 := [86, 82, 84, 49]

def versionOf (magic : Version → List UInt8) (raw : List UInt8) : Option Version :=
  if raw.take 4 = magic .v2 then some .v2
  else if raw.take 4 = magic .v3 then some .v3
  else if raw.take 4 = magic .v4 then some .v4
  else if raw.take 4 = magic .v1 then some .v1
  else none

/-! ### Writers -/

def putLength {α : Type} (l : List α) : List UInt8 := toBe (UInt32.ofNat l.length)

def putMember (member : ValidatorMember) : List UInt8 := member.key.toList ++ toBe member.power

def putRotation (rotation : CommittedRotation) : List UInt8 :=
  let set := Ascending.sorted compare rotation.validators
  toBe rotation.fromHeight ++ (putLength set ++ set.flatMap putMember)

def putOwner (owner : OwnerId) : List UInt8 := owner.bytes.toList

def putOwners (owners : List OwnerId) : List UInt8 :=
  let set := Ascending.canonical compare owners
  putLength set ++ set.flatMap putOwner

def encodeRotation : Option CommittedRotation → List UInt8
  | none => [0]
  | some rotation => 1 :: putRotation rotation

def encodeEligible : Option (List OwnerId) → List UInt8
  | none => [0]
  | some set => 1 :: putOwners set

def encodeRotationUpdate (rotation : CommittedRotation) : List UInt8 := rotationMagic ++ putRotation rotation

def encodeEligibleUpdate (set : List OwnerId) : List UInt8 := eligibleMagic ++ putOwners set

def putItem (item : List UInt8) : List UInt8 := putLength item ++ item

def putItems (items : List (List UInt8)) : List UInt8 := putLength items ++ items.flatMap putItem

def putFrontier (frontier : Frontier) : List UInt8 :=
  toBe frontier.height ++ (frontier.value.toList ++ (frontier.registry.toList ++ (frontier.social.toList ++
    (frontier.control.toList ++ toBe frontier.time))))

def GameCommitmentKind.byte : GameCommitmentKind → UInt8
  | .sessionOpen => 2
  | .event => 3
  | .checkpoint => 4
  | .settlement => 5

def putGame (game : GameCommitment) : List UInt8 :=
  toBe game.realm.value ++ (toBe game.room.value ++ (game.session.toList ++ (toBe game.epoch ++ ([game.kind.byte] ++
    game.object.toList))))

def putGames (games : List GameCommitment) : List UInt8 := putLength games ++ games.flatMap putGame

/-! Three sections that depend on the version. -/

def putEligibleOf (version : Version) (eligible : Option (List OwnerId)) : List UInt8 :=
  match version with
  | .v1 => []
  | .v2 | .v3 | .v4 => encodeEligible eligible

def putGamesOf (version : Version) (games : List GameCommitment) : List UInt8 :=
  match version with
  | .v1 | .v2 => []
  | .v3 | .v4 => putGames games

def putRotationOf (version : Version) (rotation : Option CommittedRotation) : List UInt8 :=
  match version with
  | .v1 | .v2 | .v3 => []
  | .v4 => encodeRotation rotation

def putBody (version : Version) (body : BatchBody) : List UInt8 :=
  toBe body.time ++ (putItems body.evidence ++ (putItems body.records ++ (putEligibleOf version body.eligible ++
    (putGamesOf version body.games ++ putRotationOf version body.rotation))))

def putBatch (version : Version) (batch : Batch) : List UInt8 :=
  putFrontier batch.parent ++ (putBody version batch.toBatchBody ++
    (batch.resultRegistry.toList ++ (batch.resultSocial.toList ++ batch.resultControl.toList)))

def BatchBody.encode (body : BatchBody) : List UInt8 := bodyMagic body.version ++ putBody body.version body

def Batch.encode (batch : Batch) : List UInt8 := batchMagic batch.version ++ putBatch batch.version batch

def valueDomain : List UInt8 := "vhalla/rooms/live-batch/v1\x00".toUTF8.toList

def Batch.valueId (crypto : Crypto) (batch : Batch) : Bytes32 := crypto.sha256 (valueDomain ++ batch.encode)

def frontierDomain : List UInt8 := "vhalla/rooms/live-frontier/v1\x00".toUTF8.toList

/-- What a journal bundle pins. -/
def Frontier.commitment (crypto : Crypto) (frontier : Frontier) : Bytes32 := crypto.sha256 (frontierDomain ++ putFrontier frontier)

/-! ### Readers -/

abbrev GetM := Reader DecodeError

def getArray (n : Nat) : GetM (Vector UInt8 n) := Reader.array .decode n

def getInt {α : Type} [FixedWidth α] : GetM α := Reader.int .decode

def getTag : GetM UInt8 := getInt

def getCount (limit : Nat) : GetM Nat := do
  let n ← (getInt : GetM UInt32)
  if n.toNat > limit then throw .decode else pure n.toNat

def getFrontier : GetM Frontier := do
  let height ← getInt
  let value ← getArray 32
  let registry ← getArray 32
  let social ← getArray 32
  let control ← getArray 32
  let time ← getInt
  pure ⟨height, value, registry, social, control, time⟩

def getKeyPower : GetM ValidatorMember := do
  let key ← getArray 32
  let power ← getInt
  pure ⟨key, power⟩

def getMember : GetM ValidatorMember := do
  let member ← getKeyPower
  if member.power = 0 then throw .decode else pure member

def getPositive (limit : Nat) : GetM Nat := do
  let n ← getCount limit
  if n = 0 then throw .decode else pure n

def getMembers : GetM (List ValidatorMember) := do
  let n ← getPositive maxValidators
  Ascending.items compare ValidatorMember.key .decode getMember n

def rotationPayload : GetM CommittedRotation := do
  let fromHeight ← getInt
  let validators ← getMembers
  pure ⟨fromHeight, validators⟩

def rotationOption : GetM (Option CommittedRotation) := do
  match ← getTag with
  | 0 => pure none
  | 1 => do
    let rotation ← rotationPayload
    pure (some rotation)
  | _ => throw .decode

def getOwner : GetM OwnerId := do
  let bytes ← getArray 32
  pure ⟨bytes⟩

def eligibleList : GetM (List OwnerId) := do
  let n ← getCount maxOwners
  Ascending.items compare id .decode getOwner n

def eligibleSet : GetM (Option (List OwnerId)) := do
  match ← getTag with
  | 0 => pure none
  | 1 => do
    let set ← eligibleList
    pure (some set)
  | _ => throw .decode

def getItem : GetM (List UInt8) := do
  let n ← getCount maxRecordBytes
  Reader.take .decode n

def getItems : GetM (List (List UInt8)) := do
  let n ← getCount maxBatchItems
  Reader.replicate getItem n

def GameCommitmentKind.decode : GetM GameCommitmentKind := do
  match ← getTag with
  | 2 => pure .sessionOpen
  | 3 => pure .event
  | 4 => pure .checkpoint
  | 5 => pure .settlement
  | _ => throw .decode

def getGame : GetM GameCommitment := do
  let realm ← getInt
  let room ← getInt
  let session ← getArray 32
  let epoch ← getInt
  let kind ← GameCommitmentKind.decode
  let object ← getArray 32
  pure ⟨⟨realm⟩, ⟨room⟩, session, epoch, kind, object⟩

/-- `ok_or` on what was read. -/
def required {α : Type} (get : GetM (Option α)) : GetM (Option α) := do
  let a ← get
  if a.isNone = true then throw .decode else pure a

def getEligible : Version → GetM (Option (List OwnerId))
  | .v3 | .v4 => eligibleSet
  | .v2 => required eligibleSet
  | .v1 => pure none

def getGames : Version → GetM (List GameCommitment)
  | .v4 => do
    let n ← getCount maxGameCommitments
    Reader.replicate getGame n
  | .v3 => do
    let n ← getPositive maxGameCommitments
    Reader.replicate getGame n
  | .v1 | .v2 => pure []

def getRotation : Version → GetM (Option CommittedRotation)
  | .v4 => required rotationOption
  | .v1 | .v2 | .v3 => pure none

def getBody (version : Version) : GetM BatchBody := do
  let time ← getInt
  let evidence ← getItems
  let records ← getItems
  let eligible ← getEligible version
  let games ← getGames version
  let rotation ← getRotation version
  pure ⟨time, evidence, records, games, eligible, rotation⟩

def getBatch (version : Version) : GetM Batch := do
  let parent ← getFrontier
  let body ← getBody version
  let resultRegistry ← getArray 32
  let resultSocial ← getArray 32
  let resultControl ← getArray 32
  pure ⟨body, parent, resultRegistry, resultSocial, resultControl⟩

def decodeFramed {α : Type} (least most : Nat) (get : Option (GetM α)) (raw : List UInt8) : Except DecodeError α :=
  if raw.length < least ∨ raw.length > most then .error .decode
  else match get with
    | none => .error .decode
    | some get =>
      match exec get (raw.drop 4) with
      | (.error e, _) => .error e
      | (.ok a, rest) => if rest.length > 0 then .error .decode else .ok a

def Batch.decode (raw : List UInt8) : Except DecodeError Batch :=
  decodeFramed (4 + frontierBytes + 8 + 4 + 4 + 96) maxBatchBytes ((versionOf batchMagic raw).map getBatch) raw

def BatchBody.decode (raw : List UInt8) : Except DecodeError BatchBody :=
  decodeFramed (4 + 8 + 4 + 4) maxBatchBytes ((versionOf bodyMagic raw).map getBody) raw

def decodeRotationUpdate (raw : List UInt8) : Except DecodeError CommittedRotation :=
  decodeFramed 16 (16 + maxValidators * 40) (if raw.take 4 = rotationMagic then some rotationPayload else none) raw

def decodeEligibleUpdate (raw : List UInt8) : Except DecodeError (List OwnerId) :=
  decodeFramed 8 (8 + maxOwners * 32) (if raw.take 4 = eligibleMagic then some eligibleList else none) raw

end Valhalla.RoomsConsensus
