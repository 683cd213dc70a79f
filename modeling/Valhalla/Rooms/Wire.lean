import Valhalla.Lib.Wire
import Valhalla.Rooms.Model

/-!
# Signed room records (`wire.rs` of `vhalla-rooms`)

The frame around every record, its content hashes, and the checks that structure and signatures have to pass. A
verified record carries what was checked.
-/

namespace Valhalla.Rooms
open Fallible FixedWidth Check
open Social (OwnerId AgentId RecordId)

def wireMagic : List UInt8 := [86, 72, 82, 77, 1]
def controlTag : UInt8 := 0
def createTag : UInt8 := 1
def updateTag : UInt8 := 2
def permitTag : UInt8 := 3
def recordDomain : List UInt8 := "vhalla/rooms/record-id/v1".toUTF8.toList
def genesisDomain : List UInt8 := "vhalla/rooms/genesis-id/v1".toUTF8.toList
def permitDomain : List UInt8 := "vhalla/rooms/permit-id/v1".toUTF8.toList
def controlSign : List UInt8 := "vhalla/rooms/control-signature/v1".toUTF8.toList
def updateSign : List UInt8 := "vhalla/rooms/update-signature/v1".toUTF8.toList
def ownerSign : List UInt8 := "vhalla/rooms/owner-permit-signature/v1".toUTF8.toList
def agentSign : List UInt8 := "vhalla/rooms/agent-proposal-signature/v1".toUTF8.toList

/-! ### Payloads -/

def putText (description : Description) : List UInt8 :=
  toBe (UInt16.ofNat description.bytes.length) ++ description.bytes

def putSlug (slug : Slug) : List UInt8 := toBe (UInt8.ofNat slug.bytes.length) ++ slug.bytes

def putScope (directory : DirectoryId) (realm : RealmId) : List UInt8 := directory.bytes.toList ++ toBe realm.value

def putOwner (owner : OwnerId) (basis : RecordId) (key : Bytes32) : List UInt8 :=
  owner.bytes.toList ++ (basis.bytes.toList ++ key.toList)

def putPrevious : Option RoomRecordId → List UInt8
  | none => [0]
  | some previous => 1 :: previous.bytes.toList

def putBool (b : Bool) : List UInt8 := [if b then 1 else 0]

def putCreateAction : CreateAction → List UInt8
  | .grantCreate agent agentKey expiresAt maximumCharge nonce =>
    0 :: (agent.bytes.toList ++ (agentKey.toList ++ (toBe expiresAt ++ (toBe maximumCharge ++ nonce.toList))))
  | .revokeGrant grant => 1 :: grant.bytes.toList

def putUpdateAction : UpdateAction → List UInt8
  | .describe description => 0 :: putText description
  | .archive => [1]
  | .setPublicActivityPolicy network enabled => 2 :: publicActivityVersion :: (network.toList ++ putBool enabled)

def controlBytes (control : RoomControl) : List UInt8 :=
  putScope control.directory control.realm ++ (putOwner control.owner control.socialControl control.controllerKey ++
    (putPrevious control.previous ++ (toBe control.sequence ++ putCreateAction control.action)))

def intentBytes (intent : CreationIntent) : List UInt8 :=
  putScope intent.directory intent.realm ++ (intent.policy.bytes.toList ++ (intent.initialSettings.bytes.toList ++
    (putOwner intent.owner intent.socialControl intent.ownerKey ++ (intent.agent.bytes.toList ++ (intent.agentKey.toList ++
      (intent.roomControl.bytes.toList ++ (intent.grant.bytes.toList ++ (putSlug intent.slug ++
        (putText intent.description ++ (toBe intent.slot ++ (toBe intent.charge ++ (toBe intent.expiresAt ++
          intent.nonce.toList))))))))))))

def updateBytes (update : RoomUpdate) : List UInt8 :=
  putScope update.directory update.realm ++ (update.genesis.bytes.toList ++ (update.previous.bytes.toList ++
    (putOwner update.owner update.socialControl update.controllerKey ++ (toBe update.expiresAt ++ (update.nonce.toList ++
      putUpdateAction update.action)))))

def Body.tag : Body → UInt8
  | .control _ => controlTag
  | .create _ => createTag
  | .update _ => updateTag

/-- What `body_bytes` returns behind the tag. -/
def Body.bytes : Body → List UInt8
  | .control value => controlBytes value
  | .create value => intentBytes value
  | .update value => updateBytes value

def Body.isCreate : Body → Bool
  | .create _ => true
  | _ => false

/-! ### Hashes -/

variable (crypto : Crypto)

/-- `hash`. -/
def contentHash (domain : List UInt8) (tag : UInt8) (payload : List UInt8) : Bytes32 :=
  crypto.sha256 (domain ++ (wireMagic ++ ([tag] ++ (toBe (UInt16.ofNat payload.length) ++ payload))))

def recordId (body : Body) : RoomRecordId := ⟨contentHash crypto recordDomain body.tag body.bytes⟩

def permitId (intent : CreationIntent) : PermitId := ⟨contentHash crypto permitDomain permitTag (intentBytes intent)⟩

def genesisId (intent : CreationIntent) : RoomGenesisId := ⟨contentHash crypto genesisDomain createTag (intentBytes intent)⟩

def ownerTranscript (intent : CreationIntent) : List UInt8 := ownerSign ++ (permitId crypto intent).bytes.toList

def agentTranscript (intent : CreationIntent) : List UInt8 :=
  agentSign ++ (genesisId crypto intent).bytes.toList ++ (permitId crypto intent).bytes.toList

def controllerTranscript (domain : List UInt8) (body : Body) : List UInt8 := domain ++ (recordId crypto body).bytes.toList

/-! ### Structural checks -/

def checkedKey (key : Bytes32) : Except Error Unit := do
  require .key (crypto.decodesKey key)
  require .key !(crypto.isWeak key)

def zeroBytes : Bytes32 := Vector.replicate 32 0

def checkControl (value : RoomControl) : Except Error Unit := do
  checkedKey crypto value.controllerKey
  require .encoding ((value.sequence == 0) == value.previous.isNone)
  match value.action with
  | .grantCreate _ agentKey expiresAt maximumCharge nonce => do
    checkedKey crypto agentKey
    require .bounds !(expiresAt == 0 || maximumCharge == 0 || nonce == zeroBytes)
  | .revokeGrant _ => pure ()

def checkIntent (value : CreationIntent) : Except Error Unit := do
  checkedKey crypto value.ownerKey
  checkedKey crypto value.agentKey
  require .bounds !(value.slot == 0 || value.charge == 0 || value.expiresAt == 0 || value.nonce == zeroBytes)

def isZeroPolicy : UpdateAction → Bool
  | .setPublicActivityPolicy network _ => network == zeroBytes
  | _ => false

def checkUpdate (value : RoomUpdate) : Except Error Unit := do
  checkedKey crypto value.controllerKey
  require .bounds !(value.expiresAt == 0 || value.nonce == zeroBytes)
  require .bounds !isZeroPolicy value.action

def checkBody : Body → Except Error Unit
  | .control value => checkControl crypto value
  | .create value => checkIntent crypto value
  | .update value => checkUpdate crypto value

/-! ### Records -/

structure SignedRecord where
  body : Body
  signature : Signature
  acknowledgement : Option Signature
  checked : checkBody crypto body = .ok ()
  acknowledged : acknowledgement.isSome = body.isCreate
deriving DecidableEq

variable {crypto}

def frame (tag : UInt8) (payload : List UInt8) (primary : Signature) (secondary : Option Signature) : List UInt8 :=
  wireMagic ++ ([tag] ++ (toBe (UInt16.ofNat payload.length) ++ (payload ++ (primary.toList ++
    (secondary.map Vector.toList).getD []))))

namespace SignedRecord
variable (record : SignedRecord crypto)

def encode : List UInt8 := frame record.body.tag record.body.bytes record.signature record.acknowledgement

def id : RoomRecordId := recordId crypto record.body

def genesisId : Option RoomGenesisId :=
  match record.body with
  | .create intent => some (Rooms.genesisId crypto intent)
  | _ => none

end SignedRecord

def verifySignature (crypto : Crypto) (key : Bytes32) (transcript : List UInt8) (signature : Signature) :
    Except Error Unit := do
  checkedKey crypto key
  require .signature (crypto.verifyStrict key transcript signature)

namespace SignedRecord
variable (record : SignedRecord crypto)

def verifyController (key : Bytes32) (domain : List UInt8) : Except Error Unit := do
  require .signature !record.acknowledgement.isSome
  verifySignature crypto key (controllerTranscript crypto domain record.body) record.signature

def verify : Except Error Unit :=
  match record.body with
  | .create intent => do
    verifySignature crypto intent.ownerKey (ownerTranscript crypto intent) record.signature
    let secondary ← okOr .signature record.acknowledgement
    verifySignature crypto intent.agentKey (agentTranscript crypto intent) secondary
  | .control control => record.verifyController control.controllerKey controlSign
  | .update update => record.verifyController update.controllerKey updateSign

end SignedRecord

/-- Immutable signature evidence. -/
structure VerifiedRecord (crypto : Crypto) where
  signed : SignedRecord crypto
  verified : signed.verify = .ok ()
deriving DecidableEq

namespace VerifiedRecord

/-- `SignedRecord::verify`. -/
def new (signed : SignedRecord crypto) : Except Error (VerifiedRecord crypto) :=
  match h : signed.verify with
  | .ok () => .ok ⟨signed, h⟩
  | .error e => .error e

variable (record : VerifiedRecord crypto)

def id : RoomRecordId := record.signed.id

def genesisId : Option RoomGenesisId := record.signed.genesisId

def body : Body := record.signed.body

def encode : List UInt8 := record.signed.encode

end VerifiedRecord

/-! ### Readers -/

abbrev GetM := Reader Error

def getArray (n : Nat) : GetM (Vector UInt8 n) := Reader.array .encoding n

def getInt {α : Type} [FixedWidth α] : GetM α := Reader.int .encoding

def getTag : GetM UInt8 := getInt

def getId {kind : IdKind} : GetM (Id kind) := do
  let bytes ← getArray 32
  pure ⟨bytes⟩

def getSocialId {kind : Social.IdKind} : GetM (Social.Id kind) := do
  let bytes ← getArray 32
  pure ⟨bytes⟩

def getRealm : GetM RealmId := do
  let value ← getInt
  pure ⟨value⟩

def getTextLength : GetM Nat := do
  let n ← (getInt : GetM UInt16)
  if n.toNat > maxDescriptionBytes then throw .bounds else pure n.toNat

def getDescription : GetM Description := do
  let n ← getTextLength
  let bytes ← Reader.take .encoding n
  match String.fromUTF8? ⟨bytes.toArray⟩ with
  | some str => Reader.lift (Description.new str)
  | none => throw .encoding

def getSlugLength : GetM Nat := do
  let n ← (getInt : GetM UInt8)
  if n.toNat > maxSlugBytes then throw .bounds else pure n.toNat

def getSlug : GetM Slug := do
  let n ← getSlugLength
  let bytes ← Reader.take .encoding n
  Reader.lift (Slug.new bytes)

def getPrevious : GetM (Option RoomRecordId) := do
  match ← getTag with
  | 0 => pure none
  | 1 => do
    let previous ← getId
    pure (some previous)
  | _ => throw .encoding

def getGrantCreate : GetM CreateAction := do
  let agent ← getSocialId
  let agentKey ← getArray 32
  let expiresAt ← getInt
  let maximumCharge ← getInt
  let nonce ← getArray 32
  pure (.grantCreate agent agentKey expiresAt maximumCharge nonce)

def getCreateAction : GetM CreateAction := do
  match ← getTag with
  | 0 => getGrantCreate
  | 1 => do
    let grant ← getId
    pure (.revokeGrant grant)
  | _ => throw .encoding

def readControl : GetM RoomControl := do
  let directory ← getId
  let realm ← getRealm
  let owner ← getSocialId
  let socialControl ← getSocialId
  let controllerKey ← getArray 32
  let previous ← getPrevious
  let sequence ← getInt
  let action ← getCreateAction
  pure ⟨directory, realm, owner, socialControl, controllerKey, previous, sequence, action⟩

def readIntent : GetM CreationIntent := do
  let directory ← getId
  let realm ← getRealm
  let policy ← getId
  let initialSettings ← getId
  let owner ← getSocialId
  let socialControl ← getSocialId
  let ownerKey ← getArray 32
  let agent ← getSocialId
  let agentKey ← getArray 32
  let roomControl ← getId
  let grant ← getId
  let slug ← getSlug
  let description ← getDescription
  let slot ← getInt
  let charge ← getInt
  let expiresAt ← getInt
  let nonce ← getArray 32
  pure ⟨directory, realm, policy, initialSettings, owner, agent, ownerKey, agentKey, socialControl, roomControl, grant, slug,
    description, slot, charge, expiresAt, nonce⟩

def getBool : GetM Bool := do
  match ← getTag with
  | 0 => pure false
  | 1 => pure true
  | _ => throw .encoding

def getVersion : GetM UInt8 := do
  let version ← getTag
  if version ≠ publicActivityVersion then throw .encoding else pure version

def getUpdateAction : GetM UpdateAction := do
  match ← getTag with
  | 0 => do
    let description ← getDescription
    pure (.describe description)
  | 1 => pure .archive
  | 2 => do
    let _ ← getVersion
    let network ← getArray 32
    let enabled ← getBool
    pure (.setPublicActivityPolicy network enabled)
  | _ => throw .encoding

def readUpdate : GetM RoomUpdate := do
  let directory ← getId
  let realm ← getRealm
  let genesis ← getId
  let previous ← getId
  let owner ← getSocialId
  let socialControl ← getSocialId
  let controllerKey ← getArray 32
  let expiresAt ← getInt
  let nonce ← getArray 32
  let action ← getUpdateAction
  pure ⟨directory, realm, genesis, previous, owner, socialControl, controllerKey, expiresAt, nonce, action⟩

structure Frame where
  tag : UInt8
  payload : List UInt8
  primary : Signature
  secondary : Option Signature

def getWireMagic : GetM Unit := do
  let found ← Reader.take .encoding wireMagic.length
  if found ≠ wireMagic then throw .encoding else pure ()

def getFrameTag : GetM UInt8 := do
  let tag ← getTag
  if ¬ tag ∈ [controlTag, createTag, updateTag, permitTag] then throw .encoding else pure tag

def proofLength (tag : UInt8) : Nat := if tag = createTag then 128 else 64

def getPayloadLength (tag : UInt8) : GetM Nat := do
  let n ← (getInt : GetM UInt16)
  if n.toNat > maxRecordBytes - 8 - proofLength tag then throw .bounds else pure n.toNat

def getSecondary (tag : UInt8) : GetM (Option Signature) :=
  if tag = createTag then do
    let secondary ← getArray 64
    pure (some secondary)
  else pure none

def getFrame : GetM Frame := do
  getWireMagic
  let tag ← getFrameTag
  let n ← getPayloadLength tag
  let payload ← Reader.take .encoding n
  let primary ← getArray 64
  let secondary ← getSecondary tag
  pure ⟨tag, payload, primary, secondary⟩

def splitFrame (raw : List UInt8) : Except Error Frame :=
  Reader.decode (fun _ _ => .bounds) (fun _ => .encoding) maxRecordBytes getFrame raw

def readBody (tag : UInt8) : GetM Body :=
  if tag = controlTag then do
    let control ← readControl
    pure (.control control)
  else if tag = createTag then do
    let intent ← readIntent
    pure (.create intent)
  else if tag = updateTag then do
    let update ← readUpdate
    pure (.update update)
  else throw .encoding

def decodeBody (frame : Frame) : Except Error Body :=
  match exec (readBody frame.tag) frame.payload with
  | (.error e, _) => .error e
  | (.ok body, rest) => do
    require .encoding rest.isEmpty
    pure body

def SignedRecord.build (crypto : Crypto) (body : Body) (frame : Frame) : Except Error (SignedRecord crypto) :=
  if h : frame.secondary.isSome = body.isCreate then
    match hc : checkBody crypto body with
    | .ok () => .ok ⟨body, frame.primary, frame.secondary, hc, h⟩
    | .error e => .error e
  else .error .encoding

def SignedRecord.decode (raw : List UInt8) : Except Error (SignedRecord crypto) := do
  let frame ← splitFrame raw
  let body ← decodeBody frame
  let record ← SignedRecord.build crypto body frame
  require .encoding (record.encode == raw)
  pure record

end Valhalla.Rooms
