import Valhalla.Lib.Ascending
import Valhalla.PrivateKernel.Contact

/-!
# The committed state (`State` of `model.rs`)

Authority, membership, history position and offers of one device, with the records of its MLS provider.
`validate` is run on every state that is published or decoded; `State.Valid` is what it accepts.
-/

namespace Valhalla.PrivateKernel
open Fallible FixedWidth Check

def maxProviderRecords : Nat := 256
def maxProviderKeyBytes : Nat := 4096
def maxClockStepSecs : UInt64 := 400 * 24 * 60 * 60
def faultReserve : Nat := maxRecordBytes + 64
def stateMagic : List UInt8 := [86, 72, 80, 75, 83, 84, 65, 84, 69, 5]

structure FaultEvidence (crypto : Hashing) where
  accepted : ControlFloor
  conflicting : VerifiedOwnerControl crypto
deriving DecidableEq

structure State (crypto : Hashing) where
  revision : UInt64
  phase : Phase
  epoch : UInt64
  clock : UInt64
  floor : ControlFloor
  outbox : UInt64
  inbox : UInt64
  anchor : VerifiedRoomAnchor crypto
  localDevice : VerifiedDeviceEnrollment crypto
  owner : VerifiedDeviceEnrollment crypto
  successions : List (OwnerSuccessionProof crypto)
  roster : List (VerifiedDeviceEnrollment crypto)
  base : ControlFloor
  checkpoint : Option (Checkpoint crypto)
  fault : Option (FaultEvidence crypto)
  keyPackage : Option KeyPackageDigest
  joined : Option Bytes32
  records : List (List UInt8 × List UInt8)
  offers : List (Offer crypto)
  contact : Option (PendingContact crypto)
deriving DecidableEq

variable {crypto : Hashing}

def ownerDeviceFrom (owner : Key crypto) : List (OwnerSuccessionProof crypto) → UInt64 → Key crypto
  | [], _ => owner
  | grant :: grants, sequence =>
    if sequence ≤ grant.claims.sequence then owner
    else ownerDeviceFrom grant.claims.successor.claims.device grants sequence

/-- `check_roster`. -/
def checkRoster (roster : List (VerifiedDeviceEnrollment crypto)) : Except Error Unit := do
  require .bounds (!roster.isEmpty && decide (roster.length ≤ maxMembers))
  require .policy (sortedRoster roster)

def rostered (roster : List (VerifiedDeviceEnrollment crypto)) (device : Key crypto) :
    Option (VerifiedDeviceEnrollment crypto) := roster.find? (·.device == device)

/-- `Offer::check_owner`. -/
def Offer.checkOwner (offer : Offer crypto) (state : State crypto) : Except Error Unit :=
  require .scope (offer.claims.scope == state.anchor.scope && offer.claims.ownerAccount == state.owner.claims.account &&
    offer.claims.ownerDevice == state.owner.device && offer.claims.ownerBasis == ownerRecordBasis state.owner &&
    decide (offer.claims.validity.expiresAt ≤ state.owner.claims.validity.expiresAt))

def checkRecord (seen : Nat × Option (List UInt8)) (record : List UInt8 × List UInt8) :
    Except Error (Nat × Option (List UInt8)) := do
  require .encoding (!record.1.isEmpty && decide (record.1.length ≤ maxProviderKeyBytes) &&
    decide (record.2.length ≤ maxStateBytes) && Ascending.follows compare seen.2 record.1)
  let total := seen.1 + record.1.length + record.2.length
  require .bounds (decide (total ≤ maxStateBytes))
  .ok (total, some record.1)

namespace State

def context (state : State crypto) : Context crypto :=
  ⟨state.anchor.scope, state.localDevice.claims.account, state.localDevice.device⟩

def ownerDeviceAt (state : State crypto) (sequence : UInt64) : Key crypto :=
  ownerDeviceFrom state.anchor.claims.ownerDevice state.successions sequence

def wasOwner (state : State crypto) (device : Key crypto) : Bool :=
  state.successions.any (·.claims.predecessor == device)

/-- Only a device that waits for its Welcome may hold handoffs beyond its own floor. -/
def successionOwner (state : State crypto) : Except Error (Key crypto) :=
  followSuccessions state.anchor (if state.phase = .awaitingWelcome then none else some state.floor.sequence) state.successions

def isOwnerPhase : Phase → Bool
  | .ownerGenesis | .ownerJoined | .ownerAfterRemoval => true
  | _ => false

def ownerRole (state : State crypto) : Bool := state.localDevice.device == state.owner.device

def checkAuthority (state : State crypto) (context : Context crypto) : Except Error Unit := do
  require .bounds (decide (state.successions.length ≤ maxSuccessions))
  let owner ← if state.context = context ∧ state.anchor.claims.ownerAccount = state.owner.claims.account then
      state.successionOwner
    else .error .scope
  require .scope (owner == state.owner.device)

def checkRole (state : State crypto) (context : Context crypto) : Except Error Unit := do
  require .policy (isOwnerPhase state.phase == (context.device == state.owner.device))
  require .policy (!isOwnerPhase state.phase || state.localDevice.signed == state.owner.signed)
  require .policy (state.epoch == state.floor.sequence && decide (state.base.sequence ≤ state.floor.sequence))

def checkOwnerEntry (state : State crypto) : Except Error Unit := do
  checkRoster state.roster
  let owner ← Check.okOr .policy (rostered state.roster state.owner.device)
  require .policy (owner.signed == state.owner.signed)

def checkPhase (state : State crypto) (context : Context crypto) : Except Error Unit :=
  let own := rostered state.roster context.device
  match state.phase with
  | .awaitingWelcome =>
    require .policy (state.epoch == 0 && state.roster.length == 1 && own.isNone && state.checkpoint.isNone)
  | .removed => require .policy (state.epoch != 0 && own.isNone)
  | phase => do
    require .policy (own.any (·.signed == state.localDevice.signed))
    require .policy (phase != .ownerGenesis || (state.epoch == 0 && state.roster.length == 1))
    require .policy (phase != .ownerAfterRemoval || (state.epoch != 0 && state.roster.length == 1))
    require .policy (!(phase == .ownerJoined || phase == .memberJoined) ||
      (state.epoch != 0 && decide (2 ≤ state.roster.length)))

def checkPromotion (state : State crypto) : Except Error Unit :=
  require .policy (!isOwnerPhase state.phase ||
    if state.joined.isSome then state.checkpoint.isSome && state.keyPackage.isSome
    else state.checkpoint.isNone && state.keyPackage.isNone && state.base.sequence == 0)

def memberPhase : Phase → Bool
  | .memberJoined | .removed => true
  | _ => false

def checkCheckpoint (state : State crypto) (context : Context crypto) : Except Error Unit :=
  match state.checkpoint with
  | some checkpoint =>
    let c := checkpoint.claims
    require .policy (c.scope == context.scope && c.owner == state.ownerDeviceAt c.accepted.sequence &&
      c.parent == state.base && decide (c.accepted.sequence ≤ state.floor.sequence) &&
      c.roster.any (·.device == state.localDevice.device))
  | none => require .policy (!memberPhase state.phase || state.wasOwner state.localDevice.device)

def checkFault (state : State crypto) (context : Context crypto) : Except Error Unit :=
  match state.fault with
  | none => .ok ()
  | some fault => do
    let c := fault.conflicting.claims
    let sequence ← ofRecord c.sequence
    require .policy (c.scope == context.scope && c.ownerDevice == state.ownerDeviceAt fault.accepted.sequence &&
      sequence == fault.accepted.sequence && decide (fault.accepted.sequence ≤ state.floor.sequence) &&
      fault.accepted.id != some fault.conflicting.controlId)

def checkJoined (state : State crypto) : Except Error Unit :=
  require .policy (!memberPhase state.phase || state.wasOwner state.localDevice.device ||
    (state.keyPackage.isSome && state.joined.isSome))

def checkOffer (state : State crypto) (previous : Option Bytes32) (offer : Offer crypto) : Except Error (Option Bytes32) := do
  offer.checkOwner state
  require .policy (decide (offer.claims.issued ≤ state.clock) && Ascending.follows compare previous offer.claims.id)
  .ok (some offer.claims.id)

def checkOffers (state : State crypto) : Except Error Unit := do
  require .policy (decide (state.offers.length ≤ maxContactOffers) && (isOwnerPhase state.phase || state.offers.isEmpty))
  let _ ← state.offers.foldlM (checkOffer state) none
  .ok ()

def checkContact (state : State crypto) : Except Error Unit :=
  match state.contact with
  | none => .ok ()
  | some pending => do
    pending.offer.checkOwner state
    require .policy (state.phase == .awaitingWelcome && state.keyPackage.isSome &&
      pending.offer.claims.recipient == state.localDevice.claims.account &&
      decide (pending.offer.claims.issued ≤ state.clock) && pending.request != zeroBytes)

def checkRecords (state : State crypto) : Except Error Unit := do
  require .bounds (decide (state.records.length ≤ maxProviderRecords))
  let _ ← state.records.foldlM checkRecord (0, none)
  .ok ()

def validate (state : State crypto) (context : Context crypto) : Except Error Unit := do
  state.checkAuthority context
  state.checkRole context
  state.checkOwnerEntry
  state.checkPhase context
  state.checkPromotion
  state.checkCheckpoint context
  state.checkFault context
  state.checkJoined
  state.checkOffers
  state.checkContact
  state.checkRecords

def rosterDigest (state : State crypto) : Bytes32 :=
  hash crypto ("vhalla/private-kernel/roster/v1".toUTF8.toList ++ [0])
    (putScope state.anchor.scope ++ state.roster.flatMap Verified.encode)

/-- `set_membership_phase`. -/
def membershipPhase (state : State crypto) : Phase :=
  if state.ownerRole then if state.roster.length = 1 then .ownerAfterRemoval else .ownerJoined
  else if state.roster.any (·.device == state.localDevice.device) then .memberJoined
  else .removed

def setMembershipPhase (state : State crypto) : State crypto := { state with phase := state.membershipPhase }

def checkTime (state : State crypto) (now : UInt64) : Except Error Unit := do
  require .clockRegressed (decide (state.clock ≤ now))
  require .bounds (decide (now ≤ saturatingAdd state.clock maxClockStepSecs))
  ofRecord (state.localDevice.claims.validity.checkAt now)
  ofRecord (state.owner.claims.validity.checkAt now)

end State

/-- Public local status. -/
structure Status (crypto : Hashing) where
  context : Context crypto
  phase : Phase
  epoch : UInt64
  clock : UInt64
  controlSequence : UInt64
  controlFloor : ControlFloor
  outboxHead : UInt64
  inboxHead : UInt64
  historyBase : ControlFloor
  roster : Bytes32
  members : Nat
  quarantined : Bool
deriving DecidableEq

def State.status (state : State crypto) : Status crypto where
  context := state.context
  phase := state.phase
  epoch := state.epoch
  clock := state.clock
  controlSequence := state.floor.sequence
  controlFloor := state.floor
  outboxHead := state.outbox
  inboxHead := state.inbox
  historyBase := state.base
  roster := state.rosterDigest
  members := state.roster.length
  quarantined := state.fault.isSome

/-! ### The state image -/

def Phase.byte : Phase → UInt8
  | .ownerGenesis => 0
  | .awaitingWelcome => 1
  | .ownerJoined => 2
  | .memberJoined => 3
  | .ownerAfterRemoval => 4
  | .removed => 5

/-- `decode_phase`. -/
def Phase.ofByte : UInt8 → Except Error Phase
  | 0 => .ok .ownerGenesis
  | 1 => .ok .awaitingWelcome
  | 2 => .ok .ownerJoined
  | 3 => .ok .memberJoined
  | 4 => .ok .ownerAfterRemoval
  | 5 => .ok .removed
  | _ => .error .encoding

namespace State

/-- The largest image: an unquarantined one leaves room for the first owner conflict. -/
def limit (state : State crypto) : Nat := if state.fault.isSome then maxStateBytes else maxStateBytes - faultReserve

def writeEncoded {α : Type} (limit : Nat) (encode : α → Except Error (List UInt8)) (a : α) : WriteM Unit := do
  let raw ← Writing.lift (encode a)
  writeBlob limit raw

def writeCounted {α : Type} (write : α → WriteM Unit) (items : List α) : WriteM Unit := do
  Writing.lift (require .bounds (decide (items.length < 256)))
  writeByte (UInt8.ofNat items.length)
  forM items write

def writeFault (fault : FaultEvidence crypto) : WriteM Unit := do
  writeFloor fault.accepted
  writeBlob maxRecordBytes fault.conflicting.encode

def writeContact (pending : PendingContact crypto) : WriteM Unit := do
  writeEncoded maxOfferBytes Offer.encode pending.offer
  writeBytes pending.request.toList

def writeRecords (records : List (List UInt8 × List UInt8)) : WriteM Unit := do
  Writing.lift (require .bounds (decide (records.length < 65536)))
  writeBytes (toBe (UInt16.ofNat records.length))
  forM records fun record => do
    writeBlob maxProviderKeyBytes record.1
    writeBlob maxStateBytes record.2

def encode (state : State crypto) : Except Error (List UInt8) := do
  state.validate state.context
  Writing.finish state.limit do
    writeBytes stateMagic
    writeU64 state.revision
    writeByte state.phase.byte
    writeU64 state.epoch
    writeU64 state.clock
    writeFloor state.floor
    writeU64 state.outbox
    writeU64 state.inbox
    writeBlob maxRecordBytes state.anchor.encode
    writeBlob maxRecordBytes state.localDevice.encode
    writeBlob maxRecordBytes state.owner.encode
    writeCounted (fun enrollment => writeBlob maxRecordBytes enrollment.encode) state.roster
    writeFloor state.base
    writeOption (writeEncoded maxRecordBytes Checkpoint.encode) state.checkpoint
    writeOption writeFault state.fault
    writeOption (fun digest => writeBytes digest.bytes.toList) state.keyPackage
    writeOption (fun id => writeBytes id.toList) state.joined
    writeCounted (writeEncoded maxOfferBytes Offer.encode) state.offers
    writeOption writeContact state.contact
    writeRecords state.records
    writeCounted (fun proof => writeBlob maxRecordBytes proof.encode) state.successions

def readPhase : ReadM Phase := do
  let byte ← readByte
  Reader.lift (Phase.ofByte byte)

def readRoster : ReadM (List (VerifiedDeviceEnrollment crypto)) := do
  let count ← readByte
  let roster ← if count.toNat = 0 ∨ count.toNat > maxMembers then throw .bounds
    else Reader.replicate (readVerified (enrollmentKind crypto) maxRecordBytes) count.toNat
  Reader.lift (checkRoster roster)
  pure roster

def readFault : ReadM (FaultEvidence crypto) := do
  let accepted ← readFloor
  let conflicting ← readVerified (controlKind crypto) maxRecordBytes
  pure ⟨accepted, conflicting⟩

def readOffer : ReadM (Offer crypto) := do
  let raw ← readBlob maxOfferBytes
  Reader.lift (Offer.decode raw)

def readOffers : ReadM (List (Offer crypto)) := do
  let count ← readByte
  if count.toNat > maxContactOffers then throw .bounds else Reader.replicate readOffer count.toNat

def readContact : ReadM (PendingContact crypto) := do
  let offer ← readOffer
  let request ← readArray 32
  pure ⟨offer, request⟩

def readRecord : ReadM (List UInt8 × List UInt8) := do
  let key ← readBlob maxProviderKeyBytes
  let value ← readBlob maxStateBytes
  if key = [] then throw .encoding else pure (key, value)

def readRecords : ReadM (List (List UInt8 × List UInt8)) := do
  let count ← (Reader.int .encoding : ReadM UInt16)
  if toNat count > maxProviderRecords then throw .bounds
  else Ascending.items compare Prod.fst .encoding readRecord (toNat count)

def read : ReadM (State crypto) := do
  readMagic stateMagic
  let revision ← readU64
  let phase ← readPhase
  let epoch ← readU64
  let clock ← readU64
  let floor ← readFloor
  let outbox ← readU64
  let inbox ← readU64
  let anchor ← readVerified (anchorKind crypto) maxRecordBytes
  let localDevice ← readVerified (enrollmentKind crypto) maxRecordBytes
  let owner ← readVerified (enrollmentKind crypto) maxRecordBytes
  let roster ← readRoster
  let base ← readFloor
  let checkpoint ← readOption readCheckpoint
  let fault ← readOption readFault
  let keyPackage ← readOption (readIdentifier .keyPackage)
  let joined ← readOption (readArray 32)
  let offers ← readOffers
  let contact ← readOption readContact
  let records ← readRecords
  let successions ← readProofs maxRecordBytes
  pure { revision, phase, epoch, clock, floor, outbox, inbox, anchor, localDevice, owner, successions, roster, base,
         checkpoint, fault, keyPackage, joined, records, offers, contact }

def decode (raw : List UInt8) (context : Context crypto) : Except Error (State crypto) := do
  let state ← decodeWith maxStateBytes read raw
  state.validate context
  .ok state

end State

end Valhalla.PrivateKernel
