import Valhalla.PrivateKernel.Membership

/-!
# One-use contact exchange (`engine/contact.rs`)

The owner keeps an offer; a new device answers it with an encrypted join request, and the owner's encrypted answer consumes
the offer. Both frames are under keys that only the offer carries.
-/

namespace Valhalla.PrivateKernel
open Fallible FixedWidth Check

variable {crypto : Hashing}

structure ConfidentialContactOffer where
  operation : OperationId
  bytes : List UInt8

structure MembershipSnapshot (crypto : Hashing) where
  status : Status crypto
  anchor : SignedRoomAnchor crypto
  localDevice : SignedDeviceEnrollment crypto
  owner : SignedDeviceEnrollment crypto
  successions : List (OwnerSuccessionProof crypto)
  members : List (SignedDeviceEnrollment crypto)

/-- `MembershipSnapshot::from_state`. -/
def State.snapshot (state : State crypto) : MembershipSnapshot crypto where
  status := state.status
  anchor := state.anchor.signed
  localDevice := state.localDevice.signed
  owner := state.owner.signed
  successions := state.successions
  members := state.roster.map Verified.signed

structure ContactResponseReview (crypto : Hashing) where
  pending : Status crypto
  request : Bytes32
  response : Bytes32
  validity : Validity
  proposed : MembershipSnapshot crypto

def offerSignature (raw : List UInt8) : Except Error Signature :=
  if h : raw.length = 64 then .ok ⟨raw.toArray, h⟩ else .error .encoding

namespace Working
variable (mls : Mls) (cipher : Cipher) (entropy : Entropy)

/-- `Offer::new`. The two checks at the end hold of every offer with valid claims; the source makes them before it signs. -/
def newOffer (work : Working crypto) (recipient : Key crypto) (validity : Validity) (now : UInt64) : Except Error (Offer crypto) := do
  let state := work.state
  require .policy state.ownerRole
  let id ← entropy.random 5 32
  let requestKey ← entropy.random 6 32
  let responseKey ← entropy.random 7 32
  let claims : OfferClaims crypto :=
    ⟨id, state.anchor.scope, state.owner.claims.account, state.owner.device, ownerRecordBasis state.owner, recipient, now, validity,
      state.anchor, state.owner, state.successions, requestKey, responseKey⟩
  claims.validate
  let signer ← work.signer mls
  let message ← claims.signingBytes
  let raw ← Check.okOr .mls (mls.sign signer message)
  let signature ← offerSignature raw
  let offer ← Offer.attach claims signature
  offer.checkOwner state
  offer.checkTime now
  .ok offer

def prepareOffer (work : Working crypto) (recipient : Key crypto) (validity : Validity) (now : UInt64) :
    Except Error (Working crypto × List UInt8) := do
  require .policy work.state.ownerRole
  work.state.checkTime now
  let offers := work.state.offers.filter fun offer => decide (now < offer.claims.validity.expiresAt)
  require .bounds (decide (offers.length < maxContactOffers))
  let work : Working crypto := ⟨{ work.state with offers }, work.provider⟩
  let offer ← work.newOffer mls entropy recipient validity now
  let raw ← offer.encode
  let offers := Ascending.sorted (fun a b : Offer crypto => compare a.claims.id b.claims.id) (offers ++ [offer])
  .ok (⟨{ work.state with offers, clock := now }, work.provider⟩, raw)

/-- The candidate of `contact_request`. -/
def prepareRequest (work : Working crypto) (context : Context crypto) (offer : Offer crypto) (now : UInt64) :
    Except Error (Working crypto × List UInt8) := do
  work.state.checkTime now
  offer.checkOwner work.state
  offer.checkTime now
  require .scope (offer.claims.recipient == context.account && work.state.contact.isNone)
  let (work, clear) ← work.makeKeyPackage mls entropy now
  let output ← offer.sealFrame cipher (entropy.random 10 24) none clear
  .ok (⟨{ work.state with contact := some ⟨offer, contactRequestHash crypto output⟩, clock := now }, work.provider⟩, output)

def openRequest (work : Working crypto) (frame : Frame) (validity : Validity) (now : UInt64) :
    Except Error (Working crypto × Offer crypto × JoinRequest crypto) := do
  require .policy work.state.ownerRole
  work.state.checkTime now
  let index ← Check.okOr .missing (work.state.offers.findIdx? (·.claims.id == frame.id))
  let offer ← Check.okOr .missing work.state.offers[index]?
  let work : Working crypto := ⟨{ work.state with offers := work.state.offers.eraseIdx index }, work.provider⟩
  offer.checkOwner work.state
  offer.checkTime now
  require .time (decide (validity.expiresAt ≤ offer.claims.validity.expiresAt))
  let clear ← offer.openFrame cipher frame none
  let join ← JoinRequest.decode clear
  require .scope (join.enrollment.claims.account == offer.claims.recipient)
  .ok (work, offer, join)

def commonValidity (first : Validity) (rest : List Validity) : Except Error Validity :=
  ofRecord (Validity.new ((rest.map (·.notBefore)).foldl max first.notBefore) ((rest.map (·.expiresAt)).foldl min first.expiresAt))

/-- `open_response`. -/
def openResponse (work : Working crypto) (raw : List UInt8) (now : UInt64) : Except Error (InvitePacket crypto × Validity) := do
  let frame ← Frame.decode raw
  require .encoding (frame.direction == 2)
  require .policy (work.state.phase == .awaitingWelcome)
  work.state.checkTime now
  let pending ← Check.okOr .missing work.state.contact
  pending.offer.checkOwner work.state
  pending.offer.checkTime now
  let clear ← pending.offer.openFrame cipher frame (some pending.request)
  let packet ← InvitePacket.decode clear
  let validity ← commonValidity pending.offer.claims.validity
    [packet.invitation.claims.validity, work.state.owner.claims.validity, work.state.localDevice.claims.validity]
  ofRecord (validity.checkAt now)
  .ok (packet, validity)

end Working

/-! ### Operations -/

namespace Kernel
variable (mls : Mls) (cipher : Cipher) (entropy : Entropy)

def membership : KernelM crypto (MembershipSnapshot crypto) := do
  let state ← beginState
  pure state.snapshot

def inspectContactResponse (raw : List UInt8) (now : UInt64) : KernelM crypto (ContactResponseReview crypto) := do
  let work ← beginLive mls
  let pending ← Fallible.okOr .missing work.state.contact
  let (packet, validity) ← lift (work.openResponse cipher raw now)
  let context ← view Kernel.context
  let candidate ← lift (work.prepareJoin mls context packet (contactResponseHash crypto raw) now)
  pure ⟨work.state.status, pending.request, contactResponseHash crypto raw, validity, candidate.state.snapshot⟩

def contactResponseCommitted (raw : List UInt8) : KernelM crypto Bool := do
  let frame ← lift (Frame.decode raw)
  lift (require .encoding (frame.direction == 2))
  let state ← beginState
  pure (state.joined == some (contactResponseHash crypto raw))

def retainedOffer (operation : OperationId) (request : Bytes32) (head : UInt64) : KernelM crypto (Option ConfidentialContactOffer) := do
  let lookup ← readClear (.operation operation)
  match lookup with
  | none => pure none
  | some lookup => do
    let index ← lift (decodeIndex lookup)
    let sent ← sentAt index head
    lift (require .conflict (sent.operation == operation && sent.request == request && sent.kind == .contactOffer))
    let parsed : Offer crypto ← lift (Offer.decode sent.bytes)
    let context ← view Kernel.context
    lift (require .scope (parsed.claims.scope == context.scope))
    pure (some ⟨operation, sent.bytes⟩)

def createContactOffer (operation : OperationId) (recipient : Key crypto) (validity : Validity) (now : UInt64) :
    KernelM crypto ConfidentialContactOffer := do
  let context ← view Kernel.context
  let request ← lift (request context .contactOffer [recipient.bytes.toList, toBe validity.notBefore, toBe validity.expiresAt])
  let work ← beginLive mls
  let found ← retainedOffer operation request work.state.outbox
  match found with
  | some found => pure found
  | none => do
    let (work, raw) ← lift (work.prepareOffer mls entropy recipient validity now)
    let index ← lift (Check.okOr .bounds (checkedAdd work.state.outbox 1))
    let records ← lift (sentRecords entropy ⟨index, operation, request, .contactOffer, raw⟩ none)
    publish mls entropy ⟨{ work.state with outbox := index }, work.provider⟩ records
    let retained ← retainedOffer operation request index
    let retained ← Fallible.okOr .missing retained
    setReopen false
    pure retained

def contactRequest (operation : OperationId) (rawOffer : List UInt8) (now : UInt64) : KernelM crypto CommittedOutbox := do
  let offer ← lift (Offer.decode rawOffer)
  let context ← view Kernel.context
  let request ← lift (request context .contactRequest [rawOffer])
  let work ← beginLive mls
  orRetained operation request .contactRequest work.state.outbox do
    let (work, output) ← lift (work.prepareRequest mls cipher entropy context offer now)
    publishSent mls entropy work operation request .contactRequest output

def acceptContact (operation : OperationId) (raw : List UInt8) (validity : Validity) (now : UInt64) : KernelM crypto CommittedOutbox := do
  let frame ← lift (Frame.decode raw)
  lift (require .encoding (frame.direction == 1))
  let context ← view Kernel.context
  let request ← lift (request context .contactInvitation [raw, toBe validity.notBefore, toBe validity.expiresAt])
  let work ← beginLive mls
  orRetained operation request .contactInvitation work.state.outbox do
    let (work, offer, join) ← lift (work.openRequest cipher frame validity now)
    let prepared ← lift (work.prepareInvite mls cipher entropy
      ⟨operation, request, join, validity, now, some (offer, contactRequestHash crypto raw)⟩)
    publishPrepared mls entropy operation request prepared

def joinContact (raw : List UInt8) (now : UInt64) : KernelM crypto (Status crypto) := do
  let frame ← lift (Frame.decode raw)
  lift (require .encoding (frame.direction == 2))
  let id := contactResponseHash crypto raw
  let work ← beginLive mls
  if work.state.phase = .memberJoined ∧ work.state.joined = some id then view Kernel.status
  else do
    let (packet, _) ← lift (work.openResponse cipher raw now)
    joinPrepared mls entropy work packet id now

end Kernel

end Valhalla.PrivateKernel
