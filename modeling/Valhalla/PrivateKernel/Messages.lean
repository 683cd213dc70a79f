import Valhalla.PrivateKernel.Membership

/-!
# Messages and receipts (`engine/messages.rs`, `engine/acceptance.rs`)

A draft is bound to the room, the epoch and the roster that its author saw. A receipt is a device's signed claim for one
ciphertext that is in its inbox; the first one of a recipient for an original is indexed with its reception.
-/

namespace Valhalla.PrivateKernel
open Fallible FixedWidth Check

variable {crypto : Hashing}

/-! ### Receipts -/

def acceptanceMagic : List UInt8 := [86, 72, 65, 67, 75, 0, 0, 1]
def signedAcceptanceBytes : Nat := 8 + 32 * 5 + 8
def encodedAcceptanceBytes : Nat := signedAcceptanceBytes + 64
def acceptanceDomain : List UInt8 := "vhalla/private-member-acceptance/v1".toUTF8.toList ++ [0]

structure MemberAcceptance (crypto : Hashing) where
  context : Context crypto
  recipient : Key crypto
  ciphertext : Bytes32
  receivedSequence : UInt64

namespace MemberAcceptance

def isReceipt (body : List UInt8) : Bool := acceptanceMagic.isPrefixOf body

/-- The bytes of a body between two offsets. -/
def slice (body : List UInt8) (start stop : Nat) : List UInt8 := (body.drop start).take (stop - start)

def claimedCiphertext (body : List UInt8) : Option Bytes32 :=
  if isReceipt body = true ∧ body.length = encodedAcceptanceBytes then
    if h : (slice body 136 168).length = 32 then some ⟨(slice body 136 168).toArray, h⟩ else none
  else none

/-- The claims of a receipt that `recipient` issues for the ciphertext that `sender` sent. -/
def claims (scope : PrivateRoomScope) (sender recipient : Key crypto) (ciphertext : Bytes32) (sequence : UInt64) : List UInt8 :=
  acceptanceMagic ++ (putScope scope ++ (sender.bytes.toList ++ (recipient.bytes.toList ++ (ciphertext.toList ++ toBe sequence))))

def verify (context : Context crypto) (original : CommittedOutbox) (received : ReceivedMessage crypto) :
    Except Error (Option (MemberAcceptance crypto)) :=
  let body := received.body
  if isReceipt body = false then .ok none
  else do
    require .encoding (body.length == encodedAcceptanceBytes && original.kind == .application)
    require .scope (slice body 8 40 == context.scope.room.bytes.toList && slice body 40 72 == context.scope.anchor.bytes.toList &&
      slice body 72 104 == context.device.bytes.toList && slice body 104 136 == received.sender.bytes.toList &&
      slice body 136 168 == (wireHash crypto original.bytes).toList && received.sender != context.device)
    let sequence : UInt64 := fromBe (slice body 168 176)
    require .encoding (sequence != 0)
    let signature := body.drop signedAcceptanceBytes
    if h : signature.length = 64 then do
      require .authentication (crypto.verifyStrict received.sender.bytes (acceptanceDomain ++ body.take signedAcceptanceBytes)
        ⟨signature.toArray, h⟩)
      .ok (some ⟨context, received.sender, wireHash crypto original.bytes, sequence⟩)
    else .error .encoding

end MemberAcceptance

/-! ### Drafts -/

structure MessageDraft (crypto : Hashing) where
  context : Context crypto
  epoch : UInt64
  roster : Bytes32
  body : List UInt8

namespace Working
variable (mls : Mls) (entropy : Entropy)

/-- An application message of this device, and the ratchet after it. -/
def encryptMessage (work : Working crypto) (body : List UInt8) : Except Error (Working crypto × List UInt8) := do
  let group ← work.group mls
  let signer ← work.signer mls
  let (message, provider) ← Check.okOr .mls
    (mls.createMessage entropy group work.provider signer (appAad work.state.anchor.scope) body)
  let bytes ← wire message
  .ok (⟨work.state, provider⟩, bytes)

/-- The candidate of `send`. -/
def prepareSend (work : Working crypto) (draft : MessageDraft crypto) (now : UInt64) : Except Error (Working crypto × List UInt8) := do
  require .policy (work.state.phase != .awaitingWelcome && work.state.phase != .removed)
  require .conflict (draft.epoch == work.state.epoch && draft.roster == work.state.rosterDigest)
  work.state.checkTime now
  let (work, bytes) ← work.encryptMessage mls entropy draft.body
  .ok (work.setClock now, bytes)

def joinedPhase : Phase → Bool
  | .ownerJoined | .memberJoined => true
  | _ => false

def applicationBody (content : Content mls.Staged) : Except Error (List UInt8) :=
  match content with
  | .application body => .ok body
  | _ => .error .policy

/-- What `receive` makes of a new message of another member. -/
def prepareReceive (work : Working crypto) (context : Context crypto) (raw : List UInt8) (now : UInt64) :
    Except Error (Working crypto × Key crypto × List UInt8) := do
  require .policy (joinedPhase work.state.phase)
  work.state.checkTime now
  let group ← work.group mls
  let (processed, group, provider) ← work.process mls group raw
  let body ← applicationBody mls processed.content
  let sender ← work.memberSender (mls.view group).members processed.sender processed.credential now
  require .policy (sender != context.device)
  require .bounds (!body.isEmpty && decide (body.length ≤ maxBodyBytes))
  .ok (⟨{ work.state with clock := now }, provider⟩, sender, body)

def prepareAcceptance (work : Working crypto) (context : Context crypto) (received : ReceivedMessage crypto) (digest : Bytes32)
    (now : UInt64) : Except Error (Working crypto × List UInt8) := do
  require .policy !(MemberAcceptance.isReceipt received.body)
  let claims := MemberAcceptance.claims context.scope received.sender context.device digest received.sequence
  let signature ← work.signature mls (acceptanceDomain ++ claims)
  let (work, bytes) ← work.encryptMessage mls entropy (claims ++ signature.toList)
  .ok (work.setClock now, bytes)

end Working

/-! ### Operations -/

namespace Kernel
variable (mls : Mls) (entropy : Entropy)

def retainedSend (operation : OperationId) (epoch : UInt64) (roster : Bytes32) (body : List UInt8) :
    KernelM crypto (Option CommittedOutbox) := do
  lift (require .bounds (!body.isEmpty && decide (body.length ≤ maxBodyBytes)))
  let context ← view Kernel.context
  let request ← lift (request context .application [toBe epoch, roster.toList, body])
  let state ← beginState
  retained operation request .application state.outbox

def retainedReceived (raw : List UInt8) : KernelM crypto (Option (ReceivedMessage crypto)) := do
  lift (boundedWire raw)
  let state ← beginState
  received raw state.inbox

def prepareMessage (body : List UInt8) : KernelM crypto (MessageDraft crypto) := do
  let k ← view id
  lift (require .needsReopen !k.needsReopen)
  lift (require .quarantined !k.status.quarantined)
  lift (require .policy (k.status.phase != .awaitingWelcome && k.status.phase != .removed))
  lift (require .bounds (!body.isEmpty && decide (body.length ≤ maxBodyBytes)))
  pure ⟨k.context, k.status.epoch, k.status.roster, body⟩

def send (operation : OperationId) (draft : MessageDraft crypto) (now : UInt64) : KernelM crypto CommittedOutbox := do
  let context ← view Kernel.context
  lift (require .scope (draft.context == context))
  let request ← lift (request context .application [toBe draft.epoch, draft.roster.toList, draft.body])
  let work ← beginLive mls
  orRetained operation request .application work.state.outbox do
    let (work, bytes) ← lift (work.prepareSend mls entropy draft now)
    publishSent mls entropy work operation request .application bytes

/-- Where the first verified receipt of a recipient for an original is indexed. -/
def acceptanceKey (head : UInt64) (received : ReceivedMessage crypto) : KernelM crypto (Option (RecordKey crypto)) :=
  match MemberAcceptance.claimedCiphertext received.body with
  | none => pure none
  | some claim => do
    let lookup ← readClear (.sent claim)
    match lookup with
    | none => pure none
    | some lookup => do
      let index ← lift (decodeIndex lookup)
      let sent ← sentAt index head
      if sent.kind ≠ .application then pure none
      else do
        let original ← lift sent.committed
        let context ← view Kernel.context
        match MemberAcceptance.verify context original received with
        | .ok (some _) => do
          let key : RecordKey crypto := .acceptance original.sequence received.sender
          let existing ← readClear key
          pure (if existing.isSome then none else some key)
        | _ => pure none

def receivedRecords (received : Received crypto) : Except Error (List (StoredRecord crypto)) := do
  let clear ← received.encode
  let inbox ← encryptRecord entropy 1 (.inbox received.sequence) clear
  let lookup ← encryptRecord entropy 2 (.received (wireHash crypto received.wire)) (toBe received.sequence)
  .ok [inbox, lookup]

def publishReceived (work : Working crypto) (raw : List UInt8) (sender : Key crypto) (body : List UInt8) :
    KernelM crypto (ReceivedMessage crypto) := do
  let index ← lift (Check.okOr .bounds (checkedAdd work.state.inbox 1))
  let message : Received crypto := ⟨index, raw, sender, body⟩
  let records ← lift (receivedRecords entropy message)
  let key ← acceptanceKey work.state.outbox message.committed
  let accepted ← match key with
    | none => pure []
    | some key => do
      let record ← lift (encryptRecord entropy 3 key (toBe index))
      pure [record]
  publish mls entropy ⟨{ work.state with inbox := index }, work.provider⟩ (records ++ accepted)
  let retained ← received raw index
  let retained ← Fallible.okOr .missing retained
  setReopen false
  pure retained

def receive (raw : List UInt8) (now : UInt64) : KernelM crypto (ReceivedMessage crypto) := do
  lift (boundedWire raw)
  let work ← beginLive mls
  let found ← received raw work.state.inbox
  match found with
  | some found => pure found
  | none => do
    let context ← view Kernel.context
    let (work, sender, body) ← lift (work.prepareReceive mls context raw now)
    publishReceived mls entropy work raw sender body

def issueAcceptance (operation : OperationId) (original : List UInt8) (now : UInt64) : KernelM crypto CommittedOutbox := do
  lift (boundedWire original)
  let digest := wireHash crypto original
  let context ← view Kernel.context
  let request ← lift (request context .application [acceptanceDomain, digest.toList])
  let work ← beginLive mls
  orRetained operation request .application work.state.outbox do
    lift (require .policy (Working.joinedPhase work.state.phase))
    lift (work.state.checkTime now)
    let original ← received original work.state.inbox
    let original ← Fallible.okOr .missing original
    let (work, bytes) ← lift (work.prepareAcceptance mls entropy context original digest now)
    publishSent mls entropy work operation request .application bytes

end Kernel

end Valhalla.PrivateKernel
