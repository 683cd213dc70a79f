import Valhalla.Lib.Watched
import Valhalla.PrivateKernel.Mls

/-!
# One custody session over its store (`storage.rs` and `engine.rs`)

A backend that keeps an image and immutable records, and answers each call as it likes: a failed publication may have landed.
The session compares the whole image, writes at most once in an operation and reads back what it wrote. Sealing under the
custody key is left out: an image is the state it seals and a record its clear bytes; the length and the drawn nonce of a
sealing are checked.
-/

namespace Valhalla.PrivateKernel
open Fallible FixedWidth Check

variable {crypto : Hashing}

/-! ### The backend -/

inductive RecordKey (crypto : Hashing)
  | outbox (n : UInt64)
  | inbox (n : UInt64)
  | operation (id : OperationId)
  | received (wire : Bytes32)
  | control (n : UInt64)
  | sent (wire : Bytes32)
  | acceptance (outbox : UInt64) (recipient : Key crypto)
deriving DecidableEq

def RecordKey.validate : RecordKey crypto → Except Error Unit
  | .outbox n | .inbox n | .control n => require .encoding (n != 0)
  | .received wire | .sent wire => require .encoding (wire != zeroBytes)
  | .acceptance n _ => require .encoding (n != 0)
  | .operation _ => .ok ()

structure StoredRecord (crypto : Hashing) where
  key : RecordKey crypto
  bytes : List UInt8
deriving DecidableEq

inductive StoreError
  | conflict | refused | uncertain | corrupt
deriving DecidableEq, Repr

/-- `store_error`. -/
def StoreError.refusal : StoreError → Error
  | .conflict => .conflict
  | .refused => .refused
  | .uncertain | .corrupt => .needsReopen

/-- What the backend does on a call. An uncertain publication may have landed. -/
inductive Answer
  | done
  | failed (error : StoreError) (landed : Bool)

structure Store (crypto : Hashing) where
  image : Option (State crypto)
  records : RecordKey crypto → Option (List UInt8)

namespace Store

def accepts (store : Store crypto) (expected : Option (State crypto)) (records : List (StoredRecord crypto)) : Bool :=
  decide (store.image = expected) && records.all fun r => (store.records r.key).isNone

def apply (store : Store crypto) (next : State crypto) (records : List (StoredRecord crypto)) : Store crypto :=
  ⟨some next, fun key => ((records.find? (·.key == key)).map StoredRecord.bytes).or (store.records key)⟩

end Store

/-! ### The session -/

/-- The first conflict that was proved locally. -/
structure ForkEvidence (crypto : Hashing) where
  accepted : ControlFloor
  conflicting : SignedOwnerControl crypto
  acceptedProof : List UInt8
  acceptedFromCheckpoint : Bool

structure Kernel (crypto : Hashing) where
  store : Store crypto
  answers : List Answer
  context : Context crypto
  image : State crypto
  status : Status crypto
  needsReopen : Bool
  pendingFault : Option (ForkEvidence crypto)

abbrev KernelM (crypto : Hashing) := Fallible Error (Kernel crypto)

namespace Kernel

/-- The backend's answer to the next call. -/
def answer (k : Kernel crypto) : Answer := k.answers.headD .done

def answered (k : Kernel crypto) : Kernel crypto := { k with answers := k.answers.tail }

/-- `store.load`, under `?`. -/
def load : KernelM crypto (State crypto) := Fallible.of fun k =>
  match k.answer with
  | .done => (Check.okOr .missing k.store.image, k.answered)
  | .failed error _ => (.error error.refusal, k.answered)

/-- `store.read`, under `?`. -/
def readRecord (key : RecordKey crypto) : KernelM crypto (Option (List UInt8)) := Fallible.of fun k =>
  match k.answer with
  | .done => (.ok (k.store.records key), k.answered)
  | .failed error _ => (.error error.refusal, k.answered)

/-- `store.publish`, under `?`. -/
def publishImage (next : State crypto) (records : List (StoredRecord crypto)) : KernelM crypto Unit := Fallible.of fun k =>
  let fresh := k.store.accepts (some k.image) records
  let landed := { k.answered with store := k.store.apply next records }
  match k.answer with
  | .done => if fresh then (.ok (), landed) else (.error .conflict, k.answered)
  | .failed error applied => (.error error.refusal, if error = .uncertain ∧ applied = true ∧ fresh = true then landed else k.answered)

def setReopen (value : Bool) : KernelM crypto Unit := update fun k => { k with needsReopen := value }

def loadState : KernelM crypto (State crypto) := do
  let observed ← load
  let image ← view Kernel.image
  if observed = image then pure observed else throw .conflict

/-- The read that fails keeps the session latched. -/
def beginState : KernelM crypto (State crypto) := do
  let latched ← view Kernel.needsReopen
  if latched then throw .needsReopen
  else
    let loaded ← attempt some loadState
    match loaded with
    | .ok state => pure state
    | .error e => do
      setReopen true
      throw e

section
variable (mls : Mls)

/-- `begin`. -/
def beginWork : KernelM crypto (Working crypto) := do
  let state ← beginState
  lift (Working.hydrate mls state)

def beginLive : KernelM crypto (Working crypto) := do
  let work ← beginWork mls
  if work.state.fault.isSome then throw .quarantined else pure work

/-- The length and the nonce of `codec::seal`. -/
def checkSeal (draw : Except Error (Vector UInt8 24)) (clear : List UInt8) (maximum : Nat) : Except Error Unit := do
  require .bounds (decide (clear.length + 40 ≤ maximum))
  let _ ← draw
  .ok ()

/-- `encrypt_record`, with the position of its draw. -/
def encryptRecord (entropy : Entropy) (i : Nat) (key : RecordKey crypto) (clear : List UInt8) : Except Error (StoredRecord crypto) := do
  key.validate
  checkSeal (entropy.random i 24) clear maxStoredRecordBytes
  .ok ⟨key, clear⟩

def confirmRecord (expected : StoredRecord crypto) : KernelM crypto Unit := do
  let actual ← readRecord expected.key
  let actual ← Fallible.okOr .missing actual
  if actual = expected.bytes then pure () else throw .needsReopen

def nextImage (entropy : Entropy) (work : Working crypto) : Except Error (State crypto) := do
  let revision ← Check.okOr .bounds (checkedAdd work.state.revision 1)
  let state ← Working.capture mls ⟨{ work.state with revision }, work.provider⟩
  let clear ← state.encode
  checkSeal (entropy.random 0 24) clear maxImageBytes
  .ok state

/-- The write and its confirmation are latched; the caller releases the latch. -/
def publish (entropy : Entropy) (work : Working crypto) (records : List (StoredRecord crypto)) : KernelM crypto Unit := do
  lift (require .bounds (decide (records.length ≤ maxTransactionRecords)))
  let next ← lift (nextImage mls entropy work)
  setReopen true
  publishImage next records
  let observed ← load
  lift (require .needsReopen (decide (observed = next)))
  forM records confirmRecord
  update fun k => { k with image := next, status := next.status }

end

/-! ### Retained records -/

def readClear (key : RecordKey crypto) : KernelM crypto (Option (List UInt8)) := do
  lift key.validate
  readRecord key

def decodeIndex (bytes : List UInt8) : Except Error UInt64 := do
  require .encoding (bytes.length == 8)
  let index : UInt64 := fromBe bytes
  require .encoding (index != 0)
  .ok index

def sentAt (index head : UInt64) : KernelM crypto Sent := do
  lift (require .encoding (index != 0 && decide (index ≤ head)))
  let bytes ← readClear (.outbox index)
  let bytes ← Fallible.okOr .missing bytes
  let sent ← lift (Sent.decode bytes)
  lift (require .encoding (sent.sequence == index))
  pure sent

end Kernel

/-- Output that was reloaded after its transaction was confirmed. -/
structure CommittedOutbox where
  sequence : UInt64
  operation : OperationId
  kind : OutboxKind
  bytes : List UInt8
deriving DecidableEq

def Sent.committed (sent : Sent) : Except Error CommittedOutbox := do
  require .policy (sent.kind != .contactOffer)
  .ok ⟨sent.sequence, sent.operation, sent.kind, sent.bytes⟩

structure ReceivedMessage (crypto : Hashing) where
  sequence : UInt64
  sender : Key crypto
  body : List UInt8
deriving DecidableEq

def Received.committed (received : Received crypto) : ReceivedMessage crypto := ⟨received.sequence, received.sender, received.body⟩

namespace Kernel

def retained (operation : OperationId) (request : Bytes32) (kind : OutboxKind) (head : UInt64) :
    KernelM crypto (Option CommittedOutbox) := do
  let lookup ← readClear (.operation operation)
  match lookup with
  | none => pure none
  | some lookup => do
    let index ← lift (decodeIndex lookup)
    let sent ← sentAt index head
    lift (require .conflict (sent.kind != .contactOffer))
    lift (require .conflict (sent.operation == operation && sent.request == request && sent.kind == kind))
    let committed ← lift sent.committed
    pure (some committed)

def received (wire : List UInt8) (head : UInt64) : KernelM crypto (Option (ReceivedMessage crypto)) := do
  let lookup ← readClear (.received (wireHash crypto wire))
  match lookup with
  | none => pure none
  | some lookup => do
    let index ← lift (decodeIndex lookup)
    lift (require .encoding (index != 0 && decide (index ≤ head)))
    let bytes ← readClear (.inbox index)
    let bytes ← Fallible.okOr .missing bytes
    let received ← lift (Received.decode bytes)
    lift (require .conflict (received.sequence == index && received.wire == wire))
    pure (some received.committed)

def controlAt (sequence : UInt64) : KernelM crypto (RetainedControl crypto) := do
  let raw ← readClear (.control sequence)
  let raw ← Fallible.okOr .missing raw
  let packet ← lift (RetainedControl.decode raw)
  let floor ← lift packet.floor
  let context ← view Kernel.context
  lift (require .scope (floor.sequence == sequence && packet.control.claims.scope == context.scope))
  pure packet

/-! ### Publication of an artifact -/

section
variable (mls : Mls) (entropy : Entropy)

def sentRecords (sent : Sent) (control : Option (VerifiedOwnerControl crypto × List UInt8)) :
    Except Error (List (StoredRecord crypto)) := do
  let clear ← sent.encode
  let outbox ← encryptRecord entropy 1 (.outbox sent.sequence) clear
  let operation ← encryptRecord entropy 2 (.operation sent.operation) (toBe sent.sequence)
  let wire ← if sent.kind = .application then do
      let record ← encryptRecord entropy 3 (.sent (wireHash crypto sent.bytes)) (toBe sent.sequence)
      .ok [record]
    else .ok []
  let control ← match control with
    | none => .ok []
    | some (control, envelope) => do
      let floor ← control.floor
      let retained ← RetainedControl.new control (some envelope)
      let clear ← retained.encode
      let record ← encryptRecord entropy 4 (.control floor.sequence) clear
      .ok [record]
  .ok ([outbox, operation] ++ wire ++ control)

def publishSentControl (work : Working crypto) (operation : OperationId) (request : Bytes32) (kind : OutboxKind)
    (bytes : List UInt8) (control : Option (VerifiedOwnerControl crypto × List UInt8)) : KernelM crypto CommittedOutbox := do
  let index ← lift (Check.okOr .bounds (checkedAdd work.state.outbox 1))
  let records ← lift (sentRecords entropy ⟨index, operation, request, kind, bytes⟩ control)
  publish mls entropy ⟨{ work.state with outbox := index }, work.provider⟩ records
  let retained ← retained operation request kind index
  let retained ← Fallible.okOr .missing retained
  setReopen false
  pure retained

def publishSent (work : Working crypto) (operation : OperationId) (request : Bytes32) (kind : OutboxKind)
    (bytes : List UInt8) : KernelM crypto CommittedOutbox := publishSentControl mls entropy work operation request kind bytes none

def publishControl (work : Working crypto) (control : VerifiedOwnerControl crypto) (envelope : Option (List UInt8)) :
    KernelM crypto (Status crypto) := do
  let record ← lift (do
    let floor ← control.floor
    let retained ← RetainedControl.new control envelope
    let clear ← retained.encode
    encryptRecord entropy 1 (.control floor.sequence) clear)
  publish mls entropy work [record]
  setReopen false
  view Kernel.status

end

end Kernel

end Valhalla.PrivateKernel
