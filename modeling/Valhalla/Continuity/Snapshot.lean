import Valhalla.Continuity.Reply

/-!
# A continuity session (`outbox/continuity.rs` of `vhalla-browser-storage`)

What a local author retains of one peer's answers. An operation is prepared from the current snapshot and published only
after the local frames at the positions that it names have been read and compared.
-/

namespace Valhalla.Continuity
open Fallible FixedWidth Check
open RoomActivity (EventId VerifiedEvent zeroBytes)

/-- `Error` of the crate. -/
inductive StorageError
  | bounds | corrupt | wrongSlot | wrongScope | stale | storage | blocked | needsReopen | recoveryRequired
deriving DecidableEq, Repr

def maxSourceChecks : Nat := 40
/-- `VHCCRC01`. -/
def recordMagic : List UInt8 := [0x56, 0x48, 0x43, 0x43, 0x52, 0x43, 0x30, 0x31]

structure AuthorScope where
  network : Bytes32
  realm : Vector UInt8 16
  directory : Bytes32
  room : Bytes32
  author : Bytes32
deriving DecidableEq

def AuthorScope.of (room : RoomActivity.RoomScope) (author : Bytes32) : AuthorScope :=
  ⟨room.network, beVector 16 room.realm.value.toNat, room.directory.bytes, room.room.bytes, author⟩

structure AuthorHead where
  scope : AuthorScope
  sequence : UInt64
  event : EventId
deriving DecidableEq

structure HistoryScope where
  network : Bytes32
  bootstrap : Bytes32
deriving DecidableEq

abbrev Endpoint := List UInt8

/-- What `SessionScope::new` asks for. -/
def checkSession (author : AuthorScope) (history : HistoryScope) (peer : Bytes32) : Except StorageError Unit :=
  require .wrongScope (author.network == history.network && author.network != zeroBytes && history.bootstrap != zeroBytes &&
    peer != zeroBytes)

structure SessionScope where
  author : AuthorScope
  history : HistoryScope
  peer : Bytes32
  endpoint : Endpoint
  checked : checkSession author history peer = .ok ()
deriving DecidableEq

/-- Permanent quotas. -/
structure Limits where
  maxRecords : UInt64
  maxBytes : UInt64
deriving DecidableEq

def Limits.check (limits : Limits) : Except StorageError Unit :=
  require .bounds (limits.maxRecords != 0 && decide (limits.maxRecords ≤ 1000000) && limits.maxBytes != 0 &&
    decide (limits.maxBytes ≤ 8 * 1024 * 1024 * 1024))

structure ContinuityJob where
  operation : Vector UInt8 16
  terminal : Position
  frame : Bytes32
deriving DecidableEq

structure RecordRef where
  index : UInt64
  digest : Bytes32
deriving DecidableEq

variable {crypto : Crypto}

structure ContinuityAttempt (crypto : Crypto) where
  request : Request crypto
  body : List UInt8
deriving DecidableEq

/-- The retained prefix. -/
structure RetentionHead where
  position : Position
  record : Option RecordRef
  role : Option EvidenceRole
  committedBy : UInt64
  registry : Bytes32
deriving DecidableEq

def RetentionHead.empty : RetentionHead := ⟨.empty, none, none, 0, zeroBytes⟩

/-- The latest admission statement. -/
structure TerminalEvidence where
  position : Position
  cursor : UInt64
  registry : Bytes32
  record : RecordRef
deriving DecidableEq

structure Snapshot (crypto : Crypto) where
  scope : SessionScope
  limits : Limits
  generation : UInt64
  job : Option ContinuityJob
  attempt : Option (ContinuityAttempt crypto)
  lastNonce : Bytes32
  records : UInt64
  bytes : UInt64
  latest : Option RecordRef
  retention : RetentionHead
  terminal : Option TerminalEvidence
deriving DecidableEq

/-- A strict peer response, with what it answers. -/
structure ContinuityEvidenceRecord (crypto : Crypto) where
  scope : SessionScope
  job : ContinuityJob
  index : UInt64
  previous : Bytes32
  request : Request crypto
  proof : ResponseProof crypto
  body : List UInt8
  reply : Reply crypto
deriving DecidableEq

namespace SessionScope
variable (scope : SessionScope)

def wireScope : Scope := ⟨scope.author.network, scope.author.realm, scope.author.directory, scope.author.room⟩

def checkEvent (event : VerifiedEvent crypto) : Except StorageError Unit :=
  require .wrongScope (AuthorScope.of event.claims.scope event.claims.author == scope.author)

def checkRequest (request : Request crypto) (job : ContinuityJob) : Except StorageError Unit :=
  require .wrongScope (request.context.scope == scope.wireScope && request.selection == .author scope.author.author &&
    request.context.operation == job.operation)

end SessionScope

/-! ### Records -/

def blob (raw : List UInt8) : List UInt8 := toBe (UInt32.ofNat raw.length) ++ raw

def SessionScope.put (scope : SessionScope) : List UInt8 :=
  scope.author.network.toList ++ (scope.author.realm.toList ++ (scope.author.directory.toList ++ (scope.author.room.toList ++
    (scope.author.author.toList ++ (scope.history.bootstrap.toList ++ (scope.peer.toList ++ blob scope.endpoint))))))

def ContinuityJob.put (job : ContinuityJob) : List UInt8 := job.operation.toList ++ (job.terminal.put ++ job.frame.toList)

namespace ContinuityEvidenceRecord

def new (scope : SessionScope) (job : ContinuityJob) (index : UInt64) (previous : Bytes32) (request : Request crypto)
    (proof : ResponseProof crypto) (body : List UInt8) : Except StorageError (ContinuityEvidenceRecord crypto) := do
  require .bounds (index != 0 && decide (body.length ≤ maxReplyBytes) && (index == 1) == (previous == zeroBytes))
  scope.checkRequest request job
  let response ← (proof.verify scope.peer request body).mapError fun _ => .corrupt
  pure ⟨scope, job, index, previous, request, proof, body, response.reply⟩

variable (record : ContinuityEvidenceRecord crypto)

def payload : List UInt8 :=
  recordMagic ++ (record.scope.put ++ (record.job.put ++ (toBe record.index ++ (record.previous.toList ++
    (blob record.request.encode ++ (blob record.proof.encode ++ blob record.body))))))

def encode : List UInt8 := record.payload ++ (crypto.sha256 record.payload).toList

def reference : RecordRef := ⟨record.index, crypto.sha256 record.encode⟩

end ContinuityEvidenceRecord

/-! ### Local sources -/

/-- A position at which a local frame must stand, and its digest. -/
structure SourceCheck where
  position : Position
  frame : Option Bytes32
deriving DecidableEq

def SourceCheck.event (event : VerifiedEvent crypto) : SourceCheck := ⟨.of event, some (crypto.sha256 event.encode)⟩

/-- `SourceCheck::check`. -/
def SourceCheck.check (crypto : Crypto) (source : SourceCheck) (scope : SessionScope) (head : AuthorHead) (raw : List UInt8) :
    Except StorageError Unit := do
  let event ← (RoomActivity.decodeSigned crypto raw >>= RoomActivity.SignedEvent.verify crypto).mapError fun _ => .corrupt
  scope.checkEvent event
  require .corrupt (head.scope == scope.author && decide (source.position.sequence ≤ head.sequence) && Position.of event == source.position &&
    source.frame.all (fun frame => crypto.sha256 raw == frame) &&
      !(source.position.sequence == head.sequence && event.id != head.event))

/-- `point`: the empty position needs no source. -/
def point (position : Position) : List SourceCheck := if position = .empty then [] else [⟨position, none⟩]

def stagePoint : Option StageRef → List SourceCheck
  | some stage => point stage.tail
  | none => []

def basePoints : Kind → Option (List SourceCheck)
  | .stage s => some (point s.base ++ stagePoint s.prior)
  | .commit c => some (point c.base ++ stagePoint c.stage)
  | _ => none

def bodySources (attempt : ContinuityAttempt crypto) : Except StorageError (List SourceCheck) :=
  match basePoints attempt.request.kind with
  | some points => do
    let body ← (attempt.request.checkBody attempt.body).mapError fun _ => .corrupt
    pure (points ++ (body.history.map .event ++ body.terminal.toList.map .event))
  | none => do
    require .corrupt attempt.body.isEmpty
    pure []

def replySources : Reply crypto → Except StorageError (List SourceCheck)
  | .staged a => .ok (point a.base ++ point a.ticket.tail)
  | .committed t => .ok [.event t.event]
  | .status s => .ok (point s.published ++ stagePoint s.stage)
  | .evidence p => .ok (p.entries.map fun entry => .event entry.event)
  | .feed _ => .error .wrongScope

/-! ### Preparing -/

inductive Operation (crypto : Crypto)
  | job (job : ContinuityJob)
  | attempt (attempt : ContinuityAttempt crypto)
  | response (record : ContinuityEvidenceRecord crypto)
deriving DecidableEq

/-- An unpublished change. -/
structure Publication (crypto : Crypto) where
  before : Snapshot crypto
  after : Snapshot crypto
  operation : Operation crypto
  sources : List SourceCheck

def requestCheck (state : Snapshot crypto) (attempt : ContinuityAttempt crypto) : Except StorageError Unit := do
  let job ← Check.okOr .stale state.job
  state.scope.checkRequest attempt.request job
  match attempt.request.kind with
  | .stage s => require .stale (s.base == state.retention.position && decide (s.end_.sequence < job.terminal.sequence))
  | .commit c =>
    require .stale !(decide (state.retention.position.sequence < c.base.sequence) ||
      (c.base.sequence == state.retention.position.sequence && c.base != state.retention.position) ||
      decide (c.terminal.sequence ≤ c.base.sequence) || decide (job.terminal.sequence < c.terminal.sequence) ||
      (c.terminal == job.terminal && c.terminalFrame != job.frame))
  | .status minimum => require .stale (minimum == state.retention.position)
  | .evidence after count =>
    require .stale (after == state.retention.position &&
      (checkedAdd after.sequence (UInt64.ofNat count.toNat)).any fun n => decide (n ≤ job.terminal.sequence))
  | .feed _ _ => .error .wrongScope

def RetentionHead.agrees (head : RetentionHead) (value : TerminalEvidence) : Bool :=
  head.role == some .currentAdmission && head.committedBy == value.cursor && head.registry == value.registry

namespace Snapshot

def fresh (scope : SessionScope) (limits : Limits) : Except StorageError (Snapshot crypto) := do
  limits.check
  pure ⟨scope, limits, 0, none, none, zeroBytes, 0, 0, none, .empty, none⟩

def complete (state : Snapshot crypto) : Bool :=
  state.job.any fun job => state.terminal.any fun t =>
    t.position == job.terminal && state.retention.position == job.terminal && state.retention.agrees t

def previousDigest (state : Snapshot crypto) : Bytes32 := (state.latest.map RecordRef.digest).getD zeroBytes

def withJob (before : Snapshot crypto) (job : ContinuityJob) : Except StorageError (Snapshot crypto) := do
  require .bounds (job.operation != Vector.replicate 16 0 && job.terminal != .empty && job.frame != zeroBytes &&
    decide (before.retention.position.sequence ≤ job.terminal.sequence))
  require .stale (before.job.all fun old =>
    old == job || (decide (old.terminal.sequence < job.terminal.sequence) && job.operation != old.operation))
  pure (if before.job = some job then before else { before with attempt := none, terminal := none, job := some job })

def withAttempt (before : Snapshot crypto) (attempt : ContinuityAttempt crypto) : Except StorageError (Snapshot crypto × List SourceCheck) := do
  requestCheck before attempt
  require .stale (attempt.request.context.nonce != before.lastNonce)
  let sources ← bodySources attempt
  pure ({ before with lastNonce := attempt.request.context.nonce, attempt := some attempt }, sources)

def withTerminal (before after : Snapshot crypto) (attempt : ContinuityAttempt crypto) (record : ContinuityEvidenceRecord crypto)
    (receipt : TerminalReceipt crypto) : Except StorageError (Snapshot crypto) := do
  let value : TerminalEvidence := ⟨.of receipt.event, receipt.cursor, receipt.registry, record.reference⟩
  require .corrupt ((match attempt.request.kind with
    | .commit c => c.terminal == value.position
    | _ => false) && decide (value.position.sequence ≤ record.job.terminal.sequence))
  require .corrupt !(before.terminal.any fun prior => decide (value.position.sequence < prior.position.sequence) ||
    (value.position.sequence == prior.position.sequence &&
      (value.position != prior.position || prior.cursor != value.cursor || prior.registry != value.registry)))
  require .corrupt !(after.retention.position == value.position && !after.retention.agrees value)
  pure { after with terminal := some value }

def withEvidence (before after : Snapshot crypto) (record : ContinuityEvidenceRecord crypto) (page : EvidencePage crypto) :
    Except StorageError (Snapshot crypto) := do
  require .corrupt (page.entries.head?.all fun first => before.retention.role.all fun role =>
    continues role before.retention.committedBy first)
  match page.entries.getLast? with
  | none => pure after
  | some last => do
    let retention : RetentionHead := ⟨.of last.event, some record.reference, some last.role, last.committedBy, last.registry⟩
    require .corrupt (after.terminal.all fun t => !(retention.position == t.position && !retention.agrees t))
    pure { after with retention }

def withReply (before after : Snapshot crypto) (attempt : ContinuityAttempt crypto) (record : ContinuityEvidenceRecord crypto) :
    Except StorageError (Snapshot crypto) :=
  match record.reply with
  | .committed receipt => withTerminal before after attempt record receipt
  | .evidence page => withEvidence before after record page
  | _ => .ok after

def withResponse (before : Snapshot crypto) (record : ContinuityEvidenceRecord crypto) :
    Except StorageError (Snapshot crypto × List SourceCheck) := do
  let attempt ← Check.okOr .stale before.attempt
  require .stale (record.scope == before.scope && some record.job == before.job && record.request == attempt.request)
  let next ← Check.okOr .bounds (checkedAdd before.records 1)
  require .stale (record.index == next && record.previous == before.previousDigest)
  requestCheck before attempt
  let sources ← bodySources attempt
  let more ← replySources record.reply
  let bytes ← Check.okOr .bounds (checkedAdd before.bytes (UInt64.ofNat record.encode.length))
  require .bounds (decide (record.index ≤ before.limits.maxRecords) && decide (bytes ≤ before.limits.maxBytes))
  let after ← before.withReply { before with records := record.index, bytes, latest := some record.reference } attempt record
  pure ({ after with attempt := none }, sources ++ more)

def project (before : Snapshot crypto) : Operation crypto → Except StorageError (Snapshot crypto × List SourceCheck)
  | .job job => do
    let after ← before.withJob job
    pure (after, [])
  | .attempt attempt => before.withAttempt attempt
  | .response record => before.withResponse record

def jobSource (state : Snapshot crypto) : List SourceCheck := (state.job.map fun job => ⟨job.terminal, some job.frame⟩).toList

/-- `sort_by_key` and `dedup`. -/
def arrange (sources : List SourceCheck) : List SourceCheck :=
  (sources.mergeSort fun a b => decide (a.position.sequence ≤ b.position.sequence)).destutter (· ≠ ·)

def prepare (before : Snapshot crypto) (operation : Operation crypto) : Except StorageError (Publication crypto) := do
  let (after, sources) ← before.project operation
  let sources := arrange (sources ++ after.jobSource)
  require .bounds (decide (sources.length ≤ maxSourceChecks))
  let generation ← Check.okOr .bounds (checkedAdd before.generation 1)
  pure ⟨before, { after with generation }, operation, sources⟩

variable (state : Snapshot crypto)

def prepareJob (job : ContinuityJob) : Except StorageError (Publication crypto) := state.prepare (.job job)

def prepareAttempt (request : Request crypto) (body : List UInt8) : Except StorageError (Publication crypto) := do
  require .bounds (decide (body.length ≤ maxBodyBytes))
  state.prepare (.attempt ⟨request, body⟩)

def prepareResponse (proof : ResponseProof crypto) (body : List UInt8) : Except StorageError (Publication crypto) := do
  let attempt ← Check.okOr .stale state.attempt
  let job ← Check.okOr .corrupt state.job
  let index ← Check.okOr .bounds (checkedAdd state.records 1)
  let record ← ContinuityEvidenceRecord.new state.scope job index state.previousDigest attempt.request proof body
  state.prepare (.response record)

end Snapshot

/-- `check_sources`, with a reader of the local frames. -/
def Publication.checkSources (publication : Publication crypto) (head : AuthorHead) (read : UInt64 → Except StorageError (List UInt8)) :
    Except StorageError Unit := do
  require .wrongScope (head.scope == publication.before.scope.author)
  forM publication.sources fun source => do
    let raw ← read source.position.sequence
    source.check crypto publication.before.scope head raw

end Valhalla.Continuity
