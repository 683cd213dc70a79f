import Valhalla.DirectRoom.Records

/-!
# Snapshots of one peer (`vhalla-direct-sync`)

A source accumulates signed room frames into a rolling digest and freezes a checkpoint; a receiver takes pages
of frames until it has reached the checkpoint. Lengths and positions are machine integers as in the source.
-/

namespace Valhalla.DirectSync
open Fallible FixedWidth Check
open Valhalla.DirectRoom (PinnedGenesis VerifiedPolicy VerifiedEvent maxEventBytes maxGenesisBytes
  maxPolicyBytes maxTextBytes maxWriters zeroBytes verifyPin)

def maxPageFrames : Nat := 32
def maxSnapshotRecords : UInt64 := 1000000
def maxSnapshotBytes : UInt64 := 8 * 1024 * 1024 * 1024
def minPolicyBytes : Nat := maxPolicyBytes - 32 * (maxWriters - 1) - 72 * maxWriters
def minEventBytes : Nat := maxEventBytes - maxTextBytes + 1
def minRecordBytes : Nat := if minPolicyBytes < minEventBytes then minPolicyBytes else minEventBytes
def maxRecordBytes : Nat := if maxPolicyBytes > maxEventBytes then maxPolicyBytes else maxEventBytes

inductive Error
  | bounds | source | room | epoch | sequence | checkpoint | digest | truncated | staleBase | pending | rollback | fork
  | protocol (error : DirectRoom.Error)
deriving DecidableEq, Repr

/-- Only public signed room frames participate in a snapshot. -/
inductive FrameKind
  | genesis | policy | event
deriving DecidableEq, Repr

def FrameKind.byte : FrameKind → UInt8
  | .genesis => 1
  | .policy => 2
  | .event => 3

/-- Untrusted wire input. -/
structure Frame where
  kind : FrameKind
  bytes : List UInt8
deriving DecidableEq

structure Checkpoint where
  source : DirectRoom.Bytes32
  room : DirectRoom.RoomId
  epoch : DirectRoom.Bytes32
  records : UInt64
  bytes : UInt64
  digest : DirectRoom.Bytes32
deriving DecidableEq

/-- One frozen-source range; positions are one-based and inclusive. -/
structure Page where
  checkpointId : DirectRoom.Bytes32
  first : UInt64
  last : UInt64
  frames : List Frame

/-- Contiguous verified local prefix. -/
@[ext] structure Progress where
  records : UInt64
  bytes : UInt64
  digest : DirectRoom.Bytes32
deriving DecidableEq

inductive Coverage
  | pending | complete
deriving DecidableEq, Repr

variable {crypto : DirectRoom.Crypto}

/-- A signature-checked, room-scoped public record. -/
inductive VerifiedRecord (crypto : DirectRoom.Crypto)
  | genesis (record : PinnedGenesis crypto)
  | policy (record : VerifiedPolicy crypto)
  | event (record : VerifiedEvent crypto)
deriving DecidableEq

namespace VerifiedRecord

def kind : VerifiedRecord crypto → FrameKind
  | .genesis _ => .genesis
  | .policy _ => .policy
  | .event _ => .event

def encode : VerifiedRecord crypto → List UInt8
  | .genesis record => record.verified.encode
  | .policy record => record.encode
  | .event record => record.encode

def frame (record : VerifiedRecord crypto) : Frame := ⟨record.kind, record.encode⟩

end VerifiedRecord

def checkpointDomain : List UInt8 := "vhalla/direct-sync/checkpoint/v1".toUTF8.toList ++ [0]
def sourceDomain : List UInt8 := "vhalla/direct-sync/source/v1".toUTF8.toList ++ [0]
def frameDomain : List UInt8 := "vhalla/direct-sync/frame/v1".toUTF8.toList ++ [0]

namespace Checkpoint

def id (crypto : DirectRoom.Crypto) (checkpoint : Checkpoint) : DirectRoom.Bytes32 :=
  crypto.sha256 (checkpointDomain ++ (checkpoint.source.toList ++ (checkpoint.room.bytes.toList ++
    (checkpoint.epoch.toList ++ (toBe checkpoint.records ++ (toBe checkpoint.bytes ++ checkpoint.digest.toList))))))

def check (checkpoint : Checkpoint) (genesis : PinnedGenesis crypto) : Except Error Unit := do
  require .source (checkpoint.source != zeroBytes)
  require .room (checkpoint.room == genesis.verified.id)
  require .epoch (checkpoint.epoch != zeroBytes)
  require .bounds !(checkpoint.records == 0 || decide (checkpoint.records > maxSnapshotRecords) ||
    decide (checkpoint.bytes > maxSnapshotBytes))
  let initial := UInt64.ofNat genesis.verified.encode.length
  let minimum := initial + (checkpoint.records - 1) * UInt64.ofNat minRecordBytes
  let maximum := initial + (checkpoint.records - 1) * UInt64.ofNat maxRecordBytes
  require .bounds !(decide (checkpoint.bytes < minimum) || decide (checkpoint.bytes > maximum))

end Checkpoint

def initial (crypto : DirectRoom.Crypto) (source : DirectRoom.Bytes32) (room : DirectRoom.RoomId) (epoch : DirectRoom.Bytes32) : Progress :=
  ⟨0, 0, crypto.sha256 (sourceDomain ++ (source.toList ++ (room.bytes.toList ++ epoch.toList)))⟩

def frameMessage (crypto : DirectRoom.Crypto) (digest : DirectRoom.Bytes32) (records : UInt64) (frame : Frame) : List UInt8 :=
  frameDomain ++ (digest.toList ++ (toBe records ++ ([frame.kind.byte] ++ (toBe (UInt64.ofNat frame.bytes.length) ++
    (crypto.sha256 frame.bytes).toList))))

def advance (crypto : DirectRoom.Crypto) (previous : Progress) (frame : Frame) : Except Error Progress := do
  let records ← okOr .bounds (checkedAdd previous.records 1)
  let bytes ← okOr .bounds (checkedAdd previous.bytes (UInt64.ofNat frame.bytes.length))
  require .bounds !(decide (records > maxSnapshotRecords) || decide (bytes > maxSnapshotBytes))
  pure ⟨records, bytes, crypto.sha256 (frameMessage crypto previous.digest records frame)⟩

def FrameKind.bound : FrameKind → Nat
  | .genesis => maxGenesisBytes
  | .policy => maxPolicyBytes
  | .event => maxEventBytes

/-- `?` on a result of the room crate. -/
def room {α : Type} (result : Except DirectRoom.Error α) : Except Error α := result.mapError .protocol

def decodeFrame (genesis : PinnedGenesis crypto) (frame : Frame) : Except Error (VerifiedRecord crypto) :=
  match frame.kind with
  | .genesis => do
    let signed ← room (DirectRoom.Signed.decode frame.bytes)
    let record ← room (verifyPin signed genesis.verified.id)
    require .room (record.verified.encode == genesis.verified.encode)
    pure (.genesis record)
  | .policy => do
    let signed ← room (DirectRoom.Signed.decode frame.bytes)
    let record ← room signed.verify
    require .room (record.claims.room == genesis.verified.id)
    require (.protocol .owner) (record.claims.owner == genesis.verified.claims.owner)
    pure (.policy record)
  | .event => do
    let signed ← room (DirectRoom.Signed.decode frame.bytes)
    let record ← room signed.verify
    require .room (record.claims.room == genesis.verified.id)
    pure (.event record)

def verify (genesis : PinnedGenesis crypto) (sequence : UInt64) (frame : Frame) : Except Error (VerifiedRecord crypto) := do
  require .bounds !(frame.bytes.isEmpty || decide (frame.bytes.length > frame.kind.bound))
  require .sequence ((sequence == 1) == (frame.kind == .genesis))
  let record ← decodeFrame genesis frame
  require (.protocol .encoding) (record.encode == frame.bytes)
  pure record

/-! ### Source -/

structure SourceAccumulator (crypto : DirectRoom.Crypto) where
  genesis : PinnedGenesis crypto
  source : DirectRoom.Bytes32
  epoch : DirectRoom.Bytes32
  progress : Progress
deriving DecidableEq

namespace SourceAccumulator

def new (source : DirectRoom.Bytes32) (genesis : PinnedGenesis crypto) (epoch : DirectRoom.Bytes32) : Except Error (SourceAccumulator crypto) := do
  require .source (source != zeroBytes)
  require .epoch (epoch != zeroBytes)
  pure ⟨genesis, source, epoch, initial crypto source genesis.verified.id epoch⟩

def push (frame : Frame) : Fallible Error (SourceAccumulator crypto) Unit := do
  let sequence ← examine fun acc => Check.okOr .bounds (checkedAdd acc.progress.records 1)
  let _ ← examine fun acc => verify acc.genesis sequence frame
  let next ← examine fun acc => advance crypto acc.progress frame
  update fun acc => { acc with progress := next }

def statement (acc : SourceAccumulator crypto) : Checkpoint :=
  ⟨acc.source, acc.genesis.verified.id, acc.epoch, acc.progress.records, acc.progress.bytes, acc.progress.digest⟩

def checkpoint (acc : SourceAccumulator crypto) : Except Error Checkpoint := do
  acc.statement.check acc.genesis
  pure acc.statement

end SourceAccumulator

/-! ### Receiver -/

structure PreparedPage (crypto : DirectRoom.Crypto) where
  checkpoint : DirectRoom.Bytes32
  base : Progress
  next : Progress
  frames : List (VerifiedRecord crypto)
deriving DecidableEq

structure Receiver (crypto : DirectRoom.Crypto) where
  genesis : PinnedGenesis crypto
  target : Checkpoint
  progress : Progress
deriving DecidableEq

namespace Receiver

def begin (genesis : PinnedGenesis crypto) (expectedSource authenticatedSource : DirectRoom.Bytes32) (target : Checkpoint) :
    Except Error (Receiver crypto) := do
  require .source !(expectedSource != authenticatedSource || expectedSource != target.source)
  target.check genesis
  pure ⟨genesis, target, initial crypto target.source target.room target.epoch⟩

variable (receiver : Receiver crypto)

def coverage : Coverage :=
  if receiver.progress.records = receiver.target.records ∧ receiver.progress.bytes = receiver.target.bytes ∧
    receiver.progress.digest = receiver.target.digest then .complete else .pending

def takeFrame (sofar : Progress × List (VerifiedRecord crypto)) (frame : Frame) :
    Except Error (Progress × List (VerifiedRecord crypto)) := do
  let record ← verify receiver.genesis (sofar.1.records + 1) frame
  let next ← advance crypto sofar.1 frame
  require .digest !decide (next.bytes > receiver.target.bytes)
  pure (next, sofar.2 ++ [record])

def preparePage (page : Page) : Except Error (PreparedPage crypto) := do
  require .checkpoint (page.checkpointId == receiver.target.id crypto)
  require .bounds !(page.frames.isEmpty || decide (page.frames.length > maxPageFrames))
  require .sequence (page.first == receiver.progress.records + 1)
  let last ← okOr .sequence (checkedAdd page.first (UInt64.ofNat page.frames.length - 1))
  require .sequence (page.last == last)
  require .sequence !decide (page.last > receiver.target.records)
  let (next, frames) ← page.frames.foldlM receiver.takeFrame (receiver.progress, [])
  require .digest !(next.records == receiver.target.records &&
    (next.bytes != receiver.target.bytes || next.digest != receiver.target.digest))
  require .digest !decide
    (next.bytes + (receiver.target.records - next.records) * UInt64.ofNat minRecordBytes > receiver.target.bytes)
  pure ⟨receiver.target.id crypto, receiver.progress, next, frames⟩

def commitAfterPersist (prepared : PreparedPage crypto) : Fallible Error (Receiver crypto) Coverage := do
  examine fun receiver => require .staleBase
    (prepared.checkpoint == receiver.target.id crypto && prepared.base == receiver.progress)
  update fun receiver => { receiver with progress := prepared.next }
  view coverage

def finish : Except Error Checkpoint := do
  require .truncated (receiver.coverage == .complete)
  pure receiver.target

/-- What `extend` asks of a checkpoint; whether it is a new one. -/
def checkExtension (authenticatedSource : DirectRoom.Bytes32) (target : Checkpoint) : Except Error Bool := do
  require .pending (receiver.coverage == .complete)
  require .source !(authenticatedSource != receiver.target.source || target.source != receiver.target.source)
  require .room (target.room == receiver.target.room)
  require .epoch (target.epoch == receiver.target.epoch)
  if target.records = receiver.target.records then
    if target = receiver.target then pure false else .error .fork
  else do
    require .rollback !(decide (target.records < receiver.target.records) || decide (target.bytes < receiver.target.bytes))
    target.check receiver.genesis
    require .bounds !decide (target.bytes - receiver.progress.bytes <
      (target.records - receiver.progress.records) * UInt64.ofNat minRecordBytes)
    pure true

def extend (authenticatedSource : DirectRoom.Bytes32) (target : Checkpoint) : Fallible Error (Receiver crypto) Unit := do
  let changed ← examine fun receiver => receiver.checkExtension authenticatedSource target
  if changed then update fun receiver => { receiver with target } else pure ()

end Receiver

end Valhalla.DirectSync
