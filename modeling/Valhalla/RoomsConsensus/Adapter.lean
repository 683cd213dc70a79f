import Valhalla.Journal.Runs
import Valhalla.RoomsConsensus.Application
import Valhalla.RoomsConsensus.BatchCodec

/-!
# The adapter between the engine and the journal (`Adapter` of `vhalla-rooms-consensus`)

A decided batch is replayed, journaled, published and applied. `absorb` takes a bundle of a peer through the same path: it checks the
certificate, the batch and the value, and derives every other field of the bundle that it journals.
-/

namespace Valhalla.RoomsConsensus
open Fallible FixedWidth Journal

structure CommitCertificate where
  bytes : List UInt8
  valueCommitment : Bytes32
  height : UInt64

inductive DecidedOutcome
  | acked | rejected | withheld
deriving DecidableEq

structure DecideFaults where
  recover : Faults
  read : Faults
  commit : Faults
  publishes : Bool

structure Adapter (host : Host) where
  journal : Journal host
  disk : Disk
  app : Application host.toCrypto
  pending : Std.ExtTreeMap Bytes32 Batch compare

namespace Adapter
variable {host : Host}

def hold (adapter : Adapter host) (batch : Batch) : Adapter host :=
  { adapter with pending := adapter.pending.insert (batch.valueId host.toCrypto) batch }

/-- `Journal::bundle` -/
def readBundle (host : Host) (faults : Faults) (id : Bytes32) : Fallible JournalError Disk (Option (Bundle host)) :=
  ask (faults.fault .readBundle) fun d => bundleAt host d.answers id

def readHeight (host : Host) (faults : Faults) (height : UInt64) : Fallible JournalError Disk (Option (Bundle host)) := do
  match ← ask (faults.fault .readHeightMarker) (Disk.readHeightMarker height) with
  | none => pure none
  | some id => readBundle host faults id

def committedAt (journal : Journal host) (faults : DecideFaults) (certificate : CommitCertificate) : Fallible JournalError Disk (Option Bool) := do
  let recovered ← journal.recover faults.recover
  if certificate.height > recovered.pin.height then pure none
  else do
    let bundle ← readHeight host faults.read certificate.height
    pure (some (bundle.bind (·.field 4) == some certificate.valueCommitment.toList))

def prunePending (adapter : Adapter host) : Adapter host :=
  { adapter with
    pending := adapter.pending.filter fun _ batch => batch.parent.commitment host.toCrypto == adapter.app.frontier.commitment host.toCrypto }

def publish (faults : DecideFaults) (checked : Checked host.toCrypto) (adapter : Adapter host) : DecidedOutcome × Adapter host :=
  if faults.publishes then (.acked, ({ adapter with app := Application.applyLocally checked } : Adapter host).prunePending)
  else (.withheld, adapter)

def reconcileCommitted (faults : DecideFaults) (certificate : CommitCertificate) (adapter : Adapter host) : DecidedOutcome × Adapter host :=
  if certificate.height ≤ adapter.app.frontier.height then (.acked, adapter)
  else
    let batch := (exec (readHeight host faults.read certificate.height) adapter.disk).1.toOption.bind fun bundle =>
      (bundle.bind (·.field 3)).bind fun raw => (Batch.decode raw).toOption
    match batch with
    | none => (.withheld, adapter)
    | some batch =>
      match adapter.app.validate batch with
      | .error _ => (.withheld, adapter)
      | .ok checked => publish faults checked adapter

def bundleParts (app : Application host.toCrypto) (certificate : CommitCertificate) (batch : Batch) (next : Frontier) : BundleParts where
  certificate := certificate.bytes
  predecessor := app.frontier.commitment host.toCrypto
  next := next.commitment host.toCrypto
  batch := batch.encode
  value := certificate.valueCommitment.toList
  configuration := (app.registry.policy.id host.toCrypto).bytes.toList
  controlRecord := next.control.toList
  debitMarker := next.value.toList
  height := certificate.height

def journalBatch (faults : DecideFaults) (certificate : CommitCertificate) (batch : Batch) (checked : Checked host.toCrypto)
    (adapter : Adapter host) : DecidedOutcome × Adapter host :=
  match Bundle.new host (bundleParts adapter.app certificate batch checked.next) with
  | .error _ => (.rejected, adapter)
  | .ok bundle =>
    match exec (adapter.journal.commit faults.commit bundle) adapter.disk with
    | (.ok _, disk) => publish faults checked { adapter with disk }
    | (.error (.conflict _ _), disk) => (.rejected, { adapter with disk })
    | (.error _, disk) => (.withheld, { adapter with disk })

def decide (faults : DecideFaults) (certificate : CommitCertificate) (adapter : Adapter host) : DecidedOutcome × Adapter host :=
  match exec (committedAt adapter.journal faults certificate) adapter.disk with
  | (.ok (some true), disk) => reconcileCommitted faults certificate { adapter with disk }
  | (.ok (some false), disk) => (.rejected, { adapter with disk })
  | (.error _, disk) => (.withheld, { adapter with disk })
  | (.ok none, disk) =>
    match adapter.pending[certificate.valueCommitment]? with
    | none => (.rejected, { adapter with disk })
    | some batch =>
      match adapter.app.validate batch with
      | .error _ => (.rejected, { adapter with disk })
      | .ok checked => journalBatch faults certificate batch checked { adapter with disk }

def absorb (verify : List UInt8 → UInt64 → Bytes32 → Bool) (faults : DecideFaults) (bundle : Bundle host) (adapter : Adapter host) :
    DecidedOutcome × Adapter host :=
  match bundle.field 0, bundle.field 3, bundle.field 4 with
  | some raw, some batchRaw, some value =>
    match Batch.decode batchRaw, Bundle.exactly 32 value with
    | .ok batch, .ok valueCommitment =>
      if valueCommitment ≠ batch.valueId host.toCrypto then (.rejected, adapter)
      else if !verify raw bundle.height valueCommitment then (.rejected, adapter)
      else decide faults ⟨raw, valueCommitment, bundle.height⟩ (adapter.hold batch)
    | _, _ => (.rejected, adapter)
  | _, _, _ => (.rejected, adapter)

/-- `committed_at_height`, where no read fails. -/
def committedAtHeight (adapter : Adapter host) (height : UInt64) : Option (Bundle host) :=
  ((adapter.disk.readHeightMarker height).toOption.bind id).bind fun id => (bundleAt host adapter.disk.answers id).toOption.bind fun bundle => bundle

end Adapter

end Valhalla.RoomsConsensus
