import Valhalla.Lib.Ascending
import Valhalla.Social.Derive
import Valhalla.Social.Roundtrip

/-!
# Evidence retention (`archive.rs` of `vhalla-social`)

Archives, ingestion, snapshots and their union. An archive carries the fact that its records are filed under
their own ids.
-/

namespace Valhalla.Social
open Fallible FixedWidth Check

def snapshotMagic : List UInt8 := [86, 72, 83, 65, 0, 0, 0, 1]
def snapshotHeader : Nat := 28
def maxSnapshotBytes : Nat := snapshotHeader + maxRecords * (4 + maxRecordBytes)
def rootDomain : List UInt8 := "vhalla/social/archive/evidence/v1\x00".toUTF8.toList

def Limits.check (limits : Limits) : Except Error Limits := do
  require .bounds !(limits.records == 0 || decide (limits.records > maxRecords) || limits.controlReserve == 0 ||
    decide (limits.controlReserve ≥ limits.records) || limits.dataPerOwner == 0 || limits.dataPerWriter == 0 ||
    limits.controlPerOwner == 0 || limits.pending == 0 || limits.pendingPerSigner == 0 ||
    decide (limits.dataPerOwner > limits.records) || decide (limits.dataPerWriter > limits.dataPerOwner) ||
    decide (limits.controlPerOwner > limits.controlReserve) || decide (limits.pending > limits.records - limits.controlReserve) ||
    decide (limits.pendingPerSigner > limits.pending))
  pure limits

/-- Incoming work (`archive::Budget`). -/
structure InputBudget where
  records : Nat
  bytes : Nat
deriving DecidableEq

def InputBudget.new (records bytes : Nat) : Except Error InputBudget := do
  require .bounds !(decide (records > maxRecords) || decide (bytes > maxSnapshotBytes))
  pure ⟨records, bytes⟩

def InputBudget.charge (budget : InputBudget) (bytes : Nat) : Except Error InputBudget := do
  require .budget !(budget.records == 0 || decide (bytes > budget.bytes))
  pure ⟨budget.records - 1, budget.bytes - bytes⟩

variable {crypto : Crypto}

/-- Signed facts within local bounds. -/
structure Archive (crypto : Crypto) where
  realm : RealmId
  limits : Limits
  records : Std.ExtTreeMap RecordId (VerifiedRecord crypto) compare
  buckets : Std.ExtTreeMap RecordId Bucket compare
  keyed : ∀ id (record : VerifiedRecord crypto), records[id]? = some record → record.id = id

structure IngestReceipt where
  id : RecordId
  inserted : Bool
  bucket : Bucket
  root : EvidenceRoot
deriving DecidableEq

namespace Archive

def new (realm : RealmId) (limits : Limits) : Except Error (Archive crypto) := do
  let limits ← limits.check
  pure ⟨realm, limits, ∅, ∅, fun id record h => by simp at h⟩

def factsOf (records : Std.ExtTreeMap RecordId (VerifiedRecord crypto) compare) : Std.ExtTreeMap RecordId Fact compare :=
  records.map fun _ record => record.fact

variable (a : Archive crypto)

def evidence : Evidence := ⟨a.realm, a.limits, factsOf a.records⟩

def root : EvidenceRoot :=
  ⟨crypto.sha256 (rootDomain ++ (toBe a.realm.value ++ (toBe (UInt32.ofNat a.records.size) ++ a.records.keys.flatMap putId)))⟩

def keep (record : VerifiedRecord crypto) : Archive crypto where
  realm := a.realm
  limits := a.limits
  records := a.records.insert record.id record
  buckets := a.buckets
  keyed id r h := by
    rw [Maps.getElem?_insert] at h
    split at h
    · rename_i he
      cases h
      exact he
    · exact a.keyed id r h

def checkRealm (record : VerifiedRecord crypto) : Except Error Unit :=
  match record.body with
  | .social _ realm .. => require .context (realm == a.realm)
  | _ => .ok ()

/-- The final quotas on a classification. -/
def withinLimits (limits : Limits) (accounting : Accounting) : Bool :=
  !(decide (accounting.data + accounting.pressure.pending + accounting.pressure.controlSpill >
      limits.records - limits.controlReserve) ||
    decide (accounting.pressure.pending + accounting.pressure.dataSpill + accounting.pressure.controlSpill > limits.pending) ||
    accounting.signerPending.toList.any fun n => decide (n.2 > limits.pendingPerSigner))

def recount : Accounting := (ControlView.new a.evidence 0).accounting

def reclassify : Except Error (Archive crypto × CapacityPressure) := do
  require .capacity (decide (a.records.size ≤ a.limits.records))
  require .capacity (withinLimits a.limits a.recount)
  pure ({ a with buckets := a.recount.buckets }, a.recount.pressure)

def checkSpill (pressure : CapacityPressure) : Bucket → Except Error Unit
  | .data owner => require .capacity !pressure.owners[owner]?.any (·.dataSpill != 0)
  | _ => .ok ()

/-- `ingest` of a verified record. -/
def retain (record : VerifiedRecord crypto) : Except Error (IngestReceipt × Archive crypto) := do
  a.checkRealm record
  match a.buckets[record.id]? with
  | some bucket => pure (⟨record.id, false, bucket, a.root⟩, a)
  | none => do
    require .capacity (a.records.size != a.limits.records)
    let (candidate, pressure) ← (a.keep record).reclassify
    let bucket ← okOr .incomplete candidate.buckets[record.id]?
    checkSpill pressure bucket
    pure (⟨record.id, true, bucket, candidate.root⟩, candidate)

end Archive

def VerifiedRecord.decode (raw : List UInt8) : Except Error (VerifiedRecord crypto) := do
  let signed ← SignedRecord.decode raw
  VerifiedRecord.new signed

namespace Archive

/-- A failure costs budget and nothing else. -/
def ingest (raw : List UInt8) : Fallible Error (Archive crypto × InputBudget) IngestReceipt := do
  let budget ← examine fun s => s.2.charge raw.length
  update fun s => (s.1, budget)
  examine fun _ => require .bounds (decide (raw.length ≤ maxRecordBytes))
  let record ← examine fun _ => VerifiedRecord.decode raw
  let (receipt, next) ← examine fun s => s.1.retain record
  update fun s => (next, s.2)
  pure receipt

/-! ### Snapshots -/

def putFrame (record : VerifiedRecord crypto) : List UInt8 := toBe (UInt32.ofNat record.encode.length) ++ record.encode

variable (a : Archive crypto)

def snapshot : List UInt8 :=
  snapshotMagic ++ (toBe a.realm.value ++ (toBe (UInt32.ofNat a.records.size) ++ a.records.toList.flatMap fun r => putFrame r.2))

end Archive

def getMagicBytes : GetM Unit := do
  let found ← Reader.take .encoding snapshotMagic.length
  if found ≠ snapshotMagic then throw .encoding else pure ()

def getSameRealm (realm : RealmId) : GetM RealmId := do
  let found ← getRealm
  if found ≠ realm then throw .context else pure found

def getFrameCount (limit : Nat) : GetM Nat := do
  let n ← (getInt : GetM UInt32)
  if n.toNat > limit then throw .capacity else pure n.toNat

def getFrameLength : GetM Nat := do
  let n ← (getInt : GetM UInt32)
  if n.toNat > maxRecordBytes then throw .bounds else pure n.toNat

def getFrame : GetM (List UInt8) := do
  let n ← getFrameLength
  Reader.take .encoding n

/-- The frames that `preflight_snapshot` walks over. -/
def getFrames (realm : RealmId) (limits : Limits) : GetM (List (List UInt8)) := do
  getMagicBytes
  let _ ← getSameRealm realm
  let n ← getFrameCount limits.records
  Reader.replicate getFrame n

def preflightSnapshot (realm : RealmId) (limits : Limits) (raw : List UInt8) : Except Error (List (List UInt8)) := do
  require .bounds (decide (raw.length ≤ maxSnapshotBytes))
  require .encoding (decide (snapshotHeader ≤ raw.length))
  Reader.decode (fun _ _ => .bounds) (fun _ => .encoding) maxSnapshotBytes (getFrames realm limits) raw

namespace Archive

def loadFrame (acc : Archive crypto × Option RecordId) (frame : List UInt8) : Except Error (Archive crypto × Option RecordId) := do
  let record ← VerifiedRecord.decode frame
  acc.1.checkRealm record
  require .encoding (Ascending.follows compare acc.2 record.id)
  pure (acc.1.keep record, some record.id)

/-- The second pass reads the frames again. -/
def decodeSnapshot (realm : RealmId) (limits : Limits) (raw : List UInt8) : Except Error (Archive crypto) := do
  let out ← Archive.new realm limits
  let frames ← preflightSnapshot realm limits raw
  let (out, _) ← frames.foldlM loadFrame (out, none)
  pure out

def fromSnapshot (realm : RealmId) (limits : Limits) (raw : List UInt8) : Except Error (Archive crypto) := do
  let out ← decodeSnapshot realm limits raw
  let (out, _) ← out.reclassify
  pure out

def mergeRecord (candidate : Archive crypto) (r : RecordId × VerifiedRecord crypto) : Except Error (Archive crypto) := do
  let candidate := if candidate.records.contains r.1 then candidate else candidate.keep r.2
  require .capacity (decide (candidate.records.size ≤ candidate.limits.records))
  pure candidate

def mergedSnapshot (a : Archive crypto) (raw : List UInt8) : Except Error (Archive crypto) := do
  let incoming ← decodeSnapshot a.realm a.limits raw
  let candidate ← incoming.records.toList.foldlM mergeRecord a
  let (candidate, _) ← candidate.reclassify
  pure candidate

-- Comparing archives must not start to classify them.
attribute [irreducible] Archive.recount

end Archive
end Valhalla.Social
