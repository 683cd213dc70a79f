import Valhalla.Witness.Run
import Valhalla.Witness.Platform

/-!
# Replays of a whole manifest (`platform.rs`, and the final state in `codec.rs`)

A run capability lets one run of one assignment against one manifest happen. The run executes every case, and
its results are sealed under a challenge binding.
-/

namespace Valhalla.Witness
open Fallible FixedWidth Check

def manifestDomain : List UInt8 := "vhalla/witness/manifest/v1".toUTF8.toList
def stateDomain : List UInt8 := "vhalla/witness/state/v1".toUTF8.toList
def outputDomain : List UInt8 := "vhalla/witness/output/v1".toUTF8.toList
def receiptDomain : List UInt8 := "vhalla/witness/receipt/v1".toUTF8.toList

structure ReceiptHash where
  bytes : Digest
deriving DecidableEq, Repr

def ManifestHash.of (sha256 : Sha256) (bytes : List UInt8) : ManifestHash := ⟨digest sha256 manifestDomain bytes⟩
def StateHash.of (sha256 : Sha256) (bytes : List UInt8) : StateHash := ⟨digest sha256 stateDomain bytes⟩
def OutputHash.of (sha256 : Sha256) (bytes : List UInt8) : OutputHash := ⟨digest sha256 outputDomain bytes⟩
def ReceiptHash.of (sha256 : Sha256) (bytes : List UInt8) : ReceiptHash := ⟨digest sha256 receiptDomain bytes⟩

/-! ### Final states -/

def putSignal (signal : Signal) : List UInt8 :=
  putU64 signal.id ++ (putU16 signal.link ++ (putEndpoint signal.origin ++ (putU16 signal.toCell ++
    (putU8 signal.toPort.get ++ (putBool signal.bit ++ (putU32 signal.sentTick ++ (putU32 signal.deliverTick ++
    putOption putU32 signal.receiptSpark)))))))

def putCellState (cell : CellState) : List UInt8 :=
  putU16 cell.id ++ (putPoint cell.position ++ (putU8 (directionTag cell.heading) ++ (cell.memory.toList ++
    (cell.evidence.toList.flatMap (putOption putU32) ++ (putOption putSpark cell.cargo ++
    cell.inbox.toList.flatMap (putOption putSignal))))))

/-- A source or a depot. -/
def putSparkStore (store : SparkStore) : List UInt8 := putU16 store.id ++ putList putSpark store.sparks

def putBeaconState (beacon : BeaconState) : List UInt8 :=
  putU16 beacon.id ++ (putU32 beacon.charge ++ (putU32 beacon.delivered ++ (putU32 beacon.drained ++
    putBool beacon.exhausted)))

def putEnabled (entry : EnabledState) : List UInt8 := putU16 entry.id ++ putBool entry.enabled

def putDelivery (delivery : Delivery) : List UInt8 :=
  putU32 delivery.tick ++ (putSpark delivery.spark ++ putU16 delivery.beacon)

/-- A final state, for `StateHash`. There is no decoder. -/
def encodeState (state : State) : List UInt8 :=
  putU32 state.tick ++ (putList putCellState state.cells ++ (putList putSparkStore state.sources ++
    (putList putSparkStore state.depots ++ (putList putBeaconState state.beacons ++
    (putList putEnabled state.valves ++ (putList putEnabled state.links ++ (putList putSignal state.pending ++
    (putList putDelivery state.delivered ++ putU64 state.nextSignal))))))))

/-! ### Manifests -/

namespace ValidManifest
variable (m : ValidManifest)

/-- The digest a challenge carries as `task_manifest_hash`. -/
def hash (sha256 : Sha256) : ManifestHash := .of sha256 (encodeManifest m.manifest)

def fuelTotal : UInt64 := m.cases.foldl (fun total case => total + case.fuel) 0

end ValidManifest

/-! ### Runs -/

structure WorkAllowance where
  maxTotal : UInt64
deriving DecidableEq, Repr

inductive RunRole
  | prove | replay
deriving DecidableEq, Repr

/-- Permission for one run of one assignment against one manifest. -/
structure RunCapability where
  manifest : ManifestHash
  program : ProgramHash
  allowance : WorkAllowance
  role : RunRole
deriving DecidableEq, Repr

inductive RunRefused
  | manifest | program | allowance
  | engine (error : RunError)
deriving DecidableEq, Repr

structure WitnessRun where
  manifest : ManifestHash
  program : ProgramHash
  role : RunRole
  cases : List CaseResult
  useful : UInt64
  total : UInt64
deriving DecidableEq, Repr

structure ReceiptBinding where
  challengeId : Digest
  subjectKey : Digest
deriving DecidableEq, Repr

/-- A sealed run. -/
structure WitnessReceipt where
  challengeId : Digest
  subjectKey : Digest
  manifest : ManifestHash
  program : ProgramHash
  output : OutputHash
  useful : UInt64
  total : UInt64
  passed : Bool
  caseCount : UInt8
deriving DecidableEq, Repr

/-- The receipt in its wire form (`claim` of `response.rs`). -/
def WitnessReceipt.claim (receipt : WitnessReceipt) : ClaimedReceipt where
  challengeId := receipt.challengeId
  subjectKey := receipt.subjectKey
  manifest := receipt.manifest
  program := receipt.program
  output := receipt.output
  useful := receipt.useful
  total := receipt.total
  passed := receipt.passed
  caseCount := receipt.caseCount

def WitnessReceipt.encode (receipt : WitnessReceipt) : List UInt8 := receipt.claim.encode

/-- The bit-exact comparison after a replay. -/
def ClaimedReceipt.matches (claimed : ClaimedReceipt) (receipt : WitnessReceipt) : Bool := claimed.encode == receipt.encode

namespace WitnessRun
variable (run : WitnessRun)

def passed : Bool := run.cases.all (·.outcome.passed)

def outputHash (sha256 : Sha256) : OutputHash := .of sha256 (encodeOutput run.cases)

def intoReceipt (sha256 : Sha256) (binding : ReceiptBinding) : WitnessReceipt where
  challengeId := binding.challengeId
  subjectKey := binding.subjectKey
  manifest := run.manifest
  program := run.program
  output := run.outputHash sha256
  useful := run.useful
  total := run.total
  passed := run.passed
  caseCount := UInt8.ofNat run.cases.length

end WitnessRun

/-- The sums over the cases run so far, with their results. -/
structure Tallied where
  cases : List CaseResult
  useful : UInt64
  total : UInt64

def runCase (sha256 : Sha256) (world : World) (assignment : Assignment) (tallied : Tallied) (case : Case) :
    Except RunRefused Tallied := do
  let result ← (Witness.run world assignment case).result.mapError .engine
  let delivered ← result.finalState.beacons.foldlM
    (fun delivered beacon => okOr (.engine .arithmetic) (checkedAdd delivered beacon.delivered.toUInt64)) 0
  let useful ← okOr (.engine .arithmetic) (checkedAdd tallied.useful delivered)
  let work ← okOr (.engine .arithmetic) result.ledger.total
  let total ← okOr (.engine .arithmetic) (checkedAdd tallied.total work)
  let case : CaseResult :=
    { status := result.status
      ticksCompleted := result.ticksCompleted
      outcome := result.outcome
      finalState := .of sha256 (encodeState result.finalState)
      ledger := result.ledger
      useful := delivered }
  pure ⟨tallied.cases ++ [case], useful, total⟩

/-- Executes every case of the manifest under one consumed capability (`platform::run`). -/
def platformRun (sha256 : Sha256) (manifest : ValidManifest) (assignment : Assignment) (capability : RunCapability) :
    Except RunRefused WitnessRun := do
  require .manifest (capability.manifest == manifest.hash sha256)
  let program := ProgramHash.of sha256 (encodeAssignment assignment)
  require .program (capability.program == program)
  require .allowance (decide (manifest.fuelTotal ≤ capability.allowance.maxTotal))
  let tallied ← manifest.cases.foldlM (runCase sha256 manifest.world assignment) ⟨[], 0, 0⟩
  pure ⟨capability.manifest, program, capability.role, tallied.cases, tallied.useful, tallied.total⟩

end Valhalla.Witness
