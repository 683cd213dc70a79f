import Valhalla.Witness.Manifest
import Valhalla.Witness.State

/-!
# Case results and receipts (`hash.rs`, `platform.rs`, and their part of `codec.rs`)

SHA-256 is a parameter: a digest is its value on the domain, the length and the bytes.
-/

namespace Valhalla.Witness
open Fallible FixedWidth

/-! ### Digests -/

abbrev Digest := Vector UInt8 32

/-- The hash function of the `sha2` crate. -/
abbrev Sha256 := List UInt8 → Digest

def assignmentDomain : List UInt8 := "vhalla/witness/assignment/v1".toUTF8.toList

/-- `SHA-256(domain || len_u32_be || bytes)`, the length capped at `u32::MAX`. -/
def digest (sha256 : Sha256) (domain bytes : List UInt8) : Digest :=
  sha256 (domain ++ toBe (UInt32.ofNat (min bytes.length (2 ^ 32 - 1))) ++ bytes)

structure ProgramHash where
  bytes : Digest
deriving DecidableEq, Repr

structure ManifestHash where
  bytes : Digest
deriving DecidableEq, Repr

structure StateHash where
  bytes : Digest
deriving DecidableEq, Repr

structure OutputHash where
  bytes : Digest
deriving DecidableEq, Repr

def ProgramHash.of (sha256 : Sha256) (bytes : List UInt8) : ProgramHash := ⟨digest sha256 assignmentDomain bytes⟩

/-! ### Case results -/

def ledgerBytes : Nat := 13 * 8
def caseResultBytes : Nat := 1 + 4 + 4 + 32 + ledgerBytes + 8

structure CaseResult where
  status : RunStatus
  ticksCompleted : UInt32
  outcome : Outcome
  finalState : StateHash
  ledger : Ledger
  useful : UInt64
deriving DecidableEq, Repr

def getHash : GetM Digest := getBytes 32 .hash

def putLedger (ledger : Ledger) : List UInt8 :=
  putU64 ledger.loading ++ (putU64 ledger.scheduling ++ (putU64 ledger.conditions ++ (putU64 ledger.sensors ++
    (putU64 ledger.memoryReads ++ (putU64 ledger.memoryWrites ++ (putU64 ledger.actions ++ (putU64 ledger.messages ++
    (putU64 ledger.transfers ++ (putU64 ledger.checking ++ (putU64 ledger.draining ++ (putU64 ledger.copying ++
    putU64 ledger.construction)))))))))))

def getLedger : GetM Ledger := do
  let loading ← getU64 .ledger
  let scheduling ← getU64 .ledger
  let conditions ← getU64 .ledger
  let sensors ← getU64 .ledger
  let memoryReads ← getU64 .ledger
  let memoryWrites ← getU64 .ledger
  let actions ← getU64 .ledger
  let messages ← getU64 .ledger
  let transfers ← getU64 .ledger
  let checking ← getU64 .ledger
  let draining ← getU64 .ledger
  let copying ← getU64 .ledger
  let construction ← getU64 .ledger
  pure ⟨loading, scheduling, conditions, sensors, memoryReads, memoryWrites, actions, messages, transfers, checking,
    draining, copying, construction⟩

def statusTag : RunStatus → UInt8
  | .complete => 1
  | .fuelExhausted => 2
  | .activationLimit => 3

def getStatus : GetM RunStatus := do
  match ← getU8 .status with
  | 1 => pure .complete
  | 2 => pure .fuelExhausted
  | 3 => pure .activationLimit
  | found => throw (.discriminant .status found)

def putOutcome (outcome : Outcome) : List UInt8 :=
  putBool outcome.allBeaconsPositive ++ (putBool outcome.quotasMet ++ (putBool outcome.conserved ++
    putBool outcome.passed))

def getOutcome : GetM Outcome := do
  let allBeaconsPositive ← getBool .bool
  let quotasMet ← getBool .bool
  let conserved ← getBool .bool
  let passed ← getBool .bool
  pure ⟨allBeaconsPositive, quotasMet, conserved, passed⟩

def putCaseResult (result : CaseResult) : List UInt8 :=
  putU8 (statusTag result.status) ++ (putU32 result.ticksCompleted ++ (putOutcome result.outcome ++
    (result.finalState.bytes.toList ++ (putLedger result.ledger ++ putU64 result.useful))))

def getCaseResult : GetM CaseResult := do
  let status ← getStatus
  let ticksCompleted ← getU32 .status
  let outcome ← getOutcome
  let finalState ← getHash
  let ledger ← getLedger
  let useful ← getU64 .ledger
  pure ⟨status, ticksCompleted, outcome, ⟨finalState⟩, ledger, useful⟩

def encodeOutput (results : List CaseResult) : List UInt8 := putList putCaseResult results

def decodeOutput (raw : List UInt8) : Except CodecError (List CaseResult) :=
  decodeBounded (1 + maxCases * caseResultBytes) (getList maxCases getCaseResult) raw

/-! ### Receipts -/

def receiptBytes : Nat := 2 + 32 + 32 + 32 + 32 + 32 + 8 + 8 + 1 + 1

/-- What a prover sends. The source's sealed `WitnessReceipt` has the same fields and encoding. -/
structure ClaimedReceipt where
  challengeId : Digest
  subjectKey : Digest
  manifest : ManifestHash
  program : ProgramHash
  output : OutputHash
  useful : UInt64
  total : UInt64
  passed : Bool
  caseCount : UInt8
deriving DecidableEq, Repr

def putReceipt (receipt : ClaimedReceipt) : List UInt8 :=
  receipt.challengeId.toList ++ (receipt.subjectKey.toList ++ (receipt.manifest.bytes.toList ++
    (receipt.program.bytes.toList ++ (receipt.output.bytes.toList ++ (putU64 receipt.useful ++
    (putU64 receipt.total ++ (putBool receipt.passed ++ putU8 receipt.caseCount)))))))

def getReceipt : GetM ClaimedReceipt := do
  let challengeId ← getHash
  let subjectKey ← getHash
  let manifest ← getHash
  let program ← getHash
  let output ← getHash
  let useful ← getU64 .ledger
  let total ← getU64 .ledger
  let passed ← getBool .bool
  let caseCount ← getU8 .count
  pure ⟨challengeId, subjectKey, ⟨manifest⟩, ⟨program⟩, ⟨output⟩, useful, total, passed, caseCount⟩

def ClaimedReceipt.encode (receipt : ClaimedReceipt) : List UInt8 := putHeader ++ putReceipt receipt

def ClaimedReceipt.decode (raw : List UInt8) : Except CodecError ClaimedReceipt :=
  decodeBounded receiptBytes (do header; getReceipt) raw

end Valhalla.Witness
