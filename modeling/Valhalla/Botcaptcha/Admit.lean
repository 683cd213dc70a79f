import Valhalla.Botcaptcha.Window

/-!
# The verifier (`admit.rs`)

Every step from a challenge and its response to evidence, with the one-use consumption last. Both response
paths are `accept` with their own checks between the challenge and the window.
-/

namespace Valhalla.Botcaptcha
open Fallible FixedWidth Check
open Valhalla.Witness hiding version

structure VerifiedWitness where
  scopeKey : Bytes32
  responseHash : Bytes32
  reward : Bytes32
  receipt : WitnessReceipt
  purpose : Purpose
  expiresAt : UInt64
deriving DecidableEq

structure VerifiedHashcash where
  scopeKey : Bytes32
  responseHash : Bytes32
  reward : Bytes32
  work : Bytes32
  difficulty : Difficulty
  purpose : Purpose
  expiresAt : UInt64
deriving DecidableEq

structure WitnessVerifier where
  startedAt : UInt64
  clock : UInt64
  allowance : WorkAllowance
  window : OneUseWindow
deriving DecidableEq

def windowError : WindowError → WitnessError
  | .replay => .replay
  | .equivocation => .equivocation
  | .capacity => .capacity
  | .subjectCapacity => .subjectCapacity

def reward (crypto : Crypto) (scopeKey responseHash : Bytes32) : Bytes32 :=
  digest crypto.sha256 rewardDomain (scopeKey.toList ++ responseHash.toList)

abbrev VerifierM := Fallible WitnessError WitnessVerifier

namespace WitnessVerifier
variable (crypto : Crypto)

def new (startedAt : UInt64) (allowance : WorkAllowance) (window : OneUseWindow) : WitnessVerifier :=
  ⟨startedAt, startedAt, allowance, window⟩

/-- The verifier after its clock was told `now`. -/
def advanced (v : WitnessVerifier) (now : UInt64) : WitnessVerifier := { v with clock := max v.clock now }

/-- The clock never runs backwards. -/
def advance (now : UInt64) : VerifierM UInt64 := do
  update fun v => v.advanced now
  view (·.clock)

def setAllowance (allowance : WorkAllowance) : VerifierM Unit := update fun v => { v with allowance }

/-- Drops expired entries. -/
def prune (now : UInt64) : VerifierM Unit := do
  let now ← advance now
  update fun v => { v with window := v.window.prune now }

/-- `self.window.consume(..).map_err(window_error)?`. -/
def consumeWindow (scopeKey subjectKey responseHash : Bytes32) (expiresAt : UInt64) : VerifierM Unit :=
  of fun v =>
    let (result, window) := exec (OneUseWindow.consume scopeKey subjectKey responseHash expiresAt) v.window
    (result.mapError windowError, { v with window })

def refuseConsumed (v : WitnessVerifier) (scopeKey responseHash : Bytes32) : Except WitnessError Unit :=
  match v.window.peek scopeKey responseHash with
  | some error => .error (windowError error)
  | none => .ok ()

variable {crypto} in
def accept {α : Type} (challenge : Challenge) (expected : ChallengeContext) (now : UInt64) (responseHash : Bytes32)
    (check : WitnessVerifier → VerifiedChallenge crypto → Except WitnessError α) :
    VerifierM (VerifiedChallenge crypto × α) := do
  let now ← advance now
  let verified ← examine fun v => VerifiedChallenge.verify crypto challenge expected v.startedAt now
  let checked ← examine fun v => check v verified
  consumeWindow verified.scopeKey verified.challenge.subjectKey responseHash verified.challenge.expiresAt
  pure (verified, checked)

end WitnessVerifier

/-! ### Witness mode -/

namespace Response

def bindsTo (crypto : Crypto) (response : Response) (challenge : Challenge) : Bool :=
  response.challengeId == challenge.challengeId && response.challengeHash == challenge.hash crypto &&
    response.subjectKey == challenge.subjectKey && response.taskManifestHash == challenge.taskManifestHash &&
    response.claimed.challengeId == challenge.challengeId && response.claimed.subjectKey == challenge.subjectKey &&
    response.claimed.manifest == challenge.taskManifestHash

/-- The top-level hashes and quantities are those of the receipt. -/
def repeatsClaim (crypto : Crypto) (response : Response) : Bool :=
  response.programHash == response.claimed.program && response.outputHash == response.claimed.output &&
    response.measuredWork.useful == response.claimed.useful && response.measuredWork.total == response.claimed.total &&
    response.receiptHash == ReceiptHash.of crypto.sha256 response.claimed.encode

end Response

namespace WitnessVerifier
variable (crypto : Crypto)

def checkReceipt (claimed : ClaimedReceipt) (contract : WorkContract) (receipt : WitnessReceipt) :
    Except WitnessError Unit := do
  require .receipt (claimed.matches receipt && receipt.claim == claimed)
  require .floor !decide (receipt.useful < contract.usefulFloor)
  require .ceiling !decide (receipt.total > contract.totalCeiling)
  require .notPassed !(contract.requirePassed && !receipt.passed)

def replayCandidate (v : WitnessVerifier) (verified : VerifiedChallenge crypto) (manifest : ValidManifest)
    (response : Response) : Except WitnessError WitnessReceipt := do
  let candidate ← (decodeCandidate response.candidate).mapError .codec
  let assignment ← (manifest.assign candidate).mapError fun _ => .candidate
  let program := ProgramHash.of crypto.sha256 (encodeAssignment assignment)
  require .program (program == response.claimed.program)
  require .allowance !decide (manifest.fuelTotal > v.allowance.maxTotal)
  let run ← (platformRun crypto.sha256 manifest assignment
    (verified.runCapability program v.allowance .replay)).mapError fun _ => .run
  pure (run.intoReceipt crypto.sha256 verified.receiptBinding)

def checkResponse (manifest : ValidManifest) (response : Response) (v : WitnessVerifier)
    (verified : VerifiedChallenge crypto) : Except WitnessError WitnessReceipt := do
  let contract ← okOr .algorithm verified.challenge.contract
  require .manifest (manifest.hash crypto.sha256 == verified.challenge.taskManifestHash)
  checkSignature crypto .weakSubjectKey .subjectSignature verified.challenge.subjectKey response.transcript
    response.signature
  v.refuseConsumed verified.scopeKey (response.hash crypto)
  require .binding (response.bindsTo crypto verified.challenge)
  require .claim (response.repeatsClaim crypto)
  let receipt ← v.replayCandidate crypto verified manifest response
  checkReceipt response.claimed contract receipt
  pure receipt

def verifyResponse (challenge : Challenge) (manifest : ValidManifest) (response : Response)
    (expected : ChallengeContext) (now : UInt64) : VerifierM VerifiedWitness := do
  let responseHash := response.hash crypto
  let (verified, receipt) ← accept challenge expected now responseHash (checkResponse crypto manifest response)
  pure
    { scopeKey := verified.scopeKey
      responseHash
      reward := reward crypto verified.scopeKey responseHash
      receipt
      purpose := verified.challenge.purpose
      expiresAt := verified.challenge.expiresAt }

def verifyBytes (challenge : List UInt8) (manifest : ValidManifest) (response : List UInt8) (expected : ChallengeContext)
    (now : UInt64) : VerifierM VerifiedWitness := do
  let challenge ← examine fun _ => (Challenge.decode challenge).mapError .codec
  let response ← examine fun _ => (Response.decode response).mapError .codec
  verifyResponse crypto challenge manifest response expected now

end WitnessVerifier

/-! ### Hashcash mode -/

def HashcashResponse.bindsTo (crypto : Crypto) (response : HashcashResponse) (challenge : Challenge) : Bool :=
  response.challengeId == challenge.challengeId && response.challengeHash == challenge.hash crypto &&
    response.subjectKey == challenge.subjectKey

namespace WitnessVerifier
variable (crypto : Crypto)

def checkHashcash (response : HashcashResponse) (v : WitnessVerifier) (verified : VerifiedChallenge crypto) :
    Except WitnessError (Bytes32 × Difficulty) := do
  let difficulty ← okOr .algorithm verified.challenge.difficulty
  checkSignature crypto .weakSubjectKey .subjectSignature verified.challenge.subjectKey response.transcript
    response.signature
  require .binding (response.bindsTo crypto verified.challenge)
  v.refuseConsumed verified.scopeKey (response.hash crypto)
  let work := workDigest crypto (verified.challenge.hash crypto) verified.challenge.subjectKey response.nonce
  require .insufficientWork !decide (leadingZeroBits work.toList < difficulty.bits.toNat)
  pure (work, difficulty)

def verifyHashcash (challenge : Challenge) (response : HashcashResponse) (expected : ChallengeContext) (now : UInt64) :
    VerifierM VerifiedHashcash := do
  let responseHash := response.hash crypto
  let (verified, work, difficulty) ← accept challenge expected now responseHash (checkHashcash crypto response)
  pure
    { scopeKey := verified.scopeKey
      responseHash
      reward := reward crypto verified.scopeKey responseHash
      work
      difficulty
      purpose := verified.challenge.purpose
      expiresAt := verified.challenge.expiresAt }

end WitnessVerifier

end Valhalla.Botcaptcha
