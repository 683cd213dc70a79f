import Valhalla.Botcaptcha.Capacity
import Valhalla.Session.Envelope
import Valhalla.Witness.Receipts

/-!
# Issuers and subjects (`challenge.rs`, `response.rs`, `hashcash.rs`)

What an issuer signs is a challenge for its whole lifetime, and what the subject answers with its own key is admitted by every
verifier that is open for it. A refusal says something about the verifier or the work, never about how the answer was made.
-/

namespace Valhalla.Botcaptcha
open Fallible FixedWidth Check
open Session (SigningKey)
open Valhalla.Witness hiding version

/-- A key pair whose verifying key is no weak point and accepts what the key signs. -/
structure Sound (crypto : Crypto) (key : SigningKey) : Prop where
  decodes : crypto.decodesKey key.verifyingKey = true
  strong : crypto.isWeak key.verifyingKey = false
  verifies : ∀ message, crypto.verifyStrict key.verifyingKey message (key.sign message) = true

/-! ### Issuers -/

inductive IssueError
  | lifetime | clock
deriving DecidableEq, Repr

structure ChallengeIssuer where
  key : SigningKey

namespace ChallengeIssuer
variable (issuer : ChallengeIssuer) (entropy : Bytes32) (now lifetime : UInt64) (subjectKey : Bytes32) (realm : RealmId) (room : RoomId)
  (purpose : Purpose)

def issueWith (algorithm : Algorithm) (taskManifestHash : ManifestHash) (requirement : Requirement) : Except IssueError Challenge := do
  require .lifetime !(lifetime == 0 || decide (lifetime > maxChallengeLifetime))
  let expiresAt ← okOr .clock (checkedAdd now lifetime)
  let challenge : Challenge := ⟨version, algorithm, entropy, issuer.key.verifyingKey, subjectKey, realm, room, purpose,
    taskManifestHash, now, expiresAt, requirement, Vector.replicate 64 0⟩
  pure { challenge with signature := issuer.key.sign challenge.transcript }

def issue (taskManifestHash : ManifestHash) (contract : WorkContract) : Except IssueError Challenge :=
  issuer.issueWith entropy now lifetime subjectKey realm room purpose .witness taskManifestHash (.witness contract)

def issueHashcash (difficulty : Difficulty) : Except IssueError Challenge :=
  issuer.issueWith entropy now lifetime subjectKey realm room purpose .hashcash ⟨Vector.replicate 32 0⟩ (.hashcash difficulty)

end ChallengeIssuer

/-! ### Subjects -/

inductive ProveError
  | subject | algorithm | manifest
  | candidate (error : ManifestError)
  | run (refused : RunRefused)
deriving DecidableEq, Repr

section
variable {crypto : Crypto}

variable (crypto) in
/-- The response that carries a receipt, signed. -/
def Response.seal (challenge : Challenge) (candidate : List UInt8) (receipt : WitnessReceipt) (key : SigningKey) : Response :=
  let response : Response :=
    { version := Botcaptcha.version
      proofProfile := .transparentReceipt
      challengeId := challenge.challengeId
      challengeHash := challenge.hash crypto
      subjectKey := key.verifyingKey
      taskManifestHash := receipt.manifest
      programHash := receipt.program
      outputHash := receipt.output
      receiptHash := .of crypto.sha256 receipt.encode
      measuredWork := ⟨receipt.useful, receipt.total⟩
      hashcashNonce := none
      candidate
      claimed := receipt.claim
      signature := Vector.replicate 64 0 }
  { response with signature := key.sign response.transcript }

/-- Runs the candidate under the challenge and signs the response. -/
def respond (challenge : VerifiedChallenge crypto) (manifest : ValidManifest) (candidate : List (UInt16 × Program))
    (allowance : WorkAllowance) (key : SigningKey) : Except ProveError Response := do
  require .subject (key.verifyingKey == challenge.challenge.subjectKey)
  require .algorithm (challenge.challenge.algorithm == .witness)
  require .manifest (manifest.hash crypto.sha256 == challenge.challenge.taskManifestHash)
  let assignment ← (manifest.assign candidate).mapError .candidate
  let program := ProgramHash.of crypto.sha256 (encodeAssignment assignment)
  let run ← (platformRun crypto.sha256 manifest assignment (challenge.runCapability program allowance .prove)).mapError .run
  let receipt := run.intoReceipt crypto.sha256 challenge.receiptBinding
  pure (.seal crypto challenge.challenge (encodeCandidate candidate) receipt key)

inductive SolveError
  | algorithm | exhausted
deriving DecidableEq, Repr

/-- The first of `left` nonces from `nonce` on that meets the target. -/
def findNonce (meets : UInt64 → Bool) : Nat → UInt64 → Option UInt64
  | 0, _ => none
  | left + 1, nonce => if meets nonce then some nonce else findNonce meets left (nonce + 1)

variable (crypto) in
def meetsTarget (challenge : Challenge) (difficulty : Difficulty) (nonce : UInt64) : Bool :=
  decide (difficulty.bits.toNat ≤ leadingZeroBits (workDigest crypto (challenge.hash crypto) challenge.subjectKey nonce).toList)

/-- Searches the nonces `0..maxAttempts`. -/
def solve (challenge : VerifiedChallenge crypto) (maxAttempts : UInt64) : Except SolveError UInt64 := do
  let difficulty ← okOr .algorithm challenge.challenge.difficulty
  okOr .exhausted (findNonce (meetsTarget crypto challenge.challenge difficulty) maxAttempts.toNat 0)

inductive RespondError
  | subject | algorithm
deriving DecidableEq, Repr

variable (crypto) in
def HashcashResponse.seal (challenge : Challenge) (nonce : UInt64) (key : SigningKey) : HashcashResponse :=
  let response : HashcashResponse := ⟨Botcaptcha.version, challenge.challengeId, challenge.hash crypto, key.verifyingKey, nonce,
    Vector.replicate 64 0⟩
  { response with signature := key.sign response.transcript }

/-- Signs a response for a nonce that `solve` found. -/
def respondHashcash (challenge : VerifiedChallenge crypto) (nonce : UInt64) (key : SigningKey) : Except RespondError HashcashResponse := do
  require .subject (key.verifyingKey == challenge.challenge.subjectKey)
  require .algorithm (challenge.challenge.algorithm == .hashcash)
  pure (.seal crypto challenge.challenge nonce key)

end

/-! ### Issued challenges -/

section
variable {crypto : Crypto} {issuer : ChallengeIssuer} {challenge : Challenge} {verified : VerifiedChallenge crypto} {key : SigningKey}

/-- Signed, for a lifetime that a verifier accepts. -/
structure Issued (crypto : Crypto) (challenge : Challenge) : Prop where
  signed : challenge.Signed crypto
  lifetime : ∃ lifetime, checkedSub challenge.expiresAt challenge.issuedAt = some lifetime ∧ lifetime ≠ 0 ∧
    lifetime ≤ maxChallengeLifetime

def Issued.toVerified (h : Issued crypto challenge) : VerifiedChallenge crypto := .ofSigned h.signed

theorem Issued.eq_toVerified (h : Issued crypto challenge) : verified.challenge = challenge ↔ verified = h.toVerified := by
  constructor
  · rintro rfl
    obtain ⟨_, _, _, rfl⟩ := verified
    rfl
  · rintro rfl
    rfl

/-- The challenge has begun and not expired, and the verifier had started when it was issued. -/
structure Challenge.Timely (challenge : Challenge) (startedAt now : UInt64) : Prop where
  started : startedAt ≤ challenge.issuedAt
  begun : challenge.issuedAt ≤ now
  current : now ≤ challenge.expiresAt

theorem checkSignature_sign {weak invalid : WitnessError} (hk : Sound crypto key) (message : List UInt8) :
    checkSignature crypto weak invalid key.verifyingKey message (key.sign message) = .ok () := by
  simp [checkSignature, hk.decodes, hk.strong, hk.verifies]

theorem issueWith_ok (hi : Sound crypto issuer.key) {algorithm : Algorithm} {entropy subjectKey : Bytes32} {now lifetime : UInt64}
    {realm : RealmId} {room : RoomId} {purpose : Purpose} {taskManifestHash : ManifestHash} {requirement : Requirement}
    (h : issuer.issueWith entropy now lifetime subjectKey realm room purpose algorithm taskManifestHash requirement = .ok challenge) :
    Issued crypto challenge ∧ challenge.algorithm = algorithm ∧ challenge.subjectKey = subjectKey ∧
      challenge.taskManifestHash = taskManifestHash ∧ challenge.requirement = requirement := by
  simp only [ChallengeIssuer.issueWith, bind_eq_ok, require_eq_ok, okOr_eq_ok] at h
  obtain ⟨_, hlifetime, expiresAt, hadd, h⟩ := h
  cases h
  simp only [Bool.not_eq_true', Bool.or_eq_false_iff, beq_eq_false_iff_ne, decide_eq_false_iff_not] at hlifetime
  refine ⟨⟨checkSignature_sign hi _, lifetime, ?_, hlifetime.1, UInt64.not_lt.1 hlifetime.2⟩, rfl, rfl, rfl, rfl⟩
  rw [checkedSub_eq_some, checkedAdd_eq_some.1 hadd, Nat.add_comm]

theorem Issued.verify_eq_ok (h : Issued crypto challenge) {startedAt now : UInt64} :
    VerifiedChallenge.verify crypto challenge challenge.context startedAt now = .ok verified ↔
      verified.challenge = challenge ∧ challenge.Timely startedAt now := by
  obtain ⟨lifetime, hsub, hzero, hmax⟩ := h.lifetime
  have hwindow : challenge.checkWindow challenge.context startedAt now = .ok () ↔ challenge.Timely startedAt now := by
    simp only [Challenge.checkWindow, hsub, bind_eq_ok, require_eq_ok, okOr_eq_ok]
    constructor
    · rintro ⟨_, -, _, -, _, -, _, hbegun, _, hcurrent, hstarted⟩
      exact ⟨by simpa using hstarted, by simpa using hbegun, by simpa using hcurrent⟩
    · rintro ⟨hstarted, hbegun, hcurrent⟩
      exact ⟨(), by simp, lifetime, rfl, (), by simp [hzero, hmax], (), by simpa using hbegun, (), by simpa using hcurrent,
        by simpa using hstarted⟩
  unfold VerifiedChallenge.verify
  split
  · rename_i e he
    cases he.symm.trans h.signed
  · rw [h.eq_toVerified, bind_eq_ok]
    constructor
    · rintro ⟨_, htimely, hv⟩
      cases hv
      exact ⟨rfl, hwindow.1 htimely⟩
    · rintro ⟨rfl, htimely⟩
      exact ⟨(), hwindow.2 htimely, rfl⟩

end

/-! ### Admission -/

/-- The challenge is within its time, its scope is free and the window has room. -/
structure WitnessVerifier.Open (crypto : Crypto) (v : WitnessVerifier) (challenge : Challenge) (now : UInt64) : Prop where
  timely : challenge.Timely v.startedAt (v.advanced now).clock
  free : v.window.entries[challenge.scopeKey crypto]? = none
  room : v.window.entries.size < maxOpenChallenges
  subjectRoom : v.window.heldBy challenge.subjectKey < maxOpenPerSubject

namespace WitnessVerifier
variable {crypto : Crypto} {v : WitnessVerifier} {challenge : Challenge} {α β : Type}

theorem refuseConsumed_iff {scopeKey responseHash : Bytes32} :
    v.refuseConsumed scopeKey responseHash = .ok () ↔ v.window.entries[scopeKey]? = none := by
  rw [← show v.window.peek scopeKey responseHash = none ↔ _ from OneUseWindow.peek_eq_none]
  refine ⟨refuseConsumed_eq_ok, fun h => ?_⟩
  rw [refuseConsumed, h]

theorem exec_map_ok {m : VerifierM α} {f : α → β} {b : β} :
    (exec (m >>= fun a => pure (f a)) v).1 = .ok b ↔ ∃ a, (exec m v).1 = .ok a ∧ b = f a := by
  rw [exec_bind]
  rcases exec m v with ⟨_ | a, v'⟩
  · simp
  · simp [eq_comm]

theorem exec_examine_ok {g : WitnessVerifier → Except WitnessError α} {f : α → VerifierM β} {b : β} :
    (exec (examine g >>= f) v).1 = .ok b ↔ ∃ a, g v = .ok a ∧ (exec (f a) v).1 = .ok b := by
  rw [exec_examine_bind]
  cases g v <;> simp

/-- An issued challenge is admitted with what its checks return, exactly if the verifier is open for it and they pass. -/
theorem admit_issued (h : Issued crypto challenge) (v : WitnessVerifier) (now : UInt64) {responseHash : Bytes32}
    {check : WitnessVerifier → VerifiedChallenge crypto → Except WitnessError α} (hcheck : Guards responseHash check) {passed : Prop} {a : α}
    (hpassed : ∀ a', check (v.advanced now) h.toVerified = .ok a' ↔
      v.window.entries[challenge.scopeKey crypto]? = none ∧ passed ∧ a' = a) (f : VerifiedChallenge crypto × α → β) (b : β) :
    (exec (accept challenge challenge.context now responseHash check >>= fun p => pure (f p)) v).1 = .ok b ↔
      v.Open crypto challenge now ∧ passed ∧ b = f (h.toVerified, a) := by
  have hadvance : exec (advance now) v = (.ok (v.advanced now).clock, v.advanced now) := rfl
  rw [exec_map_ok, accept, exec_bind_ok hadvance]
  simp only [exec_examine_ok, exec_map_ok, h.verify_eq_ok, h.eq_toVerified]
  constructor
  · rintro ⟨_, ⟨_, ⟨rfl, htimely⟩, a', hchecked, _, hconsume, rfl⟩, rfl⟩
    obtain ⟨hfree, hp, rfl⟩ := (hpassed a').1 hchecked
    rw [consumeWindow_free _ _ (hcheck.free _ _ _ hchecked)] at hconsume
    split at hconsume <;> try cases hconsume
    rename_i hroom
    split at hconsume <;> cases hconsume
    rename_i hsubject
    exact ⟨⟨htimely, hfree, Nat.lt_of_not_le hroom, Nat.lt_of_not_le hsubject⟩, hp, rfl⟩
  · rintro ⟨hopen, hp, rfl⟩
    have hchecked := (hpassed a).2 ⟨hopen.free, hp, rfl⟩
    refine ⟨_, ⟨_, ⟨rfl, hopen.timely⟩, a, hchecked, (), ?_, rfl⟩, rfl⟩
    rw [consumeWindow_free _ _ (hcheck.free _ _ _ hchecked)]
    exact (if_neg (Nat.not_le.2 hopen.room)).trans (if_neg (Nat.not_le.2 hopen.subjectRoom))

end WitnessVerifier

/-! ### Witness mode -/

/-- The receipt is what the contract asks for. -/
structure ContractMet (contract : WorkContract) (receipt : WitnessReceipt) : Prop where
  floor : contract.usefulFloor ≤ receipt.useful
  ceiling : receipt.total ≤ contract.totalCeiling
  passed : contract.requirePassed = true → receipt.passed = true

section
variable {crypto : Crypto} {v : WitnessVerifier} {challenge : Challenge} {key : SigningKey} {manifest : ValidManifest}
  {candidate : List (UInt16 × Program)} {assignment : Assignment} {tallied : Tallied}

/-- What the manifest accepts is for its open slots in ascending order, so its encoding is decoded. -/
theorem decodeCandidate_assigned (ha : manifest.assign candidate = .ok assignment) :
    decodeCandidate (encodeCandidate candidate) = .ok candidate := by
  obtain ⟨hopen, -⟩ := ValidManifest.assign_eq_ok.1 ha
  have hsub : (candidate.map (·.1)).Sublist (manifest.manifest.slots.map (·.cell)) := by
    rw [hopen]
    exact List.filter_sublist.map _
  have hcount : candidate.length ≤ maxCells := by
    have hle := hsub.length_le
    simp only [List.length_map] at hle
    exact Nat.le_trans hle manifest.checked.count
  rw [manifest.checked.slots] at hsub
  exact decodeCandidate_eq_ok.2 ⟨rfl, ⟨hcount, (ascending_insertionSort manifest.world.checked.cellIds).sublist hsub⟩,
    length_encodeCandidate_le hcount⟩

theorem checkReceipt_claim {contract : WorkContract} {receipt : WitnessReceipt} {u : Unit} :
    WitnessVerifier.checkReceipt receipt.claim contract receipt = .ok u ↔ ContractMet contract receipt := by
  simp only [WitnessVerifier.checkReceipt, bind_eq_ok, require_eq_ok, exists_const, ClaimedReceipt.matches, WitnessReceipt.encode,
    beq_self_eq_true, Bool.and_self, true_and]
  constructor
  · rintro ⟨hfloor, hceiling, hpassed⟩
    exact ⟨by simpa using hfloor, by simpa using hceiling, by simpa [or_iff_not_imp_left] using hpassed⟩
  · rintro ⟨hfloor, hceiling, hpassed⟩
    exact ⟨by simpa using hfloor, by simpa using hceiling, by simpa [or_iff_not_imp_left] using hpassed⟩

variable (crypto) in
/-- The receipt of the results of an assignment under a challenge, whoever ran it. -/
def sealedReceipt (tallied : Tallied) (challenge : Challenge) (manifest : ValidManifest) (assignment : Assignment) : WitnessReceipt :=
  let run : WitnessRun := ⟨manifest.hash crypto.sha256, .of crypto.sha256 (encodeAssignment assignment), .prove, tallied.cases,
    tallied.useful, tallied.total⟩
  run.intoReceipt crypto.sha256 ⟨challenge.challengeId, challenge.subjectKey⟩

variable (crypto) in
def sealedResponse (tallied : Tallied) (challenge : Challenge) (manifest : ValidManifest) (candidate : List (UInt16 × Program))
    (assignment : Assignment) (key : SigningKey) : Response :=
  .seal crypto challenge (encodeCandidate candidate) (sealedReceipt crypto tallied challenge manifest assignment) key

variable (ha : manifest.assign candidate = .ok assignment)
  (hruns : ∀ capability, platformRun crypto.sha256 manifest assignment capability = capability.answer crypto.sha256 manifest assignment tallied)
  (hkey : challenge.subjectKey = key.verifyingKey) (hmanifest : challenge.taskManifestHash = manifest.hash crypto.sha256)

include ha hruns hmanifest in
theorem replayCandidate_ok (h : Issued crypto challenge) (a : WitnessReceipt) :
    v.replayCandidate crypto h.toVerified manifest (sealedResponse crypto tallied challenge manifest candidate assignment key) = .ok a ↔
      manifest.fuelTotal ≤ v.allowance.maxTotal ∧ a = sealedReceipt crypto tallied challenge manifest assignment := by
  have hreceipt : ∀ role, WitnessRun.intoReceipt ⟨challenge.taskManifestHash, .of crypto.sha256 (encodeAssignment assignment), role,
      tallied.cases, tallied.useful, tallied.total⟩ crypto.sha256 h.toVerified.receiptBinding =
      sealedReceipt crypto tallied challenge manifest assignment := fun _ => by rw [hmanifest]; rfl
  simp only [WitnessVerifier.replayCandidate, bind_eq_ok, mapError_eq_ok, require_eq_ok]
  constructor
  · rintro ⟨_, hdecode, _, ha', _, -, _, hallowance, _, hrun, h⟩
    cases (decodeCandidate_assigned ha).symm.trans hdecode
    cases ha.symm.trans ha'
    rw [hruns, RunCapability.answer_eq_ok] at hrun
    obtain ⟨-, rfl⟩ := hrun
    cases h
    exact ⟨by simpa using hallowance, hreceipt _⟩
  · rintro ⟨hallowance, rfl⟩
    exact ⟨candidate, decodeCandidate_assigned ha, assignment, ha, (), beq_self_eq_true _, (), by simpa using hallowance, _,
      (hruns _).trans (RunCapability.answer_eq_ok.2 ⟨⟨hmanifest, rfl, hallowance⟩, rfl⟩), congrArg Except.ok (hreceipt _)⟩

include ha hruns hkey hmanifest in
theorem checkResponse_ok (hk : Sound crypto key) (h : Issued crypto challenge) {contract : WorkContract}
    (hcontract : challenge.requirement = .witness contract) (a : WitnessReceipt) :
    WitnessVerifier.checkResponse crypto manifest (sealedResponse crypto tallied challenge manifest candidate assignment key) v h.toVerified =
      .ok a ↔
    v.window.entries[challenge.scopeKey crypto]? = none ∧ (manifest.fuelTotal ≤ v.allowance.maxTotal ∧
      ContractMet contract (sealedReceipt crypto tallied challenge manifest assignment)) ∧
      a = sealedReceipt crypto tallied challenge manifest assignment := by
  have hsigned : ∀ message, checkSignature crypto .weakSubjectKey .subjectSignature challenge.subjectKey message (key.sign message) =
      .ok () := fun message => hkey ▸ checkSignature_sign hk message
  have hchallenge : h.toVerified.challenge = challenge := rfl
  simp only [WitnessVerifier.checkResponse, bind_eq_ok, okOr_eq_ok, require_eq_ok, replayCandidate_ok ha hruns hmanifest h, hchallenge,
    Challenge.contract, hcontract]
  constructor
  · rintro ⟨_, hsome, _, -, _, -, _, hfree, _, -, _, -, _, ⟨hallowance, rfl⟩, _, hmet, h⟩
    cases hsome
    cases h
    exact ⟨WitnessVerifier.refuseConsumed_iff.1 hfree, ⟨hallowance, checkReceipt_claim.1 hmet⟩, rfl⟩
  · rintro ⟨hfree, ⟨hallowance, hmet⟩, rfl⟩
    refine ⟨contract, rfl, (), by simp [hmanifest], (), hsigned _, (), WitnessVerifier.refuseConsumed_iff.2 hfree, (), ?_, (), ?_, _,
      ⟨hallowance, rfl⟩, (), checkReceipt_claim.2 hmet, rfl⟩
    · simp [Response.bindsTo, sealedResponse, Response.seal, hkey, hmanifest, sealedReceipt, WitnessRun.intoReceipt, WitnessReceipt.claim]
    · simp [Response.repeatsClaim, sealedResponse, Response.seal, WitnessReceipt.claim, WitnessReceipt.encode]

include ha hruns hkey hmanifest in
theorem respond_eq (h : Issued crypto challenge) (halgorithm : challenge.algorithm = .witness) (allowance : WorkAllowance) :
    respond h.toVerified manifest candidate allowance key =
      if allowance.maxTotal < manifest.fuelTotal then .error (.run .allowance)
      else .ok (sealedResponse crypto tallied challenge manifest candidate assignment key) := by
  have hchallenge : h.toVerified.challenge = challenge := rfl
  simp only [respond, hchallenge, ha, hkey, halgorithm, hmanifest, VerifiedChallenge.runCapability, VerifiedChallenge.receiptBinding]
  by_cases hallowance : allowance.maxTotal < manifest.fuelTotal
  · simp [hruns, RunCapability.answer, hallowance, require, bind, Except.bind, Except.mapError]
  · simp [hruns, RunCapability.answer, hallowance, require, bind, Except.bind, Except.mapError, sealedResponse, sealedReceipt, hkey]
    rfl

end

/-- What a subject answers is admitted by every verifier that is open for the challenge, allows the fuel and finds the contract met. -/
theorem answer_admitted {crypto : Crypto} {issuer : ChallengeIssuer} {subject : SigningKey} (hi : Sound crypto issuer.key)
    (hs : Sound crypto subject) {manifest : ValidManifest} {candidate : List (UInt16 × Program)} {assignment : Assignment}
    (ha : manifest.assign candidate = .ok assignment) : ∃ tallied, Results crypto.sha256 manifest assignment tallied ∧
      ∀ entropy now lifetime realm room purpose contract challenge,
        issuer.issue entropy now lifetime subject.verifyingKey realm room purpose (manifest.hash crypto.sha256) contract = .ok challenge →
        (∀ startedAt now verified, VerifiedChallenge.verify crypto challenge challenge.context startedAt now = .ok verified ↔
          verified.challenge = challenge ∧ challenge.Timely startedAt now) ∧
        ∃ receipt response, receipt.useful = tallied.useful ∧ receipt.total = tallied.total ∧
          receipt.passed = tallied.cases.all (·.outcome.passed) ∧ response.claimed = receipt.claim ∧
          (∀ (verified : VerifiedChallenge crypto) allowance, verified.challenge = challenge →
            respond verified manifest candidate allowance subject =
              if allowance.maxTotal < manifest.fuelTotal then .error (.run .allowance) else .ok response) ∧
          ∀ v now evidence, (exec (WitnessVerifier.verifyResponse crypto challenge manifest response challenge.context now) v).1 =
              .ok evidence ↔
            v.Open crypto challenge now ∧ (manifest.fuelTotal ≤ v.allowance.maxTotal ∧ ContractMet contract receipt) ∧
              evidence = ⟨challenge.scopeKey crypto, response.hash crypto,
                reward crypto (challenge.scopeKey crypto) (response.hash crypto), receipt, challenge.purpose, challenge.expiresAt⟩ := by
  obtain ⟨tallied, hresults, hruns⟩ := platformRun_results crypto.sha256 ha
  refine ⟨tallied, hresults, ?_⟩
  intro entropy now lifetime realm room purpose contract challenge hissue
  obtain ⟨h, halgorithm, hkey, hmanifest, hcontract⟩ := issueWith_ok hi hissue
  refine ⟨fun _ _ _ => h.verify_eq_ok, sealedReceipt crypto tallied challenge manifest assignment,
    sealedResponse crypto tallied challenge manifest candidate assignment subject, rfl, rfl, rfl, rfl, fun verified allowance hverified => ?_, ?_⟩
  · rw [h.eq_toVerified.1 hverified]
    exact respond_eq ha hruns hkey hmanifest h halgorithm allowance
  · intro v now evidence
    exact WitnessVerifier.admit_issued h v now WitnessVerifier.guards_checkResponse
      (checkResponse_ok ha hruns hkey hmanifest hs h hcontract) _ _

/-! ### Hashcash mode -/

/-- The search finds the least nonce of its range that meets the target. -/
theorem findNonce_eq_some {meets : UInt64 → Bool} {left : Nat} {nonce found : UInt64} (h : nonce.toNat + left < 2 ^ 64) :
    findNonce meets left nonce = some found ↔ nonce ≤ found ∧ found.toNat < nonce.toNat + left ∧ meets found = true ∧
      ∀ n, nonce ≤ n → n < found → meets n = false := by
  induction left generalizing nonce with
  | zero =>
    constructor
    · intro h
      cases h
    · rintro ⟨hle, hlt, -⟩
      rw [UInt64.le_iff_toNat_le] at hle
      omega
  | succ left ih =>
    rw [findNonce]
    by_cases hmeets : meets nonce = true
    · rw [if_pos hmeets]
      constructor
      · intro h
        cases h
        exact ⟨UInt64.le_refl _, by omega, hmeets, fun n hle hlt => absurd hle (UInt64.not_le.2 hlt)⟩
      · rintro ⟨hle, -, -, hleast⟩
        rcases UInt64.lt_or_eq_of_le hle with hlt | heq
        · rw [hleast nonce (UInt64.le_refl _) hlt] at hmeets
          cases hmeets
        · rw [heq]
    · have hnext : (nonce + 1).toNat = nonce.toNat + 1 := by
        rw [UInt64.toNat_add, UInt64.toNat_one, Nat.mod_eq_of_lt (by omega)]
      rw [if_neg hmeets, ih (by omega), hnext]
      simp only [UInt64.le_iff_toNat_le, UInt64.lt_iff_toNat_lt, hnext]
      constructor
      · rintro ⟨hle, hlt, hfound, hleast⟩
        refine ⟨by omega, by omega, hfound, fun n hn hn' => ?_⟩
        rcases Nat.eq_or_lt_of_le hn with heq | hn
        · rw [← UInt64.toNat_inj.1 heq]
          exact Bool.eq_false_iff.2 hmeets
        · exact hleast n hn hn'
      · rintro ⟨hle, hlt, hfound, hleast⟩
        rcases Nat.eq_or_lt_of_le hle with heq | hle
        · rw [UInt64.toNat_inj.1 heq] at hmeets
          exact absurd hfound hmeets
        · exact ⟨hle, by omega, hfound, fun n hn hn' => hleast n (by omega) hn'⟩

theorem checkHashcash_ok {crypto : Crypto} {v : WitnessVerifier} {challenge : Challenge} {key : SigningKey} {difficulty : Difficulty}
    (hk : Sound crypto key) (h : Issued crypto challenge) (hdifficulty : challenge.difficulty = some difficulty)
    (hkey : challenge.subjectKey = key.verifyingKey) (nonce : UInt64) (a : Bytes32 × Difficulty) :
    WitnessVerifier.checkHashcash crypto (.seal crypto challenge nonce key) v h.toVerified = .ok a ↔
      v.window.entries[challenge.scopeKey crypto]? = none ∧ meetsTarget crypto challenge difficulty nonce = true ∧
        a = (workDigest crypto (challenge.hash crypto) challenge.subjectKey nonce, difficulty) := by
  have hsigned : ∀ message, checkSignature crypto .weakSubjectKey .subjectSignature challenge.subjectKey message (key.sign message) =
      .ok () := fun message => hkey ▸ checkSignature_sign hk message
  have hchallenge : h.toVerified.challenge = challenge := rfl
  have hnonce : (HashcashResponse.seal crypto challenge nonce key).nonce = nonce := rfl
  simp only [WitnessVerifier.checkHashcash, bind_eq_ok, okOr_eq_ok, require_eq_ok, hchallenge, hdifficulty, hnonce]
  constructor
  · rintro ⟨_, hsome, _, -, _, -, _, hfree, _, hwork, h⟩
    cases hsome
    cases h
    exact ⟨WitnessVerifier.refuseConsumed_iff.1 hfree, by simpa [meetsTarget] using hwork, rfl⟩
  · rintro ⟨hfree, hmeets, rfl⟩
    refine ⟨difficulty, rfl, (), hsigned _, (), ?_, (), WitnessVerifier.refuseConsumed_iff.2 hfree, (), ?_, rfl⟩
    · simp [HashcashResponse.bindsTo, HashcashResponse.seal, hkey]
    · simpa [meetsTarget] using hmeets

/-- A nonce answered with the subject's key is admitted by every verifier that is open for the challenge, exactly if it meets the
target; and `solve` finds the least one. -/
theorem nonce_admitted {crypto : Crypto} {issuer : ChallengeIssuer} {subject : SigningKey} (hi : Sound crypto issuer.key)
    (hs : Sound crypto subject) {entropy : Bytes32} {now lifetime : UInt64} {realm : RealmId} {room : RoomId} {purpose : Purpose}
    {difficulty : Difficulty} {challenge : Challenge}
    (hissue : issuer.issueHashcash entropy now lifetime subject.verifyingKey realm room purpose difficulty = .ok challenge) :
    (∀ startedAt now verified, VerifiedChallenge.verify crypto challenge challenge.context startedAt now = .ok verified ↔
      verified.challenge = challenge ∧ challenge.Timely startedAt now) ∧
    ∀ nonce, ∃ response : HashcashResponse, response.nonce = nonce ∧
      (∀ verified : VerifiedChallenge crypto, verified.challenge = challenge → respondHashcash verified nonce subject = .ok response ∧
        ∀ maxAttempts, solve verified maxAttempts = .ok nonce ↔ nonce < maxAttempts ∧
          meetsTarget crypto challenge difficulty nonce = true ∧ ∀ n < nonce, meetsTarget crypto challenge difficulty n = false) ∧
      ∀ v now evidence, (exec (WitnessVerifier.verifyHashcash crypto challenge response challenge.context now) v).1 = .ok evidence ↔
        v.Open crypto challenge now ∧ meetsTarget crypto challenge difficulty nonce = true ∧
          evidence = ⟨challenge.scopeKey crypto, response.hash crypto,
            reward crypto (challenge.scopeKey crypto) (response.hash crypto),
            workDigest crypto (challenge.hash crypto) challenge.subjectKey nonce, difficulty, challenge.purpose, challenge.expiresAt⟩ := by
  obtain ⟨h, halgorithm, hkey, -, hrequirement⟩ := issueWith_ok hi hissue
  have hdifficulty : challenge.difficulty = some difficulty := by rw [Challenge.difficulty, hrequirement]
  refine ⟨fun _ _ _ => h.verify_eq_ok, fun nonce => ?_⟩
  refine ⟨.seal crypto challenge nonce subject, rfl, fun verified hverified => ⟨?_, fun maxAttempts => ?_⟩, fun v now evidence => ?_⟩
  · simp [respondHashcash, require, hverified, hkey, halgorithm, bind, Except.bind]
    rfl
  · have hlt := maxAttempts.toNat_lt
    simp only [solve, bind_eq_ok, okOr_eq_ok, hverified, hdifficulty, Option.some.injEq, exists_eq_left']
    rw [findNonce_eq_some (by simpa using hlt)]
    simp [UInt64.le_iff_toNat_le, UInt64.lt_iff_toNat_lt]
  · exact WitnessVerifier.admit_issued h v now WitnessVerifier.guards_checkHashcash (checkHashcash_ok hs h hdifficulty hkey nonce) _ _

/-! ### The answers of the example -/

def sampleSigns (key : Bytes32) (message : List UInt8) : Signature :=
  if key = sampleIssuer ∧ message = sampleChallenge.transcript then sampleChallenge.signature
  else if key = sampleSubject ∧ message = sampleResponse.transcript then sampleResponse.signature
  else Vector.replicate 64 0

/-- Ed25519 on the two messages of the example. -/
def signingCrypto : Crypto :=
  { sampleCrypto with verifyStrict := fun key message signature => decide (signature = sampleSigns key message) }

theorem sample_sound {key : Bytes32} (h : sampleCrypto.decodesKey key = true) : Sound signingCrypto ⟨key, sampleSigns key⟩ :=
  ⟨h, rfl, fun _ => decide_eq_true rfl⟩

theorem sample_issued : ChallengeIssuer.issueHashcash ⟨⟨sampleIssuer, sampleSigns sampleIssuer⟩⟩ (beVector 32 5) 1000 60 sampleSubject ⟨77⟩
    ⟨3⟩ .rateLimitRelief ⟨4, by decide⟩ = .ok sampleChallenge := by
  have hsigns : sampleSigns sampleIssuer sampleChallenge.transcript = sampleChallenge.signature := if_pos ⟨rfl, rfl⟩
  have hzero : Vector.replicate 32 0 = beVector 32 0 := by decide
  have hadd : checkedAdd (1000 : UInt64) 60 = some 1060 := by decide
  rw [ChallengeIssuer.issueHashcash, ChallengeIssuer.issueWith, hzero, hadd]
  exact congrArg (fun signature => Except.ok { sampleChallenge with signature }) hsigns

theorem sample_issuer : Sound signingCrypto (ChallengeIssuer.mk ⟨sampleIssuer, sampleSigns sampleIssuer⟩).key := sample_sound (by decide)

theorem sample_subject : Sound signingCrypto ⟨sampleSubject, sampleSigns sampleSubject⟩ := sample_sound (by decide)

theorem sample_nonce_admitted : ∃ response : HashcashResponse, response.nonce = 12 ∧ ∀ v now,
    v.Open signingCrypto sampleChallenge now → meetsTarget signingCrypto sampleChallenge ⟨4, by decide⟩ 12 = true →
      ∃ evidence, (exec (WitnessVerifier.verifyHashcash signingCrypto sampleChallenge response sampleContext now) v).1 = .ok evidence := by
  obtain ⟨response, hnonce, -, hadmitted⟩ := (nonce_admitted sample_issuer sample_subject sample_issued).2 12
  exact ⟨response, hnonce, fun v now hopen hmeets => ⟨_, (hadmitted v now _).2 ⟨hopen, hmeets, rfl⟩⟩⟩

theorem ordered_answer_admitted :
    ∃ tallied, Results signingCrypto.sha256 orderedManifest ⟨[tinyProgram, waitProgram], [1, 2], rfl⟩ tallied := by
  obtain ⟨tallied, hresults, -⟩ := answer_admitted sample_issuer sample_subject ordered_assigned
  exact ⟨tallied, hresults⟩

end Valhalla.Botcaptcha
