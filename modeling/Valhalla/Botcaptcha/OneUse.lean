import Valhalla.Lib.Trace
import Valhalla.Botcaptcha.Admit

/-!
# One-use admission

A consumed scope stays in the window until its challenge expires for a clock that never runs backwards, and no
challenge is verified after its expiry. So no scope is admitted twice, whatever the order of the calls.
-/

namespace Valhalla.Botcaptcha
open Fallible FixedWidth Check
open Valhalla.Witness hiding version

/-- What a successful verification hands out. -/
inductive Evidence
  | witness (evidence : VerifiedWitness)
  | hashcash (evidence : VerifiedHashcash)
deriving DecidableEq

def Evidence.scopeKey : Evidence → Bytes32
  | .witness evidence => evidence.scopeKey
  | .hashcash evidence => evidence.scopeKey

inductive Call
  | verifyResponse (challenge : Challenge) (manifest : ValidManifest) (response : Response) (expected : ChallengeContext)
      (now : UInt64)
  | verifyBytes (challenge : List UInt8) (manifest : ValidManifest) (response : List UInt8) (expected : ChallengeContext)
      (now : UInt64)
  | verifyHashcash (challenge : Challenge) (response : HashcashResponse) (expected : ChallengeContext) (now : UInt64)
  | prune (now : UInt64)
  | setAllowance (allowance : WorkAllowance)

namespace Call

def perform (crypto : Crypto) : Call → VerifierM (Option Evidence)
  | verifyResponse challenge manifest response expected now => do
    let evidence ← WitnessVerifier.verifyResponse crypto challenge manifest response expected now
    pure (some (.witness evidence))
  | verifyBytes challenge manifest response expected now => do
    let evidence ← WitnessVerifier.verifyBytes crypto challenge manifest response expected now
    pure (some (.witness evidence))
  | verifyHashcash challenge response expected now => do
    let evidence ← WitnessVerifier.verifyHashcash crypto challenge response expected now
    pure (some (.hashcash evidence))
  | prune now => do
    WitnessVerifier.prune now
    pure none
  | setAllowance allowance => do
    WitnessVerifier.setAllowance allowance
    pure none

def challenge : Call → Option Challenge
  | verifyResponse challenge .. => some challenge
  | verifyBytes challenge .. => (Challenge.decode challenge).toOption
  | verifyHashcash challenge .. => some challenge
  | prune _ => none
  | setAllowance _ => none

end Call

structure Note where
  call : Call
  result : Except WitnessError (Option Evidence)
  before : WitnessVerifier
  after : WitnessVerifier

namespace Note

def evidence (note : Note) : Option Evidence :=
  match note.result with
  | .ok evidence => evidence
  | .error _ => none

def admitted (note : Note) : Option Challenge := note.evidence.bind fun _ => note.call.challenge

def scopeKey (note : Note) : Option Bytes32 := note.evidence.map Evidence.scopeKey

end Note

inductive Step (crypto : Crypto) : WitnessVerifier → List Note → WitnessVerifier → Prop
  | call {v v' : WitnessVerifier} {call : Call} {result : Except WitnessError (Option Evidence)} :
    exec (call.perform crypto) v = (result, v') → Step crypto v [⟨call, result, v, v'⟩] v'

/-- No two signed challenges of the run share their dedup scope, unless they differ in the signature only. -/
def DistinctScopes (crypto : Crypto) (log : List Note) : Prop :=
  ∀ n ∈ log, ∀ n' ∈ log, ∀ c c', n.call.challenge = some c → n'.call.challenge = some c' → c.Signed crypto →
    c'.Signed crypto → c.scope = c'.scope → { c with signature := c'.signature } = c'

/-- The dedup digests of the run do not collide. -/
def NoCollision (crypto : Crypto) (log : List Note) : Prop :=
  ∀ n ∈ log, ∀ n' ∈ log, ∀ c c', n.call.challenge = some c → n'.call.challenge = some c' →
    c.scopeKey crypto = c'.scopeKey crypto → c.scope = c'.scope

namespace WitnessVerifier
variable {crypto : Crypto} {v v' : WitnessVerifier}

inductive Effect (crypto : Crypto) (v : WitnessVerifier) : Call → Except WitnessError (Option Evidence) → WitnessVerifier → Prop
  | refused {v' : WitnessVerifier} {call : Call} (error : WitnessError) (clock : v.clock ≤ v'.clock)
    (window : v'.window = v.window) : Effect crypto v call (.error error) v'
  | admitted {v' : WitnessVerifier} {call : Call} {challenge : Challenge} {responseHash : Bytes32} (evidence : Evidence)
    (presented : call.challenge = some challenge) (signed : challenge.Signed crypto)
    (scopeKey : evidence.scopeKey = challenge.scopeKey crypto) (clock : v.clock ≤ v'.clock)
    (fresh : v'.clock ≤ challenge.expiresAt) (free : v.window.entries[challenge.scopeKey crypto]? = none)
    (window : v'.window =
      v.window.inserted (challenge.scopeKey crypto) challenge.subjectKey responseHash challenge.expiresAt)
    (accounted : v.window.Accounted → v'.window.Accounted) : Effect crypto v call (.ok (some evidence)) v'
  | pruned {v' : WitnessVerifier} {call : Call} (clock : v.clock ≤ v'.clock) (window : v'.window = v.window.prune v'.clock) :
    Effect crypto v call (.ok none) v'
  | untouched {v' : WitnessVerifier} {call : Call} (clock : v'.clock = v.clock) (window : v'.window = v.window) :
    Effect crypto v call (.ok none) v'

theorem clock_le_advanced (v : WitnessVerifier) (now : UInt64) : v.clock ≤ (v.advanced now).clock := by
  show v.clock ≤ if v.clock ≤ now then now else v.clock
  split
  · assumption
  · exact UInt64.le_refl _

def consumed (crypto : Crypto) (v : WitnessVerifier) (challenge : Challenge) (responseHash : Bytes32) : WitnessVerifier :=
  let window := v.window.inserted (challenge.scopeKey crypto) challenge.subjectKey responseHash challenge.expiresAt
  { v with window }

theorem exec_consumeWindow (crypto : Crypto) (v : WitnessVerifier) (challenge : Challenge) (responseHash : Bytes32) :
    (∃ error, exec (consumeWindow (challenge.scopeKey crypto) challenge.subjectKey responseHash challenge.expiresAt) v =
        (.error error, v)) ∨
      (exec (consumeWindow (challenge.scopeKey crypto) challenge.subjectKey responseHash challenge.expiresAt) v =
          (.ok (), v.consumed crypto challenge responseHash) ∧
        v.window.entries[challenge.scopeKey crypto]? = none ∧
        (v.window.Accounted → (v.consumed crypto challenge responseHash).window.Accounted)) := by
  rcases OneUseWindow.exec_consume v.window (challenge.scopeKey crypto) challenge.subjectKey responseHash
    challenge.expiresAt with
    ⟨error, hexec⟩ | ⟨hexec, hfree, hsize, hheld⟩
  · refine .inl ⟨windowError error, ?_⟩
    rw [consumeWindow, exec_of, hexec]
    rfl
  · refine .inr ⟨?_, hfree, fun h => h.inserted hfree hsize hheld⟩
    rw [consumeWindow, exec_of, hexec]
    rfl

theorem exec_accept {α : Type} (v : WitnessVerifier) (challenge : Challenge) (expected : ChallengeContext) (now : UInt64)
    (responseHash : Bytes32) (check : WitnessVerifier → VerifiedChallenge crypto → Except WitnessError α) :
    (∃ error, exec (accept challenge expected now responseHash check) v = (.error error, v.advanced now)) ∨
      ∃ verified checked, exec (accept challenge expected now responseHash check) v =
        (.ok (verified, checked), (v.advanced now).consumed crypto challenge responseHash) ∧
        verified.scopeKey = challenge.scopeKey crypto ∧ challenge.Signed crypto ∧
        (v.advanced now).clock ≤ challenge.expiresAt ∧ v.window.entries[challenge.scopeKey crypto]? = none ∧
        (v.window.Accounted → ((v.advanced now).consumed crypto challenge responseHash).window.Accounted) := by
  have hadvance : exec (advance now) v = (.ok (v.advanced now).clock, v.advanced now) := rfl
  rw [accept, exec_bind_ok hadvance, exec_examine_bind]
  cases hverify : VerifiedChallenge.verify crypto challenge expected (v.advanced now).startedAt (v.advanced now).clock with
  | error error => exact .inl ⟨error, rfl⟩
  | ok verified =>
    obtain ⟨hchallenge, hsigned, hfresh⟩ := VerifiedChallenge.verify_ok hverify
    have hkey := verified.derived
    rw [hchallenge] at hkey
    simp only [exec_examine_bind]
    cases check (v.advanced now) verified with
    | error error => exact .inl ⟨error, rfl⟩
    | ok checked =>
      rw [hchallenge, hkey]
      rcases exec_consumeWindow crypto (v.advanced now) challenge responseHash with
        ⟨error, hexec⟩ | ⟨hexec, hfree, haccounted⟩
      · exact .inl ⟨error, exec_bind_error hexec⟩
      · exact .inr ⟨verified, checked, exec_bind_ok hexec, hkey, hsigned, hfresh, hfree, haccounted⟩

/-- A call whose evidence is made from what `accept` returned. -/
theorem effect_of_accept {α : Type} {call : Call} {challenge : Challenge} {expected : ChallengeContext} {now : UInt64}
    {responseHash : Bytes32} {check : WitnessVerifier → VerifiedChallenge crypto → Except WitnessError α}
    {evidence : VerifiedChallenge crypto × α → Evidence} {result : Except WitnessError (Option Evidence)}
    (hkey : ∀ p, (evidence p).scopeKey = p.1.scopeKey) (hcall : call.challenge = some challenge)
    (h : exec (accept challenge expected now responseHash check >>= fun p => pure (some (evidence p))) v = (result, v')) :
    Effect crypto v call result v' := by
  rcases exec_accept v challenge expected now responseHash check with
    ⟨error, hexec⟩ | ⟨verified, checked, hexec, hscope, hsigned, hfresh, hfree, haccounted⟩
  · rw [exec_bind_error hexec] at h
    cases h
    exact .refused error (clock_le_advanced v now) rfl
  · rw [exec_bind_ok hexec] at h
    cases h
    exact .admitted _ hcall hsigned ((hkey _).trans hscope) (clock_le_advanced v now) hfresh hfree rfl haccounted

theorem effect_verifyResponse {call : Call} {challenge : Challenge} {manifest : ValidManifest} {response : Response}
    {expected : ChallengeContext} {now : UInt64} {result : Except WitnessError (Option Evidence)}
    (hcall : call.challenge = some challenge)
    (h : exec (verifyResponse crypto challenge manifest response expected now >>= fun evidence =>
      pure (some (.witness evidence))) v = (result, v')) : Effect crypto v call result v' := by
  simp only [verifyResponse, bind_assoc, pure_bind] at h
  exact effect_of_accept (fun _ => rfl) hcall h

theorem effect {call : Call} {result : Except WitnessError (Option Evidence)}
    (h : exec (call.perform crypto) v = (result, v')) : Effect crypto v call result v' := by
  cases call with
  | verifyResponse challenge manifest response expected now => exact effect_verifyResponse rfl h
  | verifyBytes rawChallenge manifest rawResponse expected now =>
    simp only [Call.perform, verifyBytes, bind_assoc, exec_examine_bind] at h
    cases hchallenge : Challenge.decode rawChallenge with
    | error error =>
      rw [hchallenge] at h
      cases h
      exact .refused _ (UInt64.le_refl _) rfl
    | ok challenge =>
      rw [hchallenge] at h
      cases hresponse : Response.decode rawResponse with
      | error error =>
        rw [hresponse] at h
        cases h
        exact .refused _ (UInt64.le_refl _) rfl
      | ok response =>
        rw [hresponse] at h
        refine effect_verifyResponse ?_ h
        rw [Call.challenge, hchallenge]
        rfl
  | verifyHashcash challenge response expected now =>
    simp only [Call.perform, verifyHashcash, bind_assoc, pure_bind] at h
    exact effect_of_accept (fun _ => rfl) rfl h
  | prune now =>
    cases h
    exact .pruned (clock_le_advanced v now) rfl
  | setAllowance allowance =>
    cases h
    exact .untouched rfl rfl

def Holds (crypto : Crypto) (v : WitnessVerifier) (challenge : Challenge) : Prop :=
  (∃ entry, v.window.entries[challenge.scopeKey crypto]? = some entry ∧ entry.expiresAt = challenge.expiresAt) ∨
    challenge.expiresAt < v.clock

theorem Effect.holds {call : Call} {result : Except WitnessError (Option Evidence)} {challenge : Challenge}
    (he : Effect crypto v call result v') (h : Holds crypto v challenge) : Holds crypto v' challenge := by
  have hlate : v.clock ≤ v'.clock → challenge.expiresAt < v.clock → Holds crypto v' challenge :=
    fun hle hlt => .inr (UInt64.lt_of_lt_of_le hlt hle)
  cases he with
  | refused _ clock window =>
    rcases h with h | h
    · exact .inl (window ▸ h)
    · exact hlate clock h
  | untouched clock window =>
    rcases h with h | h
    · exact .inl (window ▸ h)
    · exact hlate (clock ▸ UInt64.le_refl _) h
  | pruned clock window =>
    rcases h with ⟨entry, hentry, hexpires⟩ | h
    · rcases OneUseWindow.getElem?_prune v'.clock hentry with hkept | hgone
      · exact .inl ⟨entry, window ▸ hkept, hexpires⟩
      · exact .inr (hexpires ▸ hgone)
    · exact hlate clock h
  | @admitted _ _ other responseHash _ _ _ _ clock _ free window =>
    rcases h with ⟨entry, hentry, hexpires⟩ | h
    · refine .inl ⟨entry, ?_, hexpires⟩
      have hne : other.scopeKey crypto ≠ challenge.scopeKey crypto := by
        intro heq
        rw [heq, hentry] at free
        cases free
      rw [window, OneUseWindow.inserted, Maps.getElem?_insert, if_neg hne]
      exact hentry
    · exact hlate clock h

theorem Effect.accounted {call : Call} {result : Except WitnessError (Option Evidence)}
    (he : Effect crypto v call result v') (h : v.window.Accounted) : v'.window.Accounted := by
  cases he with
  | refused _ _ window => exact window ▸ h
  | untouched _ window => exact window ▸ h
  | pruned _ window => exact window ▸ h.prune _
  | admitted _ _ _ _ _ _ _ _ accounted => exact accounted h

structure Remembers (crypto : Crypto) (log : List Note) (v : WitnessVerifier) : Prop where
  accounted : v.window.Accounted
  unchanged : ∀ n ∈ log, ∀ error, n.result = .error error → n.after.window = n.before.window
  signed : ∀ n ∈ log, ∀ c, n.admitted = some c → c.Signed crypto
  scopeKeys : log.filterMap Note.scopeKey = (log.filterMap Note.admitted).map (·.scopeKey crypto)
  holds : ∀ n ∈ log, ∀ c, n.admitted = some c → Holds crypto v c
  once : DistinctScopes crypto log → ((log.filterMap Note.admitted).map Challenge.scope).Nodup

end WitnessVerifier

theorem Note.admitted_eq_some {n : Note} {c : Challenge} (h : n.admitted = some c) : n.call.challenge = some c := by
  unfold Note.admitted at h
  cases he : n.evidence with
  | none => rw [he] at h; cases h
  | some evidence => rw [he] at h; exact h

namespace WitnessVerifier
variable {crypto : Crypto} {v v' : WitnessVerifier} {log notes : List Note}

theorem Remembers.new {startedAt : UInt64} {allowance : WorkAllowance} {window : OneUseWindow} (h : window.Reachable) :
    Remembers crypto [] (.new startedAt allowance window) :=
  ⟨h.accounted, by simp, by simp, rfl, by simp, by simp⟩

theorem Remembers.idle (h : Remembers crypto log v) (note : Note) (he : Effect crypto v note.call note.result v')
    (hnone : note.evidence = none)
    (hwindow : ∀ error, note.result = .error error → note.after.window = note.before.window) :
    Remembers crypto (log ++ [note]) v' := by
  have hadmitted : note.admitted = none := by rw [Note.admitted, hnone]; rfl
  have hkey : note.scopeKey = none := by rw [Note.scopeKey, hnone]; rfl
  refine ⟨he.accounted h.accounted, ?_, ?_, ?_, ?_, fun hdistinct => ?_⟩
  · simpa [or_imp, forall_and] using ⟨h.unchanged, hwindow⟩
  · simpa [or_imp, forall_and, hadmitted] using h.signed
  · simpa [List.filterMap_append, hadmitted, hkey] using h.scopeKeys
  · intro n hn c hc
    rcases List.mem_append.1 hn with hn | hn
    · exact he.holds (h.holds n hn c hc)
    · rw [List.mem_singleton.1 hn, hadmitted] at hc
      cases hc
  · rw [List.filterMap_append, List.filterMap_cons, hadmitted, List.filterMap_nil, List.append_nil]
    exact h.once fun n hn n' hn' => hdistinct n (by simp [hn]) n' (by simp [hn'])

/-- A call that admits a challenge: a remembered challenge with the same scope would have its entry still in the
window or its expiry behind the clock. -/
theorem Remembers.admitting (h : Remembers crypto log v) (note : Note) {challenge : Challenge} {evidence : Evidence}
    {responseHash : Bytes32} (he : Effect crypto v note.call note.result v') (hresult : note.result = .ok (some evidence))
    (hpresented : note.call.challenge = some challenge) (hsigned : challenge.Signed crypto)
    (hkey : evidence.scopeKey = challenge.scopeKey crypto) (hclock : v.clock ≤ v'.clock)
    (hfresh : v'.clock ≤ challenge.expiresAt) (hfree : v.window.entries[challenge.scopeKey crypto]? = none)
    (hwindow : v'.window =
      v.window.inserted (challenge.scopeKey crypto) challenge.subjectKey responseHash challenge.expiresAt) :
    Remembers crypto (log ++ [note]) v' := by
  have hevidence : note.evidence = some evidence := by rw [Note.evidence, hresult]
  have hadmitted : note.admitted = some challenge := by rw [Note.admitted, hevidence]; exact hpresented
  have hscopeKey : note.scopeKey = some (challenge.scopeKey crypto) := by rw [Note.scopeKey, hevidence, ← hkey]; rfl
  refine ⟨he.accounted h.accounted, ?_, ?_, ?_, ?_, fun hdistinct => ?_⟩
  · simpa [or_imp, forall_and, hresult] using h.unchanged
  · simpa [or_imp, forall_and, hadmitted] using ⟨h.signed, hsigned⟩
  · simpa [List.filterMap_append, hadmitted, hscopeKey] using h.scopeKeys
  · intro n hn c hc
    rcases List.mem_append.1 hn with hn | hn
    · exact he.holds (h.holds n hn c hc)
    · rw [List.mem_singleton.1 hn, hadmitted] at hc
      cases hc
      refine .inl ⟨⟨responseHash, challenge.expiresAt, challenge.subjectKey⟩, ?_, rfl⟩
      rw [hwindow, OneUseWindow.inserted, Maps.getElem?_insert, if_pos rfl]
  · have hold := h.once fun n hn n' hn' => hdistinct n (by simp [hn]) n' (by simp [hn'])
    rw [List.filterMap_append, List.filterMap_cons, hadmitted, List.filterMap_nil, List.map_append, List.nodup_append']
    refine ⟨hold, List.nodup_singleton _, ?_⟩
    rw [List.map_singleton, List.disjoint_singleton, List.mem_map]
    rintro ⟨c, hc, hscope⟩
    obtain ⟨n, hn, hc⟩ := List.mem_filterMap.1 hc
    have hsame := hdistinct n (by simp [hn]) note (by simp) c challenge (Note.admitted_eq_some hc) hpresented
      (h.signed n hn c hc) hsigned hscope
    have hkeys : c.scopeKey crypto = challenge.scopeKey crypto := by rw [← hsame]; rfl
    have hexpires : c.expiresAt = challenge.expiresAt := by rw [← hsame]
    rcases h.holds n hn c hc with ⟨entry, hentry, -⟩ | hlate
    · rw [hkeys, hfree] at hentry
      cases hentry
    · rw [hexpires] at hlate
      exact UInt64.not_le.2 hlate (UInt64.le_trans hclock hfresh)

theorem Remembers.step (h : Remembers crypto log v) (hs : Step crypto v notes v') : Remembers crypto (log ++ notes) v' := by
  cases hs with
  | @call _ call result hexec =>
    have he := effect hexec
    cases effect hexec with
    | refused error clock window => exact h.idle ⟨call, _, v, v'⟩ he rfl fun _ _ => window
    | pruned => exact h.idle ⟨call, _, v, v'⟩ he rfl fun _ hr => nomatch hr
    | untouched => exact h.idle ⟨call, _, v, v'⟩ he rfl fun _ hr => nomatch hr
    | admitted evidence presented signed scopeKey clock fresh free window =>
      exact h.admitting ⟨call, _, v, v'⟩ he rfl presented signed scopeKey clock fresh free window

end WitnessVerifier

/-- In every run of a verifier from a window that can be built, with any `now` for each call: no dedup scope is
admitted twice, nor its digest, a refused call leaves the window as it was, and the count of every subject is
the number of its open entries, within the limits. -/
theorem one_use_admission {crypto : Crypto} {startedAt : UInt64} {allowance : WorkAllowance} {window : OneUseWindow}
    {log : List Note} {v : WitnessVerifier} (hwindow : window.Reachable)
    (h : Steps (Step crypto) (.new startedAt allowance window) log v) (hdistinct : DistinctScopes crypto log) :
    ((log.filterMap Note.admitted).map Challenge.scope).Nodup ∧
      (NoCollision crypto log → (log.filterMap Note.scopeKey).Nodup) ∧
      (∀ n ∈ log, ∀ error, n.result = .error error → n.after.window = n.before.window) ∧
      (∀ subjectKey, v.window.heldBy subjectKey = v.window.openOf subjectKey ∧
        v.window.heldBy subjectKey ≤ maxOpenPerSubject) ∧
      v.window.entries.size ≤ maxOpenChallenges := by
  have hr : WitnessVerifier.Remembers crypto log v := h.recorded (.new hwindow) fun _ _ _ _ hr hs => hr.step hs
  refine ⟨hr.once hdistinct, fun hcollision => ?_, hr.unchanged, fun subjectKey => ?_, hr.accounted.total⟩
  · rw [hr.scopeKeys, List.Nodup, List.pairwise_map]
    refine (List.pairwise_map.1 (hr.once hdistinct)).imp_of_mem fun {c c'} hc hc' hne heq => hne ?_
    obtain ⟨n, hn, hadmitted⟩ := List.mem_filterMap.1 hc
    obtain ⟨n', hn', hadmitted'⟩ := List.mem_filterMap.1 hc'
    exact hcollision n hn n' hn' c c' (Note.admitted_eq_some hadmitted) (Note.admitted_eq_some hadmitted') heq
  · have heq := hr.accounted.heldBy_eq subjectKey
    exact ⟨heq, heq ▸ hr.accounted.perSubject subjectKey⟩

/-! ### A Hashcash challenge presented twice -/

def sampleIssuer : Bytes32 := beVector 32 0xea4a6c63e29c520abef5507b132ec5f9954776aebebe7b92421eea691446d22c
def sampleSubject : Bytes32 := beVector 32 0xfd1724385aa0c75b64fb78cd602fa1d991fdebf76b13c58ed702eac835e9f618

def sampleContext : ChallengeContext := ⟨sampleIssuer, sampleSubject, ⟨77⟩, ⟨3⟩, .rateLimitRelief⟩

def sampleChallenge : Challenge where
  version := 1
  algorithm := .hashcash
  challengeId := beVector 32 5
  issuerKey := sampleIssuer
  subjectKey := sampleSubject
  realm := ⟨77⟩
  room := ⟨3⟩
  purpose := .rateLimitRelief
  taskManifestHash := ⟨beVector 32 0⟩
  issuedAt := 1000
  expiresAt := 1060
  requirement := .hashcash ⟨4, by decide⟩
  signature := beVector 64
    0x90368bb0171d59c1104b2690dc76e7becda87b50e7faa23a8515037f2a11f85a650fc032903d96ee992d8a6212e09085b9d61d81e5d305a405ec2324daed300d

def sampleChallengeHash : Bytes32 := beVector 32 0x423ea1869acaf068e020e16a50cf73fd6a76b09d51751f4f393aa80378f4a8ee
def sampleScopeKey : Bytes32 := beVector 32 0x2feb8d4bf756533a88d31834f689c3a155830409a01ab2430b4ad3df77b9e2e4
def sampleWork : Bytes32 := beVector 32 0x007c705706b6f04953b466bc6ab316affdea8f7173af275ccc6c71d11bda303f
def sampleResponseHash : Bytes32 := beVector 32 0x5a859a344e36019cfc6d5718d5aad0bdeeba2aa8388dc8e6edb89eb9ce340084
def sampleReward : Bytes32 := beVector 32 0xb43cc06f29f6f943028b655f554a28ce1be4e94dddd55f0ceca2c0b679fc13b9

def sampleResponse : HashcashResponse where
  version := 1
  challengeId := beVector 32 5
  challengeHash := sampleChallengeHash
  subjectKey := sampleSubject
  nonce := 12
  signature := beVector 64
    0x8e33bd2e775cca9e6a70abe5ebf188e3a03967ecdf3232c501e2db882f1d4297ac685cb4750512425b04832051ef509e84fabb3269ed500542462ad299df2005

/-- SHA-256 on the messages of the example. -/
def sampleDigests : List (List UInt8 × Bytes32) :=
  [(transcript challengeDomain sampleChallenge.body, sampleChallengeHash),
    (transcript dedupDomain
      (sampleIssuer.toList ++ (sampleChallenge.challengeId.toList ++ sampleSubject.toList)), sampleScopeKey),
    (transcript workDomain (sampleChallengeHash.toList ++ (sampleSubject.toList ++ putU64 12)), sampleWork),
    (transcript hashcashResponseDomain sampleResponse.body, sampleResponseHash),
    (transcript rewardDomain (sampleScopeKey.toList ++ sampleResponseHash.toList), sampleReward)]

def sampleCrypto : Crypto where
  sha256 message := ((sampleDigests.find? (·.1 = message)).map (·.2)).getD (beVector 32 0)
  decodesKey key := key = sampleIssuer || key = sampleSubject
  isWeak _ := false
  verifyStrict key message signature :=
    (key = sampleIssuer && message = sampleChallenge.transcript && signature = sampleChallenge.signature) ||
      (key = sampleSubject && message = sampleResponse.transcript && signature = sampleResponse.signature)

def sampleEvidence : Evidence :=
  .hashcash ⟨sampleScopeKey, sampleResponseHash, sampleReward, sampleWork, ⟨4, by decide⟩, .rateLimitRelief, 1060⟩

def sampleVerifier : WitnessVerifier := .new 990 ⟨0⟩ .new

/-- The verifier with its clock at `now` and the challenge in its window. -/
def sampleConsumed : WitnessVerifier := (sampleVerifier.advanced 1010).consumed sampleCrypto sampleChallenge sampleResponseHash

/-- The verifier after the challenge has expired and its entry is gone. -/
def samplePruned : WitnessVerifier := ⟨990, 2000, ⟨0⟩, .new⟩

def samplePresents : Call := .verifyHashcash sampleChallenge sampleResponse sampleContext 1010

def sampleLog : List Note :=
  [⟨samplePresents, .ok (some sampleEvidence), sampleVerifier, sampleConsumed⟩,
    ⟨.prune 2000, .ok none, sampleConsumed, samplePruned⟩,
    ⟨samplePresents, .error .expired, samplePruned, samplePruned⟩]

theorem sample_admitted : exec (samplePresents.perform sampleCrypto) sampleVerifier =
    (.ok (some sampleEvidence), sampleConsumed) := by
  decide +kernel

theorem sample_pruned : exec ((Call.prune 2000).perform sampleCrypto) sampleConsumed = (.ok none, samplePruned) := by
  decide +kernel

theorem sample_expired : exec (samplePresents.perform sampleCrypto) samplePruned = (.error .expired, samplePruned) := by
  decide +kernel

theorem sample_distinctScopes : DistinctScopes sampleCrypto sampleLog := by
  have hall : ∀ n ∈ sampleLog, ∀ c, n.call.challenge = some c → c = sampleChallenge := by
    simp [sampleLog, samplePresents, Call.challenge, eq_comm]
  intro n hn n' hn' c c' hc hc' _ _ _
  rw [hall n hn c hc, hall n' hn' c' hc']

theorem sample_one_use_admission : ((sampleLog.filterMap Note.admitted).map Challenge.scope).Nodup ∧
    samplePruned.window.entries.size ≤ maxOpenChallenges := by
  have hrun : Steps (Step sampleCrypto) (.new 990 ⟨0⟩ .new) sampleLog samplePruned :=
    ((Steps.single (Step.call sample_admitted)).tail (Step.call sample_pruned)).tail (Step.call sample_expired)
  have h := one_use_admission .new hrun sample_distinctScopes
  exact ⟨h.1, h.2.2.2.2⟩

end Valhalla.Botcaptcha
