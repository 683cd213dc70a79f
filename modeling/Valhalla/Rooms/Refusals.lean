import Valhalla.Rooms.Commitment
import Valhalla.Rooms.Steps

/-!
# Refused operations

A refusal leaves the registry untouched unless it leaves an empty chain, and an empty chain is in the snapshot.
-/

namespace Valhalla.Rooms
open Fallible FixedWidth Check
open Social (OwnerId AgentId RecordId ControlView)

variable {crypto : Crypto}

def Registry.answers (r : Registry crypto) : List (Call crypto) → List (Except RegistryError (Option Applied))
  | [] => []
  | call :: calls => (exec call.run r).1 :: (r.after call).answers calls

/-- Nothing that can be observed has changed. -/
structure Registry.Untouched (r r' : Registry crypto) : Prop where
  snapshot : r'.snapshot = r.snapshot
  digest : r'.digest = r.digest
  authority : ∀ view, r'.authority.snapshot view = r.authority.snapshot view
  answers : ∀ calls, r'.answers calls = r.answers calls

def Call.Enters (r : Registry crypto) : Call crypto → Prop
  | .apply record view now => ∃ control, r.Enters record view now control
  | _ => False

theorem length_putCounted {α : Type} {put : α → List UInt8} {l : List α} :
    (putCounted put l).length = 4 + Weights.total (fun a => (put a).length) l := by
  rw [putCounted, List.length_append, putSize, length_toBe, bytes_uInt32, List.length_flatMap]
  rfl

theorem RoomAuthority.length_histories_entry {a : RoomAuthority crypto} {owner : OwnerId} (h : a.chains[owner]? = none) :
    (putCounted putHistory (a.entry owner).histories).length = (putCounted putHistory a.histories).length + 36 := by
  have hentry : (a.entry owner).chains = a.chains.insert owner {} := by
    rw [RoomAuthority.entry, Std.ExtTreeMap.contains_eq_isSome_getElem?, h]
    rfl
  have hperm : (a.entry owner).histories.Perm ((owner, []) :: a.histories) := by
    rw [RoomAuthority.histories, hentry]
    exact (Maps.toList_insert_perm h).map fun c => (c.1, c.2.history)
  have hempty : (putHistory (owner, ([] : List (VerifiedRecord crypto)))).length = 36 := by
    rw [putHistory, List.length_append, Vector.length_toList, length_putCounted]
    rfl
  rw [length_putCounted, length_putCounted, Weights.total_perm hperm, Weights.total_cons, hempty]
  omega

theorem Registry.Enters.length_snapshot {r : Registry crypto} {record : VerifiedRecord crypto} {view : ControlView} {now : UInt64}
    {control : RoomControl} (h : r.Enters record view now control) :
    ({ r with authority := r.authority.entry control.owner } : Registry crypto).snapshot.length = r.snapshot.length + 36 := by
  obtain ⟨hdirectory, hrealm, hrecords⟩ := r.authority.entry_frame control.owner
  have hhistories := RoomAuthority.length_histories_entry h.absent
  have hpayload : ({ r with authority := r.authority.entry control.owner } : Registry crypto).payload.length =
      r.payload.length + 36 := by
    simp only [Registry.payload, List.length_append, hhistories, Registry.putSchedule]
    omega
  rw [Registry.snapshot, Registry.snapshot, List.length_append, List.length_append, List.length_append, List.length_append,
    hpayload, Registry.length_magic, Registry.length_magic, Vector.length_toList, Vector.length_toList]
  omega

theorem Registry.Enters.checkCommit {r : Registry crypto} {record : VerifiedRecord crypto} {view : ControlView} {now : UInt64}
    {control : RoomControl} (h : r.Enters record view now control) : r.authority.checkCommit record = .ok control := by
  have hadmission := h.admission
  have hcontrol : controlOf record.body = .ok control := by rw [h.body]; rfl
  simp only [checkAdmission, hcontrol, bind_eq_ok] at hadmission
  obtain ⟨_, he, _, hscope, -⟩ := hadmission
  cases he
  have hroom : require Denial.capacity (decide (r.authority.records < maxControlRecords)) = .ok () := by simp [h.room]
  simp only [RoomAuthority.checkCommit, hcontrol, hroom, bind_eq_ok]
  exact ⟨control, rfl, (), hscope, (), trivial, rfl⟩

theorem Registry.Enters.exec_run {r : Registry crypto} (hr : r.Sound) {record : VerifiedRecord crypto} {view : ControlView}
    {now : UInt64} {control : RoomControl} (h : r.Enters record view now control) :
    ∃ e, ({} : OwnerChain crypto).accepts control = .error e ∧ exec (Call.run (.apply record view now)) r =
      (.error (.authority e), { r with authority := r.authority.entry control.owner }) := by
  have hempty : r.authority.chain control.owner = {} := by rw [RoomAuthority.chain, h.absent]; rfl
  have hcommitted := hr.authority.committed record
  have hrun : exec (admitControl record view now) r.authority = exec (commitControl record) r.authority := by
    rw [exec_admitControl, h.admission]
  rw [← hrun] at hcommitted
  have happly : applyBody record view now = (do onAuthority (admitControl record view now); pure .control) := by
    rw [applyBody, h.body]
  generalize houtcome : exec (admitControl record view now) r.authority = outcome at hcommitted
  obtain ⟨answer, a'⟩ := outcome
  cases hcommitted with
  | refused check =>
    rw [h.checkCommit] at check
    cases check
  | @entered e control' check accepts =>
    cases h.checkCommit.symm.trans check
    have hfail : exec (applyBody record view now) r =
        (.error (.authority e), { r with authority := r.authority.entry control.owner }) := by
      rw [happly, exec_bind, exec_onAuthority, houtcome]
      rfl
    rw [hempty] at accepts
    exact ⟨e, accepts, exec_apply_error h.clock hfail⟩
  | pushed check accepts next =>
    cases h.checkCommit.symm.trans check
    rw [hempty] at accepts
    exact absurd accepts ((RoomControl.unfounded_iff crypto).1 h.unfounded)

theorem Registry.Enters.after {r : Registry crypto} (hr : r.Sound) {record : VerifiedRecord crypto} {view : ControlView}
    {now : UInt64} {control : RoomControl} (h : r.Enters record view now control) :
    r.after (.apply record view now) = { r with authority := r.authority.entry control.owner } := by
  obtain ⟨_, -, hexec⟩ := h.exec_run hr
  rw [Registry.after, hexec]

theorem Registry.Sound.after_refused {r : Registry crypto} (hr : r.Sound) (hcounts : r.Counts) {call : Call crypto}
    {e : RegistryError} (h : (exec call.run r).1 = .error e) (hfounded : ¬ call.Enters r) : r.after call = r := by
  have houtcome := hr.outcome call
  rw [h] at houtcome
  unfold Registry.after
  generalize (exec call.run r).2 = r' at houtcome
  cases houtcome with
  | refused => rfl
  | @entered _ record view now control hcall enters =>
    subst hcall
    exact absurd ⟨control, enters⟩ hfounded
  | exhausted clock effect full => exact absurd hcounts full

/-- A refused operation leaves the registry untouched exactly when it does not leave an empty chain. -/
theorem refusal_untouched {r : Registry crypto} (hr : r.Reachable) (hcounts : r.Counts) {call : Call crypto} {e : RegistryError}
    (h : (exec call.run r).1 = .error e) : r.Untouched (r.after call) ↔ ¬ call.Enters r := by
  constructor
  · intro huntouched henters
    cases call with
    | apply record view now =>
      obtain ⟨control, henters⟩ := henters
      have hlen := henters.length_snapshot
      rw [← henters.after hr.sound, huntouched.snapshot] at hlen
      omega
    | award => exact henters
    | setEligible => exact henters
    | applyRotation => exact henters
  · intro hfounded
    rw [hr.sound.after_refused hcounts h hfounded]
    exact ⟨rfl, rfl, fun _ => rfl, fun _ => rfl⟩

/-! An owner whose first control record revokes a grant. -/

def sampleRevocation : RoomControl where
  directory := ⟨zeroBytes⟩
  realm := ⟨77⟩
  owner := ⟨Social.sampleOwner.bytes⟩
  socialControl := Social.sampleOwner
  controllerKey := Social.sampleKey
  previous := none
  sequence := 0
  action := .revokeGrant ⟨Vector.replicate 32 5⟩

def sampleRecordId : Bytes32 := beVector 32 0xd85f735dd9770de0826af5f0edfa8b9b0430dd363c12bfeebeca4a9a351b70f9

def sampleSignature : Signature := beVector 64
  0xfe79b63284cd2aa168336ea2449efc4a7828f5ec51c7fd37f722ef648b260e5f33939710c0595452b1476b64e7fd2676cb6815756c9c83fc0bbbd02f61e5600b

def sampleCrypto : Crypto where
  sha256 message := if message.take recordDomain.length = recordDomain then sampleRecordId else Social.sampleCrypto.sha256 message
  decodesKey := Social.sampleCrypto.decodesKey
  isWeak := Social.sampleCrypto.isWeak
  verifyStrict key message signature := Social.sampleCrypto.verifyStrict key message signature ||
    (key = Social.sampleKey && message = controlSign ++ sampleRecordId.toList && signature = sampleSignature)

theorem sampleRevocation_checked : checkBody sampleCrypto (.control sampleRevocation) = .ok () := by decide

theorem sampleRevocation_alone : (none : Option Signature).isSome = (Body.control sampleRevocation).isCreate := rfl

def sampleSigned : SignedRecord sampleCrypto :=
  ⟨.control sampleRevocation, sampleSignature, none, sampleRevocation_checked, sampleRevocation_alone⟩

theorem sampleSigned_verified : sampleSigned.verify = .ok () := by decide +kernel

def sampleRecord : VerifiedRecord sampleCrypto := ⟨sampleSigned, sampleSigned_verified⟩

def sampleStart : Registry sampleCrypto := sampleRegistry sampleCrypto

theorem sampleStart_reachable : sampleStart.Reachable := sampleRegistry_reachable sampleCrypto

theorem sampleStart_counts : sampleStart.Counts := sampleRegistry_counts sampleCrypto

theorem sampleRecord_enters : sampleStart.Enters sampleRecord (sampleView 0) 0 sampleRevocation where
  body := rfl
  clock := by decide
  admission := by
    rw [sampleView, Social.sampleArchive_evidence]
    decide +kernel
  room := by decide
  absent := by simp [sampleStart, sampleRegistry, RoomAuthority.new]
  unfounded := .inr (.inr ⟨_, rfl⟩)

theorem sample_entered : (exec (Call.run (.apply sampleRecord (sampleView 0) 0)) sampleStart).1 = .error (.authority .grant) := by
  obtain ⟨e, hrefused, hexec⟩ := sampleRecord_enters.exec_run sampleStart_reachable.sound
  have hgrant : ({} : OwnerChain sampleCrypto).accepts sampleRevocation = .error .grant := by decide
  cases hrefused.symm.trans hgrant
  rw [hexec]

/-- The refused revocation is in the snapshot. -/
theorem sample_refusal_touches : sampleStart.Reachable ∧ sampleStart.Counts ∧
    (exec (Call.run (.apply sampleRecord (sampleView 0) 0)) sampleStart).1 = .error (.authority .grant) ∧
      (sampleStart.after (.apply sampleRecord (sampleView 0) 0)).snapshot ≠ sampleStart.snapshot := by
  refine ⟨sampleStart_reachable, sampleStart_counts, sample_entered, fun hsame => ?_⟩
  have hlen := sampleRecord_enters.length_snapshot
  rw [← sampleRecord_enters.after sampleStart_reachable.sound, hsame] at hlen
  omega

/-- Too many sources are refused, and nothing else happens. -/
theorem sample_refusal : sampleStart.Untouched (sampleStart.after
    (.setEligible (List.replicate 257 sampleRevocation.owner) 0)) := by
  have hrefused : (exec (Call.run (.setEligible (List.replicate 257 sampleRevocation.owner) 0)) sampleStart).1 =
      .error .capacity := by
    have hmany : (List.replicate 257 sampleRevocation.owner).length > maxOwners := by
      rw [List.length_replicate]
      decide
    generalize List.replicate 257 sampleRevocation.owner = owners at hmany
    rw [Call.run, Rooms.setEligible, bind_assoc, exec_clock, if_neg (by decide), bind_assoc, exec_examine_bind, decide_eq_true hmany]
    rfl
  exact (refusal_untouched sampleStart_reachable sampleStart_counts hrefused).2 id

end Valhalla.Rooms
