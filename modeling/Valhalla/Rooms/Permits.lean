import Valhalla.Rooms.Roundtrip
import Valhalla.Session.Envelope

/-!
# Owner permits, and what the signatures of room records are over (`wire.rs` of `vhalla-rooms`)

A permit is the owner's signature over an intent in a frame of its own. Three kinds of content are hashed (`Preimage`), and four kinds
of transcript are signed (`Signing`), in five places. Every domain differs from every other at its fourteenth byte, and behind the
domain the payload can be read back; so equal preimages are of one content, and equal transcripts of one signing.
-/

namespace Valhalla.Rooms
open Fallible FixedWidth Check
open Session (SigningKey)

theorem Body.tag_ne_permitTag (body : Body) : body.tag ≠ permitTag := by
  cases body with
  | control => exact (by decide : controlTag ≠ permitTag)
  | create => exact (by decide : createTag ≠ permitTag)
  | update => exact (by decide : updateTag ≠ permitTag)

/-! ### Permits -/

structure OwnerPermit (crypto : Crypto) where
  intent : CreationIntent
  signature : Signature
  checked : checkIntent crypto intent = .ok ()
deriving DecidableEq

namespace OwnerPermit
variable {crypto : Crypto}

def encode (permit : OwnerPermit crypto) : List UInt8 := frame permitTag (intentBytes permit.intent) permit.signature none

def id (permit : OwnerPermit crypto) : PermitId := permitId crypto permit.intent

def genesisId (permit : OwnerPermit crypto) : RoomGenesisId := Rooms.genesisId crypto permit.intent

def build (crypto : Crypto) (intent : CreationIntent) (signature : Signature) : Except Error (OwnerPermit crypto) :=
  match h : checkIntent crypto intent with
  | .ok () => .ok ⟨intent, signature, h⟩
  | .error e => .error e

def decode (raw : List UInt8) : Except Error (OwnerPermit crypto) := do
  let frame ← splitFrame raw
  require .encoding (frame.tag == permitTag)
  let intent ← Reader.complete .encoding readIntent frame.payload
  let permit ← build crypto intent frame.primary
  require .encoding (permit.encode == raw)
  pure permit

def verify (permit : OwnerPermit crypto) : Except Error Unit :=
  verifySignature crypto permit.intent.ownerKey (ownerTranscript crypto permit.intent) permit.signature

variable {permit : OwnerPermit crypto} {intent : CreationIntent} {signature : Signature} {raw : List UInt8}

theorem build_eq_ok : build crypto intent signature = .ok permit ↔ permit.intent = intent ∧ permit.signature = signature := by
  unfold build
  constructor
  · intro h
    split at h
    · cases h
      exact ⟨rfl, rfl⟩
    · cases h
  · rintro ⟨rfl, rfl⟩
    split
    · rfl
    · rename_i he
      rw [permit.checked] at he
      cases he

def toFrame (permit : OwnerPermit crypto) : Frame := ⟨permitTag, intentBytes permit.intent, permit.signature, none⟩

theorem length_intent_le (intent : CreationIntent) : (intentBytes intent).length ≤ 727 := Body.length_le (.create intent)

theorem formed (permit : OwnerPermit crypto) : permit.toFrame.Formed := by
  have hlen := length_intent_le permit.intent
  refine ⟨by simp [toFrame], ?_, rfl⟩
  show (intentBytes permit.intent).length ≤ 2048 - 8 - 64
  omega

theorem length_encode_le (permit : OwnerPermit crypto) : permit.encode.length ≤ maxRecordBytes := by
  have hlen := length_intent_le permit.intent
  have hmax : maxRecordBytes = 2048 := rfl
  have hmagic : wireMagic.length = 5 := rfl
  simp only [encode, frame, List.length_append, List.length_singleton, length_toBe, bytes_uInt16, Vector.length_toList, hmagic,
    Option.map_none, Option.getD_none, List.length_nil]
  omega

theorem decode_eq_ok : decode raw = .ok permit ↔ raw = permit.encode := by
  have hsplit : splitFrame raw = .ok permit.toFrame ↔ raw = permit.encode := by
    rw [splitFrame, codec_frame.decode_eq_ok]
    exact ⟨fun h => h.1, fun h => ⟨h, permit.formed, permit.length_encode_le⟩⟩
  rw [decode]
  simp only [bind_eq_ok, require_eq_ok, beq_iff_eq]
  constructor
  · rintro ⟨frame, -, -, -, intent, -, permit', -, _, hraw, he⟩
    cases he
    exact hraw.symm
  · intro hraw
    exact ⟨permit.toFrame, hsplit.2 hraw, (), rfl, permit.intent, codec_intent.complete_eq_ok.2 ⟨rfl, trivial⟩, permit,
      build_eq_ok.2 ⟨rfl, rfl⟩, (), hraw.symm, rfl⟩

theorem encode_ne (permit : OwnerPermit crypto) (record : SignedRecord crypto) : permit.encode ≠ record.encode := by
  intro h
  have htag := congrArg (fun bytes => bytes[5]?) h
  simp only [encode, SignedRecord.encode, frame, wireMagic, List.cons_append, List.nil_append, List.getElem?_cons_succ,
    List.getElem?_cons_zero, Option.some.injEq] at htag
  exact record.body.tag_ne_permitTag htag.symm

end OwnerPermit

/-! ### Domains -/

inductive Domain
  | recordId | genesisId | permitId | control | update | owner | agent
deriving DecidableEq

namespace Domain

def bytes : Domain → List UInt8
  | recordId => recordDomain
  | genesisId => genesisDomain
  | permitId => permitDomain
  | control => controlSign
  | update => updateSign
  | owner => ownerSign
  | agent => agentSign

/-- The byte behind `vhalla/rooms/`. -/
def mark : Domain → UInt8
  | recordId => 114
  | genesisId => 103
  | permitId => 112
  | control => 99
  | update => 117
  | owner => 111
  | agent => 97

theorem mark_injective {d d' : Domain} (h : d.mark = d'.mark) : d = d' := by
  revert h
  cases d <;> cases d' <;> decide

theorem bytes_mark (d : Domain) : 13 < d.bytes.length ∧ d.bytes[13]? = some d.mark := by
  cases d <;> decide +kernel

theorem append_inj {d d' : Domain} {rest rest' : List UInt8} (h : d.bytes ++ rest = d'.bytes ++ rest') : d = d' ∧ rest = rest' := by
  have hbyte := congrArg (·[13]?) h
  rw [List.getElem?_append_left d.bytes_mark.1, List.getElem?_append_left d'.bytes_mark.1, d.bytes_mark.2, d'.bytes_mark.2,
    Option.some.injEq] at hbyte
  obtain rfl := mark_injective hbyte
  exact ⟨rfl, List.append_cancel_left h⟩

end Domain

/-! ### What is hashed -/

inductive Preimage
  | record (body : Body)
  | genesis (intent : CreationIntent)
  | permit (intent : CreationIntent)

namespace Preimage

def domain : Preimage → Domain
  | record _ => .recordId
  | genesis _ => .genesisId
  | permit _ => .permitId

def tag : Preimage → UInt8
  | record body => body.tag
  | genesis _ => createTag
  | permit _ => permitTag

def payload : Preimage → List UInt8
  | record body => body.bytes
  | genesis intent => intentBytes intent
  | permit intent => intentBytes intent

/-- What `hash` takes in. -/
def bytes (p : Preimage) : List UInt8 := p.domain.bytes ++ (wireMagic ++ ([p.tag] ++ (toBe (UInt16.ofNat p.payload.length) ++ p.payload)))

end Preimage

section
variable (crypto : Crypto)

theorem recordId_eq (body : Body) : recordId crypto body = ⟨crypto.sha256 (Preimage.record body).bytes⟩ := rfl

theorem genesisId_eq (intent : CreationIntent) : genesisId crypto intent = ⟨crypto.sha256 (Preimage.genesis intent).bytes⟩ := rfl

theorem permitId_eq (intent : CreationIntent) : permitId crypto intent = ⟨crypto.sha256 (Preimage.permit intent).bytes⟩ := rfl

end

/-! ### What is signed -/

inductive Signing
  | owner (intent : CreationIntent)
  | agent (intent : CreationIntent)
  | control (control : RoomControl)
  | update (update : RoomUpdate)

namespace Signing

def key : Signing → Bytes32
  | owner intent => intent.ownerKey
  | agent intent => intent.agentKey
  | control c => c.controllerKey
  | update u => u.controllerKey

def domain : Signing → Domain
  | owner _ => .owner
  | agent _ => .agent
  | control _ => .control
  | update _ => .update

/-- The contents whose hashes are in the transcript. -/
def preimages : Signing → List Preimage
  | owner intent => [.permit intent]
  | agent intent => [.genesis intent, .permit intent]
  | control c => [.record (.control c)]
  | update u => [.record (.update u)]

def transcript (crypto : Crypto) (s : Signing) : List UInt8 :=
  s.domain.bytes ++ s.preimages.flatMap fun p => (crypto.sha256 p.bytes).toList

theorem transcript_owner (crypto : Crypto) (intent : CreationIntent) : (owner intent).transcript crypto = ownerTranscript crypto intent := by
  simp [transcript, preimages, domain, Domain.bytes, ownerTranscript, permitId_eq]

theorem transcript_agent (crypto : Crypto) (intent : CreationIntent) : (agent intent).transcript crypto = agentTranscript crypto intent := by
  simp [transcript, preimages, domain, Domain.bytes, agentTranscript, permitId_eq, genesisId_eq]

theorem transcript_control (crypto : Crypto) (c : RoomControl) :
    (control c).transcript crypto = controllerTranscript crypto controlSign (.control c) := by
  simp [transcript, preimages, domain, Domain.bytes, controllerTranscript, recordId_eq]

theorem transcript_update (crypto : Crypto) (u : RoomUpdate) :
    (update u).transcript crypto = controllerTranscript crypto updateSign (.update u) := by
  simp [transcript, preimages, domain, Domain.bytes, controllerTranscript, recordId_eq]

end Signing

def SignedRecord.signings {crypto : Crypto} (record : SignedRecord crypto) : List (Signing × Option Signature) :=
  match record.body with
  | .create intent => [(.owner intent, some record.signature), (.agent intent, record.acknowledgement)]
  | .control control => [(.control control, some record.signature)]
  | .update update => [(.update update, some record.signature)]

def Signing.Verifies (crypto : Crypto) (s : Signing) (signature : Option Signature) : Prop :=
  ∃ σ, signature = some σ ∧ crypto.verifyStrict s.key (s.transcript crypto) σ = true

section
variable {crypto : Crypto}

theorem verifySignature_ok {key : Bytes32} {transcript : List UInt8} {signature : Signature}
    (h : verifySignature crypto key transcript signature = .ok ()) : crypto.verifyStrict key transcript signature = true := by
  simp only [verifySignature, bind_eq_ok, require_eq_ok] at h
  obtain ⟨-, -, h⟩ := h
  exact h

theorem SignedRecord.verify_ok {record : SignedRecord crypto} (h : record.verify = .ok ()) :
    ∀ s ∈ record.signings, s.1.Verifies crypto s.2 := by
  intro s hs
  unfold SignedRecord.verify at h
  unfold SignedRecord.signings at hs
  split at h
  · rename_i intent hbody
    rw [hbody] at hs
    simp only [bind_eq_ok, okOr_eq_ok] at h
    obtain ⟨_, howner, secondary, hsecondary, hagent⟩ := h
    rcases List.mem_cons.1 hs with rfl | hs
    · refine ⟨_, rfl, ?_⟩
      rw [Signing.transcript_owner]
      exact verifySignature_ok howner
    · rw [List.mem_singleton] at hs
      subst hs
      refine ⟨secondary, hsecondary, ?_⟩
      rw [Signing.transcript_agent]
      exact verifySignature_ok hagent
  · rename_i control hbody
    rw [hbody] at hs
    simp only [verifyController, bind_eq_ok] at h
    obtain ⟨-, -, hcontroller⟩ := h
    rw [List.mem_singleton] at hs
    subst hs
    refine ⟨_, rfl, ?_⟩
    rw [Signing.transcript_control, ← hbody]
    exact verifySignature_ok hcontroller
  · rename_i update hbody
    rw [hbody] at hs
    simp only [verifyController, bind_eq_ok] at h
    obtain ⟨-, -, hcontroller⟩ := h
    rw [List.mem_singleton] at hs
    subst hs
    refine ⟨_, rfl, ?_⟩
    rw [Signing.transcript_update, ← hbody]
    exact verifySignature_ok hcontroller

theorem OwnerPermit.verify_ok {permit : OwnerPermit crypto} (h : permit.verify = .ok ()) :
    (Signing.owner permit.intent).Verifies crypto (some permit.signature) := by
  refine ⟨_, rfl, ?_⟩
  rw [Signing.transcript_owner]
  exact verifySignature_ok h

/-! ### Signing -/

def requireSigner (key : SigningKey) (expected : Bytes32) : Except Error Unit := require .signingKey (key.verifyingKey == expected)

def OwnerPermit.signWithKey (intent : CreationIntent) (key : SigningKey) : Except Error (OwnerPermit crypto) := do
  checkIntent crypto intent
  requireSigner key intent.ownerKey
  build crypto intent (key.sign (ownerTranscript crypto intent))

/-- `propose_with_key` of a verified permit: the owner's signature is taken over as it is. -/
def OwnerPermit.proposeWithKey (permit : OwnerPermit crypto) (key : SigningKey) : Except Error (SignedRecord crypto) := do
  requireSigner key permit.intent.agentKey
  pure ⟨.create permit.intent, permit.signature, some (key.sign (agentTranscript crypto permit.intent)), permit.checked, rfl⟩

def SignedRecord.signController (body : Body) (controllerKey : Bytes32) (domain : List UInt8) (key : SigningKey) :
    Except Error (SignedRecord crypto) := do
  checkBody crypto body
  requireSigner key controllerKey
  build crypto body ⟨body.tag, body.bytes, key.sign (controllerTranscript crypto domain body), none⟩

def RoomControl.signWithKey (control : RoomControl) (key : SigningKey) : Except Error (SignedRecord crypto) :=
  SignedRecord.signController (.control control) control.controllerKey controlSign key

def RoomUpdate.signWithKey (update : RoomUpdate) (key : SigningKey) : Except Error (SignedRecord crypto) :=
  SignedRecord.signController (.update update) update.controllerKey updateSign key

section
variable {key : SigningKey} {permit : OwnerPermit crypto} {record : SignedRecord crypto} {intent : CreationIntent}

end

end

/-! ### Distinctness -/

theorem framed_inj {tag tag' : UInt8} {payload payload' : List UInt8}
    (h : wireMagic ++ ([tag] ++ (toBe (UInt16.ofNat payload.length) ++ payload)) =
      wireMagic ++ ([tag'] ++ (toBe (UInt16.ofNat payload'.length) ++ payload'))) : tag = tag' ∧ payload = payload' := by
  have htag := List.append_cancel_left h
  obtain ⟨hhead, hrest⟩ := List.append_inj htag rfl
  obtain ⟨-, hpayload⟩ := List.append_inj hrest (by rw [length_toBe, length_toBe])
  exact ⟨List.singleton_inj.1 hhead, hpayload⟩

namespace Preimage

theorem bytes_injective {p q : Preimage} (h : p.bytes = q.bytes) : p = q := by
  obtain ⟨hdomain, hrest⟩ := Domain.append_inj h
  obtain ⟨htag, hpayload⟩ := framed_inj hrest
  have hread := congrArg (· ++ []) hpayload
  cases p with
  | record body =>
    cases q with
    | record body' => rw [((codec_body body'.tag).append_inj htag rfl hread).1]
    | genesis => cases hdomain
    | permit => cases hdomain
  | genesis intent =>
    cases q with
    | record => cases hdomain
    | genesis intent' => rw [(codec_intent.append_inj trivial trivial hread).1]
    | permit => cases hdomain
  | permit intent =>
    cases q with
    | record => cases hdomain
    | genesis => cases hdomain
    | permit intent' => rw [(codec_intent.append_inj trivial trivial hread).1]

end Preimage

/-- Among what is hashed for the signings of a list and for one more, no two inputs have one digest. -/
def NoCollision (crypto : Crypto) (made : List Signing) (s : Signing) : Prop :=
  ∀ m ∈ made, ∀ p ∈ m.preimages, ∀ q ∈ s.preimages, crypto.sha256 p.bytes = crypto.sha256 q.bytes → p.bytes = q.bytes

section
variable {crypto : Crypto}

namespace Signing

theorem transcript_injective {s m : Signing} (hfree : NoCollision crypto [m] s) (h : m.transcript crypto = s.transcript crypto) : m = s := by
  obtain ⟨hdomain, hrest⟩ := Domain.append_inj h
  have hsame : ∀ p ∈ m.preimages, ∀ q ∈ s.preimages, (crypto.sha256 p.bytes).toList = (crypto.sha256 q.bytes).toList → p = q :=
    fun p hp q hq he => Preimage.bytes_injective (hfree m (List.mem_singleton.2 rfl) p hp q hq (Vector.toList_inj.1 he))
  cases m with
  | owner intent =>
    cases s with
    | owner intent' =>
      simp only [preimages, List.flatMap_cons, List.flatMap_nil, List.append_nil] at hrest
      cases hsame _ (List.mem_singleton.2 rfl) _ (List.mem_singleton.2 rfl) hrest
      rfl
    | agent => cases hdomain
    | control => cases hdomain
    | update => cases hdomain
  | agent intent =>
    cases s with
    | agent intent' =>
      simp only [preimages, List.flatMap_cons, List.flatMap_nil, List.append_nil] at hrest
      obtain ⟨hgenesis, -⟩ := List.append_inj hrest (by rw [Vector.length_toList, Vector.length_toList])
      cases hsame _ (List.mem_cons_self ..) _ (List.mem_cons_self ..) hgenesis
      rfl
    | owner => cases hdomain
    | control => cases hdomain
    | update => cases hdomain
  | control c =>
    cases s with
    | control c' =>
      simp only [preimages, List.flatMap_cons, List.flatMap_nil, List.append_nil] at hrest
      cases hsame _ (List.mem_singleton.2 rfl) _ (List.mem_singleton.2 rfl) hrest
      rfl
    | owner => cases hdomain
    | agent => cases hdomain
    | update => cases hdomain
  | update u =>
    cases s with
    | update u' =>
      simp only [preimages, List.flatMap_cons, List.flatMap_nil, List.append_nil] at hrest
      cases hsame _ (List.mem_singleton.2 rfl) _ (List.mem_singleton.2 rfl) hrest
      rfl
    | owner => cases hdomain
    | agent => cases hdomain
    | control => cases hdomain

theorem transcript_ne (s : Signing) (p : Preimage) : s.transcript crypto ≠ p.bytes := by
  intro h
  obtain ⟨hdomain, -⟩ := Domain.append_inj h
  cases s <;> cases p <;> cases hdomain

/-- A key under which only the transcripts of a list verify has made none but these signings. -/
theorem Verifies.mem {s : Signing} {signature : Option Signature} {made : List Signing} (h : s.Verifies crypto signature)
    (hkey : ∀ message σ, crypto.verifyStrict s.key message σ = true → ∃ m ∈ made, message = m.transcript crypto)
    (hfree : NoCollision crypto made s) : s ∈ made := by
  obtain ⟨σ, -, hverify⟩ := h
  obtain ⟨m, hm, htranscript⟩ := hkey _ _ hverify
  have hsingle : NoCollision crypto [m] s := fun m' hm' => hfree m' (List.mem_singleton.1 hm' ▸ hm)
  rw [← transcript_injective hsingle htranscript.symm]
  exact hm

end Signing

end

/-! ### The laws -/

structure RecordLaws (crypto : Crypto) : Prop where
  record : ∀ body signature acknowledgement, checkBody crypto body = .ok () → acknowledgement.isSome = body.isCreate →
    (frame body.tag body.bytes signature acknowledgement).length ≤ maxRecordBytes ∧
      ∃ record : SignedRecord crypto, SignedRecord.decode (frame body.tag body.bytes signature acknowledgement) = .ok record ∧
        record.body = body ∧ record.signature = signature ∧ record.acknowledgement = acknowledgement
  permit : ∀ intent signature, checkIntent crypto intent = .ok () →
    (frame permitTag (intentBytes intent) signature none).length ≤ maxRecordBytes ∧
      ∃ permit : OwnerPermit crypto, OwnerPermit.decode (frame permitTag (intentBytes intent) signature none) = .ok permit ∧
        permit.intent = intent ∧ permit.signature = signature
  recordBytes : ∀ raw (record : SignedRecord crypto), SignedRecord.decode raw = .ok record → record.encode = raw
  permitBytes : ∀ raw (permit : OwnerPermit crypto), OwnerPermit.decode raw = .ok permit → permit.encode = raw
  disjoint : ∀ raw (record : SignedRecord crypto) (permit : OwnerPermit crypto), SignedRecord.decode raw = .ok record →
    OwnerPermit.decode raw ≠ .ok permit
  preimages : ∀ p q : Preimage, p.bytes = q.bytes → p = q
  apart : ∀ (s : Signing) (p : Preimage), s.transcript crypto ≠ p.bytes
  transcripts : ∀ s m : Signing, NoCollision crypto [m] s → m.transcript crypto = s.transcript crypto → m = s
  /-- A signature over one transcript alone verifies in no other place. -/
  bound : ∀ (s m : Signing) (signature : Signature), NoCollision crypto [m] s →
    (∀ message, crypto.verifyStrict s.key message signature = true → message = m.transcript crypto) → s.Verifies crypto (some signature) → m = s
  /-- What verifies under a key is among the signings that its holder made. -/
  records : ∀ (record : SignedRecord crypto) (key : Bytes32) (made : List Signing), record.verify = .ok () →
    (∀ message signature, crypto.verifyStrict key message signature = true → ∃ m ∈ made, message = m.transcript crypto) →
    ∀ s ∈ record.signings, s.1.key = key → NoCollision crypto made s.1 → s.1 ∈ made
  permits : ∀ (permit : OwnerPermit crypto) (made : List Signing), permit.verify = .ok () →
    (∀ message signature, crypto.verifyStrict permit.intent.ownerKey message signature = true → ∃ m ∈ made, message = m.transcript crypto) →
    NoCollision crypto made (.owner permit.intent) → .owner permit.intent ∈ made

theorem room_record_laws (crypto : Crypto) : RecordLaws crypto where
  record body signature acknowledgement hcheck hack := by
    let record : SignedRecord crypto := ⟨body, signature, acknowledgement, hcheck, hack⟩
    exact ⟨record.length_encode_le, record, SignedRecord.decode_eq_ok.2 rfl, rfl, rfl, rfl⟩
  permit intent signature hcheck := by
    let permit : OwnerPermit crypto := ⟨intent, signature, hcheck⟩
    exact ⟨permit.length_encode_le, permit, OwnerPermit.decode_eq_ok.2 rfl, rfl, rfl⟩
  recordBytes _ _ h := (SignedRecord.decode_eq_ok.1 h).symm
  permitBytes _ _ h := (OwnerPermit.decode_eq_ok.1 h).symm
  disjoint raw record permit hrecord hpermit :=
    permit.encode_ne record ((OwnerPermit.decode_eq_ok.1 hpermit).symm.trans (SignedRecord.decode_eq_ok.1 hrecord))
  preimages _ _ h := Preimage.bytes_injective h
  apart s p := s.transcript_ne p
  transcripts _ _ hfree h := Signing.transcript_injective hfree h
  bound s m signature hfree honly hverifies := by
    obtain ⟨σ, hσ, hverify⟩ := hverifies
    cases hσ
    exact Signing.transcript_injective hfree (honly _ hverify).symm
  records record key made h hkey s hs hsame hfree := by
    obtain rfl := hsame
    exact (SignedRecord.verify_ok h s hs).mem hkey hfree
  permits permit made h hkey hfree := (OwnerPermit.verify_ok h).mem hkey hfree

end Valhalla.Rooms
