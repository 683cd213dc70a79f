import Valhalla.Session.Envelope
import Valhalla.Social.Page

/-!
# Requests and responses (`lib.rs`, `wire.rs` of `vhalla-retrieval`)

What a requester discloses to a provider, and the bounded frame of exact references and signed records that the
provider answers with.
-/

namespace Valhalla.Retrieval
open Fallible FixedWidth Check
open Social (RecordId OwnerId PostRef CanonicalTag maxRecords maxRecordBytes)

def maxFrame : Nat := 48 * 1024
def maxPeers : Nat := 4
def maxHints : Nat := 16
def maxRecordsPerFrame : Nat := 5
def maxAttempts : Nat := 32
def maxKnown : Nat := 1024

structure ChannelScope where
  realm : RealmId
  room : RoomId
  epoch : Session.Epoch
deriving DecidableEq

inductive Error
  | bounds | encoding | context | budget | evidence
deriving DecidableEq, Repr

/-- A parsed literal query (`vhalla-discovery`). -/
structure Query where
  raw : String
  terms : List String
deriving DecidableEq

def checkKnown (known : List RecordId) : Bool := decide (known.length ≤ maxKnown) && ascendingBy compare known

/-- What is asked of the selected peers. -/
structure Request where
  nonce : Bytes32
  realm : RealmId
  query : Query
  tag : Option CanonicalTag
  known : List RecordId
  valid : checkKnown known = true
deriving DecidableEq

def Request.new (nonce : Bytes32) (realm : RealmId) (query : Query) (tag : Option CanonicalTag) (known : List RecordId) :
    Except Error Request :=
  if h : checkKnown known = true then .ok ⟨nonce, realm, query, tag, known, h⟩ else .error .bounds

structure Response where
  nonce : Bytes32
  realm : RealmId
  sequence : UInt8
  hints : List PostRef
  records : List (List UInt8)
  providerRemaining : Nat
deriving DecidableEq

/-! ### References in order -/

instance : Ord PostRef := ⟨compareLex (compareOn PostRef.post) (compareOn PostRef.revision)⟩

theorem compare_postRef (a b : PostRef) : compare a b = (compare a.post b.post).then (compare a.revision b.revision) := rfl

instance transCmp : Std.TransCmp (compare : PostRef → PostRef → Ordering) :=
  inferInstanceAs (Std.TransCmp (compareLex (compareOn PostRef.post) (compareOn PostRef.revision)))

instance lawfulEqCmp : Std.LawfulEqCmp (compare : PostRef → PostRef → Ordering) where
  eq_of_compare {a b} h := by
    rw [compare_postRef, Ordering.then_eq_eq] at h
    cases a
    cases b
    cases Std.LawfulEqCmp.eq_of_compare h.1
    cases Std.LawfulEqCmp.eq_of_compare h.2
    rfl

/-! ### Frames -/

def magic : List UInt8 := [86, 72, 82, 84, 82, 0, 0, 1]
def capabilityId : UInt8 := 1
def requestKind : UInt8 := 0
def responseKind : UInt8 := 1

def putCount (n : Nat) : List UInt8 := toBe (UInt16.ofNat n)

def putReference (reference : PostRef) : List UInt8 := reference.post.bytes.toList ++ reference.revision.bytes.toList

def putRecord (record : List UInt8) : List UInt8 := putCount record.length ++ record

def Response.encode (response : Response) : List UInt8 :=
  magic ++ (responseKind :: capabilityId :: (response.nonce.toList ++ (toBe response.realm.value ++ (response.sequence ::
    ((putCount response.hints.length ++ response.hints.flatMap putReference) ++
      ((putCount response.records.length ++ response.records.flatMap putRecord) ++ putCount response.providerRemaining))))))

abbrev GetM := Reader Error

def getMagic : GetM Unit := do
  let found ← Reader.take .encoding magic.length
  if found ≠ magic then throw .encoding else pure ()

def getTag (tag : UInt8) : GetM UInt8 := do
  let found ← Reader.int .encoding
  if found ≠ tag then throw .encoding else pure found

def getArray : GetM Bytes32 := Reader.array .encoding 32

def getCount (limit : Nat) : GetM Nat := do
  let n ← (Reader.int .encoding : GetM UInt16)
  if toNat n > limit then throw .bounds else pure (toNat n)

def getSequence : GetM UInt8 := do
  let sequence ← Reader.int .encoding
  if sequence.toNat ≥ maxAttempts then throw .bounds else pure sequence

def getReference : GetM PostRef := do
  let post ← getArray
  let revision ← getArray
  pure ⟨⟨post⟩, ⟨revision⟩⟩

def getReferences : GetM (List PostRef) := do
  let n ← getCount maxHints
  Reader.replicate getReference n

def getHints : GetM (List PostRef) := do
  let hints ← getReferences
  if ¬ ascendingBy compare hints = true then throw .encoding else pure hints

def getLength : GetM Nat := do
  let n ← getCount maxRecordBytes
  if n = 0 then throw .encoding else pure n

def getRecord : GetM (List UInt8) := do
  let n ← getLength
  Reader.take .encoding n

def getRecords : GetM (List (List UInt8)) := do
  let n ← getCount maxRecordsPerFrame
  Reader.replicate getRecord n

def getResponse : GetM Response := do
  getMagic
  let _ ← getTag responseKind
  let _ ← getTag capabilityId
  let nonce ← getArray
  let realm ← Reader.int .encoding
  let sequence ← getSequence
  let hints ← getHints
  let records ← getRecords
  let providerRemaining ← getCount maxRecords
  pure ⟨nonce, ⟨realm⟩, sequence, hints, records, providerRemaining⟩

def decodeResponse (raw : List UInt8) : Except Error Response :=
  Reader.decode (fun _ _ => .bounds) (fun _ => .encoding) maxFrame getResponse raw

/-! ### Round trip -/

structure Framed (response : Response) : Prop where
  sequence : response.sequence.toNat < maxAttempts
  hints : response.hints.length ≤ maxHints
  ascending : ascendingBy compare response.hints = true
  count : response.records.length ≤ maxRecordsPerFrame
  records : ∀ raw ∈ response.records, raw.length ≠ 0 ∧ raw.length ≤ maxRecordBytes
  remaining : response.providerRemaining ≤ maxRecords

theorem codec_tag {tag : UInt8} : Codec (getTag tag) (fun found => [found]) (· = tag) := by
  have h : Codec (Reader.int .encoding : GetM UInt8) (fun found => [found]) fun _ => True :=
    (Codec.int _).congr (fun _ => Iff.rfl) fun found _ => (toBe_uInt8 found).symm
  exact h.check.congr (fun found => by rw [true_and, Decidable.not_not]) fun _ _ => rfl

theorem codec_count {limit : Nat} (h : limit < 256 ^ 2) : Codec (getCount limit) putCount (· ≤ limit) := .limited h

theorem codec_sequence : Codec getSequence (fun sequence => [sequence]) (·.toNat < maxAttempts) := by
  have h : Codec (Reader.int .encoding : GetM UInt8) (fun found => [found]) fun _ => True :=
    (Codec.int _).congr (fun _ => Iff.rfl) fun found _ => (toBe_uInt8 found).symm
  exact h.check.congr (fun sequence => by rw [true_and, ge_iff_le, Nat.not_le]) fun _ _ => rfl

theorem codec_reference : Codec getReference putReference fun _ => True :=
  (Codec.array _ 32).map₂ (Codec.array _ 32) (fun reference => ⟨fun _ => ⟨reference.post.bytes, reference.revision.bytes, trivial, trivial, rfl⟩,
    fun _ => trivial⟩) fun _ _ => rfl

theorem codec_hints : Codec getHints (fun hints => putCount hints.length ++ hints.flatMap putReference)
    fun hints => hints.length ≤ maxHints ∧ ascendingBy compare hints = true := by
  have h : Codec getReferences (fun hints => putCount hints.length ++ hints.flatMap putReference) (·.length ≤ maxHints) :=
    ((codec_count (by decide)).counted fun _ => codec_reference).congr
      (fun hints => by simp [Codec.chained_of_forall]) fun _ _ => rfl
  exact h.check.congr (fun hints => by rw [Decidable.not_not]) fun _ _ => rfl

theorem codec_record : Codec getRecord putRecord fun raw => raw.length ≠ 0 ∧ raw.length ≤ maxRecordBytes := by
  have h : Codec getLength putCount fun n => n ≤ maxRecordBytes ∧ ¬ n = 0 := (codec_count (by decide)).check
  refine h.bind List.length (fun raw hraw => hraw.symm) fun n hn => (Codec.take _ n).congr (fun raw => ?_) fun _ _ => rfl
  constructor
  · exact And.right
  · rintro rfl
    exact ⟨hn.symm, rfl⟩

theorem codec_records : Codec getRecords (fun records => putCount records.length ++ records.flatMap putRecord)
    fun records => records.length ≤ maxRecordsPerFrame ∧ ∀ raw ∈ records, raw.length ≠ 0 ∧ raw.length ≤ maxRecordBytes :=
  ((codec_count (by decide)).counted fun _ => codec_record).congr (fun records => by rw [Codec.chained_of_forall]) fun _ _ => rfl

theorem codec_response : Codec getResponse Response.encode Framed := by
  have h : Codec getResponse (fun response => magic ++ ([responseKind] ++ ([capabilityId] ++ (response.nonce.toList ++
      (toBe response.realm.value ++ ([response.sequence] ++ ((putCount response.hints.length ++ response.hints.flatMap putReference) ++
        ((putCount response.records.length ++ response.records.flatMap putRecord) ++ putCount response.providerRemaining)))))))) Framed := by
    refine Codec.magic.field (fun _ => ()) fun _ =>
      codec_tag.bind (fun _ => responseKind) (fun _ _ => rfl) fun kind hkind =>
      codec_tag.bind (fun _ => capabilityId) (fun _ _ => rfl) fun capability hcapability =>
      (Codec.array _ 32).field Response.nonce fun nonce =>
      (Codec.int _).field (fun response : Response => response.realm.value) fun realm =>
      codec_sequence.bind Response.sequence (fun _ h => h.1.1.1.1.1.sequence) fun sequence hsequence =>
      codec_hints.bind Response.hints (fun _ h => ⟨h.1.1.1.1.1.1.hints, h.1.1.1.1.1.1.ascending⟩) fun hints hhints =>
      codec_records.bind Response.records (fun _ h => ⟨h.1.1.1.1.1.1.1.count, h.1.1.1.1.1.1.1.records⟩) fun records hrecords =>
      (codec_count (by decide)).last Response.providerRemaining (fun _ h => h.1.1.1.1.1.1.1.1.remaining) fun remaining hremaining =>
      .pure _ fun response => ?_
    constructor
    · rintro ⟨⟨⟨⟨⟨⟨⟨⟨⟨-, -⟩, -⟩, -⟩, rfl⟩, rfl⟩, rfl⟩, rfl⟩, rfl⟩, rfl⟩
      rfl
    · rintro rfl
      exact ⟨⟨⟨⟨⟨⟨⟨⟨⟨⟨hsequence, hhints.1, hhints.2, hrecords.1, hrecords.2, hremaining⟩, rfl⟩, hkind.symm⟩, hcapability.symm⟩, rfl⟩, rfl⟩, rfl⟩, rfl⟩, rfl⟩, rfl⟩
  exact h.congr (fun _ => Iff.rfl) fun _ _ => rfl

theorem decodeResponse_eq_ok {raw : List UInt8} {response : Response} :
    decodeResponse raw = .ok response ↔ raw = response.encode ∧ Framed response ∧ response.encode.length ≤ maxFrame :=
  codec_response.decode_eq_ok

theorem Framed.length_le {response : Response} (h : Framed response) : response.encode.length ≤ maxFrame := by
  have hhints : (response.hints.flatMap putReference).length ≤ response.hints.length * 64 :=
    Codec.length_flatMap_le fun reference _ => by simp [putReference]
  have hrecords : (response.records.flatMap putRecord).length ≤ response.records.length * (2 + maxRecordBytes) :=
    Codec.length_flatMap_le fun record hrecord => by
      rw [putRecord, putCount, List.length_append, length_toBe]
      exact Nat.add_le_add_left (h.records record hrecord).2 2
  have hcount : response.records.length * (2 + maxRecordBytes) ≤ maxRecordsPerFrame * (2 + maxRecordBytes) :=
    Nat.mul_le_mul_right _ h.count
  have hlength : response.encode.length = 65 + (response.hints.flatMap putReference).length + (response.records.flatMap putRecord).length := by
    have hint : ∀ n : Nat, (putCount n).length = 2 := fun n => length_toBe _
    have hrealm : (toBe response.realm.value).length = 16 := length_toBe _
    simp only [Response.encode, List.length_append, List.length_cons, Vector.length_toList, hint, hrealm, magic]
    simp
    omega
  have hmost := h.hints
  simp only [maxRecordsPerFrame, maxRecordBytes, maxHints, maxFrame, Social.maxRecordBytes] at *
  omega

end Valhalla.Retrieval
