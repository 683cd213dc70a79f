import Valhalla.RoomActivity.Chain

/-!
# Signed frames (`UnsignedEvent::decode`, `SignedEvent::decode` and `verify`)

A frame is read back exactly when it is the encoding of a verified event.
-/

namespace Valhalla.RoomActivity
open Fallible FixedWidth Check

def maxUnsignedBytes : Nat := maxEventBytes - 64

/-- Fixed bytes, or the failure `e`. -/
def expect (e : Error) (bytes : List UInt8) : Reader Error Unit := do
  let found ← Reader.take .encoding bytes.length
  if found ≠ bytes then throw e else pure ()

def Text.new (str : String) : Except Error Text :=
  match h : checkText str with
  | .ok () => .ok ⟨str, h⟩
  | .error e => .error e

def textBytes (text : Text) : List UInt8 := text.str.toUTF8.toList

def getTextLength : Reader Error Nat := do
  let length ← (Reader.int .encoding : Reader Error UInt16)
  if toNat length = 0 ∨ toNat length > maxTextBytes then throw .bounds else pure (toNat length)

def getText : Reader Error Text := do
  let length ← getTextLength
  let bytes ← Reader.take .encoding length
  match String.fromUTF8? ⟨bytes.toArray⟩ with
  | none => throw .encoding
  | some str => Reader.lift (Text.new str)

def getUnsigned : Reader Error EventClaims := do
  expect .encoding (magic.take 4)
  expect .protocol [1]
  let network ← Reader.array .encoding 32
  let realm ← (Reader.int .encoding : Reader Error (BitVec 128))
  let directory ← Reader.array .encoding 32
  let room ← Reader.array .encoding 32
  let policy ← Reader.array .encoding 32
  let author ← Reader.array .encoding 32
  let sequence ← (Reader.int .encoding : Reader Error UInt64)
  let previous ← Reader.array .encoding 32
  let createdAt ← (Reader.int .encoding : Reader Error UInt64)
  expect .protocol [0]
  let text ← getText
  pure ⟨⟨network, ⟨realm⟩, ⟨directory⟩, ⟨room⟩⟩, ⟨policy⟩, author, sequence, ⟨previous⟩, createdAt, .text text⟩

section
variable (crypto : Crypto)

/-- `UnsignedEvent::decode`. -/
def decodeUnsigned (raw : List UInt8) : Except Error EventClaims := do
  require .bounds (decide (raw.length ≤ maxUnsignedBytes))
  require .encoding (decide (fixedUnsignedBytes + 1 ≤ raw.length))
  let claims ← Reader.complete .encoding getUnsigned raw
  claims.check crypto
  pure claims

/-- `SignedEvent::decode`. -/
def decodeSigned (raw : List UInt8) : Except Error (EventClaims × Signature) := do
  require .bounds (decide (raw.length ≤ maxEventBytes))
  require .encoding (decide (fixedUnsignedBytes + 1 + 64 ≤ raw.length))
  let claims ← decodeUnsigned crypto (raw.take (raw.length - 64))
  let signature ← Reader.complete .encoding (Reader.array .encoding 64) (raw.drop (raw.length - 64))
  pure (claims, signature)

/-- `SignedEvent::verify`. -/
def SignedEvent.verify (signed : EventClaims × Signature) : Except Error (VerifiedEvent crypto) :=
  match h : RoomActivity.verify crypto signed.1 signed.2 with
  | .ok () => .ok ⟨signed.1, signed.2, h⟩
  | .error e => .error e

end

variable {crypto : Crypto} {raw : List UInt8} {event : VerifiedEvent crypto}

def VerifiedEvent.encode (event : VerifiedEvent crypto) : List UInt8 := unsignedBytes event.claims ++ event.signature.toList

/-! ### Text -/

theorem Text.new_eq_ok {str : String} {text : Text} : Text.new str = .ok text ↔ text.str = str := by
  unfold Text.new
  constructor
  · intro h
    split at h
    · cases h
      rfl
    · cases h
  · rintro rfl
    split
    · rfl
    · rename_i he
      rw [text.valid] at he
      cases he

theorem Text.size (text : Text) : text.str.utf8ByteSize ≠ 0 ∧ text.str.utf8ByteSize ≤ maxTextBytes := by
  have h := text.valid
  simp only [checkText, bind_eq_ok, require_eq_ok, Bool.and_eq_true, decide_eq_true_eq, bne_iff_ne, exists_const] at h
  exact h.1

theorem length_textBytes (text : Text) : (textBytes text).length = text.str.utf8ByteSize := by
  rw [textBytes, ByteArray.toList_eq_toList_data]
  rfl

theorem codec_textLength : Codec getTextLength (fun n => toBe (UInt16.ofNat n)) fun n => n ≠ 0 ∧ n ≤ maxTextBytes := by
  refine ⟨fun bytes n rest => ?_⟩
  simp only [getTextLength, exec_bind_eq_ok, (Codec.int Error.encoding).iff]
  constructor
  · rintro ⟨a, mid, ⟨rfl, -⟩, h⟩
    split at h
    · cases h
    · rename_i hn
      cases h
      rw [not_or, Nat.not_lt] at hn
      exact ⟨congrArg (fun b : UInt16 => toBe b ++ rest) (ofNat_toNat a).symm, hn⟩
  · rintro ⟨rfl, hn⟩
    have hlt : n < 256 ^ FixedWidth.bytes UInt16 := Nat.lt_of_le_of_lt hn.2 (by decide)
    refine ⟨UInt16.ofNat n, rest, ⟨rfl, trivial⟩, ?_⟩
    have hto : toNat (UInt16.ofNat n) = n := toNat_ofNat n hlt
    rw [hto, if_neg (by rw [not_or, Nat.not_lt]; exact hn)]
    rfl

theorem codec_text : Codec getText (fun text => toBe (UInt16.ofNat text.str.utf8ByteSize) ++ textBytes text) fun _ => True := by
  refine codec_textLength.bind (fun text : Text => text.str.utf8ByteSize) (fun text _ => text.size) fun n hn =>
    (Codec.take _ n).last textBytes (fun text h => by rw [length_textBytes, h.2]) fun bytes hbytes => ?_
  have hutf8 : ∀ text : Text, textBytes text = bytes ↔ String.fromUTF8? ⟨bytes.toArray⟩ = some text.str := by
    intro text
    rw [String.fromUTF8?_eq_some, textBytes, ByteArray.toList_eq_toList_data]
    constructor
    · rintro rfl
      rfl
    · intro h
      rw [h]
  cases hs : String.fromUTF8? ⟨bytes.toArray⟩ with
  | none => exact .none (fun _ => ⟨_, rfl⟩) fun text h => by rw [(hutf8 text).1 h.2] at hs; cases hs
  | some str =>
    simp only
    refine ⟨fun raw text rest => ?_⟩
    rw [Reader.lift, exec_of, Prod.mk.injEq, Text.new_eq_ok, hutf8, hs, Option.some.injEq]
    constructor
    · rintro ⟨rfl, rfl⟩
      exact ⟨rfl, ⟨trivial, by rw [← length_textBytes, (hutf8 text).2 hs, hbytes]⟩, rfl⟩
    · rintro ⟨rfl, -, rfl⟩
      exact ⟨rfl, rfl⟩

/-! ### Frames -/

def EventClaims.text (claims : EventClaims) : Text :=
  match claims.content with
  | .text text => text

theorem codec_unsigned : Codec getUnsigned unsignedBytes fun _ => True := by
  have harray {n : Nat} : Codec (Reader.array Error.encoding n) Vector.toList fun _ => True := .array _ n
  have hu64 : Codec (Reader.int .encoding : Reader Error UInt64) toBe fun _ => True := .int _
  have h : Codec getUnsigned (fun claims => magic.take 4 ++ ([1] ++ (claims.scope.network.toList ++ (toBe claims.scope.realm.value ++
      (claims.scope.directory.bytes.toList ++ (claims.scope.room.bytes.toList ++ (claims.policy.bytes.toList ++ (claims.author.toList ++
      (toBe claims.sequence ++ (claims.previous.bytes.toList ++ (toBe claims.createdAt ++ ([0] ++
      (toBe (UInt16.ofNat claims.text.str.utf8ByteSize) ++ textBytes claims.text)))))))))))))
      fun _ => True :=
    Codec.magic.field (fun _ => ()) fun _ =>
    Codec.magic.field (fun _ => ()) fun _ =>
    harray.field (fun claims : EventClaims => claims.scope.network) fun _ =>
    (Codec.int _).field (fun claims : EventClaims => claims.scope.realm.value) fun _ =>
    harray.field (fun claims : EventClaims => claims.scope.directory.bytes) fun _ =>
    harray.field (fun claims : EventClaims => claims.scope.room.bytes) fun _ =>
    harray.field (fun claims : EventClaims => claims.policy.bytes) fun _ =>
    harray.field EventClaims.author fun _ =>
    hu64.field EventClaims.sequence fun _ =>
    harray.field (fun claims : EventClaims => claims.previous.bytes) fun _ =>
    hu64.field EventClaims.createdAt fun _ =>
    Codec.magic.field (fun _ => ()) fun _ =>
    codec_text.lastField EventClaims.text fun _ => .pure _ fun claims => by
      obtain ⟨⟨_, ⟨_⟩, ⟨_⟩, ⟨_⟩⟩, ⟨_⟩, _, _, ⟨_⟩, _, ⟨_⟩⟩ := claims
      constructor
      · rintro ⟨⟨⟨⟨⟨⟨⟨⟨⟨⟨⟨⟨⟨-, -⟩, -⟩, rfl⟩, rfl⟩, rfl⟩, rfl⟩, rfl⟩, rfl⟩, rfl⟩, rfl⟩, rfl⟩, -⟩, rfl⟩
        rfl
      · rintro ⟨⟩
        exact ⟨⟨⟨⟨⟨⟨⟨⟨⟨⟨⟨⟨⟨trivial, rfl⟩, rfl⟩, rfl⟩, rfl⟩, rfl⟩, rfl⟩, rfl⟩, rfl⟩, rfl⟩, rfl⟩, rfl⟩, rfl⟩, rfl⟩
  exact h.congr (fun _ => Iff.rfl) fun claims _ => rfl

theorem length_unsignedBytes (claims : EventClaims) : (unsignedBytes claims).length = fixedUnsignedBytes + claims.text.str.utf8ByteSize := by
  obtain ⟨⟨_, ⟨_⟩, ⟨_⟩, ⟨_⟩⟩, ⟨_⟩, _, _, ⟨_⟩, _, ⟨text⟩⟩ := claims
  have htext : text.str.toUTF8.toList.length = text.str.utf8ByteSize := length_textBytes text
  simp only [unsignedBytes, EventClaims.text, List.length_append, List.length_cons, Vector.length_toList, length_toBe, bytes_uInt64,
    bytes_uInt16, bytes_bitVec128, htext, fixedUnsignedBytes, magic, List.length_nil]
  omega

theorem length_unsignedBytes_bounds (claims : EventClaims) :
    fixedUnsignedBytes + 1 ≤ (unsignedBytes claims).length ∧ (unsignedBytes claims).length ≤ maxUnsignedBytes := by
  have hsize := claims.text.size
  rw [length_unsignedBytes, maxUnsignedBytes, maxEventBytes]
  omega

theorem decodeUnsigned_eq_ok {claims : EventClaims} :
    decodeUnsigned crypto raw = .ok claims ↔ raw = unsignedBytes claims ∧ claims.check crypto = .ok () := by
  simp only [decodeUnsigned, bind_eq_ok, require_eq_ok, decide_eq_true_eq, codec_unsigned.complete_eq_ok, and_true]
  constructor
  · rintro ⟨_, -, _, -, claims', rfl, _, hcheck, he⟩
    cases he
    exact ⟨rfl, hcheck⟩
  · rintro ⟨rfl, hcheck⟩
    have hbounds := length_unsignedBytes_bounds claims
    exact ⟨(), hbounds.2, (), hbounds.1, claims, rfl, (), hcheck, rfl⟩

theorem length_frame (claims : EventClaims) (signature : Signature) :
    (unsignedBytes claims ++ signature.toList).length = (unsignedBytes claims).length + 64 := by
  rw [List.length_append, Vector.length_toList]

theorem decodeSigned_eq_ok {signed : EventClaims × Signature} :
    decodeSigned crypto raw = .ok signed ↔ raw = unsignedBytes signed.1 ++ signed.2.toList ∧ signed.1.check crypto = .ok () := by
  have hsignature : Codec (Reader.array Error.encoding 64) Vector.toList fun _ => True := .array _ 64
  simp only [decodeSigned, bind_eq_ok, require_eq_ok, decide_eq_true_eq, decodeUnsigned_eq_ok, hsignature.complete_eq_ok, and_true]
  constructor
  · rintro ⟨_, -, _, -, claims, ⟨hclaims, hcheck⟩, signature, hsig, he⟩
    cases he
    refine ⟨?_, hcheck⟩
    rw [← hclaims, ← hsig, List.take_append_drop]
  · rintro ⟨rfl, hcheck⟩
    have hbounds := length_unsignedBytes_bounds signed.1
    have hlength := length_frame signed.1 signed.2
    have hsplit : (unsignedBytes signed.1 ++ signed.2.toList).length - 64 = (unsignedBytes signed.1).length := by omega
    have hmax : maxUnsignedBytes + 64 = maxEventBytes := rfl
    refine ⟨(), by omega, (), by omega, signed.1, ⟨?_, hcheck⟩, signed.2, ?_, rfl⟩
    · rw [hsplit, List.take_left]
    · rw [hsplit, List.drop_left]

theorem SignedEvent.verify_eq_ok {signed : EventClaims × Signature} :
    SignedEvent.verify crypto signed = .ok event ↔ signed = (event.claims, event.signature) := by
  unfold SignedEvent.verify
  constructor
  · intro h
    split at h
    · cases h
      rfl
    · cases h
  · rintro rfl
    split
    · rfl
    · rename_i he
      rw [event.verified] at he
      cases he

theorem decode_verify_eq_ok : (decodeSigned crypto raw >>= SignedEvent.verify crypto) = .ok event ↔ raw = event.encode := by
  rw [bind_eq_ok]
  constructor
  · rintro ⟨signed, hsigned, hverify⟩
    rw [SignedEvent.verify_eq_ok] at hverify
    rw [(decodeSigned_eq_ok.1 hsigned).1, hverify]
    rfl
  · rintro rfl
    have hcheck : event.claims.check crypto = .ok () := by
      have hverified := event.verified
      simp only [verify, bind_eq_ok] at hverified
      obtain ⟨_, hcheck, -⟩ := hverified
      exact hcheck
    exact ⟨(event.claims, event.signature), decodeSigned_eq_ok.2 ⟨rfl, hcheck⟩, SignedEvent.verify_eq_ok.2 rfl⟩

theorem VerifiedEvent.length_encode_le (event : VerifiedEvent crypto) : event.encode.length ≤ maxEventBytes := by
  have hbounds := length_unsignedBytes_bounds event.claims
  have hmax : maxUnsignedBytes + 64 = maxEventBytes := rfl
  rw [encode, length_frame]
  omega

end Valhalla.RoomActivity
