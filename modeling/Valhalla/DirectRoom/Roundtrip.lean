import Valhalla.DirectRoom.Records

/-!
# Direct-room records are canonical

The codec of every record kind, and what follows for signed records: only encodings are accepted, every
checked value survives its encoding within the size limit, and the magic separates the kinds.
-/

namespace Valhalla.DirectRoom
open Fallible FixedWidth Check

theorem codec_array {n : Nat} : Codec (getArray n) Vector.toList fun _ => True := .array _ n

theorem codec_u64 : Codec getU64 toBe fun _ => True := .int _

theorem codec_magic {magic : List UInt8} : Codec (getMagic magic) (fun _ => magic) fun _ => True := .magic

theorem codec_count {max : Nat} (h : max < 65536) : Codec (getCount max) putCount (· ≤ max) := .limited h

theorem codec_writers : Codec getWriters putWriters fun writers => writers.length ≤ maxWriters :=
  (Codec.counted (codec_count (by decide)) fun _ => codec_array).congr (fun l => by rw [Codec.chained_of_forall]; simp)
    fun _ _ => rfl

theorem codec_genesis : Codec getGenesis putGenesis fun claims => claims.writers.length ≤ maxWriters :=
  codec_array.field GenesisClaims.owner fun owner =>
    codec_array.field GenesisClaims.nonce fun nonce =>
    codec_writers.last GenesisClaims.writers (fun _ h => h.1.1) fun writers hwriters => .pure _ fun claims => by
      obtain ⟨owner', nonce', writers'⟩ := claims
      constructor
      · rintro ⟨⟨⟨-, rfl⟩, rfl⟩, rfl⟩
        rfl
      · rintro ⟨⟩
        exact ⟨⟨⟨hwriters, rfl⟩, rfl⟩, rfl⟩

theorem codec_sealHead : Codec getSealHead putSealHead fun _ => True :=
  codec_array.field SealHead.author fun _ => codec_u64.field SealHead.sequence
    fun _ => codec_array.lastField (fun head : SealHead => head.event.bytes) fun _ => .pure _
    fun head => by
      obtain ⟨_, _, ⟨_⟩⟩ := head
      simp [and_assoc]

theorem codec_sealedHeads : Codec getSealedHeads putSealedHeads fun heads => heads.length ≤ maxWriters :=
  (Codec.counted (codec_count (by decide)) fun _ => codec_sealHead).congr
    (fun l => by rw [Codec.chained_of_forall]; simp) fun _ _ => rfl

/-- A policy within the list bounds. -/
structure PolicyClaims.Encodable (claims : PolicyClaims) : Prop where
  writers : claims.writers.length ≤ maxWriters
  sealedHeads : claims.sealedHeads.length ≤ maxWriters

theorem codec_policy : Codec getPolicy putPolicy PolicyClaims.Encodable := by
  refine codec_array.field (fun claims : PolicyClaims => claims.room.bytes) fun room =>
    codec_array.field PolicyClaims.owner fun owner =>
    codec_u64.field PolicyClaims.revision fun revision =>
    codec_array.field (fun claims : PolicyClaims => claims.previous.bytes) fun previous =>
    codec_writers.bind PolicyClaims.writers (fun _ h => h.1.1.1.1.writers) fun writers hwriters =>
    codec_sealedHeads.last PolicyClaims.sealedHeads (fun _ h => h.1.1.1.1.1.sealedHeads) fun heads hheads =>
    .pure _ fun claims => ?_
  obtain ⟨⟨room'⟩, owner', revision', ⟨previous'⟩, writers', heads'⟩ := claims
  constructor
  · rintro ⟨⟨⟨⟨⟨⟨-, rfl⟩, rfl⟩, rfl⟩, rfl⟩, rfl⟩, rfl⟩
    rfl
  · rintro ⟨⟩
    exact ⟨⟨⟨⟨⟨⟨⟨hwriters, hheads⟩, rfl⟩, rfl⟩, rfl⟩, rfl⟩, rfl⟩, rfl⟩

/-! ### Text -/

theorem Text.new_eq_ok {s : String} {text : Text} : Text.new s = .ok text ↔ text.str = s := by
  unfold Text.new
  constructor
  · intro h
    split at h
    · cases h
      rfl
    · cases h
  · rintro rfl
    split
    · rfl
    · rename_i he
      rw [text.valid] at he
      cases he

theorem Text.size_le (text : Text) : text.str.utf8ByteSize ≤ maxTextBytes := by
  have h := text.valid
  simp only [checkText, bind_eq_ok, require_eq_ok, Bool.and_eq_true, decide_eq_true_eq, exists_const] at h
  exact h.1.2

theorem length_textBytes (text : Text) : (textBytes text).length = text.str.utf8ByteSize := rfl

theorem codec_textLength : Codec getTextLength (fun n => toBe (UInt32.ofNat n)) (· ≤ maxTextBytes) := .limited (by decide)

theorem codec_text : Codec getText putText fun _ => True := by
  refine codec_textLength.bind (fun text : Text => text.str.utf8ByteSize) (fun text _ => text.size_le) fun n hn =>
    (Codec.take _ n).last textBytes (fun text h => by rw [length_textBytes, h.2]) fun bytes hbytes => ?_
  have hutf8 : ∀ text : Text, textBytes text = bytes ↔ String.fromUTF8? ⟨bytes.toArray⟩ = some text.str := by
    intro text
    rw [String.fromUTF8?_eq_some]
    constructor
    · rintro rfl
      rfl
    · intro h
      rw [textBytes, h]
  cases hs : String.fromUTF8? ⟨bytes.toArray⟩ with
  | none => exact .none (fun _ => ⟨_, rfl⟩) fun text h => by rw [(hutf8 text).1 h.2] at hs; cases hs
  | some s =>
    simp only
    cases ht : Text.new s with
    | error e =>
      refine .none (fun _ => ⟨_, rfl⟩) fun text h => ?_
      rw [(hutf8 text).1 h.2] at hs
      cases hs
      rw [Text.new_eq_ok.2 rfl] at ht
      cases ht
    | ok text =>
      obtain rfl := Text.new_eq_ok.1 ht
      refine .pure _ fun text' => ⟨fun h => ?_, ?_⟩
      · have hstr := Option.some.inj (((hutf8 text').1 h.2).symm.trans hs)
        cases text'
        cases text
        cases hstr
        rfl
      · rintro rfl
        have hbytes' := (hutf8 text').2 hs
        exact ⟨⟨trivial, by rw [← length_textBytes, hbytes', hbytes]⟩, hbytes'⟩

theorem codec_event : Codec getEvent putEvent fun _ => True :=
  codec_array.field (fun claims : EventClaims => claims.room.bytes) fun _ =>
    codec_array.field (fun claims : EventClaims => claims.policy.bytes) fun _ =>
    codec_array.field EventClaims.author fun _ =>
    codec_u64.field EventClaims.sequence fun _ =>
    codec_array.field (fun claims : EventClaims => claims.previous.bytes) fun _ =>
    codec_u64.field EventClaims.createdAt fun _ =>
    codec_text.lastField EventClaims.text fun _ => .pure _ fun claims => by
      obtain ⟨⟨_⟩, ⟨_⟩, _, _, ⟨_⟩, _, _⟩ := claims
      simp [and_assoc]

/-! ### Whole records -/

structure RecordKind.Fits {C I : Type} (kind : RecordKind C I) (ok : C → Prop) : Prop where
  codec : Codec kind.get kind.put ok
  checked : ∀ crypto claims, kind.check crypto claims = .ok () → ok claims
  bounded : ∀ claims, ok claims → (kind.encode claims).length + 64 ≤ kind.max

section
variable {C I : Type} {crypto : Crypto} {kind : RecordKind C I} {ok : C → Prop}

theorem Unsigned.new_eq_ok {claims : C} {record : Unsigned crypto kind} :
    Unsigned.new claims = .ok record ↔ record.claims = claims := by
  obtain ⟨claims', id, valid, commits⟩ := record
  unfold Unsigned.new
  constructor
  · intro h
    split at h <;> cases h
    rfl
  · intro h
    cases h
    subst commits
    split
    · rfl
    · rename_i he
      rw [valid] at he
      cases he

namespace RecordKind.Fits
variable (h : kind.Fits ok)
include h

theorem codec_claims : Codec (do getMagic kind.magic; kind.get) kind.encode ok := by
  refine codec_magic.field (fun _ => ()) fun _ => h.codec.congr (fun claims => ?_) fun _ _ => rfl
  simp

theorem unsigned_decode_eq_ok {raw : List UInt8} {record : Unsigned crypto kind} :
    Unsigned.decode raw = .ok record ↔ raw = record.encode := by
  have hok := h.checked crypto record.claims record.valid
  have hlen := h.bounded record.claims hok
  simp only [Unsigned.decode, bind_eq_ok, h.codec_claims.decode_eq_ok, Unsigned.new_eq_ok]
  constructor
  · rintro ⟨claims, ⟨rfl, -, -⟩, rfl⟩
    rfl
  · rintro rfl
    exact ⟨record.claims, ⟨rfl, hok, by omega⟩, rfl⟩

theorem signed_decode_eq_ok {raw : List UInt8} {record : Signed crypto kind} :
    Signed.decode raw = .ok record ↔ raw = record.encode := by
  obtain ⟨unsigned, signature⟩ := record
  have hlen := h.bounded unsigned.claims (h.checked crypto unsigned.claims unsigned.valid)
  have hsig : signature.toList.length = 64 := signature.length_toList
  constructor
  · intro hd
    simp only [Signed.decode, bind_eq_ok] at hd
    obtain ⟨-, -, hd⟩ := hd
    split at hd
    · obtain ⟨unsigned', hu, hd⟩ := bind_eq_ok.1 hd
      cases hd
      rw [h.unsigned_decode_eq_ok] at hu
      show raw = unsigned.encode ++ raw.drop _
      rw [← hu, List.take_append_drop]
    · cases hd
  · intro (hraw : raw = unsigned.encode ++ signature.toList)
    have hsize : raw.length = unsigned.encode.length + 64 := by rw [hraw, List.length_append, hsig]
    have htake : raw.take (raw.length - 64) = unsigned.encode := by
      rw [hsize, Nat.add_sub_cancel, hraw, List.take_left]
    have hdrop : raw.drop (raw.length - 64) = signature.toList := by
      rw [hsize, Nat.add_sub_cancel, hraw, List.drop_left]
    simp only [Signed.decode, bind_eq_ok, require_eq_ok, decide_eq_true_eq]
    refine ⟨(), hsize ▸ hlen, ?_⟩
    rw [dif_pos (by omega), bind_eq_ok]
    refine ⟨unsigned, by rw [htake, h.unsigned_decode_eq_ok], ?_⟩
    simp only [hdrop]
    rfl

theorem canonical : Canonical (@Signed.decode C I crypto kind) Signed.encode :=
  fun _ _ hd => (h.signed_decode_eq_ok.1 hd).symm

theorem roundTrips (record : Signed crypto kind) : RoundTrips Signed.decode Signed.encode kind.max record := by
  refine ⟨h.signed_decode_eq_ok.2 rfl, ?_⟩
  have hlen := h.bounded _ (h.checked crypto _ record.unsigned.valid)
  rw [Signed.encode, List.length_append, record.signature.length_toList]
  exact hlen

theorem magic_prefix {raw : List UInt8} {record : Signed crypto kind} (hd : Signed.decode raw = .ok record) :
    kind.magic <+: raw := by
  rw [h.signed_decode_eq_ok.1 hd]
  exact ⟨_, by rw [Signed.encode, Unsigned.encode, RecordKind.encode, List.append_assoc]⟩

end RecordKind.Fits

end

/-! ### The three kinds -/

theorem length_flatMap_const {α : Type} {put : α → List UInt8} {size : Nat} {l : List α} (h : ∀ a, (put a).length = size) :
    (l.flatMap put).length = size * l.length := by
  induction l with
  | nil => rfl
  | cons a l ih => rw [List.flatMap_cons, List.length_append, ih, h, List.length_cons, Nat.mul_succ, Nat.add_comm]

theorem length_putCount (n : Nat) : (putCount n).length = 2 := length_toBe _

theorem length_putWriters (writers : List Bytes32) : (putWriters writers).length = 2 + 32 * writers.length := by
  rw [putWriters, List.length_append, length_putCount, length_flatMap_const fun key => key.length_toList]

theorem length_putSealHead (head : SealHead) : (putSealHead head).length = 72 := by
  have hu : (toBe head.sequence).length = 8 := length_toBe _
  simp [putSealHead, hu]

theorem length_putSealedHeads (heads : List SealHead) : (putSealedHeads heads).length = 2 + 72 * heads.length := by
  rw [putSealedHeads, List.length_append, length_putCount, length_flatMap_const length_putSealHead]

theorem writersCheck_length {crypto : Crypto} {writers : List Bytes32} {owner : Bytes32} {u : Unit}
    (h : writersCheck crypto writers owner = .ok u) : 1 ≤ writers.length ∧ writers.length ≤ maxWriters := by
  simp only [writersCheck, bind_eq_ok, require_eq_ok, Bool.and_eq_true, decide_eq_true_eq] at h
  obtain ⟨-, -, -, ⟨hne, hle⟩, -⟩ := h
  refine ⟨?_, hle⟩
  cases writers with
  | nil => cases hne
  | cons => simp

theorem genesis_fits : genesisKind.Fits fun claims => claims.writers.length ≤ maxWriters where
  codec := codec_genesis
  checked crypto claims h := by
    simp only [genesisKind, GenesisClaims.check, bind_eq_ok] at h
    obtain ⟨-, -, h⟩ := h
    exact (writersCheck_length h).2
  bounded claims h := by
    show (genesisMagic ++ putGenesis claims).length + 64 ≤ maxGenesisBytes
    simp only [putGenesis, List.length_append, length_putWriters, Vector.length_toList]
    simp only [maxWriters] at h
    simp only [genesisMagic, maxGenesisBytes, maxWriters, List.length_cons, List.length_nil]
    omega

theorem policy_fits : policyKind.Fits PolicyClaims.Encodable where
  codec := codec_policy
  checked crypto claims h := by
    simp only [policyKind, PolicyClaims.check, bind_eq_ok, require_eq_ok, decide_eq_true_eq] at h
    obtain ⟨-, -, -, -, _, hwriters, -, hheads, -⟩ := h
    exact ⟨(writersCheck_length hwriters).2, hheads⟩
  bounded claims h := by
    obtain ⟨hwriters, hheads⟩ := h
    have hu : (toBe claims.revision).length = 8 := length_toBe _
    show (policyMagic ++ putPolicy claims).length + 64 ≤ maxPolicyBytes
    simp only [putPolicy, List.length_append, length_putWriters, length_putSealedHeads, Vector.length_toList, hu]
    simp only [maxWriters] at hwriters hheads
    simp only [policyMagic, maxPolicyBytes, maxWriters, List.length_cons, List.length_nil]
    omega

theorem event_fits : eventKind.Fits fun _ => True where
  codec := codec_event
  checked _ _ _ := trivial
  bounded claims _ := by
    have hs : (toBe claims.sequence).length = 8 := length_toBe _
    have hc : (toBe claims.createdAt).length = 8 := length_toBe _
    have hl : (toBe (UInt32.ofNat claims.text.str.utf8ByteSize)).length = 4 := length_toBe _
    have ht := claims.text.size_le
    show (eventMagic ++ putEvent claims).length + 64 ≤ maxEventBytes
    simp only [putEvent, putText, List.length_append, length_textBytes, Vector.length_toList, hs, hc, hl]
    simp only [maxTextBytes] at ht
    simp only [eventMagic, maxEventBytes, maxTextBytes, List.length_cons, List.length_nil]
    omega

/-- Some record of the kind has these bytes. -/
def Accepts {C I : Type} (crypto : Crypto) (kind : RecordKind C I) (raw : List UInt8) : Prop :=
  ∃ record : Signed crypto kind, Signed.decode raw = .ok record

theorem not_accepts_both {C C' I I' : Type} {crypto : Crypto} {kind : RecordKind C I} {kind' : RecordKind C' I'}
    {ok : C → Prop} {ok' : C' → Prop} (h : kind.Fits ok) (h' : kind'.Fits ok')
    (hlen : kind.magic.length = kind'.magic.length) (hne : kind.magic ≠ kind'.magic) (raw : List UInt8) :
    ¬ (Accepts crypto kind raw ∧ Accepts crypto kind' raw) := by
  rintro ⟨⟨_, hd⟩, ⟨_, hd'⟩⟩
  have hpre := List.prefix_iff_eq_take.1 (h.magic_prefix hd)
  have hpre' := List.prefix_iff_eq_take.1 (h'.magic_prefix hd')
  exact hne (by rw [hpre, hpre', hlen])

structure RecordKind.HasCodec {C I : Type} (crypto : Crypto) (kind : RecordKind C I) : Prop where
  canonical : Canonical (@Signed.decode C I crypto kind) Signed.encode
  roundTrips : ∀ (claims : C) (record : Unsigned crypto kind) (signature : Signature),
    Unsigned.new claims = .ok record → RoundTrips Signed.decode Signed.encode kind.max ⟨record, signature⟩

theorem RecordKind.Fits.hasCodec {C I : Type} {kind : RecordKind C I} {ok : C → Prop} (h : kind.Fits ok) (crypto : Crypto) :
    kind.HasCodec crypto :=
  ⟨h.canonical, fun _ record signature _ => h.roundTrips ⟨record, signature⟩⟩

/-- Records have one encoding, within its limit, and no bytes are a record of two kinds. -/
theorem record_codec (crypto : Crypto) :
    genesisKind.HasCodec crypto ∧ policyKind.HasCodec crypto ∧ eventKind.HasCodec crypto ∧ ∀ raw,
      ¬ (Accepts crypto genesisKind raw ∧ Accepts crypto policyKind raw) ∧
      ¬ (Accepts crypto genesisKind raw ∧ Accepts crypto eventKind raw) ∧
      ¬ (Accepts crypto policyKind raw ∧ Accepts crypto eventKind raw) := by
  refine ⟨genesis_fits.hasCodec crypto, policy_fits.hasCodec crypto, event_fits.hasCodec crypto, fun raw => ?_⟩
  refine ⟨not_accepts_both genesis_fits policy_fits rfl ?_ raw, not_accepts_both genesis_fits event_fits rfl ?_ raw,
    not_accepts_both policy_fits event_fits rfl ?_ raw⟩
  · decide
  · decide
  · decide

end Valhalla.DirectRoom
