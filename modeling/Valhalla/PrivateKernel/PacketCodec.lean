import Valhalla.PrivateKernel.Packets

/-!
# Retained records are canonical

Both round trips of the outbox, inbox and control records and of the control envelope, each in one equivalence:
a byte string is accepted exactly when it is what the encoder returns.
-/

namespace Valhalla.PrivateKernel
open Fallible FixedWidth Check

theorem nonempty_eq_ok {raw out : List UInt8} : nonempty raw = .ok out ↔ out = raw ∧ raw ≠ [] := by
  unfold nonempty
  cases raw with
  | nil => simp
  | cons b raw => simp [eq_comm]

theorem OutboxKind.ofByte_eq_ok {byte : UInt8} {kind : OutboxKind} : OutboxKind.ofByte byte = .ok kind ↔ kind.byte = byte := by
  constructor
  · intro h
    unfold OutboxKind.ofByte at h
    split at h <;> cases h <;> rfl
  · rintro rfl
    cases kind <;> rfl

theorem codec_readNonempty {limit : Nat} (h : limit < 2 ^ 32) :
    Codec (readNonempty limit) putBlob fun raw => raw.length ≤ limit ∧ raw ≠ [] :=
  (codec_readBlob h).lift (fun raw => by
    simp only [nonempty_eq_ok]
    exact ⟨fun ⟨hl, hne⟩ => ⟨raw, hl, rfl, hne⟩, fun ⟨_, hl, he, hne⟩ => he ▸ ⟨hl, hne⟩⟩) fun a raw hn => by
    rw [(nonempty_eq_ok.1 hn).1]

theorem writes_nonempty {limit : Nat} (h : limit < 2 ^ 32) (raw : List UInt8) :
    Writes (do let out ← Writing.lift (nonempty raw); writeBlob limit out) (putBlob raw) (raw.length ≤ limit ∧ raw ≠ []) := by
  by_cases hne : raw = []
  · subst hne
    refine ⟨fun w w' _ => ⟨fun he => (nomatch he), fun ⟨_, _, _, hn⟩ => absurd rfl hn⟩⟩
  · exact (Writes.lift (nonempty_eq_ok.2 ⟨rfl, hne⟩) (writes_blob h raw)).congr (by simp [hne]) fun _ => rfl

/-! ### Outbox and inbox records -/

theorem maxPacket_add_sent : 8 + 61 + maxPacket ≤ maxStoredRecordBytes - 40 := by decide

theorem received_le : 7 + 48 + maxWireBytes + maxBodyBytes ≤ maxStoredRecordBytes - 40 := by decide

namespace Sent

theorem codec_operation : Codec read.readOperation (fun id => id.bytes.toList) fun _ => True :=
  codec_readArray.lift (fun id => by simp [OperationId.fromBytes_eq_ok]) fun _ _ h => by
    rw [OperationId.fromBytes_eq_ok.1 h]

theorem codec_kind : Codec read.readKind (fun kind => [kind.byte]) fun _ => True :=
  codec_readByte.lift (fun kind => by simp [OutboxKind.ofByte_eq_ok]) fun _ _ h => by
    rw [OutboxKind.ofByte_eq_ok.1 h]

/-- An outbox record within its framing. -/
structure Encodable (sent : Sent) : Prop where
  counted : sent.sequence ≠ 0
  nonempty : sent.bytes ≠ []
  fits : sent.bytes.length ≤ maxPacket

theorem codec_sent : Codec read put Encodable :=
  codec_readMagic.field (fun _ => ()) fun _ =>
    codec_readU64.field Sent.sequence fun sequence =>
    Codec.guard.bind (fun _ => ()) (fun sent h => by simpa [← h.2] using h.1.1.counted) fun _ hs =>
    codec_operation.field Sent.operation fun _ =>
    codec_readArray.field Sent.request fun _ =>
    codec_kind.field Sent.kind fun _ =>
    (codec_readNonempty (by decide)).last Sent.bytes (fun sent h => by
      have he := h.1.1.1.1.1.1
      exact ⟨he.fits, he.nonempty⟩) fun bytes hb => .pure _ fun sent => by
      obtain ⟨_, _, _, _, _⟩ := sent
      simp only [and_true]
      constructor
      · rintro ⟨⟨⟨⟨⟨-, rfl⟩, rfl⟩, rfl⟩, rfl⟩, rfl⟩
        rfl
      · rintro ⟨⟩
        exact ⟨⟨⟨⟨⟨⟨by simpa using hs, hb.2, hb.1⟩, rfl⟩, rfl⟩, rfl⟩, rfl⟩, rfl⟩

theorem length_put (sent : Sent) : sent.put.length = 8 + 61 + sent.bytes.length := by
  have hm : sentMagic.length = 8 := by decide
  simp only [put, List.length_append, length_putBlob, Vector.length_toList, length_toBe, bytes_uInt64, List.length_cons,
    List.length_nil, hm]
  omega

theorem Encodable.length_le {sent : Sent} (h : sent.Encodable) : sent.put.length ≤ maxStoredRecordBytes - 40 := by
  rw [length_put]
  exact Nat.le_trans (Nat.add_le_add_left h.fits _) maxPacket_add_sent

theorem encode_eq_ok {sent : Sent} {raw : List UInt8} : sent.encode = .ok raw ↔ raw = sent.put ∧ sent.Encodable := by
  have hw : Writes _ sent.put (sent.bytes.length ≤ maxPacket ∧ sent.bytes ≠ []) :=
    ((writes_bytes sentMagic).bind ((writes_u64 sent.sequence).bind ((writes_bytes sent.operation.bytes.toList).bind
      ((writes_bytes sent.request.toList).bind ((writes_byte sent.kind.byte).bind
      (@writes_nonempty maxPacket (by decide) sent.bytes)))))).congr (by simp) fun _ => rfl
  simp only [encode, bind_eq_ok, hw.finish_eq_ok, require_eq_ok, bne_iff_ne]
  constructor
  · rintro ⟨_, hs, rfl, -, hl, hne⟩
    exact ⟨rfl, hs, hne, hl⟩
  · rintro ⟨rfl, hs, hne, hl⟩
    exact ⟨(), hs, rfl, Encodable.length_le ⟨hs, hne, hl⟩, hl, hne⟩

theorem decode_eq_ok {raw : List UInt8} {sent : Sent} : decode raw = .ok sent ↔ sent.encode = .ok raw := by
  simp only [decode, decodeWith_eq_ok codec_sent, encode_eq_ok]
  constructor
  · rintro ⟨rfl, h, -⟩
    exact ⟨rfl, h⟩
  · rintro ⟨rfl, h⟩
    exact ⟨rfl, h, h.length_le⟩

end Sent

section
variable {crypto : Hashing}

namespace Received

/-- An inbox record within its framing. -/
structure Encodable (received : Received crypto) : Prop where
  counted : received.sequence ≠ 0
  wire : received.wire.length ≤ maxWireBytes ∧ received.wire ≠ []
  body : received.body.length ≤ maxBodyBytes ∧ received.body ≠ []

theorem codec_received : Codec (@read crypto) put Encodable :=
  codec_readMagic.field (fun _ => ()) fun _ =>
    codec_readU64.field Received.sequence fun sequence =>
    Codec.guard.bind (fun _ => ()) (fun r h => by simpa [← h.2] using h.1.1.counted) fun _ hs =>
    codec_readKey.field Received.sender fun _ =>
    (codec_readNonempty (by decide)).bind Received.wire (fun r h => h.1.1.1.1.wire) fun _ hw =>
    (codec_readNonempty (by decide)).last Received.body (fun r h => h.1.1.1.1.1.body) fun bytes hb => .pure _ fun r => by
      obtain ⟨_, _, _, _⟩ := r
      simp only [and_true]
      constructor
      · rintro ⟨⟨⟨⟨-, rfl⟩, rfl⟩, rfl⟩, rfl⟩
        rfl
      · rintro ⟨⟩
        exact ⟨⟨⟨⟨⟨by simpa using hs, hw, hb⟩, rfl⟩, rfl⟩, rfl⟩, rfl⟩

theorem length_put (received : Received crypto) :
    received.put.length = 7 + 48 + received.wire.length + received.body.length := by
  have hm : receivedMagic.length = 7 := by decide
  simp only [put, List.length_append, length_putBlob, Vector.length_toList, length_toBe, bytes_uInt64, hm]
  omega

theorem Encodable.length_le {received : Received crypto} (h : received.Encodable) :
    received.put.length ≤ maxStoredRecordBytes - 40 := by
  rw [length_put]
  exact Nat.le_trans (Nat.add_le_add (Nat.add_le_add_left h.wire.1 _) h.body.1) received_le

theorem encode_eq_ok {received : Received crypto} {raw : List UInt8} :
    received.encode = .ok raw ↔ raw = received.put ∧ received.Encodable := by
  have hw : Writes _ received.put ((received.wire.length ≤ maxWireBytes ∧ received.wire ≠ []) ∧
      received.body.length ≤ maxBodyBytes ∧ received.body ≠ []) :=
    ((writes_bytes receivedMagic).bind ((writes_u64 received.sequence).bind ((writes_bytes received.sender.bytes.toList).bind
      ((@writes_nonempty maxWireBytes (by decide) received.wire).bind
      (@writes_nonempty maxBodyBytes (by decide) received.body))))).congr (by simp) fun _ => rfl
  simp only [bind_assoc] at hw
  simp only [encode, bind_eq_ok, hw.finish_eq_ok, require_eq_ok, bne_iff_ne]
  constructor
  · rintro ⟨_, hs, rfl, -, hwire, hbody⟩
    exact ⟨rfl, hs, hwire, hbody⟩
  · rintro ⟨rfl, h⟩
    exact ⟨(), h.counted, rfl, h.length_le, h.wire, h.body⟩

theorem decode_eq_ok {raw : List UInt8} {received : Received crypto} :
    decode raw = .ok received ↔ received.encode = .ok raw := by
  simp only [decode, decodeWith_eq_ok codec_received, encode_eq_ok]
  constructor
  · rintro ⟨rfl, h, -⟩
    exact ⟨rfl, h⟩
  · rintro ⟨rfl, h⟩
    exact ⟨rfl, h, h.length_le⟩

end Received

/-! ### Control envelopes -/

namespace Envelope

/-- An envelope within its framing. -/
structure Encodable (envelope : Envelope) : Prop where
  kind : 1 ≤ envelope.kind.toNat ∧ envelope.kind.toNat ≤ 4
  next : checkedAdd envelope.prior 1 = some envelope.sequence
  long : 16 ≤ envelope.ciphertext.length
  fits : envelope.ciphertext.length ≤ maxPacket - envelopeHeader

theorem put_eq (envelope : Envelope) : envelope.put = envelope.header ++ envelope.ciphertext := by
  simp [put, header, putBlob]

theorem length_header (envelope : Envelope) : envelope.header.length = envelopeHeader := by
  simp only [header, envelopeHeader, List.length_append, Vector.length_toList, length_toBe, bytes_uInt64, bytes_uInt32,
    List.length_cons, List.length_nil]

theorem codec_envelope : Codec read put Encodable := by
  refine codec_readMagic.field (fun _ => ()) fun _ =>
    codec_readByte.field Envelope.kind fun kind =>
    Codec.guard.bind (fun _ => ()) (fun e h => ?_) fun _ hk =>
    codec_readU64.field Envelope.prior fun prior =>
    codec_readU64.field Envelope.sequence fun sequence =>
    Codec.guard.bind (fun _ => ()) (fun e h => ?_) fun _ hn =>
    codec_readArray.field Envelope.nonce fun _ =>
    (codec_readBlob (by decide)).last Envelope.ciphertext (fun e h => ?_) fun ciphertext hc =>
    (Codec.guard.last (fun _ => ()) (fun e h => ?_) fun _ hl => .pure _ fun e => ?_)
  · simpa [← h.2] using h.1.1.kind
  · simpa [← h.1.2, ← h.2] using h.1.1.1.1.1.next
  · exact h.1.1.1.1.1.1.1.fits
  · simpa [← h.2] using h.1.1.1.1.1.1.1.1.long
  · obtain ⟨_, _, _, _, _⟩ := e
    simp only [and_true]
    constructor
    · rintro ⟨⟨⟨⟨⟨-, rfl⟩, rfl⟩, rfl⟩, rfl⟩, rfl⟩
      rfl
    · rintro ⟨⟩
      exact ⟨⟨⟨⟨⟨⟨by simpa using hk, by simpa using hn, by simpa using hl, hc⟩, rfl⟩, rfl⟩, rfl⟩, rfl⟩, rfl⟩

theorem decode_eq_ok {raw : List UInt8} {envelope : Envelope} :
    decode raw = .ok envelope ↔ raw = envelope.put ∧ envelope.Encodable := by
  simp only [decode, decodeWith_eq_ok codec_envelope]
  constructor
  · rintro ⟨rfl, h, -⟩
    exact ⟨rfl, h⟩
  · rintro ⟨rfl, h⟩
    refine ⟨rfl, h, ?_⟩
    have hl := h.fits
    rw [put_eq, List.length_append, length_header]
    have hm : envelopeHeader ≤ maxPacket := by decide
    omega

end Envelope

namespace RetainedControl

theorem new_eq_ok {control : VerifiedOwnerControl crypto} {envelope : Option (List UInt8)} {retained : RetainedControl crypto} :
    new control envelope = .ok retained ↔ retained.control = control ∧ retained.envelope = envelope := by
  obtain ⟨control', envelope', agrees⟩ := retained
  unfold new
  constructor
  · intro h
    split at h <;> cases h
    exact ⟨rfl, rfl⟩
  · rintro ⟨rfl, rfl⟩
    split
    · rfl
    · rename_i he
      rw [agrees] at he
      cases he

theorem envelope_fits (retained : RetainedControl crypto) {raw : List UInt8} (h : retained.envelope = some raw) :
    raw.length ≤ maxPacket := by
  have ha := retained.agrees
  rw [h] at ha
  simp only [checkEnvelope, bind_eq_ok] at ha
  obtain ⟨envelope, hd, -⟩ := ha
  exact (Decidable.not_not.1 fun hn => by
    simp only [Envelope.decode, decodeWith, Reader.decode, if_pos (Nat.not_le.1 hn)] at hd
    cases hd)

theorem codec_retained : Codec (@read crypto) (fun r => retainedMagic ++ (putBlob r.1.encode ++ putOption putBlob r.2))
    fun r => ∀ raw ∈ r.2, raw.length ≤ maxPacket :=
  codec_readMagic.field (fun _ => ()) fun _ =>
    (codec_readVerified control_lawful (by decide)).bind Prod.fst (fun r _ => r.1.signed.length_encode_le) fun _ _ =>
    (codec_readOption (codec_readBlob (by decide))).last Prod.snd (fun r h => h.1.1) fun envelope he => .pure _ fun r => by
      obtain ⟨_, _⟩ := r
      simp only [and_true]
      constructor
      · rintro ⟨⟨-, rfl⟩, rfl⟩
        rfl
      · rintro ⟨⟩
        exact ⟨⟨he, rfl⟩, rfl⟩

def Fits (retained : RetainedControl crypto) : Prop := retained.put.length ≤ maxStoredRecordBytes - 40

theorem encode_eq_ok {retained : RetainedControl crypto} {raw : List UInt8} :
    retained.encode = .ok raw ↔ raw = retained.put ∧ retained.Fits := by
  have hw : Writes _ retained.put (∀ raw ∈ retained.envelope,
      checkEnvelope retained.control (some raw) = .ok () ∧ raw.length ≤ maxPacket) :=
    ((writes_bytes retainedMagic).bind ((@writes_blob maxRecordBytes (by decide) retained.control.encode).bind
      (writes_option (fun raw => (@Writes.check _ (checkEnvelope retained.control (some raw) = .ok ()) _ Iff.rfl).bind
        (@writes_blob maxPacket (by decide) raw)) retained.envelope))).congr
      (by simp [show retained.control.encode.length ≤ maxRecordBytes from retained.control.signed.length_encode_le])
      fun _ => rfl
  rw [encode, hw.finish_eq_ok]
  constructor
  · rintro ⟨rfl, hl, -⟩
    exact ⟨rfl, hl⟩
  · rintro ⟨rfl, hl⟩
    refine ⟨rfl, hl, fun raw hraw => ⟨?_, retained.envelope_fits hraw⟩⟩
    have ha := retained.agrees
    rw [Option.mem_def.1 hraw] at ha
    exact ha

theorem decode_eq_ok {raw : List UInt8} {retained : RetainedControl crypto} :
    decode raw = .ok retained ↔ retained.encode = .ok raw := by
  simp only [decode, bind_eq_ok, decodeWith_eq_ok codec_retained, Prod.exists, new_eq_ok, encode_eq_ok]
  constructor
  · rintro ⟨control, envelope, ⟨rfl, -, hl⟩, rfl, rfl⟩
    exact ⟨rfl, hl⟩
  · rintro ⟨rfl, hl⟩
    exact ⟨_, _, ⟨rfl, fun raw hraw => retained.envelope_fits hraw, hl⟩, rfl, rfl⟩

end RetainedControl

end

end Valhalla.PrivateKernel
