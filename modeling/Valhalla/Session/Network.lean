import Valhalla.Session.Chat
import Valhalla.Lib.Trace

/-!
# Paired sessions agree

Any number of handshakes on a network that delivers any bytes but forged signatures of honest keys (`Unforged`), and
the chat sessions that they establish. `World` remembers what honest keys signed and which nonces they used.
-/

namespace Valhalla.Session
open Fallible FixedWidth Check

/-! ### Fixed fields -/

theorem toBe_append_inj {α : Type} [FixedWidth α] {x y : α} {l r : List UInt8} (h : toBe x ++ l = toBe y ++ r) : x = y ∧ l = r :=
  (Codec.int ()).append_inj trivial trivial h

theorem toList_append_inj {n : Nat} {v w : Vector UInt8 n} {l r : List UInt8} (h : v.toList ++ l = w.toList ++ r) : v = w ∧ l = r :=
  (Codec.array () n).append_inj trivial trivial h

theorem toBe_inj {α : Type} [FixedWidth α] {x y : α} (h : toBe x = toBe y) : x = y :=
  (toBe_append_inj (congrArg (· ++ []) h)).1

/-! ### Packets -/

namespace Packet
variable {p q : Packet} {kind : UInt8} {raw : List UInt8}

theorem unsigned_inj (h : p.unsigned = q.unsigned) :
    p.kind = q.kind ∧ p.pairing = q.pairing ∧ p.initiatorNonce = q.initiatorNonce ∧ (p.kind ≠ hello → p.responderNonce = q.responderNonce) := by
  unfold unsigned at h
  obtain ⟨hkind, h⟩ := List.cons.inj (List.append_cancel_left h)
  obtain ⟨hpairing, h⟩ := toList_append_inj h
  obtain ⟨hinitiator, h⟩ := toList_append_inj h
  refine ⟨hkind, hpairing, hinitiator, fun hne => ?_⟩
  rw [if_neg hne, if_neg (hkind ▸ hne)] at h
  exact Vector.toList_inj.1 h

theorem transcript_inj (h : p.transcript = q.transcript) :
    p.kind = q.kind ∧ p.pairing = q.pairing ∧ p.initiatorNonce = q.initiatorNonce ∧ (p.kind ≠ hello → p.responderNonce = q.responderNonce) :=
  unsigned_inj (List.append_cancel_left h)

theorem codec_nonce : Codec getNonce Vector.toList fun nonce => nonce ≠ zeroBytes :=
  (Codec.array _ 32).check.congr (fun nonce => by rw [true_and]) fun _ _ => rfl

theorem codec_kind : Codec (getKind kind) (fun found => [found]) (· = kind) := by
  have h : Codec (Reader.int .malformed : Reader Reject UInt8) (fun found => [found]) fun _ => True :=
    (Codec.int _).congr (fun _ => Iff.rfl) fun found _ => (toBe_uInt8 found).symm
  exact h.check.congr (fun found => by rw [true_and, Decidable.not_not]) fun _ _ => rfl

structure Fresh (kind : UInt8) (packet : Packet) : Prop where
  tag : packet.kind = kind
  initiator : packet.initiatorNonce ≠ zeroBytes
  responder : if kind = hello then packet.responderNonce = zeroBytes else packet.responderNonce ≠ zeroBytes

theorem codec_responderNonce : Codec (getResponderNonce kind) (fun nonce => if kind = hello then [] else nonce.toList)
    fun nonce => if kind = hello then nonce = zeroBytes else nonce ≠ zeroBytes := by
  unfold getResponderNonce
  by_cases hkind : kind = hello
  · simp only [if_pos hkind]
    exact .pure _ fun _ => Iff.rfl
  · simp only [if_neg hkind]
    exact codec_nonce

theorem codec_packet : Codec (get kind) (fun packet => packet.unsigned ++ packet.signature.toList) (Fresh kind) := by
  have h : Codec (get kind) (fun packet => magic ++ ([packet.kind] ++ (packet.pairing.toList ++ (packet.initiatorNonce.toList ++
      ((if packet.kind = hello then [] else packet.responderNonce.toList) ++ packet.signature.toList))))) (Fresh kind) := by
    refine Codec.magic.field (fun _ => ()) fun _ =>
      codec_kind.bind Packet.kind (fun packet h => h.1.tag) fun tag htag => ?_
    subst htag
    have hrest : Codec (do
        let pairing ← Reader.array .malformed 32
        let initiatorNonce ← getNonce
        let responderNonce ← getResponderNonce tag
        let signature ← Reader.array .malformed 64
        pure ⟨tag, pairing, initiatorNonce, responderNonce, signature⟩ : Reader Reject Packet)
        (fun packet => packet.pairing.toList ++ (packet.initiatorNonce.toList ++
          ((if tag = hello then [] else packet.responderNonce.toList) ++ packet.signature.toList)))
        fun packet => (Fresh tag packet ∧ () = ()) ∧ packet.kind = tag :=
      (Codec.array _ 32).field Packet.pairing fun _ =>
        codec_nonce.bind Packet.initiatorNonce (fun _ h => h.1.1.1.initiator) fun initiator hinitiator =>
        codec_responderNonce.bind Packet.responderNonce (fun _ h => h.1.1.1.1.responder) fun responder hresponder =>
        (Codec.array _ 64).lastField Packet.signature fun _ => .pure _ fun packet => by
          constructor
          · rintro ⟨⟨⟨⟨⟨-, rfl⟩, rfl⟩, rfl⟩, rfl⟩, rfl⟩
            rfl
          · rintro rfl
            exact ⟨⟨⟨⟨⟨⟨⟨rfl, hinitiator, hresponder⟩, rfl⟩, rfl⟩, rfl⟩, rfl⟩, rfl⟩, rfl⟩
    exact hrest.congr (fun _ => Iff.rfl) fun packet hpacket => by rw [hpacket.2]
  refine h.congr (fun _ => Iff.rfl) fun packet _ => ?_
  simp only [unsigned, List.append_assoc, List.cons_append, List.nil_append]

theorem decode_eq_ok : decode raw kind = .ok p ↔ raw = p.unsigned ++ p.signature.toList ∧ Fresh kind p := codec_packet.complete_eq_ok

end Packet

theorem Pairing.bytes_inj {p q : Pairing} (h : p.bytes = q.bytes) : p = q := by
  obtain ⟨pi, pr, pit, prt, ⟨prealm⟩, ⟨proom⟩, pepoch, pexpires⟩ := p
  obtain ⟨qi, qr, qit, qrt, ⟨qrealm⟩, ⟨qroom⟩, qepoch, qexpires⟩ := q
  obtain ⟨rfl, h⟩ := toList_append_inj (List.append_cancel_left h)
  obtain ⟨rfl, h⟩ := toList_append_inj h
  obtain ⟨rfl, h⟩ := toList_append_inj h
  obtain ⟨rfl, h⟩ := toList_append_inj h
  obtain ⟨rfl, h⟩ := toBe_append_inj h
  obtain ⟨rfl, h⟩ := toBe_append_inj h
  obtain ⟨rfl, h⟩ := toBe_append_inj h
  cases toBe_inj h
  rfl

theorem Packet.sessionBytes_inj {p q : Packet} (h : p.sessionBytes = q.sessionBytes) :
    p.pairing = q.pairing ∧ p.initiatorNonce = q.initiatorNonce ∧ p.responderNonce = q.responderNonce := by
  obtain ⟨hpairing, h⟩ := toList_append_inj (List.append_cancel_left h)
  obtain ⟨hinitiator, h⟩ := toList_append_inj h
  exact ⟨hpairing, hinitiator, Vector.toList_inj.1 h⟩

theorem ChatSession.eventBytes_inj {session session' : SessionId} {author author' : PeerId} {sequence sequence' : UInt64}
    (h : eventBytes session author sequence = eventBytes session' author' sequence') : sequence = sequence' := by
  obtain ⟨-, h⟩ := toBe_append_inj (List.append_cancel_left h)
  exact toBe_inj (toBe_append_inj h).2

/-! ### The world -/

/-- What a run records of its handshakes. -/
inductive Note
  | responded (pairing : Pairing) (initiatorNonce responderNonce : Bytes32)
  | confirmed (pairing : Pairing) (initiatorNonce responderNonce : Bytes32) (id : SessionId)
  | finished (pairing : Pairing) (initiatorNonce responderNonce : Bytes32) (id : SessionId)
deriving DecidableEq

/-- The honest parties' handshakes and sessions, and what their keys did so far. -/
structure World where
  signed : List (Bytes32 × List UInt8) := []
  nonces : List (Bytes32 × Bytes32) := []
  hashed : List (List UInt8) := []
  pendings : List Pending := []
  chats : List Chat := []

def Carries (raw message : List UInt8) (signature : Signature) : Prop :=
  (∃ kind packet, Packet.decode raw kind = .ok packet ∧ packet.transcript = message ∧ packet.signature = signature) ∨
    ∃ claim, SignedEnvelope.decode raw = .ok claim ∧ claim.transcript = .ok message ∧ claim.signature = signature

def Unforged (crypto : Crypto) (honest : Bytes32 → Prop) (signed : List (Bytes32 × List UInt8)) (raw : List UInt8) : Prop :=
  ∀ key message signature, honest key → Carries raw message signature → crypto.verifyStrict key message signature = true →
    (key, message) ∈ signed

/-- No two of these inputs share the front of their hashes. -/
def CollisionFree (crypto : Crypto) (inputs : List (List UInt8)) : Prop :=
  ∀ x ∈ inputs, ∀ y ∈ inputs, (crypto.sha256 x).toList.take 16 = (crypto.sha256 y).toList.take 16 → x = y

def ChatEvent.hashes (chat : Chat) : ChatEvent → List (List UInt8)
  | .prepared _ envelope => [ChatSession.eventBytes chat.id envelope.author envelope.sequence]
  | _ => []

/-- A step of one of the honest parties. A nonce is new to the key that uses it, and a pending handshake is used once. -/
inductive Step (crypto : Crypto) (honest : Bytes32 → Prop) : World → List Note → World → Prop
  | initiated {w : World} {pairing : Pairing} {key : SigningKey} {ownTransport remoteTransport nonce : Bytes32} {now deadline : UInt64}
      {pending : Pending} {sent : List UInt8} :
    honest key.verifyingKey → (key.verifyingKey, nonce) ∉ w.nonces →
    Pending.initiate crypto pairing key ownTransport remoteTransport nonce now deadline = .ok (pending, sent) →
    Step crypto honest w [] { w with
      signed := (key.verifyingKey, pending.packet.transcript) :: w.signed
      nonces := (key.verifyingKey, nonce) :: w.nonces
      hashed := pairing.bytes :: w.hashed
      pendings := pending :: w.pendings }
  | responded {w : World} {pairing : Pairing} {key : SigningKey} {ownTransport remoteTransport nonce : Bytes32} {raw : List UInt8}
      {now deadline : UInt64} {pending : Pending} {sent : List UInt8} :
    honest key.verifyingKey → (key.verifyingKey, nonce) ∉ w.nonces → Unforged crypto honest w.signed raw →
    Pending.respond crypto pairing key ownTransport remoteTransport raw nonce now deadline = .ok (pending, sent) →
    Step crypto honest w [.responded pairing pending.packet.initiatorNonce nonce] { w with
      signed := (key.verifyingKey, pending.packet.transcript) :: w.signed
      nonces := (key.verifyingKey, nonce) :: w.nonces
      hashed := pairing.bytes :: w.hashed
      pendings := pending :: w.pendings }
  | confirmed {w : World} {before after : List Pending} {pending : Pending} {key : SigningKey} {raw sent : List UInt8} {now : UInt64}
      {packet : Packet} {session : ChatSession} :
    w.pendings = before ++ pending :: after → honest key.verifyingKey → Unforged crypto honest w.signed raw →
    pending.confirm crypto raw key now = .ok (session, sent) → Packet.decode raw response = .ok packet →
    Step crypto honest w [.confirmed pending.pairing packet.initiatorNonce packet.responderNonce (packet.sessionId crypto)] { w with
      signed := (key.verifyingKey, { packet with kind := confirm }.transcript) :: w.signed
      hashed := packet.sessionBytes :: w.hashed
      pendings := before ++ after
      chats := ⟨pending.role, packet.sessionId crypto, now, session, []⟩ :: w.chats }
  | finished {w : World} {before after : List Pending} {pending : Pending} {raw : List UInt8} {now : UInt64} {packet : Packet}
      {session : ChatSession} :
    w.pendings = before ++ pending :: after → Unforged crypto honest w.signed raw →
    pending.finish crypto raw now = .ok session → Packet.decode raw confirm = .ok packet →
    Step crypto honest w [.finished pending.pairing packet.initiatorNonce packet.responderNonce (packet.sessionId crypto)] { w with
      hashed := packet.sessionBytes :: w.hashed
      pendings := before ++ after
      chats := ⟨pending.role, packet.sessionId crypto, now, session, []⟩ :: w.chats }
  /-- A refused packet consumes the handshake as well, and any handshake may be given up. -/
  | dropped {w : World} {before after : List Pending} {pending : Pending} :
    w.pendings = before ++ pending :: after → Step crypto honest w [] { w with pendings := before ++ after }
  | signed {w : World} {envelope : Envelope} {audience : PeerId} {epoch : Epoch} {session : SessionId} {expiresAt : UInt64} {key : SigningKey}
      {claim : SignedEnvelope} {transcript : List UInt8} :
    honest key.verifyingKey → sign crypto envelope audience epoch session expiresAt key = .ok claim → claim.transcript = .ok transcript →
    Step crypto honest w [] { w with signed := (key.verifyingKey, transcript) :: w.signed }
  /-- The keys sign for other purposes too, but nothing in the domain of the handshake. -/
  | other {w : World} {key : Bytes32} {message : List UInt8} :
    honest key → ¬ handshakeDomain <+: message → Step crypto honest w [] { w with signed := (key, message) :: w.signed }
  | chat {w : World} {before after : List Chat} {chat : Chat} {event : ChatEvent} {session : ChatSession} :
    w.chats = before ++ chat :: after → ChatStep crypto (Unforged crypto honest w.signed) chat.session event session →
    Step crypto honest w [] { w with
      hashed := event.hashes chat ++ w.hashed
      chats := before ++ chat.extend event session :: after }

end Valhalla.Session
