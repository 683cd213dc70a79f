import Valhalla.Session.Network

/-!
# Paired sessions agree

Whatever the network delivers, a responder that finishes was confirmed by its initiator before, an initiator that
confirms was answered by its responder before, and no two sessions of responders share an identifier.
-/

namespace Valhalla.Session
open Fallible FixedWidth Check

/-! ### The operations of a handshake -/

def Pairing.packet (crypto : Crypto) (pairing : Pairing) (kind : UInt8) (initiatorNonce responderNonce : Bytes32) : Packet :=
  ⟨kind, pairing.digest crypto, initiatorNonce, responderNonce, Vector.replicate 64 0⟩

section
variable {crypto : Crypto} {pairing : Pairing} {key : SigningKey} {ownTransport remoteTransport nonce : Bytes32} {raw sent : List UInt8}
  {now deadline : UInt64} {pending : Pending} {session : ChatSession} {packet : Packet}

theorem checkLocal_key {role : Role} {u : Unit} (h : pairing.checkLocal crypto role key ownTransport remoteTransport = .ok u) :
    key.verifyingKey = pairing.own role := by
  simp only [Pairing.checkLocal, bind_eq_ok, require_eq_ok, beq_iff_eq] at h
  obtain ⟨_, -, _, hkey, -⟩ := h
  exact hkey

structure Opens (crypto : Crypto) (pairing : Pairing) (role : Role) (kind : UInt8) (key : SigningKey) (pending : Pending) : Prop where
  pinned : pending.pairing = pairing
  side : pending.role = role
  kind : pending.packet.kind = kind
  digest : pending.packet.pairing = pairing.digest crypto
  key : key.verifyingKey = pairing.own role

theorem initiate_spec (h : Pending.initiate crypto pairing key ownTransport remoteTransport nonce now deadline = .ok (pending, sent)) :
    Opens crypto pairing .initiator hello key pending := by
  simp only [Pending.initiate, bind_eq_ok] at h
  obtain ⟨_, hlocal, deadline, -, _, -, hpending⟩ := h
  cases hpending
  exact ⟨rfl, rfl, rfl, rfl, checkLocal_key hlocal⟩

theorem respond_spec (h : Pending.respond crypto pairing key ownTransport remoteTransport raw nonce now deadline = .ok (pending, sent)) :
    Opens crypto pairing .responder response key pending ∧ pending.packet.responderNonce = nonce := by
  simp only [Pending.respond, bind_eq_ok, require_eq_ok, beq_iff_eq] at h
  obtain ⟨_, hlocal, deadline, -, _, -, packet, -, _, hdigest, _, -, hpending⟩ := h
  cases hpending
  exact ⟨⟨rfl, rfl, rfl, hdigest, checkLocal_key hlocal⟩, rfl⟩

structure Answers (crypto : Crypto) (pending : Pending) (packet : Packet) (key : Bytes32) : Prop where
  digest : packet.pairing = pending.packet.pairing
  initiatorNonce : packet.initiatorNonce = pending.packet.initiatorNonce
  signature : crypto.verifyStrict key packet.transcript packet.signature = true

theorem confirm_spec (h : pending.confirm crypto raw key now = .ok (session, sent)) (hpacket : Packet.decode raw response = .ok packet) :
    pending.role = .initiator ∧ key.verifyingKey = pending.pairing.initiator ∧ Answers crypto pending packet pending.pairing.responder ∧
      ChatSession.establish crypto pending.pairing pending.role (packet.sessionId crypto) now = .ok session := by
  simp only [Pending.confirm, Packet.verify, bind_eq_ok, require_eq_ok, Bool.and_eq_true, beq_iff_eq, hpacket] at h
  obtain ⟨_, -, _, ⟨hrole, hkey⟩, decoded, hdecoded, _, ⟨hdigest, hnonce⟩, _, ⟨_, -, hverify⟩, established, hestablish, hsession⟩ := h
  cases hdecoded
  cases hsession
  exact ⟨hrole, hkey, ⟨hdigest, hnonce, hverify⟩, hestablish⟩

theorem finish_spec (h : pending.finish crypto raw now = .ok session) (hpacket : Packet.decode raw confirm = .ok packet) :
    pending.role = .responder ∧ packet.responderNonce = pending.packet.responderNonce ∧ Answers crypto pending packet pending.pairing.initiator ∧
      ChatSession.establish crypto pending.pairing pending.role (packet.sessionId crypto) now = .ok session := by
  simp only [Pending.finish, Packet.verify, bind_eq_ok, require_eq_ok, Bool.and_eq_true, beq_iff_eq, hpacket] at h
  obtain ⟨_, -, _, hrole, decoded, hdecoded, _, ⟨⟨hdigest, hinitiator⟩, hresponder⟩, _, ⟨_, -, hverify⟩, hestablish⟩ := h
  cases hdecoded
  exact ⟨hrole, hresponder, ⟨hdigest, hinitiator, hverify⟩, hestablish⟩

end

/-! ### What holds in every run -/

section
variable {crypto : Crypto} {honest : Bytes32 → Prop} {notes notes' : List Note} {w w' : World} {note : Note}

/-- What a signature of an honest key on a packet stands for. -/
structure Vouched (crypto : Crypto) (notes : List Note) (key : Bytes32) (packet : Packet) : Prop where
  response : packet.kind = response → ∃ pairing, .responded pairing packet.initiatorNonce packet.responderNonce ∈ notes ∧
    pairing.digest crypto = packet.pairing ∧ pairing.responder = key
  confirm : packet.kind = confirm → ∃ pairing,
    .confirmed pairing packet.initiatorNonce packet.responderNonce (packet.sessionId crypto) ∈ notes ∧
      pairing.digest crypto = packet.pairing ∧ pairing.initiator = key

namespace Note

def Hashed (crypto : Crypto) (hashed : List (List UInt8)) : Note → Prop
  | .responded pairing _ _ => pairing.bytes ∈ hashed
  | .confirmed pairing a b id | .finished pairing a b id =>
    pairing.bytes ∈ hashed ∧ (pairing.packet crypto Session.confirm a b).sessionBytes ∈ hashed ∧
      id = (pairing.packet crypto Session.confirm a b).sessionId crypto

def Caused (crypto : Crypto) (honest : Bytes32 → Prop) (signed : List (Bytes32 × List UInt8)) (before : List Note) : Note → Prop
  | .responded _ _ _ => True
  | .confirmed pairing a b _ => honest pairing.responder →
    (pairing.responder, (pairing.packet crypto response a b).transcript) ∈ signed ∧
      ∃ pairing', .responded pairing' a b ∈ before ∧ pairing'.digest crypto = pairing.digest crypto
  | .finished pairing a b id => honest pairing.initiator →
    ∃ pairing', .confirmed pairing' a b id ∈ before ∧ pairing'.digest crypto = pairing.digest crypto

def finishedId : Note → Option SessionId
  | .finished _ _ _ id => some id
  | _ => none

def spent : Note → Option (Bytes32 × Bytes32)
  | .finished pairing _ b _ => some (pairing.responder, b)
  | _ => none

end Note

def Pending.held (pending : Pending) : Option (Bytes32 × Bytes32) :=
  match pending.role with
  | .initiator => none
  | .responder => some (pending.pairing.responder, pending.packet.responderNonce)

def Chat.Established (notes : List Note) (chat : Chat) : Prop :=
  ∃ a b, match chat.role with
    | .initiator => .confirmed chat.session.pairing a b chat.id ∈ notes
    | .responder => .finished chat.session.pairing a b chat.id ∈ notes

structure Chat.Kept (crypto : Crypto) (honest : Bytes32 → Prop) (notes : List Note) (w : World) (chat : Chat) : Prop where
  sound : chat.Sound crypto
  established : chat.Established notes
  signed : honest (chat.session.pairing.remote chat.role) → ∀ now claim, .accepted now claim ∈ chat.history →
    ∃ transcript, claim.transcript = .ok transcript ∧ (chat.session.pairing.remote chat.role, transcript) ∈ w.signed
  hashed : ∀ event ∈ chat.history, ∀ input ∈ event.hashes chat, input ∈ w.hashed

structure World.Kept (crypto : Crypto) (honest : Bytes32 → Prop) (notes : List Note) (w : World) : Prop where
  signed : ∀ key (packet : Packet), (key, packet.transcript) ∈ w.signed → Vouched crypto notes key packet
  pendings : ∀ pending ∈ w.pendings, pending.packet.pairing = pending.pairing.digest crypto ∧ pending.pairing.bytes ∈ w.hashed
  fresh : (notes.filterMap Note.spent ++ w.pendings.filterMap Pending.held).Nodup
  used : ∀ nonce ∈ notes.filterMap Note.spent ++ w.pendings.filterMap Pending.held, nonce ∈ w.nonces
  hashed : ∀ note ∈ notes, note.Hashed crypto w.hashed
  caused : ∀ before note, before ++ [note] <+: notes → note.Caused crypto honest w.signed before
  chats : ∀ chat ∈ w.chats, chat.Kept crypto honest notes w

/-! ### Parts that grow -/

structure World.Grows (w w' : World) : Prop where
  signed : ∀ entry ∈ w.signed, entry ∈ w'.signed
  hashed : ∀ input ∈ w.hashed, input ∈ w'.hashed

theorem Vouched.mono {key : Bytes32} {packet : Packet} (h : Vouched crypto notes key packet) (hnotes : notes ⊆ notes') :
    Vouched crypto notes' key packet :=
  ⟨fun hkind => (h.response hkind).imp fun _ h => ⟨hnotes h.1, h.2⟩, fun hkind => (h.confirm hkind).imp fun _ h => ⟨hnotes h.1, h.2⟩⟩

theorem Vouched.congr {key : Bytes32} {p q : Packet} (h : Vouched crypto notes key p) (htranscript : q.transcript = p.transcript) :
    Vouched crypto notes key q := by
  obtain ⟨hkind, hpairing, hinitiator, hresponder⟩ := Packet.transcript_inj htranscript
  have hid : q.kind ≠ hello → q.sessionId crypto = p.sessionId crypto := fun hne => by
    rw [Packet.sessionId, Packet.sessionId, Packet.sessionBytes, Packet.sessionBytes, hpairing, hinitiator, hresponder hne]
  constructor
  · intro hresponse
    rw [hinitiator, hpairing, hresponder (by rw [hresponse]; decide)]
    exact h.response (hkind ▸ hresponse)
  · intro hconfirm
    have hne : q.kind ≠ hello := by rw [hconfirm]; decide
    rw [hid hne, hinitiator, hpairing, hresponder hne]
    exact h.confirm (hkind ▸ hconfirm)

theorem Note.Hashed.mono (h : note.Hashed crypto w.hashed) (hgrows : w.Grows w') : note.Hashed crypto w'.hashed := by
  cases note with
  | responded => exact hgrows.hashed _ h
  | confirmed => exact ⟨hgrows.hashed _ h.1, hgrows.hashed _ h.2.1, h.2.2⟩
  | finished => exact ⟨hgrows.hashed _ h.1, hgrows.hashed _ h.2.1, h.2.2⟩

theorem Note.Caused.mono {before : List Note} (h : note.Caused crypto honest w.signed before) (hgrows : w.Grows w') :
    note.Caused crypto honest w'.signed before := by
  cases note with
  | responded => trivial
  | confirmed => exact fun hhonest => ⟨hgrows.signed _ (h hhonest).1, (h hhonest).2⟩
  | finished => exact h

theorem Chat.Established.mono {chat : Chat} (h : chat.Established notes) (hnotes : notes ⊆ notes') : chat.Established notes' := by
  obtain ⟨a, b, h⟩ := h
  refine ⟨a, b, ?_⟩
  cases hrole : chat.role with
  | initiator =>
    rw [hrole] at h
    exact hnotes h
  | responder =>
    rw [hrole] at h
    exact hnotes h

theorem Chat.Kept.mono {chat : Chat} (h : chat.Kept crypto honest notes w) (hnotes : notes ⊆ notes') (hgrows : w.Grows w') :
    chat.Kept crypto honest notes' w' where
  sound := h.sound
  established := h.established.mono hnotes
  signed hhonest now claim hmem := (h.signed hhonest now claim hmem).imp fun _ h => ⟨h.1, hgrows.signed _ h.2⟩
  hashed event hevent input hinput := hgrows.hashed _ (h.hashed event hevent input hinput)

/-! ### Parts of a step -/

namespace World.Kept

theorem hash (h : w.Kept crypto honest notes) (inputs : List (List UInt8)) :
    World.Kept crypto honest notes { w with hashed := inputs ++ w.hashed } := by
  have hgrows : w.Grows { w with hashed := inputs ++ w.hashed } := ⟨fun _ h => h, fun _ h => List.mem_append_right _ h⟩
  exact { h with
    pendings := fun pending hmem => ⟨(h.pendings pending hmem).1, hgrows.hashed _ (h.pendings pending hmem).2⟩
    hashed := fun note hmem => (h.hashed note hmem).mono hgrows
    chats := fun chat hmem => (h.chats chat hmem).mono (fun _ h => h) hgrows }

theorem sign {key : Bytes32} {message : List UInt8} (h : w.Kept crypto honest notes)
    (hvouched : ∀ packet : Packet, packet.transcript = message → Vouched crypto notes key packet) :
    World.Kept crypto honest notes { w with signed := (key, message) :: w.signed } := by
  have hgrows : w.Grows { w with signed := (key, message) :: w.signed } := ⟨fun _ h => List.mem_cons_of_mem _ h, fun _ h => h⟩
  refine { h with
    signed := fun signer packet hmem => ?_
    caused := fun before note hsub => (h.caused before note hsub).mono hgrows
    chats := fun chat hmem => (h.chats chat hmem).mono (fun _ h => h) hgrows }
  rcases List.mem_cons.1 hmem with heq | hmem
  · obtain ⟨rfl, hmessage⟩ := Prod.mk.inj heq
    exact hvouched packet hmessage
  · exact h.signed signer packet hmem

theorem use (h : w.Kept crypto honest notes) (nonce : Bytes32 × Bytes32) :
    World.Kept crypto honest notes { w with nonces := nonce :: w.nonces } :=
  { h with
    used := fun other hmem => List.mem_cons_of_mem _ (h.used other hmem)
    chats := fun chat hmem => (h.chats chat hmem).mono (fun _ h => h) ⟨fun _ h => h, fun _ h => h⟩ }

theorem opened {pending : Pending} (h : w.Kept crypto honest notes) (hdigest : pending.packet.pairing = pending.pairing.digest crypto)
    (hbytes : pending.pairing.bytes ∈ w.hashed)
    (hheld : ∀ nonce, pending.held = some nonce → nonce ∈ w.nonces ∧ nonce ∉ notes.filterMap Note.spent ++ w.pendings.filterMap Pending.held) :
    World.Kept crypto honest notes { w with pendings := pending :: w.pendings } := by
  refine { h with
    pendings := fun other hmem => ?_
    fresh := ?_
    used := fun nonce hmem => ?_
    chats := fun chat hmem => (h.chats chat hmem).mono (fun _ h => h) ⟨fun _ h => h, fun _ h => h⟩ }
  · rcases List.mem_cons.1 hmem with rfl | hmem
    · exact ⟨hdigest, hbytes⟩
    · exact h.pendings other hmem
  · cases hnonce : pending.held with
    | none =>
      rw [List.filterMap_cons_none hnonce]
      exact h.fresh
    | some nonce =>
      rw [List.filterMap_cons_some hnonce]
      exact List.nodup_middle.2 (List.nodup_cons.2 ⟨(hheld nonce hnonce).2, h.fresh⟩)
  · cases hnonce : pending.held with
    | none =>
      rw [List.filterMap_cons_none hnonce] at hmem
      exact h.used nonce hmem
    | some own =>
      rw [List.filterMap_cons_some hnonce] at hmem
      rcases List.mem_append.1 hmem with hmem | hmem
      · exact h.used nonce (List.mem_append_left _ hmem)
      · rcases List.mem_cons.1 hmem with rfl | hmem
        · exact (hheld nonce hnonce).1
        · exact h.used nonce (List.mem_append_right _ hmem)

theorem dropped {before after : List Pending} {pending : Pending} (h : w.Kept crypto honest notes) (hpendings : w.pendings = before ++ pending :: after) :
    World.Kept crypto honest notes { w with pendings := before ++ after } := by
  have hsub : List.Sublist (before ++ after) w.pendings := by
    rw [hpendings]
    exact (List.sublist_cons_self _ _).append_left _
  have hheld := (hsub.filterMap Pending.held).append_left (notes.filterMap Note.spent)
  exact { h with
    pendings := fun other hmem => h.pendings other (hsub.subset hmem)
    fresh := h.fresh.sublist hheld
    used := fun nonce hmem => h.used nonce (hheld.subset hmem)
    chats := fun chat hmem => (h.chats chat hmem).mono (fun _ h => h) ⟨fun _ h => h, fun _ h => h⟩ }

theorem noted (h : w.Kept crypto honest notes) (hhashed : note.Hashed crypto w.hashed) (hcaused : note.Caused crypto honest w.signed notes)
    (hfresh : ((notes ++ [note]).filterMap Note.spent ++ w.pendings.filterMap Pending.held).Nodup)
    (hused : ∀ nonce ∈ (notes ++ [note]).filterMap Note.spent ++ w.pendings.filterMap Pending.held, nonce ∈ w.nonces) :
    World.Kept crypto honest (notes ++ [note]) w where
  signed key packet hmem := (h.signed key packet hmem).mono (List.subset_append_left _ _)
  pendings := h.pendings
  fresh := hfresh
  used := hused
  hashed other hmem := by
    rcases List.mem_append.1 hmem with hmem | hmem
    · exact h.hashed other hmem
    · rw [List.mem_singleton.1 hmem]
      exact hhashed
  caused before other hsub := by
    rcases List.prefix_concat_iff.1 hsub with heq | hearlier
    · obtain ⟨rfl, hlast⟩ := List.append_inj' heq rfl
      cases hlast
      exact hcaused
    · exact h.caused before other hearlier
  chats chat hmem := (h.chats chat hmem).mono (List.subset_append_left _ _) ⟨fun _ h => h, fun _ h => h⟩

theorem noted_unspent (h : w.Kept crypto honest notes) (note : Note) (hhashed : note.Hashed crypto w.hashed)
    (hcaused : note.Caused crypto honest w.signed notes) (hspent : note.spent = none) : World.Kept crypto honest (notes ++ [note]) w := by
  have heq : (notes ++ [note]).filterMap Note.spent = notes.filterMap Note.spent := by
    rw [List.filterMap_append, List.filterMap_cons_none hspent, List.filterMap_nil, List.append_nil]
  exact h.noted hhashed hcaused (heq ▸ h.fresh) (heq ▸ h.used)

theorem noted_spent {before after : List Pending} {pending : Pending} {nonce : Bytes32 × Bytes32} (h : w.Kept crypto honest notes)
    (hpendings : w.pendings = before ++ pending :: after) (note : Note) (hhashed : note.Hashed crypto w.hashed)
    (hcaused : note.Caused crypto honest w.signed notes) (hheld : pending.held = some nonce) (hspent : note.spent = some nonce) :
    World.Kept crypto honest (notes ++ [note]) { w with pendings := before ++ after } := by
  have hspent' : (notes ++ [note]).filterMap Note.spent = notes.filterMap Note.spent ++ [nonce] := by
    rw [List.filterMap_append, List.filterMap_cons_some hspent, List.filterMap_nil]
  have hpendings' : w.pendings.filterMap Pending.held = before.filterMap Pending.held ++ nonce :: after.filterMap Pending.held := by
    rw [hpendings, List.filterMap_append, List.filterMap_cons_some hheld]
  have hperm : ((notes ++ [note]).filterMap Note.spent ++ (before ++ after).filterMap Pending.held).Perm
      (notes.filterMap Note.spent ++ w.pendings.filterMap Pending.held) := by
    rw [hspent', hpendings', List.filterMap_append, List.append_assoc, List.singleton_append]
    exact List.perm_middle.symm.append_left _
  exact (h.dropped hpendings).noted hhashed hcaused (hperm.nodup_iff.2 h.fresh) fun other hmem => h.used other (hperm.mem_iff.1 hmem)

theorem established {chat : Chat} (h : w.Kept crypto honest notes) (hchat : chat.Kept crypto honest notes w) :
    World.Kept crypto honest notes { w with chats := chat :: w.chats } := by
  refine { h with chats := fun other hmem => ?_ }
  have hkept : other.Kept crypto honest notes w := by
    rcases List.mem_cons.1 hmem with rfl | hmem
    · exact hchat
    · exact h.chats other hmem
  exact hkept.mono (fun _ h => h) ⟨fun _ h => h, fun _ h => h⟩

end World.Kept

/-! ### Steps -/

theorem handshake_ne_envelope : (handshakeDomain.take 8 ≠ envelopeDomain.take 8) ∧ 8 ≤ handshakeDomain.length ∧ 8 ≤ envelopeDomain.length := by
  decide +kernel

theorem envelope_other {claim : SignedEnvelope} {transcript : List UInt8} (h : claim.transcript = .ok transcript) :
    ¬ handshakeDomain <+: transcript := by
  simp only [SignedEnvelope.transcript, bind_eq_ok] at h
  obtain ⟨_, -, h⟩ := h
  cases h
  rintro ⟨rest, heq⟩
  have hfront := congrArg (List.take 8) heq
  rw [List.take_append_of_le_length handshake_ne_envelope.2.1, List.take_append_of_le_length handshake_ne_envelope.2.2] at hfront
  exact handshake_ne_envelope.1 hfront

theorem Pairing.packet_eq {pairing : Pairing} {packet : Packet} (h : packet.pairing = pairing.digest crypto) :
    (pairing.packet crypto packet.kind packet.initiatorNonce packet.responderNonce).transcript = packet.transcript ∧
      (pairing.packet crypto packet.kind packet.initiatorNonce packet.responderNonce).sessionBytes = packet.sessionBytes := by
  simp only [Pairing.packet, Packet.transcript, Packet.unsigned, Packet.sessionBytes, h]
  exact ⟨rfl, trivial⟩

theorem Answers.signed {pending : Pending} {packet : Packet} {key : Bytes32} {raw : List UInt8} {kind : UInt8} (h : Answers crypto pending packet key)
    (hhonest : honest key) (hunforged : Unforged crypto honest w.signed raw) (hpacket : Packet.decode raw kind = .ok packet) :
    (key, packet.transcript) ∈ w.signed :=
  hunforged key packet.transcript packet.signature hhonest (.inl ⟨kind, packet, hpacket, rfl, rfl⟩) h.signature

namespace World.Kept

theorem step_initiated {pairing : Pairing} {key : SigningKey} {nonce : Bytes32} {pending : Pending} (h : w.Kept crypto honest notes)
    (hopens : Opens crypto pairing .initiator hello key pending) : World.Kept crypto honest notes { w with
      signed := (key.verifyingKey, pending.packet.transcript) :: w.signed
      nonces := (key.verifyingKey, nonce) :: w.nonces
      hashed := pairing.bytes :: w.hashed
      pendings := pending :: w.pendings } := by
  obtain ⟨rfl, hside, hkind, hdigest, -⟩ := hopens
  have hvouched : Vouched crypto notes key.verifyingKey pending.packet :=
    ⟨fun h => absurd (hkind.symm.trans h) (by decide), fun h => absurd (hkind.symm.trans h) (by decide)⟩
  refine (((h.hash [pending.pairing.bytes]).sign fun packet htranscript => hvouched.congr htranscript).use (key.verifyingKey, nonce)).opened
    hdigest List.mem_cons_self fun held hheld => ?_
  rw [Pending.held, hside] at hheld
  cases hheld

theorem step_responded {pairing : Pairing} {key : SigningKey} {nonce : Bytes32} {pending : Pending} (h : w.Kept crypto honest notes)
    (hfresh : (key.verifyingKey, nonce) ∉ w.nonces) (hopens : Opens crypto pairing .responder response key pending)
    (hnonce : pending.packet.responderNonce = nonce) :
    World.Kept crypto honest (notes ++ [.responded pairing pending.packet.initiatorNonce nonce]) { w with
      signed := (key.verifyingKey, pending.packet.transcript) :: w.signed
      nonces := (key.verifyingKey, nonce) :: w.nonces
      hashed := pairing.bytes :: w.hashed
      pendings := pending :: w.pendings } := by
  obtain ⟨rfl, hside, hkind, hdigest, hkey⟩ := hopens
  subst hnonce
  have hnoted := (h.hash [pending.pairing.bytes]).noted_unspent (.responded pending.pairing pending.packet.initiatorNonce
    pending.packet.responderNonce) List.mem_cons_self trivial rfl
  have hvouched : Vouched crypto (notes ++ [.responded pending.pairing pending.packet.initiatorNonce pending.packet.responderNonce])
      key.verifyingKey pending.packet :=
    ⟨fun _ => ⟨pending.pairing, List.mem_append_right _ List.mem_cons_self, hdigest.symm, hkey.symm⟩,
      fun h => absurd (hkind.symm.trans h) (by decide)⟩
  refine ((hnoted.sign fun packet htranscript => hvouched.congr htranscript).use (key.verifyingKey, pending.packet.responderNonce)).opened
    hdigest List.mem_cons_self fun held hheld => ?_
  rw [Pending.held, hside] at hheld
  cases hheld
  have hown : key.verifyingKey = pending.pairing.responder := hkey
  rw [← hown]
  exact ⟨List.mem_cons_self, fun hmem => hfresh (hnoted.used _ hmem)⟩

theorem established_kept {pending : Pending} {packet : Packet} {now : UInt64} {session : ChatSession}
    (hestablish : ChatSession.establish crypto pending.pairing pending.role (packet.sessionId crypto) now = .ok session)
    (hnote : ∃ a b, match pending.role with
      | .initiator => .confirmed pending.pairing a b (packet.sessionId crypto) ∈ notes
      | .responder => .finished pending.pairing a b (packet.sessionId crypto) ∈ notes) :
    Chat.Kept crypto honest notes w ⟨pending.role, packet.sessionId crypto, now, session, []⟩ := by
  obtain ⟨hsound, hpairing⟩ := Chat.Sound.establish hestablish
  rw [← hpairing] at hnote
  exact ⟨hsound, hnote, fun _ _ _ hmem => (nomatch hmem), fun _ hmem => (nomatch hmem)⟩

theorem step_confirmed {before after : List Pending} {pending : Pending} {key : SigningKey} {raw sent : List UInt8} {now : UInt64} {packet : Packet}
    {session : ChatSession} (h : w.Kept crypto honest notes) (hpendings : w.pendings = before ++ pending :: after)
    (hunforged : Unforged crypto honest w.signed raw) (hconfirm : pending.confirm crypto raw key now = .ok (session, sent))
    (hpacket : Packet.decode raw response = .ok packet) :
    World.Kept crypto honest (notes ++ [.confirmed pending.pairing packet.initiatorNonce packet.responderNonce (packet.sessionId crypto)]) { w with
      signed := (key.verifyingKey, { packet with kind := confirm }.transcript) :: w.signed
      hashed := packet.sessionBytes :: w.hashed
      pendings := before ++ after
      chats := ⟨pending.role, packet.sessionId crypto, now, session, []⟩ :: w.chats } := by
  obtain ⟨hrole, hkey, hanswers, hestablish⟩ := confirm_spec hconfirm hpacket
  have hpending : pending ∈ w.pendings := by rw [hpendings]; exact List.mem_append_right _ List.mem_cons_self
  obtain ⟨hdigest, hbytes⟩ := h.pendings pending hpending
  have hkind : packet.kind = response := (Packet.decode_eq_ok.1 hpacket).2.tag
  obtain ⟨htranscript, hsession⟩ := Pairing.packet_eq (hanswers.digest.trans hdigest)
  rw [hkind] at htranscript
  have hhash := h.hash [packet.sessionBytes]
  have hnoted := hhash.noted_unspent (.confirmed pending.pairing packet.initiatorNonce packet.responderNonce (packet.sessionId crypto))
    ⟨List.mem_cons_of_mem _ hbytes, List.mem_cons.2 (.inl hsession), by rw [Packet.sessionId, Packet.sessionId]; exact hsession ▸ rfl⟩
    (fun hhonest => by
      have hsigned := hanswers.signed hhonest hunforged hpacket
      obtain ⟨pairing', hresponded, hsame, -⟩ := (h.signed _ packet hsigned).response hkind
      exact ⟨htranscript ▸ hsigned, pairing', hresponded, hsame.trans (hanswers.digest.trans hdigest)⟩) rfl
  have hlast : .confirmed pending.pairing packet.initiatorNonce packet.responderNonce (packet.sessionId crypto) ∈
      notes ++ [.confirmed pending.pairing packet.initiatorNonce packet.responderNonce (packet.sessionId crypto)] :=
    List.mem_append_right _ List.mem_cons_self
  have hvouched : Vouched crypto (notes ++ [.confirmed pending.pairing packet.initiatorNonce packet.responderNonce (packet.sessionId crypto)])
      key.verifyingKey { packet with kind := confirm } :=
    ⟨fun h => absurd (show confirm = response from h) (by decide), fun _ => ⟨pending.pairing, hlast, (hanswers.digest.trans hdigest).symm, hkey.symm⟩⟩
  refine ((hnoted.sign fun packet htranscript => hvouched.congr htranscript).dropped hpendings).established (established_kept hestablish ?_)
  rw [hrole]
  exact ⟨_, _, hlast⟩

theorem step_finished {before after : List Pending} {pending : Pending} {raw : List UInt8} {now : UInt64} {packet : Packet} {session : ChatSession}
    (h : w.Kept crypto honest notes) (hpendings : w.pendings = before ++ pending :: after) (hunforged : Unforged crypto honest w.signed raw)
    (hfinish : pending.finish crypto raw now = .ok session) (hpacket : Packet.decode raw confirm = .ok packet) :
    World.Kept crypto honest (notes ++ [.finished pending.pairing packet.initiatorNonce packet.responderNonce (packet.sessionId crypto)]) { w with
      hashed := packet.sessionBytes :: w.hashed
      pendings := before ++ after
      chats := ⟨pending.role, packet.sessionId crypto, now, session, []⟩ :: w.chats } := by
  obtain ⟨hrole, hnonce, hanswers, hestablish⟩ := finish_spec hfinish hpacket
  have hpending : pending ∈ w.pendings := by rw [hpendings]; exact List.mem_append_right _ List.mem_cons_self
  obtain ⟨hdigest, hbytes⟩ := h.pendings pending hpending
  have hkind : packet.kind = confirm := (Packet.decode_eq_ok.1 hpacket).2.tag
  obtain ⟨-, hsession⟩ := Pairing.packet_eq (hanswers.digest.trans hdigest)
  have hheld : pending.held = some (pending.pairing.responder, packet.responderNonce) := by rw [Pending.held, hrole, hnonce]
  have hnoted := (h.hash [packet.sessionBytes]).noted_spent hpendings
    (.finished pending.pairing packet.initiatorNonce packet.responderNonce (packet.sessionId crypto))
    ⟨List.mem_cons_of_mem _ hbytes, List.mem_cons.2 (.inl hsession), by rw [Packet.sessionId, Packet.sessionId]; exact hsession ▸ rfl⟩
    (fun hhonest => by
      have hsigned := hanswers.signed hhonest hunforged hpacket
      obtain ⟨pairing', hconfirmed, hsame, -⟩ := (h.signed _ packet hsigned).confirm hkind
      exact ⟨pairing', hconfirmed, hsame.trans (hanswers.digest.trans hdigest)⟩) hheld rfl
  refine hnoted.established (established_kept hestablish ?_)
  rw [hrole]
  exact ⟨_, _, List.mem_append_right _ List.mem_cons_self⟩

theorem step_other {key : Bytes32} {message : List UInt8} (h : w.Kept crypto honest notes) (hother : ¬ handshakeDomain <+: message) :
    World.Kept crypto honest notes { w with signed := (key, message) :: w.signed } :=
  h.sign fun _ htranscript => absurd (htranscript ▸ List.prefix_append _ _) hother

theorem step_chat {before after : List Chat} {chat : Chat} {event : ChatEvent} {session : ChatSession} (h : w.Kept crypto honest notes)
    (hchats : w.chats = before ++ chat :: after) (hstep : ChatStep crypto (Unforged crypto honest w.signed) chat.session event session) :
    World.Kept crypto honest notes { w with
      hashed := event.hashes chat ++ w.hashed
      chats := before ++ chat.extend event session :: after } := by
  have hall : before ++ chat :: after ⊆ w.chats := hchats ▸ fun _ h => h
  have hkept := h.chats chat (hall (List.mem_append_right _ List.mem_cons_self))
  have hhash := h.hash (event.hashes chat)
  have hpairing : session.pairing = chat.session.pairing := hstep.pairing
  refine { hhash with chats := fun other hmem => ?_ }
  suffices hnew : (chat.extend event session).Kept crypto honest notes { w with hashed := event.hashes chat ++ w.hashed } by
    have hother : other.Kept crypto honest notes { w with hashed := event.hashes chat ++ w.hashed } := by
      rcases List.mem_append.1 hmem with hmem | hmem
      · exact hhash.chats other (hall (List.mem_append_left _ hmem))
      · rcases List.mem_cons.1 hmem with rfl | hmem
        · exact hnew
        · exact hhash.chats other (hall (List.mem_append_right _ (List.mem_cons_of_mem _ hmem)))
    exact hother.mono (fun _ h => h) ⟨fun _ h => h, fun _ h => h⟩
  have hchat := hhash.chats chat (hall (List.mem_append_right _ List.mem_cons_self))
  refine ⟨hkept.sound.step hstep, ?_, fun hhonest now claim hmem => ?_, ?_⟩
  · unfold Chat.Established Chat.extend
    dsimp only
    rw [hpairing]
    exact hkept.established
  · rw [Chat.extend, hpairing] at hhonest ⊢
    rcases List.mem_append.1 hmem with hmem | hmem
    · exact hkept.signed hhonest now claim hmem
    · cases List.mem_singleton.1 hmem
      obtain ⟨raw, transcript, hunforged, hdecode, htranscript, hverify⟩ := hstep.signature
      rw [hkept.sound.peer] at hverify
      exact ⟨transcript, htranscript, hunforged _ _ _ hhonest (.inr ⟨claim, hdecode, htranscript, rfl⟩) hverify⟩
  · refine forall_history event (fun earlier hearlier input hinput => hchat.hashed earlier hearlier input hinput) fun input hinput => ?_
    exact List.mem_append_left _ hinput

theorem step (h : w.Kept crypto honest notes) (hstep : Step crypto honest w notes' w') : w'.Kept crypto honest (notes ++ notes') := by
  cases hstep with
  | initiated _ _ hinitiate =>
    rw [List.append_nil]
    exact h.step_initiated (initiate_spec hinitiate)
  | responded _ hfresh _ hrespond => exact h.step_responded hfresh (respond_spec hrespond).1 (respond_spec hrespond).2
  | confirmed hpendings _ hunforged hconfirm hpacket => exact h.step_confirmed hpendings hunforged hconfirm hpacket
  | finished hpendings hunforged hfinish hpacket => exact h.step_finished hpendings hunforged hfinish hpacket
  | dropped hpendings =>
    rw [List.append_nil]
    exact h.dropped hpendings
  | signed _ _ htranscript =>
    rw [List.append_nil]
    exact h.step_other (envelope_other htranscript)
  | other _ hother =>
    rw [List.append_nil]
    exact h.step_other hother
  | chat hchats hstep =>
    rw [List.append_nil]
    exact h.step_chat hchats hstep

theorem start : World.Kept crypto honest [] {} where
  signed _ _ hmem := nomatch hmem
  pendings _ hmem := nomatch hmem
  fresh := .nil
  used _ hmem := nomatch hmem
  hashed _ hmem := nomatch hmem
  caused _ _ hsub := absurd (List.prefix_nil.1 hsub) (List.append_ne_nil_of_right_ne_nil _ (List.cons_ne_nil _ _))
  chats _ hmem := nomatch hmem

theorem run (h : Steps (Step crypto honest) {} notes w) : w.Kept crypto honest notes :=
  h.recorded start fun _ _ _ _ hkept hstep => hkept.step hstep

end World.Kept

/-! ### Agreement -/

theorem Pairing.digest_free {hashed : List (List UInt8)} {p q : Pairing} (hfree : CollisionFree crypto hashed) (hp : p.bytes ∈ hashed)
    (hq : q.bytes ∈ hashed) (h : p.digest crypto = q.digest crypto) : p = q :=
  Pairing.bytes_inj (hfree _ hp _ hq (congrArg (fun digest : Bytes32 => digest.toList.take 16) h))

theorem take_of_fromBe {x y : Bytes32} (h : (fromBe (x.toList.take 16) : BitVec 128) = fromBe (y.toList.take 16)) :
    x.toList.take 16 = y.toList.take 16 := by
  have hlen : ∀ v : Bytes32, (v.toList.take 16).length = bytes (BitVec 128) := fun v => by
    rw [List.length_take, Vector.length_toList]
    rfl
  rw [← toBe_fromBe (hlen x), h, toBe_fromBe (hlen y)]

theorem sessionId_free {hashed : List (List UInt8)} {p q : Pairing} {a b c d : Bytes32} {id : SessionId} (hfree : CollisionFree crypto hashed)
    (hp : (Note.finished p a b id).Hashed crypto hashed) (hq : (Note.finished q c d id).Hashed crypto hashed) : p = q ∧ a = c ∧ b = d := by
  obtain ⟨hp, hpsession, hpid⟩ := hp
  obtain ⟨hq, hqsession, hqid⟩ := hq
  have hbytes := hfree _ hpsession _ hqsession (take_of_fromBe (SessionId.mk.inj (hpid.symm.trans hqid)))
  obtain ⟨hdigest, ha, hb⟩ := Packet.sessionBytes_inj hbytes
  exact ⟨Pairing.digest_free hfree hp hq hdigest, ha, hb⟩

theorem finished_nodup (h : w.Kept crypto honest notes) (hfree : CollisionFree crypto w.hashed) : (notes.filterMap Note.finishedId).Nodup := by
  have hspent : (notes.filterMap Note.spent).Pairwise (· ≠ ·) := (List.nodup_append.1 h.fresh).1
  rw [List.pairwise_filterMap] at hspent
  refine List.pairwise_filterMap.2 (hspent.imp_of_mem fun {first later} hfirst hlater hne id hid id' hid' => ?_)
  rintro rfl
  cases first with
  | responded => cases hid
  | confirmed => cases hid
  | finished p a b =>
    cases later with
    | responded => cases hid'
    | confirmed => cases hid'
    | finished q c d =>
      cases hid
      cases hid'
      obtain ⟨rfl, rfl, rfl⟩ := sessionId_free hfree (h.hashed _ hfirst) (h.hashed _ hlater)
      exact hne _ rfl _ rfl rfl

/-- What the record of a chat session shows. -/
structure Chat.Agrees (crypto : Crypto) (honest : Bytes32 → Prop) (notes : List Note) (w : World) (chat : Chat) : Prop where
  established : chat.Established notes
  received : ∀ now claim, .accepted now claim ∈ chat.history → Received crypto chat now claim
  /-- The peer signed it, unless the peer's key is the attacker's. -/
  signed : honest (chat.session.pairing.remote chat.role) → ∀ now claim, .accepted now claim ∈ chat.history →
    ∃ transcript, claim.transcript = .ok transcript ∧ (chat.session.pairing.remote chat.role, transcript) ∈ w.signed
  accepted : (chat.history.filterMap ChatEvent.accepts).Pairwise fun claim claim' => claim.envelope.sequence < claim'.envelope.sequence
  prepared : (chat.history.filterMap ChatEvent.prepares).Pairwise fun envelope envelope' =>
    envelope.sequence < envelope'.sequence ∧ envelope.event ≠ envelope'.event
  timely : ∀ before event, before ++ [event] <+: chat.history → event.succeeds →
    ChatEvent.Clean chat.start chat.session.pairing.expiresAt (before ++ [event])

theorem Chat.Kept.agrees {chat : Chat} (h : chat.Kept crypto honest notes w) (hfree : CollisionFree crypto w.hashed) :
    chat.Agrees crypto honest notes w where
  established := h.established
  received := h.sound.received
  signed := h.signed
  accepted := List.pairwise_filterMap.2 (h.sound.ordered.imp fun hbefore claim hclaim claim' hclaim' => hbefore.accepted claim claim' hclaim hclaim')
  prepared := by
    refine List.pairwise_filterMap.2 (h.sound.ordered.imp_of_mem fun {first later} hfirst hlater hbefore envelope henvelope envelope' henvelope' => ?_)
    have hless := hbefore.prepared envelope envelope' henvelope henvelope'
    refine ⟨hless, fun hevent => UInt64.ne_of_lt hless ?_⟩
    have hinput : ∀ event ∈ chat.history, ∀ envelope, event.prepares = some envelope →
        ChatSession.eventBytes chat.id envelope.author envelope.sequence ∈ w.hashed := by
      intro event hmem envelope hprepares
      refine h.hashed event hmem _ ?_
      cases event with
      | prepared =>
        cases hprepares
        exact List.mem_singleton.2 rfl
      | accepted => cases hprepares
      | refused => cases hprepares
      | closed => cases hprepares
    rw [(h.sound.prepared _ hfirst _ henvelope).2.1, (h.sound.prepared _ hlater _ henvelope').2.1] at hevent
    exact ChatSession.eventBytes_inj (hfree _ (hinput _ hfirst _ henvelope) _ (hinput _ hlater _ henvelope')
      (take_of_fromBe (EventId.mk.inj hevent)))
  timely := h.sound.timely

/-- A responder that finishes was confirmed before by its initiator, an initiator that confirms was answered before by its
responder, no two finished sessions share an identifier, and every session admits its peer's chat only. -/
theorem paired_sessions_agree (h : Steps (Step crypto honest) {} notes w) (hfree : CollisionFree crypto w.hashed) :
    (∀ before pairing a b id, before ++ [.finished pairing a b id] <+: notes → honest pairing.initiator →
      .confirmed pairing a b id ∈ before) ∧
    (notes.filterMap Note.finishedId).Nodup ∧
    (∀ before pairing a b id, before ++ [.confirmed pairing a b id] <+: notes → honest pairing.responder →
      .responded pairing a b ∈ before ∧ (pairing.responder, (pairing.packet crypto response a b).transcript) ∈ w.signed) ∧
    ∀ chat ∈ w.chats, chat.Agrees crypto honest notes w := by
  have hkept := World.Kept.run h
  have hlast : ∀ {before : List Note} {note : Note}, before ++ [note] <+: notes → note ∈ notes := fun hsub =>
    hsub.subset (List.mem_append_right _ List.mem_cons_self)
  refine ⟨fun before pairing a b id hsub hhonest => ?_, finished_nodup hkept hfree, fun before pairing a b id hsub hhonest => ?_,
    fun chat hchat => (hkept.chats chat hchat).agrees hfree⟩
  · obtain ⟨pairing', hconfirmed, hdigest⟩ := hkept.caused _ _ hsub hhonest
    have hbefore := hkept.hashed _ (hsub.subset (List.mem_append_left _ hconfirmed))
    rwa [Pairing.digest_free hfree hbefore.1 (hkept.hashed _ (hlast hsub)).1 hdigest] at hconfirmed
  · obtain ⟨hsigned, pairing', hresponded, hdigest⟩ := hkept.caused _ _ hsub hhonest
    have hbefore : pairing'.bytes ∈ w.hashed := hkept.hashed _ (hsub.subset (List.mem_append_left _ hresponded))
    rw [Pairing.digest_free hfree hbefore (hkept.hashed _ (hlast hsub)).1 hdigest] at hresponded
    exact ⟨hresponded, hsigned⟩

end

/-! ### A run of two parties -/

def sampleAlice : Bytes32 := beVector 32 0x8a88e3dd7409f195fd52db2d3cba5d72ca6709bf1d94121bf3748801b40f6f5c
def sampleBob : Bytes32 := beVector 32 0x8139770ea87d175f56a35466c34c7ecccb8d8a91b4ee37a25df60f5b8fc9b394
def sampleAliceTransport : Bytes32 := beVector 32 0xed4928c628d1c2c6eae90338905995612959273a5c63f93636c14614ac8737d1
def sampleBobTransport : Bytes32 := beVector 32 0xca93ac1705187071d67b83c7ff0efe8108e8ec4530575d7726879333dbdabe7c
def sampleDigest : Bytes32 := beVector 32 0x096bfd7dd7a78033b3d20bfc88d54feca21e42000fa658c348b781a086ca95b9
def sampleSession : Bytes32 := beVector 32 0x83abff2d48ff92d36764c9b4b27f1b8e1967d1f97250b9b75e3987af4747688d
def sampleAliceId : Bytes32 := beVector 32 0x34750f98bd59fcfc946da45aaabe933be154a4b5094e1c4abf42866505f3c97e
def sampleBobId : Bytes32 := beVector 32 0x6a3803d5f059902a1c6dafbc9ba4729212f7caac08634cc3ae76b27529f03827
def sampleEvent : Bytes32 := beVector 32 0xae8ebbe74fb51787b45b454eaae7cb3281b1e3eaceb41e9fb90f7c9bcdc1a11b

def sampleHelloSignature : Signature := beVector 64
  0x70f47960f91d15319ea9a9ce141f34b058e45f48e5a819fff4abf510b058482004512e5c9a76c00411c224d4d000a2f14cba8ab6ae3da03add279f96ab345e05

def sampleResponseSignature : Signature := beVector 64
  0x0a704351aabc49d7d345be36d86863dc114626b0b1f7f77c3c1054d498cd1d439423e27dda01a1e21004b83963930c7393e6026ae2bcb76b5ad15b7150d0e40f

def sampleConfirmSignature : Signature := beVector 64
  0xce3612e25315dbdc5e7748cdf133b9de151d758cacbe6b823730342e2f3ef519908e032bfe4993c37f10aeaf6d09cc3d5bc61104c89ffd04b1627c2510cb4107

def sampleChatSignature : Signature := beVector 64
  0x11bc4862557fda1e144f8716a79180f549c01ed6ec0ea8499518a9cd2ba6f6aa808e56efb6c8bfdb52db36547ec84ad3edc576d2d0b6363918e14c79b4eae00c

def samplePairing : Pairing := ⟨sampleAlice, sampleBob, sampleAliceTransport, sampleBobTransport, ⟨7⟩, ⟨9⟩, 1, 1000⟩

def sampleNonce (role : Role) : Bytes32 :=
  match role with
  | .initiator => Vector.replicate 32 5
  | .responder => Vector.replicate 32 6

def samplePacket (kind : UInt8) (responderNonce : Bytes32) (signature : Signature) : Packet :=
  ⟨kind, sampleDigest, sampleNonce .initiator, responderNonce, signature⟩

def sampleHello : Packet := samplePacket hello zeroBytes sampleHelloSignature
def sampleResponse : Packet := samplePacket response (sampleNonce .responder) sampleResponseSignature
def sampleConfirm : Packet := samplePacket confirm (sampleNonce .responder) sampleConfirmSignature

def sampleId (hash : Bytes32) : BitVec 128 := fromBe (hash.toList.take 16)

def sampleEnvelope : Envelope :=
  ⟨kindChat, ⟨sampleId sampleAliceId⟩, ⟨7⟩, ⟨9⟩, ⟨sampleId sampleEvent⟩, 1, [104, 105], by decide⟩

def sampleClaim : SignedEnvelope := ⟨sampleEnvelope, ⟨sampleId sampleBobId⟩, 1, ⟨sampleId sampleSession⟩, 1000, sampleChatSignature⟩

def sampleTable : List (Bytes32 × List UInt8 × Signature) :=
  [(sampleAlice, sampleHello.transcript, sampleHelloSignature), (sampleBob, sampleResponse.transcript, sampleResponseSignature),
    (sampleAlice, sampleConfirm.transcript, sampleConfirmSignature),
    (sampleAlice, envelopeDomain ++ sampleClaim.encodeUnsigned, sampleChatSignature)]

def sampleSigner (key : Bytes32) : SigningKey where
  verifyingKey := key
  sign message := ((sampleTable.find? fun entry => entry.1 == key && entry.2.1 == message).map (·.2.2)).getD (Vector.replicate 64 0)

def sampleCrypto : Crypto where
  sha256 message :=
    if message = samplePairing.bytes then sampleDigest
    else if message = sampleAlice.toList then sampleAliceId
    else if message = sampleBob.toList then sampleBobId
    else if message.take eventDomain.length = eventDomain then sampleEvent
    else sampleSession
  decodesKey key := [sampleAlice, sampleBob, sampleAliceTransport, sampleBobTransport].contains key
  isWeak _ := false
  verifyStrict key message signature := sampleTable.contains (key, message, signature)

def sampleHonest (key : Bytes32) : Prop := key = sampleAlice ∨ key = sampleBob

def sampleRaw (packet : Packet) : List UInt8 := packet.unsigned ++ packet.signature.toList

theorem sample_unforged {raw : List UInt8} {signed : List (Bytes32 × List UInt8)}
    (hclaims : ((SignedEnvelope.decode raw).toOption.all fun claim => decide (claim.signature.toList <:+ raw)) = true)
    (htable : (sampleTable.all fun entry => !decide (entry.2.2.toList <:+ raw) || signed.contains (entry.1, entry.2.1)) = true) :
    Unforged sampleCrypto sampleHonest signed raw := by
  intro key message signature _ hcarries hverify
  have hsuffix : signature.toList <:+ raw := by
    rcases hcarries with ⟨kind, packet, hdecode, -, rfl⟩ | ⟨claim, hdecode, -, rfl⟩
    · rw [(Packet.decode_eq_ok.1 hdecode).1]
      exact List.suffix_append _ _
    · rw [hdecode] at hclaims
      exact of_decide_eq_true hclaims
  have hentry := List.all_eq_true.1 htable _ (List.contains_iff_mem.1 hverify)
  rw [decide_eq_true hsuffix, Bool.not_true, Bool.false_or] at hentry
  exact List.contains_iff_mem.1 hentry

def samplePending (role : Role) : Pending :=
  match role with
  | .initiator => ⟨samplePairing, role, samplePacket hello zeroBytes (Vector.replicate 64 0), 10, 500⟩
  | .responder => ⟨samplePairing, role, samplePacket response (sampleNonce .responder) sampleHelloSignature, 11, 500⟩

def sampleFrame : List UInt8 := sampleClaim.encodeUnsigned ++ sampleChatSignature.toList

def sampleAnswered : World where
  signed := [(sampleBob, (samplePending .responder).packet.transcript), (sampleAlice, (samplePending .initiator).packet.transcript)]
  nonces := [(sampleBob, sampleNonce .responder), (sampleAlice, sampleNonce .initiator)]
  hashed := [samplePairing.bytes, samplePairing.bytes]
  pendings := [samplePending .responder, samplePending .initiator]

def sampleSessionId : SessionId := sampleConfirm.sessionId sampleCrypto

def sampleSigned : List (Bytes32 × List UInt8) := (sampleAlice, sampleConfirm.transcript) :: sampleAnswered.signed

def sampleConfirmed (alice : ChatSession) : World where
  signed := sampleSigned
  nonces := sampleAnswered.nonces
  hashed := sampleConfirm.sessionBytes :: sampleAnswered.hashed
  pendings := [samplePending .responder]
  chats := [⟨.initiator, sampleSessionId, 12, alice, []⟩]

def sampleFinished (alice bob : ChatSession) : World where
  signed := sampleSigned
  nonces := sampleAnswered.nonces
  hashed := sampleConfirm.sessionBytes :: (sampleConfirmed alice).hashed
  pendings := []
  chats := ⟨.responder, sampleSessionId, 13, bob, []⟩ :: (sampleConfirmed alice).chats

def sampleNotes : List Note :=
  [.responded samplePairing (sampleNonce .initiator) (sampleNonce .responder),
    .confirmed samplePairing (sampleNonce .initiator) (sampleNonce .responder) sampleSessionId,
    .finished samplePairing (sampleNonce .initiator) (sampleNonce .responder) sampleSessionId]

def sampleTranscript : List UInt8 := envelopeDomain ++ sampleClaim.encodeUnsigned

/-- What the two parties compute along the run, and what its packets carry. -/
structure SampleRun : Prop where
  initiated : Pending.initiate sampleCrypto samplePairing (sampleSigner sampleAlice) sampleAliceTransport sampleBobTransport
    (sampleNonce .initiator) 10 500 = .ok (samplePending .initiator, sampleRaw sampleHello)
  fresh : (sampleBob, sampleNonce .responder) ∉ [(sampleAlice, sampleNonce .initiator)]
  responded : Pending.respond sampleCrypto samplePairing (sampleSigner sampleBob) sampleBobTransport sampleAliceTransport
    (sampleRaw sampleHello) (sampleNonce .responder) 11 500 = .ok (samplePending .responder, sampleRaw sampleResponse)
  response : Packet.decode (sampleRaw sampleResponse) Session.response = .ok sampleResponse
  confirm : Packet.decode (sampleRaw sampleConfirm) Session.confirm = .ok sampleConfirm
  signed : sign sampleCrypto sampleEnvelope sampleClaim.audience 1 sampleClaim.session 1000 (sampleSigner sampleAlice) = .ok sampleClaim
  transcript : sampleClaim.transcript = .ok sampleTranscript
  frame : SignedEnvelope.decode sampleFrame = .ok sampleClaim
  helloUnforged : Unforged sampleCrypto sampleHonest [(sampleAlice, (samplePending .initiator).packet.transcript)] (sampleRaw sampleHello)
  responseUnforged : Unforged sampleCrypto sampleHonest sampleAnswered.signed (sampleRaw sampleResponse)
  confirmUnforged : Unforged sampleCrypto sampleHonest sampleSigned (sampleRaw sampleConfirm)
  frameUnforged : Unforged sampleCrypto sampleHonest ((sampleAlice, sampleTranscript) :: sampleSigned) sampleFrame

theorem sample_run : SampleRun where
  initiated := by decide +kernel
  fresh := by decide +kernel
  responded := by decide +kernel
  response := by decide +kernel
  confirm := by decide +kernel
  signed := by decide +kernel
  transcript := by decide +kernel
  frame := by decide +kernel
  helloUnforged := sample_unforged (by decide +kernel) (by decide +kernel)
  responseUnforged := sample_unforged (by decide +kernel) (by decide +kernel)
  confirmUnforged := sample_unforged (by decide +kernel) (by decide +kernel)
  frameUnforged := sample_unforged (by decide +kernel) (by decide +kernel)

theorem sample_answered : Steps (Step sampleCrypto sampleHonest) {} (sampleNotes.take 1) sampleAnswered := by
  have hfirst : Step sampleCrypto sampleHonest {} [] { ({} : World) with
      signed := [(sampleAlice, (samplePending .initiator).packet.transcript)]
      nonces := [(sampleAlice, sampleNonce .initiator)]
      hashed := [samplePairing.bytes]
      pendings := [samplePending .initiator] } := .initiated (.inl rfl) List.not_mem_nil sample_run.initiated
  exact (Steps.single hfirst).tail (.responded (.inr rfl) sample_run.fresh sample_run.helloUnforged sample_run.responded)

theorem sample_finished {alice bob : ChatSession} {sent : List UInt8}
    (halice : (samplePending .initiator).confirm sampleCrypto (sampleRaw sampleResponse) (sampleSigner sampleAlice) 12 = .ok (alice, sent))
    (hbob : (samplePending .responder).finish sampleCrypto (sampleRaw sampleConfirm) 13 = .ok bob) :
    Steps (Step sampleCrypto sampleHonest) {} sampleNotes (sampleFinished alice bob) := by
  have hconfirmed : Step sampleCrypto sampleHonest sampleAnswered
      [.confirmed samplePairing (sampleNonce .initiator) (sampleNonce .responder) sampleSessionId] (sampleConfirmed alice) :=
    .confirmed (show sampleAnswered.pendings = [samplePending .responder] ++ samplePending .initiator :: [] from rfl) (.inl rfl)
      sample_run.responseUnforged halice sample_run.response
  have hfinished : Step sampleCrypto sampleHonest (sampleConfirmed alice)
      [.finished samplePairing (sampleNonce .initiator) (sampleNonce .responder) sampleSessionId] (sampleFinished alice bob) :=
    .finished (show (sampleConfirmed alice).pendings = [] ++ samplePending .responder :: [] from rfl) sample_run.confirmUnforged hbob
      sample_run.confirm
  exact (sample_answered.tail hconfirmed).tail hfinished

theorem sample_chat {alice alice' bob bob' : ChatSession} {verified : VerifiedEnvelope}
    (hprepare : exec (ChatSession.prepareChat sampleCrypto [104, 105] 13) alice = (.ok sampleEnvelope, alice'))
    (hreceive : exec (ChatSession.receive sampleCrypto sampleFrame 14) bob = (.ok verified, bob')) :
    Steps (Step sampleCrypto sampleHonest) (sampleFinished alice bob) [] { sampleFinished alice bob with
      signed := (sampleAlice, sampleTranscript) :: sampleSigned
      hashed := ChatSession.eventBytes sampleSessionId sampleEnvelope.author sampleEnvelope.sequence :: (sampleFinished alice bob).hashed
      chats := [⟨.responder, sampleSessionId, 13, bob', [.accepted 14 sampleClaim]⟩,
        ⟨.initiator, sampleSessionId, 12, alice', [.prepared 13 sampleEnvelope]⟩] } := by
  have hprepared : Step sampleCrypto sampleHonest (sampleFinished alice bob) [] { sampleFinished alice bob with
      hashed := ChatSession.eventBytes sampleSessionId sampleEnvelope.author sampleEnvelope.sequence :: (sampleFinished alice bob).hashed
      chats := [⟨.responder, sampleSessionId, 13, bob, []⟩, ⟨.initiator, sampleSessionId, 12, alice', [.prepared 13 sampleEnvelope]⟩] } :=
    .chat (show (sampleFinished alice bob).chats = [⟨.responder, sampleSessionId, 13, bob, []⟩] ++
      ⟨.initiator, sampleSessionId, 12, alice, []⟩ :: [] from rfl) (.prepared hprepare)
  have hchats : ∀ after : Chat, [⟨.responder, sampleSessionId, 13, bob, []⟩, after] =
    [] ++ (⟨.responder, sampleSessionId, 13, bob, []⟩ : Chat) :: [after] := fun _ => rfl
  have haccepted := Step.chat (w := { sampleFinished alice bob with
    signed := (sampleAlice, sampleTranscript) :: sampleSigned
    hashed := ChatSession.eventBytes sampleSessionId sampleEnvelope.author sampleEnvelope.sequence :: (sampleFinished alice bob).hashed
    chats := [⟨.responder, sampleSessionId, 13, bob, []⟩, ⟨.initiator, sampleSessionId, 12, alice', [.prepared 13 sampleEnvelope]⟩] })
    (hchats _) (.accepted sample_run.frameUnforged hreceive sample_run.frame)
  exact ((Steps.single hprepared).tail (.signed (.inl rfl) sample_run.signed sample_run.transcript)).tail haccepted

theorem sample_paired_sessions : ∃ w, Steps (Step sampleCrypto sampleHonest) {} sampleNotes w ∧ CollisionFree sampleCrypto w.hashed ∧
    (∃ chat ∈ w.chats, chat.role = .responder ∧ chat.history = [.accepted 14 sampleClaim]) ∧
    ∀ chat ∈ w.chats, chat.Agrees sampleCrypto sampleHonest sampleNotes w := by
  have hconfirm : (((samplePending .initiator).confirm sampleCrypto (sampleRaw sampleResponse) (sampleSigner sampleAlice) 12).toOption.map
      fun result => (exec (ChatSession.prepareChat sampleCrypto [104, 105] 13) result.1).1) = some (.ok sampleEnvelope) := by decide +kernel
  have hfinish : (((samplePending .responder).finish sampleCrypto (sampleRaw sampleConfirm) 13).toOption.map
      fun session => (exec (ChatSession.receive sampleCrypto sampleFrame 14) session).1.isOk) = some true := by decide +kernel
  cases halice : (samplePending .initiator).confirm sampleCrypto (sampleRaw sampleResponse) (sampleSigner sampleAlice) 12 with
  | error e =>
    rw [halice] at hconfirm
    cases hconfirm
  | ok result =>
    obtain ⟨alice, sent⟩ := result
    cases hbob : (samplePending .responder).finish sampleCrypto (sampleRaw sampleConfirm) 13 with
    | error e =>
      rw [hbob] at hfinish
      cases hfinish
    | ok bob =>
      rw [halice] at hconfirm
      rw [hbob] at hfinish
      have hprepared := Option.some.inj hconfirm
      have hreceived := Option.some.inj hfinish
      rcases hprepare : exec (ChatSession.prepareChat sampleCrypto [104, 105] 13) alice with ⟨prepared, alice'⟩
      rcases hreceive : exec (ChatSession.receive sampleCrypto sampleFrame 14) bob with ⟨received, bob'⟩
      dsimp only at hprepared hreceived
      rw [hprepare] at hprepared
      rw [hreceive] at hreceived
      cases hprepared
      cases received with
      | error e => cases hreceived
      | ok verified =>
        have hrun := (sample_finished halice hbob).trans (sample_chat hprepare hreceive)
        rw [List.append_nil] at hrun
        have hfree : CollisionFree sampleCrypto [ChatSession.eventBytes sampleSessionId sampleEnvelope.author sampleEnvelope.sequence,
            sampleConfirm.sessionBytes, sampleConfirm.sessionBytes, samplePairing.bytes, samplePairing.bytes] := by
          unfold CollisionFree
          decide +kernel
        exact ⟨_, hrun, hfree, ⟨_, List.mem_cons_self, rfl, rfl⟩, (paired_sessions_agree hrun hfree).2.2.2⟩

end Valhalla.Session
