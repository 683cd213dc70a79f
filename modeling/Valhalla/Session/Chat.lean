import Valhalla.Session.Handshake

/-!
# What a chat session admits

A session with the record of its calls. While it is open its clock has only gone forward and not past the pairing's
expiry; everything it accepted or prepared stands in the order of its sequences.
-/

namespace Valhalla.Session
open Fallible FixedWidth Check

/-- One call of a session: what it returned, and when. -/
inductive ChatEvent
  | prepared (now : UInt64) (envelope : Envelope)
  | accepted (now : UInt64) (signed : SignedEnvelope)
  | refused (now : UInt64)
  | closed
deriving DecidableEq

namespace ChatEvent

/-- The clock that the call was given. -/
def time : ChatEvent → Option UInt64
  | .prepared now _ => some now
  | .accepted now _ => some now
  | .refused now => some now
  | .closed => none

def prepares : ChatEvent → Option Envelope
  | .prepared _ envelope => some envelope
  | _ => none

def accepts : ChatEvent → Option SignedEnvelope
  | .accepted _ signed => some signed
  | _ => none

/-- The call returned something. -/
def succeeds : ChatEvent → Bool
  | .prepared _ _ | .accepted _ _ => true
  | .refused _ | .closed => false

structure Before (first later : ChatEvent) : Prop where
  accepted : ∀ signed signed', first.accepts = some signed → later.accepts = some signed' →
    signed.envelope.sequence < signed'.envelope.sequence
  prepared : ∀ envelope envelope', first.prepares = some envelope → later.prepares = some envelope' → envelope.sequence < envelope'.sequence

/-- The session was not closed, and its clock went forward only and not past the expiry. -/
structure Clean (start expiresAt : UInt64) (history : List ChatEvent) : Prop where
  opened : .closed ∉ history
  clocks : (start :: history.filterMap time).Pairwise (· ≤ ·)
  unexpired : ∀ t ∈ history.filterMap time, t ≤ expiresAt

theorem Clean.snoc {start expiresAt now : UInt64} {history : List ChatEvent} {event : ChatEvent} (h : Clean start expiresAt history)
    (htime : event.time = some now) (hforward : ∀ t ∈ start :: history.filterMap time, t ≤ now) (hunexpired : now ≤ expiresAt) :
    Clean start expiresAt (history ++ [event]) := by
  have htimes : (history ++ [event]).filterMap time = history.filterMap time ++ [now] := by
    rw [List.filterMap_append, List.filterMap_cons_some htime, List.filterMap_nil]
  refine ⟨fun hmem => ?_, ?_, fun t ht => ?_⟩
  · rcases List.mem_append.1 hmem with hmem | hmem
    · exact h.opened hmem
    · rw [← List.mem_singleton.1 hmem] at htime
      cases htime
  · rw [htimes, ← List.cons_append]
    exact List.pairwise_append.2 ⟨h.clocks, List.pairwise_singleton _ _, fun t ht _ hnow => List.mem_singleton.1 hnow ▸ hforward t ht⟩
  · rw [htimes] at ht
    rcases List.mem_append.1 ht with ht | ht
    · exact h.unexpired t ht
    · rw [List.mem_singleton.1 ht]
      exact hunexpired

end ChatEvent

/-! ### One call -/

namespace ChatSession
variable {crypto : Crypto} {session session' : ChatSession} {now : UInt64}

structure Live (session : ChatSession) (now : UInt64) : Prop where
  opened : session.closed = false
  forward : session.lastNow ≤ now
  unexpired : now ≤ session.pairing.expiresAt

/-- What a call leaves behind that does not succeed: the clock of a live session, or a closed one. -/
def Refused (session : ChatSession) (now : UInt64) (session' : ChatSession) : Prop :=
  session.Live now ∧ session' = { session with lastNow := now } ∨ session' = { session with closed := true }

theorem checkLive_cases {result : Except Reject Unit} (h : exec (checkLive now) session = (result, session')) :
    (result = .ok () ∧ session.Live now ∧ session' = { session with lastNow := now }) ∨
      ∃ e, result = .error e ∧ session' = { session with closed := true } := by
  rw [checkLive, exec_examine_bind] at h
  cases hclosed : session.closed with
  | true =>
    rw [hclosed] at h
    cases h
    exact .inr ⟨_, rfl, by rw [← hclosed]⟩
  | false =>
    rw [hclosed] at h
    have hview : exec (view id >>= fun s : ChatSession =>
        if now < s.lastNow then do
          update fun session => { session with closed := true }
          throw Reject.clockRollback
        else if s.pairing.expiresAt < now then do
          update fun session => { session with closed := true }
          throw Reject.expired
        else update fun session => { session with lastNow := now }) session = (result, session') := h
    rw [exec_bind, exec_view] at hview
    dsimp only [id] at hview
    split at hview
    · cases hview
      exact .inr ⟨_, rfl, rfl⟩
    · rename_i hforward
      split at hview
      · cases hview
        exact .inr ⟨_, rfl, rfl⟩
      · rename_i hunexpired
        cases hview
        exact .inl ⟨rfl, ⟨hclosed, UInt64.not_lt.1 hforward, UInt64.not_lt.1 hunexpired⟩, by rw [← hclosed]⟩

/-- A prepared envelope takes the next sequence. -/
structure Prepares (crypto : Crypto) (session : ChatSession) (now : UInt64) (envelope : Envelope) (session' : ChatSession) : Prop where
  live : session.Live now
  author : envelope.author = session.inbound.context.audience
  event : envelope.event = eventId crypto session.outbound.session session.inbound.context.audience session.nextSequence
  sequence : envelope.sequence = session.nextSequence
  next : session'.nextSequence.toNat = session.nextSequence.toNat + 1
  rest : session' = { session with lastNow := now, nextSequence := session'.nextSequence }

theorem prepareChat_cases {body : List UInt8} {result : Except Reject Envelope} (h : exec (prepareChat crypto body now) session = (result, session')) :
    (∃ envelope, result = .ok envelope ∧ Prepares crypto session now envelope session') ∨ ∃ e, result = .error e ∧ session.Refused now session' := by
  rw [prepareChat, exec_bind] at h
  rcases hlive : exec (checkLive now) session with ⟨live, mid⟩
  rw [hlive] at h
  rcases checkLive_cases hlive with ⟨rfl, hopen, rfl⟩ | ⟨e, rfl, rfl⟩
  · dsimp only at h
    rw [exec_examine_bind] at h
    split at h
    · rw [exec_examine_bind] at h
      split at h
      · rename_i next hnext
        rw [exec_examine_bind] at h
        split at h
        · rename_i envelope henvelope
          cases h
          rw [okOr_eq_ok] at henvelope
          rw [okOr_eq_ok, checkedAdd_eq_some] at hnext
          simp only [Envelope.chat, Envelope.new] at henvelope
          split at henvelope
          · cases henvelope
            exact .inl ⟨_, rfl, hopen, rfl, rfl, rfl, hnext, rfl⟩
          · cases henvelope
        · cases h
          exact .inr ⟨_, rfl, .inl ⟨hopen, rfl⟩⟩
      · cases h
        exact .inr ⟨_, rfl, .inl ⟨hopen, rfl⟩⟩
    · cases h
      exact .inr ⟨_, rfl, .inl ⟨hopen, rfl⟩⟩
  · cases h
    exact .inr ⟨e, rfl, .inr rfl⟩

structure Accepts (crypto : Crypto) (session : ChatSession) (now : UInt64) (signed : SignedEnvelope) (session' : ChatSession) : Prop where
  live : session.Live now
  kind : signed.envelope.kind = kindChat
  audience : signed.audience = session.inbound.context.audience
  realm : signed.envelope.realm = session.inbound.context.realm
  room : signed.envelope.room = session.inbound.context.room
  epoch : signed.epoch = session.inbound.context.epoch
  id : signed.session = session.inbound.context.session
  unexpired : now ≤ signed.expiresAt
  lifetime : signed.expiresAt ≤ session.pairing.expiresAt
  signature : ∃ transcript, signed.transcript = .ok transcript ∧ crypto.verifyStrict session.peer transcript signed.signature = true
  newer : ∀ last, session.inbound.last[session.peer]? = some last → last < signed.envelope.sequence
  rest : session' = { session with
    lastNow := now
    inbound := { session.inbound with last := session.inbound.last.insert session.peer signed.envelope.sequence } }

/-- The window changes by an admission only. -/
theorem verifyAndAccept_cases {window window' : ReplayWindow} {signed : SignedEnvelope} {key : Bytes32}
    {result : Except VerifyError VerifiedEnvelope} (h : exec (ReplayWindow.verifyAndAccept crypto signed key now) window = (result, window')) :
    (result = .ok ⟨signed.envelope, key, window.context, signed.expiresAt⟩ ∧ window.verify crypto signed key now = .ok () ∧
      window.admits key signed.envelope.sequence = .ok () ∧
      window' = { window with last := window.last.insert key signed.envelope.sequence }) ∨
    ∃ e, result = .error e ∧ window' = window := by
  rw [ReplayWindow.verifyAndAccept, exec_examine_bind] at h
  split at h
  · rename_i hverify
    rw [exec_examine_bind] at h
    split at h
    · rename_i hadmits
      cases h
      exact .inl ⟨rfl, hverify, hadmits, rfl⟩
    · cases h
      exact .inr ⟨_, rfl, rfl⟩
  · cases h
    exact .inr ⟨_, rfl, rfl⟩

theorem receive_cases {raw : List UInt8} {result : Except Reject VerifiedEnvelope} (h : exec (receive crypto raw now) session = (result, session')) :
    (∃ signed verified, result = .ok verified ∧ SignedEnvelope.decode raw = .ok signed ∧ Accepts crypto session now signed session') ∨
      ∃ e, result = .error e ∧ session.Refused now session' := by
  rw [receive, exec_bind] at h
  rcases hlive : exec (checkLive now) session with ⟨live, mid⟩
  rw [hlive] at h
  rcases checkLive_cases hlive with ⟨rfl, hopen, rfl⟩ | ⟨e, rfl, rfl⟩
  · dsimp only at h
    rw [exec_examine_bind] at h
    split at h
    · rename_i signed hchecked
      rcases hadmit : exec (ReplayWindow.verifyAndAccept crypto signed session.peer now) session.inbound with ⟨answer, inbound⟩
      have hrun : exec (admitClaim crypto signed now) { session with lastNow := now } =
          (answer.mapError .verify, { session with lastNow := now, inbound }) := by
        simp only [admitClaim, exec_of, hadmit]
      rw [hrun] at h
      rcases verifyAndAccept_cases hadmit with ⟨rfl, hverify, hadmits, rfl⟩ | ⟨e, rfl, rfl⟩
      · cases h
        simp only [checkReceived, bind_eq_ok, mapError_eq_ok, require_eq_ok, beq_iff_eq, decide_eq_true_eq] at hchecked
        obtain ⟨claim, hdecode, _, hkind, _, hlifetime, hclaim⟩ := hchecked
        cases hclaim
        simp only [ReplayWindow.verify, bind_eq_ok, mapError_eq_ok, require_eq_ok, beq_iff_eq, decide_eq_true_eq] at hverify
        obtain ⟨_, -, _, -, _, -, _, haudience, _, hrealm, _, hroom, _, hepoch, _, hid, _, hunexpired, transcript, htranscript, hsignature⟩ := hverify
        refine .inl ⟨signed, _, rfl, hdecode, hopen, hkind, haudience, hrealm, hroom, hepoch, hid, hunexpired, hlifetime,
          ⟨transcript, htranscript, hsignature⟩, fun last hlast => ?_, rfl⟩
        rw [ReplayWindow.admits, hlast] at hadmits
        simpa using hadmits
      · cases h
        exact .inr ⟨_, rfl, .inl ⟨hopen, rfl⟩⟩
    · cases h
      exact .inr ⟨_, rfl, .inl ⟨hopen, rfl⟩⟩
  · cases h
    exact .inr ⟨e, rfl, .inr rfl⟩

end ChatSession

/-! ### A session and its record -/

/-- A chat session, how it was established, and its calls so far. -/
structure Chat where
  role : Role
  id : SessionId
  start : UInt64
  session : ChatSession
  history : List ChatEvent

/-- The peer's signature on the envelope's transcript was seen. -/
def SignedBy (crypto : Crypto) (key : Bytes32) (signed : SignedEnvelope) : Prop :=
  ∃ transcript, signed.transcript = .ok transcript ∧ crypto.verifyStrict key transcript signed.signature = true

def contextOf (crypto : Crypto) (pairing : Pairing) (role : Role) (id : SessionId) : VerificationContext :=
  ⟨peerIdFromKey crypto (pairing.own role), pairing.realm, pairing.room, pairing.epoch, id⟩

/-- What an accepted envelope shows: chat in this context, from the peer, within the lifetimes. -/
structure Received (crypto : Crypto) (chat : Chat) (now : UInt64) (signed : SignedEnvelope) : Prop where
  kind : signed.envelope.kind = kindChat
  context : (⟨signed.audience, signed.envelope.realm, signed.envelope.room, signed.epoch, signed.session⟩ : VerificationContext) =
    contextOf crypto chat.session.pairing chat.role chat.id
  started : chat.start ≤ now
  unexpired : now ≤ signed.expiresAt
  lifetime : signed.expiresAt ≤ chat.session.pairing.expiresAt
  signature : SignedBy crypto (chat.session.pairing.remote chat.role) signed

/-- What holds of a session with its record. -/
structure Chat.Sound (crypto : Crypto) (chat : Chat) : Prop where
  context : chat.session.inbound.context = contextOf crypto chat.session.pairing chat.role chat.id
  outbound : chat.session.outbound.session = chat.id
  peer : chat.session.peer = chat.session.pairing.remote chat.role
  started : chat.start ≤ chat.session.lastNow
  received : ∀ now signed, .accepted now signed ∈ chat.history → Received crypto chat now signed
  ordered : chat.history.Pairwise ChatEvent.Before
  timely : ∀ before event, before ++ [event] <+: chat.history → event.succeeds →
    ChatEvent.Clean chat.start chat.session.pairing.expiresAt (before ++ [event])
  /-- An open session has seen nothing but good clocks. -/
  opened : chat.session.closed = false → ChatEvent.Clean chat.start chat.session.pairing.expiresAt chat.history ∧
    ∀ t ∈ chat.start :: chat.history.filterMap ChatEvent.time, t ≤ chat.session.lastNow
  last : ∀ event ∈ chat.history, ∀ signed, event.accepts = some signed →
    ∃ last, chat.session.inbound.last[chat.session.peer]? = some last ∧ signed.envelope.sequence ≤ last
  prepared : ∀ event ∈ chat.history, ∀ envelope, event.prepares = some envelope →
    envelope.author = peerIdFromKey crypto (chat.session.pairing.own chat.role) ∧
      envelope.event = ChatSession.eventId crypto chat.id envelope.author envelope.sequence ∧
      envelope.sequence < chat.session.nextSequence

/-- One call of a session that gets these bytes from the network. -/
inductive ChatStep (crypto : Crypto) (delivers : List UInt8 → Prop) : ChatSession → ChatEvent → ChatSession → Prop
  | prepared {session session' : ChatSession} {body : List UInt8} {now : UInt64} {envelope : Envelope} :
    exec (ChatSession.prepareChat crypto body now) session = (.ok envelope, session') →
    ChatStep crypto delivers session (.prepared now envelope) session'
  | unprepared {session session' : ChatSession} {body : List UInt8} {now : UInt64} {e : Reject} :
    exec (ChatSession.prepareChat crypto body now) session = (.error e, session') → ChatStep crypto delivers session (.refused now) session'
  | accepted {session session' : ChatSession} {raw : List UInt8} {now : UInt64} {verified : VerifiedEnvelope} {signed : SignedEnvelope} :
    delivers raw → exec (ChatSession.receive crypto raw now) session = (.ok verified, session') → SignedEnvelope.decode raw = .ok signed →
    ChatStep crypto delivers session (.accepted now signed) session'
  | refused {session session' : ChatSession} {raw : List UInt8} {now : UInt64} {e : Reject} :
    delivers raw → exec (ChatSession.receive crypto raw now) session = (.error e, session') → ChatStep crypto delivers session (.refused now) session'
  | closed {session : ChatSession} : ChatStep crypto delivers session .closed session.close

/-! ### Every call keeps the record sound -/

section
variable {crypto : Crypto} {chat : Chat} {session' : ChatSession} {now : UInt64} {event : ChatEvent}

def Chat.extend (chat : Chat) (event : ChatEvent) (session' : ChatSession) : Chat :=
  { chat with session := session', history := chat.history ++ [event] }

theorem forall_history {p : ChatEvent → Prop} (event : ChatEvent) (h : ∀ e ∈ chat.history, p e) (hevent : p event) : ∀ e ∈ chat.history ++ [event], p e := by
  intro e he
  rcases List.mem_append.1 he with he | he
  · exact h e he
  · rw [List.mem_singleton.1 he]
    exact hevent

theorem Chat.Sound.clean_live (h : chat.Sound crypto) (event : ChatEvent) (hlive : chat.session.Live now) (htime : event.time = some now) :
    ChatEvent.Clean chat.start chat.session.pairing.expiresAt (chat.history ++ [event]) ∧
      ∀ t ∈ chat.start :: (chat.history ++ [event]).filterMap ChatEvent.time, t ≤ now := by
  obtain ⟨hclean, htimes⟩ := h.opened hlive.opened
  have hforward : ∀ t ∈ chat.start :: chat.history.filterMap ChatEvent.time, t ≤ now := fun t ht => UInt64.le_trans (htimes t ht) hlive.forward
  refine ⟨hclean.snoc htime hforward hlive.unexpired, fun t ht => ?_⟩
  rw [List.filterMap_append, List.filterMap_cons_some htime, List.filterMap_nil, ← List.cons_append] at ht
  rcases List.mem_append.1 ht with ht | ht
  · exact hforward t ht
  · rw [List.mem_singleton.1 ht]
    exact UInt64.le_refl _

/-- The parts of a session that no call changes, and its clock. -/
structure ChatSession.Follows (session session' : ChatSession) : Prop where
  pairing : session'.pairing = session.pairing
  peer : session'.peer = session.peer
  context : session'.inbound.context = session.inbound.context
  outbound : session'.outbound = session.outbound
  forward : session.lastNow ≤ session'.lastNow

theorem Received.extend {signed : SignedEnvelope} (h : Received crypto chat now signed) (hpairing : session'.pairing = chat.session.pairing) :
    Received crypto (chat.extend event session') now signed :=
  ⟨h.kind, by rw [h.context, Chat.extend, hpairing], h.started, h.unexpired, by rw [Chat.extend, hpairing]; exact h.lifetime,
    by rw [Chat.extend, hpairing]; exact h.signature⟩

theorem Chat.Sound.extend (h : chat.Sound crypto) (hfollows : chat.session.Follows session')
    (hreceived : ∀ now signed, event = .accepted now signed → Received crypto chat now signed)
    (hordered : ∀ e ∈ chat.history, e.Before event)
    (hclean : (event.succeeds ∨ session'.closed = false) → ChatEvent.Clean chat.start chat.session.pairing.expiresAt (chat.history ++ [event]) ∧
      ∀ t ∈ chat.start :: (chat.history ++ [event]).filterMap ChatEvent.time, t ≤ session'.lastNow)
    (hlast : ∀ e ∈ chat.history ++ [event], ∀ signed, e.accepts = some signed →
      ∃ last, session'.inbound.last[chat.session.peer]? = some last ∧ signed.envelope.sequence ≤ last)
    (hprepared : ∀ e ∈ chat.history ++ [event], ∀ envelope, e.prepares = some envelope →
      envelope.author = peerIdFromKey crypto (chat.session.pairing.own chat.role) ∧
        envelope.event = ChatSession.eventId crypto chat.id envelope.author envelope.sequence ∧
        envelope.sequence < session'.nextSequence) : (chat.extend event session').Sound crypto where
  context := by rw [Chat.extend, hfollows.context, h.context, hfollows.pairing]
  outbound := by rw [Chat.extend, hfollows.outbound, h.outbound]
  peer := by rw [Chat.extend, hfollows.peer, h.peer, hfollows.pairing]
  started := UInt64.le_trans h.started hfollows.forward
  received := by
    intro now signed hmem
    rcases List.mem_append.1 hmem with hmem | hmem
    · exact (h.received now signed hmem).extend hfollows.pairing
    · exact (hreceived now signed (List.mem_singleton.1 hmem).symm).extend hfollows.pairing
  ordered := List.pairwise_append.2 ⟨h.ordered, List.pairwise_singleton _ _, fun e he _ hlater => List.mem_singleton.1 hlater ▸ hordered e he⟩
  timely := by
    intro before last hprefix hsucceeds
    rw [Chat.extend, hfollows.pairing]
    rcases List.prefix_concat_iff.1 hprefix with heq | hearlier
    · obtain ⟨rfl, hlast⟩ := List.append_inj' heq rfl
      cases hlast
      exact (hclean (.inl hsucceeds)).1
    · exact h.timely before last hearlier hsucceeds
  opened := by
    rw [Chat.extend, hfollows.pairing]
    exact fun hopen => hclean (.inr hopen)
  last := by
    rw [Chat.extend, hfollows.peer]
    exact hlast
  prepared := by
    rw [Chat.extend, hfollows.pairing]
    exact hprepared

theorem Chat.Sound.quiet (h : chat.Sound crypto) (hquiet : (∃ now, event = .refused now) ∨ event = .closed) (hfollows : chat.session.Follows session')
    (hinbound : session'.inbound = chat.session.inbound) (hnext : session'.nextSequence = chat.session.nextSequence)
    (hclean : session'.closed = false → ChatEvent.Clean chat.start chat.session.pairing.expiresAt (chat.history ++ [event]) ∧
      ∀ t ∈ chat.start :: (chat.history ++ [event]).filterMap ChatEvent.time, t ≤ session'.lastNow) : (chat.extend event session').Sound crypto := by
  have hfails : event.succeeds = false := by rcases hquiet with ⟨_, rfl⟩ | rfl <;> rfl
  have haccepts : event.accepts = none := by rcases hquiet with ⟨_, rfl⟩ | rfl <;> rfl
  have hprepares : event.prepares = none := by rcases hquiet with ⟨_, rfl⟩ | rfl <;> rfl
  refine h.extend hfollows (fun now' signed hevent => ?_) (fun e _ => ⟨fun _ _ _ hlater => ?_, fun _ _ _ hlater => ?_⟩)
    (fun hlive => hclean (hlive.resolve_left (by rw [hfails]; exact Bool.false_ne_true))) ?_ ?_
  · rw [hevent] at haccepts
    cases haccepts
  · rw [haccepts] at hlater
    cases hlater
  · rw [hprepares] at hlater
    cases hlater
  · rw [hinbound]
    refine forall_history _ h.last fun signed hsigned => ?_
    rw [haccepts] at hsigned
    cases hsigned
  · rw [hnext]
    refine forall_history _ h.prepared fun envelope henvelope => ?_
    rw [hprepares] at henvelope
    cases henvelope

theorem Chat.Sound.refused (h : chat.Sound crypto) (hrefused : chat.session.Refused now session') :
    (chat.extend (.refused now) session').Sound crypto := by
  rcases hrefused with ⟨hlive, rfl⟩ | rfl
  · exact h.quiet (.inl ⟨now, rfl⟩) ⟨rfl, rfl, rfl, rfl, hlive.forward⟩ rfl rfl fun _ => h.clean_live _ hlive rfl
  · exact h.quiet (.inl ⟨now, rfl⟩) ⟨rfl, rfl, rfl, rfl, UInt64.le_refl _⟩ rfl rfl fun hopen => (nomatch hopen)

theorem Chat.Sound.closed (h : chat.Sound crypto) : (chat.extend .closed chat.session.close).Sound crypto :=
  h.quiet (.inr rfl) ⟨rfl, rfl, rfl, rfl, UInt64.le_refl _⟩ rfl rfl fun hopen => (nomatch hopen)

theorem Chat.Sound.prepares {envelope : Envelope} (h : chat.Sound crypto) (hprepares : ChatSession.Prepares crypto chat.session now envelope session') :
    (chat.extend (.prepared now envelope) session').Sound crypto := by
  obtain ⟨hlive, hauthor, hevent, hsequence, hnext, hrest⟩ := hprepares
  have hlater : ∀ sequence : UInt64, sequence ≤ chat.session.nextSequence → sequence < session'.nextSequence := fun sequence hle => by
    rw [UInt64.le_iff_toNat_le] at hle
    rw [UInt64.lt_iff_toNat_lt]
    omega
  have hlast := forall_history (.prepared now envelope) h.last fun _ hsigned => (nomatch hsigned)
  have hprepared : ∀ e ∈ chat.history ++ [.prepared now envelope], ∀ claim, e.prepares = some claim →
      claim.author = peerIdFromKey crypto (chat.session.pairing.own chat.role) ∧
        claim.event = ChatSession.eventId crypto chat.id claim.author claim.sequence ∧ claim.sequence < session'.nextSequence := by
    refine forall_history _ (fun e he claim hclaim => ?_) fun claim hclaim => ?_
    · obtain ⟨hown, hid, hbelow⟩ := h.prepared e he claim hclaim
      exact ⟨hown, hid, hlater _ (UInt64.le_of_lt hbelow)⟩
    · cases hclaim
      rw [h.context] at hauthor
      rw [hsequence]
      exact ⟨hauthor, by rw [hevent, h.outbound, hauthor, h.context], hlater _ (UInt64.le_refl _)⟩
  have hclean := h.clean_live (.prepared now envelope) hlive rfl
  rw [hrest]
  rw [hrest] at hprepared
  refine h.extend ⟨rfl, rfl, rfl, rfl, hlive.forward⟩ (fun _ _ hevent => (nomatch hevent)) (fun e he => ⟨fun _ _ _ hsigned => (nomatch hsigned), fun claim claim' hclaim hclaim' => ?_⟩)
    (fun _ => hclean) hlast hprepared
  cases hclaim'
  rw [hsequence]
  exact (h.prepared e he claim hclaim).2.2

theorem Chat.Sound.accepts {signed : SignedEnvelope} (h : chat.Sound crypto) (haccepts : ChatSession.Accepts crypto chat.session now signed session') :
    (chat.extend (.accepted now signed) session').Sound crypto := by
  obtain ⟨hlive, hkind, haudience, hrealm, hroom, hepoch, hid, hunexpired, hlifetime, hsignature, hnewer, rfl⟩ := haccepts
  refine h.extend ⟨rfl, rfl, rfl, rfl, hlive.forward⟩ (fun now' signed' hevent => ?_) (fun e he => ?_)
    (fun _ => h.clean_live _ hlive rfl) ?_ ?_
  · cases hevent
    rw [h.context] at haudience hrealm hroom hepoch hid
    refine ⟨hkind, ?_, UInt64.le_trans h.started hlive.forward, hunexpired, hlifetime, h.peer ▸ hsignature⟩
    rw [haudience, hrealm, hroom, hepoch, hid]
  · refine ⟨fun claim claim' hclaim hclaim' => ?_, fun _ _ _ henvelope => (nomatch henvelope)⟩
    cases hclaim'
    obtain ⟨last, hlast, hle⟩ := h.last e he claim hclaim
    exact UInt64.lt_of_le_of_lt hle (hnewer last hlast)
  · refine forall_history _ (fun e he claim hclaim => ?_) fun claim hclaim => ?_
    · obtain ⟨last, hlast, hle⟩ := h.last e he claim hclaim
      exact ⟨_, Std.ExtTreeMap.getElem?_insert_self, UInt64.le_of_lt (UInt64.lt_of_le_of_lt hle (hnewer last hlast))⟩
    · cases hclaim
      exact ⟨_, Std.ExtTreeMap.getElem?_insert_self, UInt64.le_refl _⟩
  · exact forall_history _ h.prepared fun _ henvelope => (nomatch henvelope)

theorem Chat.Sound.step {delivers : List UInt8 → Prop} (h : chat.Sound crypto) (hstep : ChatStep crypto delivers chat.session event session') :
    (chat.extend event session').Sound crypto := by
  cases hstep with
  | prepared hprepare =>
    obtain ⟨_, heq, hprepares⟩ | ⟨_, heq, -⟩ := ChatSession.prepareChat_cases hprepare
    · cases heq
      exact h.prepares hprepares
    · cases heq
  | unprepared hprepare =>
    obtain ⟨_, heq, -⟩ | ⟨_, -, hrefused⟩ := ChatSession.prepareChat_cases hprepare
    · cases heq
    · exact h.refused hrefused
  | accepted _ hreceive hdecode =>
    obtain ⟨signed, _, -, hsigned, haccepts⟩ | ⟨_, heq, -⟩ := ChatSession.receive_cases hreceive
    · cases hdecode.symm.trans hsigned
      exact h.accepts haccepts
    · cases heq
  | refused _ hreceive =>
    obtain ⟨_, _, heq, -⟩ | ⟨_, -, hrefused⟩ := ChatSession.receive_cases hreceive
    · cases heq
    · exact h.refused hrefused
  | closed => exact h.closed

section
variable {delivers : List UInt8 → Prop} {session session' : ChatSession}

theorem ChatStep.pairing (hstep : ChatStep crypto delivers session event session') : session'.pairing = session.pairing := by
  have hrefused : ∀ now, session.Refused now session' → session'.pairing = session.pairing := by
    rintro now (⟨-, rfl⟩ | rfl) <;> rfl
  cases hstep with
  | prepared hprepare =>
    obtain ⟨_, -, hprepares⟩ | ⟨_, -, h⟩ := ChatSession.prepareChat_cases hprepare
    · rw [hprepares.rest]
    · exact hrefused _ h
  | unprepared hprepare =>
    obtain ⟨_, -, hprepares⟩ | ⟨_, -, h⟩ := ChatSession.prepareChat_cases hprepare
    · rw [hprepares.rest]
    · exact hrefused _ h
  | accepted _ hreceive =>
    obtain ⟨_, _, -, -, haccepts⟩ | ⟨_, -, h⟩ := ChatSession.receive_cases hreceive
    · rw [haccepts.rest]
    · exact hrefused _ h
  | refused _ hreceive =>
    obtain ⟨_, _, -, -, haccepts⟩ | ⟨_, -, h⟩ := ChatSession.receive_cases hreceive
    · rw [haccepts.rest]
    · exact hrefused _ h
  | closed => rfl

theorem ChatStep.signature {signed : SignedEnvelope} (hstep : ChatStep crypto delivers session (.accepted now signed) session') :
    ∃ raw transcript, delivers raw ∧ SignedEnvelope.decode raw = .ok signed ∧ signed.transcript = .ok transcript ∧
      crypto.verifyStrict session.peer transcript signed.signature = true := by
  cases hstep with
  | accepted hdelivers hreceive hdecode =>
    obtain ⟨claim, _, -, hclaim, haccepts⟩ | ⟨_, heq, -⟩ := ChatSession.receive_cases hreceive
    · cases hdecode.symm.trans hclaim
      obtain ⟨transcript, htranscript, hverify⟩ := haccepts.signature
      exact ⟨_, transcript, hdelivers, hdecode, htranscript, hverify⟩
    · cases heq

end

theorem Chat.Sound.establish {pairing : Pairing} {role : Role} {id : SessionId} {start : UInt64} {session : ChatSession}
    (h : ChatSession.establish crypto pairing role id start = .ok session) :
    Chat.Sound crypto ⟨role, id, start, session, []⟩ ∧ session.pairing = pairing := by
  simp only [ChatSession.establish, ReplayWindow.new, bind_eq_ok, mapError_eq_ok] at h
  obtain ⟨_, -, _, -, inbound, ⟨_, -, hinbound⟩, hsession⟩ := h
  cases hinbound
  cases hsession
  refine ⟨⟨rfl, rfl, rfl, UInt64.le_refl _, fun _ _ hmem => absurd hmem List.not_mem_nil, .nil, fun _ _ hmem _ => ?_,
    fun _ => ⟨⟨List.not_mem_nil, List.pairwise_singleton _ _, fun _ hmem => absurd hmem List.not_mem_nil⟩, fun t ht => ?_⟩, fun _ hmem => absurd hmem List.not_mem_nil, fun _ hmem => absurd hmem List.not_mem_nil⟩, rfl⟩
  · exact absurd (List.prefix_nil.1 hmem) (List.append_ne_nil_of_right_ne_nil _ (List.cons_ne_nil _ _))
  · rw [List.mem_singleton.1 ht]
    exact UInt64.le_refl _

end

end Valhalla.Session
