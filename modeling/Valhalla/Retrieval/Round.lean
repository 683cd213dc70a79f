import Valhalla.Lib.Trace
import Valhalla.Retrieval.Wire

/-!
# Providers and rounds (`lib.rs` of `vhalla-retrieval`)

A provider answers with one page of its archive at a time. A round accounts for what each of the selected peers sends,
and hands the records to the archive of the requester.
-/

namespace Valhalla.Retrieval
open Fallible FixedWidth Check
open Social (RecordId OwnerId PostRef CanonicalTag SyncCursor InputBudget Archive maxRecordBytes)

variable {crypto : Crypto}

/-- The local query engine (`vhalla-discovery`): the hits of a committed view, at most as many as asked for. -/
structure Search (crypto : Crypto) where
  find : Archive crypto → OwnerId → UInt64 → Query → Option CanonicalTag → Option (List PostRef)
  bounded : ∀ archive owner now query tag hits, find archive owner now query tag = some hits → hits.length ≤ maxHints

/-! ### Serving -/

structure Provider where
  request : Request
  cursor : SyncCursor
  sequence : UInt8

namespace Provider

def new (request : Request) : Provider := ⟨request, {}, 0⟩

def refresh (provider : Provider) (request : Request) : Except Error Provider := do
  require .context !(request.nonce != provider.request.nonce || request.realm != provider.request.realm ||
    request.query != provider.request.query || request.tag != provider.request.tag)
  pure { provider with request := { provider.request with known := request.known, valid := request.valid } }

def next (search : Search crypto) (provider : Provider) (archive : Archive crypto) (owner : OwnerId) (now : UInt64) :
    Except Error (Response × Provider) := do
  let request := provider.request
  require .context !(archive.realm != request.realm || decide (provider.sequence.toNat ≥ maxAttempts))
  let hits ← Check.okOr .evidence (search.find archive owner now request.query request.tag)
  let (page, cursor) ← (archive.nextPage request.known provider.cursor maxRecordsPerFrame
    (maxRecordsPerFrame * maxRecordBytes)).mapError fun _ => Error.evidence
  require .budget (provider.sequence != 255)
  pure (⟨request.nonce, request.realm, provider.sequence, Ascending.canonical compare hits, page.records, page.remaining⟩,
    ⟨request, cursor, provider.sequence + 1⟩)

end Provider

/-! ### Receiving -/

structure PeerStats where
  attempts : Nat := 0
  bytes : Nat := 0
  recordAttempts : Nat := 0
  accepted : Nat := 0
  duplicates : Nat := 0
  failures : Nat := 0
  providerRemaining : Nat := 0
deriving DecidableEq

abbrev HintSet := Std.ExtTreeSet PostRef compare

structure Peer where
  stats : PeerStats := {}
  next : UInt8 := 0
  hints : HintSet := ∅

structure Round where
  request : Request
  channel : ChannelScope
  peers : Std.ExtTreeMap Bytes32 Peer compare
  hints : HintSet := ∅
  lastPeer : Option Bytes32 := none

namespace Peer

def fail (peer : Peer) : Peer := { peer with stats := { peer.stats with failures := peer.stats.failures + 1 } }

/-- Sums of body sizes stay far below the width of a count: `saturating_add` never saturates. -/
def charge (peer : Peer) (bytes : Nat) : Except Error Unit × Peer :=
  if peer.stats.attempts ≥ maxAttempts then (.error .budget, peer)
  else
    let peer := { peer with stats := { peer.stats with attempts := peer.stats.attempts + 1, bytes := peer.stats.bytes + bytes } }
    if bytes > maxFrame ∨ peer.stats.bytes > maxFrame * maxAttempts then (.error .bounds, peer.fail) else (.ok (), peer)

def keepHint (s : Peer × HintSet) (hint : PostRef) : Peer × HintSet :=
  if s.1.hints.size < maxHints ∨ s.1.hints.contains hint then
    ({ s.1 with hints := s.1.hints.insert hint }, s.2.insert hint)
  else (s.1.fail, s.2)

def offer (s : Peer × Archive crypto) (raw : List UInt8) : Peer × Archive crypto :=
  let stats := { s.1.stats with recordAttempts := s.1.stats.recordAttempts + 1 }
  match exec (Archive.ingest raw) (s.2, ⟨1, maxRecordBytes⟩) with
  | (.ok _, archive, _) =>
    if archive.records.size = s.2.records.size then ({ s.1 with stats := { stats with duplicates := stats.duplicates + 1 } }, archive)
    else ({ s.1 with stats := { stats with accepted := stats.accepted + 1 } }, archive)
  | (.error _, archive, _) => ({ s.1 with stats := { stats with failures := stats.failures + 1 } }, archive)

example : InputBudget.new 1 maxRecordBytes = .ok ⟨1, maxRecordBytes⟩ := rfl

end Peer

def checkMessage (message : Session.VerifiedEnvelope) (pin : Bytes32) (channel : ChannelScope) (now : UInt64) : Except Error Unit :=
  require .context !(message.signerKey != pin || message.context.realm != channel.realm || message.context.room != channel.room ||
    message.context.epoch != channel.epoch || decide (message.expiresAt < now) || message.envelope.kind != Session.kindChat ||
    decide (message.envelope.body.length > maxFrame))

/-- What a received message can touch: its peer, the hints of the round and the archive. -/
structure Desk (crypto : Crypto) where
  peer : Peer
  hints : HintSet
  archive : Archive crypto

namespace Desk
variable (desk : Desk crypto)

def fail : Desk crypto := { desk with peer := desk.peer.fail }

def accept (response : Response) : Desk crypto :=
  let peer := { desk.peer with
    next := desk.peer.next + 1
    stats := { desk.peer.stats with providerRemaining := response.providerRemaining } }
  let (peer, hints) := response.hints.foldl Peer.keepHint (peer, desk.hints)
  let (peer, archive) := response.records.foldl Peer.offer (peer, desk.archive)
  ⟨peer, hints, archive⟩

/-- A charged body that came over the channel. -/
def unpack (request : Request) (raw : List UInt8) : Except Error Unit × Desk crypto :=
  match decodeResponse raw with
  | .error e => (.error e, desk.fail)
  | .ok response =>
    if response.nonce ≠ request.nonce ∨ response.realm ≠ request.realm ∨ response.sequence ≠ desk.peer.next then
      (.error .context, desk.fail)
    else if desk.peer.next = 255 then (.error .budget, desk)
    else (.ok (), desk.accept response)

def receive (request : Request) (channel : ChannelScope) (message : Session.VerifiedEnvelope) (now : UInt64) :
    Except Error Unit × Desk crypto :=
  match desk.peer.charge message.envelope.body.length with
  | (.error e, peer) => (.error e, { desk with peer := peer })
  | (.ok (), peer) =>
    let desk := { desk with peer := peer }
    if desk.archive.realm ≠ request.realm ∨ checkMessage message message.signerKey channel now ≠ .ok () then
      (.error .context, desk.fail)
    else desk.unpack request message.envelope.body

end Desk

namespace Round

def new (crypto : Crypto) (request : Request) (pins : List Bytes32) (channel : ChannelScope) : Except Error Round := do
  require .bounds !(pins.isEmpty || decide (pins.length > maxPeers) || !ascendingBy compare pins)
  pins.forM fun key => require .context (crypto.decodesKey key && !crypto.isWeak key)
  pure { request, channel, peers := Maps.insertAll id (fun _ => {}) ∅ pins }

variable (round : Round)

def nextPeer : Option Bytes32 × Round :=
  let pins := (round.peers.toList.filter fun p => decide (p.2.stats.attempts < maxAttempts)).map Prod.fst
  let next := Rotation.nextAfter compare pins round.lastPeer
  (next, { round with lastPeer := next })

def failed (pin : Bytes32) : Except Error Unit × Round :=
  match round.peers[pin]? with
  | none => (.error .context, round)
  | some peer =>
    match peer.charge 0 with
    | (.error e, peer) => (.error e, { round with peers := round.peers.insert pin peer })
    | (.ok (), peer) => (.ok (), { round with peers := round.peers.insert pin peer.fail })

def receive (archive : Archive crypto) (message : Session.VerifiedEnvelope) (now : UInt64) :
    Except Error Unit × Round × Archive crypto :=
  match round.peers[message.signerKey]? with
  | none => (.error .context, round, archive)
  | some peer =>
    let (result, desk) := (⟨peer, round.hints, archive⟩ : Desk crypto).receive round.request round.channel message now
    (result, { round with peers := round.peers.insert message.signerKey desk.peer, hints := desk.hints }, desk.archive)

end Round

/-! ### What a message does to its peer -/

/-- The account of a peer after one more attempt. -/
structure Touched (bytes : Nat) (peer peer' : Peer) : Prop where
  credit : peer.stats.attempts < maxAttempts
  attempts : peer'.stats.attempts = peer.stats.attempts + 1
  bytes : peer'.stats.bytes = peer.stats.bytes + bytes
  next : peer'.next = peer.next ∨ peer'.next = peer.next + 1
  hints : peer.hints.size ≤ maxHints → peer'.hints.size ≤ maxHints

namespace Peer

theorem charge_cases (peer : Peer) (bytes : Nat) :
    maxAttempts ≤ peer.stats.attempts ∧ peer.charge bytes = (.error .budget, peer) ∨
    ((peer.charge bytes).1 = .error .bounds ∨ (peer.charge bytes).1 = .ok () ∧ bytes ≤ maxFrame ∧
      (peer.charge bytes).2.stats.bytes ≤ maxFrame * maxAttempts) ∧
    Touched bytes peer (peer.charge bytes).2 ∧ (peer.charge bytes).2.next = peer.next ∧
      (peer.charge bytes).2.stats.providerRemaining = peer.stats.providerRemaining := by
  unfold charge
  by_cases hcredit : peer.stats.attempts ≥ maxAttempts
  · rw [if_pos hcredit]
    exact .inl ⟨hcredit, rfl⟩
  · rw [if_neg hcredit]
    have hlt := Nat.not_le.1 hcredit
    refine .inr ?_
    dsimp only
    split
    · exact ⟨.inl rfl, ⟨hlt, rfl, rfl, .inl rfl, fun h => h⟩, rfl, rfl⟩
    · rename_i hfits
      rw [not_or] at hfits
      exact ⟨.inr ⟨rfl, Nat.not_lt.1 hfits.1, Nat.not_lt.1 hfits.2⟩, ⟨hlt, rfl, rfl, .inl rfl, fun h => h⟩, rfl, rfl⟩

/-- What hints and inner records leave alone. -/
structure SameCredit (peer peer' : Peer) : Prop where
  attempts : peer'.stats.attempts = peer.stats.attempts
  bytes : peer'.stats.bytes = peer.stats.bytes
  next : peer'.next = peer.next
  remaining : peer'.stats.providerRemaining = peer.stats.providerRemaining

theorem SameCredit.trans {peer peer' peer'' : Peer} (h : SameCredit peer peer') (h' : SameCredit peer' peer'') : SameCredit peer peer'' :=
  ⟨h'.1.trans h.1, h'.2.trans h.2, h'.3.trans h.3, h'.4.trans h.4⟩

theorem keepHint_spec (s : Peer × HintSet) (hint : PostRef) :
    SameCredit s.1 (keepHint s hint).1 ∧ (s.1.hints.size ≤ maxHints → (keepHint s hint).1.hints.size ≤ maxHints) := by
  unfold keepHint
  split
  · rename_i hroom
    refine ⟨⟨rfl, rfl, rfl, rfl⟩, fun hsize => ?_⟩
    show (s.1.hints.insert hint).size ≤ maxHints
    rw [Std.ExtTreeSet.size_insert]
    split
    · exact hsize
    · rename_i hnew
      rw [Std.ExtTreeSet.contains_iff_mem] at hroom
      exact (hroom.resolve_right hnew)
  · exact ⟨⟨rfl, rfl, rfl, rfl⟩, fun hsize => hsize⟩

theorem keepHints_spec (hints : List PostRef) (s : Peer × HintSet) :
    SameCredit s.1 (hints.foldl keepHint s).1 ∧ (s.1.hints.size ≤ maxHints → (hints.foldl keepHint s).1.hints.size ≤ maxHints) := by
  induction hints generalizing s with
  | nil => exact ⟨⟨rfl, rfl, rfl, rfl⟩, fun hsize => hsize⟩
  | cons hint hints ih =>
    obtain ⟨hone, hsize⟩ := keepHint_spec s hint
    obtain ⟨hrest, hsizes⟩ := ih (keepHint s hint)
    exact ⟨hone.trans hrest, fun h => hsizes (hsize h)⟩

theorem offer_spec (s : Peer × Archive crypto) (raw : List UInt8) :
    SameCredit s.1 (offer s raw).1 ∧ (offer s raw).1.hints = s.1.hints ∧
      (offer s raw).2 = (exec (Archive.ingest raw) (s.2, ⟨1, maxRecordBytes⟩)).2.1 := by
  unfold offer
  rcases exec (Archive.ingest raw) (s.2, (⟨1, maxRecordBytes⟩ : InputBudget)) with ⟨_ | _, archive, budget⟩
  · exact ⟨⟨rfl, rfl, rfl, rfl⟩, rfl, rfl⟩
  · dsimp only
    split <;> exact ⟨⟨rfl, rfl, rfl, rfl⟩, rfl, rfl⟩

theorem offers_spec (records : List (List UInt8)) (s : Peer × Archive crypto) :
    SameCredit s.1 (records.foldl offer s).1 ∧ (records.foldl offer s).1.hints = s.1.hints := by
  induction records generalizing s with
  | nil => exact ⟨⟨rfl, rfl, rfl, rfl⟩, rfl⟩
  | cons raw records ih =>
    obtain ⟨hone, hhints, -⟩ := offer_spec s raw
    obtain ⟨hrest, hhintss⟩ := ih (offer s raw)
    exact ⟨hone.trans hrest, hhintss.trans hhints⟩

end Peer

def offered (archive : Archive crypto) (records : List (List UInt8)) : Archive crypto :=
  records.foldl (fun archive raw => (exec (Archive.ingest raw) (archive, ⟨1, maxRecordBytes⟩)).2.1) archive

theorem offered_eq (records : List (List UInt8)) (s : Peer × Archive crypto) :
    (records.foldl Peer.offer s).2 = offered s.2 records := by
  induction records generalizing s with
  | nil => rfl
  | cons raw records ih =>
    rw [List.foldl_cons, ih, (Peer.offer_spec s raw).2.2]
    rfl

namespace Desk
variable {desk : Desk crypto} {request : Request} {channel : ChannelScope} {message : Session.VerifiedEnvelope} {now : UInt64}

theorem accept_spec (desk : Desk crypto) (response : Response) :
    (desk.accept response).peer.stats.attempts = desk.peer.stats.attempts ∧
    (desk.accept response).peer.stats.bytes = desk.peer.stats.bytes ∧
    (desk.accept response).peer.next = desk.peer.next + 1 ∧
    (desk.accept response).peer.stats.providerRemaining = response.providerRemaining ∧
    (desk.peer.hints.size ≤ maxHints → (desk.accept response).peer.hints.size ≤ maxHints) ∧
    (desk.accept response).archive = offered desk.archive response.records := by
  unfold accept
  dsimp only
  generalize hpeer : ({ desk.peer with next := desk.peer.next + 1, stats := { desk.peer.stats with providerRemaining := response.providerRemaining } } : Peer) = peer
  obtain ⟨hkept, hsize⟩ := Peer.keepHints_spec response.hints (peer, desk.hints)
  obtain ⟨hoffered, hhints⟩ := Peer.offers_spec response.records ((response.hints.foldl Peer.keepHint (peer, desk.hints)).1, desk.archive)
  have hboth := hkept.trans hoffered
  have harchive := offered_eq response.records ((response.hints.foldl Peer.keepHint (peer, desk.hints)).1, desk.archive)
  subst hpeer
  exact ⟨hboth.attempts, hboth.bytes, hboth.next, hboth.remaining, fun h => by rw [hhints]; exact hsize h, harchive⟩

/-- A message costs its peer one attempt and the size of its body, unless the peer has no attempts left. -/
theorem receive_touched (desk : Desk crypto) (request : Request) (channel : ChannelScope) (message : Session.VerifiedEnvelope) (now : UInt64) :
    maxAttempts ≤ desk.peer.stats.attempts ∧ (desk.receive request channel message now).2.peer = desk.peer ∨
    Touched message.envelope.body.length desk.peer (desk.receive request channel message now).2.peer ∧
      ((desk.receive request channel message now).1 = .ok () →
        (desk.receive request channel message now).2.peer.stats.bytes ≤ maxFrame * maxAttempts) := by
  unfold receive
  obtain ⟨hspent, hbudget⟩ | ⟨hresult, htouched, hnext, -⟩ := desk.peer.charge_cases message.envelope.body.length
  · rw [hbudget]
    exact .inl ⟨hspent, rfl⟩
  · refine .inr ?_
    rcases hcharge : desk.peer.charge message.envelope.body.length with ⟨_ | ⟨⟩, peer⟩
    · rw [hcharge] at htouched
      exact ⟨htouched, fun h => (nomatch h)⟩
    · rw [hcharge] at hresult htouched hnext
      obtain ⟨-, -, hbytes⟩ := hresult.resolve_left fun h => (nomatch h)
      dsimp only at hbytes ⊢
      have hfail : Touched message.envelope.body.length desk.peer peer.fail := { htouched with }
      split
      · exact ⟨hfail, fun h => (nomatch h)⟩
      · unfold unpack
        split
        · exact ⟨hfail, fun h => (nomatch h)⟩
        · split
          · exact ⟨hfail, fun h => (nomatch h)⟩
          · split
            · exact ⟨htouched, fun h => (nomatch h)⟩
            · rename_i response _ _ _
              obtain ⟨hattempts, hsame, hone, -, hsize, -⟩ := accept_spec { desk with peer := peer } response
              refine ⟨⟨htouched.credit, hattempts.trans htouched.attempts, hsame.trans htouched.bytes, .inr ?_, fun h => ?_⟩, fun _ => ?_⟩
              · exact hone.trans (congrArg (· + 1) hnext)
              · exact hsize (htouched.hints h)
              · exact hsame.trans_le hbytes

end Desk

/-! ### Rounds with any messages -/

/-- What is charged to a peer. -/
inductive Entry
  | received (pin : Bytes32) (bytes : Nat)
  | failed (pin : Bytes32)

/-- One call on a round, with any message at any time; what else the requester does with its archive is up to it. -/
inductive RoundStep : Round × Archive crypto → List Entry → Round × Archive crypto → Prop
  | receive (round : Round) (archive : Archive crypto) (message : Session.VerifiedEnvelope) (now : UInt64) :
    RoundStep (round, archive) [.received message.signerKey message.envelope.body.length] (round.receive archive message now).2
  | failed (round : Round) (archive : Archive crypto) (pin : Bytes32) :
    RoundStep (round, archive) [.failed pin] ((round.failed pin).2, archive)
  | nextPeer (round : Round) (archive : Archive crypto) : RoundStep (round, archive) [] (round.nextPeer.2, archive)
  | archive (round : Round) (archive archive' : Archive crypto) : RoundStep (round, archive) [] (round, archive')

section
variable {s t : Round × Archive crypto} {log : List Entry} {pin : Bytes32}

theorem Round.failed_peers (round : Round) (pin k : Bytes32) :
    ((round.failed pin).2.peers[k]? = round.peers[k]?) ∨
    k = pin ∧ ∃ peer peer', round.peers[pin]? = some peer ∧ (round.failed pin).2.peers[pin]? = some peer' ∧ Touched 0 peer peer' := by
  unfold failed
  cases hpeer : round.peers[pin]? with
  | none => exact .inl rfl
  | some peer =>
    dsimp only
    obtain ⟨-, hbudget⟩ | ⟨-, htouched, -⟩ := peer.charge_cases 0
    · rw [hbudget]
      exact .inl (congrArg (·[k]?) (Maps.insert_of_some hpeer))
    · rcases hcharge : peer.charge 0 with ⟨_ | ⟨⟩, peer'⟩
      all_goals
        rw [hcharge] at htouched
        dsimp only at htouched ⊢
        by_cases hk : k = pin
        · exact .inr ⟨hk, peer, _, rfl, Maps.getElem?_insert.trans (if_pos rfl), { htouched with }⟩
        · refine .inl ?_
          rw [Maps.getElem?_insert, if_neg (Ne.symm hk)]

theorem Round.receive_peers (round : Round) (archive : Archive crypto) (message : Session.VerifiedEnvelope) (now : UInt64) (k : Bytes32) :
    ((round.receive archive message now).2.1.peers[k]? = round.peers[k]?) ∨
    k = message.signerKey ∧ ∃ peer peer', round.peers[k]? = some peer ∧ (round.receive archive message now).2.1.peers[k]? = some peer' ∧
      Touched message.envelope.body.length peer peer' := by
  unfold receive
  cases hpeer : round.peers[message.signerKey]? with
  | none => exact .inl rfl
  | some peer =>
    dsimp only
    by_cases hk : k = message.signerKey
    · subst hk
      obtain ⟨-, hsame⟩ | ⟨htouched, -⟩ :=
        Desk.receive_touched ⟨peer, round.hints, archive⟩ round.request round.channel message now
      · refine .inl ?_
        rw [hsame, Maps.getElem?_insert, if_pos rfl, hpeer]
      · refine .inr ⟨rfl, peer, _, hpeer, ?_, htouched⟩
        rw [Maps.getElem?_insert, if_pos rfl]
    · refine .inl ?_
      rw [Maps.getElem?_insert, if_neg (Ne.symm hk)]

/-- The account of a peer within its allowance. -/
structure Peer.Bounded (log : List Entry) (pin : Bytes32) (peer : Peer) : Prop where
  attempts : peer.stats.attempts ≤ maxAttempts
  hints : peer.hints.size ≤ maxHints
  next : peer.next.toNat ≤ peer.stats.attempts
  bytes : peer.stats.bytes ≤ peer.stats.attempts * Session.maxBodyBytes
  frames : (∀ n, .received pin n ∈ log → n ≤ maxFrame) → peer.stats.bytes ≤ peer.stats.attempts * maxFrame

theorem Peer.Bounded.touch {peer peer' : Peer} {e : Entry} {bytes : Nat} (h : peer.Bounded log pin) (ht : Touched bytes peer peer')
    (he : e = .received pin bytes ∨ bytes = 0) (hbytes : bytes ≤ Session.maxBodyBytes) : peer'.Bounded (log ++ [e]) pin := by
  have hcredit := ht.credit
  refine ⟨?_, ht.hints h.hints, ?_, ?_, fun hframes => ?_⟩
  · rw [ht.attempts]
    exact hcredit
  · have hnext := h.next
    have hsmall : maxAttempts = 32 := rfl
    obtain hsame | hone := ht.next
    · rw [hsame, ht.attempts]
      omega
    · rw [hone, ht.attempts, UInt8.toNat_add]
      exact (Nat.mod_le _ _).trans (Nat.succ_le_succ hnext)
  · rw [ht.attempts, ht.bytes, Nat.succ_mul]
    exact Nat.add_le_add h.bytes hbytes
  · have hmost : bytes ≤ maxFrame := by
      obtain rfl | rfl := he
      · exact hframes bytes (List.mem_append_right _ (List.mem_singleton.2 rfl))
      · exact Nat.zero_le _
    rw [ht.attempts, ht.bytes, Nat.succ_mul]
    exact Nat.add_le_add (h.frames fun n hn => hframes n (List.mem_append_left _ hn)) hmost

theorem Peer.Bounded.mono {peer : Peer} {log' : List Entry} (h : peer.Bounded log pin) : peer.Bounded (log ++ log') pin :=
  { h with frames := fun hframes => h.frames fun n hn => hframes n (List.mem_append_left _ hn) }

def Round.Bounded (log : List Entry) (round : Round) : Prop :=
  ∀ (pin : Bytes32) (peer : Peer), round.peers[pin]? = some peer → peer.Bounded log pin

theorem RoundStep.bounded {notes : List Entry} (hs : s.1.Bounded log) (h : RoundStep s notes t) : t.1.Bounded (log ++ notes) := by
  intro pin peer' hpeer'
  cases h with
  | receive round archive message now =>
    obtain hsame | ⟨rfl, peer, peer'', hpeer, hafter, htouched⟩ := round.receive_peers archive message now pin
    · exact (hs pin peer' (hsame ▸ hpeer')).mono
    · obtain rfl : peer'' = peer' := Option.some.inj (hafter.symm.trans hpeer')
      exact (hs _ peer hpeer).touch htouched (.inl rfl) message.envelope.valid.2
  | failed round archive key =>
    obtain hsame | ⟨rfl, peer, peer'', hpeer, hafter, htouched⟩ := round.failed_peers key pin
    · exact (hs pin peer' (hsame ▸ hpeer')).mono
    · obtain rfl : peer'' = peer' := Option.some.inj (hafter.symm.trans hpeer')
      exact (hs _ peer hpeer).touch htouched (.inr rfl) (Nat.zero_le _)
  | nextPeer | archive => exact (hs pin peer' hpeer').mono

end

end Valhalla.Retrieval
