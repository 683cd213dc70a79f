import Valhalla.Retrieval.Exchange

/-!
# When the pages of a provider reach the requester

The invariant of an exchange: how far the provider and the requester have counted, what the pages held, and what the
requester's archive holds of them. As long as no response was lost the two counts agree; afterwards they never do again.
-/

namespace Valhalla.Retrieval
open Fallible FixedWidth Check
open Social (RecordId OwnerId PostRef VerifiedRecord InputBudget Archive maxRecords maxRecordBytes)

variable {crypto : Crypto}

/-! ### Messages that arrive -/

namespace Desk
variable {desk : Desk crypto} {request : Request} {channel : ChannelScope} {message : Session.VerifiedEnvelope} {now : UInt64}

theorem receive_ok (h : (desk.receive request channel message now).1 = .ok ()) :
    ∃ response peer, decodeResponse message.envelope.body = .ok response ∧ response.sequence = desk.peer.next ∧
      peer.next = desk.peer.next ∧ Touched message.envelope.body.length desk.peer peer ∧
      (desk.receive request channel message now).2 = ({ desk with peer := peer } : Desk crypto).accept response := by
  unfold receive at h ⊢
  obtain ⟨-, hbudget⟩ | ⟨-, htouched, hnext, -⟩ := desk.peer.charge_cases message.envelope.body.length
  · rw [hbudget] at h
    cases h
  · rcases hcharge : desk.peer.charge message.envelope.body.length with ⟨_ | ⟨⟩, peer⟩
    · rw [hcharge] at h
      cases h
    · rw [hcharge] at h htouched hnext
      dsimp only at h hnext ⊢
      split at h
      · cases h
      · rename_i hcontext
        rw [if_neg hcontext]
        unfold unpack at h ⊢
        split at h
        · cases h
        · rename_i response hdecode
          split at h
          · cases h
          · rename_i hturn
            split at h
            · cases h
            · rename_i hlast
              rw [not_or, not_or] at hturn
              refine ⟨response, peer, hdecode, ?_, hnext, htouched, ?_⟩
              · rw [← hnext]
                exact Decidable.not_not.1 hturn.2.2
              · rw [if_neg (not_or.2 ⟨hturn.1, not_or.2 hturn.2⟩), if_neg hlast]

theorem receive_arrived {pin : Bytes32} {response : Response} (harrives : Arrives channel pin now response message)
    (hframed : Framed response) (hnonce : response.nonce = request.nonce) (hrealm : response.realm = request.realm)
    (harchive : desk.archive.realm = request.realm) (hcredit : desk.peer.stats.attempts < maxAttempts)
    (hbytes : desk.peer.stats.bytes + response.encode.length ≤ maxFrame * maxAttempts)
    (hturn : response.sequence = desk.peer.next) : (desk.receive request channel message now).1 = .ok () := by
  have hlength := hframed.length_le
  have hcharge : desk.peer.charge message.envelope.body.length = (.ok (), { desk.peer with stats := { desk.peer.stats with attempts := desk.peer.stats.attempts + 1, bytes := desk.peer.stats.bytes + message.envelope.body.length } }) := by
    rw [Peer.charge, if_neg (Nat.not_le.2 hcredit)]
    refine if_neg (not_or.2 ⟨?_, ?_⟩)
    · rw [harrives.body]
      exact Nat.not_lt.2 hlength
    · rw [harrives.body]
      exact Nat.not_lt.2 hbytes
  have hcheck : checkMessage message message.signerKey channel now = .ok () := by
    rw [checkMessage, require_eq_ok]
    simp [harrives.realm, harrives.room, harrives.epoch, harrives.kind, harrives.body, hlength, UInt64.not_lt.2 harrives.unexpired]
  have hdecode : decodeResponse message.envelope.body = .ok response := by
    rw [harrives.body]
    exact decodeResponse_eq_ok.2 ⟨rfl, hframed, hlength⟩
  have hlast : desk.peer.next ≠ 255 := by
    intro hmost
    have hsmall := hframed.sequence
    rw [hturn, hmost] at hsmall
    exact absurd hsmall (by decide)
  unfold receive
  rw [hcharge]
  dsimp only
  rw [if_neg (not_or.2 ⟨Decidable.not_not.2 harchive, Decidable.not_not.2 hcheck⟩), unpack, hdecode]
  dsimp only
  rw [if_neg (not_or.2 ⟨Decidable.not_not.2 hnonce, not_or.2 ⟨Decidable.not_not.2 hrealm, Decidable.not_not.2 hturn⟩⟩), if_neg hlast]

theorem receive_error {e : Error} (hcredit : desk.peer.stats.attempts < maxAttempts)
    (h : (desk.receive request channel message now).1 = .error e) :
    Touched message.envelope.body.length desk.peer (desk.receive request channel message now).2.peer ∧
      (desk.receive request channel message now).2.peer.next = desk.peer.next ∧
      (desk.receive request channel message now).2.peer.stats.providerRemaining = desk.peer.stats.providerRemaining := by
  obtain ⟨hspent, -⟩ | ⟨htouched, -⟩ := desk.receive_touched request channel message now
  · omega
  · refine ⟨htouched, ?_⟩
    unfold receive at h ⊢
    obtain ⟨hspent, -⟩ | ⟨-, -, hnext, hremaining⟩ := desk.peer.charge_cases message.envelope.body.length
    · omega
    · rcases hcharge : desk.peer.charge message.envelope.body.length with ⟨_ | ⟨⟩, peer⟩
      · rw [hcharge] at hnext hremaining
        exact ⟨hnext, hremaining⟩
      · rw [hcharge] at h hnext hremaining
        dsimp only at h hnext hremaining ⊢
        split
        · exact ⟨hnext, hremaining⟩
        · rename_i hcontext
          rw [if_neg hcontext] at h
          unfold unpack at h ⊢
          split
          · exact ⟨hnext, hremaining⟩
          · rename_i response hdecode
            split
            · exact ⟨hnext, hremaining⟩
            · rename_i hturn
              split
              · exact ⟨hnext, hremaining⟩
              · rename_i hlast
                simp only [hdecode] at h
                rw [if_neg hturn, if_neg hlast] at h
                cases h

theorem receive_grows (desk : Desk crypto) (request : Request) (channel : ChannelScope) (message : Session.VerifiedEnvelope) (now : UInt64) :
    Grows desk.archive (desk.receive request channel message now).2.archive := by
  unfold receive
  rcases desk.peer.charge message.envelope.body.length with ⟨_ | ⟨⟩, peer⟩
  · exact Grows.refl _
  · dsimp only
    split
    · exact Grows.refl _
    · unfold unpack
      split
      · exact Grows.refl _
      · rename_i response _
        split
        · exact Grows.refl _
        · split
          · exact Grows.refl _
          · obtain ⟨-, -, -, -, -, harchive⟩ := accept_spec { desk with peer := peer } response
            show Grows desk.archive (accept { desk with peer := peer } response).archive
            rw [harchive]
            exact offered_grows _ _

end Desk

namespace Round

theorem receive_frame (round : Round) (archive : Archive crypto) (message : Session.VerifiedEnvelope) (now : UInt64) :
    (round.receive archive message now).2.1.request = round.request ∧
    (round.receive archive message now).2.1.channel = round.channel ∧ Grows archive (round.receive archive message now).2.2 := by
  unfold receive
  cases round.peers[message.signerKey]? with
  | none => exact ⟨rfl, rfl, Grows.refl _⟩
  | some peer => exact ⟨rfl, rfl, Desk.receive_grows ⟨peer, round.hints, archive⟩ _ _ _ _⟩

theorem receive_of_peer {round : Round} {archive : Archive crypto} {message : Session.VerifiedEnvelope} {now : UInt64} {peer : Peer}
    {result : Except Error Unit} {desk : Desk crypto} (hpeer : round.peers[message.signerKey]? = some peer)
    (hrun : (⟨peer, round.hints, archive⟩ : Desk crypto).receive round.request round.channel message now = (result, desk)) :
    round.receive archive message now =
      (result, { round with peers := round.peers.insert message.signerKey desk.peer, hints := desk.hints }, desk.archive) := by
  rw [receive, hpeer]
  dsimp only
  rw [hrun]

theorem failed_frame (round : Round) (pin : Bytes32) :
    (round.failed pin).2.request = round.request ∧ (round.failed pin).2.channel = round.channel := by
  unfold failed
  split
  · exact ⟨rfl, rfl⟩
  · split <;> exact ⟨rfl, rfl⟩

end Round

/-! ### Enough pages -/

section
variable {source : Archive crypto}

def Growing (pages : List (Page crypto)) : Prop := pages.IsChain fun page next => page.known ⊆ next.known

def gap (source : Archive crypto) (page : Page crypto) : Nat := (source.missing page.known).length

theorem mem_keys_missing {known : List RecordId} {id : RecordId} :
    id ∈ (source.missing known).map Prod.fst ↔ source.records.contains id = true ∧ id ∉ known := by
  rw [List.mem_map]
  constructor
  · rintro ⟨r, hr, rfl⟩
    obtain ⟨hrecord, hnot⟩ := Archive.mem_missing.1 hr
    exact ⟨by rw [Std.ExtTreeMap.contains_eq_isSome_getElem?, hrecord]; rfl, hnot⟩
  · rintro ⟨hcontains, hnot⟩
    rw [Std.ExtTreeMap.contains_eq_isSome_getElem?, Option.isSome_iff_exists] at hcontains
    obtain ⟨record, hrecord⟩ := hcontains
    exact ⟨(id, record), Archive.mem_missing.2 ⟨hrecord, hnot⟩, rfl⟩

theorem recordIds_eq {ids : List RecordId} {records : List (List UInt8)}
    (h : List.Forall₂ (fun id raw => ∃ record, source.records[id]? = some record ∧ raw = record.encode) ids records) :
    recordIds crypto records = ids := by
  induction h with
  | nil => rfl
  | cons hrecord _ ih =>
    obtain ⟨record, hrecord, rfl⟩ := hrecord
    have hdecode : (VerifiedRecord.decode record.encode : Except Social.Error (VerifiedRecord crypto)) = .ok record :=
      VerifiedRecord.decode_eq_ok.2 rfl
    rw [recordIds, List.filterMap_cons_some (b := record.id) (by simp only [hdecode])]
    exact congrArg₂ List.cons (source.keyed _ _ hrecord) ih

/-- The records of a page: different ones that the inventory misses, as many as a page may hold. -/
structure Full (source : Archive crypto) (page : Page crypto) : Prop where
  nodup : page.ids.Nodup
  missing : ∀ id ∈ page.ids, id ∈ (source.missing page.known).map Prod.fst
  count : page.ids.length = min maxRecordsPerFrame (gap source page)

theorem Answers.full {page : Page crypto} (h : Answers source page.known page.response) :
    Full source page ∧ page.response.providerRemaining = gap source page - page.ids.length := by
  obtain ⟨ids, hnodup, hnot, hrecords, hcount, hremaining⟩ := h.page
  have hids : page.ids = ids := recordIds_eq hrecords
  rw [← hids] at hnodup hnot hrecords hcount hremaining
  refine ⟨⟨hnodup, fun id hid => mem_keys_missing.2 ⟨?_, hnot id hid⟩, hcount⟩, hremaining⟩
  obtain ⟨raw, -, record, hrecord, -⟩ := forall₂_mem_right hrecords.flip hid
  rw [Std.ExtTreeMap.contains_eq_isSome_getElem?, hrecord]
  rfl

theorem Full.gap_le {page next : Page crypto} (h : Full source page) (hgrow : page.known ⊆ next.known) :
    gap source next + page.ids.length ≤ gap source page + page.ids.countP fun id => !next.known.contains id := by
  have hsub : (page.ids.filter fun id => next.known.contains id) ++ (source.missing next.known).map Prod.fst ⊆
      (source.missing page.known).map Prod.fst := by
    intro id hid
    obtain hid | hid := List.mem_append.1 hid
    · exact h.missing id (List.mem_filter.1 hid).1
    · obtain ⟨hcontains, hnot⟩ := mem_keys_missing.1 hid
      exact mem_keys_missing.2 ⟨hcontains, fun hknown => hnot (hgrow hknown)⟩
  have hnodup : ((page.ids.filter fun id => next.known.contains id) ++ (source.missing next.known).map Prod.fst).Nodup := by
    refine List.nodup_append.2 ⟨h.nodup.filter _, Archive.nodup_missing, fun id hid id' hid' he => ?_⟩
    have hknown : id ∈ next.known := by simpa using (List.mem_filter.1 hid).2
    exact (mem_keys_missing.1 hid').2 (he ▸ hknown)
  have hle := (List.subperm_of_subset hnodup hsub).length_le
  have hsplit := (List.filter_append_perm (fun id => next.known.contains id) page.ids).length_eq
  rw [List.length_append] at hle hsplit
  rw [List.length_map, List.length_map] at hle
  rw [List.countP_eq_length_filter, gap, gap]
  omega

theorem gap_mono {page next : Page crypto} (hgrow : page.known ⊆ next.known) : gap source next ≤ gap source page := by
  have hsub : (source.missing next.known).map Prod.fst ⊆ (source.missing page.known).map Prod.fst := by
    intro id hid
    obtain ⟨hcontains, hnot⟩ := mem_keys_missing.1 hid
    exact mem_keys_missing.2 ⟨hcontains, fun hknown => hnot (hgrow hknown)⟩
  have hle := (List.subperm_of_subset Archive.nodup_missing hsub).length_le
  rwa [List.length_map, List.length_map] at hle

theorem gap_last_le {page : Page crypto} {pages : List (Page crypto)} (hgrow : Growing (page :: pages)) :
    gap source ((page :: pages).getLast (List.cons_ne_nil _ _)) ≤ gap source page := by
  induction pages generalizing page with
  | nil => exact Nat.le_refl _
  | cons next pages ih =>
    obtain ⟨hone, hrest⟩ := List.isChain_cons_cons.1 hgrow
    rw [List.getLast_cons (List.cons_ne_nil _ _)]
    exact (ih hrest).trans (gap_mono hone)

theorem gap_last {page : Page crypto} {pages : List (Page crypto)} (hfull : ∀ p ∈ page :: pages, Full source p)
    (hgrow : Growing (page :: pages))
    (h : gap source page + wasted (page :: pages) ≤ maxRecordsPerFrame * (page :: pages).length) :
    gap source ((page :: pages).getLast (List.cons_ne_nil _ _)) ≤ maxRecordsPerFrame := by
  induction pages generalizing page with
  | nil =>
    rw [List.length_singleton, Nat.mul_one] at h
    exact (Nat.le_add_right _ _).trans h
  | cons next pages ih =>
    obtain ⟨hone, hrest⟩ := List.isChain_cons_cons.1 hgrow
    rw [List.getLast_cons (List.cons_ne_nil _ _)]
    by_cases hsmall : gap source page ≤ maxRecordsPerFrame
    · exact ((gap_last_le hrest).trans (gap_mono hone)).trans hsmall
    · have hpage := hfull page List.mem_cons_self
      have hle := hpage.gap_le hone
      have hcount : page.ids.length = maxRecordsPerFrame := by
        rw [hpage.count]
        omega
      rw [wasted, List.length_cons, Nat.mul_succ] at h
      refine ih (fun p hp => hfull p (List.mem_cons_of_mem _ hp)) hrest ?_
      omega

end

/-! ### The invariant -/

section
variable {source : Archive crypto} {pin : Bytes32} {notes : List (Note crypto)} {s t : Exchange crypto}

/-- What holds of every entry of a record and the entries before it. -/
def Throughout {ν : Type} (P : List ν → ν → Prop) (notes : List ν) : Prop := ∀ before n after, notes = before ++ n :: after → P before n

theorem Throughout.snoc {ν : Type} {P : List ν → ν → Prop} {notes : List ν} {n : ν} (h : Throughout P notes) (hn : P notes n) :
    Throughout P (notes ++ [n]) := by
  intro before m after he
  obtain rfl | ⟨after, last, rfl⟩ := List.eq_nil_or_concat' after
  · obtain ⟨rfl, hlast⟩ := List.append_inj' he rfl
    cases hlast
    exact hn
  · rw [← List.cons_append, ← List.append_assoc] at he
    exact h before m after (List.append_inj' he rfl).1

def Flight.open : Flight → Nat
  | .answered _ => 1
  | _ => 0

structure Account (notes : List (Note crypto)) (peer : Peer) : Prop where
  attempts : peer.stats.attempts = concluded notes
  next : peer.next.toNat = (accepted notes).length
  clean : losses notes = 0 → (accepted notes).length = concluded notes ∧ peer.stats.bytes ≤ peer.stats.attempts * maxFrame
  behind : losses notes ≠ 0 → (accepted notes).length < concluded notes
  remaining : ∀ page ∈ (accepted notes).getLast?, peer.stats.providerRemaining = page.response.providerRemaining

/-- A delivered page is accepted as long as no response was lost. -/
def InTurn (before : List (Note crypto)) (n : Note crypto) : Prop :=
  ∀ page result, n = .delivered page result → (result = .ok () ↔ losses before = 0)

def Unreported (before : List (Note crypto)) (n : Note crypto) : Prop :=
  ∀ response, n = .served response → ∀ known, .reported known ∈ before → ∀ id ∈ recordIds crypto response.records, id ∉ known

structure Sound (source : Archive crypto) (pin : Bytes32) (notes : List (Note crypto)) (s : Exchange crypto) : Prop where
  settled : s.archive.Settled
  archive : s.archive.realm = s.round.request.realm
  nonce : s.provider.request.nonce = s.round.request.nonce
  realm : s.provider.request.realm = s.round.request.realm
  held : ∀ id ∈ s.provider.request.known, s.archive.records.contains id = true
  reported : ∀ known, .reported known ∈ notes → known ⊆ s.provider.request.known
  sequence : s.provider.sequence.toNat = concluded notes + s.flight.open
  small : s.provider.sequence.toNat ≤ maxAttempts
  answer : ∀ response, s.flight = .answered response → Answers source s.provider.request.known response ∧
    response.nonce = s.provider.request.nonce ∧ response.realm = s.provider.request.realm ∧ response.sequence.toNat = concluded notes
  peer : ∃ peer, s.round.peers[pin]? = some peer ∧ Account notes peer
  pages : ∀ page ∈ accepted notes, Answers source page.known page.response
  growing : Growing (accepted notes)
  latest : ∀ page ∈ (accepted notes).getLast?, page.known ⊆ s.provider.request.known ∧
    ∀ raw ∈ page.response.records, page.Refused raw ∨ ∃ record : VerifiedRecord crypto, VerifiedRecord.decode raw = .ok record ∧
      s.archive.records.contains record.id = true
  inTurn : Throughout InTurn notes
  unreported : Throughout Unreported notes

theorem Sound.elsewhere (h : Sound source pin notes s) (hprovider : t.provider = s.provider) (hflight : t.flight = s.flight)
    (hrequest : t.round.request = s.round.request) (hpeer : t.round.peers[pin]? = s.round.peers[pin]?)
    (hgrows : Grows s.archive t.archive) : Sound source pin notes t where
  settled := hgrows.settled h.settled
  archive := by rw [hrequest, hgrows.realm, h.archive]
  nonce := by rw [hprovider, hrequest, h.nonce]
  realm := by rw [hprovider, hrequest, h.realm]
  held id hid := hgrows.holds id (h.held id (hprovider ▸ hid))
  reported := by rw [hprovider]; exact h.reported
  sequence := by rw [hprovider, hflight]; exact h.sequence
  small := by rw [hprovider]; exact h.small
  answer := by rw [hprovider, hflight]; exact h.answer
  peer := by rw [hpeer]; exact h.peer
  pages := h.pages
  growing := h.growing
  latest page hpage := by
    obtain ⟨hknown, hrecords⟩ := h.latest page hpage
    refine ⟨by rw [hprovider]; exact hknown, fun raw hraw => (hrecords raw hraw).imp_right ?_⟩
    rintro ⟨record, hdecode, hheld⟩
    exact ⟨record, hdecode, hgrows.holds _ hheld⟩
  inTurn := h.inTurn
  unreported := h.unreported

theorem accepted_append (a b : List (Note crypto)) : accepted (a ++ b) = accepted a ++ accepted b := List.filterMap_append

theorem concluded_append (a b : List (Note crypto)) : concluded (a ++ b) = concluded a + concluded b := List.countP_append

theorem losses_append (a b : List (Note crypto)) : losses (a ++ b) = losses a + losses b := List.countP_append

/-- An entry that settles no response. -/
structure Quiet (n : Note crypto) : Prop where
  accepted : accepted [n] = []
  concluded : concluded [n] = 0
  losses : losses [n] = 0

section
variable {n : Note crypto} (hn : Quiet n)
include hn

theorem Quiet.accepted_snoc : Retrieval.accepted (notes ++ [n]) = Retrieval.accepted notes := by
  rw [accepted_append, hn.accepted, List.append_nil]

theorem Quiet.concluded_snoc : Retrieval.concluded (notes ++ [n]) = Retrieval.concluded notes := by
  rw [concluded_append, hn.concluded, Nat.add_zero]

theorem Quiet.losses_snoc : Retrieval.losses (notes ++ [n]) = Retrieval.losses notes := by
  rw [losses_append, hn.losses, Nat.add_zero]

theorem Account.quiet {peer : Peer} (h : Account notes peer) : Account (notes ++ [n]) peer := by
  constructor
  · rw [hn.concluded_snoc]
    exact h.attempts
  · rw [hn.accepted_snoc]
    exact h.next
  · rw [hn.losses_snoc, hn.accepted_snoc, hn.concluded_snoc]
    exact h.clean
  · rw [hn.losses_snoc, hn.accepted_snoc, hn.concluded_snoc]
    exact h.behind
  · rw [hn.accepted_snoc]
    exact h.remaining

end

theorem Sound.refresh (h : Sound source pin notes s) {request : Request} {provider : Provider} (hflight : s.flight = .idle)
    (htruthful : ∀ id ∈ request.known, s.archive.records.contains id = true) (hgrowing : s.provider.request.known ⊆ request.known)
    (hrefresh : s.provider.refresh request = .ok provider) :
    Sound source pin (notes ++ [.reported request.known]) { s with provider := provider, flight := .asked } := by
  simp only [Provider.refresh, bind_eq_ok] at hrefresh
  obtain ⟨_, -, hrefresh⟩ := hrefresh
  cases hrefresh
  obtain ⟨peer, hpeer, haccount⟩ := h.peer
  have hquiet : Quiet (.reported request.known : Note crypto) := ⟨rfl, rfl, rfl⟩
  have hsequence := h.sequence
  rw [hflight] at hsequence
  refine { h with
    held := htruthful
    reported := fun known hknown => ?_
    sequence := ?_
    answer := fun _ h => Flight.noConfusion h
    peer := ⟨peer, hpeer, haccount.quiet hquiet⟩
    pages := ?_
    growing := ?_
    latest := fun page hpage => ?_
    inTurn := h.inTurn.snoc fun _ _ he => by cases he
    unreported := h.unreported.snoc fun _ he => by cases he }
  · obtain hknown | hknown := List.mem_append.1 hknown
    · exact List.Subset.trans (h.reported known hknown) hgrowing
    · cases List.mem_singleton.1 hknown
      exact fun _ hid => hid
  · rw [hquiet.concluded_snoc]
    exact hsequence
  · rw [hquiet.accepted_snoc]
    exact h.pages
  · rw [hquiet.accepted_snoc]
    exact h.growing
  · rw [hquiet.accepted_snoc] at hpage
    exact ⟨List.Subset.trans (h.latest page hpage).1 hgrowing, (h.latest page hpage).2⟩

theorem Sound.answered {search : Search crypto} {owner : OwnerId} {now : UInt64} (hsource : source.Settled) (h : Sound source pin notes s)
    {response : Response} {provider : Provider} (hflight : s.flight = .asked)
    (hnext : s.provider.next search source owner now = .ok (response, provider)) :
    Sound source pin (notes ++ [.served response]) { s with provider := provider, flight := .answered response } := by
  obtain ⟨hanswers, hnonce, hrealm, hturn, hrequest, hcount, hless⟩ := Provider.next_answers hsource hnext
  obtain ⟨peer, hpeer, haccount⟩ := h.peer
  have hquiet : Quiet (.served response : Note crypto) := ⟨rfl, rfl, rfl⟩
  have hsequence : s.provider.sequence.toNat = concluded notes := by
    have hsequence := h.sequence
    rwa [hflight] at hsequence
  refine { h with
    nonce := ?_
    realm := ?_
    held := fun id hid => h.held id (hrequest ▸ hid)
    reported := fun known hknown => ?_
    sequence := ?_
    small := ?_
    answer := fun response' he => ?_
    peer := ⟨peer, hpeer, haccount.quiet hquiet⟩
    pages := ?_
    growing := ?_
    latest := fun page hpage => ?_
    inTurn := h.inTurn.snoc fun _ _ he => (nomatch he)
    unreported := h.unreported.snoc fun response' he known hknown id hid hmem => ?_ }
  · rw [← h.nonce]
    exact congrArg Request.nonce hrequest
  · rw [← h.realm]
    exact congrArg Request.realm hrequest
  · obtain hknown | hknown := List.mem_append.1 hknown
    · exact hrequest ▸ h.reported known hknown
    · cases List.mem_singleton.1 hknown
  · rw [hquiet.concluded_snoc]
    show provider.sequence.toNat = concluded notes + 1
    rw [hcount, hsequence]
  · show provider.sequence.toNat ≤ maxAttempts
    omega
  · cases he
    rw [hquiet.concluded_snoc, hrequest, hturn]
    exact ⟨hanswers, hnonce, hrealm, hsequence⟩
  · rw [hquiet.accepted_snoc]
    exact h.pages
  · rw [hquiet.accepted_snoc]
    exact h.growing
  · rw [hquiet.accepted_snoc] at hpage
    rw [hrequest]
    exact h.latest page hpage
  · cases he
    obtain ⟨ids, -, hnot, hrecords, -⟩ := hanswers.page
    rw [recordIds_eq hrecords] at hid
    exact hnot id hid (h.reported known hknown hmem)

theorem Sound.lost (h : Sound source pin notes s) {response : Response} (hflight : s.flight = .answered response) {peer peer' : Peer}
    {bytes : Nat} (hpeer : s.round.peers[pin]? = some peer) (hpeer' : t.round.peers[pin]? = some peer')
    (htouched : Touched bytes peer peer') (hnext : peer'.next = peer.next)
    (hremaining : peer'.stats.providerRemaining = peer.stats.providerRemaining) (hrequest : t.round.request = s.round.request)
    (hprovider : t.provider = s.provider) (hidle : t.flight = .idle) (hgrows : Grows s.archive t.archive) {n : Note crypto}
    (haccepted : accepted [n] = []) (hconcluded : concluded [n] = 1) (hlosses : losses (notes ++ [n]) ≠ 0) (hinTurn : InTurn notes n)
    (hreported : ∀ known, n ≠ .reported known) (hserved : ∀ response, n ≠ .served response) :
    Sound source pin (notes ++ [n]) t := by
  obtain ⟨_, hsame, haccount⟩ := h.peer
  obtain rfl := Option.some.inj (hsame.symm.trans hpeer)
  have hpages : accepted (notes ++ [n]) = accepted notes := by rw [accepted_append, haccepted, List.append_nil]
  have hcount : concluded (notes ++ [n]) = concluded notes + 1 := by rw [concluded_append, hconcluded]
  have hle : (accepted notes).length ≤ concluded notes := by
    by_cases hclean : losses notes = 0
    · exact (haccount.clean hclean).1.le
    · exact (haccount.behind hclean).le
  have hsequence := h.sequence
  rw [hflight] at hsequence
  refine {
    settled := hgrows.settled h.settled
    archive := by rw [hrequest, hgrows.realm, h.archive]
    nonce := by rw [hprovider, hrequest, h.nonce]
    realm := by rw [hprovider, hrequest, h.realm]
    held := fun id hid => hgrows.holds id (h.held id (hprovider ▸ hid))
    reported := fun known hknown => ?_
    sequence := ?_
    small := by rw [hprovider]; exact h.small
    answer := fun _ he => by rw [hidle] at he; cases he
    peer := ⟨peer', hpeer', ?_⟩
    pages := by rw [hpages]; exact h.pages
    growing := by rw [hpages]; exact h.growing
    latest := fun page hpage => ?_
    inTurn := h.inTurn.snoc hinTurn
    unreported := h.unreported.snoc fun response he => absurd he (hserved response) }
  · rw [hprovider]
    obtain hknown | hknown := List.mem_append.1 hknown
    · exact h.reported known hknown
    · exact absurd (List.mem_singleton.1 hknown).symm (hreported known)
  · rw [hprovider, hidle, hcount]
    exact hsequence
  · refine ⟨?_, ?_, fun hclean => absurd hclean hlosses, fun _ => ?_, fun page hpage => ?_⟩
    · rw [htouched.attempts, haccount.attempts, hcount]
    · rw [hnext, haccount.next, hpages]
    · rw [hpages, hcount]
      exact Nat.lt_succ_of_le hle
    · rw [hpages] at hpage
      rw [hremaining, haccount.remaining page hpage]
  · rw [hpages] at hpage
    obtain ⟨hknown, hrecords⟩ := h.latest page hpage
    refine ⟨by rw [hprovider]; exact hknown, fun raw hraw => (hrecords raw hraw).imp_right ?_⟩
    rintro ⟨record, hdecode, hheld⟩
    exact ⟨record, hdecode, hgrows.holds _ hheld⟩

theorem Sound.gone (h : Sound source pin notes s) {response : Response} (hflight : s.flight = .answered response) {peer peer' : Peer}
    {bytes : Nat} (hpeer : s.round.peers[pin]? = some peer) (hpeer' : t.round.peers[pin]? = some peer')
    (htouched : Touched bytes peer peer') (hnext : peer'.next = peer.next)
    (hremaining : peer'.stats.providerRemaining = peer.stats.providerRemaining) (hrequest : t.round.request = s.round.request)
    (hprovider : t.provider = s.provider) (hidle : t.flight = .idle) (hgrows : Grows s.archive t.archive) :
    Sound source pin (notes ++ [.lost]) t := by
  refine h.lost hflight hpeer hpeer' htouched hnext hremaining hrequest hprovider hidle hgrows rfl rfl ?_ (fun _ _ he => ?_)
    (fun _ he => ?_) fun _ he => ?_
  · rw [losses_append]
    exact Nat.succ_ne_zero _
  · cases he
  · cases he
  · cases he

theorem Sound.credit (h : Sound source pin notes s) {response : Response} (hflight : s.flight = .answered response) {peer : Peer}
    (haccount : Account notes peer) : peer.stats.attempts < maxAttempts := by
  have hsequence := h.sequence
  have hsmall := h.small
  rw [hflight] at hsequence
  rw [haccount.attempts]
  simp only [Flight.open] at hsequence
  omega

theorem Sound.received (h : Sound source pin notes s) {response : Response} (hflight : s.flight = .answered response) {peer peer' : Peer}
    {bytes : Nat} (hpeer : s.round.peers[pin]? = some peer) (hpeer' : t.round.peers[pin]? = some peer')
    (htouched : Touched bytes peer peer') (hbytes : bytes ≤ maxFrame) (hclean : losses notes = 0) (hnext : peer'.next = peer.next + 1)
    (hremaining : peer'.stats.providerRemaining = response.providerRemaining) (hrequest : t.round.request = s.round.request)
    (hprovider : t.provider = s.provider) (hidle : t.flight = .idle) (harchive : t.archive = offered s.archive response.records) :
    Sound source pin (notes ++ [.delivered ⟨s.provider.request.known, response, s.archive⟩ (.ok ())]) t := by
  obtain ⟨_, hsame, haccount⟩ := h.peer
  obtain rfl := Option.some.inj (hsame.symm.trans hpeer)
  have hgrows : Grows s.archive t.archive := harchive ▸ offered_grows _ _
  obtain ⟨hanswers, -⟩ := h.answer response hflight
  generalize hpage : (⟨s.provider.request.known, response, s.archive⟩ : Page crypto) = page
  have hpages : accepted (notes ++ [.delivered page (.ok ())]) = accepted notes ++ [page] := accepted_append _ _
  have hcount : concluded (notes ++ [.delivered page (.ok ())]) = concluded notes + 1 := concluded_append _ _
  have hlosses : losses (notes ++ [.delivered page (.ok ())]) = losses notes := losses_append _ _
  have hlast : (accepted notes ++ [page]).getLast? = some page := List.getLast?_concat
  have hcredit := h.credit hflight haccount
  obtain ⟨hsteady, hcharged⟩ := haccount.clean hclean
  have hsequence := h.sequence
  rw [hflight] at hsequence
  refine {
    settled := hgrows.settled h.settled
    archive := by rw [hrequest, hgrows.realm, h.archive]
    nonce := by rw [hprovider, hrequest, h.nonce]
    realm := by rw [hprovider, hrequest, h.realm]
    held := fun id hid => hgrows.holds id (h.held id (hprovider ▸ hid))
    reported := fun known hknown => ?_
    sequence := ?_
    small := by rw [hprovider]; exact h.small
    answer := fun _ he => by rw [hidle] at he; cases he
    peer := ⟨peer', hpeer', ?_⟩
    pages := fun p hp => ?_
    growing := ?_
    latest := fun p hp => ?_
    inTurn := h.inTurn.snoc fun _ _ he => ?_
    unreported := h.unreported.snoc fun _ he => (nomatch he) }
  · rw [hprovider]
    obtain hknown | hknown := List.mem_append.1 hknown
    · exact h.reported known hknown
    · cases List.mem_singleton.1 hknown
  · rw [hprovider, hidle, hcount]
    exact hsequence
  · refine ⟨?_, ?_, fun _ => ⟨?_, ?_⟩, fun hlost => absurd (hlosses.trans hclean) hlost, fun p hp => ?_⟩
    · rw [htouched.attempts, haccount.attempts, hcount]
    · have hsmall : maxAttempts = 32 := rfl
      have hone : (1 : UInt8).toNat = 1 := rfl
      rw [hnext, UInt8.toNat_add, hone, haccount.next, hpages, List.length_append, List.length_singleton]
      rw [haccount.attempts] at hcredit
      exact Nat.mod_eq_of_lt (by omega)
    · rw [hpages, hcount, List.length_append, List.length_singleton, hsteady]
    · rw [htouched.attempts, htouched.bytes, Nat.succ_mul]
      exact Nat.add_le_add hcharged hbytes
    · rw [hpages, hlast] at hp
      cases hp
      rw [hremaining, ← hpage]
  · rw [hpages] at hp
    obtain hp | hp := List.mem_append.1 hp
    · exact h.pages p hp
    · cases List.mem_singleton.1 hp
      rw [← hpage]
      exact hanswers
  · rw [hpages]
    refine h.growing.append (.singleton page) fun p hp q hq => ?_
    cases hq
    subst hpage
    exact (h.latest p hp).1
  · rw [hpages, hlast] at hp
    cases hp
    subst hpage
    refine ⟨by rw [hprovider]; exact fun _ hid => hid, fun raw hraw => ?_⟩
    rw [harchive]
    exact offered_outcome h.settled hraw
  · cases he
    exact ⟨fun _ => hclean, fun _ => rfl⟩

theorem Sound.delivered (h : Sound source pin notes s) {response : Response} {message : Session.VerifiedEnvelope} {now : UInt64}
    {result : Except Error Unit} {round : Round} {archive : Archive crypto} (hflight : s.flight = .answered response)
    (harrives : Arrives s.round.channel pin now response message) (hreceive : s.round.receive s.archive message now = (result, round, archive)) :
    Sound source pin (notes ++ [.delivered ⟨s.provider.request.known, response, s.archive⟩ result]) ⟨archive, round, s.provider, .idle⟩ := by
  obtain ⟨peer, hpeer, haccount⟩ := h.peer
  obtain ⟨hanswers, hnonce, hrealm, hturn⟩ := h.answer response hflight
  have hcredit := h.credit hflight haccount
  have hframe := s.round.receive_frame s.archive message now
  rw [hreceive] at hframe
  obtain ⟨hrequest, -, hgrows⟩ := hframe
  generalize hdesk : (⟨peer, s.round.hints, s.archive⟩ : Desk crypto) = desk
  have hp : desk.peer = peer := hdesk ▸ rfl
  have ha : desk.archive = s.archive := hdesk ▸ rfl
  rcases hrun : desk.receive s.round.request s.round.channel message now with ⟨result', desk'⟩
  rw [Round.receive_of_peer (harrives.signer ▸ hpeer) (hdesk ▸ hrun), harrives.signer] at hreceive
  cases hreceive
  have hpeer' : (s.round.peers.insert pin desk'.peer)[pin]? = some desk'.peer := Maps.getElem?_insert.trans (if_pos rfl)
  by_cases hclean : losses notes = 0
  · obtain ⟨hsteady, hcharged⟩ := haccount.clean hclean
    have hturn' : response.sequence = desk.peer.next := by
      rw [hp, ← UInt8.toNat_inj, hturn, haccount.next, hsteady]
    have hroom : desk.peer.stats.bytes + response.encode.length ≤ maxFrame * maxAttempts := by
      rw [hp]
      calc peer.stats.bytes + response.encode.length ≤ peer.stats.attempts * maxFrame + maxFrame :=
            Nat.add_le_add hcharged hanswers.framed.length_le
        _ = (peer.stats.attempts + 1) * maxFrame := (Nat.succ_mul _ _).symm
        _ ≤ maxAttempts * maxFrame := Nat.mul_le_mul_right _ hcredit
        _ = maxFrame * maxAttempts := Nat.mul_comm _ _
    have hok : (desk.receive s.round.request s.round.channel message now).1 = .ok () :=
      Desk.receive_arrived harrives hanswers.framed (hnonce.trans h.nonce) (hrealm.trans h.realm) (ha ▸ h.archive) (hp ▸ hcredit) hroom hturn'
    obtain ⟨response', charged, hdecode, -, hnext, htouched, hafter⟩ := Desk.receive_ok hok
    rw [harrives.body, decodeResponse_eq_ok.2 ⟨rfl, hanswers.framed, hanswers.framed.length_le⟩] at hdecode
    cases hdecode
    rw [hrun] at hok hafter
    obtain ⟨hattempts, hbytes, hone, hremaining, hhints, harchive⟩ := Desk.accept_spec { desk with peer := charged } response
    dsimp only at hok hafter
    rw [← hafter] at hattempts hbytes hone hremaining hhints harchive
    subst hok
    have hstep : desk'.peer.next = peer.next + 1 := hone.trans (congrArg (· + 1) (hnext.trans (congrArg Peer.next hp)))
    have hcost : Touched message.envelope.body.length peer desk'.peer := by
      rw [hp] at htouched
      exact ⟨htouched.credit, hattempts.trans htouched.attempts, hbytes.trans htouched.bytes, .inr hstep,
        fun hsize => hhints (htouched.hints hsize)⟩
    refine h.received hflight hpeer hpeer' hcost ?_ hclean hstep hremaining hrequest rfl rfl ?_
    · rw [harrives.body]
      exact hanswers.framed.length_le
    · rw [harchive]
      exact congrArg (offered · response.records) ha
  · cases result with
    | ok u =>
      have hok : (desk.receive s.round.request s.round.channel message now).1 = .ok () := by rw [hrun]
      obtain ⟨response', charged, hdecode, hturn', -⟩ := Desk.receive_ok hok
      rw [harrives.body, decodeResponse_eq_ok.2 ⟨rfl, hanswers.framed, hanswers.framed.length_le⟩] at hdecode
      cases hdecode
      have hbehind := haccount.behind hclean
      rw [hp, ← UInt8.toNat_inj, hturn, haccount.next] at hturn'
      omega
    | error e =>
      obtain ⟨htouched, hnext, hremaining⟩ := Desk.receive_error (hp ▸ hcredit) (e := e) (by rw [hrun])
      rw [hrun, hp] at htouched hnext hremaining
      refine h.lost (t := ⟨desk'.archive, _, s.provider, .idle⟩) hflight hpeer hpeer' htouched hnext hremaining hrequest rfl rfl hgrows
        rfl rfl ?_ ?_ (fun _ he => ?_) fun _ he => ?_
      · rw [losses_append]
        exact fun hzero => hclean (Nat.add_eq_zero_iff.1 hzero).1
      · intro _ _ he
        cases he
        exact ⟨fun he => (nomatch he), fun he => absurd he hclean⟩
      · cases he
      · cases he

theorem Sound.rejected (h : Sound source pin notes s) {response : Response} {message : Session.VerifiedEnvelope} {now : UInt64} {e : Error}
    {round : Round} {archive : Archive crypto} (hflight : s.flight = .answered response) (hsigner : message.signerKey = pin)
    (hreceive : s.round.receive s.archive message now = (.error e, round, archive)) :
    Sound source pin (notes ++ [.lost]) ⟨archive, round, s.provider, .idle⟩ := by
  obtain ⟨peer, hpeer, haccount⟩ := h.peer
  have hframe := s.round.receive_frame s.archive message now
  rw [hreceive] at hframe
  obtain ⟨hrequest, -, hgrows⟩ := hframe
  rcases hrun : (⟨peer, s.round.hints, s.archive⟩ : Desk crypto).receive s.round.request s.round.channel message now with ⟨result, desk⟩
  rw [Round.receive_of_peer (hsigner ▸ hpeer) hrun, hsigner] at hreceive
  cases hreceive
  obtain ⟨htouched, hnext, hremaining⟩ := Desk.receive_error (h.credit hflight haccount) (congrArg Prod.fst hrun)
  rw [hrun] at htouched hnext hremaining
  exact h.gone hflight hpeer (Maps.getElem?_insert.trans (if_pos rfl)) htouched hnext hremaining hrequest rfl rfl hgrows

theorem Round.failed_spec {round : Round} {peer : Peer} (hpeer : round.peers[pin]? = some peer)
    (hcredit : peer.stats.attempts < maxAttempts) : ∃ peer', (round.failed pin).2.peers[pin]? = some peer' ∧ Touched 0 peer peer' ∧
      peer'.next = peer.next ∧ peer'.stats.providerRemaining = peer.stats.providerRemaining := by
  obtain ⟨hspent, -⟩ | ⟨-, htouched, hnext, hremaining⟩ := peer.charge_cases 0
  · omega
  · rw [Round.failed, hpeer]
    dsimp only
    rcases hcharge : peer.charge 0 with ⟨_ | ⟨⟩, peer'⟩
    all_goals rw [hcharge] at htouched hnext hremaining
    · exact ⟨peer', Maps.getElem?_insert.trans (if_pos rfl), htouched, hnext, hremaining⟩
    · exact ⟨peer'.fail, Maps.getElem?_insert.trans (if_pos rfl), { htouched with }, hnext, hremaining⟩

theorem Sound.step {search : Search crypto} {owner : OwnerId} {more : List (Note crypto)} (hsource : source.Settled)
    (h : Sound source pin notes s) (hstep : Exchange.Step search source owner pin s more t) : Sound source pin (notes ++ more) t := by
  cases hstep with
  | refresh hflight htruthful hgrowing hrefresh => exact h.refresh hflight htruthful hgrowing hrefresh
  | answer hflight hnext => exact h.answered hsource hflight hnext
  | silent hflight hnext =>
    rw [List.append_nil]
    have hsequence := h.sequence
    rw [hflight] at hsequence
    exact { h with sequence := hsequence, answer := fun _ he => (nomatch he) }
  | deliver hflight harrives hreceive => exact h.delivered hflight harrives hreceive
  | lose hflight =>
    obtain ⟨peer, hpeer, haccount⟩ := h.peer
    obtain ⟨peer', hpeer', htouched, hnext, hremaining⟩ := Round.failed_spec hpeer (h.credit hflight haccount)
    exact h.gone hflight hpeer hpeer' htouched hnext hremaining (s.round.failed_frame pin).1 rfl rfl (Grows.refl _)
  | reject hflight hsigner hreceive => exact h.rejected hflight hsigner hreceive
  | other message now hsigner =>
    rw [List.append_nil]
    obtain ⟨hrequest, -, hgrows⟩ := s.round.receive_frame s.archive message now
    refine h.elsewhere rfl rfl hrequest ?_ hgrows
    exact (s.round.receive_peers s.archive message now pin).resolve_right fun hk => hsigner hk.1.symm
  | otherFailed key hkey =>
    rw [List.append_nil]
    refine h.elsewhere rfl rfl (s.round.failed_frame key).1 ?_ (Grows.refl _)
    exact (s.round.failed_peers key pin).resolve_right fun hk => hkey hk.1.symm
  | rotate =>
    rw [List.append_nil]
    exact h.elsewhere rfl rfl rfl rfl (Grows.refl _)
  | learn raw budget =>
    rw [List.append_nil]
    exact h.elsewhere rfl rfl rfl rfl (ingest_grows _ _ _)

theorem Sound.run {search : Search crypto} {owner : OwnerId} (hsource : source.Settled) (h : Sound source pin [] s)
    (hrun : Steps (Exchange.Step search source owner pin) s notes t) : Sound source pin notes t :=
  hrun.recorded h fun _ _ _ _ hs hstep => hs.step hsource hstep

end

/-! ### Runs -/

theorem Round.new_frame {request : Request} {pins : List Bytes32} {channel : ChannelScope} {round : Round}
    (h : Round.new crypto request pins channel = .ok round) {pin : Bytes32} (hpin : pin ∈ pins) :
    round.request = request ∧ round.peers[pin]? = some {} := by
  simp only [Round.new, bind_eq_ok, require_eq_ok] at h
  obtain ⟨_, hbounds, _, -, h⟩ := h
  cases h
  have hascending : ascendingBy compare pins = true := by
    simp only [Bool.not_eq_true', Bool.or_eq_false_iff] at hbounds
    simpa using hbounds.2
  have hnodup : (pins.map id).Nodup := by
    rw [List.map_id]
    exact nodup_of_ascendingBy hascending
  exact ⟨rfl, Maps.getElem?_insertAll_of_mem hnodup hpin⟩

theorem Sound.start {source archive : Archive crypto} {request : Request} {pins : List Bytes32} {channel : ChannelScope} {round : Round}
    {pin : Bytes32} (harchive : archive.Settled) (hrealm : archive.realm = request.realm)
    (hround : Round.new crypto request pins channel = .ok round) (hpin : pin ∈ pins)
    (hknown : ∀ id ∈ request.known, archive.records.contains id = true) :
    Sound source pin [] ⟨archive, round, .new request, .idle⟩ := by
  obtain ⟨hrequest, hpeer⟩ := Round.new_frame hround hpin
  exact {
    settled := harchive
    archive := by rw [hrequest]; exact hrealm
    nonce := by rw [hrequest]; rfl
    realm := by rw [hrequest]; rfl
    held := hknown
    reported := fun _ h => absurd h List.not_mem_nil
    sequence := rfl
    small := Nat.zero_le _
    answer := fun _ h => (nomatch h)
    peer := ⟨{}, hpeer, rfl, rfl, fun _ => ⟨rfl, Nat.zero_le _⟩, fun h => absurd rfl h, fun _ h => (nomatch h)⟩
    pages := fun _ h => absurd h List.not_mem_nil
    growing := .nil
    latest := fun _ h => (nomatch h)
    inTurn := fun _ _ _ h => absurd h (List.append_ne_nil_of_right_ne_nil _ (List.cons_ne_nil _ _)).symm
    unreported := fun _ _ _ h => absurd h (List.append_ne_nil_of_right_ne_nil _ (List.cons_ne_nil _ _)).symm }

theorem RoundStep.of_receive {round round' : Round} {archive archive' : Archive crypto} {message : Session.VerifiedEnvelope}
    {now : UInt64} {result : Except Error Unit} (h : round.receive archive message now = (result, round', archive')) :
    RoundStep (round, archive) [.received message.signerKey message.envelope.body.length] (round', archive') := by
  have hstep := RoundStep.receive round archive message now
  rw [h] at hstep
  exact hstep

theorem Exchange.Step.rounds {search : Search crypto} {source : Archive crypto} {owner : OwnerId} {pin : Bytes32} {s t : Exchange crypto}
    {notes : List (Note crypto)} (h : Exchange.Step search source owner pin s notes t) :
    ∃ log, Steps RoundStep (s.round, s.archive) log (t.round, t.archive) := by
  cases h with
  | refresh | answer | silent => exact ⟨[], .refl _⟩
  | deliver _ _ hreceive | reject _ _ hreceive => exact ⟨_, .single (.of_receive hreceive)⟩
  | lose => exact ⟨_, .single (.failed s.round s.archive pin)⟩
  | other message now => exact ⟨_, .single (.receive s.round s.archive message now)⟩
  | otherFailed key => exact ⟨_, .single (.failed s.round s.archive key)⟩
  | rotate => exact ⟨_, .single (.nextPeer s.round s.archive)⟩
  | learn raw budget => exact ⟨_, .single (.archive s.round s.archive _)⟩

theorem Sound.complete {source : Archive crypto} {pin : Bytes32} {notes : List (Note crypto)} {s : Exchange crypto} (h : Sound source pin notes s)
    {first last : Page crypto} (hfirst : first ∈ (accepted notes).head?) (hlast : last ∈ (accepted notes).getLast?)
    (henough : gap source first + wasted (accepted notes) ≤ maxRecordsPerFrame * (accepted notes).length) :
    (∃ peer, s.round.peers[pin]? = some peer ∧ peer.stats.providerRemaining = 0) ∧
    ∀ (id : RecordId) (record : VerifiedRecord crypto), source.records[id]? = some record →
      s.archive.records.contains id = true ∨ last.Refused record.encode := by
  have hanswers : Answers source last.known last.response := h.pages last (List.mem_of_getLast? hlast)
  obtain ⟨hlastFull, hremaining⟩ := hanswers.full
  have hgap : gap source last ≤ maxRecordsPerFrame := by
    have hfull : ∀ page ∈ accepted notes, Full source page := fun page hpage => (h.pages page hpage).full.1
    have hgrow := h.growing
    cases hpages : accepted notes with
    | nil =>
      rw [hpages] at hfirst
      cases hfirst
    | cons page pages =>
      rw [hpages] at hfirst hlast henough hfull hgrow
      cases hfirst
      have hle := gap_last hfull hgrow henough
      rw [List.getLast?_eq_some_getLast (List.cons_ne_nil _ _)] at hlast
      cases hlast
      exact hle
  have hcount : last.ids.length = gap source last := by
    rw [hlastFull.count]
    omega
  obtain ⟨peer, hpeer, haccount⟩ := h.peer
  refine ⟨⟨peer, hpeer, ?_⟩, fun id record hrecord => ?_⟩
  · rw [haccount.remaining last hlast, hremaining]
    omega
  · obtain ⟨hknown, hrecords⟩ := h.latest last hlast
    by_cases hid : id ∈ last.known
    · exact .inl (h.held id (hknown hid))
    · have hcontains : source.records.contains id = true := by
        rw [Std.ExtTreeMap.contains_eq_isSome_getElem?, hrecord]
        rfl
      have hperm : last.ids.Perm ((source.missing last.known).map Prod.fst) := by
        refine (List.subperm_of_subset hlastFull.nodup hlastFull.missing).perm_of_length_le ?_
        rw [List.length_map]
        exact hcount.ge
      have hserved : id ∈ last.ids := hperm.mem_iff.2 (mem_keys_missing.2 ⟨hcontains, hid⟩)
      obtain ⟨ids, -, -, hpage, -⟩ := hanswers.page
      rw [Page.ids, recordIds_eq hpage] at hserved
      obtain ⟨raw, hraw, record', hrecord', rfl⟩ := forall₂_mem_right hpage.flip hserved
      rw [hrecord] at hrecord'
      cases hrecord'
      obtain hrefused | ⟨held, hdecode, hheld⟩ := hrecords _ hraw
      · exact .inr hrefused
      · rw [VerifiedRecord.decode_eq_ok.2 rfl] at hdecode
        cases hdecode
        exact .inl (source.keyed id record hrecord ▸ hheld)

section
variable {search : Search crypto} {source archive : Archive crypto} {owner : OwnerId} {realm : RealmId} {limits limits' : Social.Limits}
  {request : Request} {pins : List Bytes32} {channel : ChannelScope} {round : Round} {pin : Bytes32} {notes : List (Note crypto)}
  {s : Exchange crypto}

end

/-! ### A requester without records, and one peer -/

open Social (sampleCrypto sampleKey sampleEmpty sampleArchive sampleOwner sampleEmpty_reachable sampleArchive_reachable sampleLimits)

def sampleRequest : Request := ⟨Vector.replicate 32 7, ⟨77⟩, ⟨"x", ["x"]⟩, none, [], rfl⟩

def sampleChannel : ChannelScope := ⟨⟨1⟩, ⟨2⟩, 1⟩

def sampleRound : Round := ⟨sampleRequest, sampleChannel, Maps.insertAll id (fun _ => {}) ∅ [sampleKey], ∅, none⟩

def sampleStart : Exchange sampleCrypto := ⟨sampleEmpty, sampleRound, .new sampleRequest, .idle⟩

end Valhalla.Retrieval
