import Valhalla.Retrieval.Round

/-!
# One peer served page by page

A requester reports what it holds, the provider answers with a page, and the page arrives, is lost or is refused; other
peers of the round send what they like in between. `Note` records what happened.
-/

namespace Valhalla.Retrieval
open Fallible FixedWidth Check
open Social (RecordId OwnerId PostRef VerifiedRecord InputBudget Archive maxRecords maxRecordBytes)

variable {crypto : Crypto}

/-- Where the current cycle stands. -/
inductive Flight
  | idle
  | asked
  | answered (response : Response)

structure Exchange (crypto : Crypto) where
  archive : Archive crypto
  round : Round
  provider : Provider
  flight : Flight

/-- A delivered page: the inventory it answers, and the archive that it meets. -/
structure Page (crypto : Crypto) where
  known : List RecordId
  response : Response
  before : Archive crypto

inductive Note (crypto : Crypto)
  | reported (known : List RecordId)
  | served (response : Response)
  | delivered (page : Page crypto) (result : Except Error Unit)
  | lost

structure Arrives (channel : ChannelScope) (pin : Bytes32) (now : UInt64) (response : Response) (message : Session.VerifiedEnvelope) :
    Prop where
  signer : message.signerKey = pin
  realm : message.context.realm = channel.realm
  room : message.context.room = channel.room
  epoch : message.context.epoch = channel.epoch
  unexpired : now ≤ message.expiresAt
  kind : message.envelope.kind = Session.kindChat
  body : message.envelope.body = response.encode

section
variable (search : Search crypto) (source : Archive crypto) (owner : OwnerId) (pin : Bytes32)

inductive Exchange.Step : Exchange crypto → List (Note crypto) → Exchange crypto → Prop
  /-- A truthful inventory, which only grows. -/
  | refresh {s : Exchange crypto} {request : Request} {provider : Provider} (hflight : s.flight = .idle)
    (htruthful : ∀ id ∈ request.known, s.archive.records.contains id = true) (hgrowing : s.provider.request.known ⊆ request.known)
    (hrefresh : s.provider.refresh request = .ok provider) :
    Step s [.reported request.known] { s with provider := provider, flight := .asked }
  | answer {s : Exchange crypto} {now : UInt64} {response : Response} {provider : Provider} (hflight : s.flight = .asked)
    (hnext : s.provider.next search source owner now = .ok (response, provider)) :
    Step s [.served response] { s with provider := provider, flight := .answered response }
  /-- The provider fails: there is no response. -/
  | silent {s : Exchange crypto} {now : UInt64} {e : Error} (hflight : s.flight = .asked)
    (hnext : s.provider.next search source owner now = .error e) : Step s [] { s with flight := .idle }
  | deliver {s : Exchange crypto} {response : Response} {message : Session.VerifiedEnvelope} {now : UInt64}
    {result : Except Error Unit} {round : Round} {archive : Archive crypto} (hflight : s.flight = .answered response)
    (harrives : Arrives s.round.channel pin now response message)
    (hreceive : s.round.receive s.archive message now = (result, round, archive)) :
    Step s [.delivered ⟨s.provider.request.known, response, s.archive⟩ result] ⟨archive, round, s.provider, .idle⟩
  | lose {s : Exchange crypto} {response : Response} (hflight : s.flight = .answered response) :
    Step s [.lost] { s with round := (s.round.failed pin).2, flight := .idle }
  /-- What arrives in place of the response is refused. -/
  | reject {s : Exchange crypto} {response : Response} {message : Session.VerifiedEnvelope} {now : UInt64} {e : Error}
    {round : Round} {archive : Archive crypto} (hflight : s.flight = .answered response) (hsigner : message.signerKey = pin)
    (hreceive : s.round.receive s.archive message now = (.error e, round, archive)) :
    Step s [.lost] ⟨archive, round, s.provider, .idle⟩
  | other {s : Exchange crypto} (message : Session.VerifiedEnvelope) (now : UInt64) (hsigner : message.signerKey ≠ pin) :
    Step s [] { s with round := (s.round.receive s.archive message now).2.1, archive := (s.round.receive s.archive message now).2.2 }
  | otherFailed {s : Exchange crypto} (key : Bytes32) (hkey : key ≠ pin) : Step s [] { s with round := (s.round.failed key).2 }
  | rotate {s : Exchange crypto} : Step s [] { s with round := s.round.nextPeer.2 }
  /-- The requester also learns records elsewhere. -/
  | learn {s : Exchange crypto} (raw : List UInt8) (budget : InputBudget) :
    Step s [] { s with archive := (exec (Archive.ingest raw) (s.archive, budget)).2.1 }

end

/-! ### What the record of a run says -/

def concluded (notes : List (Note crypto)) : Nat :=
  notes.countP fun
    | .delivered .. | .lost => true
    | _ => false

def losses (notes : List (Note crypto)) : Nat :=
  notes.countP fun
    | .lost => true
    | _ => false

def accepted (notes : List (Note crypto)) : List (Page crypto) :=
  notes.filterMap fun
    | .delivered page (.ok ()) => some page
    | _ => none

def recordIds (crypto : Crypto) (records : List (List UInt8)) : List RecordId :=
  records.filterMap fun raw => match (VerifiedRecord.decode raw : Except Social.Error (VerifiedRecord crypto)) with
    | .ok record => some record.id
    | .error _ => none

def Page.ids (page : Page crypto) : List RecordId := recordIds crypto page.response.records

def wasted : List (Page crypto) → Nat
  | page :: next :: pages => (page.ids.countP fun id => !next.known.contains id) + wasted (next :: pages)
  | _ => 0

def Page.Refused (page : Page crypto) (raw : List UInt8) : Prop :=
  ∃ before after e, page.response.records = before ++ raw :: after ∧
    (exec (Archive.ingest raw) (offered page.before before, ⟨1, maxRecordBytes⟩)).1 = .error e

/-! ### Archives that grow -/

/-- What ingestion keeps. -/
structure Grows (a a' : Archive crypto) : Prop where
  settled : a.Settled → a'.Settled
  realm : a'.realm = a.realm
  holds : ∀ id, a.records.contains id = true → a'.records.contains id = true

theorem Grows.refl (a : Archive crypto) : Grows a a := ⟨fun h => h, rfl, fun _ h => h⟩

theorem Grows.trans {a a' a'' : Archive crypto} (h : Grows a a') (h' : Grows a' a'') : Grows a a'' :=
  ⟨fun hs => h'.settled (h.settled hs), h'.realm.trans h.realm, fun id hid => h'.holds id (h.holds id hid)⟩

theorem contains_of_bucket {a : Archive crypto} (ha : a.Settled) {id : RecordId} {bucket : Social.Bucket}
    (h : a.buckets[id]? = some bucket) : a.records.contains id = true := by
  rw [ha.buckets, Archive.recount, Social.ControlView.accounting, Social.ControlView.classified, Social.ControlView.evidence_new,
    Social.Classified.accounting] at h
  by_contra hnot
  rw [Maps.getElem?_insertAll_of_notMem] at h
  · simp at h
  · intro hmem
    rw [List.map_map] at hmem
    have hmem : id ∈ (Archive.factsOf a.records).toList.map Prod.fst := hmem
    rw [Std.ExtTreeMap.map_fst_toList_eq_keys, Std.ExtTreeMap.mem_keys] at hmem
    refine hnot ?_
    rw [Archive.factsOf, Std.ExtTreeMap.mem_map] at hmem
    exact hmem

theorem retain_grows {a a' : Archive crypto} {record : VerifiedRecord crypto} {receipt : Social.IngestReceipt}
    (h : a.retain record = .ok (receipt, a')) : Grows a a' ∧ (a.Settled → a'.records.contains record.id = true) := by
  have hframe := (Archive.Settled.retain_frame h).1
  have hsettled : a.Settled → a'.Settled := fun ha => ha.retain h
  simp only [Archive.retain, bind_eq_ok] at h
  obtain ⟨_, -, h⟩ := h
  split at h
  · rename_i bucket hbucket
    cases h
    exact ⟨Grows.refl a, fun ha => contains_of_bucket ha hbucket⟩
  · simp only [bind_eq_ok] at h
    obtain ⟨_, -, ⟨candidate, pressure⟩, hreclassify, bucket, -, _, -, he⟩ := h
    cases he
    obtain ⟨-, -, rfl, -⟩ := Archive.reclassify_eq_ok.1 hreclassify
    refine ⟨⟨hsettled, hframe, fun id hid => ?_⟩, fun _ => ?_⟩
    · show (a.records.insert record.id record).contains id = true
      rw [Std.ExtTreeMap.contains_insert, hid, Bool.or_true]
    · show (a.records.insert record.id record).contains record.id = true
      rw [Std.ExtTreeMap.contains_insert_self]

theorem ingest_grows (a : Archive crypto) (raw : List UInt8) (budget : InputBudget) :
    Grows a (exec (Archive.ingest raw) (a, budget)).2.1 := by
  rcases hrun : exec (Archive.ingest raw) (a, budget) with ⟨result, a', budget'⟩
  obtain ⟨-, rfl⟩ | ⟨record, receipt, -, -, hretain⟩ := Archive.ingest_cases hrun
  · exact Grows.refl _
  · exact (retain_grows hretain).1

theorem ingest_outcome {a : Archive crypto} (ha : a.Settled) (raw : List UInt8) (budget : InputBudget) :
    (∃ e, (exec (Archive.ingest raw) (a, budget)).1 = .error e) ∨
    ∃ record : VerifiedRecord crypto, VerifiedRecord.decode raw = .ok record ∧
      (exec (Archive.ingest raw) (a, budget)).2.1.records.contains record.id = true := by
  rcases hrun : exec (Archive.ingest raw) (a, budget) with ⟨result, a', budget'⟩
  obtain ⟨⟨e, rfl⟩, -⟩ | ⟨record, receipt, -, hdecode, hretain⟩ := Archive.ingest_cases hrun
  · exact .inl ⟨e, rfl⟩
  · exact .inr ⟨record, hdecode, (retain_grows hretain).2 ha⟩

theorem offered_grows (a : Archive crypto) (records : List (List UInt8)) : Grows a (offered a records) := by
  induction records generalizing a with
  | nil => exact Grows.refl a
  | cons raw records ih => exact (ingest_grows a raw _).trans (ih _)

theorem offered_append (a : Archive crypto) (before after : List (List UInt8)) :
    offered a (before ++ after) = offered (offered a before) after := List.foldl_append

theorem offered_outcome {page : Page crypto} (ha : page.before.Settled) {raw : List UInt8} (hraw : raw ∈ page.response.records) :
    page.Refused raw ∨ ∃ record : VerifiedRecord crypto, VerifiedRecord.decode raw = .ok record ∧
      (offered page.before page.response.records).records.contains record.id = true := by
  obtain ⟨before, after, hsplit⟩ := List.append_of_mem hraw
  have hmid := (offered_grows page.before before).settled ha
  obtain ⟨e, hrefused⟩ | ⟨record, hdecode, hheld⟩ := ingest_outcome hmid raw ⟨1, maxRecordBytes⟩
  · exact .inl ⟨before, after, e, hsplit, hrefused⟩
  · refine .inr ⟨record, hdecode, ?_⟩
    rw [hsplit, offered_append]
    exact (offered_grows _ after).holds _ hheld

/-! ### Answers -/

/-- A page of the records that the inventory `known` misses. -/
structure Answers (source : Archive crypto) (known : List RecordId) (response : Response) : Prop where
  framed : Framed response
  page : ∃ ids, ids.Nodup ∧ (∀ id ∈ ids, id ∉ known) ∧
    List.Forall₂ (fun id raw => ∃ record, source.records[id]? = some record ∧ raw = record.encode) ids response.records ∧
    ids.length = min maxRecordsPerFrame (source.missing known).length ∧
    response.providerRemaining = (source.missing known).length - ids.length

theorem length_canonical_le {hits : List PostRef} : (Ascending.canonical compare hits).length ≤ hits.length := by
  have hsorted : (Ascending.sorted compare hits).Perm hits := Ascending.sorted_perm
  rw [Ascending.canonical, ← hsorted.length_eq]
  exact (List.destutter_sublist _ _).length_le

theorem length_missing_le {source : Archive crypto} (hsource : source.Settled) (known : List RecordId) :
    (source.missing known).length ≤ maxRecords := by
  calc (source.missing known).length ≤ source.records.toList.length := List.length_filter_le _ _
    _ = source.records.size := Std.ExtTreeMap.length_toList
    _ ≤ source.limits.records := hsource.size
    _ ≤ maxRecords := Archive.records_le_of_check hsource.checked

theorem length_encode_ne (record : VerifiedRecord crypto) : record.encode.length ≠ 0 := by
  have hlength := record.signed.unsigned.le_length
  rw [VerifiedRecord.encode, Social.SignedRecord.encode]
  simp only [List.length_append]
  omega

theorem forall₂_mem_right {α β : Type} {R : α → β → Prop} {l : List α} {l' : List β} (h : List.Forall₂ R l l') {b : β} (hb : b ∈ l') :
    ∃ a ∈ l, R a b := by
  induction h with
  | nil => cases hb
  | cons hab _ ih =>
    obtain rfl | hb := List.mem_cons.1 hb
    · exact ⟨_, List.mem_cons_self, hab⟩
    · obtain ⟨a, ha, hr⟩ := ih hb
      exact ⟨a, List.mem_cons_of_mem _ ha, hr⟩

theorem Provider.next_answers {search : Search crypto} {source : Archive crypto} (hsource : source.Settled) {owner : OwnerId}
    {now : UInt64} {provider provider' : Provider} {response : Response}
    (h : provider.next search source owner now = .ok (response, provider')) :
    Answers source provider.request.known response ∧ response.nonce = provider.request.nonce ∧
      response.realm = provider.request.realm ∧ response.sequence = provider.sequence ∧ provider'.request = provider.request ∧
      provider'.sequence.toNat = provider.sequence.toNat + 1 ∧ provider.sequence.toNat < maxAttempts := by
  simp only [Provider.next, bind_eq_ok, require_eq_ok, mapError_eq_ok] at h
  obtain ⟨_, hcontext, hits, hfound, ⟨page, cursor⟩, hpage, _, hbudget, h⟩ := h
  have hsequence : provider.sequence.toNat < maxAttempts := by
    simp only [Bool.not_eq_true', Bool.or_eq_false_iff, decide_eq_false_iff_not] at hcontext
    omega
  obtain ⟨ids, hpages, hfull⟩ := Archive.nextPage_pages hpage
  have hcount : ids.length = page.records.length := hpages.records.length_eq
  cases h
  refine ⟨⟨⟨hsequence, ?_, ?_, hpages.count, ?_, ?_⟩, ids, hpages.nodup, hpages.missing, hpages.records, ?_, hpages.remaining⟩,
    rfl, rfl, rfl, rfl, ?_, hsequence⟩
  · exact length_canonical_le.trans (search.bounded _ _ _ _ _ _ (okOr_eq_ok.1 hfound))
  · exact ascendingBy_iff.2 Ascending.ascending_canonical
  · intro raw hraw
    obtain ⟨id, -, record, -, rfl⟩ := forall₂_mem_right hpages.records hraw
    exact ⟨length_encode_ne record, Social.SignedRecord.length_encode_le record.signed⟩
  · show page.remaining ≤ maxRecords
    rw [hpages.remaining]
    exact (Nat.sub_le _ _).trans (length_missing_le hsource _)
  · exact hfull (by decide) (Nat.le_refl _)
  · show (provider.sequence + 1).toNat = provider.sequence.toNat + 1
    have hsmall : maxAttempts = 32 := rfl
    have hone : (1 : UInt8).toNat = 1 := rfl
    rw [UInt8.toNat_add, hone]
    exact Nat.mod_eq_of_lt (by omega)

end Valhalla.Retrieval
