import Valhalla.Relay.Page
import Valhalla.Relay.Runs

/-!
# A mailbox read page by page

A host answers every cursor with a valid page of its mailbox, and a client follows the cursors of what it reads. The
items that a page loses on the wire are those that the next cursor asks for again.
-/

namespace Valhalla.Relay
open Check

variable {crypto : Crypto}

def positioned (items : List RelayItem) : List PositionedItem := items.mapIdx fun i item => ⟨UInt64.ofNat (i + 1), item⟩

theorem length_positioned {items : List RelayItem} : (positioned items).length = items.length := List.length_mapIdx

def fetch (crypto : Crypto) (limit : UInt64 → Nat) (serve : UInt64 → RelayPage) (after : UInt64) :
    Except NetError (List PositionedItem × Option UInt64) := do
  let body ← encodePage crypto (serve after)
  let page ← decodePage crypto body after (limit after)
  pure (page.records, page.next)

/-- A host whose pages are those of a mailbox, for any limit at each cursor. -/
structure Hosts (items : List RelayItem) (limit : UInt64 → Nat) (serve : UInt64 → RelayPage) : Prop where
  valid : ∀ after : UInt64, after.toNat ≤ items.length → validatePage (serve after) after (limit after) = .ok ()
  head : ∀ after : UInt64, after.toNat ≤ items.length → (serve after).head.toNat = items.length
  retained : ∀ after : UInt64, after.toNat ≤ items.length → ∀ record ∈ (serve after).records,
    (positioned items)[record.position.toNat - 1]? = some record

theorem Contiguous.isPrefix {n : Nat} {records all : List PositionedItem} (h : Contiguous n records)
    (hall : ∀ record ∈ records, all[record.position.toNat - 1]? = some record) : records <+: all.drop n := by
  rw [List.prefix_iff_eq_take]
  refine List.ext_getElem? fun i => ?_
  rw [List.getElem?_take, List.getElem?_drop]
  cases hi : records[i]? with
  | none =>
    rw [if_neg (by rw [List.getElem?_eq_none_iff] at hi; omega)]
  | some record =>
    have hget := hall record (List.mem_of_getElem? hi)
    rw [h.position_toNat hi, Nat.add_right_comm, Nat.add_sub_cancel] at hget
    rw [if_pos (List.getElem?_eq_some_iff.1 hi).1, hget]

theorem Hosts.serves {items : List RelayItem} {limit : UInt64 → Nat} {serve : UInt64 → RelayPage} (h : Hosts items limit serve) :
    Paging.Serves (fetch crypto limit serve) (·.toNat ≤ items.length) fun after => (positioned items).drop after.toNat := by
  refine ⟨fun after hafter => ?_⟩
  have hhead := h.head after hafter
  obtain ⟨body, next, kept, rest, hencode, hdecode, hrecords, -, -, hvalid⟩ :=
    @decode_encodePage crypto (serve after) after (limit after) (validatePage_eq_ok.1 (h.valid after hafter))
  have hle : after ≤ (serve after).head := by rwa [UInt64.le_iff_toNat_le, hhead]
  obtain ⟨hc, hbound⟩ := hvalid.contiguous hle
  have hstretch : kept <+: (positioned items).drop after.toNat := hc.isPrefix fun record hmem =>
    h.retained after hafter record (by rw [hrecords]; exact List.mem_append_left _ hmem)
  refine ⟨kept, next, ?_, ?_⟩
  · rw [fetch, hencode]
    show (do let page ← decodePage crypto body after (limit after); pure (page.records, page.next)) = _
    rw [hdecode]
    rfl
  · obtain ⟨more, hmore⟩ := hstretch
    have hlength : kept.length + more.length = items.length - after.toNat := by
      rw [← List.length_append, hmore, List.length_drop, length_positioned]
    dsimp only at hbound
    rw [hhead] at hbound
    rcases Nat.lt_or_eq_of_le hbound with hremains | hends
    · obtain ⟨hne, last, hlast, hto⟩ := hvalid.remains hle (by rw [hhead]; exact hremains)
      dsimp only at hlast hne hto
      rw [hlast]
      refine ⟨by omega, hne, ?_⟩
      rw [hto, ← List.drop_drop, ← hmore, List.drop_left]
    · have hnext := hvalid.ends hle (by rw [hhead]; exact hends)
      dsimp only at hnext
      rw [hnext]
      have hnone : more = [] := List.eq_nil_of_length_eq_zero (by omega)
      show kept = _
      rw [← hmore, hnone, List.append_nil]

def RelayPage.size (crypto : Crypto) (page : RelayPage) : Nat := 11 + (page.records.flatMap (putRecord crypto)).length

theorem encodePage_of_decodePage {body : List UInt8} {after : UInt64} {limit : Nat} {page : RelayPage}
    (h : decodePage crypto body after limit = .ok page) : encodePage crypto page = .ok body := by
  obtain ⟨hvalid, rfl, hfits⟩ := decodePage_eq_ok.1 h
  obtain ⟨kept, rest, hrecords, hencode, -, -, hall⟩ := @encodePage_spec crypto page (hvalid.length_le.trans hvalid.le)
  rw [length_putBody] at hfits
  have hrest := hall hfits
  rw [hrest, List.append_nil] at hrecords
  rw [hencode, hrest, ← hrecords, List.isEmpty_nil, Bool.not_true, Bool.or_false]

/-- What a page is read as, what following the cursors gives, and which bodies are accepted. -/
theorem paging_lossless (crypto : Crypto) :
    (∀ (page : RelayPage) (after : UInt64) (limit : Nat), validatePage page after limit = .ok () → ∃ body read,
      encodePage crypto page = .ok body ∧ decodePage crypto body after limit = .ok read ∧ read.head = page.head ∧
      read.records <+: page.records ∧ (page.records ≠ [] → read.records ≠ []) ∧ (page.size crypto ≤ maxPageBody → read = page) ∧
      read.next = (read.records.getLast?.map (·.position)).filter fun last => decide (last < read.head)) ∧
    (∀ (items : List RelayItem) (limit : UInt64 → Nat) (serve : UInt64 → RelayPage), Hosts items limit serve →
      ∀ after : UInt64, after.toNat ≤ items.length → ∀ n, items.length - after.toNat < n →
        ∃ pages, Paging.follow (fetch crypto limit serve) n after = some pages ∧ pages.flatten = (positioned items).drop after.toNat) ∧
    ∀ (body : List UInt8) (after : UInt64) (limit : Nat) (page : RelayPage), decodePage crypto body after limit = .ok page →
      encodePage crypto page = .ok body ∧
        (page.records.map (·.position.toNat) = List.range' (after.toNat + 1) page.records.length) := by
  refine ⟨fun page after limit hvalid => ?_, fun items limit serve hhosts after hafter n hn => ?_, fun body after limit page hdecode => ?_⟩
  · obtain ⟨body, next, kept, rest, hencode, hdecode, hrecords, hne, hall, hread⟩ :=
      @decode_encodePage crypto page after limit (validatePage_eq_ok.1 hvalid)
    refine ⟨body, ⟨page.head, next, kept⟩, hencode, hdecode, rfl, ⟨rest, hrecords.symm⟩, hne, fun hfits => ?_, hread.next_remaining⟩
    obtain ⟨rfl, rfl⟩ := hall hfits
    rfl
  · refine hhosts.serves.follow hafter ?_
    rw [List.length_drop, length_positioned]
    exact hn
  · refine ⟨encodePage_of_decodePage hdecode, ?_⟩
    obtain ⟨hvalid, -, -⟩ := decodePage_eq_ok.1 hdecode
    by_cases hbeyond : page.head < after
    · rw [(hvalid.beyond hbeyond).1]
      rfl
    · exact (hvalid.contiguous (UInt64.not_lt.1 hbeyond)).1

def samplePage : RelayPage := ⟨1, none, [⟨1, sampleItem⟩]⟩

/-- It answers the only cursor before its head with its item, and the head with nothing. -/
def sampleHost (after : UInt64) : RelayPage := if after = 0 then samplePage else ⟨1, none, []⟩

theorem sampleHost_hosts : Hosts [sampleItem] (fun _ => 1) sampleHost := by
  have hcursor : ∀ after : UInt64, after.toNat ≤ [sampleItem].length → after = 0 ∨ after = 1 := by
    intro after hafter
    rcases Nat.le_one_iff_eq_zero_or_eq_one.1 hafter with hzero | hone
    · exact .inl (UInt64.toNat_inj.1 hzero)
    · exact .inr (UInt64.toNat_inj.1 hone)
  refine ⟨fun after hafter => ?_, fun after hafter => ?_, fun after hafter record hrecord => ?_⟩
  · rcases hcursor after hafter with rfl | rfl <;> rfl
  · rcases hcursor after hafter with rfl | rfl <;> rfl
  · rcases hcursor after hafter with rfl | rfl
    · rw [List.mem_singleton.1 hrecord]
      rfl
    · cases hrecord

theorem paging_lossless_sampleHost : (∃ body read, encodePage sampleCrypto samplePage = .ok body ∧
      decodePage sampleCrypto body 0 1 = .ok read ∧ read.records ≠ [] ∧ encodePage sampleCrypto read = .ok body) ∧
    ∃ pages, Paging.follow (fetch sampleCrypto (fun _ => 1) sampleHost) 2 0 = some pages ∧ pages.flatten = [⟨1, sampleItem⟩] := by
  obtain ⟨hpage, hmailbox, hbody⟩ := paging_lossless sampleCrypto
  obtain ⟨body, read, hencode, hdecode, -, -, hne, -, -⟩ := hpage samplePage 0 1 rfl
  refine ⟨⟨body, read, hencode, hdecode, hne (List.cons_ne_nil _ _), (hbody body 0 1 read hdecode).1⟩, ?_⟩
  exact hmailbox [sampleItem] _ sampleHost sampleHost_hosts 0 (Nat.zero_le _) 2 (by decide)

/-- A page beyond the last item is read as it is, with nothing on it. -/
theorem start_of_page_may_be_empty : ¬ ∀ (page : RelayPage) (after : UInt64) (limit : Nat), validatePage page after limit = .ok () →
    ∃ body read, encodePage sampleCrypto page = .ok body ∧ decodePage sampleCrypto body after limit = .ok read ∧
      read.records ≠ [] ∧ read.records <+: page.records := by
  intro h
  obtain ⟨body, read, -, -, hne, hprefix⟩ := h ⟨0, none, []⟩ 0 1 rfl
  exact hne (List.prefix_nil.1 hprefix)

end Valhalla.Relay
