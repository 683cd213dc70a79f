import Valhalla.Relay.Item
import Valhalla.Lib.Paging

/-!
# Mailbox pages on the wire (`codec.rs` of `vhalla-private-relay`)

A page is checked against the cursor and the limit that it answers, on both sides. The writer cuts a page that is too
large and then says that there is more; the reader takes the next cursor from the last record.
-/

namespace Valhalla.Relay
open Fallible FixedWidth Check

def maxRelayPage : Nat := 64
def maxPageBody : Nat := 4 * 1024 * 1024

structure PositionedItem where
  position : UInt64
  item : RelayItem
deriving DecidableEq

structure RelayPage where
  head : UInt64
  next : Option UInt64
  records : List PositionedItem
deriving DecidableEq

/-- The loop of `validate_page`: the position after the last record. -/
def checkPositions (head : UInt64) : UInt64 → List PositionedItem → Except NetError UInt64
  | previous, [] => .ok previous
  | previous, record :: records => do
    require .malformed (some record.position == checkedAdd previous 1 && decide (record.position ≤ head))
    checkPositions head record.position records

def validatePage (page : RelayPage) (after : UInt64) (limit : Nat) : Except NetError Unit := do
  require .malformed (limit != 0 && decide (limit ≤ maxRelayPage) && decide (page.records.length ≤ limit))
  if page.head < after then require .malformed (page.records.isEmpty && page.next.isNone)
  else do
    let previous ← checkPositions page.head after page.records
    require .malformed (!(decide (previous < page.head) && (page.records.isEmpty || page.next != some previous) ||
      previous == page.head && page.next.isSome))

section
variable (crypto : Crypto)

/-! ### Writing -/

def putRecord (record : PositionedItem) : List UInt8 :=
  toBe record.position ++ (toBe (UInt32.ofNat (record.item.encode crypto).length) ++ record.item.encode crypto)

/-- What the loop of `encode_page` has written. -/
structure Packed where
  items : List UInt8
  count : Nat
  more : Bool

def pack : List PositionedItem → Packed → Packed
  | [], packed => packed
  | record :: records, packed =>
    if 11 + packed.items.length + 12 + (record.item.encode crypto).length > maxPageBody ∧ packed.count > 0 then
      { packed with more := true }
    else pack records { packed with items := packed.items ++ putRecord crypto record, count := packed.count + 1 }

def encodePage (page : RelayPage) : Except NetError (List UInt8) :=
  if page.records.length > maxRelayPage then .error .bounds
  else
    let packed := pack crypto page.records ⟨[], 0, page.next.isSome⟩
    .ok (toBe page.head ++ ((if packed.more then 1 else 0) :: (toBe (UInt16.ofNat packed.count) ++ packed.items)))

/-! ### Reading -/

def getMore : Reader NetError Bool := do
  match ← (Reader.int .malformed : Reader NetError UInt8) with
  | 0 => pure false
  | 1 => pure true
  | _ => throw .malformed

def getRecord : Reader NetError PositionedItem := do
  let position ← (Reader.int .malformed : Reader NetError UInt64)
  Reader.lift (require .malformed (position != 0))
  let length ← (Reader.int .malformed : Reader NetError UInt32)
  let raw ← Reader.take .malformed (toNat length)
  let item ← Reader.lift ((RelayItem.decode crypto raw).mapError fun _ => .malformed)
  pure ⟨position, item⟩

def getBody (limit : Nat) : Reader NetError (UInt64 × Bool × List PositionedItem) := do
  let head ← Reader.int .malformed
  let more ← getMore
  let count ← (Reader.int .malformed : Reader NetError UInt16)
  Reader.lift (require .malformed (decide (toNat count ≤ limit)))
  let records ← Reader.replicate (getRecord crypto) (toNat count)
  pure (head, more, records)

def decodePage (body : List UInt8) (after : UInt64) (limit : Nat) : Except NetError RelayPage := do
  require .malformed (decide (11 ≤ body.length) && decide (body.length ≤ maxPageBody) && decide (1 ≤ limit) &&
    decide (limit ≤ maxRelayPage))
  let (head, more, records) ← Reader.complete .malformed (getBody crypto limit) body
  require .malformed (!(more && records.isEmpty) && ascending (records.map (·.position)))
  let page := ⟨head, if more then records.getLast?.map (·.position) else none, records⟩
  validatePage page after limit
  pure page

end
end Valhalla.Relay

/-!
## Mailbox pages lose nothing

A valid page is read back as a start of it that is a valid page again (`decode_encodePage`), and exactly the encodings
of valid pages are accepted (`decodePage_eq_ok`).
-/

namespace Valhalla.Relay
open Fallible FixedWidth Check

variable {crypto : Crypto} {page : RelayPage} {records : List PositionedItem} {record : PositionedItem} {after head : UInt64} {limit : Nat}

/-! ### Valid pages -/

def Contiguous (after : Nat) (records : List PositionedItem) : Prop :=
  records.map (·.position.toNat) = List.range' (after + 1) records.length

/-- What the check of a page says, position by position. -/
structure ValidPage (page : RelayPage) (after : UInt64) (limit : Nat) : Prop where
  pos : 0 < limit
  le : limit ≤ maxRelayPage
  length_le : page.records.length ≤ limit
  beyond : page.head < after → page.records = [] ∧ page.next = none
  contiguous : after ≤ page.head → Contiguous after.toNat page.records ∧ after.toNat + page.records.length ≤ page.head.toNat
  remains : after ≤ page.head → after.toNat + page.records.length < page.head.toNat →
    page.records ≠ [] ∧ ∃ next, page.next = some next ∧ next.toNat = after.toNat + page.records.length
  ends : after ≤ page.head → after.toNat + page.records.length = page.head.toNat → page.next = none

theorem checkPositions_eq_ok {previous last : UInt64} (hle : previous ≤ head) : checkPositions head previous records = .ok last ↔
    Contiguous previous.toNat records ∧ last.toNat = previous.toNat + records.length ∧ last ≤ head := by
  induction records generalizing previous with
  | nil =>
    rw [checkPositions, Contiguous, Except.ok.injEq]
    constructor
    · rintro rfl
      exact ⟨rfl, rfl, hle⟩
    · rintro ⟨-, hlast, -⟩
      exact (UInt64.toNat_inj.1 hlast).symm
  | cons record records ih =>
    rw [checkPositions, bind_eq_ok]
    simp only [require_eq_ok, Bool.and_eq_true, beq_iff_eq, decide_eq_true_eq]
    have hnext : some record.position = checkedAdd previous 1 ↔ record.position.toNat = previous.toNat + 1 := by
      rw [eq_comm, checkedAdd_eq_some]
      rfl
    have hcontiguous : Contiguous previous.toNat (record :: records) ↔
        record.position.toNat = previous.toNat + 1 ∧ Contiguous record.position.toNat records := by
      rw [Contiguous, Contiguous, List.map_cons, List.length_cons, List.range'_succ, List.cons.injEq]
      constructor
      · rintro ⟨h, hrest⟩
        exact ⟨h, by rw [h]; exact hrest⟩
      · rintro ⟨h, hrest⟩
        exact ⟨h, by rw [h] at hrest; exact hrest⟩
    rw [hcontiguous, List.length_cons]
    constructor
    · rintro ⟨_, ⟨hposition, hhead⟩, hrest⟩
      rw [hnext] at hposition
      obtain ⟨hc, hlast, hlastle⟩ := (ih hhead).1 hrest
      exact ⟨⟨hposition, hc⟩, by omega, hlastle⟩
    · rintro ⟨⟨hposition, hc⟩, hlast, hlastle⟩
      have hhead : record.position ≤ head := by
        rw [UInt64.le_iff_toNat_le] at hlastle ⊢
        omega
      exact ⟨(), ⟨hnext.2 hposition, hhead⟩, (ih hhead).2 ⟨hc, by omega, hlastle⟩⟩

theorem validatePage_eq_ok : validatePage page after limit = .ok () ↔ ValidPage page after limit := by
  unfold validatePage
  rw [bind_eq_ok]
  simp only [require_eq_ok, Bool.and_eq_true, bne_iff_ne, decide_eq_true_eq]
  by_cases hbeyond : page.head < after
  · have hnot : ¬ after ≤ page.head := UInt64.not_le.2 hbeyond
    simp only [if_pos hbeyond, require_eq_ok, Bool.and_eq_true, List.isEmpty_iff, Option.isNone_iff_eq_none]
    constructor
    · rintro ⟨_, ⟨⟨hpos, hle⟩, hlength⟩, hempty⟩
      exact ⟨Nat.pos_of_ne_zero hpos, hle, hlength, fun _ => hempty, fun h => absurd h hnot, fun h => absurd h hnot, fun h => absurd h hnot⟩
    · intro h
      exact ⟨(), ⟨⟨h.pos.ne', h.le⟩, h.length_le⟩, h.beyond hbeyond⟩
  · have hafter : after ≤ page.head := UInt64.not_lt.1 hbeyond
    have hlt : ∀ last : UInt64, last < page.head ↔ last.toNat < page.head.toNat := fun last => UInt64.lt_iff_toNat_lt
    have heq : ∀ last : UInt64, last = page.head ↔ last.toNat = page.head.toNat := fun last => UInt64.toNat_inj.symm
    simp only [if_neg hbeyond, bind_eq_ok, checkPositions_eq_ok hafter, require_eq_ok, Bool.not_eq_true', Bool.or_eq_false_iff,
      Bool.and_eq_false_iff, decide_eq_false_iff_not, List.isEmpty_eq_false_iff, bne_eq_false_iff_eq, beq_eq_false_iff_ne, ne_eq,
      Option.isSome_eq_false_iff, Option.isNone_iff_eq_none, hlt, heq]
    constructor
    · rintro ⟨_, ⟨⟨hpos, hle⟩, hlength⟩, last, ⟨hc, hlast, hlastle⟩, hmore, hend⟩
      rw [UInt64.le_iff_toNat_le, hlast] at hlastle
      rw [hlast] at hmore hend
      refine ⟨Nat.pos_of_ne_zero hpos, hle, hlength, fun h => absurd h hbeyond, fun _ => ⟨hc, hlastle⟩, fun _ hremains => ?_, fun _ hends => ?_⟩
      · obtain ⟨hne, hnext⟩ := hmore.resolve_left fun h => h hremains
        exact ⟨hne, last, hnext, hlast⟩
      · exact hend.resolve_left fun h => h hends
    · intro h
      obtain ⟨hc, hlastle⟩ := h.contiguous hafter
      have hfits : after.toNat + page.records.length < 256 ^ bytes UInt64 := Nat.lt_of_le_of_lt hlastle page.head.toNat_lt
      have hlast : (UInt64.ofNat (after.toNat + page.records.length)).toNat = after.toNat + page.records.length := toNat_ofNat _ hfits
      refine ⟨(), ⟨⟨h.pos.ne', h.le⟩, h.length_le⟩, UInt64.ofNat (after.toNat + page.records.length), ⟨hc, hlast, ?_⟩, ?_, ?_⟩
      · rwa [UInt64.le_iff_toNat_le, hlast]
      · rw [hlast]
        by_cases hremains : after.toNat + page.records.length < page.head.toNat
        · obtain ⟨hne, next, hnext, hto⟩ := h.remains hafter hremains
          refine .inr ⟨hne, ?_⟩
          rw [hnext, Option.some.injEq]
          exact UInt64.toNat_inj.1 (hto.trans hlast.symm)
        · exact .inl hremains
      · rw [hlast]
        by_cases hends : after.toNat + page.records.length = page.head.toNat
        · exact .inr (h.ends hafter hends)
        · exact .inl hends

/-! ### Bodies -/

/-- A page as it is written: its head, whether there is more, and its records. -/
def putBody (crypto : Crypto) (body : UInt64 × Bool × List PositionedItem) : List UInt8 :=
  toBe body.1 ++ ((if body.2.1 then 1 else 0) :: (toBe (UInt16.ofNat body.2.2.length) ++ body.2.2.flatMap (putRecord crypto)))

theorem codec_more : Codec getMore (fun more => [if more then 1 else 0]) fun _ => True := by
  refine .tagged (fun r => ⟨_, [], rfl⟩) fun t => ?_
  split
  · exact .constant (by decide) rfl
  · exact .constant (by decide) rfl
  · exact .none (fun _ => ⟨_, rfl⟩) fun r => by cases r <;> simp_all [eq_comm]

theorem toNat_length_encode (item : RelayItem) : toNat (UInt32.ofNat (item.encode crypto).length) = (item.encode crypto).length :=
  toNat_ofNat _ (Nat.lt_of_le_of_lt RelayItem.length_encode_le (by decide))

theorem codec_record : Codec (getRecord crypto) (putRecord crypto) (·.position ≠ 0) := by
  refine ⟨fun bytes record rest => ?_⟩
  simp only [getRecord, exec_bind_eq_ok, (Codec.int _).iff, (Codec.take _ _).iff, RelayItem.exec_lift_eq_ok, exec_pure, Prod.mk.injEq,
    Except.ok.injEq, require_eq_ok, bne_iff_ne, mapError_eq_ok, RelayItem.decode_eq_ok, and_true, id]
  constructor
  · rintro ⟨position, _, rfl, _, _, ⟨hne, rfl⟩, length, _, rfl, _, _, ⟨rfl, hlength⟩, item, _, ⟨rfl, rfl⟩, rfl, rfl⟩
    have hcount : UInt32.ofNat (item.encode crypto).length = length := by
      rw [hlength]
      exact ofNat_toNat length
    exact ⟨by rw [putRecord, hcount, List.append_assoc, List.append_assoc], hne⟩
  · rintro ⟨rfl, hne⟩
    refine ⟨record.position, _, by rw [putRecord, List.append_assoc, List.append_assoc], (), _, ⟨hne, rfl⟩, _, _, rfl, _, rest,
      ⟨rfl, (toNat_length_encode _).symm⟩, record.item, rest, ⟨rfl, rfl⟩, rfl, rfl⟩

theorem codec_body (hlimit : limit ≤ maxRelayPage) : Codec (getBody crypto limit) (putBody crypto) fun body =>
    body.2.2.length ≤ limit ∧ ∀ record ∈ body.2.2, record.position ≠ 0 := by
  have hfits : limit < 65536 := Nat.lt_of_le_of_lt hlimit (by decide)
  refine ⟨fun bytes body rest => ?_⟩
  have hrecords : ∀ (n : Nat) (bytes : List UInt8) (records : List PositionedItem) (rest : List UInt8),
      exec (Reader.many (fun (_ : Unit) (_ : PositionedItem) => ()) (fun _ => getRecord crypto) n ()) bytes = (.ok records, rest) ↔
        bytes = records.flatMap (putRecord crypto) ++ rest ∧ records.length = n ∧
          Codec.Chained (fun _ record => record.position ≠ 0) (fun _ _ => ()) () records :=
    fun n => (Codec.many (fun _ => codec_record) n ()).iff
  simp only [getBody, Reader.replicate, exec_bind_eq_ok, (Codec.int _).iff, codec_more.iff, RelayItem.exec_lift_eq_ok, hrecords, exec_pure,
    Prod.mk.injEq, Except.ok.injEq, require_eq_ok, decide_eq_true_eq, and_true, Codec.chained_of_forall]
  constructor
  · rintro ⟨head, _, rfl, more, _, rfl, count, _, rfl, _, _, ⟨hle, rfl⟩, records, _, ⟨rfl, hlength, hne⟩, rfl, rfl⟩
    have hcount : UInt16.ofNat records.length = count := by
      rw [hlength]
      exact ofNat_toNat count
    refine ⟨?_, by rw [hlength]; exact hle, hne⟩
    rw [putBody, hcount]
    simp only [List.append_assoc, List.cons_append, List.nil_append]
  · rintro ⟨rfl, hle, hne⟩
    have hcount : toNat (UInt16.ofNat body.2.2.length) = body.2.2.length := toNat_ofNat _ (Nat.lt_of_le_of_lt hle hfits)
    refine ⟨body.1, _, by rw [putBody, List.append_assoc], body.2.1, _, by simp only [List.cons_append, List.nil_append, List.append_assoc],
      UInt16.ofNat body.2.2.length, _, rfl, (), _, ⟨by rwa [hcount], rfl⟩, body.2.2, rest, ⟨rfl, hcount.symm, hne⟩, rfl, rfl⟩

theorem length_putRecord : (putRecord crypto record).length = 12 + (record.item.encode crypto).length := by
  simp only [putRecord, List.length_append, length_toBe, bytes_uInt64, bytes_uInt32]
  omega

theorem length_putBody {more : Bool} : (putBody crypto (head, more, records)).length = 11 + (records.flatMap (putRecord crypto)).length := by
  simp only [putBody, List.length_append, List.length_cons, length_toBe, bytes_uInt64, bytes_uInt16]
  omega

/-! ### What is accepted -/

theorem Contiguous.position_toNat {n i : Nat} (h : Contiguous n records) (hi : records[i]? = some record) : record.position.toNat = n + 1 + i := by
  obtain ⟨hlt, hget⟩ := List.getElem?_eq_some_iff.1 hi
  have hpositions : (records.map (·.position.toNat))[i]? = some record.position.toNat := by rw [List.getElem?_map, hi]; rfl
  rw [h, List.getElem?_range' hlt, Nat.one_mul, Option.some.injEq] at hpositions
  exact hpositions.symm

theorem Contiguous.ne_zero {n : Nat} (h : Contiguous n records) (hmem : record ∈ records) : record.position ≠ 0 := by
  obtain ⟨i, hi⟩ := List.getElem?_of_mem hmem
  rintro hzero
  have hposition := h.position_toNat hi
  rw [hzero] at hposition
  simp only [UInt64.toNat_zero] at hposition
  omega

theorem Contiguous.ascending {n : Nat} (h : Contiguous n records) : ascending (records.map (·.position)) = true := by
  have hsorted : (records.map (·.position.toNat)).Pairwise (· < ·) := by
    rw [h]
    exact List.pairwise_lt_range'
  have htrans : IsTrans UInt64 (· < ·) := ⟨fun _ _ _ => UInt64.lt_trans⟩
  rw [ascending_iff, List.pairwise_map]
  exact (List.pairwise_map.1 hsorted).imp fun hlt => UInt64.lt_iff_toNat_lt.2 hlt

theorem ValidPage.next_eq (h : ValidPage page after limit) : page.next = if page.next.isSome then page.records.getLast?.map (·.position) else none := by
  by_cases hbeyond : page.head < after
  · rw [(h.beyond hbeyond).2]
    rfl
  · have hafter : after ≤ page.head := UInt64.not_lt.1 hbeyond
    obtain ⟨hc, hle⟩ := h.contiguous hafter
    rcases Nat.lt_or_eq_of_le hle with hremains | hends
    · obtain ⟨hne, next, hnext, hto⟩ := h.remains hafter hremains
      have hpos : 0 < page.records.length := List.length_pos_iff.2 hne
      have hlast : page.records.getLast? = some (page.records.getLast hne) := List.getLast?_eq_some_getLast hne
      have hindex : page.records[page.records.length - 1]? = some (page.records.getLast hne) := by rw [← List.getLast?_eq_getElem?, hlast]
      have hposition := hc.position_toNat hindex
      rw [hnext, hlast]
      have hsame : next.toNat = (page.records.getLast hne).position.toNat := by omega
      exact congrArg some (UInt64.toNat_inj.1 hsame)
    · rw [h.ends hafter hends]
      rfl

theorem ValidPage.records_ne (h : ValidPage page after limit) (hnext : page.next.isSome = true) : page.records ≠ [] := by
  intro hempty
  have hlast := h.next_eq
  rw [if_pos hnext, hempty] at hlast
  rw [hlast] at hnext
  cases hnext

theorem ValidPage.positions (h : ValidPage page after limit) : ∃ n, Contiguous n page.records := by
  by_cases hbeyond : page.head < after
  · exact ⟨0, by rw [(h.beyond hbeyond).1]; rfl⟩
  · exact ⟨_, (h.contiguous (UInt64.not_lt.1 hbeyond)).1⟩

theorem decodePage_eq_ok {body : List UInt8} : decodePage crypto body after limit = .ok page ↔
    ValidPage page after limit ∧ body = putBody crypto (page.head, page.next.isSome, page.records) ∧ body.length ≤ maxPageBody := by
  unfold decodePage
  simp only [bind_eq_ok, require_eq_ok, Bool.and_eq_true, decide_eq_true_eq, Bool.not_eq_true', Bool.and_eq_false_iff,
    List.isEmpty_eq_false_iff]
  constructor
  · rintro ⟨_, ⟨⟨⟨-, hmax⟩, hpos⟩, hle⟩, ⟨head, more, records⟩, hread, _, ⟨hmore, -⟩, _, hvalid, hpage⟩
    cases hpage
    rw [(codec_body hle).complete_eq_ok] at hread
    obtain ⟨rfl, hcount, hne⟩ := hread
    refine ⟨validatePage_eq_ok.1 hvalid, ?_, hmax⟩
    cases more with
    | false => rfl
    | true =>
      obtain ⟨record, hlast⟩ := Option.isSome_iff_exists.1 (List.getLast?_isSome.2 (hmore.resolve_left Bool.true_eq_false.mp))
      simp only [hlast, if_pos, Option.map_some, Option.isSome_some]
  · rintro ⟨hvalid, rfl, hmax⟩
    obtain ⟨n, hc⟩ := hvalid.positions
    refine ⟨(), ⟨⟨⟨?_, hmax⟩, hvalid.pos⟩, hvalid.le⟩, (page.head, page.next.isSome, page.records), ?_, (), ⟨?_, hc.ascending⟩, (), ?_, ?_⟩
    · rw [length_putBody]
      exact Nat.le_add_right _ _
    · rw [(codec_body hvalid.le).complete_eq_ok]
      exact ⟨rfl, hvalid.length_le, fun record hmem => hc.ne_zero hmem⟩
    · cases hnext : page.next.isSome with
      | false => exact .inl rfl
      | true => exact .inr (hvalid.records_ne hnext)
    · rw [← hvalid.next_eq]
      exact validatePage_eq_ok.2 hvalid
    · rw [← hvalid.next_eq]
      rfl

/-! ### What is written -/

/-- The loop keeps a start of the records within the bound, never an empty one, and all of them if they fit. -/
theorem pack_spec (records : List PositionedItem) {packed : Packed} (hfits : 11 + packed.items.length ≤ maxPageBody)
    (hfirst : packed.count = 0 → packed.items = []) : ∃ kept rest, records = kept ++ rest ∧
      pack crypto records packed = ⟨packed.items ++ kept.flatMap (putRecord crypto), packed.count + kept.length, packed.more || !rest.isEmpty⟩ ∧
      11 + (packed.items ++ kept.flatMap (putRecord crypto)).length ≤ maxPageBody ∧ (packed.count = 0 → records ≠ [] → kept ≠ []) ∧
      (11 + (packed.items ++ records.flatMap (putRecord crypto)).length ≤ maxPageBody → rest = []) := by
  induction records generalizing packed with
  | nil =>
    refine ⟨[], [], rfl, ?_, by simpa using hfits, fun _ h => absurd rfl h, fun _ => rfl⟩
    simp [pack]
  | cons record records ih =>
    have hsize : (record.item.encode crypto).length ≤ maxPutBody - 32 := RelayItem.length_encode_le
    rw [pack]
    split
    · rename_i hlarge
      refine ⟨[], record :: records, rfl, ?_, by simpa using hfits, fun hzero => by omega, fun hall => ?_⟩
      · simp
      · rw [List.flatMap_cons, List.length_append, List.length_append, length_putRecord] at hall
        omega
    · rename_i hroom
      have hnext : 11 + (packed.items ++ putRecord crypto record).length ≤ maxPageBody := by
        rw [List.length_append, length_putRecord]
        by_cases hzero : packed.count = 0
        · rw [hfirst hzero, List.length_nil]
          have hbound : 11 + (0 + (12 + (maxPutBody - 32))) ≤ maxPageBody := by decide
          omega
        · omega
      obtain ⟨kept, rest, rfl, hpack, hbound, -, hall⟩ := @ih ⟨packed.items ++ putRecord crypto record, packed.count + 1, packed.more⟩ hnext
        fun h => absurd h (Nat.succ_ne_zero _)
      rw [List.append_assoc, ← List.flatMap_cons] at hpack hbound hall
      refine ⟨record :: kept, rest, rfl, ?_, hbound, fun _ _ => List.cons_ne_nil _ _, hall⟩
      rw [hpack, List.length_cons, Nat.add_right_comm, Nat.add_assoc packed.count]

theorem encodePage_spec (h : page.records.length ≤ maxRelayPage) : ∃ kept rest, page.records = kept ++ rest ∧
    encodePage crypto page = .ok (putBody crypto (page.head, page.next.isSome || !rest.isEmpty, kept)) ∧
    (putBody crypto (page.head, page.next.isSome || !rest.isEmpty, kept)).length ≤ maxPageBody ∧ (page.records ≠ [] → kept ≠ []) ∧
    (11 + (page.records.flatMap (putRecord crypto)).length ≤ maxPageBody → rest = []) := by
  have hempty : 11 + ([] : List UInt8).length ≤ maxPageBody := by decide
  obtain ⟨kept, rest, hrecords, hpack, hbound, hne, hall⟩ := @pack_spec crypto page.records ⟨[], 0, page.next.isSome⟩ hempty fun _ => rfl
  rw [List.nil_append] at hpack hbound
  refine ⟨kept, rest, hrecords, ?_, by rw [length_putBody]; exact hbound, hne rfl, hall⟩
  unfold encodePage
  rw [if_neg (Nat.not_lt.2 h)]
  simp only [hpack, Nat.zero_add, putBody]

theorem Contiguous.start {n : Nat} {kept rest : List PositionedItem} (h : Contiguous n (kept ++ rest)) : Contiguous n kept := by
  rw [Contiguous, List.map_append, List.length_append, ← List.range'_append_1] at h
  exact (List.append_inj h (by rw [List.length_map, List.length_range'])).1

theorem ValidPage.start {kept rest : List PositionedItem} (h : ValidPage page after limit) (hrecords : page.records = kept ++ rest)
    (hne : page.records ≠ [] → kept ≠ []) :
    ∃ next, next.isSome = (page.next.isSome || !rest.isEmpty) ∧ (rest = [] → next = page.next) ∧ ValidPage ⟨page.head, next, kept⟩ after limit := by
  have hlength : page.records.length = kept.length + rest.length := by rw [hrecords, List.length_append]
  cases rest with
  | nil =>
    rw [List.append_nil] at hrecords
    refine ⟨page.next, by simp, fun _ => rfl, ?_⟩
    rw [← hrecords]
    exact h
  | cons record rest =>
    rw [List.length_cons] at hlength
    have hsome : page.records ≠ [] := fun hempty => by
      rw [hempty, List.length_nil] at hlength
      omega
    have hafter : after ≤ page.head := UInt64.not_lt.1 fun hbeyond => hsome (h.beyond hbeyond).1
    obtain ⟨hc, hle⟩ := h.contiguous hafter
    have hfits : after.toNat + kept.length < 256 ^ bytes UInt64 := by
      have hhead : page.head.toNat < 256 ^ bytes UInt64 := page.head.toNat_lt
      omega
    have hlast : (UInt64.ofNat (after.toNat + kept.length)).toNat = after.toNat + kept.length := toNat_ofNat _ hfits
    refine ⟨some (UInt64.ofNat (after.toNat + kept.length)), by simp, fun hrest => absurd hrest (List.cons_ne_nil _ _), h.pos, h.le, ?_, ?_, ?_, ?_, ?_⟩
    · have := h.length_le
      exact show kept.length ≤ limit by omega
    · intro hbeyond
      exact absurd hafter (UInt64.not_le.2 hbeyond)
    · intro _
      rw [hrecords] at hc
      exact ⟨hc.start, show after.toNat + kept.length ≤ page.head.toNat by omega⟩
    · intro _ _
      exact ⟨hne hsome, _, rfl, hlast⟩
    · intro _ (hends : after.toNat + kept.length = page.head.toNat)
      omega

theorem ValidPage.next_remaining (h : ValidPage page after limit) :
    page.next = (page.records.getLast?.map (·.position)).filter fun last => decide (last < page.head) := by
  by_cases hbeyond : page.head < after
  · rw [(h.beyond hbeyond).1, (h.beyond hbeyond).2]
    rfl
  · have hafter : after ≤ page.head := UInt64.not_lt.1 hbeyond
    obtain ⟨hc, hle⟩ := h.contiguous hafter
    have hlt : ∀ hne : page.records ≠ [], (page.records.getLast hne).position < page.head ↔ after.toNat + page.records.length < page.head.toNat := by
      intro hne
      have hpos : 0 < page.records.length := List.length_pos_iff.2 hne
      have hindex : page.records[page.records.length - 1]? = some (page.records.getLast hne) := by
        rw [← List.getLast?_eq_getElem?, List.getLast?_eq_some_getLast hne]
      have hposition := hc.position_toNat hindex
      rw [UInt64.lt_iff_toNat_lt]
      omega
    by_cases hne : page.records = []
    · have hend : page.next = none := by
        by_contra hnext
        exact h.records_ne (Option.isSome_iff_ne_none.2 hnext) hne
      rw [hend, hne]
      rfl
    · rw [List.getLast?_eq_some_getLast hne, Option.map_some, Option.filter_some]
      by_cases hremains : after.toNat + page.records.length < page.head.toNat
      · obtain ⟨-, next, hnext, -⟩ := h.remains hafter hremains
        have hlast := h.next_eq
        rw [if_pos (by rw [hnext]; rfl), List.getLast?_eq_some_getLast hne, Option.map_some] at hlast
        rw [hlast, if_pos (decide_eq_true ((hlt hne).2 hremains))]
      · rw [h.ends hafter (by omega), if_neg]
        rw [decide_eq_true_eq, hlt hne]
        exact hremains

theorem decode_encodePage (h : ValidPage page after limit) : ∃ body next kept rest, encodePage crypto page = .ok body ∧
    decodePage crypto body after limit = .ok ⟨page.head, next, kept⟩ ∧ page.records = kept ++ rest ∧ (page.records ≠ [] → kept ≠ []) ∧
    (11 + (page.records.flatMap (putRecord crypto)).length ≤ maxPageBody → kept = page.records ∧ next = page.next) ∧
    ValidPage ⟨page.head, next, kept⟩ after limit := by
  obtain ⟨kept, rest, hrecords, hencode, hbound, hne, hall⟩ := @encodePage_spec crypto page (h.length_le.trans h.le)
  obtain ⟨next, hsome, hsame, hvalid⟩ := h.start hrecords hne
  rw [← hsome] at hencode hbound
  refine ⟨_, next, kept, rest, hencode, decodePage_eq_ok.2 ⟨hvalid, rfl, hbound⟩, hrecords, hne, fun hfits => ?_, hvalid⟩
  have hrest := hall hfits
  rw [hrest, List.append_nil] at hrecords
  exact ⟨hrecords.symm, hsame hrest⟩

end Valhalla.Relay
