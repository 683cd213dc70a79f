import Valhalla.Relay.Retained

/-!
# The durable mailbox is the reference mailbox

Each of them does to its own data what `retain` and `view` do to the list of items, so that the same calls get the
same replies; a row that was written is read back as its item, and reopening finds what was there.
-/

namespace Valhalla.Relay.Mailbox
open FixedWidth Check
open Valhalla.PrivateKernel (OperationId)

variable {crypto : Crypto} {scope : RelayNamespace} {limits : Limits} {items : List RelayItem} {item : RelayItem}

/-! ### The ordered map -/

def entryOf (record : PositionedItem) : UInt64 × RelayItem := (record.position, record.item)

structure Store.Holds (scope : RelayNamespace) (limits : Limits) (items : List RelayItem) (store : Store) : Prop where
  scope : store.scope = scope
  limits : store.limits = limits
  bytes : store.bytes = size items
  entries : store.items.toList = (positioned items).map entryOf

namespace Store
variable {store : Store}

theorem new_holds (h : Store.new scope limits = .ok store) : store.Holds scope limits [] := by
  simp only [Store.new, bind_eq_ok] at h
  obtain ⟨_, -, h⟩ := h
  cases h
  exact ⟨rfl, rfl, rfl, rfl⟩

theorem Holds.maxKey? (h : store.Holds scope limits items) : store.items.maxKey?.getD 0 = UInt64.ofNat items.length := by
  rw [Std.ExtTreeMap.maxKey?_eq_getLast?_keys, ← Std.ExtTreeMap.map_fst_toList_eq_keys, h.entries, List.map_map, List.getLast?_map]
  exact getLast?_positioned

theorem Holds.size_eq (h : store.Holds scope limits items) : store.items.size = items.length := by
  rw [← Std.ExtTreeMap.length_toList, h.entries, List.length_map, length_positioned]

theorem Holds.toList_insert (h : store.Holds scope limits items) (hlt : items.length + 1 < 2 ^ 63) :
    (store.items.insert (UInt64.ofNat (items.length + 1)) item).toList = (positioned (items ++ [item])).map entryOf := by
  have hlt' : (items ++ [item]).length < 2 ^ 63 := by rwa [List.length_append, List.length_singleton]
  have hentries : (positioned (items ++ [item])).map entryOf = store.items.toList ++ [(UInt64.ofNat (items.length + 1), item)] := by
    rw [positioned_append, List.map_append, h.entries]
    rfl
  have hsorted : ((positioned (items ++ [item])).map entryOf).Pairwise fun a b => compare a.1 b.1 = .lt := by
    refine List.pairwise_map.2 ((pairwise_positioned hlt').imp fun hab => ?_)
    exact Std.compare_eq_lt.2 (UInt64.lt_iff_toNat_lt.2 hab)
  have hnew : store.items[UInt64.ofNat (items.length + 1)]? = none := by
    rw [Option.eq_none_iff_forall_not_mem]
    intro v hv
    have hmem := Std.ExtTreeMap.mem_toList_iff_getElem?_eq_some.2 hv
    rw [hentries, List.pairwise_append] at hsorted
    have hless := hsorted.2.2 _ hmem _ (List.mem_singleton.2 rfl)
    exact UInt64.lt_irrefl _ (Std.compare_eq_lt.1 hless)
  have hperm : (store.items.insert (UInt64.ofNat (items.length + 1)) item).toList.Perm ((positioned (items ++ [item])).map entryOf) := by
    rw [hentries]
    exact (Maps.toList_insert_perm hnew).trans (List.perm_append_singleton _ _).symm
  refine hperm.eq_of_pairwise (fun a b _ _ hab hba => ?_) Std.ExtTreeMap.ordered_keys_toList hsorted
  exact absurd (Std.compare_eq_lt.1 hab) (UInt64.lt_asymm (Std.compare_eq_lt.1 hba))

theorem Holds.find?_eq (h : store.Holds scope limits items) :
    store.items.toList.find? (fun entry => entry.2.digest crypto == item.digest crypto) =
      ((positioned items).find? fun record => record.item.digest crypto == item.digest crypto).map entryOf := by
  rw [h.entries, List.find?_map]
  rfl

theorem Holds.put_again (h : store.Holds scope limits items) {record : PositionedItem} (hscope : item.scope = scope)
    (hfind : ((positioned items).find? fun record => record.item.digest crypto == item.digest crypto) = some record) :
    store.put crypto item = .ok (⟨record.position, item.digest crypto, true⟩, store) := by
  unfold Store.put
  rw [h.find?_eq, hfind, h.scope, hscope, beq_self_eq_true]
  rfl

theorem Holds.put (h : store.Holds scope limits items) (hs : Sound crypto scope limits items) (hlimits : limits.Durable) (item : RelayItem) :
    match retain crypto scope limits items item with
    | .ok (receipt, next) => ∃ store', store.put crypto item = .ok (receipt, store') ∧ store'.Holds scope limits next
    | .error e => store.put crypto item = .error e := by
  have hlength := hs.length_lt hlimits
  have hoperation : store.items.toList.any (fun entry => entry.2.operation == item.operation) =
      items.any fun old => old.operation == item.operation := by
    rw [h.entries, List.any_map]
    exact any_positioned fun old => old.operation == item.operation
  unfold retain
  by_cases hscope : item.scope = scope
  · rw [if_neg (not_not_intro hscope)]
    cases hfind : (positioned items).find? fun record => record.item.digest crypto == item.digest crypto with
    | some record => exact ⟨store, h.put_again hscope hfind, h⟩
    | none =>
      unfold Store.put
      rw [h.find?_eq, hfind, hscope, hoperation]
      simp only [h.scope, h.limits, h.bytes, h.size_eq, h.maxKey?, beq_self_eq_true]
      by_cases hany : (items.any fun old => old.operation == item.operation) = true
      · rw [if_pos hany, hany]
        rfl
      · rw [if_neg hany, Bool.eq_false_iff.2 hany]
        by_cases hroom : items.length < limits.maxItems ∧ size items + item.payload.length ≤ limits.maxBytes
        · have hbytes : usizeAdd (size items) item.payload.length = some (size items + item.payload.length) := by
            have hmax := hlimits.bytes_lt
            exact if_pos (by omega)
          have hposition : checkedAdd (UInt64.ofNat items.length) 1 = some (UInt64.ofNat (items.length + 1)) := by
            have hfits : items.length + 1 < 256 ^ FixedWidth.bytes UInt64 := show items.length + 1 < 2 ^ 64 by omega
            rw [checkedAdd_eq_some]
            exact (toNat_ofNat (items.length + 1) hfits).trans (congrArg (· + 1) (toNat_ofNat items.length (Nat.lt_of_succ_lt hfits)).symm)
          rw [if_pos hroom, hbytes, hposition, decide_eq_true hroom.1]
          refine ⟨{ store with bytes := size items + item.payload.length, items := store.items.insert (UInt64.ofNat (items.length + 1)) item }, ?_, ?_⟩
          · simp [require, okOr, hroom.2, h.scope, h.limits]
          · exact ⟨h.scope, h.limits, size_append.symm, h.toList_insert (hlimits.lt_of_lt hroom.1)⟩
        · rw [if_neg hroom]
          by_cases hcount : items.length < limits.maxItems
          · have htotal : ¬ size items + item.payload.length ≤ limits.maxBytes := fun hle => hroom ⟨hcount, hle⟩
            rw [decide_eq_true hcount]
            cases hbytes : usizeAdd (size items) item.payload.length with
            | none => rfl
            | some total =>
              have heq : total = size items + item.payload.length := by
                unfold usizeAdd at hbytes
                split at hbytes <;> cases hbytes
                rfl
              have hover : decide (total ≤ limits.maxBytes) = false := decide_eq_false (heq ▸ htotal)
              show (require RelayError.capacity (decide (total ≤ limits.maxBytes)) >>= fun _ => _) = _
              rw [hover]
              rfl
          · rw [decide_eq_false hcount]
            rfl
  · rw [if_pos hscope]
    show store.put crypto item = .error .scope
    unfold Store.put
    rw [h.scope, beq_eq_false_iff_ne.2 hscope]
    rfl

theorem Holds.page (h : store.Holds scope limits items) (hlength : items.length < 2 ^ 63) {after : UInt64} (hafter : after.toNat < 2 ^ 63 - 1) (limit : Nat) :
    store.page after limit = view items after.toNat limit := by
  have hstart : ∃ start : UInt64, checkedAdd after 1 = some start ∧ start.toNat = after.toNat + 1 := by
    have hfits : toNat after + toNat (1 : UInt64) < 256 ^ FixedWidth.bytes UInt64 := show after.toNat + 1 < 2 ^ 64 by omega
    obtain ⟨start, hstart⟩ := checkedAdd_isSome hfits
    exact ⟨start, hstart, checkedAdd_eq_some.1 hstart⟩
  obtain ⟨start, hstart, hto⟩ := hstart
  have hrange : store.items.toList.filter (fun entry => decide (start ≤ entry.1)) = ((positioned items).drop after.toNat).map entryOf := by
    rw [h.entries, List.filter_map, ← filter_positioned hlength]
    refine congrArg _ (List.filter_congr fun record _ => ?_)
    exact decide_eq_decide.2 (UInt64.le_iff_toNat_le.trans (by rw [hto]; rfl))
  have hrecords : ∀ l : List PositionedItem, (l.map entryOf).map (fun entry => (⟨entry.1, entry.2⟩ : PositionedItem)) = l := fun l => by
    rw [List.map_map]
    exact List.map_id l
  unfold Store.page view
  by_cases hlimit : limit = 0 ∨ maxRelayPage < limit
  · rw [if_pos hlimit]
    have hrefused : (limit != 0 && decide (limit ≤ maxRelayPage)) = false := by
      rw [Bool.and_eq_false_iff, bne_eq_false_iff_eq, decide_eq_false_iff_not, not_le]
      exact hlimit
    rw [hrefused]
    rfl
  · rw [if_neg hlimit]
    rw [not_or, not_lt] at hlimit
    rw [decide_eq_true hlimit.2, bne_iff_ne.2 hlimit.1, hstart]
    show Except.ok _ = _
    rw [hrange, ← List.map_take, hrecords, ← List.map_drop, List.head?_map, h.maxKey?]
    refine congrArg Except.ok (congrArg (RelayPage.mk _ · _) ?_)
    by_cases hmore : limit < ((positioned items).drop after.toNat).length
    · obtain ⟨more, hhead⟩ : ∃ more, (((positioned items).drop after.toNat).drop limit).head? = some more := by
        rw [List.head?_drop]
        exact ⟨_, List.getElem?_eq_getElem hmore⟩
      rw [if_pos hmore, hhead]
      cases ((positioned items).drop after.toNat |>.take limit).getLast? <;> rfl
    · rw [if_neg hmore, List.drop_of_length_le (not_lt.1 hmore)]
      cases ((positioned items).drop after.toNat |>.take limit).getLast? <;> rfl

end Store

/-! ### The table of rows -/

def rowOf (crypto : Crypto) (record : PositionedItem) : Row where
  position := record.position.toNat
  sequence := toBe record.item.sequence
  operation := record.item.operation.bytes.toList
  kind := (kindByte record.item.kind).toNat
  payload := record.item.payload
  digest := (record.item.digest crypto).toList

theorem asUsize_natCast {n : Nat} (h : n < 2 ^ 64) : asUsize n = some n := by
  rw [asUsize, if_pos ⟨Int.natCast_nonneg n, by exact_mod_cast h⟩, Int.toNat_natCast]

theorem asI64_natCast {n : Nat} (h : n < 2 ^ 63) : asI64 n = some (n : Int) :=
  if_pos ⟨by omega, by exact_mod_cast h⟩

theorem asArray_toList {n : Nat} (v : Vector UInt8 n) : asArray n v.toList = some v := by
  rw [asArray, dif_pos v.length_toList]
  rfl

theorem asU8_toNat (byte : UInt8) : asU8 byte.toNat = some byte := by
  have hlt := byte.toNat_lt
  rw [asU8, if_pos ⟨by omega, by omega⟩, Int.toNat_natCast, UInt8.ofNat_toNat]

theorem asU64_toNat (n : UInt64) : asU64 n.toNat = some n := by
  rw [asU64, asUsize_natCast n.toNat_lt, Option.map_some, UInt64.ofNat_toNat]

theorem asU64_length (hlength : items.length < 2 ^ 63) : asU64 (items.length : Int) = some (UInt64.ofNat items.length) := by
  rw [asU64, asUsize_natCast (by omega)]
  rfl

theorem any_total {a b most : Nat} (hmost : most < 2 ^ 63) :
    (((asI64 ((a : Int) + b)).bind asUsize).any fun total => decide (total ≤ most)) = decide (a + b ≤ most) := by
  rw [← Int.natCast_add]
  by_cases hle : a + b ≤ most
  · rw [asI64_natCast (by omega), Option.bind_some, asUsize_natCast (by omega), Option.any_some]
  · rw [decide_eq_false hle]
    by_cases hlt : a + b < 2 ^ 63
    · rw [asI64_natCast hlt, Option.bind_some, asUsize_natCast (by omega), Option.any_some, decide_eq_false hle]
    · rw [asI64, if_neg (by omega)]
      rfl

theorem bytes_inj {a b : OperationId} : a.bytes = b.bytes ↔ a = b := by
  constructor
  · intro h
    cases a
    cases b
    cases h
    rfl
  · rintro rfl
    rfl

theorem decodeRow_eq_some {row : Row} {sequence : Vector UInt8 8} {position : UInt64} (hsequence : asArray 8 row.sequence = some sequence)
    (hoperation : asArray 16 row.operation = some item.operation.bytes) (hdigest : asArray 32 row.digest = some (item.digest crypto))
    (hkind : asU8 row.kind = some (kindByte item.kind)) (hnew : RelayItem.new scope (fromBe sequence.toList) item.operation item.kind row.payload = .ok item)
    (hpositive : 0 < row.position) (hposition : asU64 row.position = some position) :
    decodeRow crypto scope row = some ⟨position, item⟩ := by
  have hid : OperationId.fromBytes item.operation.bytes = .ok item.operation := OperationId.fromBytes_eq_ok.2 rfl
  have hread : ¬ (item.digest crypto ≠ item.digest crypto ∨ row.position ≤ 0) := by
    rintro (h | h)
    · exact h rfl
    · omega
  simp only [decodeRow, hsequence, hoperation, hdigest, hkind, RelayItem.kindFromByte_kindByte item.admissible.kind, hid, hnew, hposition,
    Option.bind_eq_bind, Option.bind_some, Except.toOption, if_neg hread, Option.pure_def]

theorem decodeRow_rowOf {record : PositionedItem} (hscope : record.item.scope = scope) (hposition : record.position ≠ 0) :
    decodeRow crypto scope (rowOf crypto record) = some record := by
  have hpos : 0 < record.position.toNat := Nat.pos_of_ne_zero fun h => hposition (UInt64.toNat_inj.1 h)
  have hsequence : asArray 8 (toBe record.item.sequence) = some ⟨(toBe record.item.sequence).toArray, length_toBe _⟩ := dif_pos (length_toBe _)
  have hnew : RelayItem.new scope (fromBe (toBe record.item.sequence)) record.item.operation record.item.kind record.item.payload = .ok record.item := by
    rw [fromBe_toBe, ← hscope]
    exact dif_pos record.item.admissible
  exact decodeRow_eq_some hsequence (asArray_toList _) (asArray_toList _) (asU8_toNat _) hnew (Int.natCast_pos.2 hpos) (asU64_toNat _)

structure FileStore.Holds (crypto : Crypto) (scope : RelayNamespace) (limits : Limits) (items : List RelayItem) (file : FileStore) : Prop where
  header : file.db.header = ⟨file.format, scope.bytes.toList, limits.maxItems, limits.maxBytes⟩
  scope : file.scope = scope
  limits : file.limits = limits
  live : file.needsReopen = false
  format : file.format = 2 ∨ file.format = 3
  unfenced : file.format = 3 → file.db.generation = some ⟨none, none, none, none⟩
  rows : file.db.items = (positioned items).map (rowOf crypto)

namespace FileStore
variable {file : FileStore}

theorem Holds.live_eq (h : file.Holds crypto scope limits items) : file.live = .ok () := by
  rw [FileStore.live, h.live]
  rfl

theorem Holds.fenced_eq (h : file.Holds crypto scope limits items) : file.fenced = .ok false := by
  unfold fenced
  rw [h.live_eq]
  rcases h.format with hformat | hformat
  · rw [hformat]
    rfl
  · rw [hformat, h.unfenced hformat]
    rfl

theorem Holds.generationFence_eq (h : file.Holds crypto scope limits items) : file.generationFence crypto = .ok none := by
  unfold generationFence
  rw [h.live_eq]
  rcases h.format with hformat | hformat
  · rw [hformat]
    rfl
  · rw [hformat, h.unfenced hformat]
    rfl

theorem Holds.ordered_eq (h : file.Holds crypto scope limits items) (hlength : items.length < 2 ^ 63) :
    file.db.ordered = (positioned items).map (rowOf crypto) := by
  rw [Db.ordered, h.rows]
  refine List.mergeSort_of_pairwise (List.pairwise_map.2 ((pairwise_positioned hlength).imp fun hab => ?_))
  exact decide_eq_true (Int.ofNat_le.2 hab.le)

theorem Holds.last_eq (h : file.Holds crypto scope limits items) (hlength : items.length < 2 ^ 63) :
    file.db.last = if items = [] then none else some (items.length : Int) := by
  rw [Db.last, h.ordered_eq hlength, List.getLast?_map]
  rcases List.eq_nil_or_concat items with rfl | ⟨before, item, rfl⟩
  · rfl
  · rw [List.concat_eq_append] at hlength ⊢
    have hfits : before.length + 1 < 256 ^ FixedWidth.bytes UInt64 := by
      rw [List.length_append, List.length_singleton] at hlength
      exact show before.length + 1 < 2 ^ 64 by omega
    rw [positioned_append, List.getLast?_append_of_ne_nil _ (List.cons_ne_nil _ _), if_neg (List.append_ne_nil_of_right_ne_nil _ (List.cons_ne_nil _ _)),
      List.length_append, List.length_singleton]
    exact congrArg (fun n : Nat => some (n : Int)) (toNat_ofNat (before.length + 1) hfits)

theorem Holds.sum_eq (h : file.Holds crypto scope limits items) : (file.db.items.map fun row => (row.payload.length : Int)).sum = (size items : Int) := by
  have hcast : ∀ l : List PositionedItem, (l.map fun record => (record.item.payload.length : Int)).sum =
      ((l.map (·.item)).map (·.payload.length)).sum := by
    intro l
    induction l with
    | nil => rfl
    | cons record l ih => rw [List.map_cons, List.sum_cons, ih, List.map_cons, List.map_cons, List.sum_cons, Int.natCast_add]
  rw [h.rows, List.map_map, size]
  have hitems : (positioned items).map (·.item) = items := map_item_positioned
  conv_rhs => rw [← hitems]
  exact hcast _

theorem Holds.totals_eq (h : file.Holds crypto scope limits items) (hs : Sound crypto scope limits items) (hlimits : limits.Durable) :
    file.db.totals = .ok ((items.length : Int), (size items : Int)) := by
  have hlength := hs.length_lt hlimits
  have hsize := hs.size_le.trans_lt hlimits.bytes_lt
  unfold Db.totals
  rw [h.sum_eq, h.rows, List.length_map, length_positioned, asI64_natCast hlength, asI64_natCast hsize]
  rfl

theorem Holds.decodes (h : file.Holds crypto scope limits items) (hs : Sound crypto scope limits items) (hlength : items.length < 2 ^ 63)
    {records : List PositionedItem} (hsub : records ⊆ positioned items) :
    (records.map (rowOf crypto)).mapM (fun row => okOr RelayError.storage (decodeRow crypto file.scope row)) = .ok records := by
  have hrow : ∀ record ∈ records, decodeRow crypto file.scope (rowOf crypto record) = some record := by
    intro record hmem
    obtain ⟨i, hi⟩ := List.getElem?_of_mem (hsub hmem)
    refine decodeRow_rowOf ?_ fun hzero => ?_
    · rw [h.scope]
      exact hs.same _ (mem_of_positioned (hsub hmem))
    · have hposition := position_toNat hlength hi
      rw [hzero] at hposition
      cases hposition
  clear hsub
  induction records with
  | nil => rfl
  | cons record records ih =>
    rw [List.forall_mem_cons] at hrow
    rw [List.map_cons, List.mapM_cons, hrow.1, ih hrow.2]
    rfl

theorem Holds.validate_eq (h : file.Holds crypto scope limits items) (hs : Sound crypto scope limits items) (hlimits : limits.Durable) :
    file.validate crypto = .ok () := by
  have hlength := hs.length_lt hlimits
  have hsize := hs.size_le.trans_lt hlimits.bytes_lt
  have hcount : asUsize items.length = some items.length := asUsize_natCast (by omega)
  have hbytes : asUsize (size items) = some (size items) := asUsize_natCast (by omega)
  have hall := h.decodes hs hlength (List.Subset.refl _)
  rw [← h.rows] at hall
  simp only [validate, bind_eq_ok, okOr_eq_ok, require_eq_ok, Bool.and_eq_true, decide_eq_true_eq]
  refine ⟨_, h.totals_eq hs hlimits, _, hcount, (), ⟨Int.natCast_nonneg _, ?_⟩, _, hbytes, (), ?_, _, hall, none, h.generationFence_eq, rfl⟩
  · rw [h.limits]
    exact hs.length_le
  · rw [h.limits]
    exact hs.size_le

theorem Holds.find?_eq (h : file.Holds crypto scope limits items) :
    file.db.items.find? (fun row => row.digest == (item.digest crypto).toList) =
      ((positioned items).find? fun record => record.item.digest crypto == item.digest crypto).map (rowOf crypto) := by
  rw [h.rows, List.find?_map]
  refine congrArg _ (congrArg (List.find? · _) (funext fun record => ?_))
  rw [Bool.eq_iff_iff, Function.comp_apply, beq_iff_eq, beq_iff_eq]
  exact Vector.toList_inj

theorem Holds.any_eq (h : file.Holds crypto scope limits items) :
    (file.db.items.any fun row => row.operation == item.operation.bytes.toList) = items.any fun old => old.operation == item.operation := by
  rw [h.rows, List.any_map, ← any_positioned fun old => old.operation == item.operation]
  refine congrArg _ (funext fun record => ?_)
  rw [Bool.eq_iff_iff, Function.comp_apply, beq_iff_eq, beq_iff_eq]
  exact Vector.toList_inj.trans bytes_inj

theorem Holds.insert_eq (h : file.Holds crypto scope limits items) (hlength : items.length + 1 < 2 ^ 63)
    (hnew : ∀ old ∈ items, old.digest crypto ≠ item.digest crypto ∧ old.operation ≠ item.operation) :
    file.db.insert (rowOf crypto ⟨UInt64.ofNat (items.length + 1), item⟩) =
      .ok { file.db with items := (positioned (items ++ [item])).map (rowOf crypto) } := by
  have hfits : items.length + 1 < 256 ^ FixedWidth.bytes UInt64 := show items.length + 1 < 2 ^ 64 by omega
  have hposition : (UInt64.ofNat (items.length + 1)).toNat = items.length + 1 := toNat_ofNat _ hfits
  have hfree : (file.db.items.any fun old => old.position == ((UInt64.ofNat (items.length + 1)).toNat : Int) ||
      (old.operation == item.operation.bytes.toList || old.digest == (item.digest crypto).toList)) = false := by
    rw [h.rows, List.any_map, List.any_eq_false]
    intro record hmem
    obtain ⟨i, hi⟩ := List.getElem?_of_mem hmem
    have hat := position_toNat (by omega) hi
    have hlt := (List.getElem?_eq_some_iff.1 hi).1
    rw [length_positioned] at hlt
    obtain ⟨hdigest, hop⟩ := hnew _ (mem_of_positioned hmem)
    simp only [Function.comp_apply, Bool.or_eq_true, beq_iff_eq]
    rintro (hp | ho | hd)
    · have hp' : record.position.toNat = (UInt64.ofNat (items.length + 1)).toNat := Int.ofNat_inj.1 hp
      omega
    · exact hop (bytes_inj.1 (Vector.toList_inj.1 ho))
    · exact hdigest (Vector.toList_inj.1 hd)
  unfold Db.insert
  rw [positioned_append, List.map_append, ← h.rows]
  exact bind_eq_ok.2 ⟨(), require_eq_ok.2 (Bool.not_eq_true' _ ▸ hfree), rfl⟩

theorem Holds.put_again (h : file.Holds crypto scope limits items) {record : PositionedItem} (hscope : item.scope = scope)
    (hfind : ((positioned items).find? fun record => record.item.digest crypto == item.digest crypto) = some record) :
    file.put crypto item = .ok (⟨record.position, item.digest crypto, true⟩, file) := by
  unfold FileStore.put
  rw [h.live_eq, h.find?_eq, hfind, h.scope, hscope, beq_self_eq_true]
  simp only [Option.map_some, bind_eq_ok, require_eq_ok, okOr_eq_ok]
  exact ⟨(), trivial, (), trivial, _, asU64_toNat _, rfl⟩

theorem Holds.put (h : file.Holds crypto scope limits items) (hs : Sound crypto scope limits items) (hlimits : limits.Durable) (item : RelayItem) :
    match retain crypto scope limits items item with
    | .ok (receipt, next) => ∃ file', file.put crypto item = .ok (receipt, file') ∧ file'.Holds crypto scope limits next
    | .error e => file.put crypto item = .error e := by
  have hlength := hs.length_lt hlimits
  have hcount : asUsize items.length = some items.length := asUsize_natCast (by omega)
  have hpayload : asI64 item.payload.length = some (item.payload.length : Int) :=
    asI64_natCast (item.admissible.bounded.trans_lt (by decide))
  unfold retain
  by_cases hscope : item.scope = scope
  · rw [if_neg (not_not_intro hscope)]
    cases hfind : (positioned items).find? fun record => record.item.digest crypto == item.digest crypto with
    | some record => exact ⟨file, h.put_again hscope hfind, h⟩
    | none =>
      unfold FileStore.put
      rw [h.live_eq, h.scope, h.find?_eq, hfind, h.fenced_eq, h.any_eq, h.totals_eq hs hlimits, h.limits, hpayload, h.last_eq hlength, hscope,
        beq_self_eq_true]
      have hdistinct := List.find?_eq_none.1 hfind
      have hnone : ∀ old ∈ items, old.digest crypto ≠ item.digest crypto := by
        intro old hold hsame
        obtain ⟨position, hmem⟩ := exists_positioned hold
        exact hdistinct _ hmem (beq_iff_eq.2 hsame)
      simp only [Option.map_none]
      by_cases hany : (items.any fun old => old.operation == item.operation) = true
      · rw [if_pos hany, hany]
        rfl
      · rw [if_neg hany, Bool.eq_false_iff.2 hany]
        by_cases hroom : items.length < limits.maxItems ∧ size items + item.payload.length ≤ limits.maxBytes
        · have hfits : items.length + 1 < 2 ^ 63 := hlimits.lt_of_lt hroom.1
          have hnew : ∀ old ∈ items, old.digest crypto ≠ item.digest crypto ∧ old.operation ≠ item.operation := fun old hold =>
            ⟨hnone old hold, fun hop => hany (List.any_eq_true.2 ⟨old, hold, beq_iff_eq.2 hop⟩)⟩
          have hto : ((UInt64.ofNat (items.length + 1)).toNat : Int) = (items.length : Int) + 1 := by
            have hfits' : items.length + 1 < 256 ^ FixedWidth.bytes UInt64 := show items.length + 1 < 2 ^ 64 by omega
            exact congrArg Nat.cast (toNat_ofNat (items.length + 1) hfits')
          have hnext : (if items = [] then none else some (items.length : Int)).getD 0 + 1 = (items.length : Int) + 1 := by
            split
            · rename_i hnil
              rw [hnil]
              rfl
            · rfl
          have hposition : asI64 ((items.length : Int) + 1) = some ((items.length : Int) + 1) := asI64_natCast hfits
          have hstored : asU64 ((items.length : Int) + 1) = some (UInt64.ofNat (items.length + 1)) := by
            rw [← hto]
            exact asU64_toNat _
          have hinsert := h.insert_eq hfits hnew
          rw [rowOf, hto] at hinsert
          rw [if_pos hroom, hnext]
          refine ⟨⟨{ file.db with items := (positioned (items ++ [item])).map (rowOf crypto) }, scope, limits, file.format, file.needsReopen⟩, ?_,
            ⟨h.header, rfl, rfl, h.live, h.format, h.unfenced, rfl⟩⟩
          simp only [bind_eq_ok, require_eq_ok, okOr_eq_ok]
          refine ⟨(), trivial, (), trivial, false, rfl, (), rfl, (), rfl, _, rfl, _, rfl, _, hcount, (), ?_, _, hposition, (), ?_, _, hinsert, _, hstored, rfl⟩
          · rw [any_total hlimits.bytes_lt, decide_eq_true hroom.1, decide_eq_true hroom.2]
            rfl
          · exact decide_eq_true (by omega)
        · have hfull : (decide (items.length < limits.maxItems) && decide (size items + item.payload.length ≤ limits.maxBytes)) = false := by
            rw [← Bool.decide_and]
            exact decide_eq_false hroom
          rw [if_neg hroom]
          simp only [bind_eq_error, require_eq_error, okOr_eq_ok]
          refine .inr ⟨(), trivial, .inr ⟨(), rfl, .inr ⟨false, rfl, .inr ⟨(), rfl, .inr ⟨(), rfl, .inr ⟨_, rfl, .inr ⟨_, rfl, .inr ⟨_, hcount,
            .inl ⟨?_, trivial⟩⟩⟩⟩⟩⟩⟩⟩⟩
          rw [any_total hlimits.bytes_lt]
          exact hfull
  · rw [if_pos hscope]
    show file.put crypto item = .error .scope
    unfold FileStore.put
    rw [h.live_eq, h.scope, beq_eq_false_iff_ne.2 hscope]
    rfl

theorem Holds.filter_eq (h : file.Holds crypto scope limits items) (hlength : items.length < 2 ^ 63) (after : Nat) :
    file.db.ordered.filter (fun row => decide (((after + 1 : Nat) : Int) ≤ row.position)) = ((positioned items).drop after).map (rowOf crypto) := by
  rw [h.ordered_eq hlength, List.filter_map, ← filter_positioned hlength]
  refine congrArg _ (List.filter_congr fun record _ => ?_)
  exact decide_eq_decide.2 Int.ofNat_le

theorem lookAhead (l : List PositionedItem) (n : Nat) :
    (if (l.take (n + 1)).length > n then ((l.take (n + 1)).dropLast, (l.take (n + 1)).dropLast.getLast?.map (·.position)) else (l.take (n + 1), none)) =
      (l.take n, if n < l.length then (l.take n).getLast?.map (·.position) else none) := by
  by_cases hmore : n < l.length
  · have hdrop : (l.take (n + 1)).dropLast = l.take n := by
      rw [List.dropLast_eq_take, List.length_take, List.take_take]
      congr 1
      omega
    rw [if_pos hmore, if_pos (by rw [List.length_take]; omega), hdrop]
  · rw [if_neg hmore, if_neg (by rw [List.length_take]; omega), List.take_of_length_le (by omega), List.take_of_length_le (by omega)]

theorem Holds.page (h : file.Holds crypto scope limits items) (hs : Sound crypto scope limits items) (hlength : items.length < 2 ^ 63)
    {after : UInt64} (hafter : after.toNat < 2 ^ 63 - 1) (limit : Nat) :
    file.page crypto after limit = view items after.toNat limit := by
  obtain ⟨start, hstart, hto⟩ : ∃ start : UInt64, checkedAdd after 1 = some start ∧ start.toNat = after.toNat + 1 := by
    have hfits : toNat after + toNat (1 : UInt64) < 256 ^ FixedWidth.bytes UInt64 := show after.toNat + 1 < 2 ^ 64 by omega
    obtain ⟨start, hstart⟩ := checkedAdd_isSome hfits
    exact ⟨start, hstart, checkedAdd_eq_some.1 hstart⟩
  have hsigned : asI64 start.toNat = some ((after.toNat + 1 : Nat) : Int) := by
    rw [hto]
    exact asI64_natCast (by omega)
  have hdecoded : ∀ n, (((file.db.ordered.filter fun row => decide (((after.toNat + 1 : Nat) : Int) ≤ row.position)).take n).mapM fun row =>
      okOr RelayError.storage (decodeRow crypto file.scope row)) = .ok (((positioned items).drop after.toNat).take n) := by
    intro n
    rw [h.filter_eq hlength, ← List.map_take]
    exact h.decodes hs hlength fun record hmem => List.mem_of_mem_drop (List.mem_of_mem_take hmem)
  unfold FileStore.page view
  by_cases hlimit : limit = 0 ∨ maxRelayPage < limit
  · have hrefused : (limit != 0 && decide (limit ≤ maxRelayPage)) = false := by
      rw [Bool.and_eq_false_iff, bne_eq_false_iff_eq, decide_eq_false_iff_not, not_le]
      exact hlimit
    rw [if_pos hlimit, h.live_eq, hrefused]
    rfl
  · have hserved := not_or.1 hlimit
    rw [if_neg hlimit, h.live_eq, decide_eq_true (not_lt.1 hserved.2), bne_iff_ne.2 hserved.1, hstart]
    simp only [bind_eq_ok, require_eq_ok, okOr_eq_ok]
    refine ⟨(), trivial, (), rfl, start, rfl, _, hsigned, _, hdecoded (limit + 1), ?_⟩
    rw [lookAhead, h.last_eq hlength]
    by_cases hnil : items = []
    · rw [if_pos hnil, hnil]
      rfl
    · rw [if_neg hnil]
      simp only [bind_eq_ok, okOr_eq_ok]
      exact ⟨_, asU64_length hlength, rfl⟩

theorem Holds.readMeta_eq (h : file.Holds crypto scope limits items) (hlimits : limits.Durable) :
    readMeta file.db scope = .ok (limits, file.format) := by
  have hmax : maxRelayItems < 2 ^ 63 := by decide
  have hle := hlimits.items_le
  have hlt := hlimits.bytes_lt
  have hitems : asUsize limits.maxItems = some limits.maxItems := asUsize_natCast (by omega)
  have hbytes : asUsize limits.maxBytes = some limits.maxBytes := asUsize_natCast (by omega)
  unfold readMeta
  rw [h.header]
  simp only [bind_eq_ok, require_eq_ok, okOr_eq_ok, Int.toNat_natCast]
  refine ⟨(), ?_, (), ?_, _, hitems, _, hbytes, (), hlimits.check, rfl⟩
  · rcases h.format with hformat | hformat
    · rw [hformat]
      rfl
    · rw [hformat]
      rfl
  · rw [beq_self_eq_true, Bool.true_and, Bool.and_eq_true, decide_eq_true_eq, decide_eq_true_eq]
    exact ⟨Int.natCast_pos.2 hlimits.items_pos, Int.natCast_pos.2 hlimits.bytes_pos⟩

theorem Holds.openDb_eq (h : file.Holds crypto scope limits items) (hs : Sound crypto scope limits items) (hlimits : limits.Durable) :
    openDb crypto file.db file.scope = .ok file := by
  have hfile : (⟨file.db, file.scope, limits, file.format, false⟩ : FileStore) = file := by
    rw [← h.limits, ← h.live]
  have hmeta := h.readMeta_eq hlimits
  rw [← h.scope] at hmeta
  unfold openDb
  simp only [bind_eq_ok]
  refine ⟨_, hmeta, (), ?_, congrArg Except.ok hfile⟩
  rw [hfile]
  exact h.validate_eq hs hlimits

theorem Holds.upgrade (h : file.Holds crypto scope limits items) (hs : Sound crypto scope limits items) (hlimits : limits.Durable) :
    ∃ file', file.upgradeGenerationFormat crypto = .ok file' ∧ file'.Holds crypto scope limits items := by
  unfold upgradeGenerationFormat
  rw [h.live_eq]
  by_cases hformat : file.format = 3
  · rw [if_pos hformat, h.generationFence_eq]
    exact ⟨file, rfl, h⟩
  · have hupgraded : Holds crypto scope limits items { file with
        db := { file.db with header := { file.db.header with format := 3 }, generation := some ⟨none, none, none, none⟩ }, format := 3 } := by
      refine ⟨?_, h.scope, h.limits, h.live, .inr rfl, fun _ => rfl, h.rows⟩
      rw [h.header]
      rfl
    rw [if_neg hformat, h.validate_eq hs hlimits]
    refine ⟨_, ?_, hupgraded⟩
    simp only [bind_eq_ok]
    exact ⟨(), trivial, (), trivial, (), hupgraded.validate_eq hs hlimits, rfl⟩

theorem createNew_holds (h : createNew crypto scope limits = .ok file) : limits.Durable ∧ file.Holds crypto scope limits [] := by
  simp only [createNew, bind_eq_ok, okOr_eq_ok] at h
  obtain ⟨_, hcheck, maxItems, hitems, maxBytes, hbytes, _, -, h⟩ := h
  have hnat : ∀ {n : Nat} {column : Int}, asI64 n = some column → n < 2 ^ 63 ∧ column = n := by
    intro n column hsome
    unfold asI64 at hsome
    split at hsome
    · rename_i hrange
      cases hsome
      exact ⟨by omega, rfl⟩
    · cases hsome
  obtain ⟨-, rfl⟩ := hnat hitems
  obtain ⟨hlt, rfl⟩ := hnat hbytes
  have hpositive := require_eq_ok.1 hcheck
  simp only [Bool.and_eq_true, bne_iff_ne, decide_eq_true_eq] at hpositive
  cases h
  exact ⟨⟨Nat.pos_of_ne_zero hpositive.1.1, hpositive.1.2, Nat.pos_of_ne_zero hpositive.2, hlt⟩,
    ⟨rfl, rfl, rfl, rfl, .inl rfl, fun h => (by cases h), rfl⟩⟩

end FileStore
end Valhalla.Relay.Mailbox
