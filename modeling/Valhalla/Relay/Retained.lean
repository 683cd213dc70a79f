import Valhalla.Relay.Mailbox
import Valhalla.Relay.Paging

/-!
# Both mailboxes hold one list of items

What a mailbox retains is a list of items, the position of an item being its place in it. `retain` and `view` say what
a mailbox is for; the ordered map and the table of rows both do exactly this (`Store.Holds.put`, `FileStore.Holds.put`).
-/

namespace Valhalla.Relay.Mailbox
open FixedWidth Check
open Valhalla.PrivateKernel (OperationId)

variable {crypto : Crypto} {scope : RelayNamespace} {limits : Limits} {items : List RelayItem} {item : RelayItem} {record : PositionedItem}

/-! ### Positions -/

theorem positioned_append : positioned (items ++ [item]) = positioned items ++ [⟨UInt64.ofNat (items.length + 1), item⟩] := List.mapIdx_concat

theorem positioned_prefix {more : List RelayItem} (h : items <+: more) : positioned items <+: positioned more := by
  obtain ⟨rest, rfl⟩ := h
  rw [positioned, positioned, List.mapIdx_append]
  exact List.prefix_append _ _

theorem exists_positioned (h : item ∈ items) : ∃ position, ⟨position, item⟩ ∈ positioned items := by
  obtain ⟨i, hi⟩ := List.getElem?_of_mem h
  refine ⟨UInt64.ofNat (i + 1), List.mem_of_getElem? (i := i) ?_⟩
  rw [positioned, List.getElem?_mapIdx, hi]
  rfl

theorem mem_of_positioned (h : record ∈ positioned items) : record.item ∈ items := by
  obtain ⟨i, hi, rfl⟩ := List.mem_mapIdx.1 h
  exact List.getElem_mem hi

theorem map_item_positioned : (positioned items).map (·.item) = items := by
  refine List.ext_getElem? fun i => ?_
  rw [List.getElem?_map, positioned, List.getElem?_mapIdx, Option.map_map]
  cases items[i]? <;> rfl

theorem any_positioned (p : RelayItem → Bool) : ((positioned items).any fun record => p record.item) = items.any p := by
  rw [Bool.eq_iff_iff, List.any_eq_true, List.any_eq_true]
  constructor
  · rintro ⟨record, hmem, hp⟩
    exact ⟨record.item, mem_of_positioned hmem, hp⟩
  · rintro ⟨item, hmem, hp⟩
    obtain ⟨position, hposition⟩ := exists_positioned hmem
    exact ⟨_, hposition, hp⟩

theorem position_toNat {i : Nat} (hlt : items.length < 2 ^ 63) (h : (positioned items)[i]? = some record) : record.position.toNat = i + 1 := by
  rw [positioned, List.getElem?_mapIdx] at h
  obtain ⟨item, hitem, rfl⟩ := Option.map_eq_some_iff.1 h
  have hi := (List.getElem?_eq_some_iff.1 hitem).1
  have hfits : i + 1 < 256 ^ bytes UInt64 := show i + 1 < 2 ^ 64 by omega
  exact toNat_ofNat _ hfits

theorem positions_eq (hlt : items.length < 2 ^ 63) : (positioned items).map (·.position.toNat) = List.range' 1 items.length := by
  refine List.ext_getElem (by rw [List.length_map, length_positioned, List.length_range']) fun i hi _ => ?_
  rw [List.getElem_map, List.getElem_range', position_toNat hlt (List.getElem?_eq_getElem _)]
  omega

theorem getLast?_positioned : ((positioned items).getLast?.map (·.position)).getD 0 = UInt64.ofNat items.length := by
  rcases List.eq_nil_or_concat items with rfl | ⟨items, item, rfl⟩
  · rfl
  · rw [List.concat_eq_append, positioned_append, List.getLast?_append_of_ne_nil _ (List.cons_ne_nil _ _), List.length_append]
    rfl

theorem filter_positioned (hlt : items.length < 2 ^ 63) (after : Nat) :
    (positioned items).filter (fun record => decide (after + 1 ≤ record.position.toNat)) = (positioned items).drop after := by
  have hpast : ((positioned items).take after).filter (fun record => decide (after + 1 ≤ record.position.toNat)) = [] := by
    refine List.filter_eq_nil_iff.2 fun record hmem => ?_
    obtain ⟨i, hi⟩ := List.getElem?_of_mem hmem
    rw [List.getElem?_take] at hi
    split at hi
    · rw [decide_eq_true_eq, position_toNat hlt hi]
      omega
    · cases hi
  have hlater : ((positioned items).drop after).filter (fun record => decide (after + 1 ≤ record.position.toNat)) = (positioned items).drop after := by
    refine List.filter_eq_self.2 fun record hmem => ?_
    obtain ⟨i, hi⟩ := List.getElem?_of_mem hmem
    rw [List.getElem?_drop] at hi
    rw [decide_eq_true_eq, position_toNat hlt hi]
    omega
  conv_lhs => rw [← List.take_append_drop after (positioned items)]
  rw [List.filter_append, hpast, hlater, List.nil_append]

theorem pairwise_positioned (hlt : items.length < 2 ^ 63) : (positioned items).Pairwise fun a b => a.position.toNat < b.position.toNat := by
  rw [List.pairwise_iff_getElem]
  intro i j hi hj hij
  rw [position_toNat hlt (List.getElem?_eq_getElem hi), position_toNat hlt (List.getElem?_eq_getElem hj)]
  omega

/-! ### Lists of items -/

def size (items : List RelayItem) : Nat := (items.map (·.payload.length)).sum

/-- A new item goes to the end, if there is room for it and its operation is not taken. -/
def retain (crypto : Crypto) (scope : RelayNamespace) (limits : Limits) (items : List RelayItem) (item : RelayItem) :
    Except RelayError (RelayReceipt × List RelayItem) :=
  if item.scope ≠ scope then .error .scope
  else
    match (positioned items).find? fun record => record.item.digest crypto == item.digest crypto with
    | some record => .ok (⟨record.position, item.digest crypto, true⟩, items)
    | none =>
      if items.any fun old => old.operation == item.operation then .error .conflict
      else if items.length < limits.maxItems ∧ size items + item.payload.length ≤ limits.maxBytes then
        .ok (⟨UInt64.ofNat (items.length + 1), item.digest crypto, false⟩, items ++ [item])
      else .error .capacity

def view (items : List RelayItem) (after limit : Nat) : Except RelayError RelayPage :=
  if limit = 0 ∨ maxRelayPage < limit then .error .bounds
  else
    let rest := (positioned items).drop after
    let records := rest.take limit
    .ok ⟨UInt64.ofNat items.length, if limit < rest.length then records.getLast?.map (·.position) else none, records⟩

structure Sound (crypto : Crypto) (scope : RelayNamespace) (limits : Limits) (items : List RelayItem) : Prop where
  same : ∀ item ∈ items, item.scope = scope
  length_le : items.length ≤ limits.maxItems
  size_le : size items ≤ limits.maxBytes
  operations : (items.map (·.operation)).Nodup
  digests : (items.map (·.digest crypto)).Nodup

/-- Limits that a durable mailbox can be created with. -/
structure Limits.Durable (limits : Limits) : Prop where
  items_pos : 0 < limits.maxItems
  items_le : limits.maxItems ≤ maxRelayItems
  bytes_pos : 0 < limits.maxBytes
  bytes_lt : limits.maxBytes < 2 ^ 63

theorem Sound.nil : Sound crypto scope limits [] :=
  ⟨fun _ h => (List.not_mem_nil h).elim, Nat.zero_le _, Nat.zero_le _, List.nodup_nil, List.nodup_nil⟩

theorem Sound.length_lt (h : Sound crypto scope limits items) (hlimits : limits.Durable) : items.length < 2 ^ 63 := by
  have hle := h.length_le.trans hlimits.items_le
  have hmax : maxRelayItems < 2 ^ 63 := by decide
  omega

theorem Limits.Durable.lt_of_lt (h : limits.Durable) {n : Nat} (hn : n < limits.maxItems) : n + 1 < 2 ^ 63 := by
  have hmax : maxRelayItems < 2 ^ 63 := by decide
  have hle := h.items_le
  omega

theorem Limits.Durable.check (h : limits.Durable) : limits.check = .ok () :=
  require_eq_ok.2 (Bool.and_eq_true_iff.2
    ⟨Bool.and_eq_true_iff.2 ⟨bne_iff_ne.2 h.items_pos.ne', decide_eq_true h.items_le⟩, bne_iff_ne.2 h.bytes_pos.ne'⟩)

theorem size_append : size (items ++ [item]) = size items + item.payload.length := by
  rw [size, size, List.map_append, List.sum_append, List.map_singleton, List.sum_singleton]

theorem retain_cases {receipt : RelayReceipt} {next : List RelayItem} (h : retain crypto scope limits items item = .ok (receipt, next)) :
    item.scope = scope ∧ receipt.digest = item.digest crypto ∧
    ((next = items ∧ receipt.duplicate = true ∧ ∃ record ∈ positioned items, record.item.digest crypto = item.digest crypto ∧
        receipt.position = record.position) ∨
      (next = items ++ [item] ∧ receipt.duplicate = false ∧ receipt.position = UInt64.ofNat (items.length + 1) ∧
        (∀ old ∈ items, old.digest crypto ≠ item.digest crypto ∧ old.operation ≠ item.operation) ∧
        items.length < limits.maxItems ∧ size items + item.payload.length ≤ limits.maxBytes)) := by
  unfold retain at h
  split at h
  · cases h
  rename_i hscope
  refine ⟨Decidable.not_not.1 hscope, ?_⟩
  split at h
  · rename_i record hfind
    have hsame := List.find?_some hfind
    cases h
    exact ⟨rfl, .inl ⟨rfl, rfl, record, List.mem_of_find?_eq_some hfind, beq_iff_eq.1 hsame, rfl⟩⟩
  · rename_i hfind
    split at h
    · cases h
    rename_i hoperation
    split at h
    · rename_i hroom
      cases h
      refine ⟨rfl, .inr ⟨rfl, rfl, rfl, fun old hold => ⟨fun hdigest => ?_, fun hop => ?_⟩, hroom.1, hroom.2⟩⟩
      · obtain ⟨position, hmem⟩ := exists_positioned hold
        rw [List.find?_eq_none] at hfind
        exact hfind _ hmem (beq_iff_eq.2 hdigest)
      · exact hoperation (List.any_eq_true.2 ⟨old, hold, beq_iff_eq.2 hop⟩)
    · cases h

theorem Sound.retain {receipt : RelayReceipt} {next : List RelayItem} (h : Sound crypto scope limits items)
    (hretain : Mailbox.retain crypto scope limits items item = .ok (receipt, next)) : Sound crypto scope limits next := by
  obtain ⟨hscope, -, ⟨rfl, -⟩ | ⟨rfl, -, -, hnew, hroom, hbytes⟩⟩ := retain_cases hretain
  · exact h
  · refine ⟨fun old hold => ?_, ?_, ?_, ?_, ?_⟩
    · rcases List.mem_append.1 hold with hold | hold
      · exact h.same old hold
      · rw [List.mem_singleton.1 hold, hscope]
    · rw [List.length_append, List.length_singleton]
      exact hroom
    · rw [size_append]
      exact hbytes
    · rw [List.map_append, List.map_singleton]
      refine List.nodup_append.2 ⟨h.operations, List.nodup_singleton _, fun a ha b hb => ?_⟩
      obtain ⟨old, hold, rfl⟩ := List.mem_map.1 ha
      rw [List.mem_singleton.1 hb]
      exact (hnew old hold).2
    · rw [List.map_append, List.map_singleton]
      refine List.nodup_append.2 ⟨h.digests, List.nodup_singleton _, fun a ha b hb => ?_⟩
      obtain ⟨old, hold, rfl⟩ := List.mem_map.1 ha
      rw [List.mem_singleton.1 hb]
      exact (hnew old hold).1

theorem view_serves {limit : UInt64 → Nat} (hlimit : ∀ after, 0 < limit after ∧ limit after ≤ maxRelayPage) (hlength : items.length < 2 ^ 63 - 1) :
    Paging.Serves (fun after => (view items after.toNat (limit after)).map fun page => (page.records, page.next)) (·.toNat < 2 ^ 63 - 1)
      fun after => (positioned items).drop after.toNat := by
  refine ⟨fun after _ => ?_⟩
  obtain ⟨hpos, hmost⟩ := hlimit after
  have hview : ¬ (limit after = 0 ∨ maxRelayPage < limit after) := by omega
  unfold view
  rw [if_neg hview]
  refine ⟨_, _, rfl, ?_⟩
  dsimp only
  by_cases hmore : limit after < ((positioned items).drop after.toNat).length
  · have hlen := hmore
    rw [List.length_drop, length_positioned] at hlen
    obtain ⟨last, hlast⟩ : ∃ last, (positioned items)[after.toNat + (limit after - 1)]? = some last :=
      ⟨_, List.getElem?_eq_getElem (by rw [length_positioned]; omega)⟩
    have hend : (((positioned items).drop after.toNat).take (limit after)).getLast? = some last := by
      rw [List.getLast?_eq_getElem?, List.length_take, Nat.min_eq_left hmore.le, List.getElem?_take, if_pos (by omega), List.getElem?_drop]
      exact hlast
    have hto : last.position.toNat = after.toNat + limit after := by
      rw [position_toNat (by omega) hlast]
      omega
    rw [if_pos hmore, hend, Option.map_some]
    refine ⟨by omega, fun hnil => ?_, ?_⟩
    · rw [hnil] at hend
      cases hend
    · rw [hto, ← List.drop_drop, List.take_append_drop]
  · rw [if_neg hmore]
    exact List.take_of_length_le (not_lt.1 hmore)

theorem Sound.find?_eq (h : Sound crypto scope limits items) (hmem : record ∈ positioned items) :
    (positioned items).find? (fun other => other.item.digest crypto == record.item.digest crypto) = some record := by
  cases hfind : (positioned items).find? fun other => other.item.digest crypto == record.item.digest crypto with
  | none => exact absurd (beq_self_eq_true _) (List.find?_eq_none.1 hfind _ hmem)
  | some other =>
    have hsame := List.find?_some hfind
    have hdigests : ((positioned items).map fun record => record.item.digest crypto).Nodup := by
      have hmap : (positioned items).map (fun record => record.item.digest crypto) = ((positioned items).map (·.item)).map (·.digest crypto) := by
        rw [List.map_map]
        rfl
      rw [hmap, map_item_positioned]
      exact h.digests
    rw [beq_iff_eq] at hsame
    rw [List.inj_on_of_nodup_map hdigests (List.mem_of_find?_eq_some hfind) hmem hsame]

end Valhalla.Relay.Mailbox
