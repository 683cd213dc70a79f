import Valhalla.Social.Classification

/-!
# Who waits for a page (`next_page` in `archive.rs` of `vhalla-social`)

Every turn of the rotation brings every missing record nearer to its own turn, so that a run of pages comes to all of them.
A record that comes up when the bytes of the page are used up is passed over, and its turn is over: the next page may come to
it as late as this one.
-/

namespace Valhalla.Social
open Fallible FixedWidth Check

/-! ### The turns that a record waits for -/

/-- Lanes are left one after the other; a lane that was asked comes up again after the other two. -/
def GroupCursor.wait (slots : List Slot) (slot : Slot) (c : GroupCursor) : Nat :=
  Rotation.ahead compare (laneIds slots slot.group slot.lane) (c.last slot.lane) slot.id * 3 + (slot.lane - c.nextLane).val

def SyncCursor.wait (slots : List Slot) (slot : Slot) (cursor : SyncCursor) : Nat :=
  (cursor.groups[slot.group]?.getD {}).wait slots slot * (groupKeys slots).length +
    Rotation.ahead compare (groupKeys slots) cursor.lastGroup slot.group

theorem Fin3.sub_add_one {x y : Fin 3} (h : y ≠ x) : (x - (y + 1)).val + 1 = (x - y).val := by
  revert x y
  decide

section
variable {slots : List Slot} {visited : List RecordId} {group : Group} {slot : Slot}

theorem ascending_laneIds (h : (slots.map Slot.id).Pairwise (compare · · = .lt)) (group : Group) (lane : Fin 3) :
    (laneIds slots group lane).Pairwise (compare · · = .lt) := h.sublist (List.filter_sublist.map Slot.id)

theorem mem_laneIds_self (h : slot ∈ slots) : slot.id ∈ laneIds slots slot.group slot.lane := mem_laneIds.2 ⟨slot, h, rfl, rfl, rfl⟩

theorem mem_groupKeys_self (h : slot ∈ slots) : slot.group ∈ groupKeys slots := mem_groupKeys.2 ⟨slot, h, rfl⟩

theorem wait_choose (hascending : (slots.map Slot.id).Pairwise (compare · · = .lt)) (hslot : slot ∈ slots) (hnot : slot.id ∉ visited)
    {n : Nat} {c : GroupCursor} (hn : (slot.lane - c.nextLane).val < n) :
    (choose slots visited slot.group n c).1 = some slot.id ∨ (choose slots visited slot.group n c).2.wait slots slot < c.wait slots slot := by
  induction n generalizing c with
  | zero => omega
  | succ n ih =>
    by_cases hlane : c.nextLane = slot.lane
    · rw [choose, hlane]
      cases hnext : Rotation.nextAfter compare ((laneIds slots slot.group slot.lane).filter fun id => !visited.contains id) (c.last slot.lane) with
      | none =>
        have hnone := Rotation.nextAfter_eq_none.1 hnext
        have hall := List.filter_eq_nil_iff.1 hnone slot.id (mem_laneIds_self hslot)
        simp [hnot] at hall
      | some id =>
        have hnearer := Rotation.ahead_next (ascending_laneIds hascending slot.group slot.lane) (mem_laneIds_self hslot) (by simp [hnot]) hnext
        rcases hnearer with rfl | hnearer
        · exact .inl rfl
        · refine .inr ?_
          rw [GroupCursor.wait, GroupCursor.wait]
          simp only [Function.update_self]
          have hlast := (slot.lane - (slot.lane + 1)).isLt
          omega
    · have hstep := Fin3.sub_add_one hlane
      rw [choose]
      split
      · refine .inr ?_
        rw [GroupCursor.wait, GroupCursor.wait]
        simp only [Function.update_of_ne (Ne.symm hlane)]
        omega
      · have hrest := ih (c := { c with nextLane := c.nextLane + 1 }) (by simp only; omega)
        rcases hrest with hchosen | hrest
        · exact .inl hchosen
        · refine .inr (hrest.trans ?_)
          rw [GroupCursor.wait, GroupCursor.wait]
          simp only
          omega

theorem wait_turn (hascending : (slots.map Slot.id).Pairwise (compare · · = .lt)) (hslot : slot ∈ slots) (hnot : slot.id ∉ visited)
    {cursor : SyncCursor} (hnext : Rotation.nextAfter compare (groupKeys slots) cursor.lastGroup = some group) :
    (cursor.turn slots visited group).1 = some slot.id ∨ (cursor.turn slots visited group).2.wait slots slot < cursor.wait slots slot := by
  have hmem := mem_groupKeys_self hslot
  by_cases hgroup : group = slot.group
  · subst hgroup
    have hchoose := wait_choose hascending hslot hnot (n := 3) (c := cursor.groups[slot.group]?.getD {}) (Fin.isLt _)
    rcases hchoose with hchosen | hless
    · exact .inl hchosen
    · refine .inr ?_
      have hplace : Rotation.ahead compare (groupKeys slots) (some slot.group) slot.group < (groupKeys slots).length :=
        Rotation.ahead_lt hmem
      have hmul := Nat.mul_le_mul_right (groupKeys slots).length hless
      rw [Nat.succ_mul] at hmul
      rw [SyncCursor.wait, SyncCursor.wait, SyncCursor.turn]
      simp only [Std.ExtTreeMap.getElem?_insert_self, Option.getD_some]
      omega
  · rcases Rotation.ahead_rotate ascending_groupKeys hmem hnext with heq | hless
    · exact absurd heq hgroup
    · refine .inr ?_
      have hother : (cursor.turn slots visited group).2.groups[slot.group]? = cursor.groups[slot.group]? := by
        rw [SyncCursor.turn]
        simp [Maps.getElem?_insert, hgroup]
      rw [SyncCursor.wait, SyncCursor.wait, hother]
      show _ + Rotation.ahead compare (groupKeys slots) (some group) slot.group < _
      omega

theorem length_groupKeys_le : (groupKeys slots).length ≤ slots.length := by
  rw [← List.length_map (f := Slot.group)]
  refine (List.subperm_of_subset nodup_groupKeys fun g hg => ?_).length_le
  obtain ⟨slot, hslot, rfl⟩ := mem_groupKeys.1 hg
  exact List.mem_map_of_mem hslot

theorem length_laneIds_le {lane : Fin 3} : (laneIds slots group lane).length ≤ slots.length := by
  rw [laneIds, List.length_map]
  exact List.length_filter_le _ _

theorem wait_lt (hslot : slot ∈ slots) (cursor : SyncCursor) : cursor.wait slots slot < 3 * slots.length * slots.length := by
  have hgroup : Rotation.ahead compare (groupKeys slots) cursor.lastGroup slot.group < (groupKeys slots).length :=
    Rotation.ahead_lt (mem_groupKeys_self hslot)
  have hlane : (cursor.groups[slot.group]?.getD {}).wait slots slot < 3 * slots.length := by
    have hplace : Rotation.ahead compare (laneIds slots slot.group slot.lane) ((cursor.groups[slot.group]?.getD {}).last slot.lane) slot.id <
        (laneIds slots slot.group slot.lane).length := Rotation.ahead_lt (mem_laneIds_self hslot)
    have hlength : (laneIds slots slot.group slot.lane).length ≤ slots.length := length_laneIds_le
    have hturn := (slot.lane - (cursor.groups[slot.group]?.getD {}).nextLane).isLt
    rw [GroupCursor.wait]
    omega
  calc cursor.wait slots slot
      < ((cursor.groups[slot.group]?.getD {}).wait slots slot + 1) * (groupKeys slots).length := by
        rw [SyncCursor.wait, Nat.succ_mul]
        omega
    _ ≤ 3 * slots.length * slots.length := Nat.mul_le_mul hlane length_groupKeys_le

end

/-! ### The rotation without its bytes -/

/-- The records that come up in a page, however long they are. -/
def due (slots : List Slot) (limit : Nat) : Nat → SyncCursor → List RecordId → List RecordId
  | 0, _, visited => visited
  | turns + 1, cursor, visited =>
    if visited.length < limit ∧ visited.length < slots.length then
      match Rotation.nextAfter compare (groupKeys slots) cursor.lastGroup with
      | none => visited
      | some group =>
        match cursor.turn slots visited group with
        | (none, cursor) =>
          if slots.all fun slot => visited.contains slot.id then visited else due slots limit turns cursor visited
        | (some id, cursor) => due slots limit turns cursor (visited ++ [id])
    else visited

theorem prefix_due (slots : List Slot) (limit turns : Nat) (cursor : SyncCursor) (visited : List RecordId) :
    visited <+: due slots limit turns cursor visited := by
  induction turns generalizing cursor visited with
  | zero => exact List.prefix_rfl
  | succ turns ih =>
    rw [due]
    split
    · split
      · exact List.prefix_rfl
      · split
        · split
          · exact List.prefix_rfl
          · exact ih _ _
        · exact (List.prefix_append _ _).trans (ih _ _)
    · exact List.prefix_rfl

theorem length_due_le {slots : List Slot} {limit turns : Nat} {cursor : SyncCursor} {visited : List RecordId} (h : visited.length ≤ limit) :
    (due slots limit turns cursor visited).length ≤ limit := by
  induction turns generalizing cursor visited with
  | zero => exact h
  | succ turns ih =>
    rw [due]
    split
    · rename_i hloop
      split
      · exact h
      · split
        · split
          · exact h
          · exact ih h
        · refine ih ?_
          rw [List.length_append, List.length_singleton]
          exact hloop.1
    · exact h

theorem groups_opened {slots : List Slot} (slot : Slot) (hslot : slot ∈ slots) (cursor : SyncCursor) :
    (cursor.opened slots).groups[slot.group]? = cursor.groups[slot.group]? := by
  have hkept : (groupKeys slots).contains slot.group = true := by simpa using mem_groupKeys_self hslot
  rw [SyncCursor.opened, Std.ExtTreeMap.getElem?_filter']
  simp only [hkept]
  cases cursor.groups[slot.group]? with
  | none => rfl
  | some c => rfl

theorem wait_opened {slots : List Slot} {slot : Slot} (hslot : slot ∈ slots) (cursor : SyncCursor) :
    (cursor.opened slots).wait slots slot = cursor.wait slots slot := by
  rw [SyncCursor.wait, SyncCursor.wait, groups_opened slot hslot]
  rfl

namespace Archive
variable {crypto : Crypto} (a : Archive crypto)

def lengths (ids : List RecordId) : Nat := (ids.map fun id => (a.records[id]?.elim 0 fun record => record.encode.length)).sum

def Fits (peerIds : List RecordId) (limit maxBytes : Nat) (cursor : SyncCursor) : Prop :=
  ∀ slots, a.missingSlots peerIds = .ok slots → a.lengths (due slots limit maxPageTurns (cursor.opened slots) []) ≤ maxBytes

def follow (peerIds : List RecordId) (limit maxBytes : Nat) : Nat → SyncCursor → Except Error (List SyncPage × SyncCursor)
  | 0, cursor => pure ([], cursor)
  | n + 1, cursor => do
    let (page, cursor) ← a.nextPage peerIds cursor limit maxBytes
    let (pages, cursor) ← follow peerIds limit maxBytes n cursor
    pure (page :: pages, cursor)

variable {a} {slots : List Slot} {limit maxBytes turns : Nat} {p : Paging}

theorem lengths_append (ids ids' : List RecordId) : a.lengths (ids ++ ids') = a.lengths ids + a.lengths ids' := by
  simp [lengths]

theorem lengths_le_of_prefix {ids ids' : List RecordId} (h : ids <+: ids') : a.lengths ids ≤ a.lengths ids' := by
  obtain ⟨rest, rfl⟩ := h
  rw [lengths_append]
  omega

theorem lengths_le (ids : List RecordId) : a.lengths ids ≤ ids.length * maxRecordBytes := by
  induction ids with
  | nil => exact Nat.zero_le _
  | cons id ids ih =>
    have hone : (a.records[id]?.elim 0 fun record => record.encode.length) ≤ maxRecordBytes := by
      cases a.records[id]? with
      | none => exact Nat.zero_le _
      | some record => exact SignedRecord.length_encode_le record.signed
    rw [lengths, List.map_cons, List.sum_cons, List.length_cons, Nat.succ_mul, Nat.add_comm]
    exact Nat.add_le_add ih hone

theorem fits_of_space (hspace : limit * maxRecordBytes ≤ maxBytes) (peerIds : List RecordId) (cursor : SyncCursor) :
    a.Fits peerIds limit maxBytes cursor := by
  intro slots _
  have hlength : (due slots limit maxPageTurns (cursor.opened slots) []).length ≤ limit := length_due_le (Nat.zero_le _)
  exact (lengths_le _).trans ((Nat.mul_le_mul_right _ hlength).trans hspace)

/-! ### What a page passes over -/

theorem visit_frame (maxBytes : Nat) (p : Paging) (id : RecordId) :
    (a.visit maxBytes p id).visited = p.visited ++ [id] ∧ (a.visit maxBytes p id).cursor = p.cursor := by
  unfold Archive.visit
  split
  · exact ⟨rfl, rfl⟩
  · dsimp only
    split <;> exact ⟨rfl, rfl⟩

/-- The page under way passed over nothing. -/
structure Whole (a : Archive crypto) (p : Paging) : Prop where
  emitted : p.emitted = p.visited
  count : p.records.length = p.visited.length
  bytes : p.bytes = a.lengths p.visited

theorem Whole.visit (h : Whole a p) (maxBytes : Nat) {id : RecordId} {record : VerifiedRecord crypto} (hrecord : a.records[id]? = some record) :
    (a.lengths (p.visited ++ [id]) ≤ maxBytes ∧ Whole a (a.visit maxBytes p id)) ∨
      (maxBytes < a.lengths (p.visited ++ [id]) ∧ (a.visit maxBytes p id).emitted.length < (a.visit maxBytes p id).visited.length) := by
  have hlengths : a.lengths (p.visited ++ [id]) = p.bytes + record.encode.length := by
    rw [lengths_append, ← h.bytes]
    simp [lengths, hrecord]
  unfold Archive.visit
  simp only [hrecord]
  by_cases hfits : p.bytes + record.encode.length ≤ maxBytes
  · simp only [if_pos hfits]
    refine .inl ⟨by omega, ?_, ?_, ?_⟩
    · rw [h.emitted]
    · simp [h.count]
    · exact hlengths.symm
  · simp only [if_neg hfits]
    refine .inr ⟨by omega, ?_⟩
    simp [h.emitted]

theorem passed_fill (slots : List Slot) (limit maxBytes turns : Nat) (h : p.emitted.length < p.visited.length) :
    (a.fill slots limit maxBytes turns p).emitted.length < (a.fill slots limit maxBytes turns p).visited.length := by
  have hvisit : ∀ (p : Paging) (id : RecordId), p.emitted.length < p.visited.length →
      (a.visit maxBytes p id).emitted.length < (a.visit maxBytes p id).visited.length := by
    intro p id h
    unfold Archive.visit
    split
    · simp only [List.length_append, List.length_singleton]
      omega
    · dsimp only
      split
      · simp only [List.length_append, List.length_singleton]
        omega
      · simp only [List.length_append, List.length_singleton]
        omega
  induction turns generalizing p with
  | zero => exact h
  | succ turns ih =>
    rw [Archive.fill]
    split
    · split
      · exact h
      · split
        · split
          · exact h
          · exact ih h
        · exact ih (hvisit _ _ h)
    · exact h

theorem Whole.fill (hheld : ∀ slot ∈ slots, ∃ record, a.records[slot.id]? = some record) (h : Whole a p) (hbytes : a.lengths p.visited ≤ maxBytes) :
    a.lengths (due slots limit turns p.cursor p.visited) ≤ maxBytes ↔
      (a.fill slots limit maxBytes turns p).emitted = (a.fill slots limit maxBytes turns p).visited := by
  induction turns generalizing p with
  | zero => exact iff_of_true hbytes h.emitted
  | succ turns ih =>
    rw [due, Archive.fill, h.count]
    split
    · cases hnext : Rotation.nextAfter compare (groupKeys slots) p.cursor.lastGroup with
      | none => exact iff_of_true hbytes h.emitted
      | some group =>
        dsimp only
        cases hturn : p.cursor.turn slots p.visited group with
        | mk chosen cursor =>
          have hturned : Whole a { p with cursor := cursor } := ⟨h.emitted, h.count, h.bytes⟩
          cases chosen with
          | none =>
            dsimp only
            split
            · exact iff_of_true hbytes h.emitted
            · exact ih hturned hbytes
          | some id =>
            dsimp only
            have hchosen : (choose slots p.visited group 3 (p.cursor.groups[group]?.getD {})).1 = some id := congrArg Prod.fst hturn
            obtain ⟨⟨slot, hslot, rfl, -⟩, -⟩ := choose_some hchosen
            obtain ⟨record, hrecord⟩ := hheld slot hslot
            obtain ⟨hvisited, hcursor⟩ := visit_frame (a := a) maxBytes { p with cursor := cursor } slot.id
            rcases hturned.visit maxBytes hrecord with ⟨hfits, hwhole⟩ | ⟨hless, hpassed⟩
            · have hrest := ih hwhole (by rw [hvisited]; exact hfits)
              rwa [hvisited, hcursor] at hrest
            · refine iff_of_false (fun hfits => ?_) fun heq => ?_
              · have hpre := lengths_le_of_prefix (a := a) (prefix_due slots limit turns cursor (p.visited ++ [slot.id]))
                exact absurd (hpre.trans hfits) (by simpa using hless)
              · have hlater := passed_fill (a := a) slots limit maxBytes turns hpassed
                rw [heq] at hlater
                exact lt_irrefl _ hlater
    · exact iff_of_true hbytes h.emitted

/-! ### Every turn brings a record nearer -/

theorem visited_fill {id : RecordId} (h : id ∈ p.visited) : id ∈ (a.fill slots limit maxBytes turns p).visited := by
  induction turns generalizing p with
  | zero => exact h
  | succ turns ih =>
    rw [Archive.fill]
    split
    · split
      · exact h
      · split
        · split
          · exact h
          · exact ih h
        · refine ih ?_
          rw [(visit_frame ..).1]
          exact List.mem_append_left _ h
    · exact h

theorem wait_fill (limit maxBytes turns : Nat) (hascending : (slots.map Slot.id).Pairwise (compare · · = .lt)) {slot : Slot} (hslot : slot ∈ slots) (hnot : slot.id ∉ p.visited) :
    slot.id ∈ (a.fill slots limit maxBytes turns p).visited ∨
      (a.fill slots limit maxBytes turns p).cursor.wait slots slot < p.cursor.wait slots slot ∨
      (a.fill slots limit maxBytes turns p = p ∧ ¬ (0 < turns ∧ p.records.length < limit ∧ p.visited.length < slots.length)) := by
  induction turns generalizing p with
  | zero => exact .inr (.inr ⟨rfl, fun h => Nat.lt_irrefl 0 h.1⟩)
  | succ turns ih =>
    rw [Archive.fill]
    by_cases hloop : p.records.length < limit ∧ p.visited.length < slots.length
    · rw [if_pos hloop]
      cases hnext : Rotation.nextAfter compare (groupKeys slots) p.cursor.lastGroup with
      | none =>
        have hmem := mem_groupKeys_self hslot
        rw [Rotation.nextAfter_eq_none.1 hnext] at hmem
        exact absurd hmem List.not_mem_nil
      | some group =>
        have hturns := wait_turn hascending hslot hnot hnext
        dsimp only
        cases hturn : p.cursor.turn slots p.visited group with
        | mk chosen cursor =>
          rw [hturn] at hturns
          cases chosen with
          | none =>
            dsimp only at hturns ⊢
            rcases hturns with hchosen | hless
            · cases hchosen
            · rw [if_neg fun hall => hnot (by simpa using List.all_eq_true.1 hall slot hslot)]
              rcases ih (p := { p with cursor := cursor }) hnot with hvisited | hfewer | ⟨hsame, -⟩
              · exact .inl hvisited
              · exact .inr (.inl (hfewer.trans hless))
              · rw [hsame]
                exact .inr (.inl hless)
          | some id =>
            dsimp only at hturns ⊢
            obtain ⟨hvisited, hcursor⟩ := visit_frame (a := a) maxBytes { p with cursor := cursor } id
            by_cases hid : slot.id = id
            · refine .inl (visited_fill ?_)
              rw [hvisited, hid]
              simp
            · have hless : cursor.wait slots slot < p.cursor.wait slots slot := hturns.resolve_left fun h => hid (Option.some.inj h).symm
              have hrest := ih (p := a.visit maxBytes { p with cursor := cursor } id) (by simp [hvisited, hnot, hid])
              rw [hcursor] at hrest
              rcases hrest with hvisited | hfewer | ⟨hsame, -⟩
              · exact .inl hvisited
              · exact .inr (.inl (hfewer.trans hless))
              · rw [hsame, hcursor]
                exact .inr (.inl hless)
    · rw [if_neg hloop]
      exact .inr (.inr ⟨rfl, fun h => hloop h.2⟩)

/-! ### Runs of pages -/

section
variable {peerIds : List RecordId} {cursor cursor' : SyncCursor} {page : SyncPage} {n : Nat}

theorem ascending_missing : ((a.missing peerIds).map Prod.fst).Pairwise (compare · · = .lt) := by
  have hkeys : (a.records.toList.map Prod.fst).Pairwise (compare · · = .lt) := by
    rw [Std.ExtTreeMap.map_fst_toList_eq_keys]
    exact Std.ExtTreeMap.ordered_keys
  exact hkeys.sublist (List.filter_sublist.map Prod.fst)

theorem nextPage_nearer (hslots : a.missingSlots peerIds = .ok slots) (h : a.nextPage peerIds cursor limit maxBytes = .ok (page, cursor')) :
    ∃ ids, Pages a peerIds limit maxBytes page ids ∧
      (a.Fits peerIds limit maxBytes cursor → ∀ slot ∈ slots, slot.id ∈ ids ∨ cursor'.wait slots slot < cursor.wait slots slot) := by
  obtain ⟨slots', hslots', hlimit, rfl, hpages⟩ := nextPage_fill h
  obtain rfl : slots' = slots := Except.ok.inj (hslots'.symm.trans hslots)
  refine ⟨_, hpages, fun hfits slot hslot => ?_⟩
  have hids := slots_spec hslots
  have hwhole : Whole a ⟨cursor.opened slots', [], 0, [], []⟩ := ⟨rfl, rfl, rfl⟩
  rw [(hwhole.fill (fun slot => slots_held hslots) (Nat.zero_le _)).1 (hfits slots' hslots), ← wait_opened hslot cursor]
  have hwait := wait_fill (a := a) limit maxBytes maxPageTurns (p := ⟨cursor.opened slots', [], 0, [], []⟩)
    (hids ▸ ascending_missing) hslot List.not_mem_nil
  rcases hwait with hvisited | hless | ⟨-, hstuck⟩
  · exact .inl hvisited
  · exact .inr hless
  · exact absurd ⟨by decide, hlimit, List.length_pos_of_mem hslot⟩ hstuck

theorem follow_nearer (hslots : a.missingSlots peerIds = .ok slots) {pages : List SyncPage} (h : a.follow peerIds limit maxBytes n cursor = .ok (pages, cursor')) :
    ∃ ids, List.Forall₂ (Pages a peerIds limit maxBytes) pages ids ∧
      ((∀ k < n, ∀ pages c, a.follow peerIds limit maxBytes k cursor = .ok (pages, c) → a.Fits peerIds limit maxBytes c) →
        ∀ slot ∈ slots, (∃ emitted ∈ ids, slot.id ∈ emitted) ∨ cursor'.wait slots slot + n ≤ cursor.wait slots slot) := by
  induction n generalizing cursor pages with
  | zero =>
    cases h
    exact ⟨[], .nil, fun _ _ _ => .inr (Nat.le_refl _)⟩
  | succ n ih =>
    rw [follow] at h
    simp only [bind_eq_ok] at h
    obtain ⟨⟨page, next⟩, hpage, ⟨rest, final⟩, hrest, he⟩ := h
    dsimp only at hrest he
    cases he
    obtain ⟨emitted, hpages, hnearer⟩ := nextPage_nearer hslots hpage
    obtain ⟨ids, hids, hfollow⟩ := ih hrest
    refine ⟨emitted :: ids, .cons hpages hids, fun hfits slot hslot => ?_⟩
    have hfirst := hnearer (hfits 0 (by omega) [] cursor rfl) slot hslot
    have hlater := hfollow (fun k hk pages c hpages => hfits (k + 1) (by omega) (page :: pages) c ?_) slot hslot
    · rcases hfirst with hmem | hless
      · exact .inl ⟨emitted, List.mem_cons_self, hmem⟩
      · rcases hlater with ⟨held, hheld, hmem⟩ | hless'
        · exact .inl ⟨held, List.mem_cons_of_mem _ hheld, hmem⟩
        · exact .inr (by omega)
    · rw [follow, hpage]
      show (do let (pages, c) ← a.follow peerIds limit maxBytes k next; pure (page :: pages, c)) = _
      rw [hpages]
      rfl

theorem Settled.follow (ha : a.Settled) (hlength : peerIds.length ≤ maxRecords) (hascending : ascendingBy compare peerIds = true)
    (hlimit : 0 < limit ∧ limit ≤ maxPageRecords) (hbytes : maxBytes ≤ maxSnapshotBytes) (n : Nat) (cursor : SyncCursor) :
    ∃ r, a.follow peerIds limit maxBytes n cursor = .ok r := by
  induction n generalizing cursor with
  | zero => exact ⟨_, rfl⟩
  | succ n ih =>
    obtain ⟨⟨page, next⟩, hpage⟩ := ha.nextPage cursor limit maxBytes hlength hascending hlimit hbytes
    obtain ⟨⟨pages, final⟩, hpages⟩ := ih next
    refine ⟨(page :: pages, final), ?_⟩
    rw [Archive.follow, hpage]
    show (do let (pages, c) ← a.follow peerIds limit maxBytes n next; pure (page :: pages, c)) = _
    rw [hpages]
    rfl

/-- Pages for a static inventory come to every missing record, as long as what comes up in a page fits into it. -/
theorem missing_emitted (ha : a.Settled) (peerIds : List RecordId) (limit maxBytes : Nat) (hlength : peerIds.length ≤ maxRecords) (hascending : ascendingBy compare peerIds = true)
    (hlimit : 0 < limit ∧ limit ≤ maxPageRecords) (hbytes : maxBytes ≤ maxSnapshotBytes) (cursor : SyncCursor) (n : Nat) :
    ∃ pages cursor' ids, a.follow peerIds limit maxBytes n cursor = .ok (pages, cursor') ∧
      List.Forall₂ (Pages a peerIds limit maxBytes) pages ids ∧
      (3 * (a.missing peerIds).length * (a.missing peerIds).length ≤ n →
        (∀ k < n, ∀ pages c, a.follow peerIds limit maxBytes k cursor = .ok (pages, c) → a.Fits peerIds limit maxBytes c) →
        ∀ r ∈ a.missing peerIds, ∃ emitted ∈ ids, r.1 ∈ emitted) := by
  obtain ⟨slots, hslots⟩ := ha.missingSlots peerIds
  obtain ⟨⟨pages, cursor'⟩, hfollow⟩ := ha.follow hlength hascending hlimit hbytes n cursor
  obtain ⟨ids, hpages, hnearer⟩ := follow_nearer hslots hfollow
  refine ⟨pages, cursor', ids, hfollow, hpages, fun hn hfits r hr => ?_⟩
  have hids := slots_spec hslots
  obtain ⟨slot, hslot, hid⟩ := List.mem_map.1 (hids ▸ List.mem_map_of_mem (f := Prod.fst) hr)
  have hcount : slots.length = (a.missing peerIds).length := by simpa using congrArg List.length hids
  rcases hnearer hfits slot hslot with hmem | hless
  · rwa [hid] at hmem
  · have hwait := wait_lt hslot cursor
    rw [hcount] at hwait
    omega

end
/-! ### A post that is passed over in every page -/

def hungryArchive : Archive lengthCrypto :=
  (fromSnapshot ⟨77⟩ sampleLimits (snapshotMagic ++ (toBe (RealmId.mk 77).value ++ (toBe (2 : UInt32) ++
    [lengthOwner none, lengthPost lengthName].flatMap lengthFrame)))).toOption.getD lengthEmpty

def hungryPost : RecordId := (lengthPost lengthName).id lengthCrypto
def hungryOwner : RecordId := (lengthOwner none).id lengthCrypto
def hungryGroup : Group := .owner (ownerId hungryOwner)
def hungrySlots : List Slot := [⟨hungryOwner, hungryGroup, 1⟩, ⟨hungryPost, hungryGroup, 2⟩]

theorem limits_foldlM_loadFrame {frames : List (List UInt8)} {acc acc' : Archive crypto × Option RecordId}
    (h : frames.foldlM loadFrame acc = .ok acc') : acc'.1.limits = acc.1.limits := by
  induction frames generalizing acc with
  | nil =>
    cases h
    rfl
  | cons frame frames ih =>
    rw [List.foldlM_cons, bind_eq_ok] at h
    obtain ⟨loaded, hload, h⟩ := h
    rw [ih h]
    simp only [loadFrame, bind_eq_ok] at hload
    obtain ⟨_, -, _, -, _, -, he⟩ := hload
    cases he
    rfl

theorem fromSnapshot_settled {realm : RealmId} {limits : Limits} {raw : List UInt8} (h : fromSnapshot realm limits raw = .ok a) : a.Settled := by
  simp only [fromSnapshot, bind_eq_ok] at h
  obtain ⟨decoded, hdecode, ⟨classified, pressure⟩, hreclassify, he⟩ := h
  cases he
  obtain ⟨-, hrealm⟩ := realm_decodeSnapshot hdecode
  simp only [decodeSnapshot, bind_eq_ok] at hdecode
  obtain ⟨empty, hnew, frames, -, ⟨loaded, last⟩, hload, he⟩ := hdecode
  cases he
  refine .of_reclassify ?_ hrealm hreclassify
  rw [limits_foldlM_loadFrame hload]
  exact (empty_settled hnew).checked

theorem fill_turn {group : Group} {id : RecordId} {cursor : SyncCursor} (hloop : p.records.length < limit ∧ p.visited.length < slots.length)
    (hnext : Rotation.nextAfter compare (groupKeys slots) p.cursor.lastGroup = some group)
    (hturn : p.cursor.turn slots p.visited group = (some id, cursor)) :
    a.fill slots limit maxBytes (turns + 1) p = a.fill slots limit maxBytes turns (a.visit maxBytes { p with cursor := cursor } id) := by
  rw [Archive.fill, if_pos hloop]
  simp only [hnext, hturn]

theorem fill_done (hloop : ¬ (p.records.length < limit ∧ p.visited.length < slots.length)) : a.fill slots limit maxBytes turns p = p := by
  cases turns with
  | zero => rfl
  | succ turns => rw [Archive.fill, if_neg hloop]

theorem hungry_known : hungryArchive.missingSlots [] = .ok hungrySlots ∧
    hungryArchive.records[hungryOwner]?.map (·.encode.length) = some 172 ∧
    hungryArchive.records[hungryPost]?.map (·.encode.length) = some 206 ∧
    (hungryArchive.missing []).map (fun r => (r.1, r.2.encode.length)) = [(hungryOwner, 172), (hungryPost, 206)] := by
  decide +kernel

theorem hungry_keys : groupKeys hungrySlots = [hungryGroup] := by
  refine List.perm_singleton.1 ((List.perm_ext_iff_of_nodup nodup_groupKeys (List.nodup_singleton _)).2 fun g => ?_)
  rw [mem_groupKeys, List.mem_singleton]
  constructor
  · rintro ⟨slot, hslot, rfl⟩
    rcases List.mem_cons.1 hslot with rfl | hslot
    · rfl
    · rw [List.mem_singleton.1 hslot]
  · rintro rfl
    exact ⟨_, List.mem_cons_self, rfl⟩

/-- A page that starts before both lanes emits the owner's record only, and ends behind them, where it started. -/
theorem hungry_fill {cursor : SyncCursor} (hlane : (cursor.groups[hungryGroup]?.getD {}).nextLane = 0) (turns : Nat) :
    (hungryArchive.fill hungrySlots 32 206 (turns + 2) ⟨cursor, [], 0, [], []⟩).emitted = [hungryOwner] ∧
      ((hungryArchive.fill hungrySlots 32 206 (turns + 2) ⟨cursor, [], 0, [], []⟩).cursor.groups[hungryGroup]?.getD {}).nextLane = 0 := by
  obtain ⟨-, howner, hpost, -⟩ := hungry_known
  obtain ⟨owner, howner, hownerLength⟩ := Option.map_eq_some_iff.1 howner
  obtain ⟨post, hpost, hpostLength⟩ := Option.map_eq_some_iff.1 hpost
  have hlane0 : laneIds hungrySlots hungryGroup 0 = [] := by decide +kernel
  have hlane1 : laneIds hungrySlots hungryGroup 1 = [hungryOwner] := by decide +kernel
  have hlane2 : laneIds hungrySlots hungryGroup 2 = [hungryPost] := by decide +kernel
  have hne : hungryPost ≠ hungryOwner := by decide +kernel
  generalize hc : cursor.groups[hungryGroup]?.getD {} = c at hlane
  obtain ⟨nextLane, last⟩ := c
  dsimp only at hlane
  subst hlane
  have hfirst : cursor.turn hungrySlots [] hungryGroup =
      (some hungryOwner, ⟨some hungryGroup, cursor.groups.insert hungryGroup ⟨2, Function.update last 1 (some hungryOwner)⟩⟩) := by
    rw [SyncCursor.turn, hc]
    simp [choose, hlane0, hlane1, Rotation.nextAfter_nil, Rotation.nextAfter_singleton]
  generalize hnext : (⟨some hungryGroup, cursor.groups.insert hungryGroup ⟨2, Function.update last 1 (some hungryOwner)⟩⟩ : SyncCursor) = next at hfirst
  have hsecond : (next.turn hungrySlots [hungryOwner] hungryGroup).1 = some hungryPost ∧
      ((next.turn hungrySlots [hungryOwner] hungryGroup).2.groups[hungryGroup]?.getD {}).nextLane = 0 := by
    subst hnext
    simp [SyncCursor.turn, choose, hlane2, hne, Rotation.nextAfter_singleton]
  have hvisit : hungryArchive.visit 206 ⟨next, [], 0, [], []⟩ hungryOwner = ⟨next, [owner.encode], 172, [hungryOwner], [hungryOwner]⟩ := by
    simp [visit, howner, hownerLength]
  have hpassed : ∀ cursor, hungryArchive.visit 206 ⟨cursor, [owner.encode], 172, [hungryOwner], [hungryOwner]⟩ hungryPost =
      ⟨cursor, [owner.encode], 172, [hungryOwner, hungryPost], [hungryOwner]⟩ := by
    intro cursor
    simp [visit, hpost, hpostLength]
  have hgroup : ∀ last, Rotation.nextAfter compare (groupKeys hungrySlots) last = some hungryGroup := by
    intro last
    rw [hungry_keys]
    exact Rotation.nextAfter_singleton
  have hone : hungryArchive.fill hungrySlots 32 206 (turns + 2) ⟨cursor, [], 0, [], []⟩ =
      hungryArchive.fill hungrySlots 32 206 (turns + 1) ⟨next, [owner.encode], 172, [hungryOwner], [hungryOwner]⟩ := by
    have hloop : ([] : List (List UInt8)).length < 32 ∧ ([] : List RecordId).length < hungrySlots.length := ⟨by simp, by simp [hungrySlots]⟩
    rw [fill_turn (p := ⟨cursor, [], 0, [], []⟩) hloop (hgroup _) hfirst, hvisit]
  have htwo : hungryArchive.fill hungrySlots 32 206 (turns + 1) ⟨next, [owner.encode], 172, [hungryOwner], [hungryOwner]⟩ =
      ⟨(next.turn hungrySlots [hungryOwner] hungryGroup).2, [owner.encode], 172, [hungryOwner, hungryPost], [hungryOwner]⟩ := by
    have hloop : [owner.encode].length < 32 ∧ [hungryOwner].length < hungrySlots.length := ⟨by simp, by simp [hungrySlots]⟩
    rw [fill_turn (p := ⟨next, [owner.encode], 172, [hungryOwner], [hungryOwner]⟩) hloop (hgroup _) (Prod.ext hsecond.1 rfl), hpassed,
      fill_done (by simp [hungrySlots])]
  rw [hone, htwo]
  exact ⟨rfl, hsecond.2⟩

theorem hungry_follow {n : Nat} {cursor cursor' : SyncCursor} {pages : List SyncPage} (hlane : (cursor.groups[hungryGroup]?.getD {}).nextLane = 0)
    (h : hungryArchive.follow [] 32 206 n cursor = .ok (pages, cursor')) : ∀ page ∈ pages, ∀ raw ∈ page.records, raw.length = 172 := by
  induction n generalizing cursor pages with
  | zero =>
    cases h
    intro page hpage
    cases hpage
  | succ n ih =>
    rw [follow] at h
    simp only [bind_eq_ok] at h
    obtain ⟨⟨page, next⟩, hpage, ⟨rest, final⟩, hrest, he⟩ := h
    dsimp only at hrest he
    cases he
    obtain ⟨slots, hslots, -, hnext, hpages⟩ := nextPage_fill hpage
    obtain rfl : slots = hungrySlots := Except.ok.inj (hslots.symm.trans hungry_known.1)
    have hopened : ((cursor.opened hungrySlots).groups[hungryGroup]?.getD {}).nextLane = 0 := by
      rw [groups_opened ⟨hungryPost, hungryGroup, 2⟩ (by simp [hungrySlots])]
      exact hlane
    obtain ⟨hemitted, hlast⟩ := hungry_fill hopened 254
    intro page' hpage' raw hraw
    rcases List.mem_cons.1 hpage' with rfl | hpage'
    · have hrecords := hpages.records
      rw [show maxPageTurns = 254 + 2 from rfl, hemitted] at hrecords
      generalize page'.records = records at hrecords hraw
      cases hrecords with
      | cons howner hnil =>
        cases hnil
        obtain ⟨record, hrecord, rfl⟩ := howner
        have hlength := hungry_known.2.1
        rw [hrecord] at hlength
        rw [List.mem_singleton.1 hraw]
        exact Option.some.inj hlength
    · refine ih ?_ hrest page' hpage' raw hraw
      rw [hnext]
      exact hlast

theorem hungry_settled : hungryArchive.Settled := by
  have howner := hungry_known.2.1
  rw [hungryArchive] at howner ⊢
  cases hload : (fromSnapshot ⟨77⟩ sampleLimits (snapshotMagic ++ (toBe (RealmId.mk 77).value ++ (toBe (2 : UInt32) ++
      [lengthOwner none, lengthPost lengthName].flatMap lengthFrame))) : Except Error (Archive lengthCrypto)) with
  | error e =>
    rw [hload] at howner
    cases howner
  | ok a => exact fromSnapshot_settled hload

/-- Both records fit into a page one by one, and no number of pages brings the post. -/
theorem hungry_starved : hungryArchive.Settled ∧ (∀ r ∈ hungryArchive.missing [], r.2.encode.length ≤ 206) ∧
    ¬ ∃ n pages cursor', hungryArchive.follow [] 32 206 n {} = .ok (pages, cursor') ∧
      ∀ r ∈ hungryArchive.missing [], ∃ page ∈ pages, r.2.encode ∈ page.records := by
  have hknown := hungry_known.2.2.2
  refine ⟨hungry_settled, fun r hr => ?_, ?_⟩
  · have hmem := List.mem_map_of_mem (f := fun r : RecordId × VerifiedRecord lengthCrypto => (r.1, r.2.encode.length)) hr
    rw [hknown] at hmem
    simp only [List.mem_cons, Prod.mk.injEq, List.not_mem_nil, or_false] at hmem
    omega
  · rintro ⟨n, pages, cursor', hfollow, hall⟩
    have hmem : (hungryPost, 206) ∈ (hungryArchive.missing []).map fun r => (r.1, r.2.encode.length) := by
      rw [hknown]
      simp
    obtain ⟨r, hr, he⟩ := List.mem_map.1 hmem
    obtain ⟨page, hpage, hraw⟩ := hall r hr
    have hlength : r.2.encode.length = 172 := hungry_follow rfl hfollow page hpage _ hraw
    have hlong : r.2.encode.length = 206 := congrArg Prod.snd he
    omega

/-- With room for the longest records, twelve pages bring both. -/
theorem hungry_fed : ∃ pages cursor' ids, hungryArchive.follow [] 2 (2 * maxRecordBytes) 12 {} = .ok (pages, cursor') ∧
    List.Forall₂ (Pages hungryArchive [] 2 (2 * maxRecordBytes)) pages ids ∧ ∀ r ∈ hungryArchive.missing [], ∃ emitted ∈ ids, r.1 ∈ emitted := by
  have hcount : (hungryArchive.missing []).length = 2 := by simpa using congrArg List.length hungry_known.2.2.2
  obtain ⟨pages, cursor', ids, hfollow, hpages, hall⟩ :=
    missing_emitted hungry_settled [] 2 (2 * maxRecordBytes) (Nat.zero_le _) rfl ⟨by decide, by decide⟩ (by decide) {} 12
  refine ⟨pages, cursor', ids, hfollow, hpages, hall ?_ fun _ _ _ c _ => fits_of_space (Nat.le_refl _) [] c⟩
  rw [hcount]

end Archive
end Valhalla.Social
