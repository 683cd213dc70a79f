import Mathlib.Data.List.Perm.Subperm
import Valhalla.Lib.Rotation
import Valhalla.Social.Union

/-!
# Synchronization pages (`next_page` in `archive.rs` of `vhalla-social`)

The records that a peer's inventory misses are handed out in bounded pages. A cursor that the caller keeps rotates
over the owners and signers of the missing records and over three lanes of each.
-/

namespace Valhalla.Social
open Fallible FixedWidth Check

def maxPageRecords : Nat := 32
def maxPageTurns : Nat := 256

inductive Group
  | owner (id : OwnerId)
  | signer (key : Bytes32)
deriving DecidableEq

namespace Group

instance : Ord Group where
  compare
    | .owner a, .owner b => compare a b
    | .owner _, .signer _ => .lt
    | .signer _, .owner _ => .gt
    | .signer a, .signer b => compare a b

theorem compare_owner (a b : OwnerId) : compare (owner a) (owner b) = compare a b := rfl

theorem compare_signer (a b : Bytes32) : compare (signer a) (signer b) = compare a b := rfl

instance transCmp : Std.TransCmp (compare : Group → Group → Ordering) where
  eq_swap {a b} := by
    cases a <;> cases b
    case owner.owner a b =>
      rw [compare_owner, compare_owner]
      exact Std.OrientedCmp.eq_swap
    case signer.signer a b =>
      rw [compare_signer, compare_signer]
      exact Std.OrientedCmp.eq_swap
    all_goals rfl
  isLE_trans {a b c} hab hbc := by
    cases a <;> cases b <;> cases c
    case owner.owner.owner a b c =>
      rw [compare_owner] at hab hbc ⊢
      exact Std.TransCmp.isLE_trans hab hbc
    case signer.signer.signer a b c =>
      rw [compare_signer] at hab hbc ⊢
      exact Std.TransCmp.isLE_trans hab hbc
    all_goals first | rfl | exact absurd hab Bool.false_ne_true | exact absurd hbc Bool.false_ne_true

instance lawfulEqCmp : Std.LawfulEqCmp (compare : Group → Group → Ordering) where
  eq_of_compare {a b} h := by
    cases a <;> cases b
    case owner.owner a b =>
      rw [compare_owner] at h
      exact congrArg _ (Std.LawfulEqCmp.eq_of_compare h)
    case signer.signer a b =>
      rw [compare_signer] at h
      exact congrArg _ (Std.LawfulEqCmp.eq_of_compare h)
    all_goals cases h

end Group

instance neZero_lanes : NeZero 3 := ⟨by decide⟩

/-- The place of one group in its three lanes. -/
structure GroupCursor where
  nextLane : Fin 3 := 0
  last : Fin 3 → Option RecordId := fun _ => none

structure SyncCursor where
  lastGroup : Option Group := none
  groups : Std.ExtTreeMap Group GroupCursor compare := ∅

structure SyncPage where
  root : EvidenceRoot
  records : List (List UInt8)
  bytes : Nat
  examined : Nat
  remaining : Nat
deriving DecidableEq

/-! ### Claimed dependencies -/

def ControlAction.claims : ControlAction → List RecordId
  | .grant id .. => [⟨id.bytes⟩]
  | .revoke id accepted => id :: accepted.ids
  | .retire id _ accepted => ⟨id.bytes⟩ :: accepted.ids
  | .sealHeads _ heads | .ratify _ heads => heads.ids
  | .rotate _ => []

def Actor.claims : Actor → List RecordId
  | .owner _ control => [control]
  | .agent _ id grant => [⟨id.bytes⟩, grant]

def PostRef.claims (ref : PostRef) : List RecordId := [ref.post, ref.revision]

def ReplyRef.claims (ref : ReplyRef) : List RecordId := [ref.root, ref.parent.post, ref.parent.revision]

def Reaction.claims : Reaction → List RecordId
  | .clear => []
  | .up id | .down id => [id]

namespace Operation

def supersedes : Operation → List RecordId
  | .revise _ _ ids | .reviseFaceted _ _ ids | .repost _ _ ids | .react _ _ ids | .follow _ _ ids | .agentBio _ ids
  | .ownerProfile _ ids => ids.ids
  | .post .. | .postFaceted .. | .retract _ => []

def claims : Operation → List RecordId
  | .post _ _ reply quote | .postFaceted _ _ reply quote =>
    (reply.elim [] ReplyRef.claims) ++ quote.elim [] PostRef.claims
  | .revise id .. | .reviseFaceted id .. | .retract id => [id]
  | .repost id revision _ => id :: revision.toList
  | .react id reaction _ => id :: reaction.claims
  | .follow target .. => [⟨target.bytes⟩]
  | .agentBio .. | .ownerProfile .. => []

end Operation

def dependencies : Body → List RecordId
  | .ownerGenesis .. => []
  | .agentGenesis owner control .. => [⟨owner.bytes⟩, control]
  | .control owner previous action => ⟨owner.bytes⟩ :: previous :: action.claims
  | .social actor _ _ previous operation =>
    ⟨actor.ownerOf.bytes⟩ :: (actor.claims ++ (previous.toList ++ (operation.supersedes ++ operation.claims)))

namespace Bucket

def group : Bucket → Group
  | .data owner | .control owner | .reservedControl owner => .owner owner
  | .pending key => .signer key

def isControl : Bucket → Bool
  | .control _ | .reservedControl _ => true
  | .data _ | .pending _ => false

end Bucket

/-! ### The rotation -/

structure Slot where
  id : RecordId
  group : Group
  lane : Fin 3
deriving DecidableEq

def groupKeys (slots : List Slot) : List Group := Ascending.canonical compare (slots.map Slot.group)

def laneIds (slots : List Slot) (group : Group) (lane : Fin 3) : List RecordId :=
  (slots.filter fun slot => slot.group == group && slot.lane == lane).map Slot.id

def choose (slots : List Slot) (visited : List RecordId) (group : Group) : Nat → GroupCursor → Option RecordId × GroupCursor
  | 0, c => (none, c)
  | n + 1, c =>
    let lane := c.nextLane
    let c := { c with nextLane := lane + 1 }
    match Rotation.nextAfter compare ((laneIds slots group lane).filter fun id => !visited.contains id) (c.last lane) with
    | some id => (some id, { c with last := Function.update c.last lane (some id) })
    | none => choose slots visited group n c

def SyncCursor.turn (slots : List Slot) (visited : List RecordId) (cursor : SyncCursor) (group : Group) :
    Option RecordId × SyncCursor :=
  let (chosen, c) := choose slots visited group 3 (cursor.groups[group]?.getD {})
  (chosen, ⟨some group, cursor.groups.insert group c⟩)

/-- Only the groups that are missing something keep their place. -/
def SyncCursor.opened (slots : List Slot) (cursor : SyncCursor) : SyncCursor :=
  { cursor with groups := cursor.groups.filter fun group _ => (groupKeys slots).contains group }

/-- A page under way. -/
structure Paging where
  cursor : SyncCursor
  records : List (List UInt8) := []
  bytes : Nat := 0
  visited : List RecordId := []
  emitted : List RecordId := []

variable {crypto : Crypto}

namespace Archive
variable (a : Archive crypto)

def missing (peerIds : List RecordId) : List (RecordId × VerifiedRecord crypto) :=
  a.records.toList.filter fun r => !peerIds.contains r.1

def needed (missing : List (RecordId × VerifiedRecord crypto)) : List RecordId :=
  missing.flatMap fun r => (dependencies r.2.body).filter fun id => a.records.contains id

def slot (needed : List RecordId) (r : RecordId × VerifiedRecord crypto) : Except Error Slot := do
  let bucket ← Check.okOr .incomplete a.buckets[r.1]?
  pure ⟨r.1, bucket.group, if bucket.isControl then 0 else if needed.contains r.1 then 1 else 2⟩

/-- A record that does not fit is passed over and stays missing. -/
def visit (maxBytes : Nat) (p : Paging) (id : RecordId) : Paging :=
  let p := { p with visited := p.visited ++ [id] }
  match a.records[id]? with
  | none => p
  | some record =>
    if p.bytes + record.encode.length ≤ maxBytes then
      { p with
        bytes := p.bytes + record.encode.length
        records := p.records ++ [record.encode]
        emitted := p.emitted ++ [id] }
    else p

/-- The loop of `next_page`, for as many turns as are left. -/
def fill (slots : List Slot) (limit maxBytes : Nat) : Nat → Paging → Paging
  | 0, p => p
  | turns + 1, p =>
    if p.records.length < limit ∧ p.visited.length < slots.length then
      match Rotation.nextAfter compare (groupKeys slots) p.cursor.lastGroup with
      | none => p
      | some group =>
        match p.cursor.turn slots p.visited group with
        | (none, cursor) =>
          if slots.all fun slot => p.visited.contains slot.id then { p with cursor := cursor }
          else fill slots limit maxBytes turns { p with cursor := cursor }
        | (some id, cursor) => fill slots limit maxBytes turns (a.visit maxBytes { p with cursor := cursor } id)
    else p

def missingSlots (peerIds : List RecordId) : Except Error (List Slot) := (a.missing peerIds).mapM (a.slot (a.needed (a.missing peerIds)))

def nextPage (peerIds : List RecordId) (cursor : SyncCursor) (limit maxBytes : Nat) : Except Error (SyncPage × SyncCursor) := do
  require .bounds !(decide (peerIds.length > maxRecords) || !ascendingBy compare peerIds || limit == 0 ||
    decide (limit > maxPageRecords) || decide (maxBytes > maxSnapshotBytes))
  let missing := a.missing peerIds
  let slots ← missing.mapM (a.slot (a.needed missing))
  let keys := groupKeys slots
  let p := a.fill slots limit maxBytes maxPageTurns ⟨{ cursor with groups := cursor.groups.filter fun group _ => keys.contains group }, [], 0, [], []⟩
  pure (⟨a.root, p.records, p.bytes, p.visited.length, (missing.filter fun r => !p.emitted.contains r.1).length⟩, p.cursor)

end Archive

/-! ### What a turn chooses -/

section
variable {slots : List Slot} {visited : List RecordId} {group : Group}

theorem mem_laneIds {lane : Fin 3} {id : RecordId} :
    id ∈ laneIds slots group lane ↔ ∃ slot ∈ slots, slot.id = id ∧ slot.group = group ∧ slot.lane = lane := by
  simp only [laneIds, List.mem_map, List.mem_filter, Bool.and_eq_true, beq_iff_eq]
  constructor
  · rintro ⟨slot, ⟨hmem, hgroup, hlane⟩, rfl⟩
    exact ⟨slot, hmem, rfl, hgroup, hlane⟩
  · rintro ⟨slot, hmem, rfl, hgroup, hlane⟩
    exact ⟨slot, ⟨hmem, hgroup, hlane⟩, rfl⟩

theorem choose_some {n : Nat} {c : GroupCursor} {id : RecordId} (h : (choose slots visited group n c).1 = some id) :
    (∃ slot ∈ slots, slot.id = id ∧ slot.group = group) ∧ id ∉ visited := by
  induction n generalizing c with
  | zero => simp [choose] at h
  | succ n ih =>
    rw [choose] at h
    split at h
    · rename_i id' hnext
      cases h
      obtain ⟨hmem, hnot⟩ := List.mem_filter.1 (Rotation.nextAfter_mem hnext)
      obtain ⟨slot, hslot, hid, hgroup, -⟩ := mem_laneIds.1 hmem
      exact ⟨⟨slot, hslot, hid, hgroup⟩, by simpa using hnot⟩
    · exact ih h

def Exhausted (slots : List Slot) (visited : List RecordId) (group : Group) : Prop :=
  ∀ slot ∈ slots, slot.group = group → slot.id ∈ visited

theorem choose_none_lane {n : Nat} {c : GroupCursor} (h : (choose slots visited group n c).1 = none) (i : Nat) (hi : i < n) :
    ∀ slot ∈ slots, slot.group = group → slot.lane = c.nextLane + Fin.ofNat 3 i → slot.id ∈ visited := by
  induction n generalizing c i with
  | zero => omega
  | succ n ih =>
    rw [choose] at h
    split at h
    · cases h
    · rename_i hnext
      have hnone := Rotation.nextAfter_eq_none.1 hnext
      intro slot hslot hgroup hlane
      cases i with
      | zero =>
        have hall := List.filter_eq_nil_iff.1 hnone slot.id (mem_laneIds.2 ⟨slot, hslot, rfl, hgroup, by simpa using hlane⟩)
        simpa using hall
      | succ i =>
        refine ih h i (by omega) slot hslot hgroup ?_
        have hsucc : Fin.ofNat 3 (i + 1) = 1 + Fin.ofNat 3 i := by
          apply Fin.ext
          simp [Fin.val_add]
          omega
        have hassoc : ∀ base step : Fin 3, base + (1 + step) = base + 1 + step := by decide
        rw [hlane, hsucc, hassoc]

theorem choose_none {c : GroupCursor} (h : (choose slots visited group 3 c).1 = none) : Exhausted slots visited group := by
  intro slot hslot hgroup
  have hlane : ∀ base lane : Fin 3, ∃ i < 3, lane = base + Fin.ofNat 3 i := by decide
  obtain ⟨i, hi, hl⟩ := hlane c.nextLane slot.lane
  exact choose_none_lane h i hi slot hslot hgroup hl

theorem mem_groupKeys : group ∈ groupKeys slots ↔ ∃ slot ∈ slots, slot.group = group := by
  rw [groupKeys, Ascending.mem_canonical, List.mem_map]

theorem ascending_groupKeys : (groupKeys slots).Pairwise (compare · · = .lt) := Ascending.ascending_canonical

theorem nodup_groupKeys : (groupKeys slots).Nodup :=
  ascending_groupKeys.imp fun {x y} hlt he => by
    have hself : compare y y = .eq := Std.ReflCmp.compare_self
    rw [he, hself] at hlt
    cases hlt

theorem length_le_visited {stale : List Group} (hnodup : (slots.map Slot.id).Nodup) (hstale : stale.Nodup)
    (hkeys : ∀ g ∈ stale, g ∈ groupKeys slots) (h : ∀ g ∈ stale, Exhausted slots visited g) : stale.length ≤ visited.length := by
  have hsub : stale ⊆ (slots.filter fun slot => visited.contains slot.id).map Slot.group := by
    intro g hg
    obtain ⟨slot, hslot, rfl⟩ := mem_groupKeys.1 (hkeys g hg)
    exact List.mem_map_of_mem (List.mem_filter.2 ⟨hslot, by simpa using h _ hg slot hslot rfl⟩)
  have hids : ((slots.filter fun slot => visited.contains slot.id).map Slot.id) ⊆ visited := by
    intro id hid
    obtain ⟨slot, hslot, rfl⟩ := List.mem_map.1 hid
    simpa using (List.mem_filter.1 hslot).2
  have h1 := (List.subperm_of_subset hstale hsub).length_le
  have h2 := (List.subperm_of_subset (hnodup.sublist (List.filter_sublist.map Slot.id)) hids).length_le
  rw [List.length_map] at h1 h2
  exact h1.trans h2

theorem length_le_of_exhausted (hnodup : (slots.map Slot.id).Nodup) (h : ∀ slot ∈ slots, slot.id ∈ visited) :
    slots.length ≤ visited.length := by
  rw [← List.length_map (f := Slot.id)]
  refine (List.subperm_of_subset hnodup fun id hid => ?_).length_le
  obtain ⟨slot, hslot, rfl⟩ := List.mem_map.1 hid
  exact h slot hslot

end

/-! ### What a page holds -/

namespace Archive
variable {a : Archive crypto} {slots : List Slot} {limit maxBytes : Nat}

/-- The records of a page under way are those emitted, within its bounds. -/
structure Filling (a : Archive crypto) (slots : List Slot) (limit maxBytes : Nat) (p : Paging) : Prop where
  nodup : p.visited.Nodup
  visited : ∀ id ∈ p.visited, id ∈ slots.map Slot.id
  emitted : p.emitted.Sublist p.visited
  records : List.Forall₂ (fun id raw => ∃ record, a.records[id]? = some record ∧ raw = record.encode) p.emitted p.records
  bytes : p.bytes = (p.records.map List.length).sum
  fits : p.bytes ≤ maxBytes
  count : p.records.length ≤ limit

theorem Filling.visit {p : Paging} {id : RecordId} (h : Filling a slots limit maxBytes p) (hroom : p.records.length < limit)
    (hid : id ∈ slots.map Slot.id) (hnew : id ∉ p.visited) : Filling a slots limit maxBytes (a.visit maxBytes p id) := by
  have hnodup : (p.visited ++ [id]).Nodup := by
    rw [List.nodup_append]
    refine ⟨h.nodup, List.nodup_singleton _, fun x hx y hy he => ?_⟩
    rw [List.mem_singleton.1 hy] at he
    exact hnew (he ▸ hx)
  have hvisited : ∀ x ∈ p.visited ++ [id], x ∈ slots.map Slot.id := by
    intro x hx
    obtain hx | hx := List.mem_append.1 hx
    · exact h.visited x hx
    · rwa [List.mem_singleton.1 hx]
  have hkept : p.emitted.Sublist (p.visited ++ [id]) := h.emitted.trans (List.sublist_append_left _ _)
  unfold Archive.visit
  cases hrecord : a.records[id]? with
  | none => exact { h with nodup := hnodup, visited := hvisited, emitted := hkept }
  | some record =>
    by_cases hfits : p.bytes + record.encode.length ≤ maxBytes
    · simp only [if_pos hfits]
      refine ⟨hnodup, hvisited, h.emitted.append (List.Sublist.refl _), ?_, ?_, hfits, ?_⟩
      · exact List.rel_append h.records (.cons ⟨record, hrecord, rfl⟩ .nil)
      · simp [h.bytes]
      · rw [List.length_append, List.length_singleton]
        exact hroom
    · simp only [if_neg hfits]
      exact { h with nodup := hnodup, visited := hvisited, emitted := hkept }

theorem Filling.fill {turns : Nat} {p : Paging} (h : Filling a slots limit maxBytes p) :
    Filling a slots limit maxBytes (a.fill slots limit maxBytes turns p) := by
  induction turns generalizing p with
  | zero => exact h
  | succ turns ih =>
    rw [Archive.fill]
    split
    · rename_i hloop
      split
      · exact h
      · rename_i group _
        split
        · split
          · exact { h with }
          · exact ih { h with }
        · rename_i id cursor hturn
          have hchosen : (choose slots p.visited group 3 (p.cursor.groups[group]?.getD {})).1 = some id := congrArg Prod.fst hturn
          obtain ⟨⟨slot, hslot, hid, -⟩, hnew⟩ := choose_some hchosen
          refine ih (Filling.visit { h with } hloop.1 ?_ hnew)
          rw [← hid]
          exact List.mem_map_of_mem hslot
    · exact h

/-! ### How much a page holds -/

/-- Records small enough to fit all together. -/
structure Roomy (a : Archive crypto) (slots : List Slot) (limit maxBytes : Nat) : Prop where
  nodup : (slots.map Slot.id).Nodup
  held : ∀ slot ∈ slots, ∃ record, a.records[slot.id]? = some record
  space : limit * maxRecordBytes ≤ maxBytes

structure Eager (p : Paging) : Prop where
  emitted : p.emitted = p.visited
  count : p.records.length = p.visited.length
  bytes : p.bytes ≤ p.visited.length * maxRecordBytes

theorem Eager.visit (hroomy : Roomy a slots limit maxBytes) {p : Paging} {id : RecordId} (h : Eager p)
    (hid : id ∈ slots.map Slot.id) (hlimit : p.visited.length < limit) :
    Eager (a.visit maxBytes p id) ∧ (a.visit maxBytes p id).visited = p.visited ++ [id] ∧
      (a.visit maxBytes p id).cursor = p.cursor := by
  obtain ⟨slot, hslot, rfl⟩ := List.mem_map.1 hid
  obtain ⟨record, hrecord⟩ := hroomy.held slot hslot
  have hsize := SignedRecord.length_encode_le record.signed
  have hfits : p.bytes + record.encode.length ≤ maxBytes := by
    calc p.bytes + record.encode.length ≤ p.visited.length * maxRecordBytes + maxRecordBytes :=
          Nat.add_le_add h.bytes hsize
      _ = (p.visited.length + 1) * maxRecordBytes := (Nat.succ_mul _ _).symm
      _ ≤ limit * maxRecordBytes := Nat.mul_le_mul_right _ hlimit
      _ ≤ maxBytes := hroomy.space
  unfold Archive.visit
  simp only [hrecord, if_pos hfits]
  refine ⟨⟨?_, ?_, ?_⟩, trivial, trivial⟩
  · rw [h.emitted]
  · simp [h.count]
  · rw [List.length_append, List.length_singleton, Nat.succ_mul]
    exact Nat.add_le_add h.bytes hsize

theorem Eager.full {p : Paging} (h : Eager p) (hfilling : Filling a slots limit maxBytes p)
    (hdone : limit ≤ p.visited.length ∨ slots.length ≤ p.visited.length) : p.emitted.length = min limit slots.length := by
  have hmost : p.visited.length ≤ slots.length := by
    rw [← List.length_map (f := Slot.id)]
    exact (List.subperm_of_subset hfilling.nodup hfilling.visited).length_le
  have hcount := hfilling.count
  rw [h.count] at hcount
  rw [h.emitted]
  omega

theorem stale_le (hroomy : Roomy a slots limit maxBytes) {visited : List RecordId} {last : Option Group}
    {fresh stale : List Group} (hqueue : Rotation.queue compare (groupKeys slots) last = fresh ++ stale)
    (hstale : ∀ g ∈ stale, Exhausted slots visited g) : stale.length ≤ visited.length := by
  have hperm : (fresh ++ stale).Perm (groupKeys slots) := hqueue ▸ Rotation.queue_perm
  refine length_le_visited hroomy.nodup ?_ (fun g hg => hperm.mem_iff.1 (List.mem_append_right _ hg)) hstale
  exact (hperm.nodup_iff.2 nodup_groupKeys).of_append_right

/-- With enough turns left the page gets as many records as there are, or as many as it may hold. The groups that
came up since the last record, `stale`, are exhausted and stand at the end of the rotation. -/
theorem Eager.fill (hroomy : Roomy a slots limit maxBytes) {turns : Nat} {p : Paging} (fresh stale : List Group)
    (hfilling : Filling a slots limit maxBytes p) (h : Eager p)
    (hqueue : Rotation.queue compare (groupKeys slots) p.cursor.lastGroup = fresh ++ stale)
    (hstale : ∀ g ∈ stale, Exhausted slots p.visited g)
    (hturns : limit * limit ≤ turns + limit * p.visited.length + stale.length) :
    (a.fill slots limit maxBytes turns p).emitted.length = min limit slots.length := by
  induction turns generalizing p fresh stale with
  | zero =>
    refine h.full hfilling ?_
    have hle := stale_le hroomy hqueue hstale
    by_contra hless
    have hmul : limit * (p.visited.length + 1) ≤ limit * limit := Nat.mul_le_mul_left _ (by omega)
    rw [Nat.mul_succ] at hmul
    omega
  | succ turns ih =>
    rw [Archive.fill]
    by_cases hloop : p.records.length < limit ∧ p.visited.length < slots.length
    · rw [if_pos hloop]
      have hle := stale_le hroomy hqueue hstale
      have hlimit : p.visited.length < limit := h.count ▸ hloop.1
      cases fresh with
      | nil =>
        have hall : ∀ slot ∈ slots, slot.id ∈ p.visited := fun slot hslot => by
          have hmem : slot.group ∈ stale := by
            rw [List.nil_append] at hqueue
            exact hqueue ▸ Rotation.queue_perm.mem_iff.2 (mem_groupKeys.2 ⟨slot, hslot, rfl⟩)
          exact hstale _ hmem slot hslot rfl
        have hlength := length_le_of_exhausted hroomy.nodup hall
        omega
      | cons group fresh =>
        have hnext : Rotation.nextAfter compare (groupKeys slots) p.cursor.lastGroup = some group := by
          rw [← Rotation.head?_queue, hqueue]
          rfl
        rw [List.cons_append] at hqueue
        have hrotated := Rotation.queue_rotate ascending_groupKeys hqueue
        simp only [hnext]
        cases hturn : p.cursor.turn slots p.visited group with
        | mk chosen cursor =>
          have hlast : cursor.lastGroup = some group := by
            rw [SyncCursor.turn] at hturn
            cases hturn
            rfl
          have hchosen : (choose slots p.visited group 3 (p.cursor.groups[group]?.getD {})).1 = chosen := congrArg Prod.fst hturn
          cases chosen with
          | none =>
            dsimp only
            split
            · rename_i hall
              have hlength := length_le_of_exhausted hroomy.nodup fun slot hslot => by
                simpa using List.all_eq_true.1 hall slot hslot
              omega
            · refine ih fresh (stale ++ [group]) { hfilling with } { h with } ?_ ?_ ?_
              · rw [hlast, hrotated, List.append_assoc]
              · intro g hg
                obtain hg | hg := List.mem_append.1 hg
                · exact hstale g hg
                · rw [List.mem_singleton.1 hg]
                  exact choose_none hchosen
              · simp only [List.length_append, List.length_singleton]
                omega
          | some id =>
            dsimp only
            obtain ⟨⟨slot, hslot, hid, -⟩, hnew⟩ := choose_some hchosen
            have hmem : id ∈ slots.map Slot.id := hid ▸ List.mem_map_of_mem hslot
            obtain ⟨heager, hvisited, hcursor⟩ :=
              Eager.visit (p := { p with cursor := cursor }) hroomy { h with } hmem hlimit
            refine ih (fresh ++ stale ++ [group]) []
              (Filling.visit (p := { p with cursor := cursor }) { hfilling with } hloop.1 hmem hnew) heager ?_ ?_ ?_
            · rw [hcursor, hlast, hrotated, List.append_nil]
            · intro g hg
              cases hg
            · rw [hvisited, List.length_append, List.length_singleton, Nat.mul_succ, List.length_nil]
              show limit * limit ≤ turns + (limit * p.visited.length + limit) + 0
              omega
    · rw [if_neg hloop]
      refine h.full hfilling ?_
      rw [h.count] at hloop
      omega

/-! ### Pages -/

section
variable {peerIds : List RecordId} {cursor cursor' : SyncCursor} {page : SyncPage}

structure Pages (a : Archive crypto) (peerIds : List RecordId) (limit maxBytes : Nat) (page : SyncPage) (ids : List RecordId) :
    Prop where
  root : page.root = a.root
  nodup : ids.Nodup
  missing : ∀ id ∈ ids, id ∉ peerIds
  records : List.Forall₂ (fun id raw => ∃ record, a.records[id]? = some record ∧ raw = record.encode) ids page.records
  bytes : page.bytes = (page.records.map List.length).sum
  fits : page.bytes ≤ maxBytes
  count : page.records.length ≤ limit
  remaining : page.remaining = (a.missing peerIds).length - ids.length

theorem mem_missing {r : RecordId × VerifiedRecord crypto} :
    r ∈ a.missing peerIds ↔ a.records[r.1]? = some r.2 ∧ r.1 ∉ peerIds := by
  rw [missing, List.mem_filter, Std.ExtTreeMap.mem_toList_iff_getElem?_eq_some]
  simp

theorem nodup_missing : ((a.missing peerIds).map Prod.fst).Nodup := by
  have hkeys : (a.records.toList.map Prod.fst).Nodup := by
    rw [Std.ExtTreeMap.map_fst_toList_eq_keys]
    exact Std.ExtTreeMap.nodup_keys
  exact hkeys.sublist (List.filter_sublist.map Prod.fst)

theorem slot_eq_ok {needed : List RecordId} {r : RecordId × VerifiedRecord crypto} {slot : Slot} (h : a.slot needed r = .ok slot) :
    slot.id = r.1 := by
  obtain ⟨bucket, -, h⟩ := bind_eq_ok.1 h
  cases h
  rfl

theorem map_id_of_slots {needed : List RecordId} {entries : List (RecordId × VerifiedRecord crypto)} {slots : List Slot}
    (h : List.Forall₂ (fun r slot => a.slot needed r = .ok slot) entries slots) : slots.map Slot.id = entries.map Prod.fst := by
  induction h with
  | nil => rfl
  | cons hslot _ ih => rw [List.map_cons, List.map_cons, slot_eq_ok hslot, ih]

theorem length_filter_emitted {entries : List (RecordId × VerifiedRecord crypto)} {ids : List RecordId}
    (hentries : (entries.map Prod.fst).Nodup) (hids : ids.Nodup) (hsub : ∀ id ∈ ids, id ∈ entries.map Prod.fst) :
    (entries.filter fun r => !ids.contains r.1).length = entries.length - ids.length := by
  have hsplit := (List.filter_append_perm (fun r : RecordId × VerifiedRecord crypto => ids.contains r.1) entries).length_eq
  have hperm : ((entries.filter fun r => ids.contains r.1).map Prod.fst).Perm ids := by
    refine (List.perm_ext_iff_of_nodup (hentries.sublist (List.filter_sublist.map Prod.fst)) hids).2 fun id => ?_
    constructor
    · intro hid
      obtain ⟨r, hr, rfl⟩ := List.mem_map.1 hid
      simpa using (List.mem_filter.1 hr).2
    · intro hid
      obtain ⟨r, hr, rfl⟩ := List.mem_map.1 (hsub id hid)
      exact List.mem_map_of_mem (List.mem_filter.2 ⟨hr, by simpa using hid⟩)
  have hlength := hperm.length_eq
  rw [List.length_map] at hlength
  rw [List.length_append] at hsplit
  omega

theorem Filling.start (opened : SyncCursor) : Filling a slots limit maxBytes ⟨opened, [], 0, [], []⟩ :=
  ⟨List.nodup_nil, fun _ h => absurd h List.not_mem_nil, .refl _, .nil, rfl, Nat.zero_le _, Nat.zero_le _⟩

theorem slots_spec (h : a.missingSlots peerIds = .ok slots) : slots.map Slot.id = (a.missing peerIds).map Prod.fst :=
  map_id_of_slots (mapM_eq_ok.1 h)

theorem slots_held (h : a.missingSlots peerIds = .ok slots) {slot : Slot} (hslot : slot ∈ slots) : ∃ record, a.records[slot.id]? = some record := by
  obtain ⟨r, hr, hid⟩ := List.mem_map.1 (slots_spec h ▸ List.mem_map_of_mem (f := Slot.id) hslot)
  exact ⟨r.2, hid ▸ (mem_missing.1 hr).1⟩

theorem nextPage_fill (h : a.nextPage peerIds cursor limit maxBytes = .ok (page, cursor')) :
    ∃ slots, a.missingSlots peerIds = .ok slots ∧ 0 < limit ∧
      cursor' = (a.fill slots limit maxBytes maxPageTurns ⟨cursor.opened slots, [], 0, [], []⟩).cursor ∧
      Pages a peerIds limit maxBytes page (a.fill slots limit maxBytes maxPageTurns ⟨cursor.opened slots, [], 0, [], []⟩).emitted := by
  simp only [nextPage, bind_eq_ok, require_eq_ok, exists_const] at h
  obtain ⟨hrequire, slots, hslots, h⟩ := h
  have hlimit : 0 < limit := by
    simp only [Bool.not_eq_true', Bool.or_eq_false_iff, beq_eq_false_iff_ne] at hrequire
    exact Nat.pos_of_ne_zero hrequire.1.1.2
  change a.missingSlots peerIds = .ok slots at hslots
  change pure (_, (a.fill slots limit maxBytes maxPageTurns ⟨cursor.opened slots, [], 0, [], []⟩).cursor) = _ at h
  have hids := slots_spec hslots
  have hfilling : Filling a slots limit maxBytes (a.fill slots limit maxBytes maxPageTurns ⟨cursor.opened slots, [], 0, [], []⟩) :=
    (Filling.start _).fill
  have hentries : ∀ id ∈ (a.fill slots limit maxBytes maxPageTurns ⟨cursor.opened slots, [], 0, [], []⟩).emitted,
      id ∈ (a.missing peerIds).map Prod.fst := fun id hid => hids ▸ hfilling.visited id (hfilling.emitted.subset hid)
  have honce := hfilling.nodup.sublist hfilling.emitted
  cases h
  refine ⟨slots, hslots, hlimit, rfl, rfl, honce, fun id hid => ?_, hfilling.records, hfilling.bytes, hfilling.fits, hfilling.count, ?_⟩
  · obtain ⟨r, hr, rfl⟩ := List.mem_map.1 (hentries id hid)
    exact (mem_missing.1 hr).2
  · exact length_filter_emitted nodup_missing honce hentries

theorem nextPage_pages (h : a.nextPage peerIds cursor limit maxBytes = .ok (page, cursor')) :
    ∃ ids, Pages a peerIds limit maxBytes page ids ∧ (limit * limit ≤ maxPageTurns → limit * maxRecordBytes ≤ maxBytes →
      ids.length = min limit (a.missing peerIds).length) := by
  obtain ⟨slots, hslots, -, -, hpages⟩ := nextPage_fill h
  refine ⟨_, hpages, fun hturns hspace => ?_⟩
  have hids := slots_spec hslots
  have hroomy : Roomy a slots limit maxBytes := ⟨hids ▸ nodup_missing, fun slot hslot => slots_held hslots hslot, hspace⟩
  have hcount : slots.length = (a.missing peerIds).length := by simpa using congrArg List.length hids
  rw [← hcount]
  refine Eager.fill hroomy _ [] (Filling.start _) ⟨rfl, rfl, Nat.zero_le _⟩ (List.append_nil _).symm (fun _ h => ?_) ?_
  · cases h
  · exact Nat.le_add_right_of_le (Nat.le_add_right_of_le hturns)

theorem Settled.bucket (ha : a.Settled) {id : RecordId} {record : VerifiedRecord crypto} (h : a.records[id]? = some record) :
    ∃ bucket, a.buckets[id]? = some bucket := by
  have hfact : (factsOf a.records)[id]? = some record.fact := by
    rw [factsOf, Std.ExtTreeMap.getElem?_map, h]
    rfl
  have hmem : (id, record.fact) ∈ (factsOf a.records).toList := Std.ExtTreeMap.mem_toList_iff_getElem?_eq_some.2 hfact
  rw [ha.buckets, recount, ControlView.accounting, ControlView.classified, ControlView.evidence_new, Classified.accounting]
  have hnodup : ((a.evidence.records.map fun r => (r, (ControlView.new a.evidence 0).bucketOf r)).map (·.1.1)).Nodup := by
    rw [List.map_map]
    show ((factsOf a.records).toList.map Prod.fst).Nodup
    rw [Std.ExtTreeMap.map_fst_toList_eq_keys]
    exact Std.ExtTreeMap.nodup_keys
  exact ⟨_, Maps.getElem?_insertAll_of_mem hnodup (List.mem_map_of_mem hmem)⟩

theorem Settled.missingSlots (ha : a.Settled) (peerIds : List RecordId) : ∃ slots, a.missingSlots peerIds = .ok slots := by
  refine mapM_total fun r hr => ?_
  obtain ⟨bucket, hbucket⟩ := ha.bucket (mem_missing.1 hr).1
  exact ⟨_, by rw [slot, hbucket]; rfl⟩

theorem Settled.nextPage (ha : a.Settled) (cursor : SyncCursor) (limit maxBytes : Nat) (hlength : peerIds.length ≤ maxRecords) (hascending : ascendingBy compare peerIds = true)
    (hlimit : 0 < limit ∧ limit ≤ maxPageRecords) (hbytes : maxBytes ≤ maxSnapshotBytes) :
    ∃ r, a.nextPage peerIds cursor limit maxBytes = .ok r := by
  obtain ⟨slots, hslots⟩ := ha.missingSlots peerIds
  rw [Archive.missingSlots] at hslots
  have hrequire : (!(decide (peerIds.length > maxRecords) || !ascendingBy compare peerIds || limit == 0 ||
      decide (limit > maxPageRecords) || decide (maxBytes > maxSnapshotBytes))) = true := by
    simp [hlength, hascending, hlimit.2, hbytes, Nat.pos_iff_ne_zero.1 hlimit.1]
  simp only [Archive.nextPage, hrequire, hslots]
  exact ⟨_, rfl⟩

end
end Archive

end Valhalla.Social
