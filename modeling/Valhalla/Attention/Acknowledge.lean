import Valhalla.Attention.Codec
import Valhalla.Lib.Trace
import Valhalla.Social.Union

/-!
# Acknowledged content stays acknowledged

Marks only lose precision: a group in a table stays there (`Marks.Keeps`), an exact update that leaves its table
takes the precision of its owner with it, and an owner that finds no room that of the whole lane. Nothing is marked
or lost for an owner none of whose updates was acknowledged (`Marks.From`).
-/

namespace Valhalla.Attention
open Fallible FixedWidth Check
open Social (Id IdKind OwnerId RecordId)

/-! ### Lost precision -/

section
variable {owners : Owners} {whole : Bool} {owner other : OwnerId}

theorem losePrecision_loses : (losePrecision owners whole owner).2 = true ∨ (losePrecision owners whole owner).1.contains owner = true := by
  unfold losePrecision
  split
  · exact .inr (Std.ExtTreeSet.contains_insert_self)
  · exact .inl rfl

theorem losePrecision_whole (h : whole = true) : (losePrecision owners whole owner).2 = true := by
  unfold losePrecision
  split
  · exact h
  · rfl

theorem losePrecision_keeps (h : owners.contains other = true) : (losePrecision owners whole owner).1.contains other = true := by
  unfold losePrecision
  split
  · rw [Std.ExtTreeSet.contains_insert, h, Bool.or_true]
  · exact h

theorem losePrecision_only (h : (losePrecision owners whole owner).1.contains other = true) :
    other = owner ∨ owners.contains other = true := by
  unfold losePrecision at h
  split at h
  · rw [Std.ExtTreeSet.contains_insert, Bool.or_eq_true, beq_iff_eq, Std.LawfulEqCmp.compare_eq_iff_eq] at h
    exact h.imp_left Eq.symm
  · exact .inr h

theorem size_losePrecision_le (h : owners.size ≤ maxMarks) : (losePrecision owners whole owner).1.size ≤ maxMarks := by
  unfold losePrecision
  split
  · rename_i hroom
    rw [Std.ExtTreeSet.size_insert]
    by_cases hmem : owners.contains owner = true
    · rw [if_pos hmem]
      exact h
    · rw [if_neg hmem]
      exact hroom.resolve_right hmem
  · exact h

end

/-! ### What the marks of a lane keep -/

namespace Marks
variable {marks next last : Marks} {update u : Update} {owner : OwnerId} {recipient : OwnerId} {P : OwnerId → Prop}

/-- Marks that know or have lost at least what earlier ones did. -/
structure Keeps (marks next : Marks) : Prop where
  groups : ∀ u, marks.knowsGroup u = true → next.knowsGroup u = true
  lostGroups : ∀ u, marks.losesGroup u = true → next.losesGroup u = true
  updates : ∀ u, marks.knowsUpdate u = true ∨ marks.losesUpdate u = true → next.knowsUpdate u = true ∨ next.losesUpdate u = true

structure From (P : OwnerId → Prop) (marks : Marks) : Prop where
  groups : ∀ u, marks.knowsGroup u = true → P u.group.sourceOwner
  updates : ∀ u, marks.knowsUpdate u = true → P u.group.sourceOwner
  groupOwners : ∀ owner, marks.groupUnknownOwners.contains owner = true → P owner
  updateOwners : ∀ owner, marks.updateUnknownOwners.contains owner = true → P owner

theorem Keeps.refl (marks : Marks) : marks.Keeps marks := ⟨fun _ h => h, fun _ h => h, fun _ h => h⟩

theorem Keeps.trans (h : marks.Keeps next) (h' : next.Keeps last) : marks.Keeps last :=
  ⟨fun u hu => h'.groups u (h.groups u hu), fun u hu => h'.lostGroups u (h.lostGroups u hu),
    fun u hu => h'.updates u (h.updates u hu)⟩

theorem From.imp {Q : OwnerId → Prop} (h : marks.From P) (himp : ∀ owner, P owner → Q owner) : marks.From Q :=
  ⟨fun u hu => himp _ (h.groups u hu), fun u hu => himp _ (h.updates u hu), fun o ho => himp _ (h.groupOwners o ho),
    fun o ho => himp _ (h.updateOwners o ho)⟩

/-! ### Lost groups and updates -/

theorem losesGroup_iff : marks.losesGroup u = true ↔
    marks.groupsUnknown = true ∨ marks.groupUnknownOwners.contains u.group.sourceOwner = true := by
  rw [losesGroup, Bool.or_eq_true]

theorem losesUpdate_iff : marks.losesUpdate u = true ↔
    marks.updatesUnknown = true ∨ marks.updateUnknownOwners.contains u.group.sourceOwner = true := by
  rw [losesUpdate, Bool.or_eq_true]

theorem loseGroup_loses : (marks.loseGroup update.group.sourceOwner).losesGroup update = true :=
  losesGroup_iff.2 losePrecision_loses

theorem loseUpdate_loses (h : u.group.sourceOwner = owner) : (marks.loseUpdate owner).losesUpdate u = true := by
  subst h
  exact losesUpdate_iff.2 losePrecision_loses

theorem keeps_loseGroup : marks.Keeps (marks.loseGroup owner) where
  groups _ h := h
  lostGroups _ h := losesGroup_iff.2 ((losesGroup_iff.1 h).imp losePrecision_whole losePrecision_keeps)
  updates _ h := h

theorem loseUpdate_keeps (h : marks.losesUpdate u = true) : (marks.loseUpdate owner).losesUpdate u = true :=
  losesUpdate_iff.2 ((losesUpdate_iff.1 h).imp losePrecision_whole losePrecision_keeps)

theorem keeps_loseUpdate : marks.Keeps (marks.loseUpdate owner) where
  groups _ h := h
  lostGroups _ h := h
  updates _ h := h.imp_right loseUpdate_keeps

theorem From.loseGroup (h : marks.From P) (ho : P owner) : (marks.loseGroup owner).From P where
  groups := h.groups
  updates := h.updates
  groupOwners o hmem := (losePrecision_only hmem).elim (fun heq => heq ▸ ho) (h.groupOwners o)
  updateOwners := h.updateOwners

theorem From.loseUpdate (h : marks.From P) (ho : P owner) : (marks.loseUpdate owner).From P where
  groups := h.groups
  updates := h.updates
  groupOwners := h.groupOwners
  updateOwners o hmem := (losePrecision_only hmem).elim (fun heq => heq ▸ ho) (h.updateOwners o)

theorem Valid.loseGroup (h : marks.Valid recipient) : (marks.loseGroup owner).Valid recipient :=
  { h with
    groupOwners_le := size_losePrecision_le h.groupOwners_le
    updates_covered := fun u hu => by
      have hcovered := h.updates_covered u hu
      rw [Bool.or_eq_true] at hcovered ⊢
      exact hcovered.imp (keeps_loseGroup.lostGroups u) (keeps_loseGroup.groups u) }

theorem Valid.loseUpdate (h : marks.Valid recipient) : (marks.loseUpdate owner).Valid recipient :=
  { h with updateOwners_le := size_losePrecision_le h.updateOwners_le }

/-! ### Marked entries -/

theorem knowsGroup_insert {witness : RecordId} : ({ marks with groups := marks.groups.insert update.group witness } : Marks).knowsGroup u = true ↔
    update.group = u.group ∨ marks.knowsGroup u = true := by
  rw [knowsGroup, knowsGroup, Std.ExtTreeMap.contains_insert, Bool.or_eq_true, beq_iff_eq, Std.LawfulEqCmp.compare_eq_iff_eq]

theorem knowsUpdate_insert : ({ marks with updates := marks.updates.insert update } : Marks).knowsUpdate u = true ↔
    update = u ∨ marks.knowsUpdate u = true := by
  rw [knowsUpdate, knowsUpdate, Std.ExtTreeSet.contains_insert, Bool.or_eq_true, beq_iff_eq, Std.LawfulEqCmp.compare_eq_iff_eq]

theorem markGroup_cases (marks : Marks) (update : Update) : (∃ witness, (marks.groups.size < maxMarks ∨ marks.groups.contains update.group = true) ∧
    marks.markGroup update = { marks with groups := marks.groups.insert update.group witness }) ∨
    marks.markGroup update = marks.loseGroup update.group.sourceOwner := by
  unfold markGroup
  split
  · rename_i witness hw
    exact .inl ⟨_, .inr (by rw [Std.ExtTreeMap.contains_eq_isSome_getElem?, hw]; rfl), rfl⟩
  · split
    · rename_i hroom
      exact .inl ⟨_, .inl hroom, rfl⟩
    · exact .inr rfl

theorem markUpdate_cases (marks : Marks) (update : Update) : ((marks.updates.size < maxMarks ∨ marks.updates.contains update = true) ∧
    marks.markUpdate update = { marks with updates := marks.updates.insert update }) ∨
    marks.markUpdate update = marks.loseUpdate update.group.sourceOwner := by
  unfold markUpdate
  split
  · rename_i hroom
    exact .inl ⟨hroom, rfl⟩
  · exact .inr rfl

theorem keeps_markGroup : marks.Keeps (marks.markGroup update) := by
  obtain ⟨witness, -, heq⟩ | heq := markGroup_cases marks update
  · rw [heq]
    exact ⟨fun u hu => knowsGroup_insert.2 (.inr hu), fun _ hu => hu, fun _ hu => hu⟩
  · rw [heq]
    exact keeps_loseGroup

theorem keeps_markUpdate : marks.Keeps (marks.markUpdate update) := by
  obtain ⟨-, heq⟩ | heq := markUpdate_cases marks update
  · rw [heq]
    exact ⟨fun _ hu => hu, fun _ hu => hu, fun u hu => hu.imp_left fun hknown => knowsUpdate_insert.2 (.inr hknown)⟩
  · rw [heq]
    exact keeps_loseUpdate

theorem keeps_mark : marks.Keeps (marks.mark update) := keeps_markGroup.trans keeps_markUpdate

theorem markGroup_marks : (marks.markGroup update).knowsGroup update = true ∨ (marks.markGroup update).losesGroup update = true := by
  obtain ⟨witness, -, heq⟩ | heq := markGroup_cases marks update
  · rw [heq]
    exact .inl (knowsGroup_insert.2 (.inl rfl))
  · rw [heq]
    exact .inr loseGroup_loses

theorem markUpdate_marks : (marks.markUpdate update).knowsUpdate update = true ∨ (marks.markUpdate update).losesUpdate update = true := by
  obtain ⟨-, heq⟩ | heq := markUpdate_cases marks update
  · rw [heq]
    exact .inl (knowsUpdate_insert.2 (.inl rfl))
  · rw [heq]
    exact .inr (loseUpdate_loses rfl)

theorem From.markGroup (h : marks.From P) (ho : P update.group.sourceOwner) : (marks.markGroup update).From P := by
  obtain ⟨witness, -, heq⟩ | heq := markGroup_cases marks update
  · rw [heq]
    exact { h with groups := fun u hu => (knowsGroup_insert.1 hu).elim (fun he => he ▸ ho) (h.groups u) }
  · rw [heq]
    exact h.loseGroup ho

theorem From.markUpdate (h : marks.From P) (ho : P update.group.sourceOwner) : (marks.markUpdate update).From P := by
  obtain ⟨-, heq⟩ | heq := markUpdate_cases marks update
  · rw [heq]
    exact { h with updates := fun u hu => (knowsUpdate_insert.1 hu).elim (fun he => he ▸ ho) (h.updates u) }
  · rw [heq]
    exact h.loseUpdate ho

theorem Valid.markGroup (h : marks.Valid recipient) (hown : update.group.recipient = recipient) : (marks.markGroup update).Valid recipient := by
  obtain ⟨witness, hroom, heq⟩ | heq := markGroup_cases marks update
  · have hsize : (marks.groups.insert update.group witness).size ≤ maxMarks := by
      rw [Std.ExtTreeMap.size_insert]
      by_cases hmem : marks.groups.contains update.group = true
      · rw [if_pos hmem]
        exact h.groups_le
      · rw [if_neg hmem]
        exact hroom.resolve_right hmem
    rw [heq]
    refine { h with groups_le := hsize, groups_own := fun group hg => ?_, updates_covered := fun u hu => ?_ }
    · rw [Std.ExtTreeMap.contains_insert, Bool.or_eq_true, beq_iff_eq, Std.LawfulEqCmp.compare_eq_iff_eq] at hg
      exact hg.elim (fun he => he ▸ hown) (h.groups_own group)
    · have hcovered := h.updates_covered u hu
      rw [Bool.or_eq_true] at hcovered ⊢
      exact hcovered.imp_right fun hknown => knowsGroup_insert.2 (.inr hknown)
  · rw [heq]
    exact h.loseGroup

theorem Valid.markUpdate (h : marks.Valid recipient) (hown : update.group.recipient = recipient)
    (hcovered : marks.knowsGroup update = true ∨ marks.losesGroup update = true) : (marks.markUpdate update).Valid recipient := by
  obtain ⟨hroom, heq⟩ | heq := markUpdate_cases marks update
  · have hsize : (marks.updates.insert update).size ≤ maxMarks := by
      rw [Std.ExtTreeSet.size_insert]
      by_cases hmem : marks.updates.contains update = true
      · rw [if_pos hmem]
        exact h.updates_le
      · rw [if_neg hmem]
        exact hroom.resolve_right hmem
    rw [heq]
    refine { h with updates_le := hsize, updates_own := fun u hu => ?_, updates_covered := fun u hu => ?_ }
    · exact (knowsUpdate_insert.1 hu).elim (fun he => he ▸ hown) (h.updates_own u)
    · rw [Bool.or_eq_true]
      rcases knowsUpdate_insert.1 hu with rfl | hu
      · exact hcovered.symm
      · exact Bool.or_eq_true _ _ ▸ h.updates_covered u hu
  · rw [heq]
    exact h.loseUpdate

theorem mark_marks : ((marks.mark update).knowsGroup update = true ∨ (marks.mark update).losesGroup update = true) ∧
    ((marks.mark update).knowsUpdate update = true ∨ (marks.mark update).losesUpdate update = true) :=
  ⟨markGroup_marks.imp (keeps_markUpdate.groups update) (keeps_markUpdate.lostGroups update), markUpdate_marks⟩

theorem From.mark (h : marks.From P) (ho : P update.group.sourceOwner) : (marks.mark update).From P := (h.markGroup ho).markUpdate ho

theorem Valid.mark (h : marks.Valid recipient) (hown : update.group.recipient = recipient) : (marks.mark update).Valid recipient :=
  (h.markGroup hown).markUpdate hown markGroup_marks

/-! ### Forgotten exact updates -/

theorem mem_updateOwners : owner ∈ marks.updateOwners.toList ↔ ∃ u, marks.knowsUpdate u = true ∧ u.group.sourceOwner = owner := by
  rw [Std.ExtTreeSet.mem_toList, updateOwners, Maps.mem_ofKeys, List.mem_map]
  simp only [Std.ExtTreeSet.mem_toList, Std.ExtTreeSet.mem_iff_contains, knowsUpdate]

theorem keeps_foldl_loseUpdate (owners : List OwnerId) (marks : Marks) : marks.Keeps (owners.foldl loseUpdate marks) := by
  induction owners generalizing marks with
  | nil => exact .refl marks
  | cons owner owners ih => exact keeps_loseUpdate.trans (ih _)

theorem foldl_loseUpdate_keeps (owners : List OwnerId) (h : marks.losesUpdate u = true) :
    (owners.foldl loseUpdate marks).losesUpdate u = true := by
  induction owners generalizing marks with
  | nil => exact h
  | cons owner owners ih => exact ih (loseUpdate_keeps h)

theorem foldl_loseUpdate_loses {owners : List OwnerId} (h : u.group.sourceOwner ∈ owners) :
    (owners.foldl loseUpdate marks).losesUpdate u = true := by
  induction owners generalizing marks with
  | nil => cases h
  | cons owner owners ih =>
    rcases List.mem_cons.1 h with heq | hmem
    · exact foldl_loseUpdate_keeps owners (loseUpdate_loses heq)
    · exact ih hmem

theorem From.foldl_loseUpdate {owners : List OwnerId} (h : marks.From P) (ho : ∀ owner ∈ owners, P owner) :
    (owners.foldl Marks.loseUpdate marks).From P := by
  induction owners generalizing marks with
  | nil => exact h
  | cons owner owners ih =>
    rw [List.forall_mem_cons] at ho
    exact ih (h.loseUpdate ho.1) ho.2

theorem Valid.foldl_loseUpdate {owners : List OwnerId} (h : marks.Valid recipient) :
    (owners.foldl Marks.loseUpdate marks).Valid recipient := by
  induction owners generalizing marks with
  | nil => exact h
  | cons owner owners ih => exact ih h.loseUpdate

theorem knowsUpdate_empty : ¬ ({ marks with updates := ∅ } : Marks).knowsUpdate u = true := by
  rw [knowsUpdate, Std.ExtTreeSet.contains_empty]
  exact Bool.false_ne_true

theorem keeps_forgetUpdates : marks.Keeps marks.forgetUpdates where
  groups := (keeps_foldl_loseUpdate _ marks).groups
  lostGroups := (keeps_foldl_loseUpdate _ marks).lostGroups
  updates _ h := .inr (h.elim (fun hknown => foldl_loseUpdate_loses (mem_updateOwners.2 ⟨_, hknown, rfl⟩)) (foldl_loseUpdate_keeps _))

theorem From.forgetUpdates (h : marks.From P) : marks.forgetUpdates.From P := by
  have hfold : (marks.updateOwners.toList.foldl Marks.loseUpdate marks).From P := h.foldl_loseUpdate fun owner ho => by
    obtain ⟨u, hu, rfl⟩ := mem_updateOwners.1 ho
    exact h.updates u hu
  exact { hfold with updates := fun u hu => absurd hu knowsUpdate_empty }

theorem Valid.forgetUpdates (h : marks.Valid recipient) : marks.forgetUpdates.Valid recipient := by
  have hfold : (marks.updateOwners.toList.foldl Marks.loseUpdate marks).Valid recipient := h.foldl_loseUpdate
  exact { hfold with
    updates_le := by
      rw [Marks.forgetUpdates, Std.ExtTreeSet.size_empty]
      exact Nat.zero_le _
    updates_own := fun u hu => absurd hu knowsUpdate_empty
    updates_covered := fun u hu => absurd hu knowsUpdate_empty }

end Marks

/-! ### Both lanes -/

variable {state next last : Attention} {update : Update} {lane : Lane}

@[simp] theorem marks_setMarks {marks : Marks} {l : Lane} : (state.setMarks lane marks).marks l = if l = lane then marks else state.marks l := by
  cases lane <;> cases l <;> rfl

@[simp] theorem reader_setMarks {marks : Marks} : (state.setMarks lane marks).reader = state.reader := by
  cases lane <;> rfl

theorem exists_lane (lane : Lane) {p : Lane → Prop} : (∃ l, p l) ↔ p lane ∨ p lane.other := by
  constructor
  · rintro ⟨l, hl⟩
    cases lane <;> cases l <;> first | exact .inl hl | exact .inr hl
  · rintro (h | h)
    exacts [⟨_, h⟩, ⟨_, h⟩]

theorem readState_eq_read {known unknown : Bool} : readState known unknown = .read ↔ known = true := by
  cases known <;> cases unknown <;> decide

theorem readState_eq_unread {known unknown : Bool} : readState known unknown = .unread ↔ ¬ (known = true ∨ unknown = true) := by
  cases known <;> cases unknown <;> decide

theorem read_group_eq_read : (state.read update lane).1 = .read ↔ ∃ l, (state.marks l).knowsGroup update = true := by
  rw [Attention.read, readState_eq_read, Bool.or_eq_true, exists_lane lane]

theorem read_group_eq_unread : (state.read update lane).1 = .unread ↔
    ¬ ∃ l, (state.marks l).knowsGroup update = true ∨ (state.marks l).losesGroup update = true := by
  rw [Attention.read, readState_eq_unread, Bool.or_eq_true, Bool.or_eq_true, exists_lane lane, or_or_or_comm]

theorem read_update_eq_unread : (state.read update lane).2 = .unread ↔
    ¬ ∃ l, (state.marks l).knowsUpdate update = true ∨ (state.marks l).losesUpdate update = true := by
  rw [Attention.read, readState_eq_unread, Bool.or_eq_true, Bool.or_eq_true, exists_lane lane, or_or_or_comm]

/-- Both lanes know or have lost at least what they did. -/
def Keeps (state next : Attention) : Prop := ∀ l, (state.marks l).Keeps (next.marks l)

/-- The group and the exact update are known or lost in some lane. -/
def Covers (state : Attention) (update : Update) : Prop :=
  (∃ l, (state.marks l).knowsGroup update = true ∨ (state.marks l).losesGroup update = true) ∧
    ∃ l, (state.marks l).knowsUpdate update = true ∨ (state.marks l).losesUpdate update = true

theorem Keeps.refl (state : Attention) : Keeps state state := fun _ => .refl _

theorem Keeps.trans (h : Keeps state next) (h' : Keeps next last) : Keeps state last := fun l => (h l).trans (h' l)

theorem Covers.keeps (h : Covers state update) (hkeeps : Keeps state next) : Covers next update :=
  ⟨h.1.imp fun l hl => hl.imp ((hkeeps l).groups update) ((hkeeps l).lostGroups update), h.2.imp fun l hl => (hkeeps l).updates update hl⟩

/-- A private state of a reader after some updates were acknowledged. -/
structure Kept (reader : ReaderScope) (acked : List Update) (state : Attention) : Prop where
  same : state.reader = reader
  valid : ∀ l, (state.marks l).Valid reader.owner
  covers : ∀ u ∈ acked, Covers state u
  source : ∀ l, (state.marks l).From fun owner => ∃ u ∈ acked, u.group.sourceOwner = owner

section
variable {reader : ReaderScope} {acked : List Update} {entry : Notification}

theorem keeps_markEntry : Keeps state (state.markEntry entry) := by
  intro l
  rw [Attention.markEntry, marks_setMarks]
  by_cases hl : l = entry.lane
  · rw [if_pos hl, hl]
    exact Marks.keeps_mark
  · rw [if_neg hl]
    exact .refl _

theorem Kept.markEntry (h : Kept reader acked state) (hown : entry.update.group.recipient = reader.owner) :
    Kept reader (acked ++ [entry.update]) (state.markEntry entry) := by
  have hmarks : ∀ l, (state.markEntry entry).marks l = if l = entry.lane then (state.marks entry.lane).mark entry.update else state.marks l :=
    fun _ => marks_setMarks
  have hsource : ∀ l, (state.marks l).From fun owner => ∃ u ∈ acked ++ [entry.update], u.group.sourceOwner = owner := fun l =>
    (h.source l).imp fun owner ⟨u, hu, ho⟩ => ⟨u, List.mem_append_left _ hu, ho⟩
  refine ⟨reader_setMarks.trans h.same, fun l => ?_, fun u hu => ?_, fun l => ?_⟩
  · rw [hmarks]
    split
    · exact (h.valid _).mark hown
    · exact h.valid l
  · rcases List.mem_append.1 hu with hu | hu
    · exact (h.covers u hu).keeps keeps_markEntry
    · rw [List.mem_singleton.1 hu]
      refine ⟨⟨entry.lane, ?_⟩, entry.lane, ?_⟩
      · rw [hmarks, if_pos rfl]
        exact Marks.mark_marks.1
      · rw [hmarks, if_pos rfl]
        exact Marks.mark_marks.2
  · rw [hmarks]
    split
    · exact (hsource _).mark ⟨_, List.mem_append_right _ (List.mem_singleton.2 rfl), rfl⟩
    · exact hsource l

theorem keeps_foldl_markEntry (entries : List Notification) (state : Attention) : Keeps state (entries.foldl Attention.markEntry state) := by
  induction entries generalizing state with
  | nil => exact .refl state
  | cons entry entries ih => exact keeps_markEntry.trans (ih _)

theorem Kept.foldl_markEntry {entries : List Notification} (h : Kept reader acked state)
    (hown : ∀ entry ∈ entries, entry.update.group.recipient = reader.owner) :
    Kept reader (acked ++ entries.map (·.update)) (entries.foldl Attention.markEntry state) := by
  induction entries generalizing state acked with
  | nil =>
    rw [List.map_nil, List.append_nil]
    exact h
  | cons entry entries ih =>
    rw [List.forall_mem_cons] at hown
    rw [List.map_cons, List.append_cons]
    exact ih (h.markEntry hown.1) hown.2

end

/-! ### Operations -/

def sameMarks (state next : Attention) : Prop := next.selected = state.selected ∧ next.requests = state.requests

instance : Decidable (sameMarks state next) := inferInstanceAs (Decidable (_ ∧ _))

inductive Step (crypto : Crypto) : Attention → List Update → Attention → Prop
  | acknowledge {state next : Attention} {shown : NotificationSnapshot} {archive : Social.Archive crypto} :
    state.acknowledge shown archive = .ok next → Step crypto state (shown.entries.map (·.update)) next
  | forgetExactMarks {state next : Attention} : state.forgetExactMarks = .ok next → Step crypto state [] next
  | reload {state next : Attention} {raw : List UInt8} :
    encode crypto state = some raw → decode crypto raw state.reader = .ok next → Step crypto state [] next

theorem advance_eq_ok {changed : Attention} (h : state.advance changed = .ok next) (hreader : changed.reader = state.reader)
    (hgeneration : changed.generation = state.generation) :
    next.reader = state.reader ∧ (∀ l, next.marks l = changed.marks l) ∧
      next.generation.toNat = state.generation.toNat + if sameMarks state next then 0 else 1 := by
  have heq : changed = state ↔ sameMarks state changed := by
    constructor
    · rintro rfl
      exact ⟨rfl, rfl⟩
    · rintro ⟨hselected, hrequests⟩
      cases changed
      cases state
      simp_all
  unfold Attention.advance at h
  split at h
  · rename_i hsame
    cases h
    rw [if_pos (heq.1 hsame), hgeneration]
    exact ⟨hreader, fun _ => rfl, rfl⟩
  · rename_i hchanged
    simp only [Check.bind_eq_ok, Check.okOr_eq_ok, checkedAdd_eq_some] at h
    obtain ⟨generation, hadd, h⟩ := h
    cases h
    have hnew : ¬ sameMarks state { changed with generation } := fun hsame => hchanged (heq.2 hsame)
    rw [if_neg hnew]
    exact ⟨hreader, fun l => by cases l <;> rfl, hadd⟩

theorem foldl_markEntry_frame (entries : List Notification) (state : Attention) :
    (entries.foldl Attention.markEntry state).reader = state.reader ∧ (entries.foldl Attention.markEntry state).generation = state.generation := by
  induction entries generalizing state with
  | nil => exact ⟨rfl, rfl⟩
  | cons entry entries ih =>
    have hframe : (state.markEntry entry).reader = state.reader ∧ (state.markEntry entry).generation = state.generation := by
      rw [Attention.markEntry]
      cases entry.lane <;> exact ⟨rfl, rfl⟩
    exact ⟨(ih _).1.trans hframe.1, (ih _).2.trans hframe.2⟩

theorem Step.spec {crypto : Crypto} {reader : ReaderScope} {acked notes : List Update} (h : Step crypto state notes next)
    (hkept : Kept reader acked state) : Kept reader (acked ++ notes) next ∧ Keeps state next ∧
      next.generation.toNat = state.generation.toNat + if sameMarks state next then 0 else 1 := by
  have hmoved : ∀ {changed : Attention}, Kept reader (acked ++ notes) changed → Keeps state changed → changed.reader = state.reader →
      changed.generation = state.generation → state.advance changed = .ok next →
      Kept reader (acked ++ notes) next ∧ Keeps state next ∧
        next.generation.toNat = state.generation.toNat + if sameMarks state next then 0 else 1 := by
    intro changed hchanged hkeeps hreader hgeneration hadvance
    obtain ⟨hsame, hmarks, hnext⟩ := advance_eq_ok hadvance hreader hgeneration
    refine ⟨⟨hsame.trans hkept.same, fun l => ?_, fun u hu => ?_, fun l => ?_⟩, fun l => ?_, hnext⟩
    · rw [hmarks]
      exact hchanged.valid l
    · have hcovers := hchanged.covers u hu
      unfold Covers at hcovers ⊢
      simp only [hmarks]
      exact hcovers
    · rw [hmarks]
      exact hchanged.source l
    · rw [hmarks]
      exact hkeeps l
  cases h with
  | acknowledge h =>
    rename_i shown archive
    simp only [Attention.acknowledge, Check.bind_eq_ok, Check.require_eq_ok, Bool.and_eq_true, beq_iff_eq] at h
    obtain ⟨_, ⟨hshown, -⟩, _, -, hadvance⟩ := h
    have hframe := foldl_markEntry_frame shown.entries state
    refine hmoved (hkept.foldl_markEntry fun entry he => ?_) (keeps_foldl_markEntry _ _) hframe.1 hframe.2 hadvance
    rw [shown.own entry he, hshown, hkept.same]
  | forgetExactMarks h =>
    rw [List.append_nil] at hmoved ⊢
    have hkeeps : Keeps state { state with selected := state.selected.forgetUpdates, requests := state.requests.forgetUpdates } := by
      intro l
      cases l <;> exact Marks.keeps_forgetUpdates
    have hforgot : Kept reader acked { state with selected := state.selected.forgetUpdates, requests := state.requests.forgetUpdates } := by
      refine ⟨hkept.same, fun l => ?_, fun u hu => (hkept.covers u hu).keeps hkeeps, fun l => ?_⟩
      · cases l
        exacts [(hkept.valid .selected).forgetUpdates, (hkept.valid .requests).forgetUpdates]
      · cases l
        exacts [(hkept.source .selected).forgetUpdates, (hkept.source .requests).forgetUpdates]
    exact hmoved hforgot hkeeps rfl rfl h
  | reload hencode hdecode =>
    have hvalid : Valid state := ⟨hkept.same ▸ hkept.valid .selected, hkept.same ▸ hkept.valid .requests⟩
    cases (decode_eq_ok.2 ⟨hvalid, rfl, hencode⟩).symm.trans hdecode
    rw [List.append_nil, if_pos ⟨rfl, rfl⟩]
    exact ⟨hkept, .refl _, rfl⟩

theorem kept_new (reader : ReaderScope) : Kept reader [] (.new reader) where
  same := rfl
  valid l := by
    have hempty : ∀ u : Update, Marks.empty.updates.contains u = true → False := fun u hu => by
      rw [Marks.empty, Std.ExtTreeSet.contains_empty] at hu
      exact Bool.false_ne_true hu
    have hvalid : Marks.empty.Valid reader.owner := {
      groupOwners_le := by decide
      updateOwners_le := by decide
      groups_le := by decide
      updates_le := by decide
      groups_own := fun group hg => by
        rw [Marks.empty, Std.ExtTreeMap.contains_empty] at hg
        exact absurd hg Bool.false_ne_true
      updates_own := fun u hu => (hempty u hu).elim
      updates_covered := fun u hu => (hempty u hu).elim }
    cases l <;> exact hvalid
  covers _ hu := by cases hu
  source l := by
    have hfrom : Marks.empty.From fun owner => ∃ u ∈ ([] : List Update), u.group.sourceOwner = owner := by
      refine ⟨fun u hu => ?_, fun u hu => ?_, fun o ho => ?_, fun o ho => ?_⟩
      · rw [Marks.knowsGroup, Marks.empty, Std.ExtTreeMap.contains_empty] at hu
        exact absurd hu Bool.false_ne_true
      · rw [Marks.knowsUpdate, Marks.empty, Std.ExtTreeSet.contains_empty] at hu
        exact absurd hu Bool.false_ne_true
      · rw [Marks.empty, Std.ExtTreeSet.contains_empty] at ho
        exact absurd ho Bool.false_ne_true
      · rw [Marks.empty, Std.ExtTreeSet.contains_empty] at ho
        exact absurd ho Bool.false_ne_true
    cases l <;> exact hfrom

theorem Kept.run {crypto : Crypto} {reader : ReaderScope} {acked notes : List Update} (hkept : Kept reader acked state)
    (h : Steps (Step crypto) state notes next) : Kept reader (acked ++ notes) next ∧ Keeps state next := by
  refine h.invariant (I := fun notes' next' => Kept reader notes' next' ∧ Keeps state next') ⟨hkept, .refl state⟩ ?_
  rintro notes' mid more last ⟨hmid, hkeeps⟩ hstep
  obtain ⟨hlast, hmore, -⟩ := hstep.spec hmid
  exact ⟨hlast, hkeeps.trans hmore⟩

/-- What was acknowledged never becomes unread, what was not never looks read, and every change is one generation. -/
theorem acknowledged_never_unread {crypto : Crypto} {reader : ReaderScope} {acked notes : List Update}
    (h : Steps (Step crypto) (.new reader) acked state) (hlater : Steps (Step crypto) state notes last) :
    (∀ u ∈ acked, ∀ lane, (last.read u lane).1 ≠ .unread ∧ (last.read u lane).2 ≠ .unread) ∧
    (∀ (u : Update) (lane : Lane), (∃ l, (state.marks l).groups.contains u.group = true) → (last.read u lane).1 = .read) ∧
    (∀ (u : Update) (lane : Lane), (∀ a ∈ acked ++ notes, a.group.sourceOwner ≠ u.group.sourceOwner) →
      (∀ l, (last.marks l).groupsUnknown = false ∧ (last.marks l).updatesUnknown = false) → last.read u lane = (.unread, .unread)) ∧
    (∀ (more : List Update) (next : Attention), Step crypto last more next →
      next.generation.toNat = last.generation.toNat + if sameMarks last next then 0 else 1) ∧
    ∃ raw, encode crypto last = some raw ∧ decode crypto raw reader = .ok last := by
  obtain ⟨hstate, -⟩ := (kept_new reader).run h
  obtain ⟨hkept, hkeeps⟩ := hstate.run hlater
  rw [List.nil_append] at hstate hkept
  refine ⟨fun u hu lane => ?_, fun u lane hknown => ?_, fun u lane hother hflags => ?_, fun more next hstep => (hstep.spec hkept).2.2, ?_⟩
  · obtain ⟨hgroup, hupdate⟩ := (hstate.covers u hu).keeps hkeeps
    exact ⟨fun hunread => read_group_eq_unread.1 hunread hgroup, fun hunread => read_update_eq_unread.1 hunread hupdate⟩
  · obtain ⟨l, hl⟩ := hknown
    exact read_group_eq_read.2 ⟨l, (hkeeps l).groups u hl⟩
  · -- a mark or a lost owner of `u` would come from an acknowledged update of that owner
    have hfree : ¬ ∃ a ∈ acked ++ notes, a.group.sourceOwner = u.group.sourceOwner := fun ⟨a, ha, he⟩ => hother a ha he
    refine Prod.ext (read_group_eq_unread.2 ?_) (read_update_eq_unread.2 ?_)
    · rintro ⟨l, hl | hl⟩
      · exact hfree ((hkept.source l).groups u hl)
      · rw [Marks.losesGroup_iff, (hflags l).1] at hl
        exact hfree ((hkept.source l).groupOwners _ (hl.resolve_left Bool.false_ne_true))
    · rintro ⟨l, hl | hl⟩
      · exact hfree ((hkept.source l).updates u hl)
      · rw [Marks.losesUpdate_iff, (hflags l).2] at hl
        exact hfree ((hkept.source l).updateOwners _ (hl.resolve_left Bool.false_ne_true))
  · have hvalid : Valid last := ⟨hkept.same ▸ hkept.valid .selected, hkept.same ▸ hkept.valid .requests⟩
    exact ⟨_, hvalid.encode_eq, decode_eq_ok.2 ⟨hvalid, hkept.same, hvalid.encode_eq⟩⟩

def sampleReader : ReaderScope := ⟨⟨77⟩, ⟨Social.sampleOwner.bytes⟩, none, Vector.replicate 32 1, Vector.replicate 32 2⟩

def sampleUpdate : Update := ⟨⟨sampleReader.owner, ⟨Vector.replicate 32 3⟩, Social.sampleOwner, .follow⟩, Social.sampleOwner⟩

def sampleShown : NotificationSnapshot := ⟨sampleReader, [⟨sampleUpdate, .requests⟩], by decide, by simp [sampleUpdate]⟩

theorem acknowledge_sampleShown : ∃ state, (Attention.new sampleReader).acknowledge sampleShown Social.sampleArchive = .ok state ∧
    (state.marks .requests).knowsGroup sampleUpdate = true ∧ (state.marks .requests).knowsUpdate sampleUpdate = true := by
  have hrun : ((Attention.new sampleReader).acknowledge sampleShown Social.sampleArchive).toOption.map (fun state =>
      (state.marks .requests).knowsGroup sampleUpdate && (state.marks .requests).knowsUpdate sampleUpdate) = some true := by
    have hcontains : Social.sampleArchive.records.contains Social.sampleOwner = true := by
      rw [← Std.ExtTreeMap.contains_keys, Social.sampleArchive_keys]
      decide
    have hknown : (sampleShown.entries.all fun entry => Social.sampleArchive.records.contains entry.update.event) = true := by
      rw [sampleShown, List.all_cons, List.all_nil, Bool.and_true]
      exact hcontains
    rw [acknowledge, Social.sampleArchive_reachable.settled.2.1, hknown]
    decide +kernel
  cases hack : (Attention.new sampleReader).acknowledge sampleShown Social.sampleArchive with
  | error e =>
    rw [hack] at hrun
    cases hrun
  | ok state =>
    rw [hack] at hrun
    exact ⟨state, rfl, Bool.and_eq_true _ _ ▸ Option.some.inj hrun⟩

theorem sample_acknowledged : ∃ state, Steps (Step Social.sampleCrypto) (.new sampleReader) [sampleUpdate] state ∧
    ∀ lane, (state.read sampleUpdate lane).1 = .read ∧ (state.read sampleUpdate lane).2 ≠ .unread := by
  obtain ⟨state, hack, hgroup, -⟩ := acknowledge_sampleShown
  have hrun : Steps (Step Social.sampleCrypto) (.new sampleReader) [sampleUpdate] state := .single (.acknowledge hack)
  obtain ⟨hread, hgroups, -⟩ := acknowledged_never_unread hrun (.refl state)
  refine ⟨state, hrun, fun lane => ⟨hgroups sampleUpdate lane ⟨.requests, hgroup⟩, ?_⟩⟩
  exact (hread _ (List.mem_singleton.2 rfl) lane).2

end Valhalla.Attention

/-!
## What the reader of private states accepts is closed under the operations

A state is valid whatever its history: every operation on a state that the reader accepts, and every run of them,
gives one that is encoded without a panic and accepted again.
-/

namespace Valhalla.Attention
open Check
open Social (OwnerId)

variable {state next last : Attention} {crypto : Crypto} {reader : ReaderScope}

/-! ### Valid states after one operation -/

theorem valid_iff : Valid state ↔ ∀ lane, (state.marks lane).Valid state.reader.owner := by
  constructor
  · intro h lane
    cases lane
    exacts [h.selected, h.requests]
  · intro h
    exact ⟨h .selected, h .requests⟩

theorem Valid.markEntry {entry : Notification} (h : Valid state) (hown : entry.update.group.recipient = state.reader.owner) :
    Valid (state.markEntry entry) := by
  rw [valid_iff] at h ⊢
  intro lane
  rw [Attention.markEntry, marks_setMarks, reader_setMarks]
  split
  · exact (h entry.lane).mark hown
  · exact h lane

theorem Valid.foldl_markEntry {entries : List Notification} (h : Valid state)
    (hown : ∀ entry ∈ entries, entry.update.group.recipient = state.reader.owner) : Valid (entries.foldl Attention.markEntry state) := by
  induction entries generalizing state with
  | nil => exact h
  | cons entry entries ih =>
    rw [List.forall_mem_cons] at hown
    refine ih (h.markEntry hown.1) fun later hlater => ?_
    rw [Attention.markEntry, reader_setMarks]
    exact hown.2 later hlater

theorem Valid.advance {changed : Attention} (h : Valid changed) (hadvance : state.advance changed = .ok next)
    (hreader : changed.reader = state.reader) (hgeneration : changed.generation = state.generation) :
    Valid next ∧ next.reader = state.reader := by
  obtain ⟨hsame, hmarks, -⟩ := advance_eq_ok hadvance hreader hgeneration
  refine ⟨valid_iff.2 fun lane => ?_, hsame⟩
  rw [hmarks, hsame, ← hreader]
  exact valid_iff.1 h lane

theorem Step.valid {notes : List Update} (hstep : Step crypto state notes next) (h : Valid state) :
    Valid next ∧ next.reader = state.reader := by
  cases hstep with
  | acknowledge hack =>
    rename_i shown archive
    simp only [Attention.acknowledge, bind_eq_ok, require_eq_ok, Bool.and_eq_true, beq_iff_eq] at hack
    obtain ⟨_, ⟨hshown, -⟩, _, -, hadvance⟩ := hack
    obtain ⟨hreader, hgeneration⟩ := foldl_markEntry_frame shown.entries state
    refine (h.foldl_markEntry fun entry he => ?_).advance hadvance hreader hgeneration
    rw [shown.own entry he, hshown]
  | forgetExactMarks hforget =>
    have hforgot : Valid { state with selected := state.selected.forgetUpdates, requests := state.requests.forgetUpdates } :=
      ⟨h.selected.forgetUpdates, h.requests.forgetUpdates⟩
    exact hforgot.advance hforget rfl rfl
  | reload _ hdecode =>
    obtain ⟨hvalid, hreader, -⟩ := decode_eq_ok.1 hdecode
    exact ⟨hvalid, hreader⟩

theorem Valid.run {notes : List Update} (h : Valid state) (hrun : Steps (Step crypto) state notes last) :
    Valid last ∧ last.reader = state.reader := by
  refine hrun.preserves (I := fun s => Valid s ∧ s.reader = state.reader) ⟨h, rfl⟩ ?_
  intro s _ t hs hstep
  obtain ⟨hvalid, hreader⟩ := hstep.valid hs.1
  exact ⟨hvalid, hreader.trans hs.2⟩

theorem valid_new : Valid (.new reader) := valid_iff.2 (kept_new reader).valid

/-! ### States that their encodings give back -/

/-- Encoded without a panic, read back as it is, and no exact update without its group or the loss of it. -/
structure Restored (crypto : Crypto) (reader : ReaderScope) (state : Attention) : Prop where
  encoded : ∃ raw, encode crypto state = some raw ∧ decode crypto raw reader = .ok state
  covered : ∀ (lane : Lane) (u : Update), (state.marks lane).updates.contains u = true →
    (state.marks lane).groups.contains u.group = true ∨ (state.marks lane).groupUnknownOwners.contains u.group.sourceOwner = true ∨
      (state.marks lane).groupsUnknown = true

theorem Valid.restored (h : Valid state) : Restored crypto state.reader state where
  encoded := ⟨_, h.encode_eq, decode_eq_ok.2 ⟨h, rfl, h.encode_eq⟩⟩
  covered lane u hu := by
    have hcovered := (valid_iff.1 h lane).updates_covered u hu
    rw [Bool.or_eq_true, Marks.losesGroup_iff] at hcovered
    rcases hcovered with (hwhole | howner) | hgroup
    · exact .inr (.inr hwhole)
    · exact .inr (.inl howner)
    · exact .inl hgroup

/-- Every state that a reader reaches is restored from its encoding, and whatever bytes the decoder accepts are the
encoding of a state from which every run is restored too. -/
theorem states_restored (crypto : Crypto) (reader : ReaderScope) :
    (∀ (acked : List Update) (state : Attention), Steps (Step crypto) (.new reader) acked state → Restored crypto reader state) ∧
    ∀ (raw : List UInt8) (state : Attention), decode crypto raw reader = .ok state → encode crypto state = some raw ∧
      ∀ (acked : List Update) (last : Attention), Steps (Step crypto) state acked last → Restored crypto reader last := by
  have hrestored : ∀ (acked : List Update) (state last : Attention), Valid state → state.reader = reader →
      Steps (Step crypto) state acked last → Restored crypto reader last := by
    intro acked state last hvalid hreader hrun
    obtain ⟨hlast, hsame⟩ := hvalid.run hrun
    rw [← hreader, ← hsame]
    exact hlast.restored
  constructor
  · intro acked state hrun
    exact hrestored acked _ state valid_new rfl hrun
  · intro raw state hdecode
    obtain ⟨hvalid, hreader, hencode⟩ := decode_eq_ok.1 hdecode
    exact ⟨hencode, fun acked last hrun => hrestored acked state last hvalid hreader hrun⟩

theorem states_restored_sample : ∃ (state : Attention) (raw : List UInt8), Restored Social.sampleCrypto sampleReader state ∧
    (state.marks .requests).updates.contains sampleUpdate = true ∧ decode Social.sampleCrypto raw sampleReader = .ok state ∧
    encode Social.sampleCrypto state = some raw ∧ ∀ next, state.forgetExactMarks = .ok next → Restored Social.sampleCrypto sampleReader next := by
  obtain ⟨hreached, haccepted⟩ := states_restored Social.sampleCrypto sampleReader
  obtain ⟨state, hack, -, hupdate⟩ := acknowledge_sampleShown
  have hrestored := hreached _ state (.single (.acknowledge hack))
  obtain ⟨raw, -, hdecode⟩ := hrestored.encoded
  obtain ⟨hencode, hruns⟩ := haccepted raw state hdecode
  exact ⟨state, raw, hrestored, hupdate, hdecode, hencode, fun next hforget => hruns _ next (.single (.forgetExactMarks hforget))⟩

end Valhalla.Attention
