import Valhalla.Attention.Model

/-!
# The private state as bytes (`codec.rs` of `vhalla-attention`)

An encoding with its checksum, and the strict reader. `Valid` says which states the reader accepts: tables in
their bounds, interactions with the reader's own owner, and no exact update without its group or the loss of it.
-/

namespace Valhalla.Attention
open Fallible FixedWidth Check
open Social (Id IdKind OwnerId RecordId)

/-- `VHAT` and the version. -/
def magic : List UInt8 := [86, 72, 65, 84, 0, 0, 0, 1]
def domain : List UInt8 := "vhalla/attention/private-state/v1".toUTF8.toList ++ [0]

/-! ### Writers -/

def putBool (b : Bool) : List UInt8 := [if b then 1 else 0]

def putCount (n : Nat) : List UInt8 := toBe (UInt16.ofNat n)

def putOwners (owners : Owners) : List UInt8 := putCount owners.toList.length ++ owners.toList.flatMap (·.bytes.toList)

def putGroup (group : Group) : List UInt8 :=
  group.recipient.bytes.toList ++ (group.sourceOwner.bytes.toList ++ (group.target.bytes.toList ++ [group.reason.byte]))

def putMark (entry : Group × RecordId) : List UInt8 := putGroup entry.1 ++ entry.2.bytes.toList

def putUpdate (update : Update) : List UInt8 := putGroup update.group ++ update.event.bytes.toList

def putGroups (groups : Std.ExtTreeMap Group RecordId compare) : List UInt8 :=
  putCount groups.toList.length ++ groups.toList.flatMap putMark

def putUpdates (updates : Std.ExtTreeSet Update compare) : List UInt8 :=
  putCount updates.toList.length ++ updates.toList.flatMap putUpdate

def Marks.put (marks : Marks) : List UInt8 :=
  putBool marks.groupsUnknown ++ (putBool marks.updatesUnknown ++ (putOwners marks.groupUnknownOwners ++
    (putOwners marks.updateUnknownOwners ++ (putGroups marks.groups ++ putUpdates marks.updates))))

/-- The lengths that `u16` can hold. -/
def Marks.counted (marks : Marks) : Bool :=
  decide (marks.groupUnknownOwners.size < 65536 ∧ marks.updateUnknownOwners.size < 65536 ∧ marks.groups.size < 65536 ∧
    marks.updates.size < 65536)

def checksum (crypto : Crypto) (bytes : List UInt8) : Bytes32 := crypto.sha256 (domain ++ bytes)

section
variable (crypto : Crypto)

def body (state : Attention) : List UInt8 :=
  magic ++ ((state.reader.digest crypto).toList ++ (toBe state.generation ++ (state.selected.put ++ state.requests.put)))

/-- `none` where the encoder panics: a length that does not fit, or too many bytes. -/
def encode (state : Attention) : Option (List UInt8) :=
  let out := body crypto state ++ (checksum crypto (body crypto state)).toList
  if (state.selected.counted && state.requests.counted) = true ∧ out.length ≤ maxStateBytes then some out else none

end

/-! ### Readers -/

abbrev Input := Reader Error

def getId {kind : IdKind} : Input (Id kind) := do
  let bytes ← Reader.array .encoding 32
  pure ⟨bytes⟩

def boolean : Input Bool := do
  match ← (Reader.int .encoding : Input UInt8) with
  | 0 => pure false
  | 1 => pure true
  | _ => throw .encoding

def count : Input Nat := do
  let n ← (Reader.int .encoding : Input UInt16)
  if toNat n > maxMarks then throw .bounds else pure (toNat n)

def getReason : Input Reason := do
  match ← (Reader.int .encoding : Input UInt8) with
  | 0 => pure .mention
  | 1 => pure .reply
  | 2 => pure .follow
  | 3 => pure .reaction
  | 4 => pure .repost
  | 5 => pure .quote
  | 6 => pure .watchedThread
  | _ => throw .encoding

def getGroup : Input Group := do
  let recipient ← getId
  let sourceOwner ← getId
  let target ← getId
  let reason ← getReason
  pure ⟨recipient, sourceOwner, target, reason⟩

def getEntry : Input (Group × RecordId) := do
  let group ← getGroup
  let id ← getId
  pure (group, id)

def getMark (recipient : OwnerId) : Input (Group × RecordId) := do
  let entry ← getEntry
  if ¬ entry.1.recipient = recipient then throw .encoding else pure entry

def getUpdate (recipient : OwnerId) (covers : Update → Bool) : Input Update := do
  let update ← (fun entry => ⟨entry.1, entry.2⟩) <$> getEntry
  if ¬ (update.group.recipient = recipient ∧ covers update = true) then throw .encoding else pure update

def getAscending {α κ : Type} [Ord κ] (key : α → κ) (get : Input α) : Input (List α) := do
  let n ← count
  Ascending.items compare key .encoding get n

def owners : Input Owners := do
  let result ← getAscending id getId
  pure (Maps.ofKeys compare result)

def getGroups (recipient : OwnerId) : Input (Std.ExtTreeMap Group RecordId compare) := do
  let groups ← getAscending Prod.fst (getMark recipient)
  pure (Maps.ofEntries compare groups)

def getUpdates (recipient : OwnerId) (covers : Update → Bool) : Input (Std.ExtTreeSet Update compare) := do
  let updates ← getAscending id (getUpdate recipient covers)
  pure (Maps.ofKeys compare updates)

def getMarks (recipient : OwnerId) : Input Marks := do
  let groupsUnknown ← boolean
  let updatesUnknown ← boolean
  let groupUnknownOwners ← owners
  let updateUnknownOwners ← owners
  let groups ← getGroups recipient
  let updates ← getUpdates recipient fun update =>
    (groupsUnknown || groupUnknownOwners.contains update.group.sourceOwner) || groups.contains update.group
  pure ⟨groups, updates, groupsUnknown, updatesUnknown, groupUnknownOwners, updateUnknownOwners⟩

section
variable (crypto : Crypto)

def getMagic : Input Unit := do
  let found ← Reader.take .encoding magic.length
  if found ≠ magic then throw .context else pure ()

def getReader (expected : ReaderScope) : Input Unit := do
  let digest ← Reader.array .encoding 32
  if digest ≠ expected.digest crypto then throw .context else pure ()

def getState (expected : ReaderScope) : Input Attention := do
  getMagic
  getReader crypto expected
  let generation ← Reader.int .encoding
  let selected ← getMarks expected.owner
  let requests ← getMarks expected.owner
  pure ⟨expected, generation, selected, requests⟩

def decode (raw : List UInt8) (expected : ReaderScope) : Except Error Attention := do
  require .bounds (decide (8 + 32 + 8 + 12 + 32 ≤ raw.length ∧ raw.length ≤ maxStateBytes))
  let front := raw.take (raw.length - 32)
  require .encoding ((checksum crypto front).toList == raw.drop (raw.length - 32))
  Reader.complete .encoding (getState crypto expected) front

end

/-! ### Codecs -/

section
variable {kind : IdKind} {recipient : OwnerId}

theorem codec_id : Codec (getId : Input (Id kind)) (·.bytes.toList) fun _ => True :=
  (Codec.array _ 32).lastField Id.bytes fun _ => .pure _ fun id => by cases id; simp

theorem codec_boolean : Codec boolean putBool fun _ => True := by
  refine .tagged (fun r => ⟨_, [], rfl⟩) fun t => ?_
  split
  · exact .constant (by decide) rfl
  · exact .constant (by decide) rfl
  · exact .none (fun _ => ⟨_, rfl⟩) fun r => by cases r <;> simp_all [putBool, eq_comm]

theorem codec_count : Codec count putCount (· ≤ maxMarks) := Codec.limited (by decide)

theorem codec_reason : Codec getReason (fun reason => [reason.byte]) fun _ => True := by
  refine .tagged (fun r => ⟨_, [], rfl⟩) fun t => ?_
  split
  iterate 7 exact .constant (fun reason => by cases reason <;> decide) rfl
  exact .none (fun _ => ⟨_, rfl⟩) fun r => by cases r <;> simp_all [Reason.byte, eq_comm]

theorem codec_group : Codec getGroup putGroup fun _ => True :=
  codec_id.field Group.recipient fun _ => codec_id.field Group.sourceOwner fun _ =>
    codec_id.field Group.target fun _ => codec_reason.lastField Group.reason fun _ =>
    .pure _ fun group => by cases group; simp [and_assoc]

theorem codec_entry : Codec getEntry putMark fun _ => True :=
  codec_group.field Prod.fst fun _ => codec_id.lastField Prod.snd fun _ =>
    .pure _ fun entry => by cases entry; simp

theorem codec_mark : Codec (getMark recipient) putMark (·.1.recipient = recipient) := by
  unfold getMark
  exact codec_entry.check.congr (fun entry => by rw [Decidable.not_not, true_and]) fun _ _ => rfl

theorem codec_update {covers : Update → Bool} : Codec (getUpdate recipient covers) putUpdate fun update =>
    update.group.recipient = recipient ∧ covers update = true := by
  have h : Codec ((fun entry => (⟨entry.1, entry.2⟩ : Update)) <$> getEntry) putUpdate fun _ => True := by
    rw [map_eq_pure_bind]
    refine codec_entry.lastField (fun update : Update => (update.group, update.event)) fun entry => .pure _ fun update => ?_
    cases update
    simp [Prod.ext_iff]
  unfold getUpdate
  exact h.check.congr (fun update => by rw [Decidable.not_not, true_and]) fun _ _ => rfl

theorem codec_ascending {α κ : Type} [Ord κ] [Std.TransCmp (compare : κ → κ → Ordering)] {key : α → κ} {get : Input α}
    {put : α → List UInt8} {ok : α → Prop} (h : Codec get put ok) :
    Codec (getAscending key get) (fun l => putCount l.length ++ l.flatMap put) fun l =>
      l.length ≤ maxMarks ∧ (∀ a ∈ l, ok a) ∧ (l.map key).Pairwise (compare · · = .lt) :=
  Ascending.codec_counted codec_count h

theorem codec_owners : Codec owners putOwners (·.size ≤ maxMarks) := by
  refine (codec_ascending codec_id).last (fun owners : Owners => owners.toList) (fun owners h => ?_) fun l hl => .pure _ fun owners => ?_
  · exact ⟨by rwa [Std.ExtTreeSet.length_toList], fun _ _ => trivial, by rw [List.map_id]; exact Std.ExtTreeSet.ordered_toList⟩
  · rw [List.map_id] at hl
    constructor
    · rintro ⟨-, rfl⟩
      exact Maps.ofKeys_toList.symm
    · rintro rfl
      rw [← Std.ExtTreeSet.length_toList, Maps.toList_ofKeys hl.2.2]
      exact ⟨hl.1, rfl⟩

theorem codec_groups : Codec (getGroups recipient) putGroups fun groups =>
    groups.size ≤ maxMarks ∧ ∀ group : Group, groups.contains group = true → group.recipient = recipient := by
  refine (codec_ascending codec_mark).last (fun groups : Std.ExtTreeMap Group RecordId compare => groups.toList) (fun groups h => ?_) fun l hl => .pure _ fun groups => ?_
  · refine ⟨by rw [Std.ExtTreeMap.length_toList]; exact h.1, fun entry he => h.2 _ ?_, ?_⟩
    · rw [Std.ExtTreeMap.contains_eq_isSome_getElem?, Std.ExtTreeMap.mem_toList_iff_getElem?_eq_some.1 he]
      rfl
    · exact List.pairwise_map.2 Std.ExtTreeMap.ordered_keys_toList
  · have hsorted := List.pairwise_map.1 hl.2.2
    constructor
    · rintro ⟨-, rfl⟩
      exact Maps.ofEntries_toList.symm
    · rintro rfl
      rw [← Std.ExtTreeMap.length_toList, Maps.toList_ofEntries hsorted]
      refine ⟨⟨hl.1, fun group hg => ?_⟩, rfl⟩
      rw [Std.ExtTreeMap.contains_eq_isSome_getElem?, Option.isSome_iff_exists] at hg
      obtain ⟨witness, hw⟩ := hg
      exact hl.2.1 _ ((Maps.getElem?_ofEntries hsorted).1 hw)

theorem codec_updates {covers : Update → Bool} : Codec (getUpdates recipient covers) putUpdates fun updates =>
    updates.size ≤ maxMarks ∧ ∀ update : Update, updates.contains update = true →
      update.group.recipient = recipient ∧ covers update = true := by
  refine (codec_ascending codec_update).last (fun updates : Std.ExtTreeSet Update compare => updates.toList) (fun updates h => ?_) fun l hl => .pure _ fun updates => ?_
  · refine ⟨by rw [Std.ExtTreeSet.length_toList]; exact h.1, fun update hu => h.2 update ?_, ?_⟩
    · rwa [← Std.ExtTreeSet.mem_iff_contains, ← Std.ExtTreeSet.mem_toList]
    · rw [List.map_id]
      exact Std.ExtTreeSet.ordered_toList
  · rw [List.map_id] at hl
    constructor
    · rintro ⟨-, rfl⟩
      exact Maps.ofKeys_toList.symm
    · rintro rfl
      rw [← Std.ExtTreeSet.length_toList, Maps.toList_ofKeys hl.2.2]
      refine ⟨⟨hl.1, fun update hu => hl.2.1 update ?_⟩, rfl⟩
      rwa [← Std.ExtTreeSet.mem_iff_contains, Maps.mem_ofKeys] at hu

end

/-! ### Valid states -/

/-- What the reader accepts as the marks of a lane. -/
structure Marks.Valid (recipient : OwnerId) (marks : Marks) : Prop where
  groupOwners_le : marks.groupUnknownOwners.size ≤ maxMarks
  updateOwners_le : marks.updateUnknownOwners.size ≤ maxMarks
  groups_le : marks.groups.size ≤ maxMarks
  updates_le : marks.updates.size ≤ maxMarks
  groups_own : ∀ group : Group, marks.groups.contains group = true → group.recipient = recipient
  updates_own : ∀ update : Update, marks.updates.contains update = true → update.group.recipient = recipient
  updates_covered : ∀ update : Update, marks.updates.contains update = true →
    (marks.losesGroup update || marks.knowsGroup update) = true

theorem codec_marks {recipient : OwnerId} : Codec (getMarks recipient) Marks.put (Marks.Valid recipient) := by
  refine codec_boolean.field Marks.groupsUnknown fun groupsUnknown =>
    codec_boolean.field Marks.updatesUnknown fun updatesUnknown =>
    codec_owners.bind Marks.groupUnknownOwners (fun _ h => h.1.1.groupOwners_le) fun groupOwners hgroupOwners =>
    codec_owners.bind Marks.updateUnknownOwners (fun _ h => h.1.1.1.updateOwners_le) fun updateOwners hupdateOwners =>
    codec_groups.bind Marks.groups (fun _ h => ⟨h.1.1.1.1.groups_le, h.1.1.1.1.groups_own⟩) fun groups hgroups =>
    codec_updates.last Marks.updates (fun marks h => ?_) fun updates hupdates => .pure _ fun marks => ?_
  · obtain ⟨⟨⟨⟨⟨hvalid, rfl⟩, rfl⟩, rfl⟩, rfl⟩, rfl⟩ := h
    exact ⟨hvalid.updates_le, fun update hu => ⟨hvalid.updates_own update hu, hvalid.updates_covered update hu⟩⟩
  · constructor
    · rintro ⟨⟨⟨⟨⟨⟨-, rfl⟩, rfl⟩, rfl⟩, rfl⟩, rfl⟩, rfl⟩
      rfl
    · rintro rfl
      exact ⟨⟨⟨⟨⟨⟨⟨hgroupOwners, hupdateOwners, hgroups.1, hupdates.1, hgroups.2, fun update hu => (hupdates.2 update hu).1,
        fun update hu => (hupdates.2 update hu).2⟩, rfl⟩, rfl⟩, rfl⟩, rfl⟩, rfl⟩, rfl⟩

structure Valid (state : Attention) : Prop where
  selected : state.selected.Valid state.reader.owner
  requests : state.requests.Valid state.reader.owner

section
variable {crypto : Crypto} {expected : ReaderScope}

theorem codec_reader : Codec (getReader crypto expected) (fun _ => (expected.digest crypto).toList) fun _ => True := by
  refine (Codec.array _ 32).bind (fun _ => expected.digest crypto) (fun _ _ => trivial) (fun digest _ => ?_) |>.congr
    (fun _ => Iff.rfl) fun _ _ => (List.append_nil _).symm
  split
  · rename_i hne
    exact .none (fun _ => ⟨_, rfl⟩) fun _ h => hne h.2.symm
  · rename_i heq
    exact .pure _ fun _ => by simp [Decidable.not_not.1 heq]

theorem codec_state : Codec (getState crypto expected) (body crypto) fun state => Valid state ∧ state.reader = expected := by
  have h : Codec (getState crypto expected) (fun state => magic ++ ((expected.digest crypto).toList ++
      (toBe state.generation ++ (state.selected.put ++ state.requests.put)))) fun state => Valid state ∧ state.reader = expected := by
    refine Codec.magic.field (fun _ => ()) fun _ => codec_reader.field (fun _ => ()) fun _ =>
      (Codec.int _).field Attention.generation fun generation =>
      codec_marks.bind Attention.selected (fun state h => ?_) fun selected hselected =>
      codec_marks.last Attention.requests (fun state h => ?_) fun requests hrequests => .pure _ fun state => ?_
    · rw [← h.1.1.1.2]
      exact h.1.1.1.1.selected
    · rw [← h.1.1.1.1.2]
      exact h.1.1.1.1.1.requests
    · constructor
      · rintro ⟨⟨⟨⟨⟨⟨-, rfl⟩, -⟩, -⟩, rfl⟩, rfl⟩, rfl⟩
        rfl
      · rintro rfl
        exact ⟨⟨⟨⟨⟨⟨⟨hselected, hrequests⟩, rfl⟩, rfl⟩, rfl⟩, rfl⟩, rfl⟩, rfl⟩
  exact h.congr (fun _ => Iff.rfl) fun state hstate => by rw [← hstate.2, body]

/-! ### Sizes -/

theorem length_putCount (n : Nat) : (putCount n).length = 2 := length_toBe _

theorem length_putGroup (group : Group) : (putGroup group).length = 97 := by
  simp [putGroup]

theorem Marks.Valid.length_put_le {recipient : OwnerId} {marks : Marks} (h : marks.Valid recipient) : marks.put.length ≤ 82442 := by
  have howners : ∀ owners : Owners, owners.size ≤ maxMarks → (putOwners owners).length ≤ 2 + maxMarks * 32 := by
    intro owners hle
    have hitems : (owners.toList.flatMap (·.bytes.toList)).length ≤ owners.toList.length * 32 :=
      Codec.length_flatMap_le fun owner _ => by rw [Vector.length_toList]
    rw [Std.ExtTreeSet.length_toList] at hitems
    rw [putOwners, List.length_append, length_putCount]
    have := Nat.mul_le_mul_right 32 hle
    omega
  have hgroups : (putGroups marks.groups).length ≤ 2 + maxMarks * 129 := by
    have hitems : (marks.groups.toList.flatMap putMark).length ≤ marks.groups.toList.length * 129 :=
      Codec.length_flatMap_le fun entry _ => by rw [putMark, List.length_append, length_putGroup, Vector.length_toList]
    rw [Std.ExtTreeMap.length_toList] at hitems
    rw [putGroups, List.length_append, length_putCount]
    have := Nat.mul_le_mul_right 129 h.groups_le
    omega
  have hupdates : (putUpdates marks.updates).length ≤ 2 + maxMarks * 129 := by
    have hitems : (marks.updates.toList.flatMap putUpdate).length ≤ marks.updates.toList.length * 129 :=
      Codec.length_flatMap_le fun update _ => by rw [putUpdate, List.length_append, length_putGroup, Vector.length_toList]
    rw [Std.ExtTreeSet.length_toList] at hitems
    rw [putUpdates, List.length_append, length_putCount]
    have := Nat.mul_le_mul_right 129 h.updates_le
    omega
  have hgroupOwners := howners _ h.groupOwners_le
  have hupdateOwners := howners _ h.updateOwners_le
  have hbool : ∀ b, (putBool b).length = 1 := fun _ => rfl
  simp only [maxMarks] at hgroups hupdates hgroupOwners hupdateOwners
  simp only [Marks.put, List.length_append, hbool]
  omega

theorem length_body (state : Attention) :
    (body crypto state).length = 48 + state.selected.put.length + state.requests.put.length := by
  have hmagic : magic.length = 8 := rfl
  have hgeneration : (toBe state.generation).length = 8 := length_toBe _
  simp only [body, List.length_append, hmagic, hgeneration, Vector.length_toList]
  omega

theorem Marks.Valid.counted {recipient : OwnerId} {marks : Marks} (h : marks.Valid recipient) : marks.counted = true := by
  have hfits : maxMarks < 65536 := by decide
  rw [Marks.counted, decide_eq_true_eq]
  exact ⟨Nat.lt_of_le_of_lt h.groupOwners_le hfits, Nat.lt_of_le_of_lt h.updateOwners_le hfits,
    Nat.lt_of_le_of_lt h.groups_le hfits, Nat.lt_of_le_of_lt h.updates_le hfits⟩

theorem Valid.encode_eq {state : Attention} (h : Valid state) :
    encode crypto state = some (body crypto state ++ (checksum crypto (body crypto state)).toList) := by
  have hselected := h.selected.length_put_le
  have hrequests := h.requests.length_put_le
  have hlength : (body crypto state ++ (checksum crypto (body crypto state)).toList).length ≤ maxStateBytes := by
    rw [List.length_append, length_body, Vector.length_toList, maxStateBytes]
    omega
  rw [encode]
  exact if_pos ⟨by rw [h.selected.counted, h.requests.counted]; rfl, hlength⟩

theorem decode_eq_ok {raw : List UInt8} {state : Attention} :
    decode crypto raw expected = .ok state ↔ Valid state ∧ state.reader = expected ∧ encode crypto state = some raw := by
  unfold decode
  simp only [bind_eq_ok, require_eq_ok, beq_iff_eq, decide_eq_true_eq, codec_state.complete_eq_ok]
  constructor
  · rintro ⟨_, ⟨hmin, hmax⟩, _, hsum, hbody, hvalid, hreader⟩
    refine ⟨hvalid, hreader, ?_⟩
    rw [hvalid.encode_eq, ← hbody, hsum, List.take_append_drop]
  · rintro ⟨hvalid, hreader, hencode⟩
    rw [hvalid.encode_eq, Option.some.injEq] at hencode
    have hsum : (checksum crypto (body crypto state)).toList.length = 32 := Vector.length_toList
    have hlength : raw.length = (body crypto state).length + 32 := by rw [← hencode, List.length_append, hsum]
    have hcut : raw.length - 32 = (body crypto state).length := by omega
    have hselected := hvalid.selected.length_put_le
    have hrequests := hvalid.requests.length_put_le
    have hmarks : ∀ marks : Marks, 10 ≤ marks.put.length := by
      intro marks
      have hbool : ∀ b, (putBool b).length = 1 := fun _ => rfl
      simp only [Marks.put, putOwners, putGroups, putUpdates, List.length_append, length_putCount, hbool]
      omega
    have hs := hmarks state.selected
    have hr := hmarks state.requests
    rw [length_body] at hlength
    refine ⟨(), ⟨by omega, by rw [maxStateBytes]; omega⟩, (), ?_, ?_, hvalid, hreader⟩
    · rw [hcut, ← hencode, List.take_left' rfl, List.drop_left' rfl]
    · rw [hcut, ← hencode, List.take_left' rfl]

end

end Valhalla.Attention
