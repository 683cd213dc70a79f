import Valhalla.Discovery.State
import Mathlib.Tactic.GCongr

/-!
# States that are read back

`Valid` is what the reader enforces of a state, in terms of its tables. A valid state is written in fewer bytes than are read, with
no count cut short, and it is read back as itself.
-/

namespace Valhalla.Discovery
open Fallible FixedWidth Check
open Social (RecordId OwnerId AgentId PostRef Id IdKind)

/-! ### Items -/

section
variable {kind : IdKind}

theorem codec_count {most : Nat} (h : most < 65536) : Codec (getCount most) putCount (· ≤ most) := Codec.limited h

theorem codec_text {most : Nat} (h : most < 65536) : Codec (getText most) putText fun s => (utf8 s).length ≤ most := by
  refine (codec_count h).bind (fun s => (utf8 s).length) (fun s hs => hs) fun n hn =>
    (Codec.take _ n).last utf8 (fun s hs => hs.2) fun bytes hbytes => ?_
  have hutf8 : ∀ s : String, utf8 s = bytes ↔ String.fromUTF8? ⟨bytes.toArray⟩ = some s := by
    intro s
    rw [String.fromUTF8?_eq_some]
    constructor
    · rintro rfl
      rfl
    · intro h
      rw [utf8, h]
  cases hs : String.fromUTF8? ⟨bytes.toArray⟩ with
  | none => exact .none (fun _ => ⟨_, rfl⟩) fun s h => by rw [(hutf8 s).1 h.2] at hs; cases hs
  | some text =>
    refine .pure _ fun s => ?_
    rw [hutf8, hs, Option.some.injEq]
    constructor
    · rintro ⟨-, rfl⟩
      rfl
    · rintro rfl
      have heq := (hutf8 s).2 hs
      exact ⟨⟨by rw [heq]; omega, by rw [heq]; exact hbytes⟩, rfl⟩

theorem codec_items {α : Type} {most : Nat} {get : Input α} {put : α → List UInt8} {ok : α → Prop} (hmost : most < 65536) (h : Codec get put ok) :
    Codec (getItems most get) (putItems put) fun l => l.length ≤ most ∧ ∀ a ∈ l, ok a :=
  (Codec.counted (codec_count hmost) fun _ => h).congr (fun l => by rw [Codec.chained_of_forall]) fun _ _ => rfl

theorem codec_id : Codec (getId : Input (Id kind)) putId fun _ => True :=
  (Codec.array _ 32).lastField Id.bytes fun _ => .pure _ fun id => by cases id; simp

theorem codec_checked {most : Nat} {check : String → Except Error Unit} (h : most < 65536) :
    Codec (getChecked most check) putText fun s => (utf8 s).length ≤ most ∧ check s = .ok () := by
  refine (codec_text h).last (fun s => s) (fun s hs => hs.1) fun text htext => ?_
  cases hcheck : check text with
  | ok u =>
    refine .pure _ fun s => ?_
    constructor
    · rintro ⟨-, rfl⟩
      rfl
    · rintro rfl
      exact ⟨⟨htext, hcheck⟩, rfl⟩
  | error e =>
    refine .none (fun _ => ⟨_, rfl⟩) fun s hs => ?_
    obtain ⟨⟨-, hs⟩, rfl⟩ := hs
    rw [hcheck] at hs
    cases hs

theorem codec_ref : Codec getRef putRef fun _ => True :=
  codec_id.field PostRef.post fun _ => codec_id.lastField PostRef.revision fun _ =>
    .pure _ fun r => by cases r; simp

def Subscription.Valid : Subscription → Prop
  | .tag name => validTag name = .ok ()
  | _ => True

theorem length_of_validTag {tag : String} (h : validTag tag = .ok ()) : (utf8 tag).length ≤ 48 := by
  unfold validTag at h
  split at h
  · cases h
  · rename_i first rest heq
    rw [require_eq_ok, Bool.and_eq_true, Bool.and_eq_true, decide_eq_true_eq] at h
    rw [heq]
    exact h.1.1

theorem codec_subscription : Codec getSubscription putSubscription Subscription.Valid := by
  refine .tagged (fun s => by cases s <;> exact ⟨_, _, rfl⟩) fun t => ?_
  split
  · exact codec_id.map (fun s => by cases s <;> simp [putSubscription, Subscription.Valid]) fun _ => rfl
  · exact codec_id.map (fun s => by cases s <;> simp [putSubscription, Subscription.Valid]) fun _ => rfl
  · refine (Codec.int _).map (fun s => ?_) fun _ => rfl
    cases s with
    | channel room =>
      cases room
      simp [putSubscription, Subscription.Valid]
    | _ => simp [putSubscription]
  · refine (codec_checked (by decide)).map (fun s => ?_) fun _ => rfl
    cases s with
    | tag name =>
      simp only [putSubscription, Subscription.Valid, List.head?_cons, and_true, Subscription.tag.injEq, exists_eq_right']
      exact ⟨fun h => ⟨length_of_validTag h, h⟩, And.right⟩
    | _ => simp [putSubscription]
  · exact codec_id.map (fun s => by cases s <;> simp [putSubscription, Subscription.Valid]) fun _ => rfl
  · exact .none (fun _ => ⟨_, rfl⟩) fun s => by cases s <;> simp_all [putSubscription, eq_comm]

theorem codec_small {offset : Int} {good : UInt8 → Bool} :
    Codec (getSmall offset good) (putSmall offset) fun v => ∃ byte : UInt8, good byte = true ∧ v = byte.toNat - offset := by
  have hback : ∀ byte : UInt8, UInt8.ofNat ((byte.toNat : Int) - offset + offset).toNat = byte := fun byte => by
    rw [Int.sub_add_cancel, Int.toNat_natCast, UInt8.ofNat_toNat]
  refine ((Codec.int _).lastField (fun v : Int => UInt8.ofNat (v + offset).toNat) fun byte => ?_).congr (fun _ => Iff.rfl)
    fun v _ => (toBe_uInt8 _).symm
  split
  · rename_i hgood
    refine .pure _ fun v => ?_
    constructor
    · rintro ⟨⟨other, -, rfl⟩, rfl⟩
      rw [hback]
    · rintro rfl
      exact ⟨⟨byte, hgood, rfl⟩, hback byte⟩
  · rename_i hbad
    refine .none (fun _ => ⟨_, rfl⟩) fun v hv => ?_
    obtain ⟨⟨other, hgood, rfl⟩, rfl⟩ := hv
    rw [hback] at hbad
    exact hbad hgood

theorem codec_feedback : Codec getFeedback putFeedback fun entry => entry.2 = 1 ∨ entry.2 = -1 := by
  refine codec_ref.field Prod.fst fun r => codec_small.last Prod.snd (fun entry h => ?_) fun value hvalue => .pure _ fun entry => ?_
  · rcases h.1 with hup | hdown
    · exact ⟨2, rfl, hup⟩
    · exact ⟨0, rfl, hdown⟩
  · obtain ⟨byte, hgood, rfl⟩ := hvalue
    rw [Bool.or_eq_true, beq_iff_eq, beq_iff_eq] at hgood
    constructor
    · rintro ⟨⟨-, rfl⟩, hsecond⟩
      exact Prod.ext rfl hsecond
    · rintro rfl
      rcases hgood with rfl | rfl
      · exact ⟨⟨.inr rfl, rfl⟩, rfl⟩
      · exact ⟨⟨.inl rfl, rfl⟩, rfl⟩

theorem codec_ignored {bookmarks : Std.ExtTreeSet PostRef compare} : Codec (getIgnored bookmarks) putRef fun r => bookmarks.contains r = true := by
  unfold getIgnored
  exact (codec_ref.check (p := fun r => (!bookmarks.contains r) = true)).congr
    (fun r => by rw [Bool.not_eq_true, Bool.not_eq_false', true_and]) fun _ _ => rfl

theorem interest_byte {byte : UInt8} : (!(decide (byte > 8) || byte == 4)) = true ↔ byte.toNat ≤ 8 ∧ byte.toNat ≠ 4 := by
  rw [Bool.not_eq_true', Bool.or_eq_false_iff, decide_eq_false_iff_not, beq_eq_false_iff_ne]
  refine and_congr (UInt8.not_lt.trans UInt8.le_iff_toNat_le) (not_congr ⟨fun h => ?_, fun h => ?_⟩)
  · rw [h]
    rfl
  · exact UInt8.toNat_inj.1 h

theorem codec_interest : Codec getInterest putInterest fun entry => validTag entry.1 = .ok () ∧ -4 ≤ entry.2 ∧ entry.2 ≤ 4 ∧ entry.2 ≠ 0 := by
  refine (codec_checked (by decide)).bind Prod.fst (fun entry h => ⟨length_of_validTag h.1, h.1⟩) fun tag htag =>
    codec_small.last Prod.snd (fun entry h => ?_) fun value hvalue => .pure _ fun entry => ?_
  · obtain ⟨-, hlow, hhigh, hne⟩ := h.1
    have hbyte : (UInt8.ofNat (entry.2 + 4).toNat).toNat = (entry.2 + 4).toNat := UInt8.toNat_ofNat_of_lt' (show (entry.2 + 4).toNat < 256 by omega)
    refine ⟨UInt8.ofNat (entry.2 + 4).toNat, interest_byte.2 ?_, ?_⟩
    · rw [hbyte]
      omega
    · rw [hbyte]
      omega
  · obtain ⟨byte, hgood, rfl⟩ := hvalue
    rw [interest_byte] at hgood
    constructor
    · rintro ⟨⟨-, rfl⟩, hsecond⟩
      exact Prod.ext rfl hsecond
    · rintro rfl
      refine ⟨⟨⟨htag.2, ?_, ?_, ?_⟩, rfl⟩, rfl⟩
      · omega
      · omega
      · omega

theorem length_of_validName {name : String} (h : validName name = .ok ()) : (utf8 name).length ≤ 48 := by
  rw [validName, require_eq_ok, Bool.and_eq_true, Bool.and_eq_true, decide_eq_true_eq] at h
  exact h.1.2

theorem length_utf8 (s : String) : (utf8 s).length = s.utf8ByteSize := rfl

theorem length_of_validQuery {query : String} (h : validQuery query = .ok ()) : (utf8 query).length ≤ 256 := by
  rw [validQuery, bind_eq_ok] at h
  obtain ⟨parsed, hparse, -⟩ := h
  unfold Query.parse at hparse
  split at hparse
  · assumption
  · cases hparse

theorem codec_search : Codec getSearch putSearch fun entry => validName entry.1 = .ok () ∧ validQuery entry.2 = .ok () := by
  refine (codec_checked (by decide)).bind Prod.fst (fun entry h => ⟨length_of_validName h.1, h.1⟩) fun name hname =>
    (codec_checked (by decide)).last Prod.snd (fun entry h => ⟨length_of_validQuery h.1.2, h.1.2⟩) fun query hquery => .pure _ fun entry => ?_
  constructor
  · rintro ⟨⟨-, rfl⟩, rfl⟩
    rfl
  · rintro rfl
    exact ⟨⟨⟨hname.2, hquery.2⟩, rfl⟩, rfl⟩

theorem codec_wider : Codec getWider (fun wider => [if wider then 1 else 0]) fun _ => True := by
  refine .tagged (fun wider => ⟨_, [], rfl⟩) fun t => ?_
  split
  · exact .constant (by decide) rfl
  · exact .constant (by decide) rfl
  · exact .none (fun _ => ⟨_, rfl⟩) fun wider => by cases wider <;> simp_all [eq_comm]

/-- An ordinal that is in range and was not used before. -/
def Fresh (next : UInt64) (ordinals : Std.ExtTreeSet UInt64 compare) (entry : RecordId × UInt64) : Prop :=
  ¬ (entry.2 = 0 ∨ next < entry.2 ∨ ordinals.contains entry.2 = true)

theorem codec_observations {next : UInt64} : Codec (getObservations next) (putItems putObservation) fun l =>
    l.length ≤ maxDocuments ∧ Codec.Chained (Fresh next) (fun ordinals entry => ordinals.insert entry.2) ∅ l := by
  refine Codec.counted (codec_count (by decide)) fun ordinals => codec_id.field Prod.fst fun id =>
    (Codec.int _).lastField Prod.snd fun n => ?_
  by_cases hused : n = 0 ∨ next < n ∨ ordinals.contains n = true
  · rw [if_pos hused]
    refine .none (fun _ => ⟨_, rfl⟩) fun entry h => ?_
    obtain ⟨⟨hfresh, -⟩, rfl⟩ := h
    exact hfresh hused
  · rw [if_neg hused]
    refine .pure _ fun entry => ?_
    constructor
    · rintro ⟨⟨-, rfl⟩, rfl⟩
      rfl
    · rintro rfl
      exact ⟨⟨hused, rfl⟩, rfl⟩

theorem codec_magic : Codec getMagic (fun _ => magic) fun _ => True := Codec.magic

theorem codec_reader {reader : Bytes32} : Codec (getReader reader) (fun _ => reader.toList) fun _ => True := by
  refine ((Codec.array _ 32).bind (fun _ => reader) (fun _ _ => trivial) (fun found _ => ?_)).congr (fun _ => Iff.rfl) fun _ _ => (List.append_nil _).symm
  split
  · rename_i hne
    exact .none (fun _ => ⟨_, rfl⟩) fun _ h => hne h.2.symm
  · rename_i heq
    exact .pure _ fun _ => by simp [Decidable.not_not.1 heq]

end

/-! ### Valid states -/

namespace DiscoveryState

/-- What the reader enforces. -/
structure Valid (s : DiscoveryState) : Prop where
  subscriptions_le : s.preferences.subscriptions.size ≤ maxPreferences
  subscriptions : ∀ sub ∈ s.preferences.subscriptions, Subscription.Valid sub
  muted_le : s.preferences.muted.size ≤ maxPreferences
  blocked_le : s.preferences.blocked.size ≤ maxPreferences
  threads_le : s.preferences.mutedThreads.size ≤ maxPreferences
  bookmarks_le : s.preferences.bookmarks.size ≤ maxPreferences
  seen_le : s.seen.size ≤ maxDocuments
  feedback_le : s.feedback.size ≤ maxDocuments
  feedback : ∀ (id : RecordId) (entry : PostRef × Int), s.feedback[id]? = some entry → entry.1.post = id ∧ (entry.2 = 1 ∨ entry.2 = -1)
  ignored_le : s.learningIgnored.size ≤ maxPreferences
  ignored : ∀ r, s.learningIgnored.contains r = true → s.preferences.bookmarks.contains r = true
  interests_le : s.preferences.interests.size ≤ maxPreferences
  interests : ∀ (tag : String) (value : Int), s.preferences.interests[tag]? = some value → validTag tag = .ok () ∧ -4 ≤ value ∧ value ≤ 4 ∧ value ≠ 0
  searches_le : s.preferences.searches.size ≤ 32
  searches : ∀ name query : String, s.preferences.searches[name]? = some query → validName name = .ok () ∧ validQuery query = .ok ()
  observations_le : s.observations.size ≤ maxDocuments
  ordinals_count : s.nextOrdinal.toNat = s.observations.size
  ordinals_range : ∀ (id : RecordId) (n : UInt64), s.observations[id]? = some n → 0 < n.toNat ∧ n.toNat ≤ s.nextOrdinal.toNat
  ordinals_once : ∀ (id id' : RecordId) (n : UInt64), s.observations[id]? = some n → s.observations[id']? = some n → id = id'

variable {s : DiscoveryState}

theorem chained_fresh {next : UInt64} {l : List (RecordId × UInt64)} {ordinals : Std.ExtTreeSet UInt64 compare} (hnd : (l.map Prod.snd).Nodup)
    (hrange : ∀ entry ∈ l, entry.2 ≠ 0 ∧ entry.2 ≤ next) (hnew : ∀ entry ∈ l, ordinals.contains entry.2 = false) :
    Codec.Chained (Fresh next) (fun ordinals entry => ordinals.insert entry.2) ordinals l := by
  induction l generalizing ordinals with
  | nil => trivial
  | cons entry l ih =>
    rw [List.forall_mem_cons] at hrange hnew
    rw [List.map_cons, List.nodup_cons] at hnd
    refine ⟨?_, ih hnd.2 hrange.2 fun other hother => ?_⟩
    · rintro (hzero | hbeyond | hused)
      · exact hrange.1.1 hzero
      · exact absurd hrange.1.2 (UInt64.not_le.2 hbeyond)
      · rw [hnew.1] at hused
        cases hused
    · have hne : entry.2 ≠ other.2 := fun h => hnd.1 (h ▸ List.mem_map_of_mem hother)
      rw [Std.ExtTreeSet.contains_insert, hnew.2 other hother, Bool.or_false, beq_eq_false_iff_ne]
      exact fun h => hne (Std.LawfulEqCmp.eq_of_compare h)

theorem Valid.chained (h : Valid s) :
    Codec.Chained (Fresh s.nextOrdinal) (fun ordinals entry => ordinals.insert entry.2) ∅ s.observations.toList := by
  refine chained_fresh ?_ (fun entry hmem => ?_) fun entry _ => Std.ExtTreeSet.contains_empty
  · refine List.pairwise_map.2 (List.Pairwise.imp_of_mem (fun {a b} ha hb hne heq => ?_) Maps.nodup_toList)
    have hida := Std.ExtTreeMap.mem_toList_iff_getElem?_eq_some.1 ha
    have hidb := Std.ExtTreeMap.mem_toList_iff_getElem?_eq_some.1 hb
    rw [← heq] at hidb
    exact hne (Prod.ext (h.ordinals_once _ _ _ hida hidb) heq)
  · obtain ⟨hpos, hle⟩ := h.ordinals_range _ _ (Std.ExtTreeMap.mem_toList_iff_getElem?_eq_some.1 hmem)
    refine ⟨fun hzero => ?_, UInt64.le_iff_toNat_le.2 hle⟩
    rw [hzero] at hpos
    exact absurd hpos (Nat.lt_irrefl 0)

theorem Valid.feedback_values (h : Valid s) : s.feedbackEntries.map (fun entry => (entry.1.post, entry)) = s.feedback.toList := by
  rw [feedbackEntries, List.map_map]
  refine (List.map_congr_left fun entry hmem => ?_).trans (List.map_id _)
  have hown := (h.feedback _ _ (Std.ExtTreeMap.mem_toList_iff_getElem?_eq_some.1 hmem)).1
  exact Prod.ext hown rfl

theorem Valid.exec_getState (h : Valid s) : exec (getState s.reader) s.encode = (.ok s, []) := by
  have hset : ∀ {α : Type} [Ord α] [Std.TransCmp (compare : α → α → Ordering)] (set : Std.ExtTreeSet α compare), set.toList.length = set.size :=
    fun set => Std.ExtTreeSet.length_toList
  have hids : ∀ {kind : IdKind} (set : Std.ExtTreeSet (Id kind) compare), set.size ≤ maxPreferences →
      set.toList.length ≤ maxPreferences ∧ ∀ id ∈ set.toList, True :=
    fun set hle => ⟨(hset set).le.trans hle, fun _ _ => trivial⟩
  have hrefs : ∀ {most : Nat} (set : Std.ExtTreeSet PostRef compare), set.size ≤ most → set.toList.length ≤ most ∧ ∀ r ∈ set.toList, True :=
    fun set hle => ⟨(hset set).le.trans hle, fun _ _ => trivial⟩
  unfold getState
  simp only [exec_bind_eq_ok]
  refine ⟨(), _, (codec_magic.iff _ _ _).2 ⟨rfl, trivial⟩, (), _, (codec_reader.iff _ _ _).2 ⟨rfl, trivial⟩,
    s.generation, _, ((Codec.int _).iff _ _ _).2 ⟨rfl, trivial⟩, s.nextOrdinal, _, ((Codec.int _).iff _ _ _).2 ⟨rfl, trivial⟩,
    s.preferences.subscriptions.toList, _, ((codec_items (by decide) codec_subscription).iff _ _ _).2 ⟨rfl, ?_, fun sub hsub => ?_⟩,
    s.preferences.muted.toList, _, ((codec_items (by decide) codec_id).iff _ _ _).2 ⟨rfl, hids _ h.muted_le⟩,
    s.preferences.blocked.toList, _, ((codec_items (by decide) codec_id).iff _ _ _).2 ⟨rfl, hids _ h.blocked_le⟩,
    s.preferences.mutedThreads.toList, _, ((codec_items (by decide) codec_id).iff _ _ _).2 ⟨rfl, hids _ h.threads_le⟩,
    s.preferences.bookmarks.toList, _, ((codec_items (by decide) codec_ref).iff _ _ _).2 ⟨rfl, hrefs _ h.bookmarks_le⟩,
    s.seen.toList, _, ((codec_items (by decide) codec_ref).iff _ _ _).2 ⟨rfl, hrefs _ h.seen_le⟩,
    s.feedbackEntries, _, ((codec_items (by decide) codec_feedback).iff _ _ _).2 ⟨rfl, ?_, fun entry hentry => ?_⟩,
    s.learningIgnored.toList, _, ((codec_items (by decide) codec_ignored).iff _ _ _).2 ⟨rfl, ?_, fun r hr => ?_⟩,
    s.preferences.interests.toList, _, ((codec_items (by decide) codec_interest).iff _ _ _).2 ⟨rfl, ?_, fun entry hentry => ?_⟩,
    s.preferences.searches.toList, _, ((codec_items (by decide) codec_search).iff _ _ _).2 ⟨rfl, ?_, fun entry hentry => ?_⟩,
    s.preferences.wider, _, (codec_wider.iff _ _ _).2 ⟨rfl, trivial⟩,
    s.observations.toList, [], (codec_observations.iff _ _ _).2 ⟨(List.append_nil _).symm, ?_, h.chained⟩, ?_⟩
  · rw [hset]
    exact h.subscriptions_le
  · exact h.subscriptions sub (Std.ExtTreeSet.mem_toList.1 hsub)
  · rw [feedbackEntries, List.length_map, Std.ExtTreeMap.length_toList]
    exact h.feedback_le
  · obtain ⟨⟨id, entry⟩, hmem, rfl⟩ := List.mem_map.1 hentry
    exact (h.feedback id entry (Std.ExtTreeMap.mem_toList_iff_getElem?_eq_some.1 hmem)).2
  · rw [hset]
    exact h.ignored_le
  · rw [Maps.ofKeys_toList]
    exact h.ignored r (Std.ExtTreeSet.mem_iff_contains.1 (Std.ExtTreeSet.mem_toList.1 hr))
  · rw [Std.ExtTreeMap.length_toList]
    exact h.interests_le
  · exact h.interests _ _ (Std.ExtTreeMap.mem_toList_iff_getElem?_eq_some.1 hentry)
  · rw [Std.ExtTreeMap.length_toList]
    exact h.searches_le
  · exact h.searches _ _ (Std.ExtTreeMap.mem_toList_iff_getElem?_eq_some.1 hentry)
  · rw [Std.ExtTreeMap.length_toList]
    exact h.observations_le
  · simp only [Maps.ofKeys_toList, Maps.ofEntries_toList, h.feedback_values, exec_pure]


/-! ### Sizes -/

theorem length_putItems_le {α : Type} {put : α → List UInt8} {items : List α} {most size : Nat} (hmost : items.length ≤ most)
    (hsize : ∀ a ∈ items, (put a).length ≤ size) : (putItems put items).length ≤ 2 + most * size := by
  have hitems := (Codec.length_flatMap_le hsize).trans (Nat.mul_le_mul_right size hmost)
  rw [putItems, List.length_append, putCount, length_toBe]
  exact Nat.add_le_add_left hitems 2

theorem length_putId {kind : IdKind} (id : Id kind) : (putId id).length = 32 := id.bytes.length_toList

theorem length_putRef (r : PostRef) : (putRef r).length = 64 := by
  rw [putRef, List.length_append, length_putId, length_putId]

theorem length_putText_le {text : String} {most : Nat} (h : (utf8 text).length ≤ most) : (putText text).length ≤ 2 + most := by
  rw [putText, List.length_append, putCount, length_toBe]
  exact Nat.add_le_add_left h 2

theorem length_putSubscription_le {sub : Subscription} (h : sub.Valid) : (putSubscription sub).length ≤ 51 := by
  cases sub with
  | owner id => rw [putSubscription, List.length_cons, length_putId]; omega
  | agent id => rw [putSubscription, List.length_cons, length_putId]; omega
  | channel room => rw [putSubscription, List.length_cons, length_toBe]; decide
  | tag name => exact Nat.succ_le_succ (length_putText_le (length_of_validTag h))
  | thread id => rw [putSubscription, List.length_cons, length_putId]; omega

theorem Valid.length_encode_le (h : Valid s) : s.encode.length ≤ maxStateBytes := by
  have hids : ∀ {kind : IdKind} (set : Std.ExtTreeSet (Id kind) compare), set.size ≤ maxPreferences → (putItems putId set.toList).length ≤ 2 + maxPreferences * 32 :=
    fun set hle => length_putItems_le (Std.ExtTreeSet.length_toList.le.trans hle) fun id _ => (length_putId id).le
  have hrefs : ∀ {most : Nat} (set : Std.ExtTreeSet PostRef compare), set.size ≤ most → (putItems putRef set.toList).length ≤ 2 + most * 64 :=
    fun set hle => length_putItems_le (Std.ExtTreeSet.length_toList.le.trans hle) fun r _ => (length_putRef r).le
  have hsubscriptions : (putItems putSubscription s.preferences.subscriptions.toList).length ≤ 2 + maxPreferences * 51 :=
    length_putItems_le (Std.ExtTreeSet.length_toList.le.trans h.subscriptions_le)
      fun sub hsub => length_putSubscription_le (h.subscriptions sub (Std.ExtTreeSet.mem_toList.1 hsub))
  have hfeedback : (putItems putFeedback s.feedbackEntries).length ≤ 2 + maxDocuments * 65 := by
    refine length_putItems_le ?_ fun entry _ => ?_
    · rw [feedbackEntries, List.length_map, Std.ExtTreeMap.length_toList]
      exact h.feedback_le
    · rw [putFeedback, List.length_append, length_putRef]
      exact Nat.le_refl 65
  have hinterests : (putItems putInterest s.preferences.interests.toList).length ≤ 2 + maxPreferences * 51 := by
    refine length_putItems_le (Std.ExtTreeMap.length_toList.le.trans h.interests_le) fun entry hmem => ?_
    have htag := length_of_validTag (h.interests _ _ (Std.ExtTreeMap.mem_toList_iff_getElem?_eq_some.1 hmem)).1
    rw [putInterest, List.length_append]
    exact Nat.add_le_add_right (length_putText_le htag) 1
  have hsearches : (putItems putSearch s.preferences.searches.toList).length ≤ 2 + 32 * 308 := by
    refine length_putItems_le (Std.ExtTreeMap.length_toList.le.trans h.searches_le) fun entry hmem => ?_
    obtain ⟨hname, hquery⟩ := h.searches _ _ (Std.ExtTreeMap.mem_toList_iff_getElem?_eq_some.1 hmem)
    rw [putSearch, List.length_append]
    exact Nat.add_le_add (length_putText_le (length_of_validName hname)) (length_putText_le (length_of_validQuery hquery))
  have hobservations : (putItems putObservation s.observations.toList).length ≤ 2 + maxDocuments * 40 := by
    refine length_putItems_le (Std.ExtTreeMap.length_toList.le.trans h.observations_le) fun entry _ => ?_
    rw [putObservation, List.length_append, length_putId, length_toBe]
    exact Nat.le_refl 40
  have hmuted := hids _ h.muted_le
  have hblocked := hids _ h.blocked_le
  have hthreads := hids _ h.threads_le
  have hbookmarks := hrefs _ h.bookmarks_le
  have hseen := hrefs _ h.seen_le
  have hignored := hrefs _ h.ignored_le
  have hnumber : ∀ n : UInt64, (toBe n).length = 8 := length_toBe
  have hmagic : magic.length = 8 := rfl
  simp only [encode, List.length_append, hnumber, hmagic, Vector.length_toList, List.length_singleton]
  calc
    _ ≤ 8 + (32 + (8 + (8 + (2 + maxPreferences * 51 + (2 + maxPreferences * 32 + (2 + maxPreferences * 32 + (2 + maxPreferences * 32 +
        (2 + maxPreferences * 64 + (2 + maxDocuments * 64 + (2 + maxDocuments * 65 + (2 + maxPreferences * 64 + (2 + maxPreferences * 51 +
        (2 + 32 * 308 + (1 + (2 + maxDocuments * 40))))))))))))))) := by gcongr
    _ ≤ maxStateBytes := by decide

theorem Valid.decode_encode (h : Valid s) : decode s.encode s.reader = .ok s := by
  have hsize := h.length_encode_le
  unfold decode
  rw [if_neg (not_lt.2 hsize), h.exec_getState]
  dsimp only
  rw [if_neg]
  rintro (hcount | hrest | hcanonical)
  · refine hcount (UInt64.toNat_inj.1 ?_)
    have hle := h.observations_le
    rw [h.ordinals_count, UInt64.toNat_ofNat_of_lt' (show s.observations.size < 2 ^ 64 by rw [maxDocuments] at hle; omega)]
  · exact hrest rfl
  · exact hcanonical rfl

end DiscoveryState

end Valhalla.Discovery
