import Valhalla.Discovery.StateLaws

/-!
# Every reachable state is read back

Each edit keeps what the reader enforces (`Valid`), so that no sequence of calls leads to a state that cannot be read again after it was
saved; what a failed call leaves is the state before it.
-/

namespace Valhalla.Discovery
open Fallible FixedWidth Check
open Social (RecordId OwnerId AgentId PostRef View)

/-! ### Bounded tables -/

section
variable {α : Type} [Ord α] [Std.TransCmp (compare : α → α → Ordering)]
  {set set' : Std.ExtTreeSet α compare} {v x : α} {yes : Bool} {most : Nat}

theorem toggle_cases (h : toggle set v yes most = .ok set') :
    (yes = true ∧ set' = set.insert v ∧ (set.contains v = true ∨ set.size ≠ most)) ∨ (yes = false ∧ set' = set.erase v) := by
  unfold toggle at h
  cases yes with
  | true =>
    rw [if_pos rfl, bind_eq_ok] at h
    obtain ⟨_, hroom, h⟩ := h
    cases h
    refine .inl ⟨rfl, rfl, ?_⟩
    rw [require_eq_ok] at hroom
    cases hin : set.contains v with
    | true => exact .inl rfl
    | false =>
      rw [hin] at hroom
      exact .inr fun hsize => by rw [hsize, beq_self_eq_true] at hroom; cases hroom
  | false =>
    cases h
    exact .inr ⟨rfl, rfl⟩

theorem toggle_size (h : toggle set v yes most = .ok set') (hle : set.size ≤ most) : set'.size ≤ most := by
  obtain ⟨-, rfl, hroom⟩ | ⟨-, rfl⟩ := toggle_cases h
  · rw [Std.ExtTreeSet.size_insert]
    rcases hroom with hin | hsize
    · rw [if_pos hin]
      exact hle
    · split
      · exact hle
      · omega
  · exact Std.ExtTreeSet.size_erase_le.trans hle

theorem mem_of_toggle [Std.LawfulEqCmp (compare : α → α → Ordering)] (h : toggle set v yes most = .ok set') (hx : x ∈ set') : x = v ∨ x ∈ set := by
  obtain ⟨-, rfl, -⟩ | ⟨-, rfl⟩ := toggle_cases h
  · rcases Std.ExtTreeSet.mem_insert.1 hx with hv | hx
    · exact .inl (Std.LawfulEqCmp.eq_of_compare hv).symm
    · exact .inr hx
  · exact .inr (Std.ExtTreeSet.mem_erase.1 hx).2

end

theorem size_insert_le {κ ν : Type} [Ord κ] [Std.TransCmp (compare : κ → κ → Ordering)]
    {m : Std.ExtTreeMap κ ν compare} {k : κ} {v : ν} {most : Nat} (hle : m.size ≤ most)
    (hroom : (!(!m.contains k && m.size == most)) = true) : (m.insert k v).size ≤ most := by
  rw [Std.ExtTreeMap.size_insert]
  split
  · exact hle
  · rename_i hnew
    rw [Bool.not_eq_true] at hnew
    rw [hnew] at hroom
    have hne : m.size ≠ most := fun heq => by rw [heq, beq_self_eq_true] at hroom; cases hroom
    omega

namespace DiscoveryState
variable {s next : DiscoveryState}

/-! ### Edits -/

/-- What an edit of a copy keeps. -/
structure Keeps (s next : DiscoveryState) : Prop where
  reader : next.reader = s.reader
  generation : next.generation = s.generation
  ordinals : ∀ (id : RecordId) (n : UInt64), s.observations[id]? = some n → next.observations[id]? = some n
  valid : Valid s → Valid next

theorem Keeps.refl : Keeps s s := ⟨rfl, rfl, fun _ _ h => h, fun h => h⟩

theorem Keeps.trans {last : DiscoveryState} (h : Keeps s next) (h' : Keeps next last) : Keeps s last :=
  ⟨h'.reader.trans h.reader, h'.generation.trans h.generation, fun id n hn => h'.ordinals id n (h.ordinals id n hn), fun hs => h'.valid (h.valid hs)⟩

theorem keeps_changed {change : Change} (h : s.changed change = .ok next) : Keeps s next := by
  cases change with
  | subscribe sub yes =>
    have hvalid : sub.Valid := by
      cases sub with
      | tag name =>
        simp only [changed, bind_eq_ok] at h
        obtain ⟨_, htag, -⟩ := h
        exact htag
      | _ => trivial
    obtain ⟨subscriptions, htoggle, rfl⟩ : ∃ subscriptions, toggle s.preferences.subscriptions sub yes maxPreferences = .ok subscriptions ∧
        next = { s with preferences := { s.preferences with subscriptions } } := by
      cases sub <;> simp only [changed, bind_eq_ok] at h
      case tag =>
        obtain ⟨_, -, subscriptions, htoggle, h⟩ := h
        cases h
        exact ⟨_, htoggle, rfl⟩
      all_goals
        obtain ⟨subscriptions, htoggle, h⟩ := h
        cases h
        exact ⟨_, htoggle, rfl⟩
    exact ⟨rfl, rfl, fun _ _ h => h, fun hs => { hs with
      subscriptions_le := toggle_size htoggle hs.subscriptions_le
      subscriptions := fun other hother => (mem_of_toggle htoggle hother).elim (fun heq => heq ▸ hvalid) (hs.subscriptions other) }⟩
  | muteOwner o yes =>
    simp only [changed, bind_eq_ok] at h
    obtain ⟨muted, htoggle, h⟩ := h
    cases h
    exact ⟨rfl, rfl, fun _ _ h => h, fun hs => { hs with muted_le := toggle_size htoggle hs.muted_le }⟩
  | blockOwner o yes =>
    simp only [changed, bind_eq_ok] at h
    obtain ⟨blocked, htoggle, h⟩ := h
    cases h
    exact ⟨rfl, rfl, fun _ _ h => h, fun hs => { hs with blocked_le := toggle_size htoggle hs.blocked_le }⟩
  | muteThread r yes =>
    simp only [changed, bind_eq_ok] at h
    obtain ⟨threads, htoggle, h⟩ := h
    cases h
    exact ⟨rfl, rfl, fun _ _ h => h, fun hs => { hs with threads_le := toggle_size htoggle hs.threads_le }⟩
  | bookmark r yes =>
    simp only [changed, bind_eq_ok] at h
    obtain ⟨bookmarks, htoggle, h⟩ := h
    cases h
    refine ⟨rfl, rfl, fun _ _ h => h, fun hs => { hs with
      bookmarks_le := toggle_size htoggle hs.bookmarks_le
      ignored_le := ?_
      ignored := ?_ }⟩
    · show (if yes = true then s.learningIgnored else s.learningIgnored.erase r).size ≤ maxPreferences
      split
      · exact hs.ignored_le
      · exact Std.ExtTreeSet.size_erase_le.trans hs.ignored_le
    · intro other hother
      obtain ⟨rfl, rfl, -⟩ | ⟨rfl, rfl⟩ := toggle_cases htoggle
      · show (s.preferences.bookmarks.insert r).contains other = true
        rw [Std.ExtTreeSet.contains_insert, hs.ignored other hother, Bool.or_true]
      · have hkept : (s.learningIgnored.erase r).contains other = true := hother
        show (s.preferences.bookmarks.erase r).contains other = true
        rw [Std.ExtTreeSet.contains_erase, Bool.and_eq_true] at hkept ⊢
        exact ⟨hkept.1, hs.ignored other hkept.2⟩
  | interest tag delta =>
    simp only [changed, bind_eq_ok, require_eq_ok, decide_eq_true_eq] at h
    obtain ⟨_, htag, _, -, _, hroom, h⟩ := h
    cases h
    refine ⟨rfl, rfl, fun _ _ h => h, fun hs => { hs with interests_le := ?_, interests := ?_ }⟩
    · dsimp only
      split
      · exact Std.ExtTreeMap.size_erase_le.trans hs.interests_le
      · exact size_insert_le hs.interests_le hroom
    · intro other value h
      dsimp only at h
      split at h
      · rw [Maps.getElem?_erase] at h
        split at h
        · cases h
        · exact hs.interests other value h
      · rename_i hzero
        rw [Maps.getElem?_insert] at h
        split at h
        · rename_i heq
          cases h
          subst heq
          exact ⟨htag, Int.le_max_left _ _, max_le (by omega) (min_le_left _ _), hzero⟩
        · exact hs.interests other value h
  | clearInterests =>
    cases h
    exact ⟨rfl, rfl, fun _ _ h => h, fun hs => { hs with
      interests_le := Nat.zero_le _
      interests := fun tag value h => by cases h
      feedback_le := Nat.zero_le _
      feedback := fun id entry h => by cases h
      ignored_le := hs.bookmarks_le
      ignored := fun r h => h }⟩
  | saveSearch name query =>
    simp only [changed, bind_eq_ok, require_eq_ok] at h
    obtain ⟨_, hname, parsed, hparse, _, hroom, h⟩ := h
    cases h
    refine ⟨rfl, rfl, fun _ _ h => h, fun hs => { hs with
      searches_le := size_insert_le hs.searches_le hroom
      searches := fun other text h => ?_ }⟩
    rw [Maps.getElem?_insert] at h
    split at h
    · rename_i heq
      cases h
      subst heq
      exact ⟨hname, by rw [validQuery, hparse]; rfl⟩
    · exact hs.searches other text h
  | removeSearch name =>
    simp only [changed, bind_eq_ok] at h
    obtain ⟨_, -, h⟩ := h
    cases h
    refine ⟨rfl, rfl, fun _ _ h => h, fun hs => { hs with
      searches_le := Std.ExtTreeMap.size_erase_le.trans hs.searches_le
      searches := fun other text h => ?_ }⟩
    rw [Maps.getElem?_erase] at h
    split at h
    · cases h
    · exact hs.searches other text h
  | wider wider =>
    cases h
    exact ⟨rfl, rfl, fun _ _ h => h, fun hs => { hs with }⟩

theorem keeps_observeOne {id : RecordId} (h : s.observeOne id = .ok next) : Keeps s next := by
  unfold observeOne at h
  split at h
  · cases h
    exact .refl
  · rename_i hnew
    simp only [bind_eq_ok, require_eq_ok, okOr_eq_ok] at h
    obtain ⟨_, hroom, ordinal, hordinal, h⟩ := h
    cases h
    have hto : ordinal.toNat = s.nextOrdinal.toNat + 1 := checkedAdd_eq_some.1 hordinal
    have hnone : s.observations[id]? = none := by
      rw [Std.ExtTreeMap.contains_eq_isSome_getElem?, Bool.not_eq_true, Option.isSome_eq_false_iff, Option.isNone_iff_eq_none] at hnew
      exact hnew
    have hget : ∀ (other : RecordId) (n : UInt64), (s.observations.insert id ordinal)[other]? = some n →
        (other = id ∧ n = ordinal) ∨ s.observations[other]? = some n := by
      intro other n h
      rw [Maps.getElem?_insert] at h
      split at h
      · rename_i heq
        cases h
        exact .inl ⟨heq.symm, rfl⟩
      · exact .inr h
    refine ⟨rfl, rfl, fun other n h => ?_, fun hs => { hs with
      observations_le := ?_, ordinals_count := ?_, ordinals_range := fun other n h => ?_, ordinals_once := fun other other' n h h' => ?_ }⟩
    · show (s.observations.insert id ordinal)[other]? = some n
      rw [Maps.getElem?_insert, if_neg]
      · exact h
      · rintro rfl
        rw [hnone] at h
        cases h
    · show (s.observations.insert id ordinal).size ≤ maxDocuments
      rw [Maps.size_insert_new hnone]
      rw [Bool.not_eq_true', beq_eq_false_iff_ne] at hroom
      have hle := hs.observations_le
      omega
    · show ordinal.toNat = (s.observations.insert id ordinal).size
      rw [Maps.size_insert_new hnone, hto, hs.ordinals_count]
    · show 0 < n.toNat ∧ n.toNat ≤ ordinal.toNat
      rcases hget other n h with ⟨-, rfl⟩ | hold
      · exact ⟨by omega, Nat.le_refl _⟩
      · have hrange := hs.ordinals_range other n hold
        omega
    · have hless : ∀ (old : RecordId), s.observations[old]? ≠ some ordinal := by
        intro old hold
        have hrange := hs.ordinals_range old ordinal hold
        omega
      rcases hget other n h with ⟨rfl, rfl⟩ | hold
      · rcases hget other' _ h' with ⟨rfl, -⟩ | hold'
        · rfl
        · exact absurd hold' (hless other')
      · rcases hget other' n h' with ⟨rfl, rfl⟩ | hold'
        · exact absurd hold (hless other)
        · exact hs.ordinals_once other other' n hold hold'

theorem keeps_observe {ids : List RecordId} (h : ids.foldlM observeOne s = .ok next) : Keeps s next := by
  induction ids generalizing s with
  | nil =>
    cases h
    exact .refl
  | cons id ids ih =>
    rw [List.foldlM_cons, bind_eq_ok] at h
    obtain ⟨mid, hone, h⟩ := h
    exact (keeps_observeOne hone).trans (ih h)

/-! ### Calls -/

inductive Call
  | apply (change : Change)
  | observe (view : View)
  | markSeen (view : View) (reference : PostRef)
  | feedback (view : View) (reference : PostRef) (value : Int)

def Call.run : Call → Fallible Error DiscoveryState Unit
  | .apply change => DiscoveryState.apply change
  | .observe view => DiscoveryState.observe view
  | .markSeen view reference => DiscoveryState.markSeen view reference
  | .feedback view reference value => giveFeedback view reference value

def after (s : DiscoveryState) (calls : List Call) : DiscoveryState := calls.foldl (fun s call => (exec call.run s).2) s

structure Stepped (s : DiscoveryState) (result : Except Error Unit) (s' : DiscoveryState) : Prop where
  failed : ∀ e, result = .error e → s' = s
  generation : s' ≠ s → s'.generation.toNat = s.generation.toNat + 1
  reader : s'.reader = s.reader
  ordinals : ∀ (id : RecordId) (n : UInt64), s.observations[id]? = some n → s'.observations[id]? = some n
  valid : Valid s → Valid s'

theorem Stepped.refused {e : Error} : Stepped s (.error e) s := ⟨fun _ _ => rfl, fun h => (h rfl).elim, rfl, fun _ _ h => h, fun h => h⟩

theorem stepped_mutate {change : DiscoveryState → Except Error DiscoveryState} (h : ∀ next, change s = .ok next → Keeps s next) :
    Stepped s (exec (mutate change) s).1 (exec (mutate change) s).2 := by
  rw [mutate, exec_of]
  cases hchange : change s with
  | error e => exact .refused
  | ok next =>
    have hkeeps := h next hchange
    dsimp only
    by_cases hsame : next = s
    · rw [if_neg (not_not_intro hsame)]
      exact ⟨nofun, fun h => (h rfl).elim, rfl, fun _ _ h => h, fun h => h⟩
    · rw [if_pos hsame]
      cases hadd : checkedAdd s.generation 1 with
      | none => exact .refused
      | some generation =>
        have hto : generation.toNat = s.generation.toNat + 1 := checkedAdd_eq_some.1 hadd
        exact ⟨nofun, fun _ => hto, hkeeps.reader, hkeeps.ordinals, fun hs => { hkeeps.valid hs with }⟩

theorem stepped_examine {check : Except Error Unit} {m : Fallible Error DiscoveryState Unit}
    (h : check = .ok () → Stepped s (exec m s).1 (exec m s).2) :
    Stepped s (exec (examine (fun _ => check) >>= fun _ => m) s).1 (exec (examine (fun _ => check) >>= fun _ => m) s).2 := by
  rw [exec_examine_bind]
  cases check with
  | error e => exact .refused
  | ok u => exact h rfl

theorem keeps_feedback {reference : PostRef} {value : Int} (hvalue : value = 1 ∨ value = -1)
    (hroom : (!(!s.feedback.contains reference.post && s.feedback.size == maxDocuments)) = true) :
    Keeps s { s with feedback := s.feedback.insert reference.post (reference, value) } := by
  refine ⟨rfl, rfl, fun _ _ h => h, fun hs => { hs with feedback_le := size_insert_le hs.feedback_le hroom, feedback := ?_ }⟩
  intro id entry h
  dsimp only at h
  rw [Maps.getElem?_insert] at h
  split at h
  · rename_i heq
    cases h
    exact ⟨heq, hvalue⟩
  · exact hs.feedback id entry h

theorem stepped_call (s : DiscoveryState) (call : Call) : Stepped s (exec call.run s).1 (exec call.run s).2 := by
  cases call with
  | apply change => exact stepped_mutate fun next h => keeps_changed h
  | observe view => exact stepped_mutate fun next h => keeps_observe h
  | markSeen view reference =>
    refine stepped_examine fun _ => stepped_mutate fun next h => ?_
    rw [bind_eq_ok] at h
    obtain ⟨seen, htoggle, h⟩ := h
    cases h
    exact ⟨rfl, rfl, fun _ _ h => h, fun hs => { hs with seen_le := toggle_size htoggle hs.seen_le }⟩
  | feedback view reference value =>
    refine stepped_examine fun hrange => stepped_examine fun _ => stepped_mutate fun next h => ?_
    rw [require_eq_ok, decide_eq_true_eq] at hrange
    by_cases hzero : value = 0
    · rw [if_pos hzero] at h
      cases h
      refine ⟨rfl, rfl, fun _ _ h => h, fun hs => { hs with
        feedback_le := Std.ExtTreeMap.size_erase_le.trans hs.feedback_le
        feedback := fun id entry h => ?_ }⟩
      dsimp only at h
      rw [Maps.getElem?_erase] at h
      split at h
      · cases h
      · exact hs.feedback id entry h
    · rw [if_neg hzero, bind_eq_ok] at h
      obtain ⟨_, hroom, h⟩ := h
      cases h
      exact keeps_feedback (by omega) (require_eq_ok.1 hroom)

theorem after_spec (s : DiscoveryState) (calls : List Call) :
    (after s calls).reader = s.reader ∧ (∀ (id : RecordId) (n : UInt64), s.observations[id]? = some n → (after s calls).observations[id]? = some n) ∧
      (Valid s → Valid (after s calls)) := by
  induction calls generalizing s with
  | nil => exact ⟨rfl, fun _ _ h => h, fun h => h⟩
  | cons call calls ih =>
    have hstep := stepped_call s call
    obtain ⟨hreader, hordinals, hvalid⟩ := ih (exec call.run s).2
    exact ⟨hreader.trans hstep.reader, fun id n h => hordinals id n (hstep.ordinals id n h), fun h => hvalid (hstep.valid h)⟩

/-! ### What a reachable state is like -/

theorem valid_new (reader : Bytes32) : Valid (new reader) where
  subscriptions_le := Nat.zero_le _
  subscriptions := fun sub h => (Std.ExtTreeSet.not_mem_empty h).elim
  muted_le := Nat.zero_le _
  blocked_le := Nat.zero_le _
  threads_le := Nat.zero_le _
  bookmarks_le := Nat.zero_le _
  seen_le := Nat.zero_le _
  feedback_le := Nat.zero_le _
  feedback := fun id entry h => by cases h
  ignored_le := Nat.zero_le _
  ignored := fun r h => h
  interests_le := Nat.zero_le _
  interests := fun tag value h => by cases h
  searches_le := Nat.zero_le _
  searches := fun name query h => by cases h
  observations_le := Nat.zero_le _
  ordinals_count := rfl
  ordinals_range := fun id n h => by cases h
  ordinals_once := fun id id' n h => by cases h

/-- The lengths that are written in two bytes. -/
def counts (s : DiscoveryState) : List Nat :=
  [s.preferences.subscriptions.size, s.preferences.muted.size, s.preferences.blocked.size, s.preferences.mutedThreads.size,
    s.preferences.bookmarks.size, s.seen.size, s.feedback.size, s.learningIgnored.size, s.preferences.interests.size,
    s.preferences.searches.size, s.observations.size] ++
  (s.preferences.subscriptions.toList.filterMap fun | .tag tag => some (utf8 tag).length | _ => none) ++
  (s.preferences.interests.toList.map fun entry => (utf8 entry.1).length) ++
  s.preferences.searches.toList.flatMap fun entry => [(utf8 entry.1).length, (utf8 entry.2).length]

theorem Valid.counts_lt (h : Valid s) : ∀ n ∈ s.counts, n < 65536 := by
  have hsmall : ∀ {n most : Nat}, most < 65536 → n ≤ most → n < 65536 := fun hmost hn => Nat.lt_of_le_of_lt hn hmost
  intro n hn
  simp only [counts, List.mem_append, List.mem_filterMap, List.mem_map, List.mem_flatMap] at hn
  rcases hn with ((hsize | ⟨sub, hsub, htag⟩) | ⟨entry, hentry, rfl⟩) | ⟨entry, hentry, htext⟩
  · revert n
    simp only [List.forall_mem_cons]
    exact ⟨hsmall (by decide) h.subscriptions_le, hsmall (by decide) h.muted_le, hsmall (by decide) h.blocked_le, hsmall (by decide) h.threads_le,
      hsmall (by decide) h.bookmarks_le, hsmall (by decide) h.seen_le, hsmall (by decide) h.feedback_le, hsmall (by decide) h.ignored_le,
      hsmall (by decide) h.interests_le, hsmall (by decide) h.searches_le, hsmall (by decide) h.observations_le, nofun⟩
  · have hvalid := h.subscriptions sub (Std.ExtTreeSet.mem_toList.1 hsub)
    cases sub with
    | tag tag =>
      cases htag
      exact hsmall (by decide) (length_of_validTag hvalid)
    | _ => cases htag
  · have hinterest := h.interests _ _ (Std.ExtTreeMap.mem_toList_iff_getElem?_eq_some.1 hentry)
    exact hsmall (by decide) (length_of_validTag hinterest.1)
  · obtain ⟨hname, hquery⟩ := h.searches _ _ (Std.ExtTreeMap.mem_toList_iff_getElem?_eq_some.1 hentry)
    rcases List.mem_cons.1 htext with rfl | htext
    · exact hsmall (by decide) (length_of_validName hname)
    · rw [List.mem_singleton.1 htext]
      exact hsmall (by decide) (length_of_validQuery hquery)

theorem Valid.ordinals_perm (h : Valid s) : (s.observations.toList.map fun entry => entry.2.toNat).Perm (List.range' 1 s.nextOrdinal.toNat) := by
  have hget : ∀ {entry : RecordId × UInt64}, entry ∈ s.observations.toList → s.observations[entry.1]? = some entry.2 :=
    fun hmem => Std.ExtTreeMap.mem_toList_iff_getElem?_eq_some.1 hmem
  have hnodup : (s.observations.toList.map fun entry => entry.2.toNat).Nodup := by
    refine List.pairwise_map.2 (List.Pairwise.imp_of_mem (fun {a b} ha hb hne heq => ?_) Maps.nodup_toList)
    have hsame : a.2 = b.2 := UInt64.toNat_inj.1 heq
    have hb' := hget hb
    rw [← hsame] at hb'
    exact hne (Prod.ext (h.ordinals_once _ _ _ (hget ha) hb') hsame)
  have hsub : (s.observations.toList.map fun entry => entry.2.toNat) ⊆ List.range' 1 s.nextOrdinal.toNat := by
    intro n hn
    obtain ⟨entry, hmem, rfl⟩ := List.mem_map.1 hn
    have hrange := h.ordinals_range _ _ (hget hmem)
    rw [List.mem_range'_1]
    omega
  refine (List.subperm_of_subset hnodup hsub).perm_of_length_le ?_
  rw [List.length_range', List.length_map, Std.ExtTreeMap.length_toList, h.ordinals_count]

theorem Valid.encode_injective {t : DiscoveryState} (hs : Valid s) (ht : Valid t) (h : s.encode = t.encode) : s = t := by
  have hreader : s.reader = t.reader := by
    have hrest := (List.append_inj h rfl).2
    have hlist := (List.append_inj hrest (s.reader.length_toList.trans t.reader.length_toList.symm)).1
    exact Vector.toList_inj.1 hlist
  have hback := hs.decode_encode
  rw [h, hreader, ht.decode_encode] at hback
  exact (Except.ok.inj hback).symm

/-- Whatever calls are made from the new state of a reader, what they leave can be written and read back. -/
theorem reachable_closed (crypto : Crypto) (reader : Bytes32) (calls : List Call) :
    let s := after (new reader) calls
    decode s.encode s.reader = .ok s ∧ s.encode.length ≤ maxStateBytes ∧ (∀ n ∈ s.counts, (UInt16.ofNat n).toNat = n) ∧
    (s.observations.toList.map fun entry => entry.2.toNat).Perm (List.range' 1 s.nextOrdinal.toNat) ∧
    (∀ (later : List Call) (id : RecordId) (n : UInt64), s.observations[id]? = some n → (after s later).observations[id]? = some n) ∧
    (∀ r ∈ s.learningIgnored, r ∈ s.preferences.bookmarks) ∧
    (∀ (tag : String) (value : Int), s.preferences.interests[tag]? = some value → -4 ≤ value ∧ value ≤ 4 ∧ value ≠ 0) ∧
    (∀ name query : String, s.preferences.searches[name]? = some query → ∃ parsed, Query.parse query = .ok parsed) ∧
    (∀ call : Call, ((exec call.run s).2 ≠ s → (exec call.run s).2.generation.toNat = s.generation.toNat + 1) ∧
      ∀ e, (exec call.run s).1 = .error e → (exec call.run s).2 = s) ∧
    ∀ (reader' : Bytes32) (calls' : List Call),
      let t := after (new reader') calls'
      (crypto.sha256 (stateDomain ++ s.encode) = crypto.sha256 (stateDomain ++ t.encode) → stateDomain ++ s.encode = stateDomain ++ t.encode) →
      s.digest crypto = t.digest crypto → s = t := by
  intro s
  have hvalid : Valid s := (after_spec _ _).2.2 (valid_new reader)
  refine ⟨hvalid.decode_encode, hvalid.length_encode_le, fun n hn => UInt16.toNat_ofNat_of_lt' (hvalid.counts_lt n hn), hvalid.ordinals_perm,
    fun later => (after_spec _ later).2.1, fun r hr => ?_, fun tag value h => (hvalid.interests tag value h).2, fun name query h => ?_, fun call => ?_, ?_⟩
  · exact Std.ExtTreeSet.mem_iff_contains.2 (hvalid.ignored r (Std.ExtTreeSet.mem_iff_contains.1 hr))
  · have hquery := (hvalid.searches name query h).2
    rw [validQuery, bind_eq_ok] at hquery
    obtain ⟨parsed, hparse, -⟩ := hquery
    exact ⟨parsed, hparse⟩
  · have hstep := stepped_call s call
    exact ⟨hstep.generation, hstep.failed⟩
  · intro reader' calls' t hfree hdigest
    have hvalid' : Valid t := (after_spec _ _).2.2 (valid_new reader')
    exact hvalid.encode_injective hvalid' (List.append_cancel_left (hfree hdigest))

end DiscoveryState

end Valhalla.Discovery
