import Valhalla.Discovery.Cursor

/-!
# Paging through frozen results

Runs of page calls. On the basis that a cursor was frozen on, no call fails as long as every reference is still selected, what was
shown and what is left are together the frozen references, and a page defers only what is crowded out. On another basis there is
no page, and nothing is lost.
-/

namespace Valhalla.Discovery
open Fallible FixedWidth Check
open Social (RecordId OwnerId PostRef View Archive EvaluationBasis Eligibility)

namespace Cursor

structure Call (crypto : Crypto) where
  archive : Archive crypto
  view : View
  state : DiscoveryState
  limit : Nat

variable {crypto : Crypto} {c c₀ : Cursor} {call : Call crypto}

def Call.now (call : Call crypto) : UInt64 := call.view.basis.now

def Call.run (call : Call crypto) : Fallible Error Cursor Page := page call.archive call.view call.state call.limit

def pages (c : Cursor) : List (Call crypto) → List (Except Error Page) × Cursor
  | [] => ([], c)
  | call :: calls =>
    let (result, next) := exec call.run c
    let (results, last) := pages next calls
    (result :: results, last)

/-- A call on the basis that a cursor was frozen on, soon enough, with every reference still selected. -/
structure Unchanged (c : Cursor) (call : Call crypto) : Prop where
  age : call.now.toNat ≤ c.basis.now.toNat + maxCursorAgeSeconds
  current : c.isCurrent crypto call.view.basis call.state = true
  selected : ∃ current, c.selection call.archive call.view call.state = .ok current ∧ ∀ r ∈ c.refs, ∃ hit ∈ current.hits, hit.reference = r

structure Steady (c : Cursor) (call : Call crypto) : Prop extends Unchanged c call where
  room : 0 < call.limit ∧ call.limit ≤ maxPage

structure Left (c₀ c : Cursor) : Prop where
  same : c = { c₀ with refs := c.refs, lastTime := c.lastTime }
  refs : c.refs.Sublist c₀.refs

theorem Left.refl : Left c c := ⟨rfl, List.Sublist.refl _⟩

theorem Left.trans {c₁ : Cursor} (h : Left c₀ c₁) (h' : Left c₁ c) : Left c₀ c := by
  refine ⟨?_, h'.refs.trans h.refs⟩
  rw [h'.same, h.same]

theorem Steady.left (h : Steady c₀ call) (hleft : Left c₀ c) : Steady c call := by
  obtain ⟨⟨hage, hcurrent, current, hselect, hselected⟩, hroom⟩ := h
  have hsubset := hleft.refs.subset
  rw [hleft.same]
  exact ⟨⟨hage, hcurrent, current, hselect, fun r hr => hselected r (hsubset hr)⟩, hroom⟩

/-! ### One page -/

theorem find_of_mem {l : List Hit} {hit : Hit} (hnodup : (l.map (·.reference)).Nodup) (hmem : hit ∈ l) :
    l.find? (fun h => decide (h.reference = hit.reference)) = some hit := by
  cases hfind : l.find? fun h => decide (h.reference = hit.reference) with
  | none => exact absurd (decide_eq_true rfl) (List.find?_eq_none.1 hfind hit hmem)
  | some other =>
    have hsome := List.find?_some hfind
    have hsame : other.reference = hit.reference := of_decide_eq_true hsome
    rw [List.inj_on_of_nodup_map hnodup (List.mem_of_find?_eq_some hfind) hmem hsame]

theorem exists_found {l : List Hit} {refs : List PostRef} (h : ∀ r ∈ refs, ∃ hit ∈ l, hit.reference = r) :
    ∃ found : List Hit, found.map (·.reference) = refs ∧ ∀ hit ∈ found, hit ∈ l := by
  induction refs with
  | nil => exact ⟨[], rfl, fun _ h => (List.not_mem_nil h).elim⟩
  | cons r refs ih =>
    rw [List.forall_mem_cons] at h
    obtain ⟨hit, hmem, rfl⟩ := h.1
    obtain ⟨found, rfl, hfound⟩ := ih h.2
    exact ⟨hit :: found, rfl, List.forall_mem_cons.2 ⟨hmem, hfound⟩⟩

theorem nodup_selection {archive : Archive crypto} {view : View} {state : DiscoveryState} {current : Page}
    (h : c.selection archive view state = .ok current) : (current.hits.map (·.reference)).Nodup := by
  rw [selection, bind_eq_ok] at h
  obtain ⟨fresh, -, hselect⟩ := h
  refine DiscoverySnapshot.nodup_select (fun hshort => absurd hshort.2 (by decide)) ?_ hselect
  rw [fullCandidates, Bool.or_eq_true]
  exact .inr (by decide)

theorem without_perm {refs : List PostRef} {hits : List Hit} (hnodup : refs.Nodup) (hsub : (hits.map (·.reference)).Sublist refs) :
    (hits.map (·.reference) ++ without refs hits).Perm refs := by
  have hshown : (refs.filter fun r => (hits.map (·.reference)).contains r).Perm (hits.map (·.reference)) := by
    refine (List.perm_ext_iff_of_nodup (hnodup.filter _) (hnodup.sublist hsub)).2 fun r => ?_
    rw [List.mem_filter, List.contains_iff_mem]
    exact ⟨And.right, fun hmem => ⟨hsub.subset hmem, hmem⟩⟩
  exact (hshown.symm.append_right _).trans (List.filter_append_perm _ _)

theorem without_take {found : List Hit} {limit : Nat} (hnodup : (found.map (·.reference)).Nodup) :
    (found.take limit).map (·.reference) ++ without (found.map (·.reference)) (found.take limit) = found.map (·.reference) := by
  have hsplit : found.map (·.reference) = (found.take limit).map (·.reference) ++ (found.drop limit).map (·.reference) := by
    rw [← List.map_append, List.take_append_drop]
  rw [hsplit, List.nodup_append] at hnodup
  have hfirst : without ((found.take limit).map (·.reference)) (found.take limit) = [] := by
    refine List.filter_eq_nil_iff.2 fun r hr => ?_
    rw [List.contains_iff_mem.2 hr]
    exact Bool.false_ne_true
  have hrest : without ((found.drop limit).map (·.reference)) (found.take limit) = (found.drop limit).map (·.reference) := by
    refine List.filter_eq_self.2 fun r hr => ?_
    rw [Bool.not_eq_true', ← Bool.not_eq_true, List.contains_iff_mem]
    exact fun hmem => hnodup.2.2 r hmem r hr rfl
  rw [hsplit, without, List.filter_append]
  exact congrArg (_ ++ ·) (by rw [← without, ← without, hfirst, hrest, List.nil_append])

/-- A page of what is left, and what it leaves. -/
structure Turned (c : Cursor) (call : Call crypto) (page : Page) (next : Cursor) : Prop where
  shown : ∃ (current : Page) (found : List Hit), c.selection call.archive call.view call.state = .ok current ∧
    found.map (·.reference) = c.refs ∧ (∀ hit ∈ found, hit ∈ current.hits) ∧ Shown c.mode call.limit found page.hits
  matched : page.matched = c.matched
  coverage : page.coverage = c.coverage
  next : next = { c with lastTime := call.now, refs := without c.refs page.hits }

theorem turned_of_steady (h : Steady c call) (hclock : c.lastTime ≤ call.now) :
    ∃ page next, exec call.run c = (.ok page, next) ∧ Turned c call page next := by
  obtain ⟨current, hselect, hselected⟩ := h.selected
  obtain ⟨found, hrefs, hfound⟩ := exists_found hselected
  have hfind := fun hit hmem => find_of_mem (nodup_selection hselect) (hfound hit hmem)
  have hwalk : walk current.hits c.mode call.limit (found.map (·.reference)) .nothing [] = .ok _ := walk_found hfind tracks_nothing h.room.1
  rw [hrefs, List.nil_append] at hwalk
  refine ⟨⟨_, c.matched, c.coverage⟩, _, exec_page_ok.2 ⟨h.room, hclock, ?_, h.current, ⟨current, hselect, hwalk⟩, rfl, rfl, rfl⟩,
    ⟨current, found, hselect, hrefs, hfound, shown_pick h.room.1⟩, rfl, rfl, rfl⟩
  have hage : call.view.basis.now.toNat ≤ c.basis.now.toNat + maxCursorAgeSeconds := h.age
  omega

namespace Turned
variable {page : Page} {next : Cursor}

theorem left (h : Turned c call page next) : Left c next := by
  rw [h.next]
  exact ⟨rfl, List.filter_sublist⟩

theorem perm (h : Turned c call page next) (hnodup : c.refs.Nodup) : (page.hits.map (·.reference) ++ next.refs).Perm c.refs := by
  obtain ⟨current, found, -, hrefs, -, hshown⟩ := h.shown
  rw [h.next]
  exact without_perm hnodup (hrefs ▸ hshown.ordered.map _)

theorem append (h : Turned c call page next) (hnodup : c.refs.Nodup) (hmode : c.mode ≠ some .discover) :
    page.hits.map (·.reference) ++ next.refs = c.refs := by
  obtain ⟨current, found, -, hrefs, -, hshown⟩ := h.shown
  rw [h.next, hshown.plain hmode, ← hrefs]
  exact without_take (hrefs ▸ hnodup)

theorem length_lt (h : Turned c call page next) (hnodup : c.refs.Nodup) (hne : c.refs ≠ []) : next.refs.length < c.refs.length := by
  obtain ⟨current, found, -, hrefs, -, hshown⟩ := h.shown
  have hhits : page.hits ≠ [] := hshown.progress fun hnil => hne (by rw [← hrefs, hnil, List.map_nil])
  have hlength := (h.perm hnodup).length_eq
  rw [List.length_append, List.length_map] at hlength
  have hpos := List.length_pos_iff.2 hhits
  omega

end Turned

/-! ### Runs -/

structure Complete (c : Cursor) (calls : List (Call crypto)) (given : List Page) : Prop where
  results : (pages c calls).1 = given.map .ok
  left : Left c (pages c calls).2
  /-- Every frozen reference was given once or is left. -/
  perm : (given.flatMap (fun page => page.hits.map (·.reference)) ++ (pages c calls).2.refs).Perm c.refs
  ordered : c.mode ≠ some .discover → given.flatMap (fun page => page.hits.map (·.reference)) ++ (pages c calls).2.refs = c.refs
  finished : c.refs.length ≤ calls.length → (pages c calls).2.refs = []

theorem complete_of_steady {calls : List (Call crypto)} (hnodup : c.refs.Nodup) (hsteady : ∀ call ∈ calls, Steady c call)
    (hclock : (c.lastTime :: calls.map Call.now).IsChain (· ≤ ·)) : ∃ given, Complete c calls given := by
  induction calls generalizing c with
  | nil =>
    refine ⟨[], rfl, .refl, List.Perm.refl _, fun _ => rfl, fun hlength => ?_⟩
    exact List.eq_nil_of_length_eq_zero (Nat.le_zero.1 hlength)
  | cons call calls ih =>
    rw [List.forall_mem_cons] at hsteady
    rw [List.map_cons, List.isChain_cons_cons] at hclock
    obtain ⟨page, next, hexec, hturned⟩ := turned_of_steady hsteady.1 hclock.1
    have hleft := hturned.left
    have hnext : next.refs.Nodup := hnodup.sublist hleft.refs
    have htime : next.lastTime = call.now := by rw [hturned.next]
    obtain ⟨given, hcomplete⟩ := ih hnext (fun other hother => (hsteady.2 other hother).left hleft) (htime ▸ hclock.2)
    have hmode : next.mode = c.mode := by rw [hturned.next]
    have hpages : pages c (call :: calls) = (.ok page :: (pages next calls).1, (pages next calls).2) := by rw [pages, hexec]
    refine ⟨page :: given, ?_, ?_, ?_, fun hother => ?_, fun hlength => ?_⟩
    · rw [hpages, hcomplete.results, List.map_cons]
    · rw [hpages]
      exact hleft.trans hcomplete.left
    · rw [hpages, List.flatMap_cons, List.append_assoc]
      exact (hcomplete.perm.append_left _).trans (hturned.perm hnodup)
    · rw [hpages, List.flatMap_cons, List.append_assoc, hcomplete.ordered (hmode ▸ hother)]
      exact hturned.append hnodup hother
    · rw [hpages]
      refine hcomplete.finished ?_
      by_cases hne : c.refs = []
      · have hnil := hleft.refs.length_le
        rw [hne, List.length_nil] at hnil
        omega
      · have hless := hturned.length_lt hnodup hne
        rw [List.length_cons] at hlength
        omega

theorem turned_in_run {before after : List (Call crypto)} (hsteady : ∀ other ∈ before ++ call :: after, Steady c other)
    (hclock : (c.lastTime :: (before ++ call :: after).map Call.now).IsChain (· ≤ ·)) :
    ∃ page next, exec call.run (pages c before).2 = (.ok page, next) ∧ Turned (pages c before).2 call page next := by
  induction before generalizing c with
  | nil =>
    rw [List.nil_append, List.map_cons, List.isChain_cons_cons] at hclock
    exact turned_of_steady (hsteady call List.mem_cons_self) hclock.1
  | cons first before ih =>
    rw [List.cons_append, List.forall_mem_cons] at hsteady
    rw [List.cons_append, List.map_cons, List.isChain_cons_cons] at hclock
    obtain ⟨page, next, hexec, hturned⟩ := turned_of_steady hsteady.1 hclock.1
    have htime : next.lastTime = first.now := by rw [hturned.next]
    have hpages : (pages c (first :: before)).2 = (pages next before).2 := by rw [pages, hexec]
    rw [hpages]
    exact ih (fun other hother => (hsteady.2 other hother).left hturned.left) (htime ▸ hclock.2)

/-! ### Refusals -/

/-- A reference is gone that comes up before there are enough hits. -/
structure Lost (c : Cursor) (call : Call crypto) : Prop where
  reached : ∃ (current : Page) (found : List Hit) (r : PostRef) (rest : List PostRef), c.selection call.archive call.view call.state = .ok current ∧
    c.refs = found.map (·.reference) ++ r :: rest ∧ (∀ hit ∈ found, hit ∈ current.hits) ∧ (∀ hit ∈ current.hits, hit.reference ≠ r) ∧
    (Picking.pick (crowded c.mode) [] found).length < call.limit

/-- Something that a page depends on is not as it was. -/
inductive Changed (c : Cursor) (call : Call crypto) : Prop
  | clock (h : call.now < c.lastTime)
  | age (h : c.basis.now.toNat + maxCursorAgeSeconds < call.now.toNat)
  | archive (h : call.view.basis.archiveRoot ≠ c.basis.archiveRoot)
  | limits (h : call.view.basis.limitsDigest ≠ c.basis.limitsDigest)
  | eligibility (h : call.view.basis.eligibilityDigest ≠ c.basis.eligibilityDigest)
  | policy (h : call.view.basis.policyVersion ≠ c.basis.policyVersion)
  | state (h : call.state.digest crypto ≠ c.state)
  | lost (h : Lost c call)

theorem isCurrent_iff {b : EvaluationBasis} {state : DiscoveryState} : c.isCurrent crypto b state = true ↔
    b.archiveRoot = c.basis.archiveRoot ∧ b.limitsDigest = c.basis.limitsDigest ∧ b.eligibilityDigest = c.basis.eligibilityDigest ∧
      b.policyVersion = c.basis.policyVersion ∧ state.digest crypto = c.state := by
  simp only [isCurrent, Bool.not_eq_true', Bool.or_eq_false_iff, bne_eq_false_iff_eq, and_assoc]

theorem refused_of_changed (h : Changed c call) : ∃ e, (exec call.run c).1 = .error e ∧ (exec call.run c).2.refs = c.refs := by
  rcases hexec : exec call.run c with ⟨e | page, next⟩
  · exact ⟨e, rfl, exec_page_error hexec⟩
  · exfalso
    obtain ⟨hroom, hclock, hage, hcurrent, ⟨current, hselect, hwalk⟩, -, -, -⟩ := exec_page_ok.1 hexec
    obtain ⟨harchive, hlimits, heligibility, hpolicy, hstate⟩ := isCurrent_iff.1 hcurrent
    cases h with
    | clock h => exact absurd hclock (UInt64.not_le.2 h)
    | age h =>
      have hlate : c.basis.now.toNat + maxCursorAgeSeconds < call.view.basis.now.toNat := h
      omega
    | archive h => exact h harchive
    | limits h => exact h hlimits
    | eligibility h => exact h heligibility
    | policy h => exact h hpolicy
    | state h => exact h hstate
    | lost h =>
      obtain ⟨current', found, r, rest, hselect', hrefs, hfound, hgone, hfew⟩ := h.reached
      rw [hselect, Except.ok.injEq] at hselect'
      subst hselect'
      have hfind := fun hit hmem => find_of_mem (nodup_selection hselect) (hfound hit hmem)
      have hnone : current.hits.find? (fun h => decide (h.reference = r)) = none := by
        refine List.find?_eq_none.2 fun hit hmem => ?_
        rw [decide_eq_true_eq]
        exact hgone hit hmem
      have hstale : walk current.hits c.mode call.limit (found.map (·.reference) ++ r :: rest) .nothing [] = .error .stale :=
        walk_lost hfind hnone tracks_nothing hfew
      rw [hrefs, hstale] at hwalk
      cases hwalk

/-! ### What a basis stands for -/

/-- Two inputs that are not confused by their digests. -/
def Apart (crypto : Crypto) (a b : List UInt8) : Prop := crypto.sha256 a = crypto.sha256 b → a = b

def rootInput (a : Archive crypto) : List UInt8 :=
  Social.rootDomain ++ (toBe a.realm.value ++ (toBe (UInt32.ofNat a.records.size) ++ a.records.keys.flatMap Social.putId))

def limitsInput (limits : Social.Limits) : List UInt8 :=
  Social.limitsDomain ++ [limits.records, limits.controlReserve, limits.dataPerOwner, limits.dataPerWriter,
    limits.controlPerOwner, limits.pending, limits.pendingPerSigner].flatMap fun value => toBe (UInt64.ofNat value)

def eligibilityInput (eligibility : Eligibility) : List UInt8 :=
  Social.eligibilityDomain ++ eligibility.owners.flatMap fun owner => owner.bytes.toList

theorem putId_ne_nil {kind : Social.IdKind} (id : Social.Id kind) : Social.putId id ≠ [] := by
  refine List.ne_nil_of_length_pos ?_
  rw [Social.putId, Vector.length_toList]
  decide

theorem eq_of_rootInput {a b : Archive crypto} (h : rootInput a = rootInput b) : a.realm = b.realm ∧ a.records.keys = b.records.keys := by
  obtain ⟨hrealm, hrest⟩ := Social.codec_realm.append_inj trivial trivial (List.append_cancel_left h)
  obtain ⟨-, hkeys⟩ := List.append_inj hrest ((length_toBe _).trans (length_toBe _).symm)
  exact ⟨hrealm, Social.codec_id.flatMap_inj putId_ne_nil (fun _ _ => trivial) (fun _ _ => trivial) hkeys⟩

theorem eq_of_eligibilityInput {e e' : Eligibility} (h : eligibilityInput e = eligibilityInput e') : e.owners = e'.owners :=
  Social.codec_id.flatMap_inj putId_ne_nil (fun _ _ => trivial) (fun _ _ => trivial) (List.append_cancel_left h)

theorem limits_le {limits : Social.Limits} (h : limits.check = .ok limits) : ∀ n ∈ [limits.records, limits.controlReserve, limits.dataPerOwner,
    limits.dataPerWriter, limits.controlPerOwner, limits.pending, limits.pendingPerSigner], n ≤ Social.maxRecords := by
  simp only [Social.Limits.check, bind_eq_ok, require_eq_ok, Bool.not_eq_true', Bool.or_eq_false_iff, decide_eq_false_iff_not, not_lt, not_le] at h
  obtain ⟨_, hbounds, -⟩ := h
  simp only [List.forall_mem_cons]
  refine ⟨?_, ?_, ?_, ?_, ?_, ?_, ?_, List.forall_mem_nil _⟩ <;> omega

theorem eq_of_limitsInput {limits limits' : Social.Limits} (hlimits : limits.check = .ok limits) (hlimits' : limits'.check = .ok limits')
    (h : limitsInput limits = limitsInput limits') : limits = limits' := by
  have hback : ∀ {l : List Nat}, (∀ n ∈ l, n ≤ Social.maxRecords) → (l.map UInt64.ofNat).map UInt64.toNat = l := by
    intro l hl
    rw [List.map_map]
    refine (List.map_congr_left fun n hn => ?_).trans (List.map_id l)
    exact UInt64.toNat_ofNat_of_lt' (Nat.lt_of_le_of_lt (hl n hn) (by decide))
  have hflat := List.append_cancel_left h
  have hmap : ∀ l : List Nat, (l.flatMap fun value => toBe (UInt64.ofNat value)) = (l.map UInt64.ofNat).flatMap toBe := fun l => (List.flatMap_map _ _ l).symm
  rw [hmap, hmap] at hflat
  have hwords := (Codec.int Social.Error.bounds).flatMap_inj (fun n hnil => ?_) (fun _ _ => trivial) (fun _ _ => trivial) hflat
  · have hvalues := congrArg (List.map UInt64.toNat) hwords
    rw [hback (limits_le hlimits), hback (limits_le hlimits')] at hvalues
    cases limits
    cases limits'
    simp only [List.cons.injEq, and_true] at hvalues
    obtain ⟨rfl, rfl, rfl, rfl, rfl, rfl, rfl⟩ := hvalues
    rfl
  · have hlength := congrArg List.length hnil
    rw [length_toBe] at hlength
    exact absurd hlength (by decide)

/-- The digests of a basis tell what it was made from, unless two of the inputs are confused. -/
theorem changed_of_source {a₀ a : Archive crypto} {now₀ now : UInt64} {e₀ e : Eligibility} {s₀ s : DiscoveryState} {limit : Nat}
    (hbasis : c.basis = (View.new a₀ now₀ e₀).basis) (hstate : c.state = s₀.digest crypto) (hchecked₀ : a₀.limits.check = .ok a₀.limits)
    (hchecked : a.limits.check = .ok a.limits) (hvalid₀ : s₀.Valid) (hvalid : s.Valid) (hroot : Apart crypto (rootInput a) (rootInput a₀))
    (hlimits : Apart crypto (limitsInput a.limits) (limitsInput a₀.limits)) (heligibility : Apart crypto (eligibilityInput e) (eligibilityInput e₀))
    (hdigest : Apart crypto (stateDomain ++ s.encode) (stateDomain ++ s₀.encode))
    (h : a.realm ≠ a₀.realm ∨ a.records.keys ≠ a₀.records.keys ∨ a.limits ≠ a₀.limits ∨ e.owners ≠ e₀.owners ∨ s ≠ s₀) :
    Changed c ⟨a, View.new a now e, s, limit⟩ := by
  by_contra hnot
  have hsame : c.isCurrent crypto (View.new a now e).basis s = true := by
    refine isCurrent_iff.2 ⟨?_, ?_, ?_, ?_, ?_⟩
    · exact by_contra fun hne => hnot (.archive hne)
    · exact by_contra fun hne => hnot (.limits hne)
    · exact by_contra fun hne => hnot (.eligibility hne)
    · exact by_contra fun hne => hnot (.policy hne)
    · exact by_contra fun hne => hnot (.state hne)
  obtain ⟨harchive, hlimit, heligible, -, hcurrent⟩ := isCurrent_iff.1 hsame
  rw [hbasis] at harchive hlimit heligible
  rw [hstate] at hcurrent
  obtain ⟨hrealm, hkeys⟩ := eq_of_rootInput (hroot (Social.Id.mk.inj harchive))
  rcases h with hne | hne | hne | hne | hne
  · exact hne hrealm
  · exact hne hkeys
  · exact hne (eq_of_limitsInput hchecked hchecked₀ (hlimits hlimit))
  · exact hne (eq_of_eligibilityInput (heligibility heligible))
  · exact hne (hvalid.encode_injective hvalid₀ (List.append_cancel_left (hdigest hcurrent)))

/-! ### Cursors of a snapshot -/

variable {snapshot : DiscoverySnapshot} {query : Query} {filters : Filters} {mode : Option FeedMode} {budget : Budget}

theorem cursor_eq_ok (h : snapshot.cursor crypto query filters mode budget = .ok c) : ∃ page, snapshot.select query filters mode budget maxDocuments = .ok page ∧
    c = ⟨snapshot.basis, snapshot.state.digest crypto, snapshot.readerOwner, snapshot.visibility, query, filters, mode, page.hits.map (·.reference),
      snapshot.basis.now, page.coverage, page.matched, budget⟩ := by
  rw [DiscoverySnapshot.cursor, bind_eq_ok] at h
  obtain ⟨page, hselect, h⟩ := h
  cases h
  exact ⟨page, hselect, rfl⟩

theorem nodup_cursor (h : snapshot.cursor crypto query filters mode budget = .ok c) : c.refs.Nodup := by
  obtain ⟨page, hselect, rfl⟩ := cursor_eq_ok h
  refine DiscoverySnapshot.nodup_select (fun hshort => absurd hshort.2 (by decide)) ?_ hselect
  rw [fullCandidates, Bool.or_eq_true]
  exact .inr (by decide)

/-- On the basis of a cursor every frozen reference is given once, page by page; on another basis nothing is taken. -/
theorem frozen_paging (hcursor : snapshot.cursor crypto query filters mode budget = .ok c₀) :
    c₀.refs.Nodup ∧
    (∀ calls : List (Call crypto), (∀ call ∈ calls, Steady c₀ call) → (c₀.lastTime :: calls.map Call.now).IsChain (· ≤ ·) →
      (∃ given, Complete c₀ calls given) ∧
      ∀ (before after : List (Call crypto)) (call : Call crypto), calls = before ++ call :: after →
        ∃ page next, exec call.run (pages c₀ before).2 = (.ok page, next) ∧ Turned (pages c₀ before).2 call page next) ∧
    (∀ (c : Cursor) (call : Call crypto), Changed c call → ∃ e, (exec call.run c).1 = .error e ∧ (exec call.run c).2.refs = c.refs) ∧
    ∀ (a₀ a : Archive crypto) (now₀ now : UInt64) (e₀ e : Eligibility) (s : DiscoveryState) (limit : Nat),
      snapshot.basis = (View.new a₀ now₀ e₀).basis → a₀.limits.check = .ok a₀.limits → a.limits.check = .ok a.limits →
      snapshot.state.Valid → s.Valid → Apart crypto (rootInput a) (rootInput a₀) → Apart crypto (limitsInput a.limits) (limitsInput a₀.limits) →
      Apart crypto (eligibilityInput e) (eligibilityInput e₀) → Apart crypto (stateDomain ++ s.encode) (stateDomain ++ snapshot.state.encode) →
      a.realm ≠ a₀.realm ∨ a.records.keys ≠ a₀.records.keys ∨ a.limits ≠ a₀.limits ∨ e.owners ≠ e₀.owners ∨ s ≠ snapshot.state →
      ∀ c, Left c₀ c → Changed c ⟨a, View.new a now e, s, limit⟩ := by
  have hnodup := nodup_cursor hcursor
  refine ⟨hnodup, fun calls hsteady hclock => ⟨complete_of_steady hnodup hsteady hclock, ?_⟩, fun c call => refused_of_changed, ?_⟩
  · rintro before after call rfl
    exact turned_in_run hsteady hclock
  · intro a₀ a now₀ now e₀ e s limit hbasis hchecked₀ hchecked hvalid₀ hvalid hroot hlimits heligibility hdigest hchange c hleft
    obtain ⟨page, -, rfl⟩ := cursor_eq_ok hcursor
    have hsame : c.basis = (View.new a₀ now₀ e₀).basis := by
      rw [hleft.same]
      exact hbasis
    have hstate : c.state = snapshot.state.digest crypto := by rw [hleft.same]
    exact changed_of_source hsame hstate hchecked₀ hchecked hvalid₀ hvalid hroot hlimits heligibility hdigest hchange

/-! ### The limit of a page -/

theorem new_fields {archive : Archive crypto} {view : View} {owner : OwnerId} {state : DiscoveryState} {visibility : Visibility}
    (h : DiscoverySnapshot.new archive view owner state visibility = .ok snapshot) :
    snapshot.basis = view.basis ∧ snapshot.readerOwner = owner ∧ snapshot.state = state ∧ snapshot.visibility = visibility := by
  simp only [DiscoverySnapshot.new, bind_eq_ok] at h
  obtain ⟨_, -, originals, -, h⟩ := h
  cases h
  exact ⟨rfl, rfl, rfl, rfl⟩

theorem unchanged_of_new {archive : Archive crypto} {view : View} {owner : OwnerId} {state : DiscoveryState} {visibility : Visibility} {limit : Nat}
    (h : DiscoverySnapshot.new archive view owner state visibility = .ok snapshot)
    (hcursor : snapshot.cursor crypto query filters mode budget = .ok c) : Unchanged c ⟨archive, view, state, limit⟩ := by
  obtain ⟨page, hselect, rfl⟩ := cursor_eq_ok hcursor
  obtain ⟨hbasis, hreader, hstate, hvisibility⟩ := new_fields h
  refine ⟨?_, isCurrent_iff.2 ⟨?_, ?_, ?_, ?_, ?_⟩, page, ?_, fun r hr => ?_⟩
  · rw [hbasis]
    exact Nat.le_add_right _ _
  · rw [hbasis]
  · rw [hbasis]
  · rw [hbasis]
  · rw [hbasis]
  · rw [hstate]
  · rw [selection, bind_eq_ok]
    exact ⟨snapshot, by rw [hreader, hvisibility]; exact h, hselect⟩
  · exact List.mem_map.1 hr

def sampleView : View := View.new Social.sampleArchive 0 ⟨[], rfl⟩

def sampleReader : OwnerId := ⟨Social.sampleOwner.bytes⟩

def sampleState : DiscoveryState := .new (Vector.replicate 32 1)

def sampleQuery : Query := ⟨"", [], by decide, by unfold Query.parseTerms; rfl⟩

theorem sample_isOk : (DiscoverySnapshot.new Social.sampleArchive sampleView sampleReader sampleState .committed).isOk = true := by
  rw [sampleView, View.new, Social.sampleArchive_evidence]
  decide +kernel

/-- A page of no hits is out of bounds, whatever a cursor has. -/
theorem zero_limit_refused : ¬ ∀ (snapshot : DiscoverySnapshot) (c₀ : Cursor) (calls : List (Call Social.sampleCrypto)),
    DiscoverySnapshot.new Social.sampleArchive sampleView sampleReader sampleState .committed = .ok snapshot →
    snapshot.cursor Social.sampleCrypto sampleQuery .unfiltered none .standard = .ok c₀ →
    (∀ call ∈ calls, Unchanged c₀ call) → (c₀.lastTime :: calls.map Call.now).IsChain (· ≤ ·) →
    ∀ result ∈ (pages c₀ calls).1, ∃ page, result = .ok page := by
  intro hclaim
  cases hnew : DiscoverySnapshot.new Social.sampleArchive sampleView sampleReader sampleState .committed with
  | error e =>
    have hok := sample_isOk
    rw [hnew] at hok
    cases hok
  | ok snapshot =>
    have hselect : snapshot.select sampleQuery .unfiltered none .standard maxDocuments = .ok _ :=
      DiscoverySnapshot.select_eq_ok.2 ⟨⟨rfl, rfl, by decide, le_refl _⟩, rfl⟩
    obtain ⟨c₀, hcursor⟩ : ∃ c₀, snapshot.cursor Social.sampleCrypto sampleQuery .unfiltered none .standard = .ok c₀ := by
      rw [DiscoverySnapshot.cursor, hselect]
      exact ⟨_, rfl⟩
    have hunchanged : ∀ call ∈ [(⟨Social.sampleArchive, sampleView, sampleState, 0⟩ : Call Social.sampleCrypto)], Unchanged c₀ call := by
      intro call hcall
      rw [List.mem_singleton.1 hcall]
      exact unchanged_of_new hnew hcursor
    have hclock : [c₀.lastTime, sampleView.basis.now].IsChain (· ≤ ·) := by
      obtain ⟨_, -, rfl⟩ := cursor_eq_ok hcursor
      rw [(new_fields hnew).1]
      exact List.isChain_cons_cons.2 ⟨UInt64.le_refl _, .singleton _⟩
    obtain ⟨page, hpage⟩ := hclaim snapshot c₀ _ hnew hcursor hunchanged hclock _ List.mem_cons_self
    cases hpage

def sampleHit (n : UInt8) : Hit where
  reference := ⟨⟨Vector.replicate 32 n⟩, ⟨Vector.replicate 32 n⟩⟩
  owner := sampleReader
  agent := none
  root := ⟨Vector.replicate 32 n⟩
  placement := .profile
  text := "post"
  facets := []
  state := .committed
  reply := false
  repostedBy := []
  firstObserved := some 1
  why := .replicate 6 0

/-- Two posts that were seen together. -/
def sampleSnapshot : DiscoverySnapshot where
  rows := [⟨sampleHit 1, true, ∅⟩, ⟨sampleHit 2, true, ∅⟩]
  basis := sampleView.basis
  state := sampleState
  readerOwner := sampleReader
  visibility := .committed
  followed := []
  coverage := ⟨3, 2, true, true, true, 0, 0, 0⟩
  learnedTopics := ∅
  ascending := by decide +kernel

theorem frozen_paging_sample : ∃ c₀ : Cursor, sampleSnapshot.cursor Social.sampleCrypto sampleQuery .unfiltered none .standard = .ok c₀ ∧
    c₀.matched = 2 ∧ c₀.refs.Nodup := by
  have hmatched : ((sampleSnapshot.cursor Social.sampleCrypto sampleQuery .unfiltered none .standard).toOption.map (·.matched)) = some 2 := by
    decide +kernel
  cases hcursor : sampleSnapshot.cursor Social.sampleCrypto sampleQuery .unfiltered none .standard with
  | error e =>
    rw [hcursor] at hmatched
    cases hmatched
  | ok c₀ =>
    rw [hcursor] at hmatched
    exact ⟨c₀, rfl, Option.some.inj hmatched, (frozen_paging hcursor).1⟩

end Cursor

end Valhalla.Discovery
