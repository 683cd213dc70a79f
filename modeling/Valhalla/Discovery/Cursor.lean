import Valhalla.Discovery.Closed
import Valhalla.Discovery.Search

/-!
# Frozen result pages (`Cursor` of `vhalla-discovery`)

A cursor freezes the references of one selection and the basis that it was made on. Each page is selected anew on that basis, and
what it shows of the frozen references is taken from them; where the basis is another one or a reference is gone, the
page is refused and nothing is taken.
-/

namespace Valhalla.Discovery
open Fallible Check
open Social (RecordId OwnerId AgentId PostRef View Archive EvaluationBasis)

def maxCursorAgeSeconds : Nat := 300

structure Cursor where
  basis : EvaluationBasis
  state : Bytes32
  owner : OwnerId
  visibility : Visibility
  query : Query
  filters : Filters
  mode : Option FeedMode
  refs : List PostRef
  lastTime : UInt64
  coverage : Coverage
  /-- `matches` -/
  matched : Nat
  budget : Budget

def DiscoverySnapshot.cursor (crypto : Crypto) (snapshot : DiscoverySnapshot) (query : Query) (filters : Filters) (mode : Option FeedMode)
    (budget : Budget) : Except Error Cursor := do
  let page ← snapshot.select query filters mode budget maxDocuments
  pure
    { basis := snapshot.basis
      state := snapshot.state.digest crypto
      owner := snapshot.readerOwner
      visibility := snapshot.visibility
      query
      filters
      mode
      refs := page.hits.map (·.reference)
      lastTime := snapshot.basis.now
      coverage := page.coverage
      matched := page.matched
      budget }

namespace Cursor

def admitHit (mode : Option FeedMode) (shown : Diversity) (hit : Hit) : Option Diversity :=
  if mode = some .discover then shown.admitHit hit else some shown

/-- The loop over the frozen references, until there are enough hits. No two hits have one reference, so that the first one
is the one that a map by reference has. -/
def walk (current : List Hit) (mode : Option FeedMode) (limit : Nat) : List PostRef → Diversity → List Hit → Except Error (List Hit)
  | [], _, hits => .ok hits
  | reference :: refs, shown, hits =>
    match current.find? fun hit => decide (hit.reference = reference) with
    | none => .error .stale
    | some hit =>
      match admitHit mode shown hit with
      | none => walk current mode limit refs shown hits
      | some shown =>
        if (hits ++ [hit]).length = limit then .ok (hits ++ [hit]) else walk current mode limit refs shown (hits ++ [hit])

variable {crypto : Crypto}

def isCurrent (crypto : Crypto) (cursor : Cursor) (b : EvaluationBasis) (state : DiscoveryState) : Bool :=
  !(b.archiveRoot != cursor.basis.archiveRoot || b.limitsDigest != cursor.basis.limitsDigest ||
    b.eligibilityDigest != cursor.basis.eligibilityDigest || b.policyVersion != cursor.basis.policyVersion || state.digest crypto != cursor.state)

def selection (cursor : Cursor) (archive : Archive crypto) (view : View) (state : DiscoveryState) : Except Error Page := do
  let fresh ← DiscoverySnapshot.new archive view cursor.owner state cursor.visibility
  fresh.select cursor.query cursor.filters cursor.mode cursor.budget maxDocuments

def page (archive : Archive crypto) (view : View) (state : DiscoveryState) (limit : Nat) : Fallible Error Cursor Page := do
  examine fun _ => require .bounds !(limit == 0 || decide (limit > maxPage))
  examine fun cursor => require .clock !decide (view.basis.now < cursor.lastTime)
  update fun cursor => { cursor with lastTime := view.basis.now }
  examine fun cursor => require .stale !decide (view.basis.now.toNat - cursor.basis.now.toNat > maxCursorAgeSeconds)
  examine fun cursor => require .stale (cursor.isCurrent crypto view.basis state)
  let current ← examine fun cursor => cursor.selection archive view state
  let hits ← examine fun cursor => walk current.hits cursor.mode limit cursor.refs .nothing []
  update fun cursor => { cursor with refs := cursor.refs.filter fun reference => !(hits.map (·.reference)).contains reference }
  Fallible.view fun cursor => ⟨hits, cursor.matched, cursor.coverage⟩

/-! ### What a page call does -/

section
variable {archive : Archive crypto} {view : View} {state : DiscoveryState} {limit : Nat} {c c' : Cursor} {page' : Page}

def without (refs : List PostRef) (hits : List Hit) : List PostRef :=
  refs.filter fun reference => !(hits.map (·.reference)).contains reference

structure Paged (archive : Archive crypto) (view : View) (state : DiscoveryState) (limit : Nat) (c : Cursor) (page : Page) (c' : Cursor) : Prop where
  room : 0 < limit ∧ limit ≤ maxPage
  clock : c.lastTime ≤ view.basis.now
  age : view.basis.now.toNat - c.basis.now.toNat ≤ maxCursorAgeSeconds
  current : c.isCurrent crypto view.basis state = true
  walked : ∃ current, c.selection archive view state = .ok current ∧ walk current.hits c.mode limit c.refs .nothing [] = .ok page.hits
  matched : page.matched = c.matched
  coverage : page.coverage = c.coverage
  next : c' = { c with lastTime := view.basis.now, refs := without c.refs page.hits }

theorem exec_page_ok : exec (page archive view state limit) c = (.ok page', c') ↔ Paged archive view state limit c page' c' := by
  simp only [page, exec_bind_eq_ok, exec_examine, exec_update, exec_view, Prod.mk.injEq, require_eq_ok, Except.ok.injEq]
  constructor
  · rintro ⟨_, _, ⟨hroom, rfl⟩, _, _, ⟨hclock, rfl⟩, _, _, ⟨-, rfl⟩, _, _, ⟨hage, rfl⟩, _, _, ⟨hcurrent, rfl⟩, current, _, ⟨hselect, rfl⟩, hits, _,
      ⟨hwalk, rfl⟩, _, _, ⟨-, rfl⟩, rfl, rfl⟩
    rw [Bool.not_eq_true', Bool.or_eq_false_iff, beq_eq_false_iff_ne, decide_eq_false_iff_not, not_lt] at hroom
    rw [Bool.not_eq_true', decide_eq_false_iff_not] at hclock hage
    exact ⟨⟨Nat.pos_of_ne_zero hroom.1, hroom.2⟩, UInt64.not_lt.1 hclock, not_lt.1 hage, hcurrent, ⟨current, hselect, hwalk⟩, rfl, rfl, rfl⟩
  · rintro ⟨hroom, hclock, hage, hcurrent, ⟨current, hselect, hwalk⟩, hmatched, hcoverage, rfl⟩
    refine ⟨(), c, ⟨?_, rfl⟩, (), c, ⟨?_, rfl⟩, (), _, ⟨⟨⟩, rfl⟩, (), _, ⟨?_, rfl⟩, (), _, ⟨hcurrent, rfl⟩, current, _, ⟨hselect, rfl⟩, page'.hits, _,
      ⟨hwalk, rfl⟩, (), _, ⟨⟨⟩, rfl⟩, ?_, rfl⟩
    · rw [Bool.not_eq_true', Bool.or_eq_false_iff, beq_eq_false_iff_ne, decide_eq_false_iff_not, not_lt]
      exact ⟨Nat.pos_iff_ne_zero.1 hroom.1, hroom.2⟩
    · rw [Bool.not_eq_true', decide_eq_false_iff_not]
      exact UInt64.not_lt.2 hclock
    · rw [Bool.not_eq_true', decide_eq_false_iff_not]
      exact not_lt.2 hage
    · rw [← hmatched, ← hcoverage]

theorem exec_page_error {e : Error} (h : exec (page archive view state limit) c = (.error e, c')) : c'.refs = c.refs := by
  simp only [page, exec_bind_eq_error, exec_examine, exec_update, exec_view, Prod.mk.injEq, reduceCtorEq, false_and, false_or, and_false, exists_false,
    or_false] at h
  rcases h with ⟨-, rfl⟩ | ⟨_, _, ⟨-, rfl⟩, ⟨-, rfl⟩ | ⟨_, _, ⟨-, rfl⟩, _, _, ⟨-, rfl⟩, ⟨-, rfl⟩ | ⟨_, _, ⟨-, rfl⟩, ⟨-, rfl⟩ | ⟨_, _, ⟨-, rfl⟩,
    ⟨-, rfl⟩ | ⟨_, _, ⟨-, rfl⟩, -, rfl⟩⟩⟩⟩⟩
  all_goals rfl

end

/-! ### What is shown of a selection -/

section
variable {mode : Option FeedMode} {limit : Nat} {current hits found front back : List Hit} {shown : Diversity} {hit : Hit}

/-- Whether the hits that are shown leave no place for another: two of its owner, or one of its conversation. -/
def crowded (mode : Option FeedMode) (hits : List Hit) (hit : Hit) : Bool :=
  mode == some .discover && ((hits.filter fun h => h.owner == hit.owner).length == 2 || hits.any fun h => h.root == hit.root)

structure Tracks (mode : Option FeedMode) (shown : Diversity) (hits : List Hit) : Prop where
  owners : mode = some .discover → ∀ o : OwnerId, shown.owners[o]?.getD 0 = (hits.filter fun h => h.owner == o).length
  roots : mode = some .discover → ∀ r : RecordId, shown.roots.contains r = hits.any fun h => h.root == r

theorem tracks_nothing : Tracks mode .nothing [] := ⟨fun _ _ => rfl, fun _ _ => rfl⟩

theorem admitHit_spec (h : Tracks mode shown hits) (hit : Hit) : (crowded mode hits hit = true ∧ admitHit mode shown hit = none) ∨
    (crowded mode hits hit = false ∧ ∃ shown', admitHit mode shown hit = some shown' ∧ Tracks mode shown' (hits ++ [hit])) := by
  by_cases hmode : mode = some .discover
  · have howner := h.owners hmode hit.owner
    have hroot := h.roots hmode hit.root
    have hcrowded : crowded mode hits hit = decide (shown.owners[hit.owner]?.getD 0 = 2 ∨ shown.roots.contains hit.root = true) := by
      rw [crowded, hmode, beq_self_eq_true, Bool.true_and, howner, hroot, Bool.decide_or, Bool.decide_eq_true]
      rfl
    unfold admitHit
    rw [if_pos hmode, hcrowded]
    unfold Diversity.admitHit
    by_cases hfull : shown.owners[hit.owner]?.getD 0 = 2 ∨ shown.roots.contains hit.root = true
    · exact .inl ⟨decide_eq_true hfull, if_pos hfull⟩
    · refine .inr ⟨decide_eq_false hfull, _, if_neg hfull, fun _ o => ?_, fun _ r => ?_⟩
      · dsimp only
        rw [Maps.getElem?_insert, List.filter_append, List.length_append]
        split
        · rename_i heq
          subst heq
          rw [howner, List.filter_singleton, beq_self_eq_true]
          rfl
        · rename_i hne
          rw [h.owners hmode, List.filter_singleton, beq_eq_false_iff_ne.2 hne]
          rfl
      · rw [Std.ExtTreeSet.contains_insert, h.roots hmode, List.any_append, List.any_cons, List.any_nil, Bool.or_false, Bool.or_comm]
        congr 1
        rw [Bool.eq_iff_iff, beq_iff_eq, beq_iff_eq]
        exact Std.LawfulEqCmp.compare_eq_iff_eq
  · refine .inr ⟨?_, shown, if_neg hmode, fun heq => absurd heq hmode, fun heq => absurd heq hmode⟩
    rw [crowded, beq_eq_false_iff_ne.2 hmode, Bool.false_and]

theorem walk_found (hfound : ∀ hit ∈ found, current.find? (fun h => decide (h.reference = hit.reference)) = some hit)
    (h : Tracks mode shown hits) (hroom : hits.length < limit) :
    walk current mode limit (found.map (·.reference)) shown hits = .ok ((hits ++ Picking.pick (crowded mode) hits found).take limit) := by
  induction found generalizing shown hits with
  | nil =>
    rw [Picking.pick, List.append_nil, List.take_of_length_le hroom.le]
    rfl
  | cons hit found ih =>
    rw [List.forall_mem_cons] at hfound
    rw [List.map_cons, walk, hfound.1]
    dsimp only
    rcases admitHit_spec h hit with ⟨hcrowded, hadmitted⟩ | ⟨hfree, shown', hadmitted, htracks⟩
    · rw [hadmitted, Picking.pick_cons_of_bars hcrowded]
      exact ih hfound.2 h hroom
    · rw [hadmitted, Picking.pick_cons_of_free hfree, List.append_cons hits hit (Picking.pick _ _ _)]
      dsimp only
      split
      · rename_i hfull
        rw [List.take_append_of_le_length hfull.ge, List.take_of_length_le hfull.le]
      · rename_i hmore
        refine ih hfound.2 htracks ?_
        rw [List.length_append, List.length_singleton] at hmore ⊢
        omega

theorem walk_lost {reference : PostRef} {rest : List PostRef}
    (hfound : ∀ hit ∈ found, current.find? (fun h => decide (h.reference = hit.reference)) = some hit)
    (hlost : current.find? (fun h => decide (h.reference = reference)) = none) (h : Tracks mode shown hits)
    (hroom : (hits ++ Picking.pick (crowded mode) hits found).length < limit) :
    walk current mode limit (found.map (·.reference) ++ reference :: rest) shown hits = .error .stale := by
  induction found generalizing shown hits with
  | nil =>
    rw [List.map_nil, List.nil_append, walk, hlost]
  | cons hit found ih =>
    rw [List.forall_mem_cons] at hfound
    rw [List.map_cons, List.cons_append, walk, hfound.1]
    dsimp only
    rcases admitHit_spec h hit with ⟨hcrowded, hadmitted⟩ | ⟨hfree, shown', hadmitted, htracks⟩
    · rw [Picking.pick_cons_of_bars hcrowded] at hroom
      rw [hadmitted]
      exact ih hfound.2 h hroom
    · rw [Picking.pick_cons_of_free hfree, List.append_cons hits hit (Picking.pick _ _ _)] at hroom
      rw [hadmitted]
      dsimp only
      rw [if_neg]
      · exact ih hfound.2 htracks hroom
      · rw [List.length_append] at hroom
        omega

/-- What a page has of the hits that were found for the references that are left. -/
structure Shown (mode : Option FeedMode) (limit : Nat) (found hits : List Hit) : Prop where
  few : hits.length ≤ limit
  ordered : hits.Sublist found
  progress : found ≠ [] → hits ≠ []
  plain : mode ≠ some .discover → hits = found.take limit
  owners : mode = some .discover → ∀ o : OwnerId, (hits.filter fun h => h.owner == o).length ≤ 2
  roots : mode = some .discover → (hits.map (·.root)).Nodup
  /-- What was not shown came after enough hits, or after two of its owner or one of its conversation. -/
  deferred : ∀ front hit back, found = front ++ hit :: back → hit ∉ hits → ∃ before, before <+: hits ∧ (∀ h ∈ before, h ∈ front) ∧
    (before.length = limit ∨
      (mode = some .discover ∧ ((before.filter fun h => h.owner == hit.owner).length = 2 ∨ ∃ h ∈ before, h.root = hit.root)))

/-- No owner is shown three times and no conversation twice. -/
structure Varied (hits : List Hit) : Prop where
  owners : ∀ o : OwnerId, (hits.filter fun h => h.owner == o).length ≤ 2
  roots : (hits.map (·.root)).Nodup

theorem varied_step (hits : List Hit) (hit : Hit) (h : Varied hits) (hfree : crowded (some .discover) hits hit = false) : Varied (hits ++ [hit]) := by
  rw [crowded, beq_self_eq_true, Bool.true_and, Bool.or_eq_false_iff, beq_eq_false_iff_ne, List.any_eq_false] at hfree
  obtain ⟨howner, hroot⟩ := hfree
  constructor
  · intro o
    have hle := h.owners o
    rw [List.filter_append, List.length_append, List.filter_singleton]
    by_cases heq : hit.owner = o
    · subst heq
      rw [beq_self_eq_true, cond_true, List.length_singleton]
      omega
    · rw [beq_eq_false_iff_ne.2 heq]
      exact hle
  · rw [List.map_append, List.map_singleton]
    refine List.Nodup.append h.roots (List.nodup_singleton _) ?_
    rw [List.disjoint_singleton]
    intro hmem
    obtain ⟨other, hother, hsame⟩ := List.mem_map.1 hmem
    exact hroot other hother (beq_iff_eq.2 hsame)

theorem shown_pick (hlimit : 0 < limit) : Shown mode limit found ((Picking.pick (crowded mode) [] found).take limit) := by
  have hvaried : mode = some .discover → Varied (Picking.pick (crowded mode) [] found) := by
    rintro rfl
    have hstart : Varied [] := ⟨fun _ => Nat.zero_le _, List.nodup_nil⟩
    exact Picking.pick_keeps (P := Varied) varied_step hstart
  have hpre := List.take_prefix limit (Picking.pick (crowded mode) [] found)
  have hopen : ∀ hit, crowded mode [] hit = false := by
    intro hit
    rw [crowded]
    exact Bool.and_false _
  constructor
  case few => exact List.length_take_le _ _
  case ordered => exact hpre.sublist.trans Picking.pick_sublist
  case progress =>
    intro hne htake
    rw [List.take_eq_nil_iff] at htake
    rcases htake with hzero | hnil
    · omega
    · exact Picking.pick_ne_nil hopen hne hnil
  case plain =>
    intro hmode
    rw [Picking.pick_all]
    intro hits hit
    rw [crowded, beq_eq_false_iff_ne.2 hmode, Bool.false_and]
  case owners =>
    intro hmode o
    exact ((hpre.sublist.filter _).length_le).trans ((hvaried hmode).owners o)
  case roots =>
    intro hmode
    exact (hvaried hmode).roots.sublist (hpre.sublist.map _)
  case deferred =>
    rintro front hit back rfl hmem
    refine ⟨(Picking.pick (crowded mode) [] front).take limit, ?_, fun h hh => Picking.pick_sublist.subset (List.mem_of_mem_take hh), ?_⟩
    · rw [Picking.pick_append, List.take_append]
      exact List.prefix_append _ _
    · rcases Picking.bars_of_not_mem hmem with hbars | hfull
      · by_cases hroom : (Picking.pick (crowded mode) [] front).length ≤ limit
        · rw [List.take_of_length_le hroom]
          rw [crowded, Bool.and_eq_true, beq_iff_eq, Bool.or_eq_true, beq_iff_eq, List.any_eq_true] at hbars
          obtain ⟨hmode, howner | ⟨other, hother, hroot⟩⟩ := hbars
          · exact .inr ⟨hmode, .inl howner⟩
          · exact .inr ⟨hmode, .inr ⟨other, hother, beq_iff_eq.1 hroot⟩⟩
        · exact .inl (List.length_take_of_le (not_le.1 hroom).le)
      · exact .inl (List.length_take_of_le hfull)

end

end Cursor

end Valhalla.Discovery
