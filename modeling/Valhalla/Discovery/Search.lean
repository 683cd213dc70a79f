import Valhalla.Discovery.Matching
import Valhalla.Discovery.Snapshot
import Valhalla.Lib.Shortlist

/-!
# Searching a snapshot (`select` of `vhalla-discovery`)

A search goes through the rows and pays for each of them; it stops where the budget is short. What it found is kept as a shortlist,
or as a whole that is sorted at the end, and both are the start of the same order.
-/

namespace Valhalla.Discovery
open Fallible Check
open Social (RecordId OwnerId AgentId PostRef)

/-- The place of a hit: the better score, then the later observation, then the lesser reference. -/
structure Rank where
  score : Int
  observed : Nat
  reference : PostRef
deriving DecidableEq

namespace Rank

instance : Ord Rank :=
  ⟨compareLex (fun a b => compareOn Rank.score b a) (compareLex (fun a b => compareOn Rank.observed b a) (compareOn Rank.reference))⟩

theorem compare_def (a b : Rank) :
    compare a b = (compare b.score a.score).then ((compare b.observed a.observed).then (compare a.reference b.reference)) := rfl

instance transCmp : Std.TransCmp (compare : Rank → Rank → Ordering) :=
  haveI : Std.TransCmp fun a b => compareOn Rank.score b a := .opposite
  haveI : Std.TransCmp fun a b => compareOn Rank.observed b a := .opposite
  inferInstanceAs (Std.TransCmp (compareLex (fun a b : Rank => compareOn Rank.score b a)
    (compareLex (fun a b => compareOn Rank.observed b a) (compareOn Rank.reference))))

instance lawfulEqCmp : Std.LawfulEqCmp (compare : Rank → Rank → Ordering) where
  eq_of_compare {a b} h := by
    rw [compare_def, Ordering.then_eq_eq, Ordering.then_eq_eq] at h
    obtain ⟨hscore, hobserved, hreference⟩ := h
    cases a
    cases b
    cases Std.LawfulEqCmp.eq_of_compare hscore
    cases Std.LawfulEqCmp.eq_of_compare hobserved
    cases Std.LawfulEqCmp.eq_of_compare hreference
    rfl

instance : LinearOrder Rank := Keys.linearOrder Rank

theorem lt_def {a b : Rank} : a < b ↔ compare a b = .lt := Iff.rfl

end Rank

/-- The ordinal of a hit, or that of what was never seen. -/
def Hit.observed (h : Hit) : Nat := (h.firstObserved.map UInt64.toNat).getD 0

def rank (mode : Option FeedMode) (h : Hit) : Rank where
  score := if mode = some .discover then h.why.toList.sum else 0
  observed := h.observed
  reference := h.reference

/-- `full_candidates`: a long list is sorted once. -/
def fullCandidates (mode : Option FeedMode) (limit : Nat) : Bool := mode == some .discover || decide (limit > maxPage)

structure Selection where
  candidates : List Hit
  matched : Nat
  complete : Bool

def Selection.join (mode : Option FeedMode) (limit : Nat) (found : Selection) (hit : Hit) : Selection where
  candidates := if fullCandidates mode limit then found.candidates ++ [hit] else Shortlist.offer (rank mode) limit found.candidates hit
  matched := found.matched + 1
  complete := found.complete

/-- What was shown of each owner and of each conversation. -/
structure Diversity where
  owners : Std.ExtTreeMap OwnerId Nat compare
  roots : Std.ExtTreeSet RecordId compare

namespace Diversity

def nothing : Diversity := ⟨∅, ∅⟩

def admitHit (shown : Diversity) (hit : Hit) : Option Diversity :=
  let n := shown.owners[hit.owner]?.getD 0
  if n = 2 ∨ shown.roots.contains hit.root then none
  else some ⟨shown.owners.insert hit.owner (n + 1), shown.roots.insert hit.root⟩

end Diversity

/-- The hits that are admitted one after the other (`retain`). -/
def diverse (shown : Diversity) : List Hit → List Hit
  | [] => []
  | hit :: hits =>
    match shown.admitHit hit with
    | none => diverse shown hits
    | some shown => hit :: diverse shown hits

structure Page where
  hits : List Hit
  /-- `matches` -/
  matched : Nat
  coverage : Coverage
deriving DecidableEq

namespace DiscoverySnapshot
variable (snapshot : DiscoverySnapshot) (q : Query) (filters : Filters) (mode : Option FeedMode)

def consider (row : Row) : Work Bool := do
  Budget.document row.hit.text.utf8ByteSize (256 + row.hit.facets.length * 80 +
    snapshot.state.preferences.subscriptions.size * (64 + row.hit.facets.length * 2) + row.hit.repostedBy.length * 64)
  if snapshot.hidden row || !passes row filters then pure false
  else if mode.isSome && !snapshot.following row &&
      !(mode == some .discover && (snapshot.state.preferences.wider || !row.endorsements.isEmpty)) then pure false
  else if mode == some .discover && row.hit.state != .committed then pure false
  else if mode.isNone && !row.originalVisible && !filters.repostOnly && filters.kind != some .repost then pure false
  else q.matchText row.hit.text

def hitFor (row : Row) : Hit := if mode = some .discover then snapshot.scored row else row.hit

/-- The loop over the rows: it stops where the budget is short. -/
def scan (limit : Nat) : List Row → Budget → Selection → Budget × Selection
  | [], budget, found => (budget, found)
  | row :: rows, budget, found =>
    match exec (snapshot.consider q filters mode row) budget with
    | (.error _, budget) => (budget, { found with complete := false })
    | (.ok false, budget) => scan limit rows budget found
    | (.ok true, budget) => scan limit rows budget (found.join mode limit (snapshot.hitFor mode row))

def arrange (limit : Nat) (candidates : List Hit) : List Hit :=
  let candidates := if fullCandidates mode limit then candidates.mergeSort fun a b => decide (rank mode a ≤ rank mode b) else candidates
  if mode = some .discover ∧ limit ≤ maxPage then (diverse .nothing candidates).take limit else candidates

def pageOf (limit : Nat) (initial : Budget) (scanned : Budget × Selection) : Page where
  hits := arrange mode limit scanned.2.candidates
  matched := scanned.2.matched
  coverage := { snapshot.coverage with
    queryComplete := scanned.2.complete
    examined := initial.documents - scanned.1.documents
    bytes := initial.bytes - scanned.1.bytes
    steps := initial.steps - scanned.1.steps }

def select (budget : Budget) (limit : Nat) : Except Error Page := do
  filters.check
  budget.check
  require .bounds !(limit == 0 || decide (limit > maxDocuments))
  pure (snapshot.pageOf mode limit budget
    (snapshot.scan q filters mode limit snapshot.rows budget ⟨[], 0, snapshot.coverage.queryComplete⟩))

def search (budget : Budget) (limit : Nat) : Except Error Page := do
  require .bounds !decide (limit > maxPage)
  snapshot.select q filters none budget limit

/-- The references ascend, so that looking one up by halving finds it if it is there (`binary_search`). -/
def searchReferences (budget : Budget) (references : List PostRef) : Except Error Page := do
  require .bounds (decide (references.length ≤ maxPage) && ascendingBy compare references)
  let page ← snapshot.select q filters none budget maxDocuments
  let hits := page.hits.filter fun hit => references.contains hit.reference
  pure { page with hits, matched := hits.length }

/-! ### What a search costs -/

def selects (row : Row) : Bool :=
  !(snapshot.hidden row || !passes row filters) &&
  (!(mode.isSome && !snapshot.following row && !(mode == some .discover && (snapshot.state.preferences.wider || !row.endorsements.isEmpty))) &&
  (!(mode == some .discover && row.hit.state != .committed) &&
  (!(mode.isNone && !row.originalVisible && !filters.repostOnly && filters.kind != some .repost) &&
  q.terms.all (occurs (utf8 row.hit.text)))))

variable {snapshot q filters mode} {limit : Nat}

theorem costs_skip {m : Work Bool} {found : Bool} (skipped : Bool) (h : ∃ n, Costs m n found) :
    ∃ n, Costs (if skipped then pure false else m) n (!skipped && found) := by
  cases skipped with
  | true => exact ⟨0, (Costs.pure false).congr (if_pos rfl) rfl⟩
  | false =>
    obtain ⟨n, hn⟩ := h
    exact ⟨n, hn.congr (if_neg Bool.false_ne_true) rfl⟩

variable (snapshot q filters mode) in
theorem costs_consider (row : Row) : ∃ n, Costs (snapshot.consider q filters mode row) n (snapshot.selects q filters mode row) := by
  obtain ⟨n, hn⟩ := costs_skip (snapshot.hidden row || !passes row filters) (costs_skip (mode.isSome && !snapshot.following row &&
    !(mode == some .discover && (snapshot.state.preferences.wider || !row.endorsements.isEmpty)))
    (costs_skip (mode == some .discover && row.hit.state != .committed)
    (costs_skip (mode.isNone && !row.originalVisible && !filters.repostOnly && filters.kind != some .repost) (q.costs_matchText row.hit.text))))
  exact ⟨_, (Budget.costs_document _ _).bind hn⟩

variable (snapshot q filters mode) in
def matching (rows : List Row) : List Hit := (rows.filter (snapshot.selects q filters mode)).map (snapshot.hitFor mode)

theorem scan_spec {price : Row → Budget} (hprice : ∀ row, Costs (snapshot.consider q filters mode row) (price row) (snapshot.selects q filters mode row))
    (rows : List Row) (budget : Budget) (found : Selection) :
    (∃ left, budget = (rows.map price).sum + left ∧
      snapshot.scan q filters mode limit rows budget found = (left, (snapshot.matching q filters mode rows).foldl (Selection.join mode limit) found)) ∨
    (¬ Costs.Fits (rows.map price).sum budget ∧ (snapshot.scan q filters mode limit rows budget found).2.complete = false ∧
      ∃ spent, budget = spent + (snapshot.scan q filters mode limit rows budget found).1) := by
  induction rows generalizing budget found with
  | nil => exact .inl ⟨budget, (zero_add budget).symm, rfl⟩
  | cons row rows ih =>
    rw [List.map_cons, List.sum_cons]
    unfold scan
    rcases (hprice row).cases budget with ⟨rest, rfl, hexec⟩ | ⟨hnot, e, rest, hexec, spent, rfl⟩
    · rw [hexec]
      have hcut : ∀ {total : Budget}, ¬ Costs.Fits total rest → ¬ Costs.Fits (price row + total) (price row + rest) := by
        intro total hshort hfits
        rw [Budget.fits_iff] at hshort hfits
        exact hshort ⟨Nat.le_of_add_le_add_left hfits.documents, Nat.le_of_add_le_add_left hfits.bytes, Nat.le_of_add_le_add_left hfits.steps⟩
      cases hselects : snapshot.selects q filters mode row with
      | true =>
        have hmatching : snapshot.matching q filters mode (row :: rows) = snapshot.hitFor mode row :: snapshot.matching q filters mode rows := by
          rw [matching, List.filter_cons_of_pos hselects, List.map_cons]
          rfl
        rw [hmatching]
        rcases ih rest (found.join mode limit (snapshot.hitFor mode row)) with ⟨left, rfl, hscan⟩ | ⟨hshort, hcomplete, spent, hspent⟩
        · exact .inl ⟨left, (add_assoc _ _ _).symm, hscan⟩
        · exact .inr ⟨hcut hshort, hcomplete, price row + spent, by rw [add_assoc, ← hspent]⟩
      | false =>
        have hmatching : snapshot.matching q filters mode (row :: rows) = snapshot.matching q filters mode rows := by
          rw [matching, List.filter_cons_of_neg (Bool.eq_false_iff.1 hselects)]
          rfl
        rw [hmatching]
        rcases ih rest found with ⟨left, rfl, hscan⟩ | ⟨hshort, hcomplete, spent, hspent⟩
        · exact .inl ⟨left, (add_assoc _ _ _).symm, hscan⟩
        · exact .inr ⟨hcut hshort, hcomplete, price row + spent, by rw [add_assoc, ← hspent]⟩
    · rw [hexec]
      refine .inr ⟨?_, rfl, spent, rfl⟩
      rintro ⟨left, heq⟩
      exact hnot ⟨(rows.map price).sum + left, by rw [heq, add_assoc]⟩

variable (snapshot q filters mode limit) in
theorem scan_prefix (rows : List Row) (budget : Budget) (found : Selection) : ∃ done, done <+: rows ∧
    (snapshot.scan q filters mode limit rows budget found).2.candidates =
      ((snapshot.matching q filters mode done).foldl (Selection.join mode limit) found).candidates := by
  induction rows generalizing budget found with
  | nil => exact ⟨[], List.prefix_refl [], rfl⟩
  | cons row rows ih =>
    obtain ⟨n, hn⟩ := costs_consider snapshot q filters mode row
    unfold scan
    rcases hn.cases budget with ⟨rest, -, hexec⟩ | ⟨-, e, rest, hexec, -⟩
    · rw [hexec]
      cases hselects : snapshot.selects q filters mode row with
      | true =>
        obtain ⟨done, hdone, hcandidates⟩ := ih rest (found.join mode limit (snapshot.hitFor mode row))
        refine ⟨row :: done, (List.prefix_cons_inj row).2 hdone, hcandidates.trans ?_⟩
        rw [matching, matching, List.filter_cons_of_pos hselects, List.map_cons, List.foldl_cons]
      | false =>
        obtain ⟨done, hdone, hcandidates⟩ := ih rest found
        refine ⟨row :: done, (List.prefix_cons_inj row).2 hdone, hcandidates.trans ?_⟩
        rw [matching, matching, List.filter_cons_of_neg (Bool.eq_false_iff.1 hselects)]
    · rw [hexec]
      exact ⟨[], List.nil_prefix, rfl⟩

/-! ### What is kept -/

variable (mode limit) in
theorem matched_foldl (hits : List Hit) (found : Selection) :
    (hits.foldl (Selection.join mode limit) found).matched = found.matched + hits.length ∧
      (hits.foldl (Selection.join mode limit) found).complete = found.complete := by
  induction hits generalizing found with
  | nil => exact ⟨rfl, rfl⟩
  | cons hit hits ih =>
    obtain ⟨hmatched, hcomplete⟩ := ih (found.join mode limit hit)
    refine ⟨?_, hcomplete⟩
    rw [List.foldl_cons, hmatched, List.length_cons]
    show found.matched + 1 + hits.length = _
    omega

theorem candidates_foldl (hits : List Hit) (found : Selection) :
    (hits.foldl (Selection.join mode limit) found).candidates =
      if fullCandidates mode limit then found.candidates ++ hits else hits.foldl (Shortlist.offer (rank mode) limit) found.candidates := by
  induction hits generalizing found with
  | nil => simp
  | cons hit hits ih =>
    rw [List.foldl_cons, ih]
    unfold Selection.join
    split
    · rw [List.append_assoc, List.singleton_append]
    · rfl

theorem nodup_matching {rows : List Row} (h : rows.Pairwise fun a b => compare a.hit.reference b.hit.reference = .lt) :
    ((snapshot.matching q filters mode rows).map (·.reference)).Nodup := by
  have hreference : ∀ row, (snapshot.hitFor mode row).reference = row.hit.reference := by
    intro row
    unfold hitFor
    split <;> rfl
  rw [matching, List.map_map]
  refine List.pairwise_map.2 ((h.filter _).imp fun {a b} hlt heq => ?_)
  have hsame : a.hit.reference = b.hit.reference := by rw [← hreference a, ← hreference b]; exact heq
  have hself : compare b.hit.reference b.hit.reference = .eq := Std.ReflCmp.compare_self
  rw [hsame, hself] at hlt
  cases hlt

variable (snapshot q filters mode) in
theorem distinct_matching {rows : List Row} (h : rows.Pairwise fun a b => compare a.hit.reference b.hit.reference = .lt) :
    (snapshot.matching q filters mode rows).Pairwise fun a b => rank mode a ≠ rank mode b :=
  (List.pairwise_map.1 (nodup_matching h)).imp fun hne heq => hne (congrArg Rank.reference heq)

theorem arrange_foldl {hits all : List Hit} (complete : Bool) (hall : Shortlist.Ranked (rank mode) hits all)
    (hdistinct : hits.Pairwise fun a b => rank mode a ≠ rank mode b) (hmode : ¬ (mode = some .discover ∧ limit ≤ maxPage)) :
    arrange mode limit (hits.foldl (Selection.join mode limit) ⟨[], 0, complete⟩).candidates =
      if fullCandidates mode limit then all else all.take limit := by
  rw [arrange, if_neg hmode, candidates_foldl]
  split
  · rw [List.nil_append, (Shortlist.mergeSort_ranked hdistinct).unique hall]
  · exact Shortlist.foldl_offer hdistinct hall

variable {budget more : Budget} {page : Page}

theorem select_eq_ok : snapshot.select q filters mode budget limit = .ok page ↔
    (filters.check = .ok () ∧ budget.check = .ok () ∧ 0 < limit ∧ limit ≤ maxDocuments) ∧
      snapshot.pageOf mode limit budget (snapshot.scan q filters mode limit snapshot.rows budget ⟨[], 0, snapshot.coverage.queryComplete⟩) = page := by
  simp only [select, bind_eq_ok, require_eq_ok, Bool.not_eq_true', Bool.or_eq_false_iff, beq_eq_false_iff_ne, decide_eq_false_iff_not, not_lt,
    Nat.pos_iff_ne_zero, pure, Except.pure, Except.ok.injEq]
  constructor
  · rintro ⟨⟨⟩, hfilters, ⟨⟩, hbudget, ⟨⟩, hlimit, hpage⟩
    exact ⟨⟨hfilters, hbudget, hlimit⟩, hpage⟩
  · rintro ⟨⟨hfilters, hbudget, hlimit⟩, hpage⟩
    exact ⟨⟨⟩, hfilters, ⟨⟩, hbudget, ⟨⟩, hlimit, hpage⟩

variable (snapshot q filters mode) in
theorem exists_whole : ∃ (all : List Hit) (total : Budget), Shortlist.Ranked (rank mode) (snapshot.matching q filters mode snapshot.rows) all ∧
    ∀ (limit : Nat) (budget : Budget) (page : Page), ¬ (mode = some .discover ∧ limit ≤ maxPage) →
      snapshot.select q filters mode budget limit = .ok page →
      (page.coverage.queryComplete = true → Costs.Fits total budget) ∧
      (Costs.Fits total budget → page.coverage.queryComplete = snapshot.coverage.queryComplete ∧
        page.hits = (if fullCandidates mode limit then all else all.take limit) ∧ page.matched = all.length) ∧
      ∃ left, budget = ⟨page.coverage.examined, page.coverage.bytes, page.coverage.steps⟩ + left := by
  choose price hprice using costs_consider snapshot q filters mode
  have hdistinct := distinct_matching snapshot q filters mode snapshot.ascending
  obtain ⟨all, hall⟩ := Shortlist.exists_ranked hdistinct
  refine ⟨all, (snapshot.rows.map price).sum, hall, fun limit budget page hmode h => ?_⟩
  obtain ⟨-, rfl⟩ := select_eq_ok.1 h
  have hspent : ∀ {spent left : Budget}, budget = spent + left →
      budget = ⟨budget.documents - left.documents, budget.bytes - left.bytes, budget.steps - left.steps⟩ + left := by
    rintro spent left rfl
    ext <;> simp
  have hspec := @scan_spec _ _ _ _ limit price hprice snapshot.rows budget ⟨[], 0, snapshot.coverage.queryComplete⟩
  rcases hspec with ⟨left, hleft, hscan⟩ | ⟨hshort, hcomplete, spent, hleft⟩
  · rw [hscan]
    obtain ⟨hmatched, hcomplete⟩ := matched_foldl mode limit (snapshot.matching q filters mode snapshot.rows) ⟨[], 0, snapshot.coverage.queryComplete⟩
    refine ⟨fun _ => ⟨left, hleft⟩, fun _ => ⟨hcomplete, arrange_foldl _ hall hdistinct hmode, ?_⟩, left, hspent hleft⟩
    rw [hall.perm.length_eq]
    exact hmatched.trans (Nat.zero_add _)
  · refine ⟨fun h => ?_, fun h => absurd h hshort, _, hspent hleft⟩
    rw [pageOf, hcomplete] at h
    cases h

theorem nodup_select (hmode : ¬ (mode = some .discover ∧ limit ≤ maxPage)) (hfull : fullCandidates mode limit = true)
    (h : snapshot.select q filters mode budget limit = .ok page) : (page.hits.map (·.reference)).Nodup := by
  obtain ⟨-, rfl⟩ := select_eq_ok.1 h
  obtain ⟨done, hdone, hcandidates⟩ := scan_prefix snapshot q filters mode limit snapshot.rows budget ⟨[], 0, snapshot.coverage.queryComplete⟩
  have hsorted := snapshot.ascending.sublist hdone.sublist
  obtain ⟨all, hall⟩ := Shortlist.exists_ranked (distinct_matching snapshot q filters mode hsorted)
  have hhits := arrange_foldl snapshot.coverage.queryComplete hall (distinct_matching snapshot q filters mode hsorted) hmode
  rw [pageOf, hcandidates, hhits, if_pos hfull]
  exact (hall.perm.map _).nodup_iff.2 (nodup_matching hsorted)

/-! ### The plain search -/

variable (snapshot q filters) in
def plain (row : Row) : Bool :=
  !snapshot.hidden row && passes row filters && (row.originalVisible || filters.repostOnly || filters.kind == some .repost) &&
    q.terms.all (occurs (utf8 row.hit.text))

/-- The later first seen is ahead, and the lesser reference of those first seen together. -/
def Ahead (a b : Hit) : Prop := b.observed < a.observed ∨ (a.observed = b.observed ∧ compare a.reference b.reference = .lt)

theorem ahead_of_rank {a b : Hit} (h : rank none a < rank none b) : Ahead a b := by
  rw [Rank.lt_def, Rank.compare_def] at h
  have hscore : compare (rank none b).score (rank none a).score = .eq := Std.ReflCmp.compare_self
  rw [hscore, Ordering.eq_then, Ordering.then_eq_lt] at h
  rcases h with hless | ⟨hsame, hreference⟩
  · exact .inl (compare_lt_iff_lt.1 hless)
  · exact .inr ⟨(compare_eq_iff_eq.1 hsame).symm, hreference⟩

theorem selects_none (row : Row) : snapshot.selects q filters none row = snapshot.plain q filters row := by
  have hfeed : ∀ b : Bool, (!((none : Option FeedMode).isSome && b)) = true := fun _ => rfl
  have hdiscover : ∀ b : Bool, (!((none : Option FeedMode) == some .discover && b)) = true := fun _ => rfl
  have hkind : (filters.kind != some Kind.repost) = !(filters.kind == some Kind.repost) := rfl
  unfold selects plain
  rw [Bool.and_assoc none.isSome, hfeed, hdiscover, hkind, Option.isNone_none, Bool.true_and, Bool.true_and, Bool.true_and]
  simp only [Bool.not_or, Bool.not_and, Bool.not_not, Bool.and_assoc, Bool.or_assoc]

/-- A search that is paid for finds what the plain one does, the first of it or the references asked for. -/
theorem search_plain (snapshot : DiscoverySnapshot) (q : Query) (filters : Filters) :
    ∃ all : List Hit, all.Perm ((snapshot.rows.filter (snapshot.plain q filters)).map Row.hit) ∧ all.Pairwise Ahead ∧
      (∀ (budget : Budget) (limit : Nat) (page : Page), snapshot.search q filters budget limit = .ok page →
        (∃ left, budget = ⟨page.coverage.examined, page.coverage.bytes, page.coverage.steps⟩ + left) ∧
        (page.coverage.queryComplete = true → page.hits = all.take limit ∧ page.matched = all.length ∧
          ∀ more : Budget, budget.AtMost more → more.check = .ok () → ∃ page' : Page, snapshot.search q filters more limit = .ok page' ∧
            page'.coverage.queryComplete = true ∧ page'.hits = page.hits ∧ page'.matched = page.matched)) ∧
      ∀ (budget : Budget) (references : List PostRef) (page : Page), snapshot.searchReferences q filters budget references = .ok page →
        ∃ full : Page, snapshot.select q filters none budget maxDocuments = .ok full ∧ page.coverage = full.coverage ∧
          page.hits = full.hits.filter (fun hit => decide (hit.reference ∈ references)) ∧ page.matched = page.hits.length ∧
          (∃ left, budget = ⟨page.coverage.examined, page.coverage.bytes, page.coverage.steps⟩ + left) ∧
          (page.coverage.queryComplete = true → full.hits = all ∧ full.matched = all.length) := by
  obtain ⟨all, total, hall, hwhole⟩ := exists_whole snapshot q filters none
  have hmode : ∀ {limit : Nat}, ¬ ((none : Option FeedMode) = some .discover ∧ limit ≤ maxPage) := fun h => nomatch h.1
  have hmatching : snapshot.matching q filters none snapshot.rows = (snapshot.rows.filter (snapshot.plain q filters)).map Row.hit := by
    rw [matching, List.filter_congr fun row _ => selects_none row]
    rfl
  refine ⟨all, hmatching ▸ hall.perm, hall.sorted.imp ahead_of_rank, fun budget limit page h => ?_, fun budget references page h => ?_⟩
  · rw [search, bind_eq_ok] at h
    obtain ⟨_, hlimit, hselect⟩ := h
    rw [require_eq_ok, Bool.not_eq_true', decide_eq_false_iff_not] at hlimit
    have hshort : fullCandidates none limit = false := decide_eq_false hlimit
    obtain ⟨hpaid, hfound, hspent⟩ := hwhole limit budget page hmode hselect
    refine ⟨hspent, fun hcomplete => ?_⟩
    have hfits := hpaid hcomplete
    obtain ⟨hsame, hhits, hmatched⟩ := hfound hfits
    rw [hshort] at hhits
    refine ⟨hhits, hmatched, fun more hmore hcheck => ?_⟩
    obtain ⟨hchecks, -⟩ := select_eq_ok.1 hselect
    have hselect' : snapshot.select q filters none more limit = .ok _ := select_eq_ok.2 ⟨⟨hchecks.1, hcheck, hchecks.2.2⟩, rfl⟩
    have hfits' : Costs.Fits total more := by
      rw [Budget.fits_iff] at hfits ⊢
      exact ⟨hfits.documents.trans hmore.documents, hfits.bytes.trans hmore.bytes, hfits.steps.trans hmore.steps⟩
    obtain ⟨-, hfound', -⟩ := hwhole limit more _ hmode hselect'
    obtain ⟨hsame', hhits', hmatched'⟩ := hfound' hfits'
    rw [hshort] at hhits'
    refine ⟨_, ?_, hsame'.trans (hsame.symm.trans hcomplete), hhits'.trans hhits.symm, hmatched'.trans hmatched.symm⟩
    rw [search, bind_eq_ok]
    refine ⟨(), ?_, hselect'⟩
    rw [require_eq_ok, Bool.not_eq_true', decide_eq_false_iff_not]
    exact hlimit
  · simp only [searchReferences, bind_eq_ok, require_eq_ok, pure, Except.pure, Except.ok.injEq] at h
    obtain ⟨_, -, full, hselect, rfl⟩ := h
    obtain ⟨hpaid, hfound, hspent⟩ := hwhole maxDocuments budget full hmode hselect
    refine ⟨full, hselect, rfl, ?_, rfl, hspent, fun hcomplete => ?_⟩
    · exact List.filter_congr fun hit _ => by simp
    · obtain ⟨-, hhits, hmatched⟩ := hfound (hpaid hcomplete)
      exact ⟨hhits, hmatched⟩

end DiscoverySnapshot

end Valhalla.Discovery
