import Valhalla.Discovery.State

/-!
# Query documents (`snapshot.rs` of `vhalla-discovery`)

A snapshot has one row for each exact revision that a view shows or a repost endorses, by ascending reference. What a reader
prefers decides which rows are hidden, followed or subscribed to, and how they score.
-/

namespace Valhalla.Discovery
open Fallible Check
open Social (RecordId OwnerId AgentId PostRef MentionTarget RecordState Placement Facet Actor Body View Archive EvaluationBasis Register
  Content PostView RevisionText CanonicalTag tagOf mentionOf)

inductive Visibility
  | committed | live
deriving DecidableEq

inductive FeedMode
  | following | discover
deriving DecidableEq

structure Coverage where
  retainedRecords : Nat
  documents : Nat
  corpusComplete : Bool
  historyComplete : Bool
  queryComplete : Bool
  examined : Nat
  bytes : Nat
  steps : Nat
deriving DecidableEq

structure Hit where
  reference : PostRef
  owner : OwnerId
  agent : Option AgentId
  root : RecordId
  placement : Placement
  text : String
  facets : List Facet
  state : RecordState
  reply : Bool
  repostedBy : List OwnerId
  firstObserved : Option UInt64
  why : Vector Int 6
deriving DecidableEq

structure Row where
  hit : Hit
  originalVisible : Bool
  endorsements : Std.ExtTreeSet OwnerId compare

/-- `CanonicalTag::as_str`: a tag is ASCII. -/
def tagText (tag : CanonicalTag) : String := (String.fromUTF8? ⟨tag.bytes.toArray⟩).getD ""

def tagsOf (facets : List Facet) : List String := ((facets.filterMap tagOf).map tagText).eraseDups

def hasTag (facets : List Facet) (tag : String) : Bool := (facets.filterMap tagOf).any fun t => tagText t == tag

/-! ### Rows -/

/-- The rows so far, none of them with the reference of another. -/
structure Draft where
  rows : List Row
  corpusComplete : Bool
  distinct : (rows.map fun row => row.hit.reference).Nodup

def Draft.amend (draft : Draft) (f : Row → Row) (h : ∀ row, (f row).hit.reference = row.hit.reference) : Draft where
  rows := draft.rows.map f
  corpusComplete := draft.corpusComplete
  distinct := by
    rw [List.map_map, show (fun row : Row => row.hit.reference) ∘ f = fun row => row.hit.reference from funext h]
    exact draft.distinct

/-- The rows by ascending reference (`sort_by_key`). -/
def Draft.sorted (draft : Draft) : List Row := Ascending.sorted (compareOn fun row => row.hit.reference) draft.rows

theorem Draft.ascending (draft : Draft) : draft.sorted.Pairwise fun a b => compare a.hit.reference b.hit.reference = .lt := by
  have hdistinct := List.pairwise_map.1 draft.distinct
  have hsorted : draft.sorted.Pairwise fun a b => (compareOn (fun row : Row => row.hit.reference) a b).isLE = true := Ascending.pairwise_sorted
  have hperm : draft.sorted.Perm draft.rows := Ascending.sorted_perm
  have hkept := hdistinct.perm hperm.symm fun hne => Ne.symm hne
  refine (hsorted.and hkept).imp fun {a b} hab => ?_
  have hle : (compare a.hit.reference b.hit.reference).isLE = true := hab.1
  cases horder : compare a.hit.reference b.hit.reference with
  | lt => rfl
  | eq => exact absurd (Std.LawfulEqCmp.eq_of_compare horder) hab.2
  | gt =>
    rw [horder] at hle
    cases hle

def Row.add (original : Bool) (reposter : Option OwnerId) (row : Row) : Row :=
  { row with
    originalVisible := row.originalVisible || original
    hit := { row.hit with repostedBy := row.hit.repostedBy ++ reposter.toList } }

/-- `DiscoverySnapshot::add`: another sight of a reference joins the row that has it. -/
def Draft.add (draft : Draft) (hit : Hit) (original : Bool) (reposter : Option OwnerId) : Draft :=
  if hfound : hit.reference ∈ draft.rows.map fun row => row.hit.reference then
    draft.amend (fun row => if row.hit.reference = hit.reference then row.add original reposter else row) fun row => by split <;> rfl
  else if draft.rows.length = maxDocuments then { draft with corpusComplete := false }
  else
    { rows := draft.rows ++ [Row.add original reposter ⟨hit, false, ∅⟩]
      corpusComplete := draft.corpusComplete
      distinct := by
        rw [List.map_append, List.nodup_append]
        refine ⟨draft.distinct, List.nodup_singleton _, fun a ha b hb => ?_⟩
        rw [List.map_singleton, List.mem_singleton] at hb
        subst hb
        exact fun heq => hfound (heq ▸ ha) }

structure DiscoverySnapshot where
  rows : List Row
  basis : EvaluationBasis
  state : DiscoveryState
  readerOwner : OwnerId
  visibility : Visibility
  followed : List OwnerId
  coverage : Coverage
  learnedTopics : Std.ExtTreeMap String Int compare
  ascending : rows.Pairwise fun a b => compare a.hit.reference b.hit.reference = .lt

/-! ### Deriving the rows -/

section
variable (view : View) (state : DiscoveryState)

def shownTexts (visibility : Visibility) (p : PostView) : List RevisionText :=
  if visibility = .committed ∧ p.state ≠ .committed then []
  else
    match (match visibility with | .committed => p.committed | .live => p.observed) with
    | .present (.resolved _ value) => [value]
    | .present (.conflict _ alternatives) => alternatives
    | _ => []

def hitOf (p : PostView) (value : RevisionText) (revisionState : RecordState) : Hit where
  reference := ⟨p.id, value.revision⟩
  owner := p.attribution.owner
  agent :=
    match p.attribution.actor with
    | .agent _ agent _ => some agent
    | .owner .. => none
  root := p.root
  placement := p.placement
  text := value.text
  facets := value.facets
  state := revisionState
  reply := p.reply.isSome
  repostedBy := []
  firstObserved := state.ordinal p.id
  why := .replicate 6 0

def addOriginal (draft : Draft) (entry : PostView × RevisionText) : Except Error Draft := do
  let revisionState ← okOr .evidence (view.state entry.2.revision)
  pure (if revisionState == .committed || revisionState == .provisional then draft.add (hitOf state entry.1 entry.2 revisionState) true none else draft)

def slots {crypto : Crypto} (archive : Archive crypto) (select : Social.Operation → Option RecordId) : List (OwnerId × RecordId) :=
  Ascending.canonical (compareLex (compareOn Prod.fst) (compareOn Prod.snd)) (archive.evidence.records.filterMap fun r =>
    match r.2.body with
    | .social actor _ _ _ operation => if view.state r.1 = some .committed then (select operation).map (actor.ownerOf, ·) else none
    | _ => none)

def repostedPost : Social.Operation → Option RecordId
  | .repost post .. => some post
  | _ => none

def reactedPost : Social.Operation → Option RecordId
  | .react post .. => some post
  | _ => none

def repostHit (slot : OwnerId × RecordId) : Option Hit :=
  match view.repost slot.1 slot.2 with
  | .ok ⟨_, .resolved _ (some revision), _⟩ => do
    let value ← (view.exactRevisionText ⟨slot.2, revision⟩).toOption
    let p ← (view.post slot.2).toOption
    if p.state ≠ .committed ∨ view.state revision ≠ some .committed then none
    else some { hitOf state p value .committed with reference := ⟨slot.2, revision⟩, firstObserved := state.ordinal slot.2 }
  | _ => none

def addRepost (draft : Draft) (slot : OwnerId × RecordId) : Draft :=
  if state.preferences.muted.contains slot.1 || state.preferences.blocked.contains slot.1 then draft
  else
    match repostHit view state slot with
    | some hit => draft.add hit false (some slot.1)
    | none => draft

def selectedOwners (followed : List OwnerId) : List OwnerId :=
  (followed ++ state.preferences.subscriptions.toList.filterMap fun | .owner id => some id | _ => none).filter fun owner =>
    !state.preferences.muted.contains owner && !state.preferences.blocked.contains owner

def Row.endorse (owner : OwnerId) (reference : PostRef) (row : Row) : Row :=
  if row.hit.reference = reference ∧ row.hit.owner ≠ owner ∧ row.hit.state = .committed then
    { row with endorsements := row.endorsements.insert owner }
  else row

theorem Row.reference_endorse (owner : OwnerId) (reference : PostRef) (row : Row) : (row.endorse owner reference).hit.reference = row.hit.reference := by
  unfold endorse
  split <;> rfl

def addReaction (selected : List OwnerId) (draft : Draft) (slot : OwnerId × RecordId) : Draft :=
  if !selected.contains slot.1 then draft
  else
    match view.reaction slot.1 slot.2 with
    | .ok ⟨_, .resolved _ (.up revision), _⟩ => draft.amend (Row.endorse slot.1 ⟨slot.2, revision⟩) (Row.reference_endorse _ _)
    | _ => draft

def Row.finish (selected : List OwnerId) (row : Row) : Row :=
  let repostedBy := Ascending.canonical compare row.hit.repostedBy
  { row with
    hit := { row.hit with repostedBy }
    endorsements := row.endorsements.insertMany (repostedBy.filter fun o => o != row.hit.owner && selected.contains o) }

def privateSignals : Std.ExtTreeMap RecordId (PostRef × Int) compare :=
  Maps.insertAll (fun entry : PostRef × Int => entry.1.post) (fun entry => entry)
    (Maps.ofEntries compare (state.learningBookmarks.map fun r => (r.post, (r, 1)))) state.feedbackEntries

def learn (topics : Std.ExtTreeMap String Int compare) (signal : RecordId × (PostRef × Int)) : Std.ExtTreeMap String Int compare :=
  let (reference, value) := signal.2
  if view.state reference.post ≠ some .committed ∨ view.state reference.revision ≠ some .committed then topics
  else
    match view.exactRevisionText reference with
    | .error _ => topics
    | .ok exact => (tagsOf exact.facets).foldl (fun topics tag => topics.insert tag (topics[tag]?.getD 0 + value)) topics

end

def followedOwners {crypto : Crypto} (archive : Archive crypto) (view : View) (readerOwner : OwnerId) : List OwnerId :=
  archive.evidence.records.filterMap fun r =>
    match r.2.body with
    | .ownerGenesis .. =>
      let owner : OwnerId := ⟨r.1.bytes⟩
      match view.follow readerOwner owner with
      | .ok ⟨_, .resolved _ true, _⟩ => if view.ownerKnown owner then some owner else none
      | _ => none
    | _ => none

namespace DiscoverySnapshot

def new {crypto : Crypto} (archive : Archive crypto) (view : View) (readerOwner : OwnerId) (state : DiscoveryState) (visibility : Visibility) :
    Except Error DiscoverySnapshot := do
  require .evidence !(!view.matchesArchive archive || !view.ownerKnown readerOwner)
  let followed := followedOwners archive view readerOwner
  let shown := view.posts.flatMap fun p => (shownTexts visibility p).map (p, ·)
  let originals ← shown.foldlM (addOriginal view state) ⟨[], true, List.nodup_nil⟩
  let reposted := (slots view archive repostedPost).foldl (addRepost view state) originals
  let selected := selectedOwners state followed
  let endorsed := (slots view archive reactedPost).foldl (addReaction view selected) reposted
  let draft := endorsed.amend (Row.finish selected) fun _ => rfl
  pure
    { rows := draft.sorted
      basis := view.basis
      state
      readerOwner
      visibility
      followed
      coverage :=
        { retainedRecords := archive.records.size
          documents := draft.rows.length
          corpusComplete := draft.corpusComplete
          historyComplete := view.basis.knownHistoryComplete
          queryComplete := true
          examined := 0
          bytes := 0
          steps := 0 }
      learnedTopics := (privateSignals state).toList.foldl (learn view) ∅
      ascending := draft.ascending }

/-! ### What a reader prefers -/

section
variable (snapshot : DiscoverySnapshot) (row : Row)

def hidden : Bool :=
  let p := snapshot.state.preferences
  p.muted.contains row.hit.owner || p.blocked.contains row.hit.owner || p.mutedThreads.contains row.hit.root

def subscribed : Bool :=
  (snapshot.state.preferences.subscriptions.toList.any fun
    | .owner o => o == row.hit.owner
    | .agent a => some a == row.hit.agent
    | .channel c => row.hit.placement == .channel c
    | .thread r => r == row.hit.root
    | .tag t => hasTag row.hit.facets t) ||
  snapshot.state.preferences.bookmarks.contains row.hit.reference

def following : Bool :=
  row.hit.owner == snapshot.readerOwner || snapshot.followed.contains row.hit.owner || snapshot.subscribed row ||
    row.hit.repostedBy.any fun o => snapshot.followed.contains o

/-- `DiscoverySnapshot::matches` -/
def passes (f : Filters) : Bool :=
  let h := row.hit
  (f.state.all fun state => h.state == state) &&
  (f.kind.all fun
    | .post => row.originalVisible && !h.reply
    | .reply => row.originalVisible && h.reply
    | .repost => !h.repostedBy.isEmpty) &&
  (f.owner.all fun v => v == h.owner) &&
  (f.agent.all fun v => some v == h.agent) &&
  (f.channel.all fun v => h.placement == .channel v) &&
  (f.root.all fun v => h.root == v) &&
  (f.reply.all fun v => h.reply == v) &&
  (!f.repostOnly || !h.repostedBy.isEmpty) &&
  (f.tag.all fun t => hasTag h.facets t) &&
  f.mention.all fun m => (h.facets.filterMap mentionOf).any fun target => target == m

def affinity (hit : Hit) : Int :=
  let worth := (tagsOf hit.facets).filterMap fun tag =>
    (snapshot.state.preferences.interests[tag]?).or ((snapshot.learnedTopics[tag]?).map fun n => max (-4) (min 4 n))
  max (-4) (min 4 worth.sum)

/-- How many observations ago a hit was first seen (`saturating_sub`), without end for one that was not. -/
def ageOf (hit : Hit) : Nat :=
  match hit.firstObserved with
  | some n => snapshot.state.cutoff.toNat - n.toNat
  | none => 2 ^ 64 - 1

def scored : Hit :=
  { row.hit with
    why := #v[
      if snapshot.followed.contains row.hit.owner then 128 else 0,
      if snapshot.subscribed row then 64 else 0,
      snapshot.affinity row.hit * 16,
      if row.hit.state = .committed then (min row.endorsements.size 4 : Nat) * 8 else 0,
      15 - (min (snapshot.ageOf row.hit) 15 : Nat),
      if snapshot.state.hasSeen row.hit.reference then 0 else 8] }

end
end DiscoverySnapshot

end Valhalla.Discovery
