import Valhalla.Lib.Closure
import Valhalla.Social.Page

/-!
# Social projections (`view.rs` of `vhalla-social`)

A view classifies the social records of an archive by rounds of validation in a bounded number of steps. A register of it
has the updates of one key that no other one supersedes as heads.
-/

namespace Valhalla.Social
open FixedWidth Check

def policyVersion : UInt16 := 1
def maxEvaluationSteps : Nat := maxRecords * 64
def maxHeads : Nat := 16
def maxThreadDepth : Nat := 64

def eligibilityDomain : List UInt8 := "vhalla/social/eligibility/v1".toUTF8.toList
def limitsDomain : List UInt8 := "vhalla/social/limits/v1".toUTF8.toList
def evaluationDomain : List UInt8 := "vhalla/social/evaluation/v1".toUTF8.toList

def checkEligible (owners : List OwnerId) : Bool := decide (owners.length ≤ maxRecords) && ascendingBy compare owners

/-- A sorted set of owners that was chosen here. -/
theorem checkEligible_nil : checkEligible [] = true := by decide

structure Eligibility where
  owners : List OwnerId
  valid : checkEligible owners = true

def Eligibility.new (owners : List OwnerId) : Except Error Eligibility :=
  if h : checkEligible owners = true then .ok ⟨owners, h⟩ else .error .bounds

def Eligibility.digest (crypto : Crypto) (eligibility : Eligibility) : Bytes32 :=
  crypto.sha256 (eligibilityDomain ++ eligibility.owners.flatMap fun owner => owner.bytes.toList)

def Limits.digest (crypto : Crypto) (limits : Limits) : Bytes32 :=
  crypto.sha256 (limitsDomain ++ [limits.records, limits.controlReserve, limits.dataPerOwner, limits.dataPerWriter,
    limits.controlPerOwner, limits.pending, limits.pendingPerSigner].flatMap fun value => toBe (UInt64.ofNat value))

structure EvaluationBasis where
  archiveRoot : EvidenceRoot
  digest : Bytes32
  limitsDigest : Bytes32
  eligibilityDigest : Bytes32
  now : UInt64
  policyVersion : UInt16
  knownHistoryComplete : Bool
deriving DecidableEq

inductive RecordState
  | committed | provisional | pending | rejected | conflicted
deriving DecidableEq

structure Classification where
  state : RecordState
  admissionKnown : Bool
deriving DecidableEq

abbrev Classes := Std.ExtTreeMap RecordId Classification compare

/-- The state of a record (`View::state`). -/
def stateOf (classes : Classes) (id : RecordId) : Option RecordState := classes[id]?.map Classification.state

/-! ### Registers -/

theorem Id.bytes_injective {kind : IdKind} : Function.Injective (Id.bytes : Id kind → Bytes32) := by
  rintro ⟨x⟩ ⟨y⟩ h
  exact congrArg _ h

inductive RegisterKey
  | revision (post : RecordId)
  | reaction (owner : OwnerId) (post : RecordId)
  | repost (owner : OwnerId) (post : RecordId)
  | follow (owner target : OwnerId)
  | agentBio (agent : AgentId)
  | ownerProfile (owner : OwnerId)
deriving DecidableEq

namespace RegisterKey

/-- The variant, and its fields. -/
def code : RegisterKey → Nat × Bytes32 × Bytes32
  | revision post => (0, post.bytes, post.bytes)
  | reaction owner post => (1, owner.bytes, post.bytes)
  | repost owner post => (2, owner.bytes, post.bytes)
  | follow owner target => (3, owner.bytes, target.bytes)
  | agentBio agent => (4, agent.bytes, agent.bytes)
  | ownerProfile owner => (5, owner.bytes, owner.bytes)

theorem code_injective : Function.Injective code := by
  intro a b h
  cases a <;> cases b <;> simp_all [code, Id.bytes_injective.eq_iff]

instance : Ord RegisterKey :=
  ⟨compareLex (compareOn fun key => key.code.1) (compareLex (compareOn fun key => key.code.2.1) (compareOn fun key => key.code.2.2))⟩

instance transCmp : Std.TransCmp (compare : RegisterKey → RegisterKey → Ordering) :=
  inferInstanceAs (Std.TransCmp (compareLex (compareOn fun key : RegisterKey => key.code.1)
    (compareLex (compareOn fun key => key.code.2.1) (compareOn fun key => key.code.2.2))))

instance lawfulEqCmp : Std.LawfulEqCmp (compare : RegisterKey → RegisterKey → Ordering) where
  eq_of_compare {a b} h := by
    obtain ⟨hvariant, hfields⟩ := Ordering.then_eq_eq.1 h
    obtain ⟨hfirst, hsecond⟩ := Ordering.then_eq_eq.1 hfields
    refine code_injective (Prod.ext (Std.LawfulEqCmp.eq_of_compare hvariant) (Prod.ext ?_ ?_))
    · exact Std.LawfulEqCmp.eq_of_compare hfirst
    · exact Std.LawfulEqCmp.eq_of_compare hsecond

end RegisterKey

namespace Reaction

instance : Ord Reaction where
  compare
    | .clear, .clear => .eq
    | .clear, _ => .lt
    | _, .clear => .gt
    | .up a, .up b => compare a b
    | .up _, .down _ => .lt
    | .down _, .up _ => .gt
    | .down a, .down b => compare a b

theorem compare_up (a b : RecordId) : compare (up a) (up b) = compare a b := rfl

theorem compare_down (a b : RecordId) : compare (down a) (down b) = compare a b := rfl

instance transCmp : Std.TransCmp (compare : Reaction → Reaction → Ordering) where
  eq_swap {a b} := by
    cases a <;> cases b
    case up.up a b =>
      rw [compare_up, compare_up]
      exact Std.OrientedCmp.eq_swap
    case down.down a b =>
      rw [compare_down, compare_down]
      exact Std.OrientedCmp.eq_swap
    all_goals rfl
  isLE_trans {a b c} hab hbc := by
    cases a <;> cases b <;> cases c
    case up.up.up a b c =>
      rw [compare_up] at hab hbc ⊢
      exact Std.TransCmp.isLE_trans hab hbc
    case down.down.down a b c =>
      rw [compare_down] at hab hbc ⊢
      exact Std.TransCmp.isLE_trans hab hbc
    all_goals first | rfl | exact absurd hab Bool.false_ne_true | exact absurd hbc Bool.false_ne_true

instance lawfulEqCmp : Std.LawfulEqCmp (compare : Reaction → Reaction → Ordering) where
  eq_of_compare {a b} h := by
    cases a <;> cases b
    case clear.clear => rfl
    case up.up a b =>
      rw [compare_up] at h
      exact congrArg up (Std.LawfulEqCmp.eq_of_compare h)
    case down.down a b =>
      rw [compare_down] at h
      exact congrArg down (Std.LawfulEqCmp.eq_of_compare h)
    all_goals cases h

def revision : Reaction → Option RecordId
  | clear => none
  | up revision | down revision => some revision

end Reaction

/-- A causal register with all its heads (`Register`). -/
inductive Register (α : Type)
  | empty
  | resolved (heads : List RecordId) (value : α)
  | conflict (heads : List RecordId) (alternatives : List α)
  | incomplete
deriving DecidableEq

structure Preference (α : Type) where
  basis : EvaluationBasis
  committed : Register α
  observed : Register α

/-! ### Validation

What validation reads of a view are its control view and the states of its records. -/

def Operation.thread : Operation → Option (Placement × Option ReplyRef)
  | .post placement _ reply _ | .postFaceted placement _ reply _ => some (placement, reply)
  | _ => none

namespace View

section
variable (control : ControlView)

def operation (id : RecordId) : Except Error (Actor × Operation) := do
  let body ← okOr .missing (control.evidence.body id)
  match body with
  | .social actor realm _ _ operation => do
    require .context (realm == control.evidence.realm)
    pure (actor, operation)
  | _ => .error .context

def canRewrite (actor : Actor) (post : RecordId) : Except Error Unit := do
  let (original, op) ← operation control post
  require .context op.isPost
  require .unauthorized (actor.ownerOf == original.ownerOf && ControlView.sameAgent actor original)

def updateKey (id : RecordId) (actor : Actor) : Operation → Option RegisterKey
  | .post .. | .postFaceted .. => some (.revision id)
  | .revise post .. | .reviseFaceted post .. => if (canRewrite control actor post).isOk then some (.revision post) else none
  | .react post .. => some (.reaction actor.ownerOf post)
  | .repost post .. => some (.repost actor.ownerOf post)
  | .follow target .. => some (.follow actor.ownerOf target)
  | .agentBio .. =>
    match actor with
    | .agent _ agent _ => some (.agentBio agent)
    | .owner .. => none
  | .ownerProfile .. =>
    match actor with
    | .owner owner _ => some (.ownerProfile owner)
    | .agent .. => none
  | .retract .. => none

def keyFor (id : RecordId) : Option RegisterKey :=
  match operation control id with
  | .ok (actor, op) => updateKey control id actor op
  | .error _ => none

variable (state : RecordId → Option RecordState)

def dependency (id : RecordId) : Except Error Unit :=
  match state id with
  | some .committed | some .provisional => .ok ()
  | some .rejected => .error .context
  | some .conflicted => .error .conflict
  | _ => .error .missing

def postOperation (id : RecordId) : Except Error (Actor × Operation) := do
  let (actor, op) ← operation control id
  require .context op.isPost
  dependency state id
  pure (actor, op)

def exactRevision (reference : PostRef) : Except Error Unit := do
  let _ ← postOperation control state reference.post
  let (_, op) ← operation control reference.revision
  require .context
    (match op with
      | .post .. | .postFaceted .. => reference.revision == reference.post
      | .revise post .. | .reviseFaceted post .. => post == reference.post
      | _ => false)
  dependency state reference.revision

def checkThread (root : RecordId) (placement : Placement) : Nat → RecordId → Except Error Unit
  | 0, _ => .ok ()
  | turns + 1, parent => do
    let (_, ancestor) ← postOperation control state parent
    let (ancestorPlacement, ancestorReply) ← okOr .context ancestor.thread
    require .context (ancestorPlacement == placement)
    match ancestorReply with
    | none => require .context (parent == root)
    | some previous => do
      require .context (previous.root == root)
      if turns = 0 then .error .bounds else checkThread root placement turns previous.parent.post

def checkReply (placement : Placement) (reply : ReplyRef) : Except Error Unit := do
  exactRevision control state reply.parent
  let (_, root) ← postOperation control state reply.root
  let (rootPlacement, rootReply) ← okOr .context root.thread
  require .context !(rootReply.isSome || rootPlacement != placement)
  checkThread control state reply.root rootPlacement maxThreadDepth reply.parent.post

def checkPost (placement : Placement) (reply : Option ReplyRef) (quote : Option PostRef) : Except Error Unit := do
  forM quote (exactRevision control state)
  forM reply (checkReply control state placement)

def checkRevise (post : RecordId) (supersedes : References) : Except Error Unit := do
  let _ ← postOperation control state post
  require .context !supersedes.ids.isEmpty

/-- A reaction or a repost names the revision that it is about, or clears. -/
def checkOpinion (post : RecordId) (revision : Option RecordId) : Except Error Unit := do
  let _ ← postOperation control state post
  forM revision fun revision => exactRevision control state ⟨post, revision⟩

def checkOperation (actor : Actor) : Operation → Except Error Unit
  | .post placement _ reply quote | .postFaceted placement _ reply quote => checkPost control state placement reply quote
  | .revise post _ supersedes | .reviseFaceted post _ supersedes => checkRevise control state post supersedes
  | .retract post => do
    let _ ← postOperation control state post
    pure ()
  | .react post reaction _ => checkOpinion control state post reaction.revision
  | .repost post revision _ => checkOpinion control state post revision
  | .follow target .. => require .missing control.owners[target]?.isSome
  | .agentBio text _ => do
    require .unauthorized (match actor with | .agent .. => true | .owner .. => false)
    require .bounds !decide (text.str.utf8ByteSize > maxBioBytes)
  | .ownerProfile text _ => do
    require .unauthorized (match actor with | .owner .. => true | .agent .. => false)
    require .bounds !decide (text.str.utf8ByteSize > maxBioBytes)

/-- An update supersedes others of its own register. -/
def checkSuperseded (id previous : RecordId) : Except Error Unit := do
  require .context !(previous == id || (keyFor control previous).any fun key => some key != keyFor control id)
  let _ ← operation control previous
  require .context (keyFor control previous == keyFor control id)
  dependency state previous

def validate (id : RecordId) : Except Error Unit := do
  let (actor, op) ← operation control id
  forM op.edited (canRewrite control actor)
  forM op.supersedes (checkSuperseded control state id)
  checkOperation control state actor op

end

/-! ### Classification -/

section
variable (control : ControlView)

/-- How a record enters. -/
def entry : SocialStatus → Classification
  | .committed | .provisional => ⟨.pending, true⟩
  | .pending => ⟨.pending, false⟩
  | .rejected => ⟨.rejected, false⟩
  | .conflicted => ⟨.conflicted, true⟩

def enlisted : Classes :=
  Maps.insertAll Prod.fst (fun r => entry (control.socialStatus r.1)) ∅ (control.evidence.records.filter fun r => isSocial r.2.body)

def promoted (status : SocialStatus) : Except Error Unit → Option RecordState
  | .ok () => some (if status = .committed then .committed else .provisional)
  | .error .missing | .error .incomplete => none
  | .error .conflict => some .conflicted
  | .error _ => some .rejected

def setState (classes : Classes) (id : RecordId) (state : RecordState) : Classes :=
  Maps.adjust classes id fun c => { c with state }

def isWaiting (c : Classification) : Bool := c.admissionKnown && c.state == .pending

/-- The classification while the rounds go on. -/
structure Evaluation where
  classes : Classes
  remaining : Nat := maxEvaluationSteps
  changed : Bool := false

namespace Evaluation

/-- Without steps left the rest of a round is skipped. -/
def evaluate (acc : Evaluation) (id : RecordId) : Evaluation :=
  if acc.remaining = 0 then acc
  else match promoted (control.socialStatus id) (validate control (stateOf acc.classes) id) with
    | some state => ⟨setState acc.classes id state, acc.remaining - 1, true⟩
    | none => { acc with remaining := acc.remaining - 1 }

def waiting (acc : Evaluation) : List RecordId := (acc.classes.toList.filter fun c => isWaiting c.2).map Prod.fst

def round (acc : Evaluation) : Evaluation := acc.waiting.foldl (evaluate control) { acc with changed := false }

/-- At most one promotion per record, so that the records bound the rounds. -/
def rounds : Nat → Evaluation → Evaluation
  | 0, acc => acc
  | n + 1, acc =>
    let acc := round control acc
    if !acc.changed || acc.remaining == 0 then acc else rounds n acc

end Evaluation

def evaluation : Evaluation := Evaluation.rounds control (enlisted control).size ⟨enlisted control, maxEvaluationSteps, false⟩

def fileRegister (registers : Std.ExtTreeMap RegisterKey (List RecordId) compare) (id : RecordId) :
    Std.ExtTreeMap RegisterKey (List RecordId) compare :=
  match keyFor control id with
  | some key => registers.insert key (registers[key]?.getD [] ++ [id])
  | none => registers

end
end View

structure View where
  control : ControlView
  eligibility : Eligibility
  basis : EvaluationBasis
  classification : Classes
  registers : Std.ExtTreeMap RegisterKey (List RecordId) compare

namespace View
variable {crypto : Crypto}

def basisOf (a : Archive crypto) (now : UInt64) (eligibility : Eligibility) (knownHistoryComplete : Bool) : EvaluationBasis where
  archiveRoot := a.root
  digest := crypto.sha256 (evaluationDomain ++ a.root.bytes.toList ++ toBe a.realm.value ++ toBe policyVersion ++
    (a.limits.digest crypto).toList ++ (eligibility.digest crypto).toList ++ toBe now)
  limitsDigest := a.limits.digest crypto
  eligibilityDigest := eligibility.digest crypto
  now
  policyVersion
  knownHistoryComplete

def new (a : Archive crypto) (now : UInt64) (eligibility : Eligibility) : View :=
  let control := ControlView.new a.evidence now
  let classes := (evaluation control).classes
  { control
    eligibility
    basis := basisOf a now eligibility
      (control.historyComplete && !classes.toList.any fun c => c.2.state == .pending || c.2.state == .conflicted)
    classification := classes
    registers := classes.keys.foldl (fileRegister control) ∅ }

/-! ### Reading registers -/

variable (view : View)

def state (id : RecordId) : Option RecordState := stateOf view.classification id

/-- An update whose standing is open, or that was accepted and cannot be interpreted. -/
def isOpen (id : RecordId) (c : Classification) : Bool :=
  (c.admissionKnown && (c.state == .pending || c.state == .conflicted)) ||
    (view.control.socialStatus id == .committed && c.state != .committed)

def isEligible (committed : Bool) (state : RecordState) : Bool := state == .committed || (!committed && state == .provisional)

def superseded (control : ControlView) (id : RecordId) : List RecordId :=
  match operation control id with
  | .ok (_, op) => op.supersedes
  | .error _ => []

def references (control : ControlView) : List RecordId := control.evidence.facts.keys.flatMap (superseded control)

section
variable {α : Type} [Ord α] [DecidableEq α]

def candidate (committed : Bool) (value : RecordId → Operation → α) (found : List (RecordId × α)) (id : RecordId) :
    Option (List (RecordId × α)) :=
  match view.classification[id]? with
  -- A register files classified records only.
  | none => some found
  | some c =>
    if view.isOpen id c then none
    else if isEligible committed c.state then
      match operation view.control id with
      | .ok (_, op) => some (found ++ [(id, value id op)])
      | .error _ => some found
    else some found

def resolve (winner : List α → Option α) (heads : List (RecordId × α)) : Register α :=
  if heads.length > maxHeads then .incomplete
  else if heads = [] then .empty
  else
    let values := Ascending.canonical compare (heads.map Prod.snd)
    match winner values, values with
    | some value, _ => .resolved (heads.map Prod.fst) value
    | none, [value] => .resolved (heads.map Prod.fst) value
    | none, _ => .conflict (heads.map Prod.fst) values

def register (key : RegisterKey) (committed : Bool) (value : RecordId → Operation → α) (winner : List α → Option α) : Register α :=
  match (view.registers[key]?.getD []).foldlM (view.candidate committed value) [] with
  | none => .incomplete
  | some candidates =>
    let first := Closure.Seen.pushAll ({} : Closure.Seen RecordId compare) (candidates.flatMap fun c => superseded view.control c.1)
    let below := first.explore (superseded view.control) (references view.control).length
    resolve winner (candidates.filter fun c => !below.contains c.1)

def frozen (owner : OwnerId) : Bool := view.control.owners[owner]?.any fun status => status.frozen || status.incomplete

def pair (owner : OwnerId) (key : RegisterKey) (value : RecordId → Operation → α) (winner : List α → Option α) : Preference α :=
  if view.frozen owner || !view.control.ownerHistoryComplete owner then ⟨view.basis, .incomplete, .incomplete⟩
  else ⟨view.basis, view.register key true value winner, view.register key false value winner⟩

end

/-- A clear or a removal wins over what is concurrent with it. -/
def favoured {α : Type} [DecidableEq α] (value : α) (values : List α) : Option α := if value ∈ values then some value else none

-- What is behind `_` in these cannot be reached (`unreachable!`): the key of a register says what its updates are.
def reactionValue : RecordId → Operation → Reaction
  | _, .react _ reaction _ => reaction
  | _, _ => .clear

def followValue : RecordId → Operation → Bool
  | _, .follow _ following _ => following
  | _, _ => false

def repostValue : RecordId → Operation → Option RecordId
  | _, .repost _ revision _ => revision
  | _, _ => none

def textValue : RecordId → Operation → String
  | _, .agentBio text _ => text.str
  | _, .ownerProfile text _ => text.str
  | _, _ => ""

def reaction (owner : OwnerId) (post : RecordId) : Except Error (Preference Reaction) := do
  let _ ← postOperation view.control view.state post
  require .missing view.control.owners[owner]?.isSome
  pure (view.pair owner (.reaction owner post) reactionValue (favoured .clear))

def follow (owner target : OwnerId) : Except Error (Preference Bool) := do
  require .missing (view.control.owners[owner]?.isSome && view.control.owners[target]?.isSome)
  pure (view.pair owner (.follow owner target) followValue (favoured false))

def repost (owner : OwnerId) (post : RecordId) : Except Error (Preference (Option RecordId)) := do
  let _ ← postOperation view.control view.state post
  require .missing view.control.owners[owner]?.isSome
  pure (view.pair owner (.repost owner post) repostValue (favoured none))

def text (owner : OwnerId) (key : RegisterKey) : Preference String := view.pair owner key textValue fun _ => none

end View
end Valhalla.Social

/-!
## Posts in a projection (`view.rs` of `vhalla-social`)

What a view says of the posts of its archive: their current texts, withdrawn or not, and the exact text of any revision.
-/

namespace Valhalla.Social
open Check

structure RevisionText where
  revision : RecordId
  text : String
  facets : List Facet
deriving DecidableEq

/-- The candidates of a register have different revisions, so that the rest of the derived order decides nothing. -/
instance : Ord RevisionText := ⟨compareOn RevisionText.revision⟩

inductive Content
  | present (register : Register RevisionText)
  | retracted (records : List RecordId)
  | incomplete

structure Attribution where
  owner : OwnerId
  actor : Actor
deriving DecidableEq

structure PostView where
  basis : EvaluationBasis
  id : RecordId
  attribution : Attribution
  placement : Placement
  profileOwner : Option OwnerId
  root : RecordId
  reply : Option ReplyRef
  quote : Option PostRef
  quoteAttribution : Option Attribution
  state : RecordState
  committed : Content
  observed : Content

def Operation.textAndFacets : Operation → Option (String × List Facet)
  | .post _ text _ _ | .revise _ text _ => some (text.str, [])
  | .postFaceted _ content _ _ | .reviseFaceted _ content _ => some (content.text.str, content.facets)
  | _ => none

def Operation.original : Operation → Option (Placement × Option ReplyRef × Option PostRef)
  | .post placement _ reply quote | .postFaceted placement _ reply quote => some (placement, reply, quote)
  | _ => none

namespace View
variable {crypto : Crypto} (view : View)

def matchesArchive (archive : Archive crypto) : Bool :=
  view.control.evidence.realm == archive.realm && (view.control.evidence.limits == archive.limits && view.basis.archiveRoot == archive.root)

def ownerKnown (owner : OwnerId) : Bool := view.control.owners[owner]?.isSome

def withdrawals (post : RecordId) : List RecordId :=
  view.classification.keys.filter fun id =>
    match operation view.control id with
    | .ok (_, .retract withdrawn) => withdrawn == post
    | _ => false

/-- A withdrawal by somebody else, that does not count. -/
def isForeign (post id : RecordId) : Bool :=
  match operation view.control id with
  | .ok (actor, _) => !(canRewrite view.control actor post).isOk
  | .error _ => false

/-- The loop over the withdrawals: those that count, or nothing if one is open. -/
def retractions (post : RecordId) (committed : Bool) : List RecordId → Option (List RecordId)
  | [] => some []
  | id :: rest =>
    if view.isForeign post id then retractions post committed rest
    else
      match view.classification[id]? with
      -- A withdrawal was classified.
      | none => retractions post committed rest
      | some c =>
        if c.admissionKnown && (c.state == .pending || c.state == .conflicted) then none
        else if isEligible committed c.state then (retractions post committed rest).map (id :: ·)
        else retractions post committed rest

/-- What is behind `none` cannot be reached (`expect`): a revision register has texts only. -/
def revisionValue (id : RecordId) (op : Operation) : RevisionText :=
  match op.textAndFacets with
  | some (text, facets) => ⟨id, text, facets⟩
  | none => ⟨id, "", []⟩

def content (post : RecordId) (committed : Bool) : Content :=
  match view.retractions post committed (view.withdrawals post) with
  | none => .incomplete
  | some [] => .present (view.register (.revision post) committed revisionValue fun _ => none)
  | some records => .retracted records

def exactRevisionText (reference : PostRef) : Except Error RevisionText := do
  exactRevision view.control view.state reference
  match view.content reference.post false with
  | .retracted _ => .error .context
  | .incomplete | .present .incomplete => .error .incomplete
  | .present _ => do
    let (_, op) ← operation view.control reference.revision
    let (text, facets) ← okOr .context op.textAndFacets
    pure ⟨reference.revision, text, facets⟩

def post (id : RecordId) : Except Error PostView := do
  let (actor, op) ← postOperation view.control view.state id
  let (placement, reply, quote) ← okOr .context op.original
  let root := (reply.map (·.root)).getD id
  let (rootActor, _) ← operation view.control root
  let quoteAttribution ←
    match quote with
    | none => pure none
    | some quote => do
      let (author, _) ← operation view.control quote.post
      pure (some (⟨author.ownerOf, author⟩ : Attribution))
  let state ← okOr .missing (view.state id)
  pure
    { basis := view.basis
      id
      attribution := ⟨actor.ownerOf, actor⟩
      placement
      profileOwner := if placement = .profile then some rootActor.ownerOf else none
      root
      reply
      quote
      quoteAttribution
      state
      committed := view.content id true
      observed := view.content id false }

/-- `View::posts` without a placement -/
def posts : List PostView := view.classification.keys.filterMap fun id => (view.post id).toOption

end View
end Valhalla.Social
