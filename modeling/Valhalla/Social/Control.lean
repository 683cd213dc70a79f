import Valhalla.Social.Wire

/-!
# Owner control and social admission (`control.rs` of `vhalla-social`)

A view is derived from retained facts in bounded work: first the controls that their predecessors admit, breadth
first from the owner geneses, then the histories that admitted controls seal, agents, and the status of every
social record. The storage accounting of `archive.rs` reads the view half way.
-/

namespace Valhalla.Social
open Fallible FixedWidth Check

/-! ### Evidence -/

/-- Local resource policy. -/
structure Limits where
  records : Nat
  controlReserve : Nat
  dataPerOwner : Nat
  dataPerWriter : Nat
  controlPerOwner : Nat
  pending : Nat
  pendingPerSigner : Nat
deriving DecidableEq

/-- What the derivation reads of an archive: the facts by their ids, the realm and the limits. -/
structure Evidence where
  realm : RealmId
  limits : Limits
  facts : Std.ExtTreeMap RecordId Fact compare

def Evidence.records (e : Evidence) : List (RecordId × Fact) := e.facts.toList

def Evidence.get (e : Evidence) (id : RecordId) : Option Fact := e.facts[id]?

def Evidence.body (e : Evidence) (id : RecordId) : Option Body := (e.get id).map Fact.body

def ownerId (id : RecordId) : OwnerId := ⟨id.bytes⟩

def agentId (id : RecordId) : AgentId := ⟨id.bytes⟩

def agentRecord (id : AgentId) : RecordId := ⟨id.bytes⟩

/-! ### Views -/

inductive SocialStatus
  | committed | provisional | pending | rejected | conflicted
deriving DecidableEq

structure OwnerStatus where
  head : Option RecordId
  key : Option Bytes32
  frozen : Bool
  incomplete : Bool
  capacityBlocked : Bool
deriving DecidableEq

structure AgentStatus where
  owner : OwnerId
  key : Bytes32
  retired : Bool
  active : Bool
  grantIds : List RecordId
deriving DecidableEq

structure Node where
  owner : OwnerId
  previous : Option RecordId
  key : Bytes32
deriving DecidableEq

structure Grant where
  owner : OwnerId
  agent : AgentId
  realm : RealmId
  rights : Rights
  expiresAt : UInt64
deriving DecidableEq

structure ControlView where
  evidence : Evidence
  now : UInt64
  owners : Std.ExtTreeMap OwnerId OwnerStatus compare := ∅
  agents : Std.ExtTreeMap AgentId AgentStatus compare := ∅
  nodes : Std.ExtTreeMap RecordId Node compare := ∅
  grants : Std.ExtTreeMap RecordId Grant compare := ∅
  rejectedControls : Std.ExtTreeSet RecordId compare := ∅
  accepted : Std.ExtTreeSet RecordId compare := ∅
  statuses : Std.ExtTreeMap RecordId SocialStatus compare := ∅
  historyComplete : Bool := true
  incompleteHistoryOwners : Std.ExtTreeSet OwnerId compare := ∅

/-! ### Evaluation in bounded work -/

inductive Eval
  | pending | invalid
deriving DecidableEq

structure WorkBudget where
  remaining : Nat
  exhausted : Bool
deriving DecidableEq

def WorkBudget.withLimit (remaining : Nat) : WorkBudget := ⟨remaining, false⟩

abbrev EvalM := Fallible Eval WorkBudget

def WorkBudget.spend : WorkBudget → Except Eval Unit × WorkBudget
  | ⟨0, _⟩ => (.error .pending, ⟨0, true⟩)
  | ⟨n + 1, exhausted⟩ => (.ok (), ⟨n, exhausted⟩)

def spend : EvalM Unit := of WorkBudget.spend

def lift {α : Type} (x : Except Eval α) : EvalM α := examine fun _ => x

inductive HistoryMode
  | opened | ratify | unsealed
deriving DecidableEq

inductive Filter
  | owner (owner : OwnerId)
  | agent (owner : OwnerId) (agent : AgentId)
  | grant (owner : OwnerId) (grant : RecordId)
deriving DecidableEq

def Filter.accepts : Filter → Actor → Bool
  | .owner id, actor => id == actor.ownerOf
  | .agent id who, .agent o a _ => id == o && who == a
  | .grant id delegation, .agent o _ g => id == o && delegation == g
  | _, _ => false

structure Closure where
  ids : List RecordId := []
  incomplete : Bool := false
deriving DecidableEq

/-- What the controls of one branch say about an agent and a grant. -/
structure BranchFlags where
  enrolled : Bool := false
  retired : Bool := false
  revoked : Bool := false
deriving DecidableEq

def BranchFlags.note (flags : BranchFlags) (agent : AgentId) (grant : Option RecordId) : Option Body → BranchFlags
  | some (.control _ _ (.grant a ..)) => if a = agent then { flags with enrolled := true } else flags
  | some (.control _ _ (.retire a ..)) => if a = agent then { flags with retired := true } else flags
  | some (.control _ _ (.revoke g _)) => if some g = grant then { flags with revoked := true } else flags
  | _ => flags

def isControlPlane : Body → Bool
  | .ownerGenesis .. | .control .. => true
  | _ => false

def isSocial : Body → Bool
  | .social .. => true
  | _ => false

namespace ControlView
variable (v : ControlView)

def node (id : RecordId) : Except Eval Node :=
  okOr (if v.rejectedControls.contains id || (v.evidence.body id).any (!isControlPlane ·) then .invalid else .pending)
    v.nodes[id]?

def binding (id : RecordId) : Except Eval (OwnerId × RecordId × Bytes32) := do
  let fact ← okOr .pending (v.evidence.get id)
  match fact.body with
  | .agentGenesis owner control key _ => do
    let node ← v.node control
    require .invalid !(node.owner != owner || fact.primary != node.key)
    pure (owner, control, key)
  | _ => .error .invalid

/-- Each turn of the loop costs one unit, so the work left bounds the walk. -/
def ancestorLoop (ancestor : RecordId) : Nat → Bool → RecordId → Except Eval Bool × WorkBudget
  | 0, _, _ => (.error .pending, ⟨0, true⟩)
  | n + 1, exhausted, head =>
    if ancestor = head then (.ok true, ⟨n, exhausted⟩)
    else match v.node head with
      | .error e => (.error e, ⟨n, exhausted⟩)
      | .ok node =>
        match node.previous with
        | none => (.ok false, ⟨n, exhausted⟩)
        | some previous => ancestorLoop ancestor n exhausted previous

def ancestor (ancestor head : RecordId) : EvalM Bool := of fun b => v.ancestorLoop ancestor b.remaining b.exhausted head

def branchFlagsLoop (agent : AgentId) (grant : Option RecordId) :
    Nat → Bool → BranchFlags → RecordId → Except Eval BranchFlags × WorkBudget
  | 0, _, _, _ => (.error .pending, ⟨0, true⟩)
  | n + 1, exhausted, flags, head =>
    let flags := flags.note agent grant (v.evidence.body head)
    match v.node head with
    | .error e => (.error e, ⟨n, exhausted⟩)
    | .ok node =>
      match node.previous with
      | none => (.ok flags, ⟨n, exhausted⟩)
      | some previous => branchFlagsLoop agent grant n exhausted flags previous

def branchFlags (head : RecordId) (agent : AgentId) (grant : Option RecordId) : EvalM BranchFlags :=
  of fun b => v.branchFlagsLoop agent grant b.remaining b.exhausted {} head

def grant (id : RecordId) : Except Eval Grant :=
  okOr (if v.rejectedControls.contains id then .invalid else .pending) v.grants[id]?

def authority (fact : Fact) : Actor → Except Eval Unit
  | .owner owner control => do
    let node ← v.node control
    require .invalid (node.owner == owner && fact.primary == node.key)
  | .agent owner agent grant => do
    let (boundOwner, _, key) ← v.binding (agentRecord agent)
    require .invalid !(boundOwner != owner || fact.primary != key)
    let g ← v.grant grant
    require .invalid (g.owner == owner && g.agent == agent && boundOwner == owner && fact.primary == key)

def checkRight (realm : RealmId) (operation : Operation) : Actor → Except Eval Unit
  | .owner .. =>
    match operation with
    | .agentBio .. => .error .invalid
    | _ => .ok ()
  | .agent _ _ grant => do
    let g ← okOr .pending v.grants[grant]?
    let right ← okOr .invalid operation.requiredRight
    require .invalid !(g.realm != realm || !g.rights.contains right)

def sameAgent : Actor → Actor → Bool
  | .agent _ agent _, .agent _ a _ => a == agent
  | .agent .., .owner .. => false
  | .owner .., _ => true

/-- An edit names a post of the same owner, and of the same agent. -/
def checkOriginal (realm : RealmId) (actor : Actor) (post : RecordId) : Except Eval Unit := do
  let original ← okOr .pending (v.evidence.get post)
  match original.body with
  | .social originalActor originalRealm _ _ operation => do
    require .invalid operation.isPost
    v.authority original originalActor
    require .invalid !(originalRealm != realm || originalActor.ownerOf != actor.ownerOf)
    require .invalid (sameAgent actor originalActor)
  | _ => .error .invalid

def socialAuth (fact : Fact) : Except Eval Actor :=
  match fact.body with
  | .social actor realm _ _ operation => do
    require .invalid (realm == v.evidence.realm)
    v.authority fact actor
    v.checkRight realm operation actor
    match operation.edited with
    | some post => v.checkOriginal realm actor post
    | none => pure ()
    pure actor
  | _ => .error .invalid

def keyOf (id : RecordId) : Except Eval Bytes32 := do
  let node ← v.node id
  pure node.key

def historicalOpen (actor : Actor) (basis : RecordId) : HistoryMode → EvalM Unit
  | .unsealed => pure ()
  | mode =>
    match actor with
    | .owner _ control => do
      let found ← v.ancestor control basis
      lift (require .invalid found)
      if mode = .opened then do
        let key ← lift (v.keyOf control)
        let basisKey ← lift (v.keyOf basis)
        lift (require .invalid (key == basisKey))
      else pure ()
    | .agent _ agent grant => do
      let found ← v.ancestor grant basis
      lift (require .invalid found)
      if mode = .opened then do
        let flags ← v.branchFlags basis agent (some grant)
        lift (require .invalid !(flags.retired || flags.revoked))
      else pure ()

/-- What the records read so far demand of the next one. -/
structure Cursor where
  ids : List RecordId := []
  writer : Option Actor := none
  expected : Option UInt64 := none

def chainNext (filter : Filter) (basis : RecordId) (mode : HistoryMode) (cursor : Cursor) (id : RecordId) :
    EvalM (Option RecordId × Cursor) := do
  let fact ← lift (okOr .pending (v.evidence.get id))
  let actor ← lift (v.socialAuth fact)
  match fact.body with
  | .social _ _ sequence previous _ => do
    lift (require .invalid !(!filter.accepts actor || cursor.writer.any (· != actor) ||
      cursor.expected.any (· != sequence) || (previous.isNone && sequence != 0)))
    v.historicalOpen actor basis mode
    let expected := checkedSub sequence 1
    lift (require .invalid !(previous.isSome && expected.isNone))
    pure (previous, ⟨id :: cursor.ids, some actor, expected⟩)
  | _ => throw .invalid

/-- A chain has at most `MAX_RECORDS` records, of which the loop counts what is left. -/
def chainLoop (filter : Filter) (basis : RecordId) (mode : HistoryMode) :
    Nat → Cursor → Option RecordId → EvalM (List RecordId)
  | _, cursor, none => pure cursor.ids
  | 0, _, some _ => do
    spend
    throw .invalid
  | n + 1, cursor, some id => do
    spend
    lift (require .invalid !cursor.ids.contains id)
    let (previous, cursor) ← v.chainNext filter basis mode cursor id
    chainLoop filter basis mode n cursor previous

def chain (head : RecordId) (filter : Filter) (basis : RecordId) (mode : HistoryMode) : EvalM (List RecordId) :=
  v.chainLoop filter basis mode maxRecords {} (some head)

def closure (heads : List RecordId) (filter : Filter) (basis : RecordId) (mode : HistoryMode) : EvalM Closure :=
  heads.foldlM (fun out head => do
    match ← attempt some (v.chain head filter basis mode) with
    | .ok ids => pure { out with ids := out.ids ++ ids }
    | .error _ => pure { out with incomplete := true }) {}

/-- The preconditions of a control at its predecessor, and with `history` what it seals. -/
def action (owner : OwnerId) (previous : RecordId) (action : ControlAction) (history : Bool) : EvalM Closure :=
  match action with
  | .grant agent .. => do
    let (boundOwner, basis, _) ← lift (v.binding (agentRecord agent))
    lift (require .invalid (boundOwner == owner))
    let flags ← v.branchFlags previous agent none
    lift (require .invalid !(flags.retired || (!flags.enrolled && basis != previous)))
    pure {}
  | .revoke grant accepted => do
    let g ← lift (okOr (if (v.evidence.get grant).isSome then .invalid else .pending) v.grants[grant]?)
    lift (require .invalid (g.owner == owner))
    let found ← v.ancestor grant previous
    lift (require .invalid found)
    let flags ← v.branchFlags previous g.agent (some grant)
    lift (require .invalid !(flags.retired || flags.revoked))
    if !history || g.realm != v.evidence.realm then pure {}
    else v.closure accepted.ids (.grant owner grant) previous .opened
  | .retire agent realm accepted => do
    let (boundOwner, basis, _) ← lift (v.binding (agentRecord agent))
    lift (require .invalid (boundOwner == owner))
    let found ← v.ancestor basis previous
    lift (require .invalid found)
    let flags ← v.branchFlags previous agent none
    lift (require .invalid !flags.retired)
    if !history || realm != v.evidence.realm then pure {}
    else v.closure accepted.ids (.agent owner agent) previous .opened
  | .sealHeads realm heads =>
    if !history || realm != v.evidence.realm then pure {}
    else v.closure heads.ids (.owner owner) previous .opened
  | .ratify realm heads =>
    if !history || realm != v.evidence.realm then pure {}
    else v.closure heads.ids (.owner owner) previous .ratify
  | .rotate _ => pure {}

end ControlView
end Valhalla.Social
