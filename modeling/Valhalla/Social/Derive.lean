import Valhalla.Social.Accounting

/-!
# Deriving a view (`ControlView::derive` of `vhalla-social`)
-/

namespace Maps
variable {κ ν : Type} {cmp : κ → κ → Ordering} [Std.TransCmp cmp]

/-- Change the entry of a key, if there is one (`get_mut`). -/
def adjust (m : Std.ExtTreeMap κ ν cmp) (k : κ) (f : ν → ν) : Std.ExtTreeMap κ ν cmp :=
  match m[k]? with
  | some v => m.insert k (f v)
  | none => m

def insertKeys (m : Std.ExtTreeSet κ cmp) (keys : List κ) : Std.ExtTreeSet κ cmp := keys.foldl (fun m k => m.insert k) m

end Maps

namespace Valhalla.Social
open Fallible FixedWidth Check

/-! ### Controls -/

namespace ControlView
variable (v : ControlView)

def reject (id : RecordId) : ControlView := { v with rejectedControls := v.rejectedControls.insert id }

def markIncomplete (owner : OwnerId) : ControlView :=
  { v with owners := Maps.adjust v.owners owner fun status => { status with incomplete := true } }

def freeze (owner : OwnerId) : ControlView :=
  { v with owners := Maps.adjust v.owners owner fun status => { status with frozen := true } }

def accept (owner : OwnerId) (closure : Closure) : ControlView :=
  { v with
    accepted := Maps.insertKeys v.accepted closure.ids
    historyComplete := v.historyComplete && !closure.incomplete
    incompleteHistoryOwners :=
      if closure.incomplete then v.incompleteHistoryOwners.insert owner else v.incompleteHistoryOwners }

end ControlView

def nextKey (parent : Node) : ControlAction → Bytes32
  | .rotate newKey => newKey
  | _ => parent.key

def grantOf (owner : OwnerId) : ControlAction → Option Grant
  | .grant agent realm rights expiresAt _ => some ⟨owner, agent, realm, rights, expiresAt⟩
  | _ => none

namespace ControlView
variable (v : ControlView)

def enter (id : RecordId) (owner : OwnerId) (previous : RecordId) (action : ControlAction) (parent : Node) : ControlView :=
  { v with
    nodes := v.nodes.insert id ⟨owner, some previous, nextKey parent action⟩
    grants :=
      match grantOf owner action with
      | some grant => v.grants.insert id grant
      | none => v.grants
    owners := Maps.adjust v.owners owner fun status =>
      { status with head := some id, key := some (nextKey parent action) } }

def enterGenesis (id : RecordId) (controller : Bytes32) : ControlView :=
  { v with
    nodes := v.nodes.insert id ⟨ownerId id, none, controller⟩
    owners := v.owners.insert (ownerId id) ⟨some id, some controller, false, false, false⟩ }

end ControlView

/-- The view and the queue of the search, with the children admitted at the current node. -/
structure Walk where
  view : ControlView
  queue : List RecordId
  budget : WorkBudget
  admitted : Nat

def seed (w : ControlView × List RecordId) (r : RecordId × Fact) : ControlView × List RecordId :=
  match r.2.body with
  | .ownerGenesis controller _ _ => if r.2.primary = controller then (w.1.enterGenesis r.1 controller, w.2 ++ [r.1]) else w
  | _ => w

/-- The controls that name this predecessor, in the order of their ids. -/
def childrenOf (e : Evidence) (previous : RecordId) : List (RecordId × Fact) :=
  e.records.filter fun r =>
    match r.2.body with
    | .control _ p _ => p == previous
    | _ => false

namespace Walk

def visitChild (previous : RecordId) (parent : Node) (w : Walk) (r : RecordId × Fact) : Walk :=
  match w.budget.spend with
  | (.error _, budget) => { w with budget }
  | (.ok (), budget) =>
    match r.2.body with
    | .control owner _ action =>
      if owner ≠ parent.owner ∨ r.2.primary ≠ parent.key then { w with view := w.view.reject r.1, budget }
      else match exec (w.view.action owner previous action false) budget with
        | (.ok closure, budget) =>
          { view := (w.view.enter r.1 owner previous action parent).accept owner closure
            queue := w.queue ++ [r.1]
            budget
            admitted := w.admitted + 1 }
        | (.error .pending, budget) => { w with view := w.view.markIncomplete owner, budget }
        | (.error .invalid, budget) => { w with view := w.view.reject r.1, budget }
    | _ => { w with budget }

def visit (w : Walk) (previous : RecordId) : Walk :=
  match w.view.nodes[previous]? with
  | none => w
  | some parent =>
    let w := (childrenOf w.view.evidence previous).foldl (visitChild previous parent) { w with admitted := 0 }
    if w.admitted > 1 then { w with view := w.view.freeze parent.owner } else w

/-- Every record is queued at most once, which bounds the turns. -/
def run : Nat → Walk → Walk
  | 0, w => w
  | n + 1, w =>
    match w.queue with
    | [] => w
    | previous :: queue => run n (visit { w with queue } previous)

def start (e : Evidence) (now : UInt64) : Walk :=
  let (view, queue) := e.records.foldl seed ({ evidence := e, now }, [])
  ⟨view, queue, .withLimit (2 * maxRecords * maxRecords + maxRecords), 0⟩

end Walk

def deriveControls (e : Evidence) (now : UInt64) : Walk := (Walk.start e now).run e.facts.size

namespace ControlView
variable (v : ControlView)

def settleForks : ControlView :=
  { v with owners := v.owners.map fun _ status => if status.frozen then { status with head := none, key := none } else status }

/-! ### Histories -/

def seals : ControlAction → Bool
  | .grant .. | .rotate _ => false
  | _ => true

def sealHistory (acc : ControlView × WorkBudget) (r : RecordId × Fact) : ControlView × WorkBudget :=
  if acc.1.nodes.contains r.1 then
    match r.2.body with
    | .control owner previous action =>
      if seals action then
        match exec (acc.1.action owner previous action true) acc.2 with
        | (.ok closure, budget) => (acc.1.accept owner closure, budget)
        | (.error _, budget) => (acc.1.accept owner { incomplete := true }, budget)
      else acc
    | _ => acc
  else acc

def deriveHistory (remaining : Nat) : ControlView × WorkBudget :=
  v.evidence.records.foldl sealHistory (v, .withLimit remaining)

def blockCapacity : ControlView :=
  let pressure := v.capacityPressure
  { v with owners := v.owners.map fun owner status =>
      { status with capacityBlocked := pressure.globalClosed || pressure.owners[owner]?.any OwnerPressure.closed } }

/-! ### Agents -/

def noteAgent (r : RecordId × Fact) : ControlView :=
  match r.2.body with
  | .agentGenesis .. =>
    match v.binding r.1 with
    | .ok (owner, _, key) => { v with agents := v.agents.insert (agentId r.1) ⟨owner, key, false, false, []⟩ }
    | .error _ => v
  | _ => v

def noteRetired (id : RecordId) : ControlView :=
  match v.evidence.body id with
  | some (.control _ _ (.retire agent ..)) =>
    { v with agents := Maps.adjust v.agents agent fun status => { status with retired := true } }
  | _ => v

def grantOpen (id : RecordId) (grant : Grant) (head : RecordId) : EvalM Bool := do
  match ← attempt some (v.ancestor id head) with
  | .ok true => do
    match ← attempt some (v.branchFlags head grant.agent (some id)) with
    | .ok flags => pure (!flags.retired && !flags.revoked && decide (v.now < grant.expiresAt))
    | .error _ => pure false
  | _ => pure false

def grantActive (id : RecordId) (grant : Grant) : EvalM Bool :=
  match v.owners[grant.owner]? with
  | some status =>
    if status.frozen || status.incomplete || status.capacityBlocked then pure false
    else match status.head with
      | some head => v.grantOpen id grant head
      | none => pure false
  | none => pure false

def noteGrant (acc : ControlView × WorkBudget) (g : RecordId × Grant) : ControlView × WorkBudget :=
  if g.2.realm ≠ acc.1.evidence.realm then acc
  else
    let (active, budget) := exec (acc.1.grantActive g.1 g.2) acc.2
    ({ acc.1 with agents := Maps.adjust acc.1.agents g.2.agent fun status =>
        { status with grantIds := status.grantIds ++ [g.1], active := status.active || active.toOption.getD false } }, budget)

def deriveAgents (budget : WorkBudget) : ControlView × WorkBudget :=
  let v := v.evidence.records.foldl noteAgent v
  let v := v.nodes.keys.foldl noteRetired v
  v.grants.toList.foldl noteGrant (v, budget)

/-! ### Social records -/

def live (actor : Actor) : EvalM Bool := do
  let owner ← lift (okOr .pending v.owners[actor.ownerOf]?)
  lift (require .pending !(owner.incomplete || owner.capacityBlocked))
  let head ← lift (okOr .invalid owner.head)
  match actor with
  | .owner _ control => pure (control == head)
  | .agent _ agent grant => do
    let g ← lift (okOr .pending v.grants[grant]?)
    let flags ← v.branchFlags head agent (some grant)
    let found ← v.ancestor grant head
    pure (found && !flags.retired && !flags.revoked && decide (v.now < g.expiresAt))

end ControlView

/-- The chains that hold, and the actors with two records behind one predecessor. -/
structure Writers where
  view : ControlView
  budget : WorkBudget
  valid : List (RecordId × Actor) := []
  siblings : List (Actor × Option RecordId) := []
  forked : List Actor := []

namespace ControlView
variable (v : ControlView)

def setStatus (id : RecordId) (status : SocialStatus) : ControlView := { v with statuses := v.statuses.insert id status }

def statusOf : Eval → SocialStatus
  | .pending => .pending
  | .invalid => .rejected

def noteSocial (w : Writers) (r : RecordId × Fact) : Writers :=
  match r.2.body with
  | .social actor _ _ previous _ =>
    match exec (w.view.chain r.1 (.owner actor.ownerOf) r.1 .unsealed) w.budget with
    | (.ok _, budget) =>
      { w with
        budget
        valid := w.valid ++ [(r.1, actor)]
        siblings := (actor, previous) :: w.siblings
        forked := if w.siblings.contains (actor, previous) then actor :: w.forked else w.forked }
    | (.error e, budget) => { w with view := w.view.setStatus r.1 (statusOf e), budget }
  | _ => w

def settle (forked : List Actor) (acc : ControlView × WorkBudget) (r : RecordId × Actor) : ControlView × WorkBudget :=
  if acc.1.owners[r.2.ownerOf]?.any OwnerStatus.frozen then (acc.1.setStatus r.1 .conflicted, acc.2)
  else if acc.1.accepted.contains r.1 then (acc.1.setStatus r.1 .committed, acc.2)
  else match exec (acc.1.live r.2) acc.2 with
    | (.ok false, budget) => (acc.1.setStatus r.1 .rejected, budget)
    | (.ok true, budget) => (acc.1.setStatus r.1 (if forked.contains r.2 then .conflicted else .provisional), budget)
    | (.error e, budget) => (acc.1.setStatus r.1 (statusOf e), budget)

def deriveSocial (budget : WorkBudget) : ControlView × WorkBudget :=
  let w := v.evidence.records.foldl noteSocial { view := v, budget }
  w.valid.foldl (settle w.forked) (w.view, w.budget)

/-- Exhausted work leaves everything open. -/
def withhold : ControlView :=
  { v with
    historyComplete := false
    incompleteHistoryOwners := Maps.insertKeys v.incompleteHistoryOwners v.owners.keys
    owners := v.owners.map fun _ status => { status with incomplete := true }
    agents := v.agents.map fun _ status => { status with active := false }
    statuses := v.statuses.map fun _ _ => .pending }

end ControlView

/-- A view with the work that its phases left over. -/
structure Derivation where
  view : ControlView
  controls : WorkBudget
  history : WorkBudget
  activity : WorkBudget
  social : WorkBudget

def derive (e : Evidence) (now : UInt64) (historyWork : Nat) : Derivation :=
  let controls := deriveControls e now
  let (view, history) := controls.view.settleForks.deriveHistory historyWork
  let (view, activity) := view.blockCapacity.deriveAgents (.withLimit (2 * maxRecords * maxRecords))
  let (view, social) := view.deriveSocial (.withLimit (maxRecords * maxRecords))
  { view := if controls.budget.exhausted || activity.exhausted || social.exhausted then view.withhold else view
    controls := controls.budget
    history
    activity
    social }

def ControlView.new (e : Evidence) (now : UInt64) : ControlView := (derive e now (maxRecords * maxRecords)).view

namespace ControlView
variable (v : ControlView)

def socialStatus (id : RecordId) : SocialStatus := v.statuses[id]?.getD .pending

def ownerHistoryComplete (owner : OwnerId) : Bool := v.owners.contains owner && !v.incompleteHistoryOwners.contains owner

end ControlView

/-! ### What the phases keep -/

theorem contains_of_mem_records {e : Evidence} {r : RecordId × Fact} (h : r ∈ e.records) : e.facts.contains r.1 = true := by
  rw [Std.ExtTreeMap.contains_eq_isSome_getElem?, Std.ExtTreeMap.mem_toList_iff_getElem?_eq_some.1 h]
  rfl

/-- The changes that the admission of controls makes to a view keep a property. -/
structure KeptByControls (e : Evidence) (P : ControlView → Prop) : Prop where
  genesis : ∀ v id controller, e.facts.contains id = true → P v → P (v.enterGenesis id controller)
  reject : ∀ v id, P v → P (v.reject id)
  incomplete : ∀ v owner, P v → P (v.markIncomplete owner)
  freeze : ∀ v owner, P v → P (v.freeze owner)
  enter : ∀ v id owner previous action parent closure,
    P v → P ((v.enter id owner previous action parent).accept owner closure)

namespace KeptByControls
variable {e : Evidence} {P : ControlView → Prop} (h : KeptByControls e P)
include h

theorem visitChild {w : Walk} (hw : P w.view) (previous : RecordId) (parent : Node) (r : RecordId × Fact) :
    P (w.visitChild previous parent r).view := by
  unfold Walk.visitChild
  split
  · exact hw
  · split
    · split
      · exact h.reject _ _ hw
      · split
        · exact h.enter _ _ _ _ _ _ _ hw
        · exact h.incomplete _ _ hw
        · exact h.reject _ _ hw
    · exact hw

theorem visit {w : Walk} (hw : P w.view) (previous : RecordId) : P (w.visit previous).view := by
  unfold Walk.visit
  split
  · exact hw
  · rename_i parent hparent
    have hfold : P ((childrenOf w.view.evidence previous).foldl (Walk.visitChild previous parent) { w with admitted := 0 }).view := by
      refine List.foldlRecOn (motive := fun w : Walk => P w.view) _ _ hw fun w hw r _ => ?_
      exact h.visitChild hw previous parent r
    dsimp only
    split
    · exact h.freeze _ _ hfold
    · exact hfold

theorem run (n : Nat) {w : Walk} (hw : P w.view) : P (w.run n).view := by
  induction n generalizing w with
  | zero => exact hw
  | succ n ih =>
    rw [Walk.run]
    split
    · exact hw
    · rename_i previous queue _
      exact ih (h.visit (w := { w with queue }) hw previous)

theorem derive {now : UInt64} (hstart : P { evidence := e, now }) : P (deriveControls e now).view := by
  refine h.run _ ?_
  refine List.foldlRecOn (motive := fun w : ControlView × List RecordId => P w.1) e.records seed hstart fun w hw r hr => ?_
  unfold seed
  split
  · split
    · exact h.genesis _ _ _ (contains_of_mem_records hr) hw
    · exact hw
  · exact hw

end KeptByControls

/-- The changes that the phases behind the controls make keep a property. -/
structure KeptByReading (e : Evidence) (P : ControlView → Prop) : Prop where
  accept : ∀ v owner closure, P v → P (v.accept owner closure)
  block : ∀ v, P v → P v.blockCapacity
  agent : ∀ v id status, e.facts.contains id = true → P v → P { v with agents := v.agents.insert (agentId id) status }
  adjust : ∀ v agent f, P v → P { v with agents := Maps.adjust v.agents agent f }
  status : ∀ v id status, P v → P (v.setStatus id status)
  withhold : ∀ v, P v → P v.withhold

namespace KeptByReading
variable {e : Evidence} {P : ControlView → Prop} (h : KeptByReading e P)
include h

theorem history {v : ControlView} (hv : P v) (remaining : Nat) : P (v.deriveHistory remaining).1 := by
  refine List.foldlRecOn (motive := fun acc : ControlView × WorkBudget => P acc.1) _ ControlView.sealHistory hv fun acc hacc r _ => ?_
  unfold ControlView.sealHistory
  split
  · split
    · split
      · split
        · exact h.accept _ _ _ hacc
        · exact h.accept _ _ _ hacc
      · exact hacc
    · exact hacc
  · exact hacc

theorem noteAgent {v : ControlView} {r : RecordId × Fact} (hr : e.facts.contains r.1 = true) (hv : P v) : P (v.noteAgent r) := by
  unfold ControlView.noteAgent
  split
  · split
    · exact h.agent _ _ _ hr hv
    · exact hv
  · exact hv

theorem agents {v : ControlView} (he : v.evidence = e) (hv : P v) (budget : WorkBudget) : P (v.deriveAgents budget).1 := by
  have hnoted : P (v.evidence.records.foldl ControlView.noteAgent v) := by
    refine List.foldlRecOn (motive := P) _ ControlView.noteAgent hv fun v hv r hr => h.noteAgent ?_ hv
    rw [he] at hr
    exact contains_of_mem_records hr
  have hretired := List.foldlRecOn (motive := P) (v.evidence.records.foldl ControlView.noteAgent v).nodes.keys
    ControlView.noteRetired hnoted fun v hv id _ => by
      unfold ControlView.noteRetired
      split
      · exact h.adjust _ _ _ hv
      · exact hv
  refine List.foldlRecOn (motive := fun acc : ControlView × WorkBudget => P acc.1) _ ControlView.noteGrant hretired
    fun acc hacc g _ => ?_
  unfold ControlView.noteGrant
  split
  · exact hacc
  · exact h.adjust _ _ _ hacc

theorem social {v : ControlView} (hv : P v) (budget : WorkBudget) : P (v.deriveSocial budget).1 := by
  have hnoted : P (v.evidence.records.foldl ControlView.noteSocial { view := v, budget }).view := by
    refine List.foldlRecOn (motive := fun w : Writers => P w.view) _ ControlView.noteSocial hv fun w hw r _ => ?_
    unfold ControlView.noteSocial
    split
    · split
      · exact hw
      · exact h.status _ _ _ hw
    · exact hw
  refine List.foldlRecOn (motive := fun acc : ControlView × WorkBudget => P acc.1) _ _ hnoted fun acc hacc r _ => ?_
  unfold ControlView.settle
  split
  · exact h.status _ _ _ hacc
  · split
    · exact h.status _ _ _ hacc
    · split
      · exact h.status _ _ _ hacc
      · exact h.status _ _ _ hacc
      · exact h.status _ _ _ hacc

end KeptByReading

theorem evidence_deriveControls (e : Evidence) (now : UInt64) : (deriveControls e now).view.evidence = e :=
  KeptByControls.derive (P := fun v => v.evidence = e)
    ⟨fun _ _ _ _ hv => hv, fun _ _ hv => hv, fun _ _ hv => hv, fun _ _ hv => hv, fun _ _ _ _ _ _ _ hv => hv⟩ rfl

theorem keepsEvidence (e : Evidence) : KeptByReading e fun v => v.evidence = e :=
  ⟨fun _ _ _ hv => hv, fun _ hv => hv, fun _ _ _ _ hv => hv, fun _ _ _ hv => hv, fun _ _ _ hv => hv, fun _ hv => hv⟩

theorem KeptByReading.derive {e : Evidence} {P : ControlView → Prop} (h : KeptByReading e P) {now : UInt64}
    (hv : P (deriveControls e now).view.settleForks) (historyWork : Nat) : P (Social.derive e now historyWork).view := by
  have hhistory := h.history hv historyWork
  have hsettled : (deriveControls e now).view.settleForks.evidence = e := evidence_deriveControls e now
  have hevidence := (keepsEvidence e).block _ ((keepsEvidence e).history hsettled historyWork)
  have hview : ∀ (c : Bool) (v : ControlView), P v → P (if c then v.withhold else v) := by
    intro c v hv
    cases c
    · exact hv
    · exact h.withhold v hv
  rw [Social.derive]
  refine hview _ _ (h.social ?_ _)
  exact h.agents hevidence (h.block _ hhistory) _

theorem evidence_derive (e : Evidence) (now : UInt64) (historyWork : Nat) : (derive e now historyWork).view.evidence = e :=
  (keepsEvidence e).derive (evidence_deriveControls e now) historyWork

theorem ControlView.evidence_new (e : Evidence) (now : UInt64) : (ControlView.new e now).evidence = e := by
  rw [ControlView.new]
  exact evidence_derive e now (maxRecords * maxRecords)

end Valhalla.Social
