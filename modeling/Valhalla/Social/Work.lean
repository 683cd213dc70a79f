import Mathlib.Tactic.Linarith
import Valhalla.Lib.Meter
import Valhalla.Social.Forks

/-!
# The work of a derivation

Every walk along the controls ends after as many turns as its node has predecessors, and a chain of social records after as many as there
are records (`Depth`, `chain_takes`). Over `N` retained records this keeps the three phases with a fixed budget within it: no control is
visited twice, a grant costs two walks, and a social record one chain and at most two walks.
-/

namespace Valhalla.Social
open Fallible FixedWidth Check

/-! ### Work -/

def work : Meter WorkBudget where
  left := WorkBudget.remaining
  refused := WorkBudget.exhausted
  more k b := ⟨b.remaining + k, b.exhausted⟩

theorem exec_spend (left : Nat) (refused : Bool) : exec spend ⟨left + 1, refused⟩ = (.ok (), ⟨left, refused⟩) := rfl

theorem takes_spend : work.Takes spend 1 := by
  rintro ⟨left, refused⟩ hleft
  cases left with
  | zero => exact absurd hleft (Nat.not_succ_le_zero 0)
  | succ n =>
    refine ⟨⟨rfl, Nat.le_refl _⟩, fun k => ?_⟩
    show WorkBudget.spend ⟨n + 1 + k, refused⟩ = (.ok (), ⟨n + k, refused⟩)
    rw [Nat.add_right_comm]
    rfl

section
variable {α β : Type} {x : Except Eval α} {f : α → EvalM β} {n : Nat}

theorem takes_lift_bind (h : ∀ a, x = .ok a → work.Takes (f a) n) : work.Takes (lift x >>= f) n := .check h

end

/-! ### Paths -/

namespace ControlView

/-- The node is the `n`-th of its path. -/
inductive Depth (v : ControlView) : RecordId → Nat → Prop
  | root {id : RecordId} {node : Node} (h : v.nodes[id]? = some node) (hroot : node.previous = none) : Depth v id 1
  | child {id p : RecordId} {node : Node} {n : Nat} (h : v.nodes[id]? = some node) (hp : node.previous = some p) (hdepth : Depth v p n) :
      Depth v id (n + 1)

/-- No path is longer than `c`. -/
structure Shallow (v : ControlView) (c : Nat) : Prop where
  pos : 0 < c
  depth : ∀ (id : RecordId) (node : Node), v.nodes[id]? = some node → ∃ n ≤ c, v.Depth id n

variable {v v' : ControlView} {id head : RecordId} {n c : Nat}

theorem node_eq_ok {node : Node} : v.node id = .ok node ↔ v.nodes[id]? = some node := okOr_eq_ok

theorem Depth.mono (h : v.Depth id n) (hkept : ∀ (id : RecordId) (node : Node), v.nodes[id]? = some node → v'.nodes[id]? = some node) :
    v'.Depth id n := by
  induction h with
  | root h hroot => exact .root (hkept _ _ h) hroot
  | child h hp _ ih => exact .child (hkept _ _ h) hp ih

theorem exec_ancestor (a : RecordId) (b : WorkBudget) : exec (v.ancestor a head) b = exec (do
    spend
    if a = head then pure true
    else do
      let node ← lift (v.node head)
      match node.previous with
      | none => pure false
      | some previous => v.ancestor a previous) b := by
  obtain ⟨left, refused⟩ := b
  cases left with
  | zero => rfl
  | succ left =>
    rw [exec_bind_ok (exec_spend left refused)]
    show v.ancestorLoop a (left + 1) refused head = _
    rw [ancestorLoop]
    split
    · rfl
    · cases hnode : v.node head with
      | error e => rfl
      | ok node =>
        rw [lift, exec_examine_bind]
        dsimp only
        cases node.previous <;> rfl

/-- The walk with what was noted before it. -/
def branchFlagsFrom (v : ControlView) (flags : BranchFlags) (head : RecordId) (agent : AgentId) (grant : Option RecordId) : EvalM BranchFlags :=
  of fun b => v.branchFlagsLoop agent grant b.remaining b.exhausted flags head

theorem exec_branchFlagsFrom (flags : BranchFlags) (agent : AgentId) (grant : Option RecordId) (b : WorkBudget) :
    exec (v.branchFlagsFrom flags head agent grant) b = exec (do
      spend
      let node ← lift (v.node head)
      match node.previous with
      | none => pure (flags.note agent grant (v.evidence.body head))
      | some previous => v.branchFlagsFrom (flags.note agent grant (v.evidence.body head)) previous agent grant) b := by
  obtain ⟨left, refused⟩ := b
  cases left with
  | zero => rfl
  | succ left =>
    rw [exec_bind_ok (exec_spend left refused)]
    show v.branchFlagsLoop agent grant (left + 1) refused flags head = _
    rw [branchFlagsLoop]
    cases hnode : v.node head with
    | error e => rfl
    | ok node =>
      rw [lift, exec_examine_bind]
      dsimp only
      cases node.previous <;> rfl

theorem Depth.ancestor (h : v.Depth head n) (a : RecordId) : work.Takes (v.ancestor a head) n := by
  induction h with
  | @root id node h hroot =>
    refine (takes_spend.bind (k := 0) fun _ _ _ _ => ?_).congr (exec_ancestor a)
    split
    · exact .pure true
    · refine takes_lift_bind fun node' hnode => ?_
      rw [Option.some.inj ((node_eq_ok.1 hnode).symm.trans h), hroot]
      exact .pure false
  | @child id p node n h hp hdepth ih =>
    refine ((takes_spend.bind (k := n) fun _ _ _ _ => ?_).congr (exec_ancestor a)).mono (Nat.add_comm 1 n).le
    split
    · exact (Meter.Takes.pure true).mono (Nat.zero_le n)
    · refine takes_lift_bind fun node' hnode => ?_
      rw [Option.some.inj ((node_eq_ok.1 hnode).symm.trans h), hp]
      exact ih

theorem Depth.branchFlagsFrom (h : v.Depth head n) (flags : BranchFlags) (agent : AgentId) (grant : Option RecordId) :
    work.Takes (v.branchFlagsFrom flags head agent grant) n := by
  induction h generalizing flags with
  | @root id node h hroot =>
    refine (takes_spend.bind (k := 0) fun _ _ _ _ => ?_).congr (exec_branchFlagsFrom flags agent grant)
    refine takes_lift_bind fun node' hnode => ?_
    rw [Option.some.inj ((node_eq_ok.1 hnode).symm.trans h), hroot]
    exact .pure _
  | @child id p node n h hp hdepth ih =>
    refine ((takes_spend.bind (k := n) fun _ _ _ _ => ?_).congr (exec_branchFlagsFrom flags agent grant)).mono (Nat.add_comm 1 n).le
    refine takes_lift_bind fun node' hnode => ?_
    rw [Option.some.inj ((node_eq_ok.1 hnode).symm.trans h), hp]
    exact ih _

/-- What the walks from a node cost. -/
structure Near (v : ControlView) (head : RecordId) (c : Nat) : Prop where
  ancestor : ∀ a, work.Takes (v.ancestor a head) c
  flags : ∀ agent grant, work.Takes (v.branchFlags head agent grant) c

theorem Near.mono (h : v.Near head n) (hle : n ≤ c) : v.Near head c :=
  ⟨fun a => (h.ancestor a).mono hle, fun agent grant => (h.flags agent grant).mono hle⟩

theorem Depth.near (h : v.Depth head n) : v.Near head n := ⟨h.ancestor, h.branchFlagsFrom {}⟩

theorem near_of_none (h : v.nodes[head]? = none) : v.Near head 1 := by
  have hnode : ∀ node, v.node head ≠ .ok node := fun node he => by
    rw [node_eq_ok, h] at he
    cases he
  refine ⟨fun a => (takes_spend.bind (k := 0) fun _ _ _ _ => ?_).congr (exec_ancestor a), fun agent grant =>
    (takes_spend.bind (k := 0) fun _ _ _ _ => ?_).congr (exec_branchFlagsFrom {} agent grant)⟩
  · split
    · exact .pure true
    · exact takes_lift_bind fun node he => absurd he (hnode node)
  · exact takes_lift_bind fun node he => absurd he (hnode node)

theorem Shallow.near (h : v.Shallow c) (head : RecordId) : v.Near head c := by
  cases hnode : v.nodes[head]? with
  | some node =>
    obtain ⟨n, hle, hdepth⟩ := h.depth head node hnode
    exact hdepth.near.mono hle
  | none => exact (near_of_none hnode).mono h.pos

theorem Near.action {previous : RecordId} (h : v.Near previous c) (owner : OwnerId) (a : ControlAction) :
    work.Takes (v.action owner previous a false) (2 * c) := by
  have hpure : work.Takes (pure {} : EvalM Closure) 0 := .pure _
  cases a with
  | grant agent =>
    refine takes_lift_bind fun binding _ => takes_lift_bind fun _ _ => ?_
    refine ((h.flags agent none).bind (k := 0) fun flags _ _ _ => takes_lift_bind fun _ _ => hpure).mono ?_
    omega
  | revoke grant accepted =>
    refine takes_lift_bind fun g _ => takes_lift_bind fun _ _ => ?_
    refine ((h.ancestor grant).bind (k := c) fun found _ _ _ => takes_lift_bind fun _ _ => ?_).mono (by omega)
    exact (h.flags g.agent (some grant)).bind (k := 0) fun flags _ _ _ => takes_lift_bind fun _ _ => hpure
  | retire agent realm accepted =>
    refine takes_lift_bind fun binding _ => takes_lift_bind fun _ _ => ?_
    refine ((h.ancestor binding.2.1).bind (k := c) fun found _ _ _ => takes_lift_bind fun _ _ => ?_).mono (by omega)
    exact (h.flags agent none).bind (k := 0) fun flags _ _ _ => takes_lift_bind fun _ _ => hpure
  | sealHeads => exact hpure.mono (Nat.zero_le _)
  | ratify => exact hpure.mono (Nat.zero_le _)
  | rotate => exact hpure.mono (Nat.zero_le _)

end ControlView

/-! ### Controls -/

def Walk.meter : Meter Walk where
  left w := w.budget.remaining
  refused w := w.budget.exhausted
  more k w := { w with budget := work.more k w.budget }

namespace Walk
variable {e : Evidence} {w : Walk} {previous : RecordId} {parent : Node} {c n : Nat} {visited queue : List RecordId}

/-- A visit behind the unit that it costs. -/
def admitChild (previous : RecordId) (parent : Node) (w : Walk) (r : RecordId × Fact) : Walk :=
  match r.2.body with
  | .control owner _ action =>
    if owner ≠ parent.owner ∨ r.2.primary ≠ parent.key then { w with view := w.view.reject r.1 }
    else match exec (w.view.action owner previous action false) w.budget with
      | (.ok closure, budget) =>
        { view := (w.view.enter r.1 owner previous action parent).accept owner closure
          queue := w.queue ++ [r.1]
          budget
          admitted := w.admitted + 1 }
      | (.error .pending, budget) => { w with view := w.view.markIncomplete owner, budget }
      | (.error .invalid, budget) => { w with view := w.view.reject r.1, budget }
  | _ => w

theorem visitChild_eq {left : Nat} {refused : Bool} (r : RecordId × Fact) (hbudget : w.budget = ⟨left + 1, refused⟩) :
    w.visitChild previous parent r = { w with budget := ⟨left, refused⟩ }.admitChild previous parent r := by
  unfold visitChild admitChild
  rw [hbudget]
  rfl

theorem admitChild_spends (parent : Node) (h : w.view.Near previous c) (r : RecordId × Fact) (hleft : 2 * c ≤ w.budget.remaining) :
    meter.Spends (fun w => w.admitChild previous parent r) (2 * c) w := by
  unfold admitChild
  cases r.2.body with
  | control owner p action =>
    dsimp only
    by_cases hmatch : owner ≠ parent.owner ∨ r.2.primary ≠ parent.key
    · refine ⟨?_, fun k => ?_⟩
      · rw [if_pos hmatch]
        exact ⟨rfl, Nat.le_add_right _ _⟩
      · rw [if_pos hmatch, if_pos hmatch]
        rfl
    · obtain ⟨hwithin, hmore⟩ := h.action owner action w.budget hleft
      refine ⟨?_, fun k => ?_⟩
      · rw [if_neg hmatch]
        rcases hexec : exec (w.view.action owner previous action false) w.budget with ⟨(_ | _) | closure, budget⟩ <;>
          exact ⟨(hexec ▸ hwithin).refused, (hexec ▸ hwithin).left⟩
      · rw [if_neg hmatch, if_neg hmatch]
        have hmore := hmore k
        rcases hexec : exec (w.view.action owner previous action false) w.budget with ⟨(_ | _) | closure, budget⟩ <;>
          rw [hexec] at hmore <;> dsimp only [meter] <;> rw [hmore]
  | ownerGenesis => exact .refl
  | agentGenesis => exact .refl
  | social => exact .refl

theorem visitChild_spends (h : w.view.Near previous c) (r : RecordId × Fact) (hleft : 2 * c + 1 ≤ w.budget.remaining) :
    meter.Spends (fun w => w.visitChild previous parent r) (2 * c + 1) w := by
  obtain ⟨left, hbudget⟩ : ∃ left, w.budget.remaining = left + 1 := ⟨w.budget.remaining - 1, by omega⟩
  have hbudget : w.budget = ⟨left + 1, w.budget.exhausted⟩ := by rw [← hbudget]
  have hbudget' : ∀ k, (meter.more k w).budget = ⟨left + k + 1, w.budget.exhausted⟩ := fun k => by
    show WorkBudget.mk (w.budget.remaining + k) w.budget.exhausted = _
    rw [hbudget, Nat.add_right_comm]
  have hspends := admitChild_spends parent (w := { w with budget := ⟨left, w.budget.exhausted⟩ }) h r (by
    rw [hbudget] at hleft
    exact Nat.le_of_succ_le_succ hleft)
  refine ⟨?_, fun k => ?_⟩
  · rw [visitChild_eq r hbudget]
    refine ⟨hspends.refused, ?_⟩
    have hrest : left ≤ _ + 2 * c := hspends.left
    have hone : w.budget.remaining = left + 1 := by rw [hbudget]
    show w.budget.remaining ≤ _ + (2 * c + 1)
    rw [hone]
    exact Nat.succ_le_succ hrest
  · rw [visitChild_eq r hbudget, visitChild_eq r (hbudget' k)]
    exact hspends.more k

/-- The nodes of `v` are as they were. -/
def Keeps (v v' : ControlView) : Prop := ∀ (id : RecordId) (node : Node), v.nodes[id]? = some node → v'.nodes[id]? = some node

theorem visitChildren_spends (parent : Node) {v : ControlView} {children : List (RecordId × Fact)} (hn : ∃ m ≤ c, v.Depth previous m)
    (hchildren : ∀ r ∈ children, r ∈ childrenOf e previous ∧ v.nodes[r.1]? = none) (hw : Keeps v w.view)
    (hleft : (2 * c + 1) * children.length ≤ w.budget.remaining) :
    meter.Spends (fun w => children.foldl (visitChild previous parent) w) ((2 * c + 1) * children.length) w ∧
      Keeps v (children.foldl (visitChild previous parent) w).view := by
  have hcost : (children.map fun _ => 2 * c + 1).sum = (2 * c + 1) * children.length := by
    rw [List.map_const', List.sum_replicate_nat, Nat.mul_comm]
  rw [← hcost] at hleft ⊢
  refine Meter.Spends.foldl (I := fun w : Walk => Keeps v w.view) (fun w r hr hw hleft => ?_) hw hleft
  obtain ⟨m, hle, hdepth⟩ := hn
  refine ⟨visitChild_spends ((hdepth.mono hw).near.mono hle) r hleft, fun id node hnode => ?_⟩
  obtain ⟨added, hvisits⟩ := visits_child (hchildren r hr).1 w
  rw [hvisits.adds.kept id fun hid => ?_]
  · exact hw id node hnode
  · rw [List.mem_singleton.1 (hvisits.sublist.subset hid), (hchildren r hr).2] at hnode
    cases hnode

def closeVisit (parent : Node) (w : Walk) : Walk := if w.admitted > 1 then { w with view := w.view.freeze parent.owner } else w

theorem visit_eq (hevidence : w.view.evidence = e) (hparent : w.view.nodes[previous]? = some parent) :
    w.visit previous = closeVisit parent ((childrenOf e previous).foldl (visitChild previous parent) { w with admitted := 0 }) := by
  unfold visit
  rw [hparent]
  dsimp only
  rw [hevidence]
  rfl

theorem closeVisit_spends (parent : Node) : meter.Spends (closeVisit parent) 0 w := by
  unfold closeVisit
  refine ⟨?_, fun k => ?_⟩
  · split <;> exact ⟨rfl, Nat.le_refl _⟩
  · rw [show (meter.more k w).admitted = w.admitted from rfl]
    split <;> rfl

theorem visit_spends (h : Grown e visited w.view (previous :: queue)) (hn : ∃ m ≤ c, w.view.Depth previous m)
    (hleft : (2 * c + 1) * (childrenOf e previous).length ≤ w.budget.remaining) :
    meter.Spends (fun w => w.visit previous) ((2 * c + 1) * (childrenOf e previous).length) w ∧ Keeps w.view (w.visit previous).view := by
  obtain ⟨parent, hparent⟩ := (h.reached previous).2 (.inr List.mem_cons_self)
  have hchildren : ∀ r ∈ childrenOf e previous, r ∈ childrenOf e previous ∧ w.view.nodes[r.1]? = none := fun r hr => by
    obtain ⟨hget, owner, action, hbody⟩ := mem_childrenOf.1 hr
    have hcontrol : e.body r.1 = some (.control owner previous action) := by rw [Evidence.body, hget, Option.map_some, hbody]
    exact ⟨hr, h.absent (h.apart previous List.mem_cons_self) hcontrol⟩
  have hreset : meter.Spends (fun w => { w with admitted := 0 }) 0 w := ⟨⟨rfl, Nat.le_refl _⟩, fun _ => rfl⟩
  obtain ⟨hspends, hkeeps⟩ := visitChildren_spends parent (w := { w with admitted := 0 }) hn hchildren (fun _ _ hnode => hnode) hleft
  have hall := (hreset.comp hspends).comp (closeVisit_spends parent)
  rw [Nat.zero_add, Nat.add_zero] at hall
  refine ⟨hall.congr (visit_eq h.evidence hparent) fun k => visit_eq (w := meter.more k w) h.evidence hparent, fun id node hnode => ?_⟩
  rw [visit_eq h.evidence hparent]
  unfold closeVisit
  split
  · exact hkeeps id node hnode
  · exact hkeeps id node hnode

end Walk

/-! ### Counts -/

def isControl : Body → Bool
  | .control .. => true
  | _ => false

def openControls (e : Evidence) (visited : List RecordId) : Nat :=
  e.records.countP fun r =>
    match r.2.body with
    | .control _ p _ => !visited.contains p
    | _ => false

theorem openControls_visit {e : Evidence} {visited : List RecordId} {previous : RecordId} (h : previous ∉ visited) :
    openControls e visited = (childrenOf e previous).length + openControls e (visited ++ [previous]) := by
  unfold openControls childrenOf
  induction e.records with
  | nil => rfl
  | cons r records ih =>
    rw [List.countP_cons, List.countP_cons, List.filter_cons, ih]
    cases r.2.body with
    | control owner p action =>
      by_cases hp : p = previous
      · subst hp
        simp [h]
        omega
      · have hne : (p == previous) = false := beq_false_of_ne hp
        simp [hp, hne]
        omega
    | _ => simp

theorem length_records (e : Evidence) : e.records.length = e.facts.size := Std.ExtTreeMap.length_toList

theorem length_le_plane {e : Evidence} {ids : List RecordId} (hnodup : ids.Nodup)
    (hplane : ∀ id ∈ ids, ∃ body, e.body id = some body ∧ isControlPlane body = true) :
    ids.length ≤ e.records.countP fun r => isControlPlane r.2.body := by
  have hsub : ids ⊆ (e.records.filter fun r => isControlPlane r.2.body).map Prod.fst := by
    intro id hid
    obtain ⟨body, hbody, htrue⟩ := hplane id hid
    rw [Evidence.body, Option.map_eq_some_iff] at hbody
    obtain ⟨fact, hfact, rfl⟩ := hbody
    refine List.mem_map.2 ⟨(id, fact), List.mem_filter.2 ⟨?_, htrue⟩, rfl⟩
    exact Std.ExtTreeMap.mem_toList_iff_getElem?_eq_some.2 hfact
  have hle := (hnodup.subperm hsub).length_le
  rwa [List.length_map, ← List.countP_eq_length_filter] at hle

/-! ### The search -/

namespace Walk
variable {e : Evidence} {w : Walk} {previous : RecordId} {c n : Nat} {visited queue : List RecordId}

/-- What was visited and what is queued comes in an order in which every path goes back. -/
structure Ordered (e : Evidence) (visited : List RecordId) (w : Walk) : Prop where
  grown : Grown e visited w.view w.queue
  nodup : visited.Nodup
  depth : ∀ (id : RecordId) (node : Node), w.view.nodes[id]? = some node → ∃ n ≤ (visited ++ w.queue).length, w.view.Depth id n

namespace Ordered

theorem order_nodup (h : Ordered e visited w) : (visited ++ w.queue).Nodup :=
  List.nodup_append.2 ⟨h.nodup, h.grown.queued, fun _ hv _ hq he => h.grown.apart _ hq (he ▸ hv)⟩

theorem order_le (h : Ordered e visited w) : (visited ++ w.queue).length ≤ e.records.countP fun r => isControlPlane r.2.body := by
  refine length_le_plane h.order_nodup fun id hid => ?_
  obtain ⟨node, hnode⟩ := (h.grown.reached id).2 (List.mem_append.1 hid)
  cases hp : node.previous with
  | none =>
    obtain ⟨recovery, nonce, hbody⟩ := h.grown.root id node hnode hp
    exact ⟨_, hbody, rfl⟩
  | some p =>
    obtain ⟨-, action, hbody⟩ := h.grown.child id node p hnode hp
    exact ⟨_, hbody, rfl⟩

theorem visit (h : Ordered e visited w) (hqueue : w.queue = previous :: queue) (hkeeps : Keeps w.view (({ w with queue } : Walk).visit previous).view) :
    Ordered e (visited ++ [previous]) (({ w with queue } : Walk).visit previous) := by
  have hgrown := h.grown
  rw [hqueue] at hgrown
  have hnew := hgrown.visit
  have hprevious := hgrown.apart previous List.mem_cons_self
  have hnodup : (visited ++ [previous]).Nodup :=
    List.nodup_append.2 ⟨h.nodup, List.nodup_singleton _, fun _ hv _ hq he => hprevious (List.mem_singleton.1 hq ▸ he ▸ hv)⟩
  have hold : ∀ id, id ∈ visited ++ w.queue ↔ ∃ node, w.view.nodes[id]? = some node := fun id => by
    rw [List.mem_append, h.grown.reached]
  have hmem : ∀ id, id ∈ (visited ++ [previous]) ++ (({ w with queue } : Walk).visit previous).queue ↔
      ∃ node, (({ w with queue } : Walk).visit previous).view.nodes[id]? = some node := fun id => by
    rw [List.mem_append, hnew.reached]
  have hsub : visited ++ w.queue ⊆ (visited ++ [previous]) ++ (({ w with queue } : Walk).visit previous).queue := fun id hid => by
    obtain ⟨node, hnode⟩ := (hold id).1 hid
    exact (hmem id).2 ⟨node, hkeeps id node hnode⟩
  refine ⟨hnew, hnodup, fun id node hnode => ?_⟩
  by_cases hid : id ∈ visited ++ w.queue
  · obtain ⟨node₀, hnode₀⟩ := (hold id).1 hid
    obtain ⟨n, hle, hdepth⟩ := h.depth id node₀ hnode₀
    exact ⟨n, Nat.le_trans hle (h.order_nodup.subperm hsub).length_le, hdepth.mono hkeeps⟩
  · have hcons : (id :: (visited ++ w.queue)).length ≤ _ :=
      ((List.nodup_cons.2 ⟨hid, h.order_nodup⟩).subperm (List.cons_subset.2 ⟨(hmem id).2 ⟨node, hnode⟩, hsub⟩)).length_le
    cases hp : node.previous with
    | none => exact ⟨1, Nat.le_trans (Nat.succ_le_succ (Nat.zero_le _)) hcons, .root hnode hp⟩
    | some p =>
      obtain ⟨hvisited, -⟩ := hnew.child id node p hnode hp
      have hp₀ : p ∈ visited ++ w.queue := by
        rw [hqueue, List.mem_append]
        rcases List.mem_append.1 hvisited with hv | hv
        · exact .inl hv
        · exact .inr (List.mem_singleton.1 hv ▸ List.mem_cons_self)
      obtain ⟨node₀, hnode₀⟩ := (hold p).1 hp₀
      obtain ⟨n, hle, hdepth⟩ := h.depth p node₀ hnode₀
      exact ⟨n + 1, Nat.le_trans (Nat.succ_le_succ hle) hcons, .child hnode hp (hdepth.mono hkeeps)⟩

end Ordered

theorem run_spends (turns : Nat) (h : Ordered e visited w) (hc : (e.records.countP fun r => isControlPlane r.2.body) ≤ c)
    (hleft : (2 * c + 1) * openControls e visited ≤ w.budget.remaining) :
    meter.Spends (fun w => w.run turns) ((2 * c + 1) * openControls e visited) w ∧ ∃ visited', Ordered e visited' (w.run turns) := by
  induction turns generalizing visited w with
  | zero => exact ⟨.refl, visited, h⟩
  | succ turns ih =>
    cases hqueue : w.queue with
    | nil =>
      have hstop : ∀ k, (meter.more k w).run (turns + 1) = meter.more k w := fun k => by
        rw [run, show (meter.more k w).queue = w.queue from rfl, hqueue]
      have hrun : w.run (turns + 1) = w := by rw [run, hqueue]
      rw [hrun]
      exact ⟨Meter.Spends.refl.congr hrun hstop, visited, h⟩
    | cons previous queue =>
      have hgrown := h.grown
      rw [hqueue] at hgrown
      have hopen := openControls_visit (e := e) (hgrown.apart previous List.mem_cons_self)
      rw [hopen, Nat.mul_add] at hleft
      obtain ⟨node, hnode⟩ := (hgrown.reached previous).2 (.inr List.mem_cons_self)
      obtain ⟨n, hle, hdepth⟩ := h.depth previous node hnode
      obtain ⟨hvisit, hkeeps⟩ := visit_spends (w := { w with queue }) (c := c) hgrown ⟨n, Nat.le_trans (Nat.le_trans hle h.order_le) hc, hdepth⟩
        (Nat.le_trans (Nat.le_add_right _ _) hleft)
      have hrest : w.budget.remaining ≤ (({ w with queue } : Walk).visit previous).budget.remaining + _ := hvisit.left
      obtain ⟨hrun, hordered⟩ := ih (h.visit hqueue hkeeps) (by omega)
      have hpop : meter.Spends (fun w => { w with queue }) 0 w := ⟨⟨rfl, Nat.le_refl _⟩, fun _ => rfl⟩
      have hall := (hpop.comp hvisit).comp hrun
      rw [Nat.zero_add, ← Nat.mul_add, ← hopen] at hall
      have heq : ∀ w' : Walk, w'.queue = previous :: queue → w'.run (turns + 1) = (({ w' with queue } : Walk).visit previous).run turns :=
        fun w' hw' => by rw [run, hw']
      rw [heq w hqueue]
      exact ⟨hall.congr (heq w hqueue) fun k => heq (meter.more k w) hqueue, hordered⟩

theorem ordered_start (e : Evidence) (now : UInt64) : Ordered e [] (start e now) := by
  have hgrown := grown_start e now
  refine ⟨hgrown, .nil, fun id node hnode => ?_⟩
  have hmem : id ∈ [] ++ (start e now).queue := List.mem_append.2 ((hgrown.reached id).1 ⟨node, hnode⟩)
  refine ⟨1, List.length_pos_of_mem hmem, ?_⟩
  cases hp : node.previous with
  | none => exact .root hnode hp
  | some p => exact absurd (hgrown.child id node p hnode hp).1 List.not_mem_nil

end Walk

/-! ### Agents -/

def viewMeter : Meter (ControlView × WorkBudget) where
  left acc := acc.2.remaining
  refused acc := acc.2.exhausted
  more k acc := (acc.1, work.more k acc.2)

/-- The walks see the same. -/
structure SameNodes (v v' : ControlView) : Prop where
  evidence : v'.evidence = v.evidence
  nodes : v'.nodes = v.nodes
  grants : v'.grants = v.grants

theorem SameNodes.trans {v v' v'' : ControlView} (h : SameNodes v v') (h' : SameNodes v' v'') : SameNodes v v'' :=
  ⟨h'.evidence.trans h.evidence, h'.nodes.trans h.nodes, h'.grants.trans h.grants⟩

namespace ControlView
variable {v v' : ControlView} {c : Nat}

theorem Shallow.same (h : v.Shallow c) (hsame : SameNodes v v') : v'.Shallow c := by
  refine ⟨h.pos, fun id node hnode => ?_⟩
  rw [hsame.nodes] at hnode
  obtain ⟨n, hle, hdepth⟩ := h.depth id node hnode
  refine ⟨n, hle, hdepth.mono fun id node hnode => ?_⟩
  rwa [hsame.nodes]

theorem Shallow.grantActive (h : v.Shallow c) (id : RecordId) (grant : Grant) : work.Takes (v.grantActive id grant) (2 * c) := by
  have hfalse : work.Takes (pure false : EvalM Bool) (2 * c) := (Meter.Takes.pure false).mono (Nat.zero_le _)
  unfold ControlView.grantActive
  split
  · split
    · exact hfalse
    · split
      · rename_i head _
        refine (((h.near head).ancestor id).attempt.bind (k := c) fun found _ _ _ => ?_).mono (by omega)
        split
        · refine (((h.near head).flags grant.agent (some id)).attempt).bind (k := 0) fun flags _ _ _ => ?_
          split
          · exact .pure _
          · exact .pure _
        · exact (Meter.Takes.pure false).mono (Nat.zero_le _)
      · exact hfalse
  · exact hfalse

def addGrant (v : ControlView) (g : RecordId × Grant) (active : Except Eval Bool) : ControlView :=
  { v with agents := Maps.adjust v.agents g.2.agent fun status =>
      { status with grantIds := status.grantIds ++ [g.1], active := status.active || active.toOption.getD false } }

theorem noteGrant_eq {g : RecordId × Grant} (hrealm : g.2.realm = v.evidence.realm) (budget : WorkBudget) :
    noteGrant (v, budget) g = (v.addGrant g (exec (v.grantActive g.1 g.2) budget).1, (exec (v.grantActive g.1 g.2) budget).2) :=
  if_neg (not_not.2 hrealm)

theorem noteGrant_spends {budget : WorkBudget} (h : v.Shallow c) (g : RecordId × Grant) (hleft : 2 * c ≤ budget.remaining) :
    viewMeter.Spends (fun acc => noteGrant acc g) (2 * c) (v, budget) ∧ SameNodes v (noteGrant (v, budget) g).1 := by
  by_cases hrealm : g.2.realm = v.evidence.realm
  · obtain ⟨hwithin, hmore⟩ := h.grantActive g.1 g.2 budget hleft
    rw [noteGrant_eq hrealm]
    refine ⟨⟨?_, fun k => ?_⟩, ⟨rfl, rfl, rfl⟩⟩
    · rw [noteGrant_eq hrealm]
      exact ⟨hwithin.refused, hwithin.left⟩
    · rw [noteGrant_eq hrealm]
      refine (noteGrant_eq hrealm (work.more k budget)).trans ?_
      rw [hmore k]
      rfl
  · have hskip : ∀ b, noteGrant (v, b) g = (v, b) := fun b => if_pos hrealm
    rw [hskip]
    exact ⟨Meter.Spends.refl.congr (hskip _) fun k => hskip _, ⟨rfl, rfl, rfl⟩⟩

def enlistAgents (v : ControlView) : ControlView :=
  (v.evidence.records.foldl noteAgent v).nodes.keys.foldl noteRetired (v.evidence.records.foldl noteAgent v)

theorem same_enlistAgents (v : ControlView) : SameNodes v v.enlistAgents := by
  refine List.foldlRecOn (motive := fun v' => SameNodes v v') _ noteRetired ?_ fun v' hv' id _ => ?_
  · refine List.foldlRecOn (motive := fun v' => SameNodes v v') _ noteAgent ⟨rfl, rfl, rfl⟩ fun v' hv' r _ => hv'.trans ?_
    unfold noteAgent
    split
    · split <;> exact ⟨rfl, rfl, rfl⟩
    · exact ⟨rfl, rfl, rfl⟩
  · refine hv'.trans ?_
    unfold noteRetired
    split <;> exact ⟨rfl, rfl, rfl⟩

theorem deriveAgents_spends (budget : WorkBudget) (h : v.Shallow c) (hleft : 2 * c * v.grants.size ≤ budget.remaining) :
    viewMeter.Spends (fun acc => acc.1.deriveAgents acc.2) (2 * c * v.grants.size) (v, budget) ∧ SameNodes v (v.deriveAgents budget).1 := by
  have hsame := same_enlistAgents v
  have hcost : (v.enlistAgents.grants.toList.map fun _ => 2 * c).sum = 2 * c * v.grants.size := by
    rw [List.map_const', List.sum_replicate_nat, Nat.mul_comm, Std.ExtTreeMap.length_toList, hsame.grants]
  rw [← hcost] at hleft ⊢
  obtain ⟨hspends, hkept⟩ := Meter.Spends.foldl (M := viewMeter) (I := fun acc => SameNodes v acc.1) (f := noteGrant)
    (l := v.enlistAgents.grants.toList) (s := (v.enlistAgents, budget))
    (fun acc g _ hacc hleft => by
      obtain ⟨hone, hone'⟩ := noteGrant_spends (h.same hacc) g hleft
      exact ⟨hone, hacc.trans hone'⟩) hsame hleft
  exact ⟨⟨⟨hspends.refused, hspends.left⟩, hspends.more⟩, hkept⟩

end ControlView

/-! ### Social records -/

def isAgentGenesis : Body → Bool
  | .agentGenesis .. => true
  | _ => false

def freshSocials (e : Evidence) (ids : List RecordId) : Nat := e.records.countP fun r => isSocial r.2.body && !ids.contains r.1

theorem freshSocials_cons {e : Evidence} {ids : List RecordId} {id : RecordId} {fact : Fact} (hget : e.get id = some fact)
    (hsocial : isSocial fact.body = true) (hnew : id ∉ ids) : freshSocials e (id :: ids) + 1 ≤ freshSocials e ids := by
  have hmem : (id, fact) ∈ e.records := Std.ExtTreeMap.mem_toList_iff_getElem?_eq_some.2 hget
  obtain ⟨before, after, he⟩ := List.append_of_mem hmem
  unfold freshSocials
  rw [he, List.countP_append, List.countP_append, List.countP_cons, List.countP_cons]
  have hle : ∀ l : List (RecordId × Fact), (l.countP fun r => isSocial r.2.body && !(id :: ids).contains r.1) ≤
      l.countP fun r => isSocial r.2.body && !ids.contains r.1 := fun l => by
    refine List.countP_mono_left fun r _ hr => ?_
    rw [Bool.and_eq_true, List.contains_cons, Bool.not_or, Bool.and_eq_true] at hr
    rw [hr.1, hr.2.2]
    rfl
  have hbefore := hle before
  have hafter := hle after
  rw [if_neg (by simp), if_pos (by simp [hsocial, hnew])]
  omega

namespace ControlView
variable {v v' : ControlView} {c n : Nat} {filter : Filter} {basis id : RecordId} {cursor cursor' : Cursor} {previous : Option RecordId}
  {b b' : WorkBudget}

theorem chainNext_takes : work.Takes (v.chainNext filter basis .unsealed cursor id) 0 := by
  refine takes_lift_bind fun fact _ => takes_lift_bind fun actor _ => ?_
  split
  · refine takes_lift_bind fun _ _ => ?_
    refine (Meter.Takes.pure ()).bind (k := 0) fun _ _ _ _ => takes_lift_bind fun _ _ => .pure _
  · exact .throw _

theorem lift_eq_ok {α : Type} {x : Except Eval α} {a : α} : exec (lift x) b = (.ok a, b') ↔ x = .ok a ∧ b' = b := by
  rw [lift, exec_examine, Prod.mk.injEq, eq_comm (a := b)]

theorem chainNext_ok {mode : HistoryMode} (h : exec (v.chainNext filter basis mode cursor id) b = (.ok (previous, cursor'), b')) :
    cursor'.ids = id :: cursor.ids ∧ ∃ fact, v.evidence.get id = some fact ∧ isSocial fact.body = true ∧ ∃ actor, v.socialAuth fact = .ok actor := by
  simp only [chainNext, exec_bind_eq_ok, lift_eq_ok, okOr_eq_ok] at h
  obtain ⟨fact, _, ⟨hget, rfl⟩, actor, _, ⟨hauth, rfl⟩, h⟩ := h
  refine ⟨?_, fact, hget, ?_, actor, hauth⟩
  · split at h
    · simp only [exec_bind_eq_ok] at h
      obtain ⟨_, _, -, _, _, -, _, _, -, h⟩ := h
      cases h
      rfl
    · cases h
  · cases hbody : fact.body with
    | social => rfl
    | _ =>
      rw [hbody] at h
      cases h

theorem chainLoop_takes (n : Nat) (cursor : Cursor) (id : Option RecordId) :
    work.Takes (v.chainLoop filter basis .unsealed n cursor id) (freshSocials v.evidence cursor.ids + 1) := by
  induction n generalizing cursor id with
  | zero =>
    cases id with
    | none => exact (Meter.Takes.pure _).mono (Nat.zero_le _)
    | some id => exact (takes_spend.bind (k := 0) fun _ _ _ _ => .throw _).mono (Nat.le_add_left _ _)
  | succ n ih =>
    cases id with
    | none => exact (Meter.Takes.pure _).mono (Nat.zero_le _)
    | some id =>
      refine (takes_spend.bind (k := freshSocials v.evidence cursor.ids) fun _ _ _ _ => takes_lift_bind fun _ hnew => ?_).mono
        (Nat.add_comm _ _).le
      refine (chainNext_takes.bind fun next s s' hnext => ?_).mono (Nat.zero_add _).le
      obtain ⟨hids, fact, hget, hsocial, -⟩ := chainNext_ok hnext
      have hfresh := freshSocials_cons hget hsocial (by simpa using require_eq_ok.1 hnew)
      rw [← hids] at hfresh
      exact (ih next.2 next.1).mono hfresh

theorem chain_takes (head : RecordId) (filter : Filter) (basis : RecordId) :
    work.Takes (v.chain head filter basis .unsealed) ((v.evidence.records.countP fun r => isSocial r.2.body) + 1) := by
  refine (chainLoop_takes maxRecords {} (some head)).mono (Nat.succ_le_succ ?_)
  exact List.countP_mono_left fun r _ hr => (Bool.and_eq_true_iff.1 hr).1

theorem chain_ok {head : RecordId} {mode : HistoryMode} {ids : List RecordId} (h : exec (v.chain head filter basis mode) b = (.ok ids, b')) :
    ∃ fact actor, v.evidence.get head = some fact ∧ v.socialAuth fact = .ok actor := by
  have hstep : ∀ n, exec (v.chainLoop filter basis mode (n + 1) {} (some head)) b = (.ok ids, b') →
      ∃ fact actor, v.evidence.get head = some fact ∧ v.socialAuth fact = .ok actor := fun n h => by
    simp only [chainLoop, exec_bind_eq_ok] at h
    obtain ⟨_, _, -, _, _, -, next, _, hnext, -⟩ := h
    obtain ⟨-, fact, hget, -, actor, hauth⟩ := chainNext_ok hnext
    exact ⟨fact, actor, hget, hauth⟩
  exact hstep 4095 h

def Bound (e : Evidence) : Actor → Prop
  | .owner .. => True
  | .agent .. => 0 < e.records.countP fun r => isAgentGenesis r.2.body

theorem binding_ok {bound : OwnerId × RecordId × Bytes32} (h : v.binding id = .ok bound) : (∃ node : Node, v.nodes[bound.2.1]? = some node) ∧
    0 < v.evidence.records.countP fun r => isAgentGenesis r.2.body := by
  simp only [binding, bind_eq_ok, okOr_eq_ok] at h
  obtain ⟨fact, hget, h⟩ := h
  split at h
  · rename_i owner control key nonce hbody
    simp only [bind_eq_ok, node_eq_ok] at h
    obtain ⟨node, hnode, -, -, he⟩ := h
    cases he
    refine ⟨⟨node, hnode⟩, List.countP_pos_iff.2 ⟨(id, fact), Std.ExtTreeMap.mem_toList_iff_getElem?_eq_some.2 hget, ?_⟩⟩
    rw [hbody]
    rfl
  · cases h

theorem authority_ok {fact : Fact} {actor : Actor} (h : v.authority fact actor = .ok ()) :
    (∃ (id : RecordId) (node : Node), v.nodes[id]? = some node) ∧ Bound v.evidence actor := by
  cases actor with
  | owner owner control =>
    simp only [authority, bind_eq_ok, node_eq_ok] at h
    obtain ⟨node, hnode, -⟩ := h
    exact ⟨⟨control, node, hnode⟩, trivial⟩
  | agent owner agent grant =>
    simp only [authority, bind_eq_ok] at h
    obtain ⟨bound, hbound, -⟩ := h
    obtain ⟨⟨node, hnode⟩, hgenesis⟩ := binding_ok hbound
    exact ⟨⟨_, node, hnode⟩, hgenesis⟩

theorem socialAuth_ok {fact : Fact} {actor : Actor} (h : v.socialAuth fact = .ok actor) :
    (∃ (id : RecordId) (node : Node), v.nodes[id]? = some node) ∧ Bound v.evidence actor ∧
      ∃ realm sequence previous operation, fact.body = .social actor realm sequence previous operation := by
  unfold socialAuth at h
  split at h
  · rename_i actor' realm sequence previous operation hbody
    simp only [bind_eq_ok] at h
    obtain ⟨_, -, _, hauthority, _, -, he⟩ := h
    have hactor : actor' = actor := by
      split at he
      · rw [bind_eq_ok] at he
        obtain ⟨-, -, he⟩ := he
        exact Except.ok.inj he
      · exact Except.ok.inj he
    subst hactor
    exact ⟨(authority_ok hauthority).1, (authority_ok hauthority).2, realm, sequence, previous, operation, hbody⟩
  · cases h

theorem chain_takes_one (hempty : ∀ id : RecordId, v.nodes[id]? = none) (head : RecordId) (filter : Filter) (basis : RecordId) :
    work.Takes (v.chain head filter basis .unsealed) 1 := by
  refine takes_spend.bind (k := 0) fun _ _ _ _ => takes_lift_bind fun _ _ => ?_
  refine chainNext_takes.bind (k := 0) fun next _ _ hnext => ?_
  obtain ⟨-, fact, -, -, actor, hauth⟩ := chainNext_ok hnext
  obtain ⟨id, node, hnode⟩ := (socialAuth_ok hauth).1
  rw [hempty id] at hnode
  cases hnode

/-- What `live` costs. -/
def liveCost (c : Nat) : Actor → Nat
  | .owner .. => 0
  | .agent .. => 2 * c

theorem Shallow.live (h : v.Shallow c) (actor : Actor) : work.Takes (v.live actor) (liveCost c actor) := by
  refine takes_lift_bind fun status _ => takes_lift_bind fun _ _ => takes_lift_bind fun head _ => ?_
  cases actor with
  | owner owner control => exact .pure _
  | agent owner agent grant =>
    refine takes_lift_bind fun g _ => ?_
    refine (((h.near head).flags agent (some grant)).bind (k := c) fun flags _ _ _ => ?_).mono (by simp only [liveCost]; omega)
    exact ((h.near head).ancestor grant).bind (k := 0) fun found _ _ _ => .pure _

/-- The status that an evaluation of `live` comes to. -/
def liveStatus (forked : List Actor) (actor : Actor) : Except Eval Bool → SocialStatus
  | .ok false => .rejected
  | .ok true => if forked.contains actor then .conflicted else .provisional
  | .error e => statusOf e

theorem settle_eq {forked : List Actor} {r : RecordId × Actor} (hfrozen : ¬ v.owners[r.2.ownerOf]?.any OwnerStatus.frozen = true)
    (haccepted : ¬ v.accepted.contains r.1 = true) (budget : WorkBudget) : settle forked (v, budget) r =
      (v.setStatus r.1 (liveStatus forked r.2 (exec (v.live r.2) budget).1), (exec (v.live r.2) budget).2) := by
  unfold settle
  rw [if_neg hfrozen, if_neg haccepted]
  rcases exec (v.live r.2) budget with ⟨_ | (_ | _), _⟩ <;> rfl

theorem settle_spends {forked : List Actor} {budget : WorkBudget} (h : v.Shallow c) (r : RecordId × Actor)
    (hleft : liveCost c r.2 ≤ budget.remaining) :
    viewMeter.Spends (fun acc => settle forked acc r) (liveCost c r.2) (v, budget) ∧ SameNodes v (settle forked (v, budget) r).1 := by
  have hfree : ∀ status, (∀ b, settle forked (v, b) r = (v.setStatus r.1 status, b)) →
      viewMeter.Spends (fun acc => settle forked acc r) (liveCost c r.2) (v, budget) ∧ SameNodes v (settle forked (v, budget) r).1 :=
    fun status he => by
      refine ⟨⟨?_, fun k => ?_⟩, ?_⟩
      · rw [he]
        exact ⟨rfl, Nat.le_add_right _ _⟩
      · rw [he]
        exact he _
      · rw [he]
        exact ⟨rfl, rfl, rfl⟩
  by_cases hfrozen : v.owners[r.2.ownerOf]?.any OwnerStatus.frozen = true
  · exact hfree _ fun b => if_pos hfrozen
  by_cases haccepted : v.accepted.contains r.1 = true
  · exact hfree _ fun b => (if_neg hfrozen).trans (if_pos haccepted)
  obtain ⟨hwithin, hmore⟩ := h.live r.2 budget hleft
  rw [settle_eq hfrozen haccepted]
  refine ⟨⟨?_, fun k => ?_⟩, ⟨rfl, rfl, rfl⟩⟩
  · rw [settle_eq hfrozen haccepted]
    exact ⟨hwithin.refused, hwithin.left⟩
  · rw [settle_eq hfrozen haccepted]
    refine (settle_eq hfrozen haccepted (work.more k budget)).trans ?_
    rw [hmore k]
    rfl

end ControlView

def Writers.meter : Meter Writers where
  left w := w.budget.remaining
  refused w := w.budget.exhausted
  more k w := { w with budget := work.more k w.budget }

/-- The chains so far, under the nodes of `v`. -/
structure Chained (v : ControlView) (bound : Actor → Prop) (w : Writers) : Prop where
  same : SameNodes v w.view
  bound : ∀ r ∈ w.valid, bound r.2

namespace ControlView
variable {v : ControlView} {a : Nat} {bound : Actor → Prop} {w : Writers}

def addChain (w : Writers) (id : RecordId) (actor : Actor) (previous : Option RecordId) : Except Eval (List RecordId) → Writers
  | .ok _ =>
    { w with
      valid := w.valid ++ [(id, actor)]
      siblings := (actor, previous) :: w.siblings
      forked := if w.siblings.contains (actor, previous) then actor :: w.forked else w.forked }
  | .error e => { w with view := w.view.setStatus id (statusOf e) }

theorem noteSocial_eq {r : RecordId × Fact} {actor : Actor} {realm : RealmId} {sequence : UInt64} {previous : Option RecordId} {operation : Operation}
    (hbody : r.2.body = .social actor realm sequence previous operation) : noteSocial w r =
      { addChain w r.1 actor previous (exec (w.view.chain r.1 (.owner actor.ownerOf) r.1 .unsealed) w.budget).1 with
        budget := (exec (w.view.chain r.1 (.owner actor.ownerOf) r.1 .unsealed) w.budget).2 } := by
  unfold noteSocial
  rw [hbody]
  dsimp only
  rcases exec (w.view.chain r.1 (.owner actor.ownerOf) r.1 .unsealed) w.budget with ⟨_ | _, _⟩ <;> rfl

theorem noteSocial_spends {r : RecordId × Fact} (hr : r ∈ v.evidence.records) (h : Chained v bound w)
    (htakes : ∀ v' : ControlView, SameNodes v v' → ∀ head filter basis, work.Takes (v'.chain head filter basis .unsealed) a)
    (hbound : ∀ v' : ControlView, SameNodes v v' → ∀ fact actor, v'.socialAuth fact = .ok actor → bound actor)
    (hleft : (if isSocial r.2.body then a else 0) ≤ w.budget.remaining) :
    Writers.meter.Spends (fun w => noteSocial w r) (if isSocial r.2.body then a else 0) w ∧ Chained v bound (noteSocial w r) := by
  cases hbody : r.2.body with
  | social actor realm sequence previous operation =>
    rw [hbody] at hleft
    obtain ⟨hwithin, hmore⟩ := htakes w.view h.same r.1 (.owner actor.ownerOf) r.1 w.budget hleft
    rw [noteSocial_eq hbody]
    refine ⟨⟨?_, fun k => ?_⟩, ?_⟩
    · rw [noteSocial_eq hbody]
      exact ⟨hwithin.refused, hwithin.left⟩
    · rw [noteSocial_eq hbody, noteSocial_eq hbody]
      show (Writers.mk _ _ _ _ _) = _
      rw [show (Writers.meter.more k w).view = w.view from rfl, show (Writers.meter.more k w).budget = work.more k w.budget from rfl, hmore k]
      cases (exec (w.view.chain r.1 (.owner actor.ownerOf) r.1 .unsealed) w.budget).1 <;> rfl
    · rcases hexec : exec (w.view.chain r.1 (.owner actor.ownerOf) r.1 .unsealed) w.budget with ⟨e | ids, budget⟩
      · exact ⟨⟨h.same.evidence, h.same.nodes, h.same.grants⟩, h.bound⟩
      · refine ⟨⟨h.same.evidence, h.same.nodes, h.same.grants⟩, fun p hp => ?_⟩
        rcases List.mem_append.1 hp with hp | hp
        · exact h.bound p hp
        · rw [List.mem_singleton.1 hp]
          obtain ⟨fact, actor', hget, hauth⟩ := chain_ok hexec
          rw [h.same.evidence, Evidence.get, Std.ExtTreeMap.mem_toList_iff_getElem?_eq_some.1 hr] at hget
          cases hget
          have hactor : actor' = actor := by
            obtain ⟨-, -, _, _, _, _, hbody'⟩ := socialAuth_ok hauth
            rw [hbody] at hbody'
            cases hbody'
            rfl
          subst hactor
          exact hbound w.view h.same r.2 actor' hauth
  | _ =>
    have hskip : ∀ w, noteSocial w r = w := fun w => by
      unfold noteSocial
      rw [hbody]
    rw [hskip]
    exact ⟨Meter.Spends.refl.congr (hskip _) fun k => hskip _, h⟩

theorem length_valid (l : List (RecordId × Fact)) (w : Writers) :
    (l.foldl noteSocial w).valid.length ≤ w.valid.length + l.countP fun r => isSocial r.2.body := by
  induction l generalizing w with
  | nil => exact Nat.le_add_right _ _
  | cons r l ih =>
    refine Nat.le_trans (ih _) ?_
    rw [List.countP_cons]
    have hone : (noteSocial w r).valid.length ≤ w.valid.length + if isSocial r.2.body = true then 1 else 0 := by
      unfold noteSocial
      cases r.2.body with
      | social =>
        dsimp only
        split
        · simp [isSocial]
        · exact Nat.le_add_right _ _
      | _ => exact Nat.le_add_right _ _
    omega

theorem sum_isSocial (a : Nat) (l : List (RecordId × Fact)) :
    (l.map fun r => if isSocial r.2.body then a else 0).sum = a * l.countP fun r => isSocial r.2.body := by
  induction l with
  | nil => rfl
  | cons r l ih =>
    rw [List.map_cons, List.sum_cons, ih, List.countP_cons, Nat.mul_add, Nat.add_comm]
    cases isSocial r.2.body <;> simp

theorem deriveSocial_spends {b c s : Nat} {budget : WorkBudget} (bound : Actor → Prop) (h : v.Shallow c) (hs : (v.evidence.records.countP fun r => isSocial r.2.body) = s)
    (htakes : ∀ v' : ControlView, SameNodes v v' → ∀ head filter basis, work.Takes (v'.chain head filter basis .unsealed) a)
    (hbound : ∀ v' : ControlView, SameNodes v v' → ∀ fact actor, v'.socialAuth fact = .ok actor → bound actor)
    (hlive : ∀ actor, bound actor → liveCost c actor ≤ b) (hleft : a * s + b * s ≤ budget.remaining) :
    viewMeter.Spends (fun acc => acc.1.deriveSocial acc.2) (a * s + b * s) (v, budget) := by
  have hchains := Meter.Spends.foldl (M := Writers.meter) (I := Chained v bound) (f := noteSocial) (l := v.evidence.records)
    (s := { view := v, budget })
    (fun w r hr hw hleft => noteSocial_spends hr hw htakes hbound hleft) ⟨⟨rfl, rfl, rfl⟩, fun _ hr => nomatch hr⟩
    (by rw [sum_isSocial, hs]; exact Nat.le_trans (Nat.le_add_right _ _) hleft)
  rw [sum_isSocial, hs] at hchains
  obtain ⟨hspends, hchained⟩ := hchains
  have hlength := length_valid v.evidence.records { view := v, budget }
  rw [hs] at hlength
  generalize hw : v.evidence.records.foldl noteSocial { view := v, budget } = w at hspends hchained hlength
  have hleft₁ : budget.remaining ≤ w.budget.remaining + a * s := by
    have hle := hspends.left
    rwa [hw] at hle
  have hcosts : (w.valid.map fun r => liveCost c r.2).sum ≤ b * s := by
    have hle : ∀ l : List (RecordId × Actor), (∀ r ∈ l, bound r.2) → (l.map fun r => liveCost c r.2).sum ≤ b * l.length := fun l hl => by
      induction l with
      | nil => exact Nat.zero_le _
      | cons r l ih =>
        rw [List.forall_mem_cons] at hl
        rw [List.map_cons, List.sum_cons, List.length_cons, Nat.mul_succ, Nat.add_comm]
        exact Nat.add_le_add (ih hl.2) (hlive r.2 hl.1)
    exact Nat.le_trans (hle _ hchained.bound) (Nat.mul_le_mul_left b (by simpa using hlength))
  obtain ⟨hsettles, -⟩ := Meter.Spends.foldl (M := viewMeter) (I := fun acc => SameNodes v acc.1) (f := settle w.forked) (l := w.valid)
    (s := (w.view, w.budget)) (fun acc r _ hacc hleft => by
      obtain ⟨hone, hsame⟩ := settle_spends (h.same hacc) r hleft
      exact ⟨hone, hacc.trans hsame⟩) hchained.same (by
      show _ ≤ w.budget.remaining
      omega)
  have hderive : v.deriveSocial budget = w.valid.foldl (settle w.forked) (w.view, w.budget) := by rw [deriveSocial, hw]
  refine ⟨?_, fun k => ?_⟩
  · rw [hderive]
    have hfirst : viewMeter.Within (a * s) (v, budget) (w.view, w.budget) := by
      have hrefused := hspends.refused
      rw [hw] at hrefused
      exact ⟨hrefused, hleft₁⟩
    exact hfirst.trans (hsettles.toWithin.mono hcosts)
  · have hmore := hspends.more k
    rw [hw] at hmore
    rw [hderive]
    show v.deriveSocial (work.more k budget) = _
    rw [deriveSocial]
    rw [show ({ view := v, budget := work.more k budget } : Writers) = Writers.meter.more k { view := v, budget } from rfl, hmore]
    exact hsettles.more k

end ControlView

/-! ### The derivation -/

def Walk.finish (controls : Walk) (activity social : WorkBudget) (historyWork : Nat) : Derivation :=
  let history := controls.view.settleForks.deriveHistory historyWork
  let agents := history.1.blockCapacity.deriveAgents activity
  let socials := agents.1.deriveSocial social
  { view := if controls.budget.exhausted || agents.2.exhausted || socials.2.exhausted then socials.1.withhold else socials.1
    controls := controls.budget
    history := history.2
    activity := agents.2
    social := socials.2 }

/-- `derive` with other limits to its three phases. -/
def deriveWith (structural activity social : Nat) (e : Evidence) (now : UInt64) (historyWork : Nat) : Derivation :=
  (({ Walk.start e now with budget := .withLimit structural } : Walk).run e.facts.size).finish (.withLimit activity) (.withLimit social) historyWork

theorem start_budget (e : Evidence) (now : UInt64) :
    (Walk.start e now).budget = .withLimit (2 * maxRecords * maxRecords + maxRecords) := by
  unfold Walk.start
  generalize e.records.foldl seed ({ evidence := e, now }, []) = seeded
  rfl

theorem derive_finish (e : Evidence) (now : UInt64) (historyWork : Nat) : derive e now historyWork = (deriveControls e now).finish
    (.withLimit (2 * maxRecords * maxRecords)) (.withLimit (maxRecords * maxRecords)) historyWork := by
  rw [derive, Walk.finish]

theorem grants_deriveControls (e : Evidence) (now : UInt64) (id : RecordId) (grant : Grant)
    (h : (deriveControls e now).view.grants[id]? = some grant) : ∃ node : Node, (deriveControls e now).view.nodes[id]? = some node := by
  have hkept : KeptByControls e fun v => ∀ (id : RecordId) (grant : Grant), v.grants[id]? = some grant → ∃ node : Node, v.nodes[id]? = some node := by
    refine ⟨fun v id controller _ hv other grant h => ?_, fun _ _ hv => hv, fun _ _ hv => hv, fun _ _ hv => hv,
      fun v id owner previous action parent closure hv other grant h => ?_⟩
    · obtain ⟨node, hnode⟩ := hv other grant h
      show ∃ node, (v.nodes.insert id _)[other]? = some node
      rw [Maps.getElem?_insert]
      split
      · exact ⟨_, rfl⟩
      · exact ⟨node, hnode⟩
    · show ∃ node, (v.nodes.insert id _)[other]? = some node
      rw [Maps.getElem?_insert]
      split
      · exact ⟨_, rfl⟩
      · rename_i hne
        refine hv other grant ?_
        simp only [ControlView.accept, ControlView.enter] at h
        split at h
        · rwa [Maps.getElem?_insert, if_neg hne] at h
        · exact h
  exact hkept.derive (fun id grant h => by simp at h) id grant h

theorem shape_deriveControls {e : Evidence} {now : UInt64} {visited : List RecordId} (h : Walk.Ordered e visited (deriveControls e now)) {c : Nat}
    (hc : (e.records.countP fun r => isControlPlane r.2.body) ≤ c) (hpos : 0 < c) :
    (deriveControls e now).view.Shallow c ∧ (deriveControls e now).view.grants.size ≤ c := by
  refine ⟨⟨hpos, fun id node hnode => ?_⟩, ?_⟩
  · obtain ⟨n, hle, hdepth⟩ := h.depth id node hnode
    exact ⟨n, Nat.le_trans (Nat.le_trans hle h.order_le) hc, hdepth⟩
  · have hsub : (deriveControls e now).view.grants.keys ⊆ visited ++ (deriveControls e now).queue := fun id hid => by
      rw [Std.ExtTreeMap.mem_keys, Std.ExtTreeMap.mem_iff_isSome_getElem?, Option.isSome_iff_exists] at hid
      obtain ⟨grant, hgrant⟩ := hid
      rw [List.mem_append, ← h.grown.reached]
      exact grants_deriveControls e now id grant hgrant
    have hle := (Std.ExtTreeMap.nodup_keys.subperm hsub).length_le
    rw [Std.ExtTreeMap.length_keys] at hle
    exact Nat.le_trans (Nat.le_trans hle h.order_le) hc

theorem same_kept (v : ControlView) (e : Evidence) : KeptByReading e (SameNodes v) :=
  ⟨fun _ _ _ h => ⟨h.evidence, h.nodes, h.grants⟩, fun _ h => ⟨h.evidence, h.nodes, h.grants⟩, fun _ _ _ _ h => ⟨h.evidence, h.nodes, h.grants⟩,
    fun _ _ _ h => ⟨h.evidence, h.nodes, h.grants⟩, fun _ _ _ h => ⟨h.evidence, h.nodes, h.grants⟩, fun _ h => ⟨h.evidence, h.nodes, h.grants⟩⟩

theorem counts_le (l : List (RecordId × Fact)) : (l.countP fun r => isControlPlane r.2.body) + (l.countP fun r => isSocial r.2.body) +
    (l.countP fun r => isAgentGenesis r.2.body) ≤ l.length := by
  induction l with
  | nil => exact Nat.le_refl _
  | cons r l ih =>
    have hone : (if isControlPlane r.2.body = true then 1 else 0) + (if isSocial r.2.body = true then 1 else 0) +
        (if isAgentGenesis r.2.body = true then 1 else 0) = 1 := by
      cases r.2.body <;> rfl
    rw [List.countP_cons, List.countP_cons, List.countP_cons, List.length_cons]
    omega

theorem openControls_le (e : Evidence) : openControls e [] ≤ e.facts.size := by
  rw [← length_records]
  exact List.countP_le_length

theorem social_bound {p s g n : Nat} (hp : 0 < p) (hcounts : p + s + g ≤ n) : (s + 1) * s + (if g = 0 then 0 else 2 * p) * s ≤ n * n := by
  have hsquare : (p + s + g) * (p + s + g) ≤ n * n := Nat.mul_le_mul hcounts hcounts
  refine Nat.le_trans ?_ hsquare
  split
  · rename_i hg
    subst hg
    have hone : s + 1 ≤ p + s + 0 := by omega
    rw [Nat.zero_mul, Nat.add_zero]
    exact Nat.mul_le_mul hone (by omega)
  · rename_i hg
    have hone : p + s + 1 ≤ p + s + g := by omega
    refine Nat.le_trans ?_ (Nat.mul_le_mul hone hone)
    nlinarith

/-- The social phase of a view over the nodes `v`. -/
theorem social_spends {e : Evidence} {v : ControlView} {p s g : Nat} (hevidence : v.evidence = e) (hsize : e.facts.size ≤ maxRecords)
    (hp : (e.records.countP fun r => isControlPlane r.2.body) = p) (hs : (e.records.countP fun r => isSocial r.2.body) = s)
    (hg : (e.records.countP fun r => isAgentGenesis r.2.body) = g) (hshallow : v.Shallow (max 1 p))
    (hnodes : ∀ (id : RecordId) (node : Node), v.nodes[id]? = some node → 0 < p) :
    viewMeter.Spends (fun acc => acc.1.deriveSocial acc.2) (maxRecords * maxRecords) (v, .withLimit (maxRecords * maxRecords)) := by
  have hcounts : p + s + g ≤ maxRecords := by
    have hle := counts_le e.records
    rw [hp, hs, hg, length_records] at hle
    exact Nat.le_trans hle hsize
  by_cases hempty : ∀ id : RecordId, v.nodes[id]? = none
  · have hbound : 1 * s + 0 * s ≤ maxRecords * maxRecords := by
      have hmax : maxRecords = 4096 := rfl
      rw [hmax] at hcounts ⊢
      omega
    refine (ControlView.deriveSocial_spends (fun _ => False) (a := 1) (b := 0) hshallow (hevidence ▸ hs) (fun v' hsame head filter basis => ?_)
      (fun v' hsame fact actor hauth => ?_) (fun _ hfalse => hfalse.elim) hbound).mono hbound
    · exact ControlView.chain_takes_one (fun id => by rw [hsame.nodes, hempty id]) head filter basis
    · obtain ⟨id, node, hnode⟩ := (ControlView.socialAuth_ok hauth).1
      rw [hsame.nodes, hempty id] at hnode
      cases hnode
  · obtain ⟨id, hid⟩ := not_forall.1 hempty
    obtain ⟨node, hnode⟩ := Option.ne_none_iff_exists'.1 hid
    have hpos := hnodes id node hnode
    rw [Nat.max_eq_right hpos] at hshallow
    have hbound := social_bound hpos hcounts
    refine (ControlView.deriveSocial_spends (ControlView.Bound e) (a := s + 1) (b := if g = 0 then 0 else 2 * p) hshallow (hevidence ▸ hs)
      (fun v' hsame head filter basis => ?_) (fun v' hsame fact actor hauth => ?_) (fun actor hactor => ?_) hbound).mono hbound
    · have htakes := ControlView.chain_takes (v := v') head filter basis
      rwa [hsame.evidence, hevidence, hs] at htakes
    · have hauthorised := (ControlView.socialAuth_ok hauth).2.1
      rwa [hsame.evidence, hevidence] at hauthorised
    · cases actor with
      | owner => exact Nat.zero_le _
      | agent =>
        have hagents : g ≠ 0 := Nat.ne_of_gt (hg ▸ hactor)
        rw [if_neg hagents]
        exact Nat.le_refl _

/-- No phase of a derivation from at most `MAX_RECORDS` records runs out, and none would find more with more work. -/
theorem work_suffices {e : Evidence} (now : UInt64) (historyWork : Nat) (hsize : e.facts.size ≤ maxRecords) :
    (derive e now historyWork).controls.exhausted = false ∧ (derive e now historyWork).activity.exhausted = false ∧
      (derive e now historyWork).social.exhausted = false ∧
      ∀ i j k, (deriveWith (2 * maxRecords * maxRecords + maxRecords + i) (2 * maxRecords * maxRecords + j) (maxRecords * maxRecords + k) e now
        historyWork).view = (derive e now historyWork).view := by
  obtain ⟨p, hp⟩ : ∃ p, (e.records.countP fun r => isControlPlane r.2.body) = p := ⟨_, rfl⟩
  have hple : p ≤ maxRecords := by
    have hle := counts_le e.records
    rw [length_records, hp] at hle
    omega
  have hstart := start_budget e now
  obtain ⟨hcontrols, visited, hordered⟩ := Walk.run_spends e.facts.size (Walk.ordered_start e now) (c := maxRecords) (hp ▸ hple) (by
    rw [hstart]
    have hopen := Nat.mul_le_mul_left (2 * maxRecords + 1) (Nat.le_trans (openControls_le e) hsize)
    rwa [Nat.succ_mul (2 * maxRecords) maxRecords] at hopen)
  obtain ⟨hshallow, hgrants⟩ := shape_deriveControls hordered (c := max 1 p) (hp ▸ Nat.le_max_right 1 p) (Nat.le_max_left 1 p)
  have hmax : max 1 p ≤ maxRecords := Nat.max_le.2 ⟨by decide, hple⟩
  have hnodes : ∀ (id : RecordId) (node : Node), (deriveControls e now).view.nodes[id]? = some node → 0 < p := fun id node hnode => by
    have hmem := List.mem_append.2 ((hordered.grown.reached id).1 ⟨node, hnode⟩)
    exact hp ▸ Nat.lt_of_lt_of_le (List.length_pos_of_mem hmem) hordered.order_le
  -- The history has its own budget, and leaves the nodes as they are.
  generalize hread : ((deriveControls e now).view.settleForks.deriveHistory historyWork).1.blockCapacity = v
  have hsame : SameNodes (deriveControls e now).view v := by
    rw [← hread]
    have hsettled : SameNodes (deriveControls e now).view (deriveControls e now).view.settleForks := ⟨rfl, rfl, rfl⟩
    exact (same_kept _ e).block _ ((same_kept _ e).history hsettled historyWork)
  obtain ⟨hagents, hsame'⟩ := ControlView.deriveAgents_spends (.withLimit (2 * maxRecords * maxRecords)) (hshallow.same hsame) (by
    rw [hsame.grants]
    exact Nat.mul_le_mul (Nat.mul_le_mul_left 2 hmax) (Nat.le_trans hgrants hmax))
  have hall := hsame.trans hsame'
  have hsocial := social_spends (hall.evidence.trans hordered.grown.evidence) hsize hp rfl rfl (hshallow.same hall) fun id node hnode =>
    hnodes id node (by rwa [hall.nodes] at hnode)
  have hrefused : (deriveControls e now).budget.exhausted = false := by
    have hkept : (deriveControls e now).budget.exhausted = (Walk.start e now).budget.exhausted := hcontrols.refused
    rw [hkept, hstart]
    rfl
  have hrefused' : (v.deriveAgents (.withLimit (2 * maxRecords * maxRecords))).2.exhausted = false := hagents.refused
  generalize hactive : v.deriveAgents (.withLimit (2 * maxRecords * maxRecords)) = active at hsocial hrefused' hagents
  have hrefused'' : (active.1.deriveSocial (.withLimit (maxRecords * maxRecords))).2.exhausted = false := hsocial.refused
  have hfinish : derive e now historyWork = ⟨(active.1.deriveSocial (.withLimit (maxRecords * maxRecords))).1, (deriveControls e now).budget,
      ((deriveControls e now).view.settleForks.deriveHistory historyWork).2, active.2,
      (active.1.deriveSocial (.withLimit (maxRecords * maxRecords))).2⟩ := by
    rw [derive_finish, Walk.finish, hread, hactive, hrefused, hrefused', hrefused'']
    rfl
  rw [hfinish]
  refine ⟨hrefused, hrefused', hrefused'', fun i j k => ?_⟩
  have hlimit : work.more i (Walk.start e now).budget = .withLimit (2 * maxRecords * maxRecords + maxRecords + i) := by
    rw [hstart]
    rfl
  have hmore : ({ Walk.start e now with budget := .withLimit (2 * maxRecords * maxRecords + maxRecords + i) } : Walk).run e.facts.size =
      Walk.meter.more i (deriveControls e now) := by
    rw [← hlimit]
    exact hcontrols.more i
  have hagents' : v.deriveAgents (.withLimit (2 * maxRecords * maxRecords + j)) = viewMeter.more j active := hactive ▸ hagents.more j
  have hsocial' : active.1.deriveSocial (.withLimit (maxRecords * maxRecords + k)) =
      viewMeter.more k (active.1.deriveSocial (.withLimit (maxRecords * maxRecords))) := hsocial.more k
  rw [deriveWith, hmore, Walk.finish]
  rw [show (Walk.meter.more i (deriveControls e now)).view = (deriveControls e now).view from rfl, hread, hagents',
    show (viewMeter.more j active).1 = active.1 from rfl, hsocial']
  rw [show (Walk.meter.more i (deriveControls e now)).budget.exhausted = (deriveControls e now).budget.exhausted from rfl,
    show (viewMeter.more j active).2.exhausted = active.2.exhausted from rfl, hrefused, hrefused']
  rw [show ∀ acc : ControlView × WorkBudget, (viewMeter.more k acc).2.exhausted = acc.2.exhausted from fun _ => rfl, hrefused'']
  rfl

def soleOwner : Evidence where
  realm := ⟨77⟩
  limits := ⟨1024, 128, 128, 64, 32, 128, 8⟩
  facts := (∅ : Std.ExtTreeMap RecordId Fact compare).insert ⟨Vector.replicate 32 7⟩
    ⟨Vector.replicate 32 9, .ownerGenesis (Vector.replicate 32 9) none (Vector.replicate 32 1)⟩

theorem soleOwner_work : soleOwner.facts.size = 1 ∧ (derive soleOwner 0 0).controls.exhausted = false ∧
    (derive soleOwner 0 0).activity.exhausted = false ∧ (derive soleOwner 0 0).social.exhausted = false := by
  have hsize : soleOwner.facts.size = 1 := by
    rw [soleOwner, Std.ExtTreeMap.size_insert, if_neg (by simp), Std.ExtTreeMap.size_empty]
  obtain ⟨hcontrols, hactivity, hsocial, -⟩ := work_suffices (e := soleOwner) 0 0 (by rw [hsize]; decide)
  exact ⟨hsize, hcontrols, hactivity, hsocial⟩

end Valhalla.Social
