import Mathlib.Data.List.Chain
import Valhalla.Social.Heads

/-!
# Chains of owner control

The search for controls visits every node once and admits its children in that one visit, so an owner has two
admitted controls behind one predecessor exactly if a visit froze it. Without such a pair the controls of an owner
are a single chain, and its head is the last of them.
-/

namespace Valhalla.Social
open Fallible

variable {e : Evidence} {v v' : ControlView} {o : OwnerId} {s s₀ : OwnerStatus} {previous : RecordId} {parent : Node}
  {added added' : List (RecordId × ControlAction)}

namespace ControlView

def Admits (v : ControlView) (o : OwnerId) (id : RecordId) : Prop := ∃ node : Node, v.nodes[id]? = some node ∧ node.owner = o

/-- Two distinct admitted controls of an owner share their predecessor. -/
def Forks (v : ControlView) (o : OwnerId) : Prop :=
  ∃ (p a b : RecordId) (nodeA nodeB : Node), a ≠ b ∧ v.nodes[a]? = some nodeA ∧ v.nodes[b]? = some nodeB ∧ nodeA.owner = o ∧ nodeB.owner = o ∧
    nodeA.previous = some p ∧ nodeB.previous = some p

end ControlView

def introducedKey (e : Evidence) (id : RecordId) : Option Bytes32 :=
  match e.body id with
  | some (.ownerGenesis controller _ _) => some controller
  | some (.control _ _ (.rotate newKey)) => some newKey
  | _ => none

structure ControlPath (e : Evidence) (v : ControlView) (o : OwnerId) (s : OwnerStatus) (path : List RecordId) : Prop where
  genesis : path.head? = some ⟨o.bytes⟩
  linked : path.IsChain fun p c => ∃ action, e.body c = some (.control o p action)
  all : ∀ id, id ∈ path ↔ v.Admits o id
  nodup : path.Nodup
  head : s.head = path.getLast?
  key : s.key = path.reverse.findSome? (introducedKey e)

/-! ### One visit -/

/-- What a visit of `previous` can do to a view: its admitted children become nodes, and the last of them the head. -/
structure Adds (previous : RecordId) (parent : Node) (added : List (RecordId × ControlAction)) (v v' : ControlView) : Prop where
  evidence : v'.evidence = v.evidence
  entered : ∀ r ∈ added, v'.nodes[r.1]? = some ⟨parent.owner, some previous, nextKey parent r.2⟩
  kept : ∀ id, id ∉ added.map Prod.fst → v'.nodes[id]? = v.nodes[id]?
  statuses : ∀ (o : OwnerId) (s : OwnerStatus), v'.owners[o]? = some s → ∃ s₀ : OwnerStatus, v.owners[o]? = some s₀ ∧ s.frozen = s₀.frozen ∧
    (o ≠ parent.owner ∨ added = [] → s.head = s₀.head ∧ s.key = s₀.key) ∧
    (o = parent.owner → ∀ r, added.getLast? = some r → s.head = some r.1 ∧ s.key = some (nextKey parent r.2))

namespace Adds

theorem refl (v : ControlView) : Adds previous parent [] v v where
  evidence := rfl
  entered _ hr := absurd hr List.not_mem_nil
  kept _ _ := rfl
  statuses _ s hs := ⟨s, hs, rfl, fun _ => ⟨rfl, rfl⟩, fun _ _ hr => absurd hr (by simp)⟩

theorem of_flags (hevidence : v'.evidence = v.evidence) (hnodes : v'.nodes = v.nodes)
    (hstatuses : ∀ (o : OwnerId) (s : OwnerStatus), v'.owners[o]? = some s → ∃ s₀ : OwnerStatus, v.owners[o]? = some s₀ ∧ s.frozen = s₀.frozen ∧ s.head = s₀.head ∧
      s.key = s₀.key) : Adds previous parent [] v v' where
  evidence := hevidence
  entered _ hr := absurd hr List.not_mem_nil
  kept _ _ := by rw [hnodes]
  statuses o s hs := by
    obtain ⟨s₀, hs₀, hfrozen, hhead, hkey⟩ := hstatuses o s hs
    exact ⟨s₀, hs₀, hfrozen, fun _ => ⟨hhead, hkey⟩, fun _ _ hr => absurd hr (by simp)⟩

theorem trans {v'' : ControlView} (h : Adds previous parent added v v') (h' : Adds previous parent added' v' v'')
    (hnodup : ((added ++ added').map Prod.fst).Nodup) : Adds previous parent (added ++ added') v v'' where
  evidence := h'.evidence.trans h.evidence
  entered r hr := by
    rcases List.mem_append.1 hr with hr | hr
    · rw [List.map_append, List.nodup_append] at hnodup
      rw [h'.kept r.1 fun hmem => hnodup.2.2 r.1 (List.mem_map_of_mem hr) r.1 hmem rfl]
      exact h.entered r hr
    · exact h'.entered r hr
  kept id hid := by
    rw [List.map_append, List.mem_append, not_or] at hid
    rw [h'.kept id hid.2, h.kept id hid.1]
  statuses o s hs := by
    obtain ⟨s₁, hs₁, hfrozen', hsame', hlast'⟩ := h'.statuses o s hs
    obtain ⟨s₀, hs₀, hfrozen, hsame, hlast⟩ := h.statuses o s₁ hs₁
    refine ⟨s₀, hs₀, hfrozen'.trans hfrozen, fun ho => ?_, fun ho r hr => ?_⟩
    · have hone : (o ≠ parent.owner ∨ added' = []) ∧ (o ≠ parent.owner ∨ added = []) := by
        rcases ho with ho | ho
        · exact ⟨.inl ho, .inl ho⟩
        · obtain ⟨hadded, hadded'⟩ := List.append_eq_nil_iff.1 ho
          exact ⟨.inr hadded', .inr hadded⟩
      obtain ⟨hhead', hkey'⟩ := hsame' hone.1
      obtain ⟨hhead, hkey⟩ := hsame hone.2
      exact ⟨hhead'.trans hhead, hkey'.trans hkey⟩
    · rcases List.eq_nil_or_concat added' with rfl | ⟨before, last, rfl⟩
      · rw [List.append_nil] at hr
        obtain ⟨hhead', hkey'⟩ := hsame' (.inr rfl)
        obtain ⟨hhead, hkey⟩ := hlast ho r hr
        exact ⟨hhead'.trans hhead, hkey'.trans hkey⟩
      · refine hlast' ho r ?_
        rw [List.concat_eq_append, ← List.append_assoc, List.getLast?_append] at hr
        rw [List.concat_eq_append, List.getLast?_append]
        exact hr

end Adds

theorem adjusted {owners : Std.ExtTreeMap OwnerId OwnerStatus compare} {owner : OwnerId} {f : OwnerStatus → OwnerStatus}
    (h : (Maps.adjust owners owner f)[o]? = some s) : ∃ s₀, owners[o]? = some s₀ ∧ s = if owner = o then f s₀ else s₀ := by
  rw [Maps.getElem?_adjust] at h
  split at h
  · rename_i ho
    obtain ⟨s₀, hs₀, rfl⟩ := Option.map_eq_some_iff.1 h
    exact ⟨s₀, hs₀, by rw [if_pos ho]⟩
  · rename_i ho
    exact ⟨s, h, by rw [if_neg ho]⟩

theorem adds_reject (v : ControlView) (id : RecordId) : Adds previous parent [] v (v.reject id) :=
  .of_flags rfl rfl fun _ s hs => ⟨s, hs, rfl, rfl, rfl⟩

theorem adds_markIncomplete (v : ControlView) (owner : OwnerId) : Adds previous parent [] v (v.markIncomplete owner) := by
  refine .of_flags rfl rfl fun o s hs => ?_
  obtain ⟨s₀, hs₀, rfl⟩ := adjusted hs
  refine ⟨s₀, hs₀, ?_⟩
  split <;> exact ⟨rfl, rfl, rfl⟩

theorem adds_enter (v : ControlView) (id : RecordId) (action : ControlAction) (closure : Closure) :
    Adds previous parent [(id, action)] v ((v.enter id parent.owner previous action parent).accept parent.owner closure) where
  evidence := rfl
  entered r hr := by
    rw [List.mem_singleton.1 hr]
    show (v.nodes.insert id _)[id]? = _
    rw [Maps.getElem?_insert, if_pos rfl]
  kept other hother := by
    rw [List.map_singleton, List.mem_singleton] at hother
    show (v.nodes.insert id _)[other]? = _
    rw [Maps.getElem?_insert, if_neg (Ne.symm hother)]
  statuses o s hs := by
    obtain ⟨s₀, hs₀, rfl⟩ := adjusted hs
    refine ⟨s₀, hs₀, ?_, fun ho => ?_, fun ho r hr => ?_⟩
    · split <;> rfl
    · rcases ho with ho | ho
      · rw [if_neg (Ne.symm ho)]
        exact ⟨rfl, rfl⟩
      · cases ho
    · cases hr
      rw [if_pos ho.symm]
      exact ⟨rfl, rfl⟩

structure Visits (e : Evidence) (previous : RecordId) (parent : Node) (ids : List RecordId)
    (added : List (RecordId × ControlAction)) (w w' : Walk) : Prop where
  sublist : (added.map Prod.fst).Sublist ids
  controls : ∀ r ∈ added, e.body r.1 = some (.control parent.owner previous r.2)
  adds : Adds previous parent added w.view w'.view
  queue : w'.queue = w.queue ++ added.map Prod.fst
  admitted : w'.admitted = w.admitted + added.length

theorem visits_nothing {w w' : Walk} {ids : List RecordId} (hadds : Adds previous parent [] w.view w'.view)
    (hqueue : w'.queue = w.queue) (hadmitted : w'.admitted = w.admitted) : Visits e previous parent ids [] w w' where
  sublist := List.nil_sublist ids
  controls _ hr := absurd hr List.not_mem_nil
  adds := hadds
  queue := by rw [hqueue, List.map_nil, List.append_nil]
  admitted := hadmitted

theorem mem_childrenOf {r : RecordId × Fact} : r ∈ childrenOf e previous ↔
    e.get r.1 = some r.2 ∧ ∃ owner action, r.2.body = .control owner previous action := by
  rw [childrenOf, List.mem_filter, Evidence.records, Std.ExtTreeMap.mem_toList_iff_getElem?_eq_some]
  refine and_congr_right fun _ => ?_
  cases r.2.body with
  | control owner p action =>
    refine ⟨fun h => ⟨owner, action, ?_⟩, fun ⟨owner', action', h⟩ => ?_⟩
    · rw [beq_iff_eq.1 h]
    · cases h
      exact beq_self_eq_true previous
  | _ =>
    refine ⟨fun h => ?_, fun ⟨_, _, h⟩ => ?_⟩
    · cases h
    · cases h

theorem visits_child {r : RecordId × Fact} (hr : r ∈ childrenOf e previous) (w : Walk) :
    ∃ added, Visits e previous parent [r.1] added w (w.visitChild previous parent r) := by
  obtain ⟨hget, owner, action, hbody⟩ := mem_childrenOf.1 hr
  have hcontrol : e.body r.1 = some (.control owner previous action) := by rw [Evidence.body, hget, Option.map_some, hbody]
  unfold Walk.visitChild
  split
  · exact ⟨[], visits_nothing (.refl _) rfl rfl⟩
  · rw [hbody]
    dsimp only
    split
    · exact ⟨[], visits_nothing (adds_reject _ _) rfl rfl⟩
    · rename_i hmatch
      rw [not_or, not_not, not_not] at hmatch
      obtain ⟨rfl, -⟩ := hmatch
      split
      · refine ⟨[(r.1, action)], ?_⟩
        exact
          { sublist := List.Sublist.refl _
            controls := fun r' hr' => by
              rw [List.mem_singleton.1 hr']
              exact hcontrol
            adds := adds_enter _ _ _ _
            queue := rfl
            admitted := rfl }
      · exact ⟨[], visits_nothing (adds_markIncomplete _ _) rfl rfl⟩
      · exact ⟨[], visits_nothing (adds_reject _ _) rfl rfl⟩

theorem visits_children {children : List (RecordId × Fact)} (hchildren : ∀ r ∈ children, r ∈ childrenOf e previous)
    (hnodup : (children.map Prod.fst).Nodup) (w : Walk) :
    ∃ added, Visits e previous parent (children.map Prod.fst) added w (children.foldl (Walk.visitChild previous parent) w) := by
  induction children generalizing w with
  | nil => exact ⟨[], visits_nothing (.refl _) rfl rfl⟩
  | cons r children ih =>
    obtain ⟨hr, hrest⟩ := List.forall_mem_cons.1 hchildren
    obtain ⟨one, hone⟩ : ∃ added, Visits e previous parent [r.1] added w (w.visitChild previous parent r) := visits_child hr w
    obtain ⟨more, hmore⟩ := ih hrest (List.nodup_cons.1 hnodup).2 (w.visitChild previous parent r)
    have hsublist : ((one ++ more).map Prod.fst).Sublist ((r :: children).map Prod.fst) := by
      rw [List.map_append]
      exact hone.sublist.append hmore.sublist
    refine ⟨one ++ more, hsublist, fun r' hr' => ?_, hone.adds.trans hmore.adds (hsublist.nodup hnodup), ?_, ?_⟩
    · rcases List.mem_append.1 hr' with hr' | hr'
      · exact hone.controls r' hr'
      · exact hmore.controls r' hr'
    · rw [List.foldl_cons, hmore.queue, hone.queue, List.map_append, List.append_assoc]
    · rw [List.foldl_cons, hmore.admitted, hone.admitted, List.length_append, Nat.add_assoc]

/-! ### The search -/

structure Grown (e : Evidence) (visited : List RecordId) (v : ControlView) (queue : List RecordId) : Prop where
  evidence : v.evidence = e
  reached : ∀ id : RecordId, (∃ node : Node, v.nodes[id]? = some node) ↔ id ∈ visited ∨ id ∈ queue
  queued : queue.Nodup
  apart : ∀ id ∈ queue, id ∉ visited
  root : ∀ (id : RecordId) (node : Node), v.nodes[id]? = some node → node.previous = none →
    ∃ recovery nonce, e.body id = some (.ownerGenesis node.key recovery nonce)
  child : ∀ (id : RecordId) (node : Node) (p : RecordId), v.nodes[id]? = some node → node.previous = some p →
    p ∈ visited ∧ ∃ action, e.body id = some (.control node.owner p action)
  tip : ∀ (o : OwnerId) (s : OwnerStatus) (id : RecordId), v.owners[o]? = some s → s.head = some id →
    ∃ node : Node, v.nodes[id]? = some node ∧ s.key = some node.key
  forked : ∀ (o : OwnerId) (s : OwnerStatus), v.owners[o]? = some s → (s.frozen = true ↔ v.Forks o)
  path : ∀ (o : OwnerId) (s : OwnerStatus), v.owners[o]? = some s → s.frozen = false → ∃ path, ControlPath e v o s path

namespace Grown
variable {visited queue : List RecordId}

theorem absent (h : Grown e visited v queue) {id : RecordId} {owner : OwnerId} {action : ControlAction}
    (hprevious : previous ∉ visited) (hbody : e.body id = some (.control owner previous action)) : v.nodes[id]? = none := by
  cases hnode : v.nodes[id]? with
  | none => rfl
  | some node =>
    exfalso
    cases hp : node.previous with
    | none =>
      obtain ⟨_, _, hgenesis⟩ := h.root id node hnode hp
      rw [hbody] at hgenesis
      cases hgenesis
    | some p =>
      obtain ⟨hvisited, _, hcontrol⟩ := h.child id node p hnode hp
      rw [hbody] at hcontrol
      cases hcontrol
      exact hprevious hvisited

theorem ends (h : Grown e visited v queue) {path : List RecordId} {node : Node} (hpath : ControlPath e v o s path)
    (hnode : v.nodes[previous]? = some node) (ho : node.owner = o) (hprevious : previous ∉ visited) :
    path.getLast? = some previous := by
  obtain ⟨before, after, rfl⟩ := List.append_of_mem ((hpath.all previous).2 ⟨node, hnode, ho⟩)
  cases after with
  | nil => rw [List.getLast?_append]; rfl
  | cons c after =>
    exfalso
    have hlinked := (List.isChain_append.1 hpath.linked).2.1
    obtain ⟨action, hbody⟩ := (List.isChain_cons_cons.1 hlinked).1
    obtain ⟨cnode, hc, -⟩ := (hpath.all c).1 (by simp)
    rw [h.absent hprevious hbody] at hc
    cases hc

theorem nodes_of_adds (h : Grown e visited v queue) (hadds : Adds previous parent added v v')
    (hcontrols : ∀ r ∈ added, e.body r.1 = some (.control parent.owner previous r.2)) (hprevious : previous ∉ visited)
    (id : RecordId) (node : Node) : v'.nodes[id]? = some node ↔ v.nodes[id]? = some node ∨
      ∃ action, (id, action) ∈ added ∧ node = ⟨parent.owner, some previous, nextKey parent action⟩ := by
  by_cases hid : id ∈ added.map Prod.fst
  · obtain ⟨⟨_, action⟩, hr, rfl⟩ := List.mem_map.1 hid
    have hnone := h.absent hprevious (hcontrols _ hr)
    rw [hadds.entered _ hr]
    constructor
    · intro hnode
      cases hnode
      exact .inr ⟨action, hr, rfl⟩
    · rintro (hnode | ⟨action', hr', rfl⟩)
      · rw [hnone] at hnode
        cases hnode
      · have hbody := hcontrols _ hr'
        rw [hcontrols _ hr] at hbody
        cases hbody
        rfl
  · rw [hadds.kept id hid]
    exact ⟨.inl, fun hnode => hnode.resolve_right fun ⟨_, hr, _⟩ => hid (List.mem_map_of_mem hr)⟩

theorem forks_of_adds (h : Grown e visited v queue) (hadds : Adds previous parent added v v')
    (hcontrols : ∀ r ∈ added, e.body r.1 = some (.control parent.owner previous r.2)) (hprevious : previous ∉ visited)
    (hnodup : (added.map Prod.fst).Nodup) : v'.Forks o ↔ v.Forks o ∨ (o = parent.owner ∧ 1 < added.length) := by
  have hnodes := h.nodes_of_adds hadds hcontrols hprevious
  have hold : ∀ (id : RecordId) (node : Node), v.nodes[id]? = some node → node.previous ≠ some previous :=
    fun id node hnode hp => hprevious (h.child id node previous hnode hp).1
  constructor
  · rintro ⟨p, a, b, nodeA, nodeB, hne, ha, hb, hoA, hoB, hpA, hpB⟩
    rcases (hnodes a nodeA).1 ha with ha | ⟨actionA, hrA, rfl⟩
    · rcases (hnodes b nodeB).1 hb with hb | ⟨actionB, hrB, rfl⟩
      · exact .inl ⟨p, a, b, nodeA, nodeB, hne, ha, hb, hoA, hoB, hpA, hpB⟩
      · exact absurd (hpA.trans hpB.symm) (hold a nodeA ha)
    · rcases (hnodes b nodeB).1 hb with hb | ⟨actionB, hrB, rfl⟩
      · exact absurd (hpB.trans hpA.symm) (hold b nodeB hb)
      · refine .inr ⟨hoA.symm, ?_⟩
        match added, hrA, hrB with
        | [_], hrA, hrB =>
          rw [← List.mem_singleton.1 hrB] at hrA
          exact absurd (Prod.mk.inj (List.mem_singleton.1 hrA)).1 hne
        | _ :: _ :: _, _, _ => simp
  · rintro (⟨p, a, b, nodeA, nodeB, hne, ha, hb, hrest⟩ | ⟨rfl, hlen⟩)
    · exact ⟨p, a, b, nodeA, nodeB, hne, (hnodes a nodeA).2 (.inl ha), (hnodes b nodeB).2 (.inl hb), hrest⟩
    · match added, hlen, hnodup, hadds with
      | r :: r' :: _, _, hnodup, hadds =>
        have hne : r.1 ≠ r'.1 := fun he => (List.nodup_cons.1 hnodup).1 (by rw [he]; simp)
        exact ⟨previous, r.1, r'.1, _, _, hne, hadds.entered r (by simp), hadds.entered r' (by simp), rfl, rfl, rfl, rfl⟩

theorem path_of_child (h : Grown e visited v queue) {r : RecordId × ControlAction} (hadds : Adds previous parent [r] v v')
    (hcontrols : e.body r.1 = some (.control parent.owner previous r.2)) (hparent : v.nodes[previous]? = some parent)
    (hprevious : previous ∉ visited) {path : List RecordId} (hs₀ : v.owners[parent.owner]? = some s₀)
    (hpath : ControlPath e v parent.owner s₀ path) (hhead : s.head = some r.1) (hkey : s.key = some (nextKey parent r.2)) :
    ControlPath e v' parent.owner s (path ++ [r.1]) := by
  have hlast := h.ends hpath hparent rfl hprevious
  have hnodes := h.nodes_of_adds hadds (List.forall_mem_singleton.2 hcontrols) hprevious
  have hall : ∀ id, v'.Admits parent.owner id ↔ v.Admits parent.owner id ∨ id = r.1 := by
    intro id
    constructor
    · rintro ⟨node, hnode, ho⟩
      rcases (hnodes id node).1 hnode with hnode | ⟨action, hr, -⟩
      · exact .inl ⟨node, hnode, ho⟩
      · exact .inr (congrArg Prod.fst (List.mem_singleton.1 hr))
    · rintro (⟨node, hnode, ho⟩ | rfl)
      · exact ⟨node, (hnodes id node).2 (.inl hnode), ho⟩
      · exact ⟨_, hadds.entered r List.mem_cons_self, rfl⟩
  refine ⟨?_, ?_, fun id => ?_, ?_, ?_, ?_⟩
  · rw [List.head?_append, hpath.genesis]
    rfl
  · refine List.isChain_append.2 ⟨hpath.linked, List.isChain_singleton _, fun p hp c hc => ?_⟩
    rw [hlast] at hp
    cases hp
    cases hc
    exact ⟨r.2, hcontrols⟩
  · rw [List.mem_append, List.mem_singleton, hpath.all, hall]
  · refine List.nodup_append.2 ⟨hpath.nodup, List.nodup_singleton _, fun id hid id' hid' he => ?_⟩
    obtain ⟨node, hnode, -⟩ := (hpath.all id).1 hid
    rw [he, List.mem_singleton.1 hid', h.absent hprevious hcontrols] at hnode
    cases hnode
  · rw [List.getLast?_append, hhead]
    rfl
  · obtain ⟨node, hnode, hk⟩ := h.tip _ _ previous hs₀ (hpath.head.trans hlast)
    rw [hparent] at hnode
    cases hnode
    rw [List.reverse_append, List.reverse_singleton, List.singleton_append, List.findSome?_cons, ← hpath.key, hk, hkey,
      introducedKey, hcontrols]
    cases r.2 <;> rfl

theorem path_of_other (h : Grown e visited v queue) (hadds : Adds previous parent added v v')
    (hcontrols : ∀ r ∈ added, e.body r.1 = some (.control parent.owner previous r.2)) (hprevious : previous ∉ visited)
    (ho : o ≠ parent.owner ∨ added = []) {path : List RecordId} (hpath : ControlPath e v o s₀ path)
    (hhead : s.head = s₀.head) (hkey : s.key = s₀.key) : ControlPath e v' o s path := by
  have hnodes := h.nodes_of_adds hadds hcontrols hprevious
  refine ⟨hpath.genesis, hpath.linked, fun id => ?_, hpath.nodup, hhead.trans hpath.head, hkey.trans hpath.key⟩
  rw [hpath.all]
  constructor
  · rintro ⟨node, hnode, howner⟩
    exact ⟨node, (hnodes id node).2 (.inl hnode), howner⟩
  · rintro ⟨node, hnode, howner⟩
    rcases (hnodes id node).1 hnode with hnode | ⟨action, hr, rfl⟩
    · exact ⟨node, hnode, howner⟩
    · rcases ho with ho | rfl
      · exact absurd howner.symm ho
      · cases hr

/-- What freezing after a visit leaves of the statuses. -/
structure Freezes (owner : OwnerId) (freeze : Prop) (v v' : ControlView) : Prop where
  evidence : v'.evidence = v.evidence
  nodes : v'.nodes = v.nodes
  statuses : ∀ (o : OwnerId) (s : OwnerStatus), v'.owners[o]? = some s → ∃ s₀ : OwnerStatus, v.owners[o]? = some s₀ ∧
    s.head = s₀.head ∧ s.key = s₀.key ∧ (s.frozen = true ↔ s₀.frozen = true ∨ (o = owner ∧ freeze))

theorem freezes (v : ControlView) (owner : OwnerId) : Freezes owner True v (v.freeze owner) := by
  refine ⟨rfl, rfl, fun o s hs => ?_⟩
  obtain ⟨s₀, hs₀, rfl⟩ := adjusted hs
  refine ⟨s₀, hs₀, ?_⟩
  by_cases ho : owner = o
  · simp [ho]
  · simp [ho, Ne.symm ho]

theorem freezes_not {freeze : Prop} (v : ControlView) (owner : OwnerId) (hnot : ¬ freeze) : Freezes owner freeze v v :=
  ⟨rfl, rfl, fun o s hs => ⟨s, hs, rfl, rfl, by simp [hnot]⟩⟩

theorem extend {v'' : ControlView} (h : Grown e visited v (previous :: queue)) (hparent : v.nodes[previous]? = some parent)
    (hcontrols : ∀ r ∈ added, e.body r.1 = some (.control parent.owner previous r.2)) (hnodup : (added.map Prod.fst).Nodup)
    (hadds : Adds previous parent added v v') (hfreezes : Freezes parent.owner (1 < added.length) v' v'') :
    Grown e (visited ++ [previous]) v'' (queue ++ added.map Prod.fst) := by
  have hprevious := h.apart previous List.mem_cons_self
  obtain ⟨hhere, hqueue⟩ := List.nodup_cons.1 h.queued
  have hnodes := h.nodes_of_adds hadds hcontrols hprevious
  have hnew : ∀ id ∈ added.map Prod.fst, id ∉ visited ∧ id ≠ previous ∧ id ∉ queue := by
    intro id hid
    obtain ⟨r, hr, rfl⟩ := List.mem_map.1 hid
    have hnone := h.absent hprevious (hcontrols r hr)
    have hnot : ¬ (r.1 ∈ visited ∨ r.1 ∈ previous :: queue) := fun hmem => by
      obtain ⟨node, hnode⟩ := (h.reached r.1).2 hmem
      rw [hnone] at hnode
      cases hnode
    rw [not_or, List.mem_cons, not_or] at hnot
    exact hnot
  have hstatus : ∀ (o : OwnerId) (s : OwnerStatus), v''.owners[o]? = some s → ∃ s₀ : OwnerStatus, v.owners[o]? = some s₀ ∧
      (s.frozen = true ↔ s₀.frozen = true ∨ (o = parent.owner ∧ 1 < added.length)) ∧
      (o ≠ parent.owner ∨ added = [] → s.head = s₀.head ∧ s.key = s₀.key) ∧
      (o = parent.owner → ∀ r, added.getLast? = some r → s.head = some r.1 ∧ s.key = some (nextKey parent r.2)) := by
    intro o s hs
    obtain ⟨s₁, hs₁, hhead, hkey, hfrozen⟩ := hfreezes.statuses o s hs
    obtain ⟨s₀, hs₀, hfrozen₀, hsame, hlast⟩ := hadds.statuses o s₁ hs₁
    rw [hfrozen₀] at hfrozen
    rw [hhead, hkey]
    exact ⟨s₀, hs₀, hfrozen, hsame, hlast⟩
  have hforks : ∀ o, v''.Forks o ↔ v.Forks o ∨ (o = parent.owner ∧ 1 < added.length) := by
    intro o
    rw [← h.forks_of_adds hadds hcontrols hprevious hnodup, ControlView.Forks, ControlView.Forks, hfreezes.nodes]
  refine
    { evidence := hfreezes.evidence.trans (hadds.evidence.trans h.evidence)
      reached := fun id => ?_
      queued := ?_
      apart := fun id hid => ?_
      root := fun id node hnode hp => ?_
      child := fun id node p hnode hp => ?_
      tip := fun o s id hs hhead => ?_
      forked := fun o s hs => ?_
      path := fun o s hs hfrozen => ?_ }
  · rw [hfreezes.nodes, List.mem_append, List.mem_append, List.mem_singleton, or_assoc, ← or_assoc (a := id = previous),
      ← List.mem_cons, ← or_assoc, ← h.reached]
    simp only [hnodes]
    constructor
    · rintro ⟨node, hnode | ⟨action, hr, -⟩⟩
      · exact .inl ⟨node, hnode⟩
      · exact .inr (List.mem_map_of_mem hr)
    · rintro (⟨node, hnode⟩ | hid)
      · exact ⟨node, .inl hnode⟩
      · obtain ⟨r, hr, rfl⟩ := List.mem_map.1 hid
        exact ⟨_, .inr ⟨r.2, hr, rfl⟩⟩
  · refine List.nodup_append.2 ⟨hqueue, hnodup, fun id hid id' hid' he => ?_⟩
    exact (hnew id' hid').2.2 (he ▸ hid)
  · rw [List.mem_append, List.mem_singleton, not_or]
    rcases List.mem_append.1 hid with hid | hid
    · exact ⟨h.apart id (List.mem_cons_of_mem _ hid), fun he => hhere (he ▸ hid)⟩
    · exact ⟨(hnew id hid).1, (hnew id hid).2.1⟩
  · rw [hfreezes.nodes] at hnode
    rcases (hnodes id node).1 hnode with hnode | ⟨action, hr, rfl⟩
    · exact h.root id node hnode hp
    · cases hp
  · rw [hfreezes.nodes] at hnode
    rcases (hnodes id node).1 hnode with hnode | ⟨action, hr, rfl⟩
    · obtain ⟨hvisited, hbody⟩ := h.child id node p hnode hp
      exact ⟨List.mem_append_left _ hvisited, hbody⟩
    · cases hp
      exact ⟨List.mem_append_right _ (List.mem_singleton.2 rfl), action, hcontrols _ hr⟩
  · obtain ⟨s₀, hs₀, -, hsame, hlast⟩ := hstatus o s hs
    rw [hfreezes.nodes]
    by_cases ho : o ≠ parent.owner ∨ added = []
    · obtain ⟨hhead₀, hkey₀⟩ := hsame ho
      obtain ⟨node, hnode, hkey⟩ := h.tip o s₀ id hs₀ (hhead₀ ▸ hhead)
      exact ⟨node, (hnodes id node).2 (.inl hnode), hkey₀ ▸ hkey⟩
    · rw [not_or, not_not] at ho
      obtain ⟨r, hr⟩ := Option.ne_none_iff_exists'.1 (mt List.getLast?_eq_none_iff.1 ho.2)
      obtain ⟨hhead', hkey'⟩ := hlast ho.1 r hr
      rw [hhead'] at hhead
      cases hhead
      exact ⟨_, hadds.entered r (List.mem_of_getLast? hr), hkey'⟩
  · obtain ⟨s₀, hs₀, hfrozen, -⟩ := hstatus o s hs
    rw [hfrozen, hforks, h.forked o s₀ hs₀]
  · obtain ⟨s₀, hs₀, hfrozen₀, hsame, hlast⟩ := hstatus o s hs
    have hnot := mt hfrozen₀.2 (by rw [hfrozen]; exact Bool.false_ne_true)
    rw [not_or] at hnot
    obtain ⟨path, hpath⟩ := h.path o s₀ hs₀ (Bool.eq_false_iff.2 hnot.1)
    have hcongr : ∀ path, ControlPath e v' o s path → ControlPath e v'' o s path := fun path hp =>
      { hp with all := fun id => by rw [hp.all, ControlView.Admits, ControlView.Admits, hfreezes.nodes] }
    by_cases ho : o ≠ parent.owner ∨ added = []
    · obtain ⟨hhead, hkey⟩ := hsame ho
      exact ⟨path, hcongr _ (h.path_of_other hadds hcontrols hprevious ho hpath hhead hkey)⟩
    · rw [not_or, not_not] at ho
      obtain ⟨rfl, hne⟩ := ho
      match added, hne, hnot, hadds, hcontrols, hlast with
      | [r], _, _, hadds, hcontrols, hlast =>
        obtain ⟨hhead, hkey⟩ := hlast rfl r rfl
        exact ⟨path ++ [r.1], hcongr _ (h.path_of_child hadds (hcontrols r List.mem_cons_self) hparent hprevious hs₀ hpath hhead hkey)⟩
      | _ :: _ :: _, _, hnot, _, _, _ => exact absurd ⟨rfl, by simp⟩ hnot.2

theorem visit {w : Walk} (h : Grown e visited w.view (previous :: queue)) :
    Grown e (visited ++ [previous]) (({ w with queue } : Walk).visit previous).view
      (({ w with queue } : Walk).visit previous).queue := by
  obtain ⟨parent, hparent⟩ := (h.reached previous).2 (.inr List.mem_cons_self)
  unfold Walk.visit
  rw [hparent]
  dsimp only
  have hnodup : ((childrenOf w.view.evidence previous).map Prod.fst).Nodup := by
    refine (List.Sublist.map Prod.fst List.filter_sublist).nodup ?_
    rw [Evidence.records, Std.ExtTreeMap.map_fst_toList_eq_keys]
    exact Std.ExtTreeMap.nodup_keys
  obtain ⟨added, hvisits⟩ : ∃ added, Visits e previous parent ((childrenOf w.view.evidence previous).map Prod.fst) added
      { w with queue, admitted := 0 } ((childrenOf w.view.evidence previous).foldl (Walk.visitChild previous parent)
        { w with queue, admitted := 0 }) :=
    visits_children (fun r hr => h.evidence ▸ hr) hnodup _
  have hadmitted : ((childrenOf w.view.evidence previous).foldl (Walk.visitChild previous parent)
      { w with queue, admitted := 0 }).admitted = added.length := hvisits.admitted.trans (Nat.zero_add _)
  have hextend := fun (v : ControlView) (hv : Freezes parent.owner (1 < added.length) _ v) =>
    h.extend hparent hvisits.controls (hvisits.sublist.nodup hnodup) hvisits.adds hv
  rw [hadmitted]
  split
  · rename_i hlen
    have hfreezes := freezes ((childrenOf w.view.evidence previous).foldl (Walk.visitChild previous parent)
      { w with queue, admitted := 0 }).view parent.owner
    have hgrown := hextend _ ⟨hfreezes.evidence, hfreezes.nodes, by simpa [hlen] using hfreezes.statuses⟩
    rwa [← hvisits.queue] at hgrown
  · rename_i hlen
    have hgrown := hextend _ (freezes_not _ parent.owner hlen)
    rwa [← hvisits.queue] at hgrown

theorem run (n : Nat) {w : Walk} (h : Grown e visited w.view w.queue) :
    ∃ visited', Grown e visited' (w.run n).view (w.run n).queue := by
  induction n generalizing visited w with
  | zero => exact ⟨visited, h⟩
  | succ n ih =>
    rw [Walk.run]
    split
    · exact ⟨visited, h⟩
    · rename_i previous queue hqueue
      rw [hqueue] at h
      exact ih h.visit

end Grown

structure Seeded (e : Evidence) (v : ControlView) (queue : List RecordId) : Prop where
  evidence : v.evidence = e
  queued : queue.Nodup
  nodes : ∀ (id : RecordId) (node : Node), v.nodes[id]? = some node ↔ id ∈ queue ∧ ∃ controller recovery nonce,
    e.body id = some (.ownerGenesis controller recovery nonce) ∧ node = ⟨ownerId id, none, controller⟩
  genesis : ∀ id ∈ queue, ∃ controller recovery nonce, e.body id = some (.ownerGenesis controller recovery nonce)
  owners : ∀ (o : OwnerId) (s : OwnerStatus), v.owners[o]? = some s → ∃ id controller recovery nonce, id ∈ queue ∧
    o = ownerId id ∧ e.body id = some (.ownerGenesis controller recovery nonce) ∧ s = ⟨some id, some controller, false, false, false⟩

namespace Seeded
variable {queue : List RecordId}

theorem enter (h : Seeded e v queue) {id : RecordId} {controller : Bytes32} {recovery : Option Bytes32} {nonce : Bytes32}
    (hnew : id ∉ queue) (hbody : e.body id = some (.ownerGenesis controller recovery nonce)) :
    Seeded e (v.enterGenesis id controller) (queue ++ [id]) where
  evidence := h.evidence
  queued := List.nodup_append.2 ⟨h.queued, List.nodup_singleton _, fun a ha b hb he =>
    hnew (List.mem_singleton.1 hb ▸ he ▸ ha)⟩
  nodes other node := by
    rw [ControlView.enterGenesis, Maps.getElem?_insert, List.mem_append, List.mem_singleton]
    split
    · rename_i heq
      subst heq
      constructor
      · intro hnode
        cases hnode
        exact ⟨.inr rfl, controller, recovery, nonce, hbody, rfl⟩
      · rintro ⟨-, controller', _, _, hbody', rfl⟩
        rw [hbody] at hbody'
        cases hbody'
        rfl
    · rename_i hne
      rw [h.nodes, or_iff_left (Ne.symm hne)]
  genesis other hother := by
    rcases List.mem_append.1 hother with hother | hother
    · exact h.genesis other hother
    · rw [List.mem_singleton.1 hother]
      exact ⟨controller, recovery, nonce, hbody⟩
  owners o s hs := by
    rw [ControlView.enterGenesis, Maps.getElem?_insert] at hs
    split at hs
    · rename_i ho
      cases hs
      exact ⟨id, controller, recovery, nonce, by simp, ho.symm, hbody, rfl⟩
    · obtain ⟨id', controller', recovery', nonce', hid', hrest⟩ := h.owners o s hs
      exact ⟨id', controller', recovery', nonce', List.mem_append_left _ hid', hrest⟩

theorem seeds {records : List (RecordId × Fact)} (hrecords : ∀ r ∈ records, e.get r.1 = some r.2)
    (hnodup : (records.map Prod.fst).Nodup) {w : ControlView × List RecordId} (h : Seeded e w.1 w.2)
    (hnew : ∀ r ∈ records, r.1 ∉ w.2) : Seeded e (records.foldl seed w).1 (records.foldl seed w).2 := by
  induction records generalizing w with
  | nil => exact h
  | cons r records ih =>
    obtain ⟨hr, hrest⟩ := List.forall_mem_cons.1 hrecords
    obtain ⟨hnewr, hnewrest⟩ := List.forall_mem_cons.1 hnew
    obtain ⟨hnot, hnodup⟩ := List.nodup_cons.1 hnodup
    rw [List.foldl_cons]
    have hsame : Seeded e (records.foldl seed w).1 (records.foldl seed w).2 := ih hrest hnodup h hnewrest
    unfold seed
    split
    · rename_i controller recovery nonce hbody
      split
      · have hgenesis : e.body r.1 = some (.ownerGenesis controller recovery nonce) := by
          rw [Evidence.body, hr, Option.map_some, hbody]
        refine ih hrest hnodup (h.enter hnewr hgenesis) fun r' hr' hmem => ?_
        rcases List.mem_append.1 hmem with hmem | hmem
        · exact hnewrest r' hr' hmem
        · exact hnot (List.mem_singleton.1 hmem ▸ List.mem_map_of_mem hr')
      · exact hsame
    · exact hsame

theorem grown (h : Seeded e v queue) : Grown e [] v queue where
  evidence := h.evidence
  reached id := by
    rw [or_iff_right List.not_mem_nil]
    refine ⟨fun ⟨node, hnode⟩ => ((h.nodes id node).1 hnode).1, fun hid => ?_⟩
    obtain ⟨controller, recovery, nonce, hbody⟩ := h.genesis id hid
    exact ⟨_, (h.nodes id _).2 ⟨hid, controller, recovery, nonce, hbody, rfl⟩⟩
  queued := h.queued
  apart _ _ := List.not_mem_nil
  root id node hnode _ := by
    obtain ⟨-, controller, recovery, nonce, hbody, rfl⟩ := (h.nodes id node).1 hnode
    exact ⟨recovery, nonce, hbody⟩
  child id node p hnode hp := by
    obtain ⟨-, controller, recovery, nonce, hbody, rfl⟩ := (h.nodes id node).1 hnode
    cases hp
  tip o s id hs hhead := by
    obtain ⟨id', controller, recovery, nonce, hid', rfl, hbody, rfl⟩ := h.owners o s hs
    cases hhead
    exact ⟨_, (h.nodes id _).2 ⟨hid', controller, recovery, nonce, hbody, rfl⟩, rfl⟩
  forked o s hs := by
    obtain ⟨id', controller, recovery, nonce, -, rfl, -, rfl⟩ := h.owners o s hs
    refine ⟨fun hfrozen => absurd hfrozen Bool.false_ne_true, ?_⟩
    rintro ⟨p, a, b, nodeA, nodeB, -, ha, -, -, -, hp, -⟩
    obtain ⟨-, _, _, _, _, rfl⟩ := (h.nodes a nodeA).1 ha
    cases hp
  path o s hs _ := by
    obtain ⟨id, controller, recovery, nonce, hid, rfl, hbody, rfl⟩ := h.owners o s hs
    refine ⟨[id], rfl, List.isChain_singleton _, fun other => ?_, List.nodup_singleton _, rfl, ?_⟩
    · rw [List.mem_singleton]
      constructor
      · rintro rfl
        exact ⟨_, (h.nodes other _).2 ⟨hid, controller, recovery, nonce, hbody, rfl⟩, rfl⟩
      · rintro ⟨node, hnode, ho⟩
        obtain ⟨-, _, _, _, _, rfl⟩ := (h.nodes other node).1 hnode
        exact Id.relabel_injective ho
    · rw [List.reverse_singleton, List.findSome?_cons, introducedKey, hbody]

end Seeded

theorem grown_start (e : Evidence) (now : UInt64) : Grown e [] (Walk.start e now).view (Walk.start e now).queue := by
  have hempty : Seeded e { evidence := e, now } [] :=
    { evidence := rfl
      queued := .nil
      nodes := fun id node => by simp
      genesis := fun _ hid => absurd hid List.not_mem_nil
      owners := fun o s hs => by simp at hs }
  have hseeded : Seeded e (Walk.start e now).view (Walk.start e now).queue := by
    refine hempty.seeds (w := ({ evidence := e, now }, [])) (fun r hr => ?_) ?_ fun _ _ => List.not_mem_nil
    · exact Std.ExtTreeMap.mem_toList_iff_getElem?_eq_some.1 hr
    · rw [Evidence.records, Std.ExtTreeMap.map_fst_toList_eq_keys]
      exact Std.ExtTreeMap.nodup_keys
  exact hseeded.grown

theorem grown_deriveControls (e : Evidence) (now : UInt64) :
    ∃ visited queue, Grown e visited (deriveControls e now).view queue := by
  obtain ⟨visited, h⟩ := (grown_start e now).run e.facts.size
  exact ⟨visited, _, h⟩

/-! ### The derived view -/

/-- The flags and heads of all owners fit their admitted controls. -/
structure SingleChains (e : Evidence) (v : ControlView) : Prop where
  forked : ∀ (o : OwnerId) (s : OwnerStatus), v.owners[o]? = some s → (s.frozen = true ↔ v.Forks o)
  path : ∀ (o : OwnerId) (s : OwnerStatus), v.owners[o]? = some s → s.frozen = false → ∃ path, ControlPath e v o s path

theorem SingleChains.congr (h : SingleChains e v) (hnodes : v'.nodes = v.nodes)
    (hstatuses : ∀ (o : OwnerId) (s : OwnerStatus), v'.owners[o]? = some s → ∃ s₀ : OwnerStatus, v.owners[o]? = some s₀ ∧
      s.frozen = s₀.frozen ∧ (s.frozen = false → s.head = s₀.head ∧ s.key = s₀.key)) : SingleChains e v' := by
  refine ⟨fun o s hs => ?_, fun o s hs hfrozen => ?_⟩
  · obtain ⟨s₀, hs₀, hfrozen, -⟩ := hstatuses o s hs
    rw [hfrozen, h.forked o s₀ hs₀, ControlView.Forks, ControlView.Forks, hnodes]
  · obtain ⟨s₀, hs₀, hfrozen₀, hsame⟩ := hstatuses o s hs
    obtain ⟨hhead, hkey⟩ := hsame hfrozen
    obtain ⟨path, hpath⟩ := h.path o s₀ hs₀ (hfrozen₀ ▸ hfrozen)
    exact ⟨path,
      { genesis := hpath.genesis
        linked := hpath.linked
        all := fun id => by rw [hpath.all, ControlView.Admits, ControlView.Admits, hnodes]
        nodup := hpath.nodup
        head := hhead.trans hpath.head
        key := hkey.trans hpath.key }⟩

theorem SingleChains.map (h : SingleChains e v) {f : OwnerId → OwnerStatus → OwnerStatus} (hnodes : v'.nodes = v.nodes)
    (howners : v'.owners = v.owners.map f)
    (hf : ∀ o s, (f o s).frozen = s.frozen ∧ ((f o s).frozen = false → (f o s).head = s.head ∧ (f o s).key = s.key)) :
    SingleChains e v' := by
  refine h.congr hnodes fun o s hs => ?_
  rw [howners, Std.ExtTreeMap.getElem?_map] at hs
  obtain ⟨s₀, hs₀, rfl⟩ := Option.map_eq_some_iff.1 hs
  exact ⟨s₀, hs₀, hf o s₀⟩

theorem SingleChains.same (h : SingleChains e v) (hnodes : v'.nodes = v.nodes) (howners : v'.owners = v.owners) :
    SingleChains e v' :=
  h.congr hnodes fun _ s hs => ⟨s, howners ▸ hs, rfl, fun _ => ⟨rfl, rfl⟩⟩

theorem keepsChains (e : Evidence) : KeptByReading e (SingleChains e) where
  accept _ _ _ hv := hv.same rfl rfl
  block _ hv := hv.map rfl rfl fun _ _ => ⟨rfl, fun _ => ⟨rfl, rfl⟩⟩
  agent _ _ _ _ hv := hv.same rfl rfl
  adjust _ _ _ hv := hv.same rfl rfl
  status _ _ _ hv := hv.same rfl rfl
  withhold _ hv := hv.map rfl rfl fun _ _ => ⟨rfl, fun _ => ⟨rfl, rfl⟩⟩

/-- Whatever is retained: an owner is frozen exactly if two of its admitted controls share a predecessor, and the
admitted genesis and controls of any other owner are one path to its head, with the key that was introduced last. -/
theorem unfrozen_chain (e : Evidence) (now : UInt64) (o : OwnerId) (s : OwnerStatus)
    (hs : (ControlView.new e now).owners[o]? = some s) :
    (s.frozen = true ↔ (ControlView.new e now).Forks o) ∧
      (s.frozen = false → ∃ path, ControlPath e (ControlView.new e now) o s path) := by
  obtain ⟨visited, queue, hgrown⟩ := grown_deriveControls e now
  have hcontrols : SingleChains e (deriveControls e now).view := ⟨hgrown.forked, hgrown.path⟩
  have hsettled : SingleChains e (deriveControls e now).view.settleForks := by
    refine hcontrols.map (f := fun _ s => if s.frozen then { s with head := none, key := none } else s) rfl rfl fun _ s => ?_
    by_cases hfrozen : s.frozen = true
    · simp [hfrozen]
    · simp [hfrozen]
  have hview : SingleChains e (ControlView.new e now) := (keepsChains e).derive hsettled (maxRecords * maxRecords)
  exact ⟨hview.forked o s hs, hview.path o s hs⟩

/-! ### An owner that rotated its key -/

def exampleId (n : UInt8) : RecordId := ⟨Vector.replicate 32 n⟩

def exampleKey (n : UInt8) : Bytes32 := Vector.replicate 32 n

def exampleLimits : Limits := ⟨1024, 128, 128, 64, 32, 128, 8⟩

def exampleEvidence (facts : List (RecordId × Fact)) : Evidence := ⟨⟨77⟩, exampleLimits, Maps.ofEntries compare facts⟩

def rotatedEvidence : Evidence := exampleEvidence
  [(exampleId 1, ⟨exampleKey 1, .ownerGenesis (exampleKey 1) none (exampleKey 0)⟩),
    (exampleId 2, ⟨exampleKey 1, .control (ownerId (exampleId 1)) (exampleId 1) (.rotate (exampleKey 2))⟩)]

def rotatedStatus : OwnerStatus := ⟨some (exampleId 2), some (exampleKey 2), false, false, false⟩

theorem rotated_known : (ControlView.new rotatedEvidence 0).owners[ownerId (exampleId 1)]? = some rotatedStatus := by
  decide +kernel

theorem rotated_unfrozen_chain : ∃ path, ControlPath rotatedEvidence (ControlView.new rotatedEvidence 0)
    (ownerId (exampleId 1)) rotatedStatus path :=
  (unfrozen_chain rotatedEvidence 0 (ownerId (exampleId 1)) rotatedStatus rotated_known).2 rfl

end Valhalla.Social
