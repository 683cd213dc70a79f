import Valhalla.Lib.Settling
import Valhalla.Social.Heads
import Valhalla.Social.View

/-!
# Classification does not depend on the order

Validation reads the states of other records, and a record that waits is the only one whose verdict can still change. So a
round promotes records by final verdicts: whatever the order, the same classification is reached, which is the verdict on
itself.
-/

namespace Valhalla.Social
open FixedWidth Check Settling

namespace View
variable {control : ControlView} {s t : RecordId → Option RecordState} {id : RecordId}

/-! ### Validation when more is settled -/

section
variable (h : ∀ id, Refines .missing (dependency s id) (dependency t id))
include h

theorem postOperation_refines (id : RecordId) : Refines .missing (postOperation control s id) (postOperation control t id) := by
  unfold postOperation
  refine .bind (.refl _ _) fun ⟨actor, op⟩ => ?_
  refine .bind (.refl _ _) fun _ => ?_
  exact .bind (h id) fun _ => .refl _ _

theorem exactRevision_refines (reference : PostRef) :
    Refines .missing (exactRevision control s reference) (exactRevision control t reference) := by
  unfold exactRevision
  refine .bind (postOperation_refines h _) fun _ => ?_
  refine .bind (.refl _ _) fun ⟨_, op⟩ => ?_
  exact .bind (.refl _ _) fun _ => h _

theorem checkThread_refines (root : RecordId) (placement : Placement) (turns : Nat) (parent : RecordId) :
    Refines .missing (checkThread control s root placement turns parent) (checkThread control t root placement turns parent) := by
  induction turns generalizing parent with
  | zero => exact .refl _ _
  | succ turns ih =>
    unfold checkThread
    refine .bind (postOperation_refines h parent) fun ⟨_, ancestor⟩ => ?_
    refine .bind (.refl _ _) fun ⟨_, reply⟩ => ?_
    refine .bind (.refl _ _) fun _ => ?_
    cases reply with
    | none => exact .refl _ _
    | some previous =>
      refine .bind (.refl _ _) fun _ => ?_
      by_cases hturns : turns = 0
      · rw [if_pos hturns, if_pos hturns]
        exact .refl _ _
      · rw [if_neg hturns, if_neg hturns]
        exact ih _

theorem checkReply_refines (placement : Placement) (reply : ReplyRef) :
    Refines .missing (checkReply control s placement reply) (checkReply control t placement reply) := by
  unfold checkReply
  refine .bind (exactRevision_refines h _) fun _ => ?_
  refine .bind (postOperation_refines h _) fun ⟨_, root⟩ => ?_
  refine .bind (.refl _ _) fun ⟨rootPlacement, rootReply⟩ => ?_
  exact .bind (.refl _ _) fun _ => checkThread_refines h _ _ _ _

theorem checkOpinion_refines (post : RecordId) (revision : Option RecordId) :
    Refines .missing (checkOpinion control s post revision) (checkOpinion control t post revision) := by
  unfold checkOpinion
  refine .bind (postOperation_refines h _) fun _ => ?_
  exact .optionForM fun revision => exactRevision_refines h _

theorem checkOperation_refines (actor : Actor) (op : Operation) :
    Refines .missing (checkOperation control s actor op) (checkOperation control t actor op) := by
  have hpost : ∀ placement reply quote, Refines .missing (checkPost control s placement reply quote) (checkPost control t placement reply quote) := by
    intro placement reply quote
    unfold checkPost
    refine .bind (.optionForM (exactRevision_refines h)) fun _ => ?_
    exact .optionForM (checkReply_refines h placement)
  have hrevise : ∀ post supersedes, Refines .missing (checkRevise control s post supersedes) (checkRevise control t post supersedes) :=
    fun post supersedes => .bind (postOperation_refines h post) fun _ => .refl _ _
  unfold checkOperation
  cases op with
  | post | postFaceted => exact hpost _ _ _
  | revise | reviseFaceted => exact hrevise _ _
  | retract => exact .bind (postOperation_refines h _) fun _ => .refl _ _
  | repost | react => exact checkOpinion_refines h _ _
  | follow | agentBio | ownerProfile => exact .refl _ _

/-- A verdict stays, unless it was to wait. -/
theorem validate_refines (id : RecordId) : Refines .missing (validate control s id) (validate control t id) := by
  unfold validate
  refine .bind (.refl _ _) fun ⟨actor, op⟩ => ?_
  refine .bind (.refl _ _) fun _ => ?_
  refine .bind (.forM fun previous _ => ?_) fun _ => checkOperation_refines h actor op
  refine .bind (.refl _ _) fun _ => ?_
  refine .bind (.refl _ _) fun _ => ?_
  exact .bind (.refl _ _) fun _ => h previous

end

def opened (s : RecordId → Option RecordState) (id : RecordId) : Option RecordState := (s id).filter (· ≠ .pending)

theorem opened_eq_some {state : RecordState} : opened s id = some state ↔ s id = some state ∧ state ≠ .pending := by
  simp [opened, Option.filter_eq_some_iff]

theorem dependency_opened (s : RecordId → Option RecordState) (id : RecordId) : dependency (opened s) id = dependency s id := by
  unfold dependency opened
  rcases s id with - | state
  · rfl
  · cases state <;> rfl

theorem validate_opened (control : ControlView) (s : RecordId → Option RecordState) (id : RecordId) :
    validate control (opened s) id = validate control s id := by
  have hsame := dependency_opened s
  refine (validate_refines (fun id => ?_) id).antisymm (validate_refines (fun id => ?_) id)
  · rw [hsame]
    exact .refl _ _
  · rw [hsame]
    exact .refl _ _

theorem dependency_extends (h : Extends s t) (id : RecordId) : Refines .missing (dependency s id) (dependency t id) := by
  unfold dependency
  cases hs : s id with
  | none => exact .inr rfl
  | some state =>
    rw [h id state hs]
    exact .refl _ _

/-! ### Verdicts -/

def verdict (control : ControlView) (s : RecordId → Option RecordState) (id : RecordId) : Option RecordState :=
  match (enlisted control)[id]? with
  | none => none
  | some c =>
    if isWaiting c then promoted (control.socialStatus id) (validate control s id)
    else if c.state = .pending then none else some c.state

theorem promoted_refines {status : SocialStatus} {x y : Except Error Unit} {state : RecordState} (h : Refines .missing x y)
    (hx : promoted status x = some state) : promoted status y = some state := by
  rcases h with rfl | rfl
  · exact hx
  · cases hx

theorem promoted_ne_pending {status : SocialStatus} {x : Except Error Unit} {state : RecordState} (h : promoted status x = some state) :
    state ≠ .pending := by
  unfold promoted at h
  rintro rfl
  split at h
  · split at h <;> cases h
  all_goals cases h

theorem verdict_final (control : ControlView) : Final (verdict control) := by
  intro s t h id state hs
  unfold verdict at hs ⊢
  split
  · rename_i hnone
    rw [hnone] at hs
    cases hs
  · rename_i c hc
    rw [hc] at hs
    simp only at hs
    split at hs
    · rename_i hwaiting
      rw [if_pos hwaiting]
      exact promoted_refines (validate_refines (dependency_extends h) id) hs
    · rename_i hwaiting
      rwa [if_neg hwaiting]

/-! ### One record at a time -/

def judge (control : ControlView) (classes : Classes) (id : RecordId) : Classes :=
  if classes[id]?.any isWaiting then
    match promoted (control.socialStatus id) (validate control (stateOf classes) id) with
    | some state => setState classes id state
    | none => classes
  else classes

def Done (control : ControlView) (classes : Classes) : Prop := ∀ (id : RecordId) (c : Classification), classes[id]? = some c →
  isWaiting c = true → promoted (control.socialStatus id) (validate control (stateOf classes) id) = none

theorem getElem?_setState {classes : Classes} {id k : RecordId} {state : RecordState} :
    (setState classes id state)[k]? = if id = k then classes[k]?.map ({ · with state }) else classes[k]? := Maps.getElem?_adjust

/-- The classification that the rounds have reached: what did not wait is as it was, the rest was settled by verdicts. -/
structure Progress (control : ControlView) (classes : Classes) : Prop where
  known : ∀ (id : RecordId) (c : Classification), classes[id]? = some c → ∃ c₀ : Classification, (enlisted control)[id]? = some c₀ ∧
    c.admissionKnown = c₀.admissionKnown ∧ (isWaiting c₀ = false → c = c₀)
  kept : ∀ (id : RecordId) (c₀ : Classification), (enlisted control)[id]? = some c₀ → ∃ c : Classification, classes[id]? = some c
  run : Settles (verdict control) (opened (stateOf (enlisted control))) (opened (stateOf classes))

theorem Progress.start (control : ControlView) : Progress control (enlisted control) where
  known _ c h := ⟨c, h, rfl, fun _ => rfl⟩
  kept _ c₀ h := ⟨c₀, h⟩
  run := .refl

theorem isWaiting_iff {c : Classification} : isWaiting c = true ↔ c.admissionKnown = true ∧ c.state = .pending := by
  simp [isWaiting]

section
variable {classes : Classes} {c : Classification} {state : RecordState}

theorem opened_eq_none_of_waiting (hc : classes[id]? = some c) (hwaiting : isWaiting c = true) : opened (stateOf classes) id = none := by
  simp [opened, stateOf, hc, (isWaiting_iff.1 hwaiting).2]

theorem Progress.waiting (h : Progress control classes) (hc : classes[id]? = some c) (hwaiting : isWaiting c = true) :
    ∃ c₀ : Classification, (enlisted control)[id]? = some c₀ ∧ isWaiting c₀ = true := by
  obtain ⟨c₀, hc₀, -, hsame⟩ := h.known id c hc
  refine ⟨c₀, hc₀, ?_⟩
  by_contra hnot
  obtain rfl := hsame (eq_false_of_ne_true hnot)
  exact hnot hwaiting

theorem Progress.verdict_eq (h : Progress control classes) (hc : classes[id]? = some c) (hwaiting : isWaiting c = true) :
    verdict control (opened (stateOf classes)) id = promoted (control.socialStatus id) (validate control (stateOf classes) id) := by
  obtain ⟨c₀, hc₀, hwaiting₀⟩ := h.waiting hc hwaiting
  rw [verdict, hc₀]
  simp only [hwaiting₀, if_true, validate_opened]

theorem opened_setState (hc : classes[id]? = some c) (hstate : state ≠ .pending) :
    opened (stateOf (setState classes id state)) = Function.update (opened (stateOf classes)) id (some state) := by
  funext k
  by_cases hk : k = id
  · subst hk
    rw [Function.update_self, opened_eq_some, stateOf, getElem?_setState, if_pos rfl, hc]
    exact ⟨rfl, hstate⟩
  · rw [Function.update_of_ne hk]
    unfold opened stateOf
    rw [getElem?_setState, if_neg (Ne.symm hk)]

theorem Progress.promote (h : Progress control classes) (hc : classes[id]? = some c) (hwaiting : isWaiting c = true)
    (hstate : promoted (control.socialStatus id) (validate control (stateOf classes) id) = some state) :
    Progress control (setState classes id state) where
  known k c' hc' := by
    rw [getElem?_setState] at hc'
    by_cases hk : id = k
    · subst hk
      rw [if_pos rfl, hc, Option.map_some] at hc'
      obtain rfl := Option.some.inj hc'
      obtain ⟨c₀, hc₀, hknown, -⟩ := h.known id c hc
      obtain ⟨c₁, hc₁, hwaiting₁⟩ := h.waiting hc hwaiting
      rw [hc₀] at hc₁
      obtain rfl := Option.some.inj hc₁
      refine ⟨c₀, hc₀, hknown, fun hnot => ?_⟩
      rw [hwaiting₁] at hnot
      cases hnot
    · rw [if_neg hk] at hc'
      exact h.known k c' hc'
  kept k c₀ hc₀ := by
    obtain ⟨c', hc'⟩ := h.kept k c₀ hc₀
    rw [getElem?_setState]
    by_cases hk : id = k
    · rw [if_pos hk, hc']
      exact ⟨_, rfl⟩
    · rw [if_neg hk]
      exact ⟨c', hc'⟩
  run := by
    rw [opened_setState hc (promoted_ne_pending hstate)]
    refine h.run.step (opened_eq_none_of_waiting hc hwaiting) ?_
    rw [h.verdict_eq hc hwaiting, hstate]

theorem Progress.judge (h : Progress control classes) (id : RecordId) : Progress control (judge control classes id) := by
  unfold View.judge
  cases hc : classes[id]? with
  | none => exact h
  | some c =>
    by_cases hwaiting : isWaiting c = true
    · rw [if_pos (by simpa using hwaiting)]
      split
      · rename_i state hstate
        exact h.promote hc hwaiting hstate
      · exact h
    · rw [if_neg (by simpa using hwaiting)]
      exact h

theorem Progress.foldl (h : Progress control classes) (order : List RecordId) : Progress control (order.foldl (View.judge control) classes) := by
  induction order generalizing classes with
  | nil => exact h
  | cons id order ih => exact ih (h.judge id)

theorem start_sound (control : ControlView) : Extends (opened (stateOf (enlisted control))) (verdict control (opened (stateOf (enlisted control)))) := by
  intro id state hstate
  obtain ⟨hstate, hopen⟩ := opened_eq_some.1 hstate
  obtain ⟨c, hc, rfl⟩ := Option.map_eq_some_iff.1 hstate
  have hwaiting : ¬ isWaiting c = true := fun hwaiting => hopen (isWaiting_iff.1 hwaiting).2
  rw [verdict, hc]
  simp only [if_neg hwaiting, if_neg hopen]

theorem Progress.sound (h : Progress control classes) : Extends (opened (stateOf classes)) (verdict control (opened (stateOf classes))) :=
  h.run.sound (verdict_final control) (start_sound control)

theorem Progress.closed (h : Progress control classes) (hdone : Done control classes) : Closed (verdict control) (opened (stateOf classes)) := by
  intro id state hstate
  cases hopened : opened (stateOf classes) id with
  | some state' =>
    have hsound := h.sound id state' hopened
    rw [hstate] at hsound
    exact hsound.symm
  | none =>
    exfalso
    unfold verdict at hstate
    split at hstate
    · cases hstate
    · rename_i c₀ hc₀
      obtain ⟨c, hc⟩ := h.kept id c₀ hc₀
      have hpending : c.state = .pending := by
        by_contra hnot
        rw [opened_eq_some.2 ⟨by rw [stateOf, hc]; rfl, hnot⟩] at hopened
        cases hopened
      obtain ⟨c₁, hc₁, hknown, hsame⟩ := h.known id c hc
      rw [hc₀] at hc₁
      obtain rfl := Option.some.inj hc₁
      split at hstate
      · rename_i hwaiting
        have hwaits : isWaiting c = true := isWaiting_iff.2 ⟨hknown.trans (isWaiting_iff.1 hwaiting).1, hpending⟩
        rw [validate_opened, hdone id c hc hwaits] at hstate
        cases hstate
      · rename_i hwaiting
        obtain rfl := hsame (eq_false_of_ne_true hwaiting)
        rw [if_pos hpending] at hstate
        cases hstate

theorem Progress.unique {classes' : Classes} (h : Progress control classes) (h' : Progress control classes') (hdone : Done control classes)
    (hdone' : Done control classes') : classes = classes' := by
  have hopened := h.run.unique (verdict_final control) h'.run (h.closed hdone) (h'.closed hdone')
  refine Std.ExtTreeMap.ext_getElem? fun {id} => ?_
  cases hc : classes[id]? with
  | none =>
    cases hc' : classes'[id]? with
    | none => rfl
    | some c' =>
      obtain ⟨c₀, hc₀, -⟩ := h'.known id c' hc'
      obtain ⟨c, hsome⟩ := h.kept id c₀ hc₀
      rw [hc] at hsome
      cases hsome
  | some c =>
    obtain ⟨c₀, hc₀, hknown, -⟩ := h.known id c hc
    obtain ⟨c', hc'⟩ := h'.kept id c₀ hc₀
    obtain ⟨c₁, hc₁, hknown', -⟩ := h'.known id c' hc'
    rw [hc₀] at hc₁
    obtain rfl := Option.some.inj hc₁
    have hat := congrFun hopened id
    simp only [opened, stateOf, hc, hc', Option.map_some, Option.filter_some] at hat
    rw [hc']
    obtain ⟨state, known⟩ := c
    obtain ⟨state', known'⟩ := c'
    simp only at hknown hknown' hat
    rw [hknown, hknown']
    cases state <;> cases state' <;> simp_all

/-! ### Rounds -/

def waitingCount (classes : Classes) : Nat := classes.toList.countP fun c => isWaiting c.2

theorem waitingCount_setState (hc : classes[id]? = some c) (hwaiting : isWaiting c = true) (hstate : state ≠ .pending) :
    waitingCount (setState classes id state) + 1 = waitingCount classes := by
  have hinsert : setState classes id state = classes.insert id { c with state } := by
    unfold setState Maps.adjust
    rw [hc]
  have hnot : isWaiting { c with state } = false := by simp [isWaiting, hstate]
  rw [waitingCount, waitingCount, hinsert, Maps.toList_insert_perm_erase.countP_eq, (Maps.toList_perm_erase hc).countP_eq, List.countP_cons, List.countP_cons]
  simp only [hnot, hwaiting, Bool.false_eq_true, if_false, if_true, Nat.add_zero]

theorem mem_waiting {acc : Evaluation} : id ∈ acc.waiting ↔ ∃ c : Classification, acc.classes[id]? = some c ∧ isWaiting c = true := by
  unfold Evaluation.waiting
  rw [List.mem_map]
  constructor
  · rintro ⟨⟨k, c⟩, hmem, rfl⟩
    obtain ⟨hc, hwaiting⟩ := List.mem_filter.1 hmem
    exact ⟨c, Std.ExtTreeMap.mem_toList_iff_getElem?_eq_some.1 hc, hwaiting⟩
  · rintro ⟨c, hc, hwaiting⟩
    exact ⟨(id, c), List.mem_filter.2 ⟨Std.ExtTreeMap.mem_toList_iff_getElem?_eq_some.2 hc, hwaiting⟩, rfl⟩

theorem nodup_waiting (acc : Evaluation) : acc.waiting.Nodup := by
  have hkeys : (acc.classes.toList.map Prod.fst).Nodup := by
    rw [Std.ExtTreeMap.map_fst_toList_eq_keys]
    exact Std.ExtTreeMap.nodup_keys
  exact hkeys.sublist (List.filter_sublist.map Prod.fst)

/-- What part of a round does, as long as steps are left: promotions, or nothing because there is nothing to do. -/
structure Advance (control : ControlView) (l : List RecordId) (acc acc' : Evaluation) : Prop where
  progress : Progress control acc'.classes
  remaining : acc'.remaining ≤ acc.remaining
  fewer : waitingCount acc'.classes ≤ waitingCount acc.classes
  changed : acc'.changed = true → acc.changed = true ∨ waitingCount acc'.classes < waitingCount acc.classes
  idle : acc'.changed = false → acc'.classes = acc.classes ∧ acc.changed = false ∧ (acc'.remaining ≠ 0 → ∀ id ∈ l,
    promoted (control.socialStatus id) (validate control (stateOf acc.classes) id) = none)

theorem evaluates {l : List RecordId} (acc : Evaluation) (h : Progress control acc.classes) (hnodup : l.Nodup)
    (hwaiting : ∀ id ∈ l, ∃ c : Classification, acc.classes[id]? = some c ∧ isWaiting c = true) :
    Advance control l acc (l.foldl (Evaluation.evaluate control) acc) := by
  induction l generalizing acc with
  | nil => exact ⟨h, Nat.le_refl _, Nat.le_refl _, .inl, fun hfalse => ⟨rfl, hfalse, fun _ _ hid => by cases hid⟩⟩
  | cons id l ih =>
    rw [List.nodup_cons] at hnodup
    obtain ⟨c, hc, hwaits⟩ := hwaiting id List.mem_cons_self
    have hrest : ∀ k ∈ l, ∃ c : Classification, acc.classes[k]? = some c ∧ isWaiting c = true :=
      fun k hk => hwaiting k (List.mem_cons_of_mem id hk)
    rw [List.foldl_cons]
    by_cases hzero : acc.remaining = 0
    · rw [show Evaluation.evaluate control acc id = acc from if_pos hzero]
      obtain ⟨hprogress, hle, hfewer, hchanged, hidle⟩ := ih acc h hnodup.2 hrest
      refine ⟨hprogress, hle, hfewer, hchanged, fun hfalse => ?_⟩
      obtain ⟨hsame, hbefore, -⟩ := hidle hfalse
      exact ⟨hsame, hbefore, fun hleft => absurd (Nat.le_zero.1 (hzero ▸ hle)) hleft⟩
    · cases hverdict : promoted (control.socialStatus id) (validate control (stateOf acc.classes) id) with
      | none =>
        have hstep : Evaluation.evaluate control acc id = { acc with remaining := acc.remaining - 1 } := by
          unfold Evaluation.evaluate
          rw [if_neg hzero, hverdict]
        rw [hstep]
        obtain ⟨hprogress, hle, hfewer, hchanged, hidle⟩ := ih { acc with remaining := acc.remaining - 1 } h hnodup.2 hrest
        refine ⟨hprogress, Nat.le_trans hle (Nat.sub_le _ _), hfewer, hchanged, fun hfalse => ?_⟩
        obtain ⟨hsame, hbefore, hnone⟩ := hidle hfalse
        exact ⟨hsame, hbefore, fun hleft => List.forall_mem_cons.2 ⟨hverdict, hnone hleft⟩⟩
      | some state =>
        have hstep : Evaluation.evaluate control acc id = ⟨setState acc.classes id state, acc.remaining - 1, true⟩ := by
          unfold Evaluation.evaluate
          rw [if_neg hzero, hverdict]
        have hcount := waitingCount_setState hc hwaits (promoted_ne_pending hverdict)
        have hwaiting' : ∀ k ∈ l, ∃ c : Classification, (setState acc.classes id state)[k]? = some c ∧ isWaiting c = true := by
          intro k hk
          have hne : id ≠ k := by
            rintro rfl
            exact hnodup.1 hk
          rw [getElem?_setState, if_neg hne]
          exact hrest k hk
        rw [hstep]
        obtain ⟨hprogress, hle, hfewer, -, hidle⟩ := ih ⟨setState acc.classes id state, acc.remaining - 1, true⟩
          (h.promote hc hwaits hverdict) hnodup.2 hwaiting'
        refine ⟨hprogress, Nat.le_trans hle (Nat.sub_le _ _), ?_, fun _ => .inr ?_, fun hfalse => ?_⟩
        · exact Nat.le_trans hfewer (by simp only; omega)
        · exact Nat.lt_of_le_of_lt hfewer (by simp only; omega)
        · cases (hidle hfalse).2.1

theorem rounds_progress (acc : Evaluation) (h : Progress control acc.classes) (n : Nat) : Progress control (acc.rounds control n).classes := by
  induction n generalizing acc with
  | zero => exact h
  | succ n ih =>
    have hround := (evaluates { acc with changed := false } h (nodup_waiting acc) fun id hid => mem_waiting.1 hid).progress
    unfold Evaluation.rounds
    dsimp only
    split
    · exact hround
    · exact ih _ hround

theorem rounds_done (acc : Evaluation) (h : Progress control acc.classes) {n : Nat} (hn : waitingCount acc.classes ≤ n)
    (hleft : (acc.rounds control n).remaining ≠ 0) : Done control (acc.rounds control n).classes := by
  induction n generalizing acc with
  | zero =>
    intro id c hc hwaiting
    have hnone := List.countP_eq_zero.1 (Nat.le_zero.1 hn) (id, c) (Std.ExtTreeMap.mem_toList_iff_getElem?_eq_some.2 hc)
    exact absurd hwaiting hnone
  | succ n ih =>
    obtain ⟨hprogress, -, hfewer, hchanged, hidle⟩ :=
      evaluates { acc with changed := false } h (nodup_waiting acc) fun id hid => mem_waiting.1 hid
    change Progress control (acc.round control).classes at hprogress
    unfold Evaluation.rounds at hleft ⊢
    dsimp only at hleft ⊢
    split at hleft
    · rename_i hstop
      rw [if_pos hstop]
      have hsteps : ¬ ((acc.round control).remaining == 0) = true := by simpa using hleft
      have hfalse : (acc.round control).changed = false := by
        rw [Bool.or_eq_true, or_iff_left hsteps] at hstop
        simpa using hstop
      obtain ⟨hsame, -, hnone⟩ := hidle hfalse
      change (acc.round control).classes = acc.classes at hsame
      rw [hsame]
      exact fun id c hc hwaiting => hnone hleft id (mem_waiting.2 ⟨c, hc, hwaiting⟩)
    · rename_i hgo
      rw [if_neg hgo]
      have hmoved : (acc.round control).changed = true := by
        by_contra hfalse
        exact hgo (by simp [hfalse])
      have hless : waitingCount (acc.round control).classes < waitingCount acc.classes := by
        rcases hchanged hmoved with hfalse | hless
        · cases hfalse
        · exact hless
      exact ih _ hprogress (by omega) hleft

theorem evaluation_progress (control : ControlView) : Progress control (evaluation control).classes :=
  rounds_progress ⟨enlisted control, maxEvaluationSteps, false⟩ (.start control) _

theorem evaluation_done (hleft : (evaluation control).remaining ≠ 0) : Done control (evaluation control).classes := by
  refine rounds_done ⟨enlisted control, maxEvaluationSteps, false⟩ (.start control) ?_ hleft
  rw [← Std.ExtTreeMap.length_toList]
  exact List.countP_le_length

/-! ### What a record needs -/

def consulted (op : Operation) : List RecordId :=
  op.supersedes ++
    match op with
    | .follow .. => []
    | _ => op.claims

theorem dependency_eq_ok : dependency s id = .ok () ↔ s id = some .committed ∨ s id = some .provisional := by
  unfold dependency
  split <;> simp_all

theorem postOperation_ok {r : Actor × Operation} (h : postOperation control s id = .ok r) : dependency s id = .ok () := by
  simp only [postOperation, bind_eq_ok] at h
  obtain ⟨_, -, _, -, _, hdependency, -⟩ := h
  exact hdependency

theorem exactRevision_ok {reference : PostRef} (h : exactRevision control s reference = .ok ()) :
    ∀ x ∈ reference.claims, dependency s x = .ok () := by
  simp only [exactRevision, bind_eq_ok] at h
  obtain ⟨_, hpost, _, -, _, -, hrevision⟩ := h
  intro x hx
  rcases List.mem_cons.1 hx with rfl | hx
  · exact postOperation_ok hpost
  · rw [List.mem_singleton.1 hx]
    exact hrevision

theorem checkPost_ok {placement : Placement} {reply : Option ReplyRef} {quote : Option PostRef}
    (h : checkPost control s placement reply quote = .ok ()) :
    ∀ x ∈ reply.elim [] ReplyRef.claims ++ quote.elim [] PostRef.claims, dependency s x = .ok () := by
  simp only [checkPost, bind_eq_ok] at h
  obtain ⟨_, hquote, hreply⟩ := h
  intro x hx
  rcases List.mem_append.1 hx with hx | hx
  · cases reply with
    | none => cases hx
    | some reply =>
      rw [Option.forM_some, checkReply, bind_eq_ok] at hreply
      obtain ⟨_, hparent, hreply⟩ := hreply
      rw [bind_eq_ok] at hreply
      obtain ⟨_, hroot, -⟩ := hreply
      rcases List.mem_cons.1 hx with rfl | hx
      · exact postOperation_ok hroot
      · exact exactRevision_ok hparent x hx
  · cases quote with
    | none => cases hx
    | some quote => exact exactRevision_ok hquote x hx

theorem checkOpinion_ok {post : RecordId} {revision : Option RecordId} (h : checkOpinion control s post revision = .ok ()) :
    ∀ x ∈ post :: revision.toList, dependency s x = .ok () := by
  simp only [checkOpinion, bind_eq_ok] at h
  obtain ⟨_, hpost, hrevision⟩ := h
  intro x hx
  rcases List.mem_cons.1 hx with rfl | hx
  · exact postOperation_ok hpost
  · obtain rfl := Option.mem_toList.1 hx
    exact exactRevision_ok hrevision x (by simp [PostRef.claims])

theorem checkOperation_ok {actor : Actor} {op : Operation} (h : checkOperation control s actor op = .ok ()) :
    ∀ x ∈ (match op with | .follow .. => [] | _ => op.claims), dependency s x = .ok () := by
  cases op with
  | post placement text reply quote => exact checkPost_ok h
  | postFaceted placement content reply quote => exact checkPost_ok h
  | revise post text supersedes =>
    rw [checkOperation, checkRevise, bind_eq_ok] at h
    obtain ⟨_, hpost, -⟩ := h
    intro x hx
    rw [List.mem_singleton.1 hx]
    exact postOperation_ok hpost
  | reviseFaceted post content supersedes =>
    rw [checkOperation, checkRevise, bind_eq_ok] at h
    obtain ⟨_, hpost, -⟩ := h
    intro x hx
    rw [List.mem_singleton.1 hx]
    exact postOperation_ok hpost
  | retract post =>
    rw [checkOperation, bind_eq_ok] at h
    obtain ⟨_, hpost, -⟩ := h
    intro x hx
    rw [List.mem_singleton.1 hx]
    exact postOperation_ok hpost
  | repost post revision supersedes => exact checkOpinion_ok h
  | react post reaction supersedes =>
    have hclaims : (Operation.react post reaction supersedes).claims = post :: reaction.revision.toList := by
      cases reaction <;> rfl
    rw [hclaims]
    exact checkOpinion_ok h
  | follow | agentBio | ownerProfile =>
    intro x hx
    cases hx

theorem validate_ok {actor : Actor} {op : Operation} (hop : operation control id = .ok (actor, op)) (h : validate control s id = .ok ()) :
    ∀ x ∈ consulted op, dependency s x = .ok () := by
  rw [validate, hop] at h
  change (forM op.edited (canRewrite control actor) >>= _) = _ at h
  simp only [bind_eq_ok] at h
  obtain ⟨_, -, _, hsupersedes, hoperation⟩ := h
  intro x hx
  rcases List.mem_append.1 hx with hx | hx
  · have hprevious := forM_eq_ok.1 hsupersedes x hx
    simp only [checkSuperseded, bind_eq_ok] at hprevious
    obtain ⟨_, -, _, -, _, -, hdependency⟩ := hprevious
    exact hdependency
  · exact checkOperation_ok hoperation x hx

/-- The record names another one whose state its validation reads. -/
def Refers (control : ControlView) (id x : RecordId) : Prop := ∃ actor op, operation control id = .ok (actor, op) ∧ x ∈ consulted op

def IsInterpreted (state : RecordState) : Prop := state = .committed ∨ state = .provisional

/-! ### What waits at first -/

theorem getElem?_enlisted (control : ControlView) (id : RecordId) : (enlisted control)[id]? =
    if (control.evidence.body id).any isSocial then some (entry (control.socialStatus id)) else none := by
  have hnodup : ((control.evidence.records.filter fun r => isSocial r.2.body).map Prod.fst).Nodup := by
    have hkeys : (control.evidence.records.map Prod.fst).Nodup := by
      rw [Evidence.records, Std.ExtTreeMap.map_fst_toList_eq_keys]
      exact Std.ExtTreeMap.nodup_keys
    exact hkeys.sublist (List.filter_sublist.map Prod.fst)
  by_cases hsocial : (control.evidence.body id).any isSocial = true
  · rw [if_pos hsocial]
    obtain ⟨body, hbody, his⟩ := (Option.any_eq_true _ _).1 hsocial
    obtain ⟨fact, hfact, rfl⟩ := Option.map_eq_some_iff.1 hbody
    have hmem : (id, fact) ∈ control.evidence.records.filter fun r => isSocial r.2.body :=
      List.mem_filter.2 ⟨Std.ExtTreeMap.mem_toList_iff_getElem?_eq_some.2 hfact, his⟩
    have hget : (Maps.insertAll Prod.fst (fun r : RecordId × Fact => entry (control.socialStatus r.1)) (∅ : Classes)
        (control.evidence.records.filter fun r => isSocial r.2.body))[(id, fact).1]? = some (entry (control.socialStatus (id, fact).1)) :=
      Maps.getElem?_insertAll_of_mem hnodup hmem
    exact hget
  · rw [if_neg hsocial]
    have hnot : id ∉ (control.evidence.records.filter fun r => isSocial r.2.body).map Prod.fst := by
      intro hmem
      obtain ⟨⟨k, fact⟩, hr, rfl⟩ := List.mem_map.1 hmem
      obtain ⟨hfact, his⟩ := List.mem_filter.1 hr
      have hget : control.evidence.get k = some fact := Std.ExtTreeMap.mem_toList_iff_getElem?_eq_some.1 hfact
      exact hsocial (by rw [Evidence.body, hget]; exact his)
    rw [enlisted, Maps.getElem?_insertAll_of_notMem hnot]
    simp

theorem enlisted_eq_some {c : Classification} (h : (enlisted control)[id]? = some c) :
    (control.evidence.body id).any isSocial = true ∧ c = entry (control.socialStatus id) := by
  rw [getElem?_enlisted] at h
  split at h
  · rename_i hsocial
    exact ⟨hsocial, (Option.some.inj h).symm⟩
  · cases h

theorem not_interpreted_start (x : RecordState) (h : opened (stateOf (enlisted control)) id = some x) : ¬ IsInterpreted x := by
  obtain ⟨hstate, hopen⟩ := opened_eq_some.1 h
  obtain ⟨c, hc, rfl⟩ := Option.map_eq_some_iff.1 hstate
  obtain ⟨-, rfl⟩ := enlisted_eq_some hc
  rintro (hinterpreted | hinterpreted) <;> cases hstatus : control.socialStatus id <;> simp [hstatus, entry] at hinterpreted

theorem verdict_refers {x : RecordState} (h : verdict control s id = some x) (hx : IsInterpreted x) :
    ∀ k, Refers control id k → ∃ y, s k = some y ∧ IsInterpreted y := by
  rintro k ⟨actor, op, hop, hk⟩
  unfold verdict at h
  split at h
  · cases h
  · rename_i c hc
    split at h
    · have hvalid : validate control s id = .ok () := by
        cases hvalidate : validate control s id with
        | ok => rfl
        | error e =>
          rw [hvalidate] at h
          exfalso
          rcases hx with rfl | rfl <;> cases e <;> cases h
      rcases dependency_eq_ok.1 (validate_ok hop hvalid k hk) with hstate | hstate
      · exact ⟨_, hstate, .inl rfl⟩
      · exact ⟨_, hstate, .inr rfl⟩
    · split at h
      · cases h
      · rename_i hwaiting hopen
        exfalso
        have hstart : opened (stateOf (enlisted control)) id = some c.state := opened_eq_some.2 ⟨by rw [stateOf, hc]; rfl, hopen⟩
        obtain rfl := Option.some.inj h
        exact not_interpreted_start _ hstart hx

/-! ### The classification of a view -/

/-- What a record is, by its control status and what validation says of it. -/
def classified : SocialStatus → Except Error Unit → Classification
  | .committed, .ok () => ⟨.committed, true⟩
  | .provisional, .ok () => ⟨.provisional, true⟩
  | .committed, .error .missing | .committed, .error .incomplete => ⟨.pending, true⟩
  | .provisional, .error .missing | .provisional, .error .incomplete => ⟨.pending, true⟩
  | .committed, .error .conflict | .provisional, .error .conflict => ⟨.conflicted, true⟩
  | .committed, .error _ | .provisional, .error _ => ⟨.rejected, true⟩
  | .pending, _ => ⟨.pending, false⟩
  | .rejected, _ => ⟨.rejected, false⟩
  | .conflicted, _ => ⟨.conflicted, true⟩

theorem classified_eq (status : SocialStatus) (x : Except Error Unit) : classified status x =
    if isWaiting (entry status) then ⟨(promoted status x).getD .pending, true⟩ else entry status := by
  cases status <;> (rcases x with e | u) <;> first | rfl | (cases e <;> rfl)

theorem Progress.classified (h : Progress control classes) (hdone : Done control classes) (hc : classes[id]? = some c) :
    c = View.classified (control.socialStatus id) (validate control (stateOf classes) id) := by
  obtain ⟨c₀, hc₀, hknown, hsame⟩ := h.known id c hc
  obtain ⟨-, rfl⟩ := enlisted_eq_some hc₀
  rw [classified_eq]
  by_cases hwaiting : isWaiting (entry (control.socialStatus id)) = true
  · rw [if_pos hwaiting]
    have hverdict : verdict control (opened (stateOf classes)) id = promoted (control.socialStatus id) (validate control (stateOf classes) id) := by
      rw [verdict, hc₀]
      simp only [hwaiting, if_true, validate_opened]
    have hfixed := congrFun (h.run.fixed (verdict_final control) (start_sound control) (h.closed hdone)) id
    rw [← hverdict, hfixed]
    obtain ⟨state, known⟩ := c
    rw [show known = true from hknown.trans (isWaiting_iff.1 hwaiting).1]
    simp only [opened, stateOf, hc, Option.map_some, Option.filter_some]
    cases state <;> rfl
  · rw [if_neg hwaiting]
    exact hsame (eq_false_of_ne_true hwaiting)

theorem done_iff : Done control classes ↔ ∀ id, View.judge control classes id = classes := by
  constructor
  · intro hdone id
    unfold View.judge
    cases hc : classes[id]? with
    | none => rfl
    | some c =>
      by_cases hwaiting : isWaiting c = true
      · rw [if_pos (by simpa using hwaiting), hdone id c hc hwaiting]
      · rw [if_neg (by simpa using hwaiting)]
  · intro hsame id c hc hwaiting
    cases hverdict : promoted (control.socialStatus id) (validate control (stateOf classes) id) with
    | none => rfl
    | some state =>
      have hjudge := hsame id
      unfold View.judge at hjudge
      rw [if_pos (by rw [hc]; simpa using hwaiting), hverdict] at hjudge
      have hget := congrArg (·[id]?) hjudge
      simp only [getElem?_setState, if_true, hc, Option.map_some, Option.some.injEq] at hget
      have hpending : state = c.state := congrArg Classification.state hget
      rw [(isWaiting_iff.1 hwaiting).2] at hpending
      exact absurd hpending (promoted_ne_pending hverdict)

theorem Progress.listed (h : Progress control classes) (id : RecordId) :
    classes[id]?.isSome = (control.evidence.body id).any isSocial := by
  have henlisted := getElem?_enlisted control id
  by_cases hsocial : (control.evidence.body id).any isSocial = true
  · rw [if_pos hsocial] at henlisted
    obtain ⟨c, hc⟩ := h.kept id _ henlisted
    rw [hsocial, hc]
    rfl
  · rw [if_neg hsocial] at henlisted
    rw [eq_false_of_ne_true hsocial]
    cases hc : classes[id]? with
    | none => rfl
    | some c =>
      obtain ⟨c₀, hc₀, -⟩ := h.known id c hc
      rw [henlisted] at hc₀
      cases hc₀

/-- Records that refer to each other are never interpreted. -/
theorem Progress.grounded (h : Progress control classes) {cycle : List RecordId} (hcycle : ∀ id ∈ cycle, ∃ x ∈ cycle, Refers control id x) :
    ∀ id ∈ cycle, ∀ state, stateOf classes id = some state → ¬ IsInterpreted state := by
  intro id hid state hstate hinterpreted
  have hopen : state ≠ .pending := by
    rintro rfl
    rcases hinterpreted with h | h <;> cases h
  refine h.run.grounded (s := {x | x ∈ cycle}) IsInterpreted (fun x _ y hy => not_interpreted_start y hy)
    (fun ρ x hx y hy hgood => ?_) id hid state (opened_eq_some.2 ⟨hstate, hopen⟩) hinterpreted
  obtain ⟨k, hk, hrefers⟩ := hcycle x hx
  obtain ⟨z, hz, hgood'⟩ := verdict_refers hy hgood k hrefers
  exact ⟨k, hk, z, hz, hgood'⟩

theorem Progress.stuck (h : Progress control classes) {cycle : List RecordId} (hcycle : ∀ id ∈ cycle, classes[id]?.isSome ∧
    (control.socialStatus id = .committed ∨ control.socialStatus id = .provisional) ∧
    ∃ e, validate control (fun x => if x ∈ cycle then none else stateOf classes x) id = .error e ∧ (e = .missing ∨ e = .incomplete)) :
    ∀ id ∈ cycle, stateOf classes id = some .pending := by
  have hwaiting : ∀ id ∈ cycle, (enlisted control)[id]? = some ⟨.pending, true⟩ := by
    intro id hid
    obtain ⟨hsome, hstatus, -⟩ := hcycle id hid
    obtain ⟨c, hc⟩ := Option.isSome_iff_exists.1 hsome
    obtain ⟨c₀, hc₀, -⟩ := h.known id c hc
    rw [hc₀, (enlisted_eq_some hc₀).2]
    rcases hstatus with hstatus | hstatus <;> rw [hstatus] <;> rfl
  have hstuck := h.run.stuck (verdict_final control) (s := {x | x ∈ cycle}) (fun id hid => ?_) fun id hid => ?_
  · intro id hid
    obtain ⟨c, hc⟩ := Option.isSome_iff_exists.1 (hcycle id hid).1
    have hnone := hstuck id hid
    by_contra hne
    have hopen : c.state ≠ .pending := fun hpending => hne (by rw [stateOf, hc, ← hpending]; rfl)
    rw [opened_eq_some.2 ⟨by rw [stateOf, hc]; rfl, hopen⟩] at hnone
    cases hnone
  · exact opened_eq_none_of_waiting (hwaiting id hid) rfl
  · obtain ⟨-, -, e, hvalidate, he⟩ := hcycle id hid
    have hmasked : (opened fun x => if x ∈ cycle then none else stateOf classes x) =
        fun x => if x ∈ {x | x ∈ cycle} then none else opened (stateOf classes) x := by
      funext x
      by_cases hx : x ∈ cycle
      · simp [opened, hx]
      · simp [opened, hx]
    rw [← hmasked, verdict, hwaiting id hid]
    simp only [validate_opened, hvalidate]
    rcases he with rfl | rfl <;> rfl

variable {crypto : Crypto}

theorem new_control (a : Archive crypto) (now : UInt64) (eligibility : Eligibility) :
    (View.new a now eligibility).control = ControlView.new a.evidence now := by
  rw [View.new]

theorem new_classification (a : Archive crypto) (now : UInt64) (eligibility : Eligibility) :
    (View.new a now eligibility).classification = (evaluation (ControlView.new a.evidence now)).classes := by
  rw [View.new]

theorem classification_settled (a : Archive crypto) (now : UInt64) (eligibility : Eligibility)
    (hleft : (evaluation (ControlView.new a.evidence now)).remaining ≠ 0) :
    let view := View.new a now eligibility
    (∀ id, view.classification[id]?.isSome = (a.evidence.body id).any isSocial) ∧
    (∀ id c, view.classification[id]? = some c → c = View.classified (view.control.socialStatus id) (validate view.control view.state id)) ∧
    (∀ order : List RecordId, let classes := order.foldl (View.judge view.control) (enlisted view.control)
      (∀ id, View.judge view.control classes id = classes) → classes = view.classification) ∧
    (∀ cycle : List RecordId, (∀ id ∈ cycle, ∃ x ∈ cycle, Refers view.control id x) →
      ∀ id ∈ cycle, ∀ state, view.state id = some state → ¬ IsInterpreted state) ∧
    ∀ cycle : List RecordId, (∀ id ∈ cycle, view.classification[id]?.isSome ∧
        (view.control.socialStatus id = .committed ∨ view.control.socialStatus id = .provisional) ∧
        ∃ e, validate view.control (fun x => if x ∈ cycle then none else view.state x) id = .error e ∧ (e = .missing ∨ e = .incomplete)) →
      ∀ id ∈ cycle, view.state id = some .pending := by
  have hprogress := evaluation_progress (ControlView.new a.evidence now)
  have hdone := evaluation_done hleft
  have hevidence := ControlView.evidence_new a.evidence now
  dsimp only
  have hstate : (View.new a now eligibility).state = stateOf (View.new a now eligibility).classification := rfl
  rw [hstate, new_control, new_classification]
  generalize ControlView.new a.evidence now = control at hprogress hdone hevidence
  rw [← hevidence]
  refine ⟨hprogress.listed, fun id c => hprogress.classified hdone, fun order hstays => ?_, fun cycle => hprogress.grounded, fun cycle => hprogress.stuck⟩
  exact ((Progress.start _).foldl order).unique hprogress (done_iff.2 hstays) hdone

end

instance (control : ControlView) (id x : RecordId) : Decidable (Refers control id x) :=
  decidable_of_iff ((operation control id).toOption.any fun r => (consulted r.2).contains x) <| by
    unfold Refers
    cases operation control id with
    | error e => simp [Except.toOption]
    | ok r =>
      obtain ⟨actor, op⟩ := r
      simp [Except.toOption]

end View

/-! ### Two records that are classified without their verdict, or by it in a cycle -/

/-- Digests that tell records apart by their length, so that a record can name itself. -/
def lengthCrypto : Crypto where
  sha256 message := Vector.replicate 32 (UInt8.ofNat message.length)
  decodesKey _ := true
  isWeak _ := false
  verifyStrict _ _ _ := true

def lengthKey : Bytes32 := Vector.replicate 32 0

/-- An owner who forks its chain, and one who follows itself. -/
def lengthOwner (recovery : Option Bytes32) : Fact := ⟨lengthKey, .ownerGenesis lengthKey recovery lengthKey⟩

def lengthSocial (recovery : Option Bytes32) (operation : Operation) : Fact :=
  ⟨lengthKey, .social (.owner (ownerId ((lengthOwner recovery).id lengthCrypto)) ((lengthOwner recovery).id lengthCrypto)) ⟨77⟩ 0 none operation⟩

def lengthPost (text : Text) : Fact := lengthSocial none (.post .profile text none none)

def lengthName : Text := ⟨"one", by decide⟩

def lengthProfile (previous : RecordId) : Fact :=
  lengthSocial (some lengthKey) (.ownerProfile lengthName ⟨[previous], by simp [checkReferences, ascendingBy, maxRefs]⟩)

def lengthSelf : RecordId := (lengthProfile ⟨lengthKey⟩).id lengthCrypto

def lengthFacts : List Fact :=
  [lengthOwner none, lengthOwner (some lengthKey), lengthPost lengthName, lengthPost ⟨"second", by decide⟩, lengthProfile lengthSelf]

def lengthFrame (fact : Fact) : List UInt8 :=
  let encoded := toBe (UInt32.ofNat fact.bytes.length) ++ fact.bytes ++ List.replicate 64 0 ++ [0]
  toBe (UInt32.ofNat encoded.length) ++ encoded

def lengthEmpty : Archive lengthCrypto := ⟨⟨77⟩, sampleLimits, ∅, ∅, fun id record h => by simp at h⟩

def lengthArchive : Archive lengthCrypto :=
  (Archive.fromSnapshot ⟨77⟩ sampleLimits (snapshotMagic ++ (toBe (RealmId.mk 77).value ++ (toBe (5 : UInt32) ++ lengthFacts.flatMap lengthFrame)))).toOption.getD
    lengthEmpty

def lengthView : View := View.new lengthArchive 0 ⟨[], checkEligible_nil⟩

/-- The forked post passes validation, and the profile is refused because it supersedes itself. -/
theorem lengthView_known : (View.evaluation (ControlView.new lengthArchive.evidence 0)).remaining ≠ 0 ∧
    lengthView.classification[(lengthPost lengthName).id lengthCrypto]? = some ⟨.conflicted, true⟩ ∧
    View.validate lengthView.control lengthView.state ((lengthPost lengthName).id lengthCrypto) = .ok () ∧
    View.Refers lengthView.control lengthSelf lengthSelf ∧ lengthView.state lengthSelf = some .rejected := by
  decide +kernel

/-- A writer that forks is conflicted without a verdict, and a record in a cycle may be refused. -/
theorem lengthView_differs : (View.evaluation (ControlView.new lengthArchive.evidence 0)).remaining ≠ 0 ∧
    ¬ (∀ id c, lengthView.classification[id]? = some c → c.admissionKnown = true → c.state =
      (View.promoted (lengthView.control.socialStatus id) (View.validate lengthView.control lengthView.state id)).getD .pending) ∧
    ¬ ∀ id, View.Refers lengthView.control id id → lengthView.state id = some .pending := by
  obtain ⟨hleft, hclass, hvalid, hrefers, hrejected⟩ := lengthView_known
  refine ⟨hleft, fun hverdict => ?_, fun hpending => ?_⟩
  · have hstate := hverdict _ _ hclass rfl
    rw [hvalid, View.promoted, Option.getD_some] at hstate
    split at hstate <;> cases hstate
  · have hstate := hpending lengthSelf hrefers
    rw [hrejected] at hstate
    cases hstate

theorem lengthView_settled : View.classified (lengthView.control.socialStatus ((lengthPost lengthName).id lengthCrypto))
    (View.validate lengthView.control lengthView.state ((lengthPost lengthName).id lengthCrypto)) = ⟨.conflicted, true⟩ :=
  ((View.classification_settled lengthArchive 0 ⟨[], by decide⟩ lengthView_known.1).2.1 _ _ lengthView_known.2.1).symm

end Valhalla.Social
