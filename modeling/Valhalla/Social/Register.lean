import Valhalla.Social.Classification

/-!
# The heads of registers

A register has as heads the eligible updates of its key that no other eligible one supersedes, be it through updates that
are not eligible. Updates supersede what was interpreted before them, so that none supersedes itself.
-/

namespace Valhalla.Social
open Check

namespace View
variable {view : View} {control : ControlView} {key : RegisterKey} {id : RecordId}

/-! ### What a register files -/

theorem getElem?_fileRegister {registers : Std.ExtTreeMap RegisterKey (List RecordId) compare} :
    (fileRegister control registers id)[key]?.getD [] = registers[key]?.getD [] ++ if keyFor control id = some key then [id] else [] := by
  unfold fileRegister
  cases hkey : keyFor control id with
  | none => simp
  | some k =>
    rw [Maps.getElem?_insert]
    by_cases hk : k = key
    · subst hk
      simp
    · simp [hk]

theorem getElem?_fileRegisters {ids : List RecordId} {registers : Std.ExtTreeMap RegisterKey (List RecordId) compare} :
    (ids.foldl (fileRegister control) registers)[key]?.getD [] =
      registers[key]?.getD [] ++ ids.filter fun id => keyFor control id = some key := by
  induction ids generalizing registers with
  | nil => simp
  | cons id ids ih =>
    rw [List.foldl_cons, ih, getElem?_fileRegister, List.append_assoc, List.filter_cons]
    by_cases hid : keyFor control id = some key <;> simp [hid]

/-! ### The order of updates -/

/-- `a` supersedes `b`, whatever the standing of the two. -/
def Supersedes (control : ControlView) (a b : RecordId) : Prop := b ∈ superseded control a

theorem Supersedes.refers {a b : RecordId} (h : Supersedes control a b) : Refers control a b := by
  unfold Supersedes superseded at h
  split at h
  · rename_i actor op hop
    exact ⟨actor, op, hop, List.mem_append_left _ h⟩
  · cases h

/-- What is interpreted supersedes only what was interpreted before. -/
theorem Progress.not_supersedes_self {classes : Classes} (h : Progress control classes) {state : RecordState}
    (hstate : stateOf classes id = some state) (hinterpreted : IsInterpreted state) : ¬ Relation.TransGen (Supersedes control) id id := by
  have hopen : state ≠ .pending := by
    rintro rfl
    rcases hinterpreted with h | h <;> cases h
  refine h.run.acyclic IsInterpreted (fun i x hx => not_interpreted_start x hx) (fun ρ i x hx hgood j hj => ?_)
    (opened_eq_some.2 ⟨hstate, hopen⟩) hinterpreted
  exact verdict_refers hx hgood j hj.refers

theorem mem_references {a b : RecordId} (h : Supersedes control a b) : b ∈ references control := by
  unfold references
  rw [List.mem_flatMap]
  refine ⟨a, ?_, h⟩
  rw [Std.ExtTreeMap.mem_keys, ← Std.ExtTreeMap.contains_iff_mem, Std.ExtTreeMap.contains_eq_isSome_getElem?]
  unfold Supersedes superseded at h
  split at h
  · rename_i actor op hop
    simp only [operation, bind_eq_ok, okOr_eq_ok] at hop
    obtain ⟨body, hbody, -⟩ := hop
    obtain ⟨fact, hfact, -⟩ := Option.map_eq_some_iff.1 hbody
    rw [show control.evidence.facts[a]? = some fact from hfact]
    rfl
  · cases h

theorem contains_below {ids : List RecordId} {x : RecordId} :
    ((Closure.Seen.pushAll ({} : Closure.Seen RecordId compare) (ids.flatMap (superseded control))).explore (superseded control)
      (references control).length).contains x = true ↔ ∃ id ∈ ids, Relation.TransGen (Supersedes control) id x := by
  rw [Closure.Seen.contains_explore (references control)]
  · constructor
    · rintro ⟨b, hb, hpath⟩
      obtain ⟨id, hid, hsupersedes⟩ := List.mem_flatMap.1 hb
      exact ⟨id, hid, Relation.TransGen.head'_iff.2 ⟨b, hsupersedes, hpath⟩⟩
    · rintro ⟨id, hid, hpath⟩
      obtain ⟨b, hsupersedes, hpath⟩ := Relation.TransGen.head'_iff.1 hpath
      exact ⟨b, List.mem_flatMap.2 ⟨id, hid, hsupersedes⟩, hpath⟩
  · intro b hb
    obtain ⟨id, -, hsupersedes⟩ := List.mem_flatMap.1 hb
    exact mem_references (a := id) hsupersedes
  · exact fun a b hb => mem_references (a := a) hb
  · exact Nat.le_refl _

/-! ### Candidates -/

/-- An update of the key whose standing is open, or that was accepted and cannot be interpreted. -/
def OpenUpdate (view : View) (key : RegisterKey) (id : RecordId) : Prop :=
  keyFor view.control id = some key ∧ ∃ c, view.classification[id]? = some c ∧
    (c.admissionKnown = true ∧ (c.state = .pending ∨ c.state = .conflicted) ∨
      view.control.socialStatus id = .committed ∧ c.state ≠ .committed)

def Eligible (view : View) (key : RegisterKey) (committed : Bool) (id : RecordId) : Prop :=
  keyFor view.control id = some key ∧ (view.state id = some .committed ∨ committed = false ∧ view.state id = some .provisional)

def IsHead (view : View) (key : RegisterKey) (committed : Bool) (id : RecordId) : Prop :=
  Eligible view key committed id ∧ ∀ other, Eligible view key committed other → other ≠ id →
    ¬ Relation.TransGen (Supersedes view.control) other id

theorem isOpen_iff {c : Classification} : view.isOpen id c = true ↔
    c.admissionKnown = true ∧ (c.state = .pending ∨ c.state = .conflicted) ∨
      view.control.socialStatus id = .committed ∧ c.state ≠ .committed := by
  simp [isOpen]

theorem isEligible_iff {committed : Bool} {state : RecordState} :
    isEligible committed state = true ↔ state = .committed ∨ committed = false ∧ state = .provisional := by
  simp [isEligible]

theorem operation_of_keyFor (h : keyFor control id = some key) : ∃ actor op, operation control id = .ok (actor, op) ∧
    updateKey control id actor op = some key := by
  unfold keyFor at h
  split at h
  · rename_i actor op hop
    exact ⟨actor, op, hop, h⟩
  · cases h

section
variable {α : Type} [Ord α] [DecidableEq α] {committed : Bool} {value : RecordId → Operation → α} {winner : List α → Option α}

structure Candidates (view : View) (key : RegisterKey) (committed : Bool) (value : RecordId → Operation → α) (ids : List RecordId)
    (found : List (RecordId × α)) : Prop where
  sublist : (found.map Prod.fst).Sublist ids
  mem : ∀ id ∈ ids, id ∈ found.map Prod.fst ↔ Eligible view key committed id
  valued : ∀ c ∈ found, ∃ actor op, operation view.control c.1 = .ok (actor, op) ∧ c.2 = value c.1 op

omit [Ord α] [DecidableEq α] in
theorem candidates_fold (committed : Bool) (value : RecordId → Operation → α) {ids : List RecordId} (hkey : ∀ id ∈ ids, keyFor view.control id = some key)
    (hclass : ∀ id ∈ ids, ∃ c, view.classification[id]? = some c) (hnodup : ids.Nodup) (found : List (RecordId × α)) :
    (∃ id ∈ ids, OpenUpdate view key id) ∧ ids.foldlM (view.candidate committed value) found = none ∨
      (¬ ∃ id ∈ ids, OpenUpdate view key id) ∧ ∃ more, ids.foldlM (view.candidate committed value) found = some (found ++ more) ∧
        Candidates view key committed value ids more := by
  induction ids generalizing found with
  | nil =>
    refine .inr ⟨by simp, [], by simp, ?_⟩
    exact ⟨List.Sublist.refl _, fun _ hid => (nomatch hid), fun _ hc => (nomatch hc)⟩
  | cons id ids ih =>
    rw [List.forall_mem_cons] at hkey hclass
    rw [List.nodup_cons] at hnodup
    obtain ⟨c, hc⟩ := hclass.1
    obtain ⟨actor, op, hop, -⟩ := operation_of_keyFor hkey.1
    have hstate : view.state id = some c.state := by rw [state, stateOf, hc]; rfl
    rw [List.foldlM_cons]
    by_cases hopen : view.isOpen id c = true
    · refine .inl ⟨⟨id, List.mem_cons_self, hkey.1, c, hc, isOpen_iff.1 hopen⟩, ?_⟩
      rw [candidate, hc]
      simp [hopen]
    · have hnot : ¬ OpenUpdate view key id := by
        rintro ⟨-, c', hc', hopen'⟩
        rw [hc] at hc'
        obtain rfl := Option.some.inj hc'
        exact hopen (isOpen_iff.2 hopen')
      by_cases heligible : isEligible committed c.state = true
      · have hstep : view.candidate committed value found id = some (found ++ [(id, value id op)]) := by
          rw [candidate, hc]
          simp [hopen, heligible, hop]
        rw [hstep, Option.bind_eq_bind, Option.bind_some]
        have hsome : Eligible view key committed id := by
          refine ⟨hkey.1, ?_⟩
          rw [hstate]
          simpa using isEligible_iff.1 heligible
        rcases ih hkey.2 hclass.2 hnodup.2 (found ++ [(id, value id op)]) with ⟨⟨k, hk, hopenk⟩, hnone⟩ | ⟨hnone, more, hmore, hcandidates⟩
        · exact .inl ⟨⟨k, List.mem_cons_of_mem id hk, hopenk⟩, hnone⟩
        · refine .inr ⟨?_, (id, value id op) :: more, ?_, ?_⟩
          · rintro ⟨k, hk, hopenk⟩
            rcases List.mem_cons.1 hk with rfl | hk
            · exact hnot hopenk
            · exact hnone ⟨k, hk, hopenk⟩
          · rw [hmore, List.append_assoc]
            rfl
          · refine ⟨hcandidates.sublist.cons_cons id, fun k hk => ?_, List.forall_mem_cons.2 ⟨⟨actor, op, hop, rfl⟩, hcandidates.valued⟩⟩
            rcases List.mem_cons.1 hk with rfl | hk
            · simp [hsome]
            · have hne : k ≠ id := fun he => hnodup.1 (he ▸ hk)
              rw [List.map_cons, List.mem_cons, or_iff_right hne]
              exact hcandidates.mem k hk
      · have hstep : view.candidate committed value found id = some found := by
          rw [candidate, hc]
          simp [hopen, heligible]
        rw [hstep, Option.bind_eq_bind, Option.bind_some]
        have hnone' : ¬ Eligible view key committed id := by
          rintro ⟨-, hstates⟩
          rw [hstate] at hstates
          exact heligible (isEligible_iff.2 (by simpa using hstates))
        rcases ih hkey.2 hclass.2 hnodup.2 found with ⟨⟨k, hk, hopenk⟩, hnone⟩ | ⟨hnone, more, hmore, hcandidates⟩
        · exact .inl ⟨⟨k, List.mem_cons_of_mem id hk, hopenk⟩, hnone⟩
        · refine .inr ⟨?_, more, hmore, ?_⟩
          · rintro ⟨k, hk, hopenk⟩
            rcases List.mem_cons.1 hk with rfl | hk
            · exact hnot hopenk
            · exact hnone ⟨k, hk, hopenk⟩
          · refine ⟨hcandidates.sublist.cons id, fun k hk => ?_, hcandidates.valued⟩
            rcases List.mem_cons.1 hk with rfl | hk
            · refine iff_of_false (fun hmem => hnodup.1 (hcandidates.sublist.subset hmem)) hnone'
            · exact hcandidates.mem k hk

/-! ### What a register says -/

variable [Std.TransCmp (compare : α → α → Ordering)] [Std.LawfulEqCmp (compare : α → α → Ordering)]

structure Reads (winner : List α → Option α) (heads : List (RecordId × α)) (register : Register α) : Prop where
  many : heads.length > maxHeads → register = .incomplete
  empty : heads = [] → register = .empty
  won : heads ≠ [] → heads.length ≤ maxHeads → ∀ value, winner (Ascending.canonical compare (heads.map Prod.snd)) = some value →
    register = .resolved (heads.map Prod.fst) value
  agreed : heads ≠ [] → heads.length ≤ maxHeads → winner (Ascending.canonical compare (heads.map Prod.snd)) = none →
    ∀ value, (∀ c ∈ heads, c.2 = value) → register = .resolved (heads.map Prod.fst) value
  torn : heads.length ≤ maxHeads → winner (Ascending.canonical compare (heads.map Prod.snd)) = none →
    (∃ c ∈ heads, ∃ c' ∈ heads, c.2 ≠ c'.2) → ∃ alternatives, register = .conflict (heads.map Prod.fst) alternatives ∧
      alternatives.Pairwise (compare · · = .lt) ∧ ∀ value, value ∈ alternatives ↔ ∃ c ∈ heads, c.2 = value

theorem canonical_replicate {values : List α} {value : α} (hne : values ≠ []) (h : ∀ v ∈ values, v = value) :
    Ascending.canonical compare values = [value] := by
  have hall : ∀ v ∈ Ascending.canonical compare values, v = value := fun v hv => h v (Ascending.mem_canonical.1 hv)
  have hsorted : (Ascending.canonical compare values).Pairwise (compare · · = .lt) := Ascending.ascending_canonical
  cases hcanonical : Ascending.canonical compare values with
  | nil =>
    obtain ⟨v, hv⟩ := List.exists_mem_of_ne_nil _ hne
    have hmem : v ∈ Ascending.canonical compare values := Ascending.mem_canonical.2 hv
    rw [hcanonical] at hmem
    cases hmem
  | cons v rest =>
    rw [hcanonical, List.forall_mem_cons] at hall
    obtain rfl := hall.1
    cases rest with
    | nil => rfl
    | cons w rest =>
      obtain rfl := hall.2 w List.mem_cons_self
      rw [hcanonical, List.pairwise_cons] at hsorted
      have hlt := hsorted.1 w List.mem_cons_self
      have hself : compare w w = .eq := Std.ReflCmp.compare_self
      rw [hself] at hlt
      cases hlt

theorem resolve_reads (winner : List α → Option α) (heads : List (RecordId × α)) : Reads winner heads (resolve winner heads) := by
  have hvalues : ∀ value, value ∈ Ascending.canonical compare (heads.map Prod.snd) ↔ ∃ c ∈ heads, c.2 = value := by
    intro value
    rw [Ascending.mem_canonical, List.mem_map]
  refine ⟨fun hmany => if_pos hmany, fun hempty => ?_, fun hne hfew value hwon => ?_, fun hne hfew hnone value hagreed => ?_,
    fun hfew hnone htorn => ?_⟩
  · rw [resolve, if_neg (by simp [hempty]), if_pos hempty]
  · rw [resolve, if_neg (Nat.not_lt.2 hfew), if_neg hne]
    simp only [hwon]
  · have hone : Ascending.canonical compare (heads.map Prod.snd) = [value] := by
      refine canonical_replicate (by simpa using hne) fun v hv => ?_
      obtain ⟨c, hc, rfl⟩ := List.mem_map.1 hv
      exact hagreed c hc
    rw [resolve, if_neg (Nat.not_lt.2 hfew), if_neg hne]
    rw [hone] at hnone
    simp only [hone, hnone]
  · obtain ⟨c, hc, c', hc', hne⟩ := htorn
    refine ⟨Ascending.canonical compare (heads.map Prod.snd), ?_, Ascending.ascending_canonical, hvalues⟩
    rw [resolve, if_neg (Nat.not_lt.2 hfew), if_neg (List.ne_nil_of_mem hc)]
    simp only
    split
    · rename_i hwon
      rw [hnone] at hwon
      cases hwon
    · rename_i value _ hone
      have hboth := (hvalues c.2).2 ⟨c, hc, rfl⟩
      have hboth' := (hvalues c'.2).2 ⟨c', hc', rfl⟩
      rw [hone, List.mem_singleton] at hboth hboth'
      exact absurd (hboth.trans hboth'.symm) hne
    · rfl

structure HeadsOf (view : View) (key : RegisterKey) (committed : Bool) (value : RecordId → Operation → α) (heads : List (RecordId × α)) :
    Prop where
  ascending : (heads.map Prod.fst).Pairwise (compare · · = .lt)
  mem : ∀ id, id ∈ heads.map Prod.fst ↔ IsHead view key committed id
  valued : ∀ c ∈ heads, ∃ actor op, operation view.control c.1 = .ok (actor, op) ∧ updateKey view.control c.1 actor op = some key ∧
    c.2 = value c.1 op

def CausalRegister (view : View) (key : RegisterKey) (committed : Bool) (value : RecordId → Operation → α) (winner : List α → Option α)
    (register : Register α) : Prop :=
  ((∃ id, OpenUpdate view key id) → register = .incomplete) ∧
    ((¬ ∃ id, OpenUpdate view key id) → ∃ heads, HeadsOf view key committed value heads ∧ Reads winner heads register)

structure Built (view : View) : Prop where
  progress : Progress view.control view.classification
  filed : ∀ key, view.registers[key]?.getD [] = view.classification.keys.filter fun id => keyFor view.control id = some key

theorem Built.register (h : Built view) (key : RegisterKey) (committed : Bool) (value : RecordId → Operation → α)
    (winner : List α → Option α) : CausalRegister view key committed value winner (view.register key committed value winner) := by
  have hids : ∀ id, id ∈ view.registers[key]?.getD [] ↔ (∃ c, view.classification[id]? = some c) ∧ keyFor view.control id = some key := by
    intro id
    rw [h.filed, List.mem_filter, Std.ExtTreeMap.mem_keys, ← Std.ExtTreeMap.isSome_getElem?_iff_mem, Option.isSome_iff_exists]
    simp
  have hsorted : (view.registers[key]?.getD []).Pairwise (compare · · = .lt) := by
    rw [h.filed]
    exact Std.ExtTreeMap.ordered_keys.sublist List.filter_sublist
  have hnodup : (view.registers[key]?.getD []).Nodup := by
    rw [h.filed]
    exact Std.ExtTreeMap.nodup_keys.sublist List.filter_sublist
  have hopens : (∃ id ∈ view.registers[key]?.getD [], OpenUpdate view key id) ↔ ∃ id, OpenUpdate view key id := by
    constructor
    · rintro ⟨id, -, hopen⟩
      exact ⟨id, hopen⟩
    · rintro ⟨id, hkey, c, hc, hopen⟩
      exact ⟨id, (hids id).2 ⟨⟨c, hc⟩, hkey⟩, hkey, c, hc, hopen⟩
  rcases candidates_fold committed value (fun id hid => ((hids id).1 hid).2)
    (fun id hid => ((hids id).1 hid).1) hnodup [] with ⟨hopen, hfold⟩ | ⟨hopen, found, hfold, hcandidates⟩
  · refine ⟨fun _ => ?_, fun hnone => absurd (hopens.1 hopen) hnone⟩
    rw [View.register, hfold]
  · refine ⟨fun hsome => absurd (hopens.2 hsome) hopen, fun _ => ?_⟩
    have heligible : ∀ id, id ∈ found.map Prod.fst ↔ Eligible view key committed id := by
      intro id
      by_cases hid : id ∈ view.registers[key]?.getD []
      · exact hcandidates.mem id hid
      · refine iff_of_false (fun hmem => hid (hcandidates.sublist.subset hmem)) ?_
        rintro ⟨hkey, hstate⟩
        refine hid ((hids id).2 ⟨?_, hkey⟩)
        rcases hstate with hstate | ⟨-, hstate⟩
        all_goals
          obtain ⟨c, hc, -⟩ := Option.map_eq_some_iff.1 hstate
          exact ⟨c, hc⟩
    have hself : ∀ id, Eligible view key committed id → ¬ Relation.TransGen (Supersedes view.control) id id := by
      rintro id ⟨-, hstate | ⟨-, hstate⟩⟩
      · exact h.progress.not_supersedes_self hstate (.inl rfl)
      · exact h.progress.not_supersedes_self hstate (.inr rfl)
    have hflat : (found.flatMap fun c => superseded view.control c.1) = (found.map Prod.fst).flatMap (superseded view.control) :=
      (List.flatMap_map Prod.fst (superseded view.control) found).symm
    rw [View.register, hfold, List.nil_append]
    simp only [hflat]
    refine ⟨_, ⟨?_, fun id => ?_, fun c hc => ?_⟩, resolve_reads winner _⟩
    · exact hsorted.sublist ((List.filter_sublist.map Prod.fst).trans hcandidates.sublist)
    · constructor
      · intro hid
        obtain ⟨c, hc, rfl⟩ := List.mem_map.1 hid
        obtain ⟨hc, hbelow⟩ := List.mem_filter.1 hc
        refine ⟨(heligible c.1).1 (List.mem_map_of_mem hc), fun other hother _ hpath => ?_⟩
        have hcontains := contains_below.2 ⟨other, (heligible other).2 hother, hpath⟩
        rw [hcontains] at hbelow
        cases hbelow
      · rintro ⟨hid, hfirst⟩
        obtain ⟨c, hc, rfl⟩ := List.mem_map.1 ((heligible id).2 hid)
        refine List.mem_map_of_mem (List.mem_filter.2 ⟨hc, ?_⟩)
        by_contra hbelow
        obtain ⟨other, hother, hpath⟩ := contains_below.1 (by simpa using hbelow)
        by_cases hsame : other = c.1
        · subst hsame
          exact hself _ hid hpath
        · exact hfirst other ((heligible other).1 hother) hsame hpath
    · obtain ⟨actor, op, hop, hvalue⟩ := hcandidates.valued c (List.mem_filter.1 hc).1
      have hkey := ((heligible c.1).1 (List.mem_map_of_mem (List.mem_filter.1 hc).1)).1
      obtain ⟨actor', op', hop', hupdate⟩ := operation_of_keyFor hkey
      rw [hop] at hop'
      cases hop'
      exact ⟨actor, op, hop, hupdate, hvalue⟩

variable {crypto : Crypto}

theorem new_built (a : Archive crypto) (now : UInt64) (eligibility : Eligibility) : Built (View.new a now eligibility) := by
  have hregisters : (View.new a now eligibility).registers = (View.new a now eligibility).classification.keys.foldl
      (fileRegister (View.new a now eligibility).control) ∅ := by
    rw [View.new]
  refine ⟨?_, fun key => ?_⟩
  · rw [new_control, new_classification]
    exact evaluation_progress _
  · rw [hregisters, getElem?_fileRegisters]
    simp

end

/-! ### Reactions, follows and reposts -/

end View

def Operation.clears : Operation → Bool
  | .react _ .clear _ | .follow _ false _ | .repost _ none _ => true
  | _ => false

namespace View
variable {view : View} {α : Type} [Ord α] [DecidableEq α]

def Preference.at (preference : Preference α) : Bool → Register α
  | true => preference.committed
  | false => preference.observed

theorem at_pair (view : View) (owner : OwnerId) (key : RegisterKey) (value : RecordId → Operation → α) (winner : List α → Option α)
    (committed : Bool) : Preference.at (view.pair owner key value winner) committed =
      if view.frozen owner || !view.control.ownerHistoryComplete owner then .incomplete else view.register key committed value winner := by
  unfold pair
  split <;> cases committed <;> rfl

/-- A preference whose registers resolve to `cleared` as soon as a head clears. -/
def Prefers (view : View) (owner : OwnerId) (key : RegisterKey) (value : RecordId → Operation → α) (cleared : α)
    (preference : Preference α) : Prop :=
  ∀ committed, ((view.frozen owner || !view.control.ownerHistoryComplete owner) = true → Preference.at preference committed = .incomplete) ∧
    ((view.frozen owner || !view.control.ownerHistoryComplete owner) = false →
      ((∃ id, OpenUpdate view key id) → Preference.at preference committed = .incomplete) ∧
      ((¬ ∃ id, OpenUpdate view key id) → ∃ heads, HeadsOf view key committed value heads ∧
        Reads (favoured cleared) heads (Preference.at preference committed) ∧
        (heads.length ≤ maxHeads → (∃ c ∈ heads, ∃ actor op, operation view.control c.1 = .ok (actor, op) ∧ op.clears = true) →
          Preference.at preference committed = .resolved (heads.map Prod.fst) cleared)))

theorem Built.prefers [Std.TransCmp (compare : α → α → Ordering)] [Std.LawfulEqCmp (compare : α → α → Ordering)] (h : Built view)
    {owner : OwnerId} {key : RegisterKey} {value : RecordId → Operation → α} {cleared : α}
    (hclears : ∀ id actor op, updateKey view.control id actor op = some key → op.clears = true → value id op = cleared) :
    Prefers view owner key value cleared (view.pair owner key value (favoured cleared)) := by
  intro committed
  rw [at_pair]
  refine ⟨fun hclosed => if_pos hclosed, fun hclosed => ?_⟩
  rw [if_neg (by rw [hclosed]; exact Bool.false_ne_true)]
  obtain ⟨hopen, hheads⟩ := h.register key committed value (favoured cleared)
  refine ⟨hopen, fun hnone => ?_⟩
  obtain ⟨heads, hheads, hreads⟩ := hheads hnone
  refine ⟨heads, hheads, hreads, fun hfew hcleared => ?_⟩
  obtain ⟨c, hc, actor, op, hop, hclear⟩ := hcleared
  obtain ⟨actor', op', hop', hupdate, hvalue⟩ := hheads.valued c hc
  rw [hop] at hop'
  cases hop'
  refine hreads.won (List.ne_nil_of_mem hc) hfew cleared (if_pos ?_)
  rw [Ascending.mem_canonical]
  exact List.mem_map.2 ⟨c, hc, hvalue.trans (hclears c.1 actor op hupdate hclear)⟩

theorem clears_iff {op : Operation} : op.clears = true ↔ (∃ post supersedes, op = .react post .clear supersedes) ∨
    (∃ target supersedes, op = .follow target false supersedes) ∨ ∃ post supersedes, op = .repost post none supersedes := by
  constructor
  · intro h
    unfold Operation.clears at h
    split at h
    · exact .inl ⟨_, _, rfl⟩
    · exact .inr (.inl ⟨_, _, rfl⟩)
    · exact .inr (.inr ⟨_, _, rfl⟩)
    · cases h
  · rintro (⟨post, supersedes, rfl⟩ | ⟨target, supersedes, rfl⟩ | ⟨post, supersedes, rfl⟩) <;> rfl

/-- Registers are what they should be in every view. -/
theorem registers_causal {crypto : Crypto} (a : Archive crypto) (now : UInt64) (eligibility : Eligibility) :
    let view := View.new a now eligibility
    (∀ (β : Type) [Ord β] [DecidableEq β] [Std.TransCmp (compare : β → β → Ordering)] [Std.LawfulEqCmp (compare : β → β → Ordering)]
      (key : RegisterKey) (committed : Bool) (value : RecordId → Operation → β) (winner : List β → Option β),
      CausalRegister view key committed value winner (view.register key committed value winner)) ∧
    (∀ owner post preference, view.reaction owner post = .ok preference →
      Prefers view owner (.reaction owner post) reactionValue .clear preference) ∧
    (∀ owner post preference, view.repost owner post = .ok preference → Prefers view owner (.repost owner post) repostValue none preference) ∧
    ∀ owner target preference, view.follow owner target = .ok preference →
      Prefers view owner (.follow owner target) followValue false preference := by
  have hbuilt := new_built a now eligibility
  dsimp only
  generalize View.new a now eligibility = view at hbuilt
  refine ⟨fun β _ _ _ _ key committed value winner => hbuilt.register key committed value winner, fun owner post preference h => ?_,
    fun owner post preference h => ?_, fun owner target preference h => ?_⟩
  · simp only [reaction, bind_eq_ok] at h
    obtain ⟨_, -, _, -, h⟩ := h
    cases h
    refine hbuilt.prefers fun id actor op hkey hclears => ?_
    rcases clears_iff.1 hclears with ⟨_, _, rfl⟩ | ⟨_, _, rfl⟩ | ⟨_, _, rfl⟩
    · rfl
    · cases hkey
    · cases hkey
  · simp only [repost, bind_eq_ok] at h
    obtain ⟨_, -, _, -, h⟩ := h
    cases h
    refine hbuilt.prefers fun id actor op hkey hclears => ?_
    rcases clears_iff.1 hclears with ⟨_, _, rfl⟩ | ⟨_, _, rfl⟩ | ⟨_, _, rfl⟩
    · cases hkey
    · cases hkey
    · rfl
  · simp only [follow, bind_eq_ok] at h
    obtain ⟨_, -, h⟩ := h
    cases h
    refine hbuilt.prefers fun id actor op hkey hclears => ?_
    rcases clears_iff.1 hclears with ⟨_, _, rfl⟩ | ⟨_, _, rfl⟩ | ⟨_, _, rfl⟩
    · cases hkey
    · rfl
    · cases hkey

end View
end Valhalla.Social
