import Valhalla.Lib.Choice
import Valhalla.Social.View
import Valhalla.Attention.Acknowledge

/-!
# Collected notifications (`Collector` of `derive.rs`)

Candidates are pushed one at a time into two bounded lanes. A lane keeps the earliest updates of every source owner,
and of these the earliest of all; what a push drops it owns up to in the coverage.
-/

namespace Valhalla.Attention
open Social (OwnerId RecordId Actor View Register)
open Check

def maxCandidates : Nat := 256
def maxPerOwner : Nat := 32
def maxPolicyItems : Nat := 512

instance : LinearOrder Update := Keys.linearOrder Update

def canonical {κ : Type} [Ord κ] (values : List κ) : Bool := decide (values.length ≤ maxPolicyItems) && ascendingBy compare values

/-- The filters of a policy that a push looks up. -/
structure AttentionPolicy where
  selected : List OwnerId
  muted : List OwnerId
  mutedThreads : List RecordId
  canonical : (canonical selected && canonical muted && canonical mutedThreads) = true

structure Attribution where
  owner : OwnerId
  actor : Actor

/-- A notification as it is pushed: its lane, its priority and what was read of it are not known yet. -/
structure Item extends Notification where
  source : Attribution
  root : Option RecordId
  positive : Bool
  priority : Option ReadState
  read : ReadState

structure Coverage where
  incomplete : Bool
  selectedLimited : Bool
  requestsLimited : Bool
  ownerLimited : Bool
  unresolvedMentions : Nat
deriving DecidableEq

def Coverage.limit (coverage : Coverage) : Lane → Coverage
  | .selected => { coverage with selectedLimited := true }
  | .requests => { coverage with requestsLimited := true }

/-- Whether something was left out. -/
def Coverage.limited (coverage : Coverage) : Bool :=
  coverage.ownerLimited || (coverage.selectedLimited || coverage.requestsLimited)

/-! ### Lanes of items -/

/-- What a collector only reads. -/
structure Scope where
  attention : Attention
  policy : AttentionPolicy
  view : View

namespace Scope
variable (scope : Scope)

/-- `binary_search` in the sorted filters. -/
def mutes (item : Item) : Bool :=
  scope.policy.muted.contains item.source.owner || item.root.any fun root => scope.policy.mutedThreads.contains root

def follows (owner : OwnerId) : Bool :=
  match scope.view.follow scope.attention.reader.owner owner with
  | .ok preference =>
    match preference.committed with
    | .resolved _ true => true
    | _ => false
  | .error _ => false

def selects (item : Item) : Bool :=
  scope.policy.selected.contains item.source.owner || scope.follows item.source.owner ||
    item.update.group.reason == .watchedThread

def file (item : Item) : Item :=
  let selected := scope.selects item
  let lane := if selected then .selected else .requests
  let marks := scope.attention.read item.update lane
  { item with
    lane
    read := marks.2
    priority := if selected && item.positive && item.source.owner != scope.attention.reader.owner then some marks.1 else none }

end Scope

abbrev Entries := Std.ExtTreeMap Update Item compare

structure Collector extends Scope where
  selected : Entries
  requests : Entries
  coverage : Coverage

/-- `pop_last` -/
def popLast (entries : Entries) : Entries :=
  match entries.maxKey? with
  | some last => entries.erase last
  | none => entries

namespace Collector

def new (scope : Scope) (incomplete : Bool) : Collector := ⟨scope, ∅, ∅, ⟨incomplete, false, false, false, 0⟩⟩

variable (collector : Collector)

def entries : Lane → Entries
  | .selected => collector.selected
  | .requests => collector.requests

def setEntries (lane : Lane) (entries : Entries) : Collector :=
  match lane with
  | .selected => { collector with selected := entries }
  | .requests => { collector with requests := entries }

def enter (entries : Entries) (item : Item) : Collector :=
  let entries := entries.insert item.update item
  if maxCandidates < entries.size then
    { collector.setEntries item.lane (popLast entries) with coverage := collector.coverage.limit item.lane }
  else collector.setEntries item.lane entries

def limitOwner : Collector := { collector with coverage := { collector.coverage with ownerLimited := true } }

def push (item : Item) : Collector :=
  let owner := item.source.owner
  if collector.mutes item then collector
  else
    let item := collector.file item
    let entries := collector.entries item.lane
    if entries.contains item.update then collector
    else
      let sameOwner := entries.keys.filter (·.group.sourceOwner == owner)
      if maxPerOwner ≤ sameOwner.length then
        let collector := collector.limitOwner
        match sameOwner.getLast? with
        | none => collector -- cannot be: so many entries have a last one
        | some last => if (compare item.update last).isLT then collector.enter (entries.erase last) item else collector
      else collector.enter entries item

def pushAll (items : List Item) : Collector := items.foldl push collector

/-! ### What one push does -/

variable {collector} {next : Collector} {scope : Scope} {item : Item} {entries : Entries} {lane l : Lane} {k : Update} {v : Item}

def ownerOf (update : Update) : OwnerId := update.group.sourceOwner

def keys (collector : Collector) (lane : Lane) : Finset Update := Keys.ofMap (collector.entries lane)

def limited (collector : Collector) : Bool := collector.coverage.limited

/-- The bounds of a lane. -/
structure Held (keys : Finset Update) : Prop where
  card_le : keys.card ≤ maxCandidates
  fiber_le : ∀ owner, (Choice.fiber ownerOf keys owner).card ≤ maxPerOwner

theorem held_select (updates : Finset Update) : Held (Choice.select ownerOf maxPerOwner maxCandidates updates) :=
  ⟨Choice.card_select_le, Choice.card_fiber_select_le⟩

theorem entries_setEntries : (collector.setEntries lane entries).entries l = if l = lane then entries else collector.entries l := by
  cases lane <;> cases l <;> rfl

theorem toScope_setEntries : (collector.setEntries lane entries).toScope = collector.toScope := by
  cases lane <;> rfl

theorem coverage_setEntries : (collector.setEntries lane entries).coverage = collector.coverage := by
  cases lane <;> rfl

theorem limited_limit (coverage : Coverage) : (coverage.limit lane).limited = true := by
  cases lane <;> simp [Coverage.limit, Coverage.limited]

structure Entered (collector next : Collector) (before : Entries) (item : Item) : Prop where
  scope : next.toScope = collector.toScope
  other : ∀ l, l ≠ item.lane → next.entries l = collector.entries l
  chosen : next.keys item.lane = Choice.firsts maxCandidates (insert item.update (Keys.ofMap before))
  filed : ∀ (k : Update) (v : Item), (next.entries item.lane)[k]? = some v → (k = item.update ∧ v = item) ∨ before[k]? = some v
  unlimited : next.limited = false → collector.limited = false ∧ next.keys item.lane = insert item.update (Keys.ofMap before)

theorem enter_entered (hcard : (insert item.update (Keys.ofMap entries)).card ≤ maxCandidates + 1) :
    Entered collector (collector.enter entries item) entries item := by
  have hkeys : Keys.ofMap (entries.insert item.update item) = insert item.update (Keys.ofMap entries) := Keys.ofMap_insert
  have hfiled : ∀ (k : Update) (v : Item), (entries.insert item.update item)[k]? = some v →
      (k = item.update ∧ v = item) ∨ entries[k]? = some v := by
    intro k v hk
    rw [Maps.getElem?_insert] at hk
    split at hk
    · rename_i heq
      exact .inl ⟨heq.symm, (Option.some.inj hk).symm⟩
    · exact .inr hk
  rw [← hkeys, Keys.card_ofMap] at hcard
  unfold enter
  by_cases hmany : maxCandidates < (entries.insert item.update item).size
  · rw [if_pos hmany]
    have hfull : (Keys.ofMap (entries.insert item.update item)).card = maxCandidates + 1 := by
      rw [Keys.card_ofMap]
      omega
    obtain ⟨last, hlast⟩ : ∃ last, (entries.insert item.update item).maxKey? = some last := by
      refine Option.isSome_iff_exists.1 (Std.ExtTreeMap.isSome_maxKey?_of_contains (k := item.update) ?_)
      rw [Keys.contains_iff, hkeys]
      exact Finset.mem_insert_self _ _
    obtain ⟨hmem, hmax⟩ := Keys.maxKey?_spec hlast
    have hpop : popLast (entries.insert item.update item) = (entries.insert item.update item).erase last := by
      rw [popLast, hlast]
    constructor
    case scope => exact toScope_setEntries
    case other =>
      intro l hl
      exact entries_setEntries.trans (if_neg hl)
    case chosen =>
      have hentries : (collector.setEntries item.lane (popLast (entries.insert item.update item))).keys item.lane =
          (Keys.ofMap (entries.insert item.update item)).erase last := by
        rw [keys, entries_setEntries, if_pos rfl, hpop, Keys.ofMap_erase]
      refine hentries.trans ?_
      rw [← hkeys, Choice.firsts_eq_erase hmem hmax hfull]
    case filed =>
      intro k v hk
      have hentries : (collector.setEntries item.lane (popLast (entries.insert item.update item))).entries item.lane =
          (entries.insert item.update item).erase last := by
        rw [entries_setEntries, if_pos rfl, hpop]
      have hk' : ((entries.insert item.update item).erase last)[k]? = some v := hentries ▸ hk
      rw [Maps.getElem?_erase] at hk'
      split at hk'
      · cases hk'
      · exact hfiled k v hk'
    case unlimited =>
      intro hfree
      exact absurd ((limited_limit collector.coverage).symm.trans hfree) Bool.true_eq_false.mp
  · rw [if_neg hmany]
    have hentries : (collector.setEntries item.lane (entries.insert item.update item)).entries item.lane =
        entries.insert item.update item := by
      rw [entries_setEntries, if_pos rfl]
    have hall : (collector.setEntries item.lane (entries.insert item.update item)).keys item.lane = insert item.update (Keys.ofMap entries) := by
      rw [keys, hentries, hkeys]
    constructor
    case scope => exact toScope_setEntries
    case other =>
      intro l hl
      exact entries_setEntries.trans (if_neg hl)
    case chosen =>
      rw [hall, ← hkeys, Choice.firsts_eq_self]
      rw [Keys.card_ofMap]
      exact not_lt.1 hmany
    case filed =>
      intro k v hk
      exact hfiled k v (hentries ▸ hk)
    case unlimited =>
      intro hfree
      rw [limited, coverage_setEntries] at hfree
      exact ⟨hfree, hall⟩

structure Pushed (collector next : Collector) (item : Item) : Prop where
  scope : next.toScope = collector.toScope
  other : ∀ l, l ≠ item.lane → next.entries l = collector.entries l
  chosen : next.keys item.lane = Choice.select ownerOf maxPerOwner maxCandidates (insert item.update (collector.keys item.lane))
  filed : ∀ (k : Update) (v : Item), (next.entries item.lane)[k]? = some v →
    (k = item.update ∧ v = item) ∨ (collector.entries item.lane)[k]? = some v
  unlimited : next.limited = false → collector.limited = false ∧ next.keys item.lane = insert item.update (collector.keys item.lane)

theorem push_muted (h : collector.mutes item = true) : collector.push item = collector := by
  unfold push
  exact if_pos h

theorem push_pushed (hmuted : collector.mutes item = false) (hown : item.source.owner = item.update.group.sourceOwner)
    (hheld : Held (collector.keys (collector.file item).lane)) (hnew : item.update ∉ collector.keys (collector.file item).lane) :
    Pushed collector (collector.push item) (collector.file item) := by
  have hupdate : (collector.file item).update = item.update := rfl
  have habsent : (collector.entries (collector.file item).lane).contains item.update = false := by
    rw [Bool.eq_false_iff]
    exact fun hmem => hnew (Keys.contains_iff.1 hmem)
  have hcount : ((collector.entries (collector.file item).lane).keys.filter (·.group.sourceOwner == item.source.owner)).length =
      (Choice.fiber ownerOf (collector.keys (collector.file item).lane) (ownerOf item.update)).card := by
    rw [Keys.length_filter]
    simp only [beq_iff_eq, hown]
    rfl
  unfold push
  rw [if_neg (by rw [hmuted]; exact Bool.false_ne_true)]
  dsimp only
  rw [hupdate, habsent, if_neg Bool.false_ne_true, hcount]
  by_cases hfull : maxPerOwner ≤ (Choice.fiber ownerOf (collector.keys (collector.file item).lane) (ownerOf item.update)).card
  · rw [if_pos hfull]
    split
    · rename_i hnone
      rw [List.getLast?_eq_none_iff.1 hnone] at hcount
      rw [← hcount] at hfull
      exact absurd hfull (by decide)
    · rename_i last hlast
      obtain ⟨⟨hmem, hsame⟩, hmax⟩ := Keys.getLast?_filter hlast
      rw [beq_iff_eq, hown] at hsame
      have hclass := Choice.firstsBy_insert_full hheld.fiber_le hfull hnew (Choice.mem_fiber.2 ⟨hmem, hsame⟩) fun z hz =>
        hmax z (Choice.mem_fiber.1 hz).1 (beq_iff_eq.2 ((Choice.mem_fiber.1 hz).2.trans hown.symm))
      have howned : collector.limitOwner.limited ≠ false := by simp [limitOwner, limited, Coverage.limited]
      by_cases hlt : item.update < last
      · -- the owner's last update makes room, and the lane is not larger than before
        have hbefore : Keys.ofMap ((collector.entries (collector.file item).lane).erase last) =
            (collector.keys (collector.file item).lane).erase last := Keys.ofMap_erase
        have hcard : (insert item.update (Keys.ofMap ((collector.entries (collector.file item).lane).erase last))).card ≤ maxCandidates + 1 := by
          rw [hbefore]
          have hless := (Finset.card_le_card (Finset.erase_subset last _)).trans hheld.card_le
          exact (Finset.card_insert_le _ _).trans (Nat.succ_le_succ hless)
        have hentered : Entered collector.limitOwner
            (collector.limitOwner.enter ((collector.entries (collector.file item).lane).erase last) (collector.file item))
            ((collector.entries (collector.file item).lane).erase last) (collector.file item) := enter_entered hcard
        rw [if_pos (Ordering.isLT_iff_eq_lt.2 hlt)]
        refine ⟨hentered.scope, hentered.other, ?_, fun k v hk => (hentered.filed k v hk).imp_right fun hk' => ?_, fun hfree => ?_⟩
        · rw [Choice.select, hupdate, hclass, if_pos hlt, ← hbefore]
          exact hentered.chosen
        · rw [Maps.getElem?_erase] at hk'
          split at hk'
          · cases hk'
          · exact hk'
        · exact absurd (hentered.unlimited hfree).1 howned
      · rw [if_neg fun hisLT => hlt (Ordering.isLT_iff_eq_lt.1 hisLT)]
        refine ⟨rfl, fun _ _ => rfl, ?_, fun _ _ => .inr, fun hfree => absurd hfree howned⟩
        rw [Choice.select, hupdate, hclass, if_neg hlt]
        exact (Choice.firsts_eq_self hheld.card_le).symm
  · rw [if_neg hfull]
    have hclass := Choice.firstsBy_insert_room (x := item.update) hheld.fiber_le (not_le.1 hfull)
    have hentered : Entered collector (collector.enter (collector.entries (collector.file item).lane) (collector.file item))
        (collector.entries (collector.file item).lane) (collector.file item) :=
      enter_entered ((Finset.card_insert_le _ _).trans (Nat.succ_le_succ hheld.card_le))
    refine ⟨hentered.scope, hentered.other, ?_, hentered.filed, hentered.unlimited⟩
    rw [Choice.select, hupdate, hclass]
    exact hentered.chosen

end Collector
end Valhalla.Attention

/-!
## What is collected does not depend on the order of arrival

After any pushes a lane holds the first updates of what each source owner offered, and of these the first overall
(`Collected.chosen`); while nothing was limited it holds all that was offered (`Collected.unlimited`).
-/

namespace Valhalla.Attention
open Social (OwnerId RecordId)

variable {scope : Scope} {items order : List Item} {item : Item} {lane : Lane} {collector : Collector}

def Scope.offered (scope : Scope) (items : List Item) (lane : Lane) : Finset Update :=
  ((items.filter fun item => !scope.mutes item && (scope.file item).lane == lane).map (·.update)).toFinset

theorem mem_offered {u : Update} : u ∈ scope.offered items lane ↔
    ∃ item ∈ items, (scope.mutes item = false ∧ (scope.file item).lane = lane) ∧ item.update = u := by
  simp only [Scope.offered, List.mem_toFinset, List.mem_map, List.mem_filter, Bool.and_eq_true, Bool.not_eq_true', beq_iff_eq, and_assoc]

theorem offered_append : scope.offered (items ++ [item]) lane =
    if scope.mutes item = false ∧ (scope.file item).lane = lane then insert item.update (scope.offered items lane)
    else scope.offered items lane := by
  ext u
  split
  · rename_i hoffers
    rw [Finset.mem_insert, mem_offered, mem_offered]
    constructor
    · rintro ⟨other, hmem, hother, rfl⟩
      rcases List.mem_append.1 hmem with hmem | hmem
      · exact .inr ⟨other, hmem, hother, rfl⟩
      · exact .inl (by rw [List.mem_singleton.1 hmem])
    · rintro (rfl | ⟨other, hmem, hother⟩)
      · exact ⟨item, List.mem_append_right _ (List.mem_singleton.2 rfl), hoffers, rfl⟩
      · exact ⟨other, List.mem_append_left _ hmem, hother⟩
  · rename_i hskips
    rw [mem_offered, mem_offered]
    constructor
    · rintro ⟨other, hmem, hother, rfl⟩
      rcases List.mem_append.1 hmem with hmem | hmem
      · exact ⟨other, hmem, hother, rfl⟩
      · rw [List.mem_singleton.1 hmem] at hother
        exact absurd hother hskips
    · rintro ⟨other, hmem, hother⟩
      exact ⟨other, List.mem_append_left _ hmem, hother⟩

theorem offered_perm (h : order.Perm items) (lane : Lane) : scope.offered order lane = scope.offered items lane :=
  List.toFinset_eq_of_perm _ _ ((h.filter _).map _)

/-- A collector after some items were pushed. -/
structure Collected (scope : Scope) (items : List Item) (collector : Collector) : Prop where
  same : collector.toScope = scope
  chosen : ∀ lane, collector.keys lane = Choice.select Collector.ownerOf maxPerOwner maxCandidates (scope.offered items lane)
  filed : ∀ (lane : Lane) (k : Update) (v : Item), (collector.entries lane)[k]? = some v →
    ∃ item ∈ items, item.update = k ∧ scope.file item = v
  unlimited : collector.limited = false → ∀ lane, collector.keys lane = scope.offered items lane

namespace Collected

theorem new (scope : Scope) (incomplete : Bool) : Collected scope [] (.new scope incomplete) := by
  have hentries : ∀ lane, (Collector.new scope incomplete).entries lane = ∅ := fun lane => by cases lane <;> rfl
  have hkeys : ∀ lane, (Collector.new scope incomplete).keys lane = ∅ := fun lane => by
    rw [Collector.keys, hentries, Keys.ofMap, Std.ExtTreeMap.keys_eq_nil_iff.2 rfl, List.toFinset_nil]
  refine ⟨rfl, fun lane => ?_, fun lane k v hk => ?_, fun _ lane => ?_⟩
  · rw [hkeys]
    rfl
  · rw [hentries, Std.ExtTreeMap.getElem?_empty] at hk
    cases hk
  · rw [hkeys]
    rfl

theorem held (h : Collected scope items collector) (lane : Lane) : Collector.Held (collector.keys lane) := by
  rw [h.chosen]
  exact Collector.held_select _

theorem push (h : Collected scope items collector) (hown : item.source.owner = item.update.group.sourceOwner)
    (hnew : ∀ other ∈ items, other.update ≠ item.update) : Collected scope (items ++ [item]) (collector.push item) := by
  obtain rfl := h.same
  by_cases hmuted : collector.mutes item = true
  · -- nothing is offered
    have hoffered : ∀ lane, collector.offered (items ++ [item]) lane = collector.offered items lane := fun lane => by
      rw [offered_append, if_neg fun hoffers => Bool.false_ne_true (hoffers.1.symm.trans hmuted)]
    rw [Collector.push_muted hmuted]
    refine ⟨rfl, fun lane => ?_, fun lane k v hk => ?_, fun hfree lane => ?_⟩
    · rw [hoffered, h.chosen]
    · obtain ⟨other, hmem, hother⟩ := h.filed lane k v hk
      exact ⟨other, List.mem_append_left _ hmem, hother⟩
    · rw [hoffered, h.unlimited hfree]
  · rw [Bool.not_eq_true] at hmuted
    have habsent : item.update ∉ collector.keys (collector.file item).lane := by
      rw [h.chosen]
      intro hmem
      obtain ⟨other, hother, -, heq⟩ := mem_offered.1 (Choice.select_subset hmem)
      exact hnew other hother heq
    have hpushed := Collector.push_pushed hmuted hown (h.held _) habsent
    have hother : ∀ lane, lane ≠ (collector.file item).lane → (collector.push item).keys lane = collector.keys lane ∧
        collector.offered (items ++ [item]) lane = collector.offered items lane := by
      intro lane hlane
      rw [Collector.keys, Collector.keys, hpushed.other lane hlane, offered_append, if_neg fun hoffers => hlane hoffers.2.symm]
      exact ⟨rfl, rfl⟩
    have hoffered : collector.offered (items ++ [item]) (collector.file item).lane =
        insert item.update (collector.offered items (collector.file item).lane) := by
      rw [offered_append, if_pos ⟨hmuted, rfl⟩]
    refine ⟨hpushed.scope, fun lane => ?_, fun lane k v hk => ?_, fun hfree lane => ?_⟩
    · by_cases hlane : lane = (collector.file item).lane
      · rw [hlane, hpushed.chosen, h.chosen, hoffered]
        exact Choice.pathIndependent_select.insert_eq _ _
      · rw [(hother lane hlane).1, (hother lane hlane).2, h.chosen]
    · have hkept : (collector.entries lane)[k]? = some v → ∃ other ∈ items ++ [item], other.update = k ∧ collector.file other = v := by
        intro hk
        obtain ⟨other, hmem, hother⟩ := h.filed lane k v hk
        exact ⟨other, List.mem_append_left _ hmem, hother⟩
      by_cases hlane : lane = (collector.file item).lane
      · rw [hlane] at hk hkept
        rcases hpushed.filed k v hk with ⟨rfl, rfl⟩ | hk
        · exact ⟨item, List.mem_append_right _ (List.mem_singleton.2 rfl), rfl, rfl⟩
        · exact hkept hk
      · rw [hpushed.other lane hlane] at hk
        exact hkept hk
    · obtain ⟨hbefore, hall⟩ := hpushed.unlimited hfree
      by_cases hlane : lane = (collector.file item).lane
      · rw [hlane, hall, h.unlimited hbefore, hoffered]
        rfl
      · rw [(hother lane hlane).1, (hother lane hlane).2, h.unlimited hbefore]

theorem pushAll {more : List Item} (h : Collected scope items collector)
    (hown : ∀ item ∈ more, item.source.owner = item.update.group.sourceOwner)
    (hdistinct : ((items ++ more).map (·.update)).Nodup) : Collected scope (items ++ more) (collector.pushAll more) := by
  induction more generalizing items collector with
  | nil =>
    rw [List.append_nil]
    exact h
  | cons item more ih =>
    rw [List.forall_mem_cons] at hown
    rw [List.append_cons] at hdistinct ⊢
    refine ih (h.push hown.1 fun other hother heq => ?_) hown.2 hdistinct
    rw [List.map_append, List.map_append, List.nodup_append, List.nodup_append] at hdistinct
    exact hdistinct.1.2.2 _ (List.mem_map_of_mem hother) _ (List.mem_singleton.2 rfl) heq

end Collected

theorem collected_pushAll (scope : Scope) (incomplete : Bool) (hown : ∀ item ∈ items, item.source.owner = item.update.group.sourceOwner)
    (hdistinct : (items.map (·.update)).Nodup) : Collected scope items ((Collector.new scope incomplete).pushAll items) :=
  (Collected.new scope incomplete).pushAll hown hdistinct

theorem Collected.entries_eq {other : Collector} (h : Collected scope items collector) (hother : Collected scope order other)
    (hperm : order.Perm items) (hdistinct : (items.map (·.update)).Nodup) (lane : Lane) : other.entries lane = collector.entries lane := by
  have hkeys : other.keys lane = collector.keys lane := by rw [h.chosen, hother.chosen, offered_perm hperm]
  have hsame : ∀ (k : Update) (v w : Item), (collector.entries lane)[k]? = some v → (other.entries lane)[k]? = some w → w = v := by
    intro k v w hv hw
    obtain ⟨item, hitem, hupdate, rfl⟩ := h.filed lane k v hv
    obtain ⟨item', hitem', hupdate', rfl⟩ := hother.filed lane k w hw
    rw [List.inj_on_of_nodup_map hdistinct (hperm.mem_iff.1 hitem') hitem (hupdate'.trans hupdate.symm)]
  refine Std.ExtTreeMap.ext_getElem? fun k => ?_
  have hmem : k ∈ other.keys lane ↔ k ∈ collector.keys lane := by rw [hkeys]
  rw [Collector.keys, Collector.keys, Keys.mem_ofMap, Keys.mem_ofMap] at hmem
  cases hv : (collector.entries lane)[k]? with
  | none =>
    cases hw : (other.entries lane)[k]? with
    | none => rfl
    | some w =>
      obtain ⟨v, hv'⟩ := hmem.1 ⟨w, hw⟩
      cases hv.symm.trans hv'
  | some v =>
    obtain ⟨w, hw⟩ := hmem.2 ⟨v, hv⟩
    rw [hw, hsame k v w hv hw]

/-- Whatever the order in which they are pushed, the lanes keep the first of what each source owner offers and the first
overall, within their bounds all the time, and an item that is left out leaves a flag. -/
theorem pushAll_order_independent (scope : Scope) (incomplete : Bool) (items : List Item)
    (hown : ∀ item ∈ items, item.source.owner = item.update.group.sourceOwner) (hdistinct : (items.map (·.update)).Nodup) :
    (∀ order : List Item, order.Perm items → ∀ lane,
      ((Collector.new scope incomplete).pushAll order).entries lane = ((Collector.new scope incomplete).pushAll items).entries lane) ∧
    (∀ lane, Keys.ofMap (((Collector.new scope incomplete).pushAll items).entries lane) =
      Choice.firsts maxCandidates (Choice.firstsBy (·.group.sourceOwner) maxPerOwner (scope.offered items lane))) ∧
    (∀ done rest : List Item, items = done ++ rest → ∀ lane,
      (((Collector.new scope incomplete).pushAll done).entries lane).size ≤ maxCandidates ∧
      ∀ owner, ((((Collector.new scope incomplete).pushAll done).entries lane).keys.filter (·.group.sourceOwner == owner)).length ≤ maxPerOwner) ∧
    ∀ item ∈ items, scope.mutes item = false →
      (((Collector.new scope incomplete).pushAll items).entries (scope.file item).lane)[item.update]? = none →
      ((Collector.new scope incomplete).pushAll items).coverage.ownerLimited = true ∨
        ((Collector.new scope incomplete).pushAll items).coverage.selectedLimited = true ∨
        ((Collector.new scope incomplete).pushAll items).coverage.requestsLimited = true := by
  have hcollected := collected_pushAll scope incomplete hown hdistinct
  refine ⟨fun order hperm lane => ?_, hcollected.chosen, fun done rest heq lane => ?_, fun item hitem hmuted habsent => ?_⟩
  · have horder := collected_pushAll scope incomplete (fun item hitem => hown item (hperm.mem_iff.1 hitem))
      ((hperm.map _).nodup_iff.2 hdistinct)
    exact hcollected.entries_eq horder hperm hdistinct lane
  · subst heq
    rw [List.map_append, List.nodup_append] at hdistinct
    have hdone := collected_pushAll scope incomplete (fun item hitem => hown item (List.mem_append_left _ hitem)) hdistinct.1
    obtain ⟨hcard, hfiber⟩ := hdone.held lane
    rw [Collector.keys, Keys.card_ofMap] at hcard
    refine ⟨hcard, fun owner => ?_⟩
    rw [Keys.length_filter]
    simp only [beq_iff_eq]
    exact hfiber owner
  · have hlimited : ((Collector.new scope incomplete).pushAll items).limited ≠ false := by
      intro hfree
      have hmem : item.update ∈ ((Collector.new scope incomplete).pushAll items).keys (scope.file item).lane := by
        rw [hcollected.unlimited hfree, mem_offered]
        exact ⟨item, hitem, ⟨hmuted, rfl⟩, rfl⟩
      obtain ⟨v, hv⟩ := Keys.mem_ofMap.1 hmem
      cases habsent.symm.trans hv
    simpa only [Bool.not_eq_false, Collector.limited, Coverage.limited, Bool.or_eq_true] using hlimited

def sampleScope : Scope := ⟨.new sampleReader, ⟨[], [], [], by decide⟩, .new Social.sampleArchive 0 ⟨[], by decide⟩⟩

def sampleMention (target : UInt8) : Item where
  update := ⟨⟨sampleReader.owner, ⟨Vector.replicate 32 3⟩, ⟨Vector.replicate 32 target⟩, .mention⟩, ⟨Vector.replicate 32 target⟩⟩
  lane := .requests
  source := ⟨⟨Vector.replicate 32 3⟩, .owner ⟨Vector.replicate 32 3⟩ Social.sampleOwner⟩
  root := some ⟨Vector.replicate 32 target⟩
  positive := true
  priority := none
  read := .unread

theorem pushAll_order_independent_mentions :
    ((Collector.new sampleScope false).pushAll [sampleMention 2, sampleMention 1]).requests =
      ((Collector.new sampleScope false).pushAll [sampleMention 1, sampleMention 2]).requests := by
  have hown : ∀ item ∈ [sampleMention 1, sampleMention 2], item.source.owner = item.update.group.sourceOwner := by
    simp [sampleMention]
  have hlane : ∀ collector : Collector, collector.requests = collector.entries .requests := fun _ => rfl
  rw [hlane, hlane]
  exact (pushAll_order_independent sampleScope false [sampleMention 1, sampleMention 2] hown (by decide)).1 _ (.swap ..) .requests

end Valhalla.Attention
