import Mathlib.Data.List.Perm.Subperm
import Valhalla.Social.Derive

/-!
# Heads of owners

In a derived view an owner has a head and a key exactly as long as it is not frozen, and every owner and agent
stands for a retained record, so that there are no more of them than records.
-/

namespace Maps
variable {κ ν : Type} {cmp : κ → κ → Ordering} [Std.TransCmp cmp] {m : Std.ExtTreeMap κ ν cmp}

theorem getElem?_adjust [Std.LawfulEqCmp cmp] [DecidableEq κ] {k a : κ} {f : ν → ν} :
    (adjust m k f)[a]? = if k = a then m[a]?.map f else m[a]? := by
  unfold adjust
  split
  · rename_i v hv
    rw [getElem?_insert]
    split
    · rename_i he
      rw [← he, hv]
      rfl
    · rfl
  · rename_i hnone
    split
    · rename_i he
      rw [← he, hnone]
      rfl
    · rfl

theorem size_le_of_injective {κ' ν' : Type} {cmp' : κ' → κ' → Ordering} [Std.TransCmp cmp'] [Std.LawfulEqCmp cmp']
    [Std.LawfulEqCmp cmp] {m' : Std.ExtTreeMap κ' ν' cmp'} (f : κ → κ') (hf : Function.Injective f)
    (h : ∀ k, m.contains k = true → m'.contains (f k) = true) : m.size ≤ m'.size := by
  have hnodup : (m.keys.map f).Nodup := List.Nodup.map hf Std.ExtTreeMap.nodup_keys
  have hsub : m.keys.map f ⊆ m'.keys := by
    intro k hk
    obtain ⟨k, hmem, rfl⟩ := List.mem_map.1 hk
    exact Std.ExtTreeMap.mem_keys.2 (h k (Std.ExtTreeMap.mem_keys.1 hmem))
  have hle := (List.subperm_of_subset hnodup hsub).length_le
  rwa [List.length_map, Std.ExtTreeMap.length_keys, Std.ExtTreeMap.length_keys] at hle

end Maps

namespace Valhalla.Social

theorem Id.relabel_injective {kind kind' : IdKind} : Function.Injective fun id : Id kind => (⟨id.bytes⟩ : Id kind') := by
  rintro ⟨x⟩ ⟨y⟩ h
  exact congrArg _ (Id.mk.inj h)

structure HeadsSound (e : Evidence) (v : ControlView) : Prop where
  owner : ∀ (o : OwnerId) (s : OwnerStatus), v.owners[o]? = some s → e.facts.contains (⟨o.bytes⟩ : RecordId) = true
  agent : ∀ (g : AgentId) (s : AgentStatus), v.agents[g]? = some s → e.facts.contains (⟨g.bytes⟩ : RecordId) = true
  head : ∀ (o : OwnerId) (s : OwnerStatus), v.owners[o]? = some s → (s.head = none ↔ s.frozen = true)
  key : ∀ (o : OwnerId) (s : OwnerStatus), v.owners[o]? = some s → (s.key = none ↔ s.frozen = true)

theorem HeadsSound.owners_le {e : Evidence} {v : ControlView} (h : HeadsSound e v) : v.owners.size ≤ e.facts.size := by
  refine Maps.size_le_of_injective _ Id.relabel_injective fun o ho => ?_
  rw [Std.ExtTreeMap.contains_eq_isSome_getElem?, Option.isSome_iff_exists] at ho
  obtain ⟨s, hs⟩ := ho
  exact h.owner o s hs

theorem HeadsSound.agents_le {e : Evidence} {v : ControlView} (h : HeadsSound e v) : v.agents.size ≤ e.facts.size := by
  refine Maps.size_le_of_injective _ Id.relabel_injective fun g hg => ?_
  rw [Std.ExtTreeMap.contains_eq_isSome_getElem?, Option.isSome_iff_exists] at hg
  obtain ⟨s, hs⟩ := hg
  exact h.agent g s hs

structure Headed (e : Evidence) (v : ControlView) : Prop where
  owner : ∀ (o : OwnerId) (s : OwnerStatus), v.owners[o]? = some s → e.facts.contains (⟨o.bytes⟩ : RecordId) = true
  head : ∀ (o : OwnerId) (s : OwnerStatus), v.owners[o]? = some s → s.head ≠ none ∧ s.key ≠ none
  agents : v.agents = ∅

theorem Headed.adjust {e : Evidence} {v v' : ControlView} {owner : OwnerId} {f : OwnerStatus → OwnerStatus} (h : Headed e v)
    (howners : v'.owners = Maps.adjust v.owners owner f) (hagents : v'.agents = v.agents)
    (hf : ∀ s : OwnerStatus, s.head ≠ none ∧ s.key ≠ none → (f s).head ≠ none ∧ (f s).key ≠ none) : Headed e v' := by
  have hone : ∀ (o : OwnerId) (s : OwnerStatus), v'.owners[o]? = some s →
      ∃ s₀, v.owners[o]? = some s₀ ∧ (s = s₀ ∨ s = f s₀) := by
    intro o s hs
    rw [howners, Maps.getElem?_adjust] at hs
    split at hs
    · obtain ⟨s₀, hs₀, rfl⟩ := Option.map_eq_some_iff.1 hs
      exact ⟨s₀, hs₀, .inr rfl⟩
    · exact ⟨s, hs, .inl rfl⟩
  refine ⟨fun o s hs => ?_, fun o s hs => ?_, hagents.trans h.agents⟩
  · obtain ⟨s₀, hs₀, -⟩ := hone o s hs
    exact h.owner o s₀ hs₀
  · obtain ⟨s₀, hs₀, rfl | rfl⟩ := hone o s hs
    · exact h.head o s hs₀
    · exact hf s₀ (h.head o s₀ hs₀)

theorem keepsHeaded (e : Evidence) : KeptByControls e (Headed e) where
  genesis v id controller hid hv := by
    refine ⟨fun o s hs => ?_, fun o s hs => ?_, hv.agents⟩
    · rw [ControlView.enterGenesis, Maps.getElem?_insert] at hs
      split at hs
      · rename_i ho
        rw [← ho]
        exact hid
      · exact hv.owner o s hs
    · rw [ControlView.enterGenesis, Maps.getElem?_insert] at hs
      split at hs
      · cases hs
        exact ⟨Option.some_ne_none _, Option.some_ne_none _⟩
      · exact hv.head o s hs
  reject v id hv := ⟨hv.owner, hv.head, hv.agents⟩
  incomplete v owner hv := hv.adjust rfl rfl fun _ hs => hs
  freeze v owner hv := hv.adjust rfl rfl fun _ hs => hs
  enter v id owner previous action parent closure hv :=
    hv.adjust rfl rfl fun _ _ => ⟨Option.some_ne_none _, Option.some_ne_none _⟩

theorem HeadsSound.map {e : Evidence} {v v' : ControlView} {f : OwnerId → OwnerStatus → OwnerStatus} (h : HeadsSound e v)
    (howners : v'.owners = v.owners.map f)
    (hagents : ∀ (g : AgentId) (s : AgentStatus), v'.agents[g]? = some s → ∃ s₀, v.agents[g]? = some s₀)
    (hf : ∀ o s, (f o s).head = s.head ∧ (f o s).key = s.key ∧ (f o s).frozen = s.frozen) : HeadsSound e v' := by
  have hone : ∀ (o : OwnerId) (s : OwnerStatus), v'.owners[o]? = some s → ∃ s₀, v.owners[o]? = some s₀ ∧ f o s₀ = s := by
    intro o s hs
    rw [howners, Std.ExtTreeMap.getElem?_map] at hs
    exact Option.map_eq_some_iff.1 hs
  refine ⟨fun o s hs => ?_, fun g s hs => ?_, fun o s hs => ?_, fun o s hs => ?_⟩
  · obtain ⟨s₀, hs₀, -⟩ := hone o s hs
    exact h.owner o s₀ hs₀
  · obtain ⟨s₀, hs₀⟩ := hagents g s hs
    exact h.agent g s₀ hs₀
  · obtain ⟨s₀, hs₀, rfl⟩ := hone o s hs
    obtain ⟨hhead, -, hfrozen⟩ := hf o s₀
    rw [hhead, hfrozen]
    exact h.head o s₀ hs₀
  · obtain ⟨s₀, hs₀, rfl⟩ := hone o s hs
    obtain ⟨-, hkey, hfrozen⟩ := hf o s₀
    rw [hkey, hfrozen]
    exact h.key o s₀ hs₀

theorem keepsHeads (e : Evidence) : KeptByReading e (HeadsSound e) where
  accept v owner closure hv := ⟨hv.owner, hv.agent, hv.head, hv.key⟩
  block v hv := hv.map rfl (fun _ s hs => ⟨s, hs⟩) fun _ _ => ⟨rfl, rfl, rfl⟩
  agent v id status hid hv := by
    refine ⟨hv.owner, fun g s hs => ?_, hv.head, hv.key⟩
    rw [Maps.getElem?_insert] at hs
    split at hs
    · rename_i hg
      rw [← hg]
      exact hid
    · exact hv.agent g s hs
  adjust v agent f hv := by
    refine ⟨hv.owner, fun g s hs => ?_, hv.head, hv.key⟩
    rw [Maps.getElem?_adjust] at hs
    split at hs
    · obtain ⟨s₀, hs₀, -⟩ := Option.map_eq_some_iff.1 hs
      exact hv.agent g s₀ hs₀
    · exact hv.agent g s hs
  status v id status hv := ⟨hv.owner, hv.agent, hv.head, hv.key⟩
  withhold v hv := by
    refine hv.map rfl (fun g s hs => ?_) fun _ _ => ⟨rfl, rfl, rfl⟩
    rw [ControlView.withhold, Std.ExtTreeMap.getElem?_map] at hs
    obtain ⟨s₀, hs₀, -⟩ := Option.map_eq_some_iff.1 hs
    exact ⟨s₀, hs₀⟩

theorem Headed.settled {e : Evidence} {v : ControlView} (h : Headed e v) : HeadsSound e v.settleForks := by
  have hone : ∀ (o : OwnerId) (s : OwnerStatus), v.settleForks.owners[o]? = some s → ∃ s₀, v.owners[o]? = some s₀ ∧
      (if s₀.frozen then { s₀ with head := none, key := none } else s₀) = s := by
    intro o s hs
    rw [ControlView.settleForks, Std.ExtTreeMap.getElem?_map] at hs
    exact Option.map_eq_some_iff.1 hs
  refine ⟨fun o s hs => ?_, fun g s hs => ?_, fun o s hs => ?_, fun o s hs => ?_⟩
  · obtain ⟨s₀, hs₀, -⟩ := hone o s hs
    exact h.owner o s₀ hs₀
  · rw [ControlView.settleForks, h.agents] at hs
    simp at hs
  · obtain ⟨s₀, hs₀, rfl⟩ := hone o s hs
    by_cases hfrozen : s₀.frozen = true
    · simp [hfrozen]
    · simp [hfrozen, (h.head o s₀ hs₀).1]
  · obtain ⟨s₀, hs₀, rfl⟩ := hone o s hs
    by_cases hfrozen : s₀.frozen = true
    · simp [hfrozen]
    · simp [hfrozen, (h.head o s₀ hs₀).2]

theorem heads_sound (e : Evidence) (now : UInt64) : HeadsSound e (ControlView.new e now) := by
  rw [ControlView.new]
  have hstart : Headed e { evidence := e, now } := ⟨fun o s hs => by simp at hs, fun o s hs => by simp at hs, rfl⟩
  exact (keepsHeads e).derive ((keepsHeaded e).derive hstart).settled (maxRecords * maxRecords)

end Valhalla.Social
