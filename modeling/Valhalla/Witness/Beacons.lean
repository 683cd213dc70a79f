import Valhalla.Witness.Shape

/-!
# The beacon ledger

What a beacon took in and what it drained account for its charge, its delivery counter agrees with the
delivery log, and the exhausted flag records exactly that some drain left it empty.
-/

namespace Valhalla.Witness
open FixedWidth

/-- The account of the beacon with index `b`. -/
structure Account (h : List Note) (s : State) (b : Nat) (beacon : Beacon) (entry : BeaconState) : Prop where
  balance : entry.charge.toNat + entry.drained.toNat =
    beacon.initialCharge.toNat + entry.delivered.toNat * beacon.sparkCharge.toNat
  counted : entry.delivered.toNat = s.delivered.countP (·.beacon == beacon.id)
  exhausted : entry.exhausted = true ↔ Note.drained b 0 ∈ h

structure Accounts (w : World) (h : List Note) (s : State) : Prop where
  account : ∀ b beacon entry, w.beacons[b]? = some beacon → s.beacons[b]? = some entry →
    Account h s b beacon entry
  accepted : ∀ delivery ∈ s.delivered, ∃ beacon ∈ w.beacons, beacon.id = delivery.beacon ∧
    delivery.spark.bit = beacon.accepts

namespace Account
variable {h n : List Note} {s t : State} {b : Nat} {beacon : Beacon} {entry : BeaconState}

theorem frame (ha : Account h s b beacon entry) (hd : t.delivered = s.delivered)
    (hn : Note.drained b 0 ∉ n) : Account (h ++ n) t b beacon entry where
  balance := ha.balance
  counted := by rw [hd]; exact ha.counted
  exhausted := by rw [List.mem_append, or_iff_left hn]; exact ha.exhausted

theorem credited {charge delivered : UInt32} {delivery : Delivery} (ha : Account h s b beacon entry)
    (hd : t.delivered = s.delivered ++ [delivery]) (hb : delivery.beacon = beacon.id)
    (hcharge : checkedAdd entry.charge beacon.sparkCharge = some charge)
    (hdel : checkedAdd entry.delivered 1 = some delivered) :
    Account h t b beacon { entry with charge, delivered } where
  balance := by
    have h₁ := checkedAdd_eq_some.1 hcharge
    have h₂ := checkedAdd_eq_some.1 hdel
    have := ha.balance
    simp at h₁ h₂ ⊢
    rw [h₂, Nat.add_mul]
    omega
  counted := by
    have h₂ := checkedAdd_eq_some.1 hdel
    simp at h₂ ⊢
    rw [hd, List.countP_append, h₂, ha.counted]
    simp [hb]
  exhausted := ha.exhausted

theorem other {delivery : Delivery} (ha : Account h s b beacon entry)
    (hd : t.delivered = s.delivered ++ [delivery]) (hb : delivery.beacon ≠ beacon.id) :
    Account h t b beacon entry where
  balance := ha.balance
  counted := by rw [hd, List.countP_append, ha.counted]; simp [hb]
  exhausted := ha.exhausted

theorem drained {amount charge drained : UInt32} (ha : Account h s b beacon entry)
    (hd : t.delivered = s.delivered) (hcharge : checkedSub entry.charge amount = some charge)
    (hdrained : checkedAdd entry.drained amount = some drained) :
    Account (h ++ [.drained b charge]) t b beacon
      { entry with charge, drained, exhausted := entry.exhausted || charge == 0 } where
  balance := by
    have h₁ := checkedSub_eq_some.1 hcharge
    have h₂ := checkedAdd_eq_some.1 hdrained
    have := ha.balance
    simp at h₁ h₂ ⊢
    omega
  counted := by rw [hd]; exact ha.counted
  exhausted := by
    rw [Bool.or_eq_true, beq_iff_eq, ha.exhausted, List.mem_append, List.mem_singleton, Note.drained.injEq,
      eq_comm (a := charge)]
    simp

end Account

namespace Accounts
variable {w : World} {h n : List Note} {s t : State}

theorem initial (w : World) : Accounts w [] (State.initial w) where
  account := by
    intro b beacon entry hb he
    simp only [State.initial, World.beacons, List.getElem?_map] at hb he
    rw [hb] at he
    cases he
    exact ⟨by simp, by simp [State.initial, State.allocated], by simp⟩
  accepted := by simp [State.initial, State.allocated]

theorem frame (ha : Accounts w h s) (hb : t.beacons = s.beacons) (hd : t.delivered = s.delivered)
    (hn : ∀ b, Note.drained b 0 ∉ n) : Accounts w (h ++ n) t where
  account := fun b beacon entry hw he => (ha.account b beacon entry hw (hb ▸ he)).frame hd (hn b)
  accepted := by rw [hd]; exact ha.accepted

theorem credited {b : Nat} {beacon : Beacon} {entry : BeaconState} {spark : Spark} {charge delivered : UInt32}
    (ha : Accounts w h s) (hw : w.beacons[b]? = some beacon) (he : s.beacons[b]? = some entry)
    (haccept : beacon.accepts = spark.bit) (hcharge : checkedAdd entry.charge beacon.sparkCharge = some charge)
    (hdel : checkedAdd entry.delivered 1 = some delivered)
    (hb : t.beacons = (s.credited b charge delivered spark beacon.id).beacons)
    (hd : t.delivered = (s.credited b charge delivered spark beacon.id).delivered) : Accounts w (h ++ []) t where
  account := by
    intro b' beacon' entry' hw' he'
    rw [List.append_nil]
    simp only [hb, State.credited, State.modifyBeacon, List.getElem?_modify] at he'
    by_cases hbb : b = b'
    · subst hbb
      rw [hw] at hw'
      cases hw'
      rw [he] at he'
      simp only [if_true, Option.map_eq_map, Option.map_some, Option.some.injEq] at he'
      rw [← he']
      exact (ha.account b beacon entry hw he).credited hd rfl hcharge hdel
    · simp only [hbb, if_false, Option.map_eq_map, Option.map_id'] at he'
      exact (ha.account b' beacon' entry' hw' he').other hd (List.key_ne_of_nodup w.checked.beaconIds hw hw' hbb)
  accepted := by
    intro delivery hdelivery
    rw [hd] at hdelivery
    rcases List.mem_append.1 hdelivery with hm | hm
    · exact ha.accepted delivery hm
    · rw [List.mem_singleton.1 hm]
      exact ⟨beacon, List.mem_of_getElem? hw, rfl, haccept.symm⟩

theorem change {p q : Stage × State} (ha : Accounts w h p.2) (hc : Change w p n q) : Accounts w (h ++ n) q.2 := by
  cases hc with
  | begin | expired | linkEnabled | valveEnabled | clearMemory | schedule | delivered | move | turn | pickup
  | write | acted | skip | finish | expire | deliver | refuse | take | emit | deposit =>
    exact ha.frame rfl rfl (by simp)
  | deliverHere hcell hcargo hw he haccept hcharge hdel => exact ha.credited hw he haccept hcharge hdel rfl rfl
  | route hd hh hw he haccept hcharge hdel => exact ha.credited hw he haccept hcharge hdel rfl rfl
  | @drain s b beacon entry charge drained hw hphase he hcharge hdrained =>
    refine ⟨fun b' beacon' entry' hw' he' => ?_, ha.accepted⟩
    simp only [State.modifyBeacon, List.getElem?_modify] at he'
    by_cases hbb : b = b'
    · subst hbb
      rw [hw] at hw'
      cases hw'
      rw [he] at he'
      simp only [if_true, Option.map_eq_map, Option.map_some, Option.some.injEq] at he'
      rw [← he']
      exact (ha.account b beacon entry hw he).drained rfl hcharge hdrained
    · simp only [hbb, if_false, Option.map_eq_map, Option.map_id'] at he'
      exact (ha.account b' beacon' entry' hw' he').frame rfl (by simp [Ne.symm hbb])

end Accounts

end Valhalla.Witness
