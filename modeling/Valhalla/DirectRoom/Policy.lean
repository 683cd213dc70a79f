import Valhalla.Lib.Trace
import Valhalla.DirectRoom.Prepared

/-!
# Steps of a policy state

What each operation on a `PolicyState` can do (`Observes`, `Commits`), and the runs made of them. The tokens
committed in a run were prepared from the policy states that `mint` allows and may be stale.
-/

namespace Valhalla.DirectRoom
open Fallible FixedWidth Check

variable {crypto : Crypto}

namespace PolicyState
variable {s s' : PolicyState crypto}

/-! ### Observations -/

/-- What an observation of `update` does to the state, with its result. -/
inductive Observes (s : PolicyState crypto) (update : VerifiedPolicy crypto) : Except Error Unit → PolicyState crypto → Prop
  | refused (e : Error) : e ≠ .fork → e ≠ .capacity → Observes s update (.error e) s
  | conflict : Observes s update (.error .fork) { s with forked := true }
  | overflow : Observes s update (.error .capacity) { s with observationOverflow := true }
  | known : s.observed[update.claims.revision]? = some update.id → Observes s update (.ok ()) s
  | remembered : s.head.revision < update.claims.revision → s.observed[update.claims.revision]? = none →
      Observes s update (.ok ()) { s with observed := s.observed.insert update.claims.revision update.id }

theorem checkOwner_error {update : VerifiedPolicy crypto} {e : Error} (h : s.checkOwner update = .error e) :
    e = .scope ∨ e = .owner := by
  simp only [checkOwner, bind_eq_error, require_eq_error, require_eq_ok] at h
  rcases h with ⟨-, rfl⟩ | ⟨-, -, -, rfl⟩
  · exact .inl rfl
  · exact .inr rfl

theorem observes (s : PolicyState crypto) (update : VerifiedPolicy crypto) :
    s.Observes update (exec (observeAfterPersist update) s).1 (exec (observeAfterPersist update) s).2 := by
  rw [observeAfterPersist, exec_examine_bind]
  cases howner : s.checkOwner update with
  | error e =>
    rcases checkOwner_error howner with rfl | rfl
    · exact .refused _ (by decide) (by decide)
    · exact .refused _ (by decide) (by decide)
  | ok _ =>
    rw [exec_bind_ok (exec_view id)]
    simp only [id]
    split
    · exact .refused _ (by decide) (by decide)
    · rename_i hlt
      split
      · split
        · exact .refused _ (by decide) (by decide)
        · exact .conflict
      · rename_i hne
        have hgt : s.head.revision < update.claims.revision :=
          UInt64.lt_of_le_of_ne (UInt64.not_lt.1 hlt) (Ne.symm hne)
        split
        · rename_i observed hobserved
          split
          · exact .conflict
          · rename_i hid
            exact .known (by rw [hobserved, Decidable.not_not.1 hid])
        · rename_i hobserved
          split
          · exact .overflow
          · exact .remembered hgt hobserved

theorem compareRetained_eq_ok {retained : VerifiedPolicy crypto} {offered : SignedPolicy crypto} :
    s.compareRetained retained offered ≠ .ok () := by
  simp [compareRetained]

theorem exec_observeRetainedAfterPersist {retained : VerifiedPolicy crypto} {offered : SignedPolicy crypto} :
    ∃ e, exec (observeRetainedAfterPersist retained offered) s =
      (.error e, if e = .fork then { s with forked := true } else s) := by
  cases hr : s.compareRetained retained offered with
  | ok u => exact absurd hr compareRetained_eq_ok
  | error e =>
    refine ⟨e, ?_⟩
    rw [observeRetainedAfterPersist, exec_bind_ok (exec_view _)]
    simp only [hr, Except.error.injEq]
    split
    · rfl
    · rfl

/-! ### Commits -/

def committed (s : PolicyState crypto) (p : PreparedPolicy crypto) : PolicyState crypto :=
  { s with
    sealedHeads := install p.proofs s.sealedHeads
    current := some p.update
    observed := s.observed.erase p.update.claims.revision }

structure Commits (s : PolicyState crypto) (p : PreparedPolicy crypto) : Prop where
  unforked : s.forked = false
  room : p.room = s.room
  base : p.base = s.head
  ready : p.isReady = true
  agrees : s.agrees p.update = true

instance {p : PreparedPolicy crypto} : Decidable (s.Commits p) :=
  decidable_of_iff (s.forked = false ∧ p.room = s.room ∧ p.base = s.head ∧ p.isReady = true ∧ s.agrees p.update = true)
    ⟨fun ⟨a, b, c, d, e⟩ => ⟨a, b, c, d, e⟩, fun ⟨a, b, c, d, e⟩ => ⟨a, b, c, d, e⟩⟩

theorem commit_of_commits {p : PreparedPolicy crypto} (h : s.Commits p) :
    exec (commitAfterPersist p) s = (.ok p.closed, s.committed p) := by
  simp only [commitAfterPersist, exec_examine_bind, require, h.unforked, h.room, h.base, h.ready, h.agrees]
  simp
  rfl

theorem commit_of_not_commits {p : PreparedPolicy crypto} (h : ¬ s.Commits p) :
    ∃ e, exec (commitAfterPersist p) s = (.error e, s) := by
  simp only [commitAfterPersist, exec_examine_bind, require]
  by_cases hforked : s.forked = true
  · exact ⟨.fork, by simp [hforked]⟩
  rw [Bool.not_eq_true] at hforked
  by_cases hbase : p.room = s.room ∧ p.base = s.head
  · by_cases hready : p.isReady = true
    · by_cases hagrees : s.agrees p.update = true
      · exact absurd ⟨hforked, hbase.1, hbase.2, hready, hagrees⟩ h
      · exact ⟨.fork, by simp [hforked, hbase, hready, hagrees]⟩
    · exact ⟨.gap, by simp [hforked, hbase, hready]⟩
  · exact ⟨.staleBase, by simp [hforked, hbase]⟩

theorem exec_commitAfterPersist (p : PreparedPolicy crypto) :
    (s.Commits p ∧ exec (commitAfterPersist p) s = (.ok p.closed, s.committed p)) ∨
      ∃ e, exec (commitAfterPersist p) s = (.error e, s) := by
  by_cases h : s.Commits p
  · exact .inl ⟨h, commit_of_commits h⟩
  · exact .inr (commit_of_not_commits h)

@[simp] theorem head_committed (p : PreparedPolicy crypto) :
    (s.committed p).head = ⟨p.update.claims.revision, p.update.id⟩ := rfl

@[simp] theorem room_committed (p : PreparedPolicy crypto) : (s.committed p).room = s.room := rfl

end PolicyState

/-! ### Runs -/

inductive PolicyNote (crypto : Crypto)
  | observed (update : VerifiedPolicy crypto) (result : Except Error Unit)
  | retained (result : Except Error Unit)
  | commit (before : PolicyState crypto) (pushed : List (VerifiedEvent crypto)) (prepared : PreparedPolicy crypto)
      (result : Except Error ClosedPolicy) (after : PolicyState crypto)

/-- An operation on a policy state; the tokens come from the states that `mint` allows. -/
inductive PolicyStep (mint : PolicyState crypto → Prop) :
    PolicyState crypto → List (PolicyNote crypto) → PolicyState crypto → Prop
  | observe {s s' : PolicyState crypto} {update : VerifiedPolicy crypto} {result : Except Error Unit} :
      exec (PolicyState.observeAfterPersist update) s = (result, s') → PolicyStep mint s [.observed update result] s'
  | observeRetained {s s' : PolicyState crypto} {retained : VerifiedPolicy crypto} {offered : SignedPolicy crypto}
      {result : Except Error Unit} :
      exec (PolicyState.observeRetainedAfterPersist retained offered) s = (result, s') →
        PolicyStep mint s [.retained result] s'
  | commit {s s' origin : PolicyState crypto} {pushed : List (VerifiedEvent crypto)} {prepared : PreparedPolicy crypto}
      {result : Except Error ClosedPolicy} :
      mint origin → Prepares origin pushed prepared →
        exec (PolicyState.commitAfterPersist prepared) s = (result, s') →
          PolicyStep mint s [.commit s pushed prepared result s'] s'

end Valhalla.DirectRoom
