import Std.Data.ExtTreeSet
import Mathlib.Logic.Relation
import Mathlib.Data.List.Basic

/-!
# Closures by a stack

Everything that can be reached from some items is collected with a stack of the items whose successors were not looked at
yet. An item goes on the stack once, so that as many turns as there are items at all suffice (`contains_explore`).
-/

namespace Closure
variable {α : Type} {cmp : α → α → Ordering} [Std.TransCmp cmp]

structure Seen (α : Type) (cmp : α → α → Ordering) [Std.TransCmp cmp] where
  seen : Std.ExtTreeSet α cmp := ∅
  stack : List α := []

namespace Seen

def push (s : Seen α cmp) (a : α) : Seen α cmp := if s.seen.contains a then s else ⟨s.seen.insert a, a :: s.stack⟩

def pushAll (s : Seen α cmp) (items : List α) : Seen α cmp := items.foldl push s

/-- The turns of the loop, each of which takes one item off the stack. -/
def explore (next : α → List α) : Nat → Seen α cmp → Std.ExtTreeSet α cmp
  | 0, s => s.seen
  | n + 1, s =>
    match s.stack with
    | [] => s.seen
    | a :: stack => explore next n (pushAll { s with stack } (next a))

variable {s : Seen α cmp} {a : α} {items : List α}

theorem mem_push {b : α} (h : b ∈ (s.push a).stack) : b ∈ s.stack ∨ b = a := by
  unfold push at h
  split at h
  · exact .inl h
  · rcases List.mem_cons.1 h with rfl | h
    · exact .inr rfl
    · exact .inl h

theorem push_stack {b : α} (h : b ∈ s.stack) : b ∈ (s.push a).stack := by
  unfold push
  split
  · exact h
  · exact List.mem_cons_of_mem a h

theorem pushAll_cons : s.pushAll (a :: items) = (s.push a).pushAll items := rfl

theorem mem_pushAll {b : α} (h : b ∈ (s.pushAll items).stack) : b ∈ s.stack ∨ b ∈ items := by
  induction items generalizing s with
  | nil => exact .inl h
  | cons a items ih =>
    rw [pushAll_cons] at h
    rcases ih h with h | h
    · rcases mem_push h with h | rfl
      · exact .inl h
      · exact .inr List.mem_cons_self
    · exact .inr (List.mem_cons_of_mem a h)

theorem pushAll_stack {b : α} (h : b ∈ s.stack) : b ∈ (s.pushAll items).stack := by
  induction items generalizing s with
  | nil => exact h
  | cons a items ih => exact ih (push_stack h)

variable [Std.LawfulEqCmp cmp]

theorem contains_push {b : α} : (s.push a).seen.contains b = true ↔ s.seen.contains b = true ∨ b = a := by
  unfold push
  by_cases ha : s.seen.contains a = true
  · rw [if_pos ha]
    constructor
    · exact Or.inl
    · rintro (hb | rfl)
      · exact hb
      · exact ha
  · rw [if_neg ha, Std.ExtTreeSet.contains_insert]
    simp only [Bool.or_eq_true, beq_iff_eq, Std.LawfulEqCmp.compare_eq_iff_eq]
    constructor
    · rintro (rfl | hb)
      · exact .inr rfl
      · exact .inl hb
    · rintro (hb | rfl)
      · exact .inr hb
      · exact .inl rfl

/-- The items of `domain` that were not seen. -/
def unseen (domain : List α) (s : Seen α cmp) : List α := domain.filter fun a => !s.seen.contains a

theorem push_measure {domain : List α} (ha : a ∈ domain) :
    ((s.push a).unseen domain).length + (s.push a).stack.length ≤ (s.unseen domain).length + s.stack.length := by
  by_cases hseen : s.seen.contains a = true
  · have hpush : s.push a = s := by rw [push, if_pos hseen]
    exact Nat.le_of_eq (by rw [hpush])
  · have hsub : ((s.push a).unseen domain).length + 1 ≤ (s.unseen domain).length := by
      have hlen : ∀ l : List α, (l.filter fun b => !(s.push a).seen.contains b).length ≤ (l.filter fun b => !s.seen.contains b).length := by
        intro l
        rw [← List.countP_eq_length_filter, ← List.countP_eq_length_filter]
        refine List.countP_mono_left fun b _ hb => ?_
        by_contra hb'
        have hpush : (s.push a).seen.contains b = true := contains_push.2 (.inl (by simpa using hb'))
        simp [hpush] at hb
      obtain ⟨l, r, rfl⟩ := List.append_of_mem ha
      have hnew : (s.push a).seen.contains a = true := contains_push.2 (.inr rfl)
      have hl := hlen l
      have hr := hlen r
      simp only [unseen, List.filter_append, List.filter_cons, List.length_append, hnew, eq_false_of_ne_true hseen, Bool.not_true,
        Bool.not_false, if_true, Bool.false_eq_true, if_false, List.length_cons]
      omega
    have hstack : (s.push a).stack.length = s.stack.length + 1 := by
      rw [push, if_neg hseen, List.length_cons]
    omega

theorem contains_pushAll {b : α} : (s.pushAll items).seen.contains b = true ↔ s.seen.contains b = true ∨ b ∈ items := by
  induction items generalizing s with
  | nil => simp [pushAll]
  | cons a items ih => rw [pushAll_cons, ih, contains_push, List.mem_cons, or_assoc]

theorem pushAll_new {b : α} (h : (s.pushAll items).seen.contains b = true) (hb : s.seen.contains b = false) :
    b ∈ (s.pushAll items).stack := by
  induction items generalizing s with
  | nil =>
    rw [show s.seen.contains b = true from h] at hb
    cases hb
  | cons a items ih =>
    rw [pushAll_cons] at h ⊢
    by_cases hba : b = a
    · subst hba
      refine pushAll_stack ?_
      rw [push, hb, if_neg Bool.false_ne_true]
      exact List.mem_cons_self
    · refine ih h (eq_false_of_ne_true fun hpush => ?_)
      rcases contains_push.1 hpush with hpush | rfl
      · rw [hb] at hpush
        cases hpush
      · exact hba rfl

theorem pushAll_measure {domain : List α} (hitems : ∀ a ∈ items, a ∈ domain) :
    ((s.pushAll items).unseen domain).length + (s.pushAll items).stack.length ≤ (s.unseen domain).length + s.stack.length := by
  induction items generalizing s with
  | nil => exact Nat.le_refl _
  | cons a items ih =>
    rw [List.forall_mem_cons] at hitems
    exact Nat.le_trans (ih hitems.2) (push_measure hitems.1)

structure Explored (next : α → List α) (items : List α) (s : Seen α cmp) : Prop where
  first : ∀ a ∈ items, s.seen.contains a = true
  reached : ∀ a, s.seen.contains a = true → ∃ b ∈ items, Relation.ReflTransGen (fun a b => b ∈ next a) b a
  stack : ∀ a ∈ s.stack, s.seen.contains a = true
  closed : ∀ a, s.seen.contains a = true → a ∈ s.stack ∨ ∀ b ∈ next a, s.seen.contains b = true

variable {next : α → List α}

theorem Explored.start (next : α → List α) (items : List α) : Explored next items (pushAll ({} : Seen α cmp) items) where
  first a ha := contains_pushAll.2 (.inr ha)
  reached a ha := by
    rcases contains_pushAll.1 ha with ha | ha
    · simp at ha
    · exact ⟨a, ha, .refl⟩
  stack a ha := by
    rcases mem_pushAll ha with ha | ha
    · cases ha
    · exact contains_pushAll.2 (.inr ha)
  closed a ha := .inl (pushAll_new ha (by simp))

theorem Explored.turn {stack : List α} (h : Explored next items s) (hstack : s.stack = a :: stack) :
    Explored next items (pushAll { s with stack } (next a)) where
  first b hb := contains_pushAll.2 (.inl (h.first b hb))
  reached b hb := by
    rcases contains_pushAll.1 hb with hb | hb
    · exact h.reached b hb
    · obtain ⟨c, hc, hca⟩ := h.reached a (h.stack a (hstack ▸ List.mem_cons_self))
      exact ⟨c, hc, hca.tail hb⟩
  stack b hb := by
    rcases mem_pushAll hb with hb | hb
    · exact contains_pushAll.2 (.inl (h.stack b (hstack ▸ List.mem_cons_of_mem a hb)))
    · exact contains_pushAll.2 (.inr hb)
  closed b hb := by
    by_cases hold : s.seen.contains b = true
    · rcases h.closed b hold with hb' | hb'
      · rw [hstack] at hb'
        rcases List.mem_cons.1 hb' with rfl | hb'
        · exact .inr fun c hc => contains_pushAll.2 (.inr hc)
        · exact .inl (pushAll_stack hb')
      · exact .inr fun c hc => contains_pushAll.2 (.inl (hb' c hc))
    · exact .inl (pushAll_new hb (eq_false_of_ne_true hold))

theorem Explored.explore {domain : List α} (hnext : ∀ a, ∀ b ∈ next a, b ∈ domain) {n : Nat} (h : Explored next items s)
    (hn : (s.unseen domain).length + s.stack.length ≤ n) :
    (∀ a ∈ items, (s.explore next n).contains a = true) ∧
      (∀ a, (s.explore next n).contains a = true → ∃ b ∈ items, Relation.ReflTransGen (fun a b => b ∈ next a) b a) ∧
      ∀ a, (s.explore next n).contains a = true → ∀ b ∈ next a, (s.explore next n).contains b = true := by
  have hdone : s.stack = [] → ∀ a, s.seen.contains a = true → ∀ b ∈ next a, s.seen.contains b = true := by
    intro hnil a ha
    rcases h.closed a ha with hstack | hclosed
    · rw [hnil] at hstack
      cases hstack
    · exact hclosed
  induction n generalizing s with
  | zero => exact ⟨h.first, h.reached, hdone (List.length_eq_zero_iff.1 (by omega))⟩
  | succ n ih =>
    rw [Seen.explore]
    cases hstack : s.stack with
    | nil => exact ⟨h.first, h.reached, hdone hstack⟩
    | cons a stack =>
      have hturn := h.turn hstack
      refine ih hturn ?_ fun hnil b hb => ?_
      · have hmeasure := pushAll_measure (s := { s with stack }) (hnext a)
        have hsame : ({ s with stack } : Seen α cmp).unseen domain = s.unseen domain := rfl
        rw [hsame] at hmeasure
        rw [hstack, List.length_cons] at hn
        simp only at hmeasure ⊢
        omega
      · rcases hturn.closed b hb with hb | hb
        · rw [hnil] at hb
          cases hb
        · exact hb

/-- With a turn for every item that there is, the loop finds what can be reached. -/
theorem contains_explore (domain : List α) (hitems : ∀ a ∈ items, a ∈ domain) (hnext : ∀ a, ∀ b ∈ next a, b ∈ domain)
    {n : Nat} (hn : domain.length ≤ n) : ((pushAll ({} : Seen α cmp) items).explore next n).contains a = true ↔
      ∃ b ∈ items, Relation.ReflTransGen (fun a b => b ∈ next a) b a := by
  have hstart := pushAll_measure (s := ({} : Seen α cmp)) hitems
  have hempty : (({} : Seen α cmp).unseen domain).length ≤ domain.length := List.length_filter_le _ _
  obtain ⟨hfirst, hreached, hclosed⟩ := (Explored.start next items).explore hnext (n := n) (by
    simp only [List.length_nil] at hstart
    omega)
  constructor
  · exact hreached a
  · rintro ⟨b, hb, hpath⟩
    induction hpath with
    | refl => exact hfirst b hb
    | tail _ hc ih => exact hclosed _ ih _ hc

end Seen
end Closure
