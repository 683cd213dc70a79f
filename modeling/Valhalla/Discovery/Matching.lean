import Valhalla.Discovery.Query
import Mathlib.Data.List.Infix

/-!
# What matching finds and what it costs

Whatever the budget, looking for the terms of a query in a text costs the same number of steps and finds the same: whether
each term, without the case of its ASCII letters, is a stretch of the text without the case of its own.
-/

namespace Valhalla.Discovery
open Fallible Check
open Social (toAsciiLowercase)

/-! ### Budgets add up -/

namespace Budget

instance : Add Budget := ⟨fun a b => ⟨a.documents + b.documents, a.bytes + b.bytes, a.steps + b.steps⟩⟩

instance : Zero Budget := ⟨⟨0, 0, 0⟩⟩

@[simp] theorem add_documents (a b : Budget) : (a + b).documents = a.documents + b.documents := rfl
@[simp] theorem add_bytes (a b : Budget) : (a + b).bytes = a.bytes + b.bytes := rfl
@[simp] theorem add_steps (a b : Budget) : (a + b).steps = a.steps + b.steps := rfl
@[simp] theorem zero_documents : (0 : Budget).documents = 0 := rfl
@[simp] theorem zero_bytes : (0 : Budget).bytes = 0 := rfl
@[simp] theorem zero_steps : (0 : Budget).steps = 0 := rfl

instance : AddMonoid Budget where
  add_assoc a b c := by ext <;> simp [Nat.add_assoc]
  zero_add a := by ext <;> simp
  add_zero a := by ext <;> simp
  nsmul := nsmulRec

/-- At least as large in each component. -/
structure AtMost (a b : Budget) : Prop where
  documents : a.documents ≤ b.documents
  bytes : a.bytes ≤ b.bytes
  steps : a.steps ≤ b.steps

theorem fits_iff {a b : Budget} : Costs.Fits a b ↔ a.AtMost b := by
  constructor
  · rintro ⟨c, rfl⟩
    exact ⟨Nat.le_add_right _ _, Nat.le_add_right _ _, Nat.le_add_right _ _⟩
  · rintro ⟨hdocuments, hbytes, hsteps⟩
    refine ⟨⟨b.documents - a.documents, b.bytes - a.bytes, b.steps - a.steps⟩, ?_⟩
    ext
    · exact (Nat.add_sub_cancel' hdocuments).symm
    · exact (Nat.add_sub_cancel' hbytes).symm
    · exact (Nat.add_sub_cancel' hsteps).symm

theorem costs_chargeSteps (n : Nat) : Costs (chargeSteps n) ⟨0, 0, n⟩ () where
  paid c := by
    have hless : ¬ ((⟨0, 0, n⟩ : Budget) + c).steps < n := by simp
    rw [chargeSteps, exec_of, if_neg hless]
    refine congrArg (Except.ok (), ·) (Budget.ext ?_ ?_ ?_) <;> simp
  short b h := by
    have hless : b.steps < n := by
      refine not_le.1 fun hle => h (fits_iff.2 ⟨Nat.zero_le _, Nat.zero_le _, hle⟩)
    refine ⟨.budget, b, ?_, 0, (zero_add b).symm⟩
    rw [chargeSteps, exec_of, if_pos hless]

theorem costs_document (bytes metadata : Nat) : Costs (document bytes metadata) ⟨1, bytes, metadata⟩ () where
  paid c := by
    have hless : ¬ (((⟨1, bytes, metadata⟩ : Budget) + c).documents = 0 ∨ ((⟨1, bytes, metadata⟩ : Budget) + c).bytes < bytes ∨
        ((⟨1, bytes, metadata⟩ : Budget) + c).steps < metadata) := by
      simp
    rw [document, exec_of, if_neg hless]
    refine congrArg (Except.ok (), ·) (Budget.ext ?_ ?_ ?_) <;> simp
  short b h := by
    have hless : b.documents = 0 ∨ b.bytes < bytes ∨ b.steps < metadata := by
      by_contra hnot
      rw [not_or, not_or, not_lt, not_lt] at hnot
      exact h (fits_iff.2 ⟨Nat.one_le_iff_ne_zero.2 hnot.1, hnot.2.1, hnot.2.2⟩)
    refine ⟨.budget, b, ?_, 0, (zero_add b).symm⟩
    rw [document, exec_of, if_pos hless]

end Budget

/-! ### Terms -/

/-- A text or a term without the case of its letters. -/
def caseless (l : List UInt8) : List UInt8 := l.map toAsciiLowercase

def occurs (text term : List UInt8) : Bool := decide (caseless term <:+: caseless text)

namespace Query

theorem ne_nil_of_parseTerms {l : List UInt8} {terms found : List (List UInt8)} (h : parseTerms l terms = .ok found)
    (hterms : [] ∉ terms) : [] ∉ found := by
  fun_induction parseTerms l terms with
  | case1 l terms hspace =>
    cases h
    exact hterms
  | case2 => cases h
  | case3 => cases h
  | case4 => cases h
  | case5 => cases h
  | case6 l terms b rest hspace quoted term behind hterm hend hbound hquote ih =>
    refine ih h fun hmem => ?_
    rcases List.mem_append.1 hmem with hmem | hmem
    · exact hterms hmem
    · exact hend (.inr (List.mem_singleton.1 hmem).symm)

theorem costs_windowEquals {window term : List UInt8} (h : window.length = term.length) :
    ∃ n, Costs (windowEquals window term) n (decide (caseless window = caseless term)) := by
  induction window generalizing term with
  | nil =>
    obtain rfl : term = [] := List.eq_nil_of_length_eq_zero h.symm
    exact ⟨0, .pure true⟩
  | cons a window ih =>
    cases term with
    | nil => cases h
    | cons b term =>
      obtain ⟨n, hn⟩ := ih (Nat.succ.inj h)
      have hcons : decide (caseless (a :: window) = caseless (b :: term)) =
          (eqIgnoreAsciiCase a b && decide (caseless window = caseless term)) := by
        rw [Bool.eq_iff_iff, Bool.and_eq_true, decide_eq_true_eq, decide_eq_true_eq, eqIgnoreAsciiCase, beq_iff_eq]
        exact List.cons_eq_cons
      rw [hcons]
      cases hab : eqIgnoreAsciiCase a b with
      | true => exact ⟨_, (Budget.costs_chargeSteps 1).bind (hn.congr (if_pos hab) rfl)⟩
      | false => exact ⟨_, (Budget.costs_chargeSteps 1).bind ((Costs.pure false).congr (if_neg (Bool.eq_false_iff.1 hab)) rfl)⟩

theorem occurs_cons (b : UInt8) (l term : List UInt8) :
    occurs (b :: l) term = (decide (caseless ((b :: l).take term.length) = caseless term) || occurs l term) := by
  rw [Bool.eq_iff_iff, Bool.or_eq_true, occurs, occurs, decide_eq_true_eq, decide_eq_true_eq, decide_eq_true_eq]
  rw [show caseless (b :: l) = toAsciiLowercase b :: caseless l from rfl, List.infix_cons_iff, List.prefix_iff_eq_take]
  refine or_congr_left (Eq.comm.trans (Eq.congr_left ?_))
  rw [caseless, caseless, caseless, List.length_map, List.map_take, List.map_cons]

theorem occurs_of_short {text term : List UInt8} (h : text.length < term.length) : occurs text term = false := by
  rw [occurs, decide_eq_false_iff_not]
  intro hinfix
  have hle := hinfix.length_le
  rw [caseless, caseless, List.length_map, List.length_map] at hle
  omega

theorem costs_findTerm (term : List UInt8) (hterm : term ≠ []) (text : List UInt8) :
    ∃ n, Costs (findTerm term (windows term.length text)) n (occurs text term) := by
  induction text with
  | nil =>
    have hshort : ([] : List UInt8).length < term.length := List.length_pos_iff.2 hterm
    rw [occurs_of_short hshort]
    exact ⟨0, .pure false⟩
  | cons b l ih =>
    unfold windows
    by_cases hle : term.length ≤ (b :: l).length
    · obtain ⟨n, hn⟩ := ih
      obtain ⟨k, hk⟩ := costs_windowEquals (List.length_take_of_le hle)
      rw [if_pos hle, occurs_cons]
      cases hsame : decide (caseless ((b :: l).take term.length) = caseless term) with
      | true =>
        rw [hsame] at hk
        exact ⟨_, hk.bind ((Costs.pure true).congr (if_pos rfl) rfl)⟩
      | false =>
        rw [hsame] at hk
        exact ⟨_, hk.bind (hn.congr (if_neg Bool.false_ne_true) rfl)⟩
    · rw [if_neg hle, occurs_of_short (not_le.1 hle)]
      exact ⟨0, .pure false⟩

theorem costs_matchTerms (text : List UInt8) {terms : List (List UInt8)} (hterms : [] ∉ terms) :
    ∃ n, Costs (matchTerms text terms) n (terms.all (occurs text)) := by
  induction terms with
  | nil => exact ⟨0, .pure true⟩
  | cons term terms ih =>
    rw [List.mem_cons, not_or] at hterms
    obtain ⟨n, hn⟩ := ih hterms.2
    obtain ⟨k, hk⟩ := costs_findTerm term (Ne.symm hterms.1) text
    rw [List.all_cons]
    unfold matchTerms
    by_cases hshort : text.length < term.length
    · rw [if_pos hshort, occurs_of_short hshort]
      exact ⟨0, .pure false⟩
    · rw [if_neg hshort]
      cases hfound : occurs text term with
      | true =>
        rw [hfound] at hk
        exact ⟨_, hk.bind (hn.congr (if_pos rfl) rfl)⟩
      | false =>
        rw [hfound] at hk
        exact ⟨_, hk.bind ((Costs.pure false).congr (if_neg Bool.false_ne_true) rfl)⟩

theorem costs_matchText (query : Query) (text : String) : ∃ n, Costs (query.matchText text) n (query.terms.all (occurs (utf8 text))) :=
  costs_matchTerms _ (ne_nil_of_parseTerms query.parsed List.not_mem_nil)

end Query

end Valhalla.Discovery
