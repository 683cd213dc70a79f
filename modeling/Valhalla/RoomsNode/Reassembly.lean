import Mathlib.Data.List.Sort
import Valhalla.RoomsNode.Emission

/-!
# Reassembly of proposal streams

What a stream holds is read off its state as the set of messages it took in since it was admitted. A message is refused
where it contradicts one of them, and the stream completes exactly when they are one whole emission. From that, an
emission completes with its last missing message in every order, and nothing else completes.
-/

namespace Valhalla.RoomsNode
open FixedWidth

section
variable {Signature : Type}

/-! ### What a state holds -/

/-- The state has taken in the messages `w`, and nothing else. -/
structure StreamState.Holds (state : StreamState Signature) (w : List (Slot Signature)) : Prop where
  init : ∀ header, state.init = some header ↔ (0, .data (.init header)) ∈ w
  data : ∀ k bytes, state.data[k]? = some bytes ↔ (k, .data (.data bytes)) ∈ w
  fin : ∀ k signed, (state.finSequence = some k ∧ state.fin = some signed) ↔ (k, .data (.fin signed)) ∈ w
  both : state.finSequence.isSome = state.fin.isSome
  ends : ∀ k, state.endSequence = some k ↔ (k, .fin) ∈ w
  shape : ∀ m ∈ w, shapeOk m.1 m.2 = true
  dataLen : state.dataLen = Weights.total (fun entry => entry.2.length) state.data.toList
  limit : state.dataLen ≤ maxValueBytes

theorem holds_default : (StreamState.default : StreamState Signature).Holds [] := by
  refine ⟨?_, ?_, ?_, rfl, ?_, ?_, rfl, Nat.zero_le _⟩ <;> simp [StreamState.default]

/-! ### Accepting a message -/

theorem pred_eq {n : UInt64} (h : 1 ≤ n.toNat) : ∃ m, pred n = some m ∧ m.toNat + 1 = n.toNat := by
  obtain ⟨m, hm⟩ : ∃ m, checkedSub n 1 = some m := by
    exact ⟨_, if_pos h⟩
  exact ⟨m, hm, checkedSub_eq_some.1 hm⟩

theorem orElse_some (a b : Bool) : orElse (some a) (some b) = some (a || b) := by cases a <;> rfl

theorem someAnd_eq {α : Type} {o : Option α} {p : α → Option Bool} {q : α → Prop}
    (h : ∀ a, o = some a → ∃ b, p a = some b ∧ (b = true ↔ q a)) :
    ∃ b, someAnd o p = some b ∧ (b = true ↔ ∃ a, o = some a ∧ q a) := by
  cases o with
  | none => exact ⟨false, rfl, by simp⟩
  | some a =>
    obtain ⟨b, hb, hq⟩ := h a rfl
    exact ⟨b, hb, by simp [hq]⟩

namespace StreamState
variable {state : StreamState Signature} {w : List (Slot Signature)} {seq : UInt64}

theorem Holds.seen (h : state.Holds w) (seen : Option Nat) : { state with firstSeen := seen }.Holds w :=
  ⟨h.init, h.data, h.fin, h.both, h.ends, h.shape, h.dataLen, h.limit⟩

theorem Holds.end_le (h : state.Holds w) {k : UInt64} (hk : state.endSequence = some k) :
    3 ≤ k.toNat ∧ k.toNat ≤ maxProposalChunks + 2 := by
  have hshape := h.shape _ ((h.ends k).1 hk)
  simpa [shapeOk] using hshape

theorem Holds.beforeEnd (h : state.Holds w) (q : UInt64 → Prop) [DecidablePred q] :
    ∃ b, (someAnd state.endSequence fun last => (pred last).map fun n => decide (q n)) = some b ∧
      (b = true ↔ ∃ last n, state.endSequence = some last ∧ n.toNat + 1 = last.toNat ∧ q n) := by
  obtain ⟨b, hb, hq⟩ := someAnd_eq (o := state.endSequence) (p := fun last => (pred last).map fun n => decide (q n))
    (q := fun last => ∃ n : UInt64, n.toNat + 1 = last.toNat ∧ q n) fun last hlast => by
      have hend := h.end_le hlast
      obtain ⟨n, hn, hsucc⟩ := pred_eq (n := last) (by omega)
      refine ⟨decide (q n), by rw [hn]; rfl, ?_⟩
      rw [decide_eq_true_eq]
      constructor
      · exact fun hq => ⟨n, hsucc, hq⟩
      · rintro ⟨n', hn', hq⟩
        obtain rfl : n = n' := UInt64.toNat_inj.1 (by omega)
        exact hq
  refine ⟨b, hb, hq.trans ?_⟩
  constructor
  · rintro ⟨last, hlast, n, hn, hq⟩
    exact ⟨last, n, hlast, hn, hq⟩
  · rintro ⟨last, n, hlast, hn, hq⟩
    exact ⟨last, hlast, n, hn, hq⟩

/-- What makes a chunk come too late. -/
def LateData (state : StreamState Signature) (seq : UInt64) : Prop :=
  (∃ k, state.finSequence = some k ∧ k ≤ seq) ∨ ∃ last n, state.endSequence = some last ∧ n.toNat + 1 = last.toNat ∧ n ≤ seq

theorem Holds.acceptData_eq (h : state.Holds w) (seq : UInt64) (bytes : List UInt8) : ∃ refused : Bool, (refused = true ↔ state.LateData seq) ∧
    state.acceptData seq bytes = if refused then some none else match state.data[seq]? with
      | some old => some (if old = bytes then some state else none)
      | none =>
        if state.data.size ≥ maxProposalChunks ∨ state.dataLen + bytes.length > maxValueBytes then some none
        else some (some { state with dataLen := state.dataLen + bytes.length, data := state.data.insert seq bytes }) := by
  obtain ⟨a, ha, hfin⟩ := someAnd_eq (o := state.finSequence) (p := fun k => some (decide (k ≤ seq))) (q := (· ≤ seq))
    fun k _ => ⟨_, rfl, decide_eq_true_iff⟩
  obtain ⟨b, hb, hend⟩ := h.beforeEnd (· ≤ seq)
  refine ⟨a || b, ?_, ?_⟩
  · rw [Bool.or_eq_true, hfin, hend]
    rfl
  · rw [acceptData, ha, hb, orElse_some]
    cases a || b with
    | true => rfl
    | false =>
      cases state.data[seq]? with
      | some old => rfl
      | none =>
        show (if _ then pure none else pure (some _)) = _
        split <;> rfl

def WrongFin (state : StreamState Signature) (seq : UInt64) (signed : ProposalFin Signature) : Prop :=
  (∃ k, state.finSequence = some k ∧ k ≠ seq) ∨
    (∃ last n, state.endSequence = some last ∧ n.toNat + 1 = last.toNat ∧ seq ≠ n) ∨
    (∃ old, state.fin = some old ∧ old ≠ signed) ∨ ∃ k bytes, state.data[k]? = some bytes ∧ seq ≤ k

theorem any_ne {α : Type} [DecidableEq α] {o : Option α} {a : α} :
    o.any (fun b => decide (b ≠ a)) = true ↔ ∃ b, o = some b ∧ b ≠ a := by
  cases o <;> simp

theorem any_keys {m : Std.ExtTreeMap UInt64 (List UInt8)} {p : UInt64 → Bool} :
    (m.toList.any fun entry => p entry.1) = true ↔ ∃ (k : UInt64) (bytes : List UInt8), m[k]? = some bytes ∧ p k = true := by
  rw [List.any_eq_true]
  constructor
  · rintro ⟨⟨k, bytes⟩, hmem, hp⟩
    exact ⟨k, bytes, Std.ExtTreeMap.mem_toList_iff_getElem?_eq_some.1 hmem, hp⟩
  · rintro ⟨k, bytes, hk, hp⟩
    exact ⟨(k, bytes), Std.ExtTreeMap.mem_toList_iff_getElem?_eq_some.2 hk, hp⟩

theorem Holds.acceptFin_eq [DecidableEq Signature] (h : state.Holds w) (seq : UInt64) (signed : ProposalFin Signature) :
    ∃ refused : Bool, (refused = true ↔ state.WrongFin seq signed) ∧
      state.acceptFin seq signed = some (if refused then none else
        some { state with fin := some signed, finSequence := some seq }) := by
  obtain ⟨b, hb, hend⟩ := h.beforeEnd (seq ≠ ·)
  refine ⟨state.finSequence.any (fun k => decide (k ≠ seq)) || (b || (state.fin.any (fun old => decide (old ≠ signed)) ||
    state.data.toList.any fun entry => decide (seq ≤ entry.1))), ?_, ?_⟩
  · rw [Bool.or_eq_true, Bool.or_eq_true, Bool.or_eq_true, any_ne, hend, any_ne, any_keys (p := fun k => decide (seq ≤ k))]
    simp only [decide_eq_true_eq]
    rfl
  · rw [acceptFin, hb, orElse_some, orElse_some]
    split
    · rename_i hr
      show (if _ then pure none else pure (some _)) = _
      rw [if_pos hr]
      rfl
    · rename_i hr
      show (if _ then pure none else pure (some _)) = _
      rw [if_neg hr]
      rfl

def WrongEnd (state : StreamState Signature) (seq : UInt64) : Prop :=
  (∃ k, state.endSequence = some k ∧ k ≠ seq) ∨ (∃ k, state.finSequence = some k ∧ k.toNat + 1 ≠ seq.toNat) ∨
    ∃ (k : UInt64) (bytes : List UInt8), state.data[k]? = some bytes ∧ seq.toNat ≤ k.toNat + 1

theorem acceptEnd_eq (state : StreamState Signature) (hseq : 1 ≤ seq.toNat) : ∃ refused : Bool, (refused = true ↔ state.WrongEnd seq) ∧
    state.acceptEnd seq = some (if refused then none else some { state with endSequence := some seq }) := by
  obtain ⟨n, hn, hsucc⟩ := pred_eq hseq
  obtain ⟨b, hb, hfin⟩ := someAnd_eq (o := state.finSequence) (p := fun k => (pred seq).map fun last => decide (k ≠ last))
    (q := fun k => k.toNat + 1 ≠ seq.toNat) fun k _ => by
      refine ⟨decide (k ≠ n), by rw [hn]; rfl, ?_⟩
      rw [decide_eq_true_eq, ← hsucc, ne_eq, ne_eq, Nat.add_right_cancel_iff, UInt64.toNat_inj]
  have hkeys : (if state.data.isEmpty then some false
      else (pred seq).map fun last => state.data.toList.any fun entry => decide (last ≤ entry.1)) =
        some (state.data.toList.any fun entry => decide (n ≤ entry.1)) := by
    split
    · rename_i hempty
      rw [Std.ExtTreeMap.isEmpty_iff.1 hempty]
      rfl
    · rw [hn]
      rfl
  refine ⟨state.endSequence.any (fun k => decide (k ≠ seq)) || (b || state.data.toList.any fun entry =>
    decide (n ≤ entry.1)), ?_, ?_⟩
  · rw [Bool.or_eq_true, Bool.or_eq_true, any_ne, hfin, any_keys (p := fun k => decide (n ≤ k))]
    have hle : ∀ k : UInt64, n ≤ k ↔ seq.toNat ≤ k.toNat + 1 := fun k => by
      rw [UInt64.le_iff_toNat_le]
      omega
    simp only [decide_eq_true_eq, hle]
    rfl
  · rw [acceptEnd, hb, hkeys, orElse_some, orElse_some]
    split
    · rename_i hr
      show (if _ then pure none else pure (some _)) = _
      rw [if_pos hr]
      rfl
    · rename_i hr
      show (if _ then pure none else pure (some _)) = _
      rw [if_neg hr]
      rfl

/-! ### What accepting does -/

theorem Holds.takeInit (h : state.Holds w) {header : ProposalInit} (hs : shapeOk seq (.data (.init header) :
    StreamContent Signature) = true) (hold : ∀ old, state.init = some old → old = header) :
    { state with init := some header }.Holds (w ++ [(seq, StreamContent.data (.init header))]) := by
  have hseq : seq = 0 := by
    simp only [shapeOk, Bool.and_eq_true, decide_eq_true_eq] at hs
    exact hs.1
  refine ⟨fun other => ?_, ?_, ?_, h.both, ?_, ?_, h.dataLen, h.limit⟩
  · rw [List.mem_append, ← h.init]
    constructor
    · rintro ⟨⟩
      exact .inr (by simp [hseq])
    · rintro (hother | hother)
      · rw [hold other hother]
      · simp only [List.mem_singleton, Prod.mk.injEq, StreamContent.data.injEq, RoomPart.init.injEq] at hother
        rw [hother.2]
  · simpa using h.data
  · simpa using h.fin
  · simpa using h.ends
  · rw [List.forall_mem_append, List.forall_mem_singleton]
    exact ⟨h.shape, hs⟩

theorem Holds.again (h : state.Holds w) {c : StreamContent Signature} (hc : (seq, c) ∈ w) : state.Holds (w ++ [(seq, c)]) := by
  have hmem : ∀ m, m ∈ w ++ [(seq, c)] ↔ m ∈ w := by
    intro m
    rw [List.mem_append, List.mem_singleton]
    constructor
    · rintro (hm | rfl)
      · exact hm
      · exact hc
    · exact .inl
  refine ⟨?_, ?_, ?_, h.both, ?_, ?_, h.dataLen, h.limit⟩
  · simpa only [hmem] using h.init
  · simpa only [hmem] using h.data
  · simpa only [hmem] using h.fin
  · simpa only [hmem] using h.ends
  · simpa only [hmem] using h.shape

theorem Holds.takeData (h : state.Holds w) {bytes : List UInt8} (hs : shapeOk seq (.data (.data bytes) :
    StreamContent Signature) = true) (hnew : state.data[seq]? = none) (hfits : state.dataLen + bytes.length ≤ maxValueBytes) :
    { state with dataLen := state.dataLen + bytes.length, data := state.data.insert seq bytes }.Holds
      (w ++ [(seq, StreamContent.data (.data bytes))]) := by
  refine ⟨?_, fun k other => ?_, ?_, h.both, ?_, ?_, ?_, hfits⟩
  · simpa using h.init
  · rw [List.mem_append, ← h.data, Maps.getElem?_insert]
    by_cases hk : seq = k
    · subst hk
      simp [hnew, eq_comm]
    · rw [if_neg hk]
      simp [Ne.symm hk]
  · simpa using h.fin
  · simpa using h.ends
  · rw [List.forall_mem_append, List.forall_mem_singleton]
    exact ⟨h.shape, hs⟩
  · show state.dataLen + bytes.length = Weights.total _ (state.data.insert seq bytes).toList
    rw [Weights.total_perm (Maps.toList_insert_perm hnew), Weights.total_cons, h.dataLen, Nat.add_comm]

theorem Holds.takeFin (h : state.Holds w) {signed : ProposalFin Signature} (hs : shapeOk seq (.data (.fin signed)) = true)
    (hseq : ∀ k, state.finSequence = some k → k = seq) (hold : ∀ old, state.fin = some old → old = signed) :
    { state with fin := some signed, finSequence := some seq }.Holds (w ++ [(seq, StreamContent.data (.fin signed))]) := by
  refine ⟨?_, ?_, fun k other => ?_, rfl, ?_, ?_, h.dataLen, h.limit⟩
  · simpa using h.init
  · simpa using h.data
  · rw [List.mem_append, ← h.fin]
    constructor
    · rintro ⟨⟨⟩, ⟨⟩⟩
      exact .inr (by simp)
    · rintro (⟨hk, hother⟩ | hother)
      · rw [hseq k hk, hold other hother]
        exact ⟨rfl, rfl⟩
      · simp only [List.mem_singleton, Prod.mk.injEq, StreamContent.data.injEq, RoomPart.fin.injEq] at hother
        rw [hother.1, hother.2]
        exact ⟨rfl, rfl⟩
  · simpa using h.ends
  · rw [List.forall_mem_append, List.forall_mem_singleton]
    exact ⟨h.shape, hs⟩

theorem Holds.takeEnd (h : state.Holds w) (hs : shapeOk seq (.fin : StreamContent Signature) = true)
    (hseq : ∀ k, state.endSequence = some k → k = seq) :
    { state with endSequence := some seq }.Holds (w ++ [(seq, StreamContent.fin)]) := by
  refine ⟨?_, ?_, ?_, h.both, fun k => ?_, ?_, h.dataLen, h.limit⟩
  · simpa using h.init
  · simpa using h.data
  · simpa using h.fin
  · rw [List.mem_append, ← h.ends]
    constructor
    · rintro ⟨⟩
      exact .inr (by simp)
    · rintro (hk | hk)
      · rw [hseq k hk]
      · simp only [List.mem_singleton, Prod.mk.injEq, and_true] at hk
        rw [hk]
  · rw [List.forall_mem_append, List.forall_mem_singleton]
    exact ⟨h.shape, hs⟩

theorem Holds.accept [DecidableEq Signature] (h : state.Holds w) {c : StreamContent Signature} (hs : shapeOk seq c = true) :
    state.accept seq c = some none ∨ ∃ state', state.accept seq c = some (some state') ∧ state'.Holds (w ++ [(seq, c)]) := by
  match c, hs with
  | .data (.init header), hs =>
    show state.acceptInit header = some none ∨ ∃ state', state.acceptInit header = some (some state') ∧ _
    unfold acceptInit
    by_cases hany : state.init.any (fun old => decide (old ≠ header)) = true
    · exact .inl (if_pos hany)
    · refine .inr ⟨_, if_neg hany, h.takeInit hs fun old hold => ?_⟩
      exact Decidable.byContradiction fun hne => hany (any_ne.2 ⟨old, hold, hne⟩)
  | .data (.data bytes), hs =>
    show state.acceptData seq bytes = some none ∨ ∃ state', state.acceptData seq bytes = some (some state') ∧ _
    obtain ⟨refused, -, heq⟩ := h.acceptData_eq seq bytes
    rw [heq]
    cases refused with
    | true => exact .inl rfl
    | false =>
      cases hold : state.data[seq]? with
      | some old =>
        by_cases hsame : old = bytes
        · refine .inr ⟨state, by simp [hsame], h.again ((h.data seq bytes).1 ?_)⟩
          rw [hold, hsame]
        · exact .inl (by simp [hsame])
      | none =>
        by_cases hfull : state.data.size ≥ maxProposalChunks ∨ state.dataLen + bytes.length > maxValueBytes
        · exact .inl (by simp [hfull])
        · refine .inr ⟨_, by simp only [Bool.false_eq_true, if_false, if_neg hfull], h.takeData hs hold ?_⟩
          omega
  | .data (.fin signed), hs =>
    show state.acceptFin seq signed = some none ∨ ∃ state', state.acceptFin seq signed = some (some state') ∧ _
    obtain ⟨refused, hrefused, heq⟩ := h.acceptFin_eq seq signed
    rw [heq]
    cases refused with
    | true => exact .inl rfl
    | false =>
      have hnot : ¬ state.WrongFin seq signed := fun hwrong => Bool.noConfusion (hrefused.2 hwrong)
      refine .inr ⟨_, rfl, h.takeFin hs (fun k hk => ?_) fun old hold => ?_⟩
      · exact Decidable.byContradiction fun hne => hnot (.inl ⟨k, hk, hne⟩)
      · exact Decidable.byContradiction fun hne => hnot (.inr (.inr (.inl ⟨old, hold, hne⟩)))
  | .fin, hs =>
    show state.acceptEnd seq = some none ∨ ∃ state', state.acceptEnd seq = some (some state') ∧ _
    have hseq : 1 ≤ seq.toNat := by
      simp only [shapeOk, decide_eq_true_eq] at hs
      omega
    obtain ⟨refused, hrefused, heq⟩ := acceptEnd_eq state hseq
    rw [heq]
    cases refused with
    | true => exact .inl rfl
    | false =>
      have hnot : ¬ state.WrongEnd seq := fun hwrong => Bool.noConfusion (hrefused.2 hwrong)
      refine .inr ⟨_, rfl, h.takeEnd hs fun k hk => ?_⟩
      exact Decidable.byContradiction fun hne => hnot (.inl ⟨k, hk, hne⟩)

theorem Holds.accept_conflict [DecidableEq Signature] (h : state.Holds w) {c c' : StreamContent Signature} (hs : shapeOk seq c = true)
    (hmem : (seq, c') ∈ w) (hne : c' ≠ c) : state.accept seq c = some none := by
  have hs' := h.shape _ hmem
  match c, hs with
  | .data (.init header), hs =>
    simp only [shapeOk, Bool.and_eq_true, decide_eq_true_eq] at hs
    obtain ⟨rfl, -⟩ := hs
    rcases c' with (old | bytes | signed) | _
    · refine if_pos (any_ne.2 ⟨old, (h.init old).2 hmem, ?_⟩)
      rintro rfl
      exact hne rfl
    · simp [shapeOk] at hs'
    · simp [shapeOk] at hs'
    · simp [shapeOk] at hs'
  | .data (.data bytes), hs =>
    show state.acceptData seq bytes = some none
    simp only [shapeOk, Bool.and_eq_true, decide_eq_true_eq] at hs
    obtain ⟨refused, hrefused, heq⟩ := h.acceptData_eq seq bytes
    rw [heq]
    rcases c' with (header | old | signed) | _
    · simp only [shapeOk, Bool.and_eq_true, decide_eq_true_eq] at hs'
      obtain ⟨rfl, -⟩ := hs'
      exact absurd hs.1.1.1 (by decide)
    · cases refused with
      | true => rfl
      | false =>
        rw [(h.data seq old).2 hmem]
        have hold : old ≠ bytes := by
          rintro rfl
          exact hne rfl
        simp [hold]
    · rw [hrefused.2 (.inl ⟨seq, ((h.fin seq signed).2 hmem).1, UInt64.le_refl _⟩)]
      rfl
    · obtain ⟨n, -, hn⟩ := pred_eq (n := seq) (by omega)
      have hle : n ≤ seq := UInt64.le_iff_toNat_le.2 (by omega)
      rw [hrefused.2 (.inr ⟨seq, n, (h.ends seq).2 hmem, hn, hle⟩)]
      rfl
  | .data (.fin signed), hs =>
    show state.acceptFin seq signed = some none
    simp only [shapeOk, decide_eq_true_eq] at hs
    obtain ⟨refused, hrefused, heq⟩ := h.acceptFin_eq seq signed
    have hwrong : state.WrongFin seq signed := by
      rcases c' with (header | bytes | old) | _
      · simp only [shapeOk, Bool.and_eq_true, decide_eq_true_eq] at hs'
        obtain ⟨rfl, -⟩ := hs'
        exact absurd hs.1 (by decide)
      · exact .inr (.inr (.inr ⟨seq, bytes, (h.data seq bytes).2 hmem, UInt64.le_refl _⟩))
      · refine .inr (.inr (.inl ⟨old, ((h.fin seq old).2 hmem).2, ?_⟩))
        rintro rfl
        exact hne rfl
      · obtain ⟨n, -, hn⟩ := pred_eq (n := seq) (by omega)
        refine .inr (.inl ⟨seq, n, (h.ends seq).2 hmem, hn, ?_⟩)
        rintro rfl
        omega
    rw [heq, hrefused.2 hwrong]
    rfl
  | .fin, hs =>
    show state.acceptEnd seq = some none
    simp only [shapeOk, decide_eq_true_eq] at hs
    have hpos : 1 ≤ seq.toNat := by omega
    obtain ⟨refused, hrefused, heq⟩ := acceptEnd_eq state hpos
    have hwrong : state.WrongEnd seq := by
      rcases c' with (header | bytes | old) | _
      · simp only [shapeOk, Bool.and_eq_true, decide_eq_true_eq] at hs'
        obtain ⟨rfl, -⟩ := hs'
        exact absurd hs.1 (by decide)
      · exact .inr (.inr ⟨seq, bytes, (h.data seq bytes).2 hmem, by omega⟩)
      · exact .inr (.inl ⟨seq, ((h.fin seq old).2 hmem).1, by omega⟩)
      · exact absurd rfl hne
    rw [heq, hrefused.2 hwrong]
    rfl

/-! ### Emissions -/

section
variable {e : Emission Signature}

theorem Holds.chunkAt (h : state.Holds w) (hw : ∀ m ∈ w, e.Sends m.1 m.2) {k : UInt64} {bytes : List UInt8}
    (hk : state.data[k]? = some bytes) : 1 ≤ k.toNat ∧ e.chunks[k.toNat - 1]? = some bytes := by
  obtain ⟨n, hn, hbytes⟩ := hw _ ((h.data k bytes).1 hk)
  rw [hn]
  exact ⟨Nat.le_add_left 1 n, hbytes⟩

theorem Holds.positions (h : state.Holds w) (hw : ∀ m ∈ w, e.Sends m.1 m.2) :
    (state.data.toList.map fun entry => entry.1.toNat - 1).Nodup ∧
      (∀ n ∈ state.data.toList.map fun entry => entry.1.toNat - 1, n < e.chunks.length) ∧
      state.data.toList.map (fun entry => entry.2) =
        (state.data.toList.map fun entry => entry.1.toNat - 1).map fun n => e.chunks.getD n [] := by
  have hat : ∀ entry ∈ state.data.toList, 1 ≤ entry.1.toNat ∧ e.chunks[entry.1.toNat - 1]? = some entry.2 := fun entry he =>
    h.chunkAt hw (Std.ExtTreeMap.mem_toList_iff_getElem?_eq_some.1 he)
  refine ⟨?_, ?_, ?_⟩
  · refine (List.nodup_map_iff_inj_on Maps.nodup_toList).2 fun a ha b hb hab => ?_
    have hka := hat a ha
    have hkb := hat b hb
    have hkey : a.1 = b.1 := UInt64.toNat_inj.1 (by omega)
    refine Prod.ext hkey (Option.some.inj ?_)
    rw [← hka.2, ← hkb.2, hkey]
  · intro n hn
    obtain ⟨entry, hentry, rfl⟩ := List.mem_map.1 hn
    exact (List.getElem?_eq_some_iff.1 (hat entry hentry).2).1
  · rw [List.map_map]
    refine List.map_congr_left fun entry hentry => ?_
    show entry.2 = e.chunks.getD (entry.1.toNat - 1) []
    rw [List.getD_eq_getElem?_getD, (hat entry hentry).2]
    rfl

theorem Holds.room (h : state.Holds w) (hw : ∀ m ∈ w, e.Sends m.1 m.2) (he : e.Bounded) {k : Nat} {bytes : List UInt8}
    (hk : e.chunks[k]? = some bytes) (hseq : seq.toNat = k + 1) (hnew : state.data[seq]? = none) :
    state.data.size < maxProposalChunks ∧ state.dataLen + bytes.length ≤ maxValueBytes := by
  obtain ⟨hnodup, hlt, hchunks⟩ := h.positions hw
  generalize hpos : (state.data.toList.map fun entry => entry.1.toNat - 1) = positions at hnodup hlt hchunks
  have hklt := (List.getElem?_eq_some_iff.1 hk).1
  have hnot : k ∉ positions := by
    intro hmem
    rw [← hpos] at hmem
    obtain ⟨entry, hentry, hek⟩ := List.mem_map.1 hmem
    have hat := Std.ExtTreeMap.mem_toList_iff_getElem?_eq_some.1 hentry
    have hkey := h.chunkAt hw hat
    obtain rfl : entry.1 = seq := UInt64.toNat_inj.1 (by omega)
    rw [hnew] at hat
    cases hat
  have hall : ∀ n ∈ k :: positions, n ∈ List.range e.chunks.length := by
    intro n hn
    rw [List.mem_range]
    rcases List.mem_cons.1 hn with rfl | hn
    · exact hklt
    · exact hlt n hn
  have hcons : (k :: positions).Nodup := List.nodup_cons.2 ⟨hnot, hnodup⟩
  have hsize : positions.length = state.data.size := by rw [← hpos, List.length_map, Std.ExtTreeMap.length_toList]
  have hcount := (List.subperm_of_subset hcons hall).length_le
  rw [List.length_cons, List.length_range, hsize] at hcount
  have hbytes := Weights.total_le_of_nodup (w := fun n => (e.chunks.getD n []).length) hcons hall
  have htotal : Weights.total (fun n => (e.chunks.getD n []).length) (List.range e.chunks.length) = e.chunks.flatten.length := by
    rw [List.length_flatten]
    refine congrArg List.sum (List.ext_getElem (by simp) fun i hi _ => ?_)
    have hlen : i < e.chunks.length := by simpa using hi
    simp [List.getD_eq_getElem?_getD, List.getElem?_eq_getElem hlen]
  have hheld : Weights.total (fun n => (e.chunks.getD n []).length) positions = state.dataLen := by
    rw [h.dataLen, ← Weights.total_map (w := List.length) (f := fun n => e.chunks.getD n []), ← hchunks, Weights.total_map]
  have hkd : e.chunks.getD k [] = bytes := by rw [List.getD_eq_getElem?_getD, hk]; rfl
  rw [Weights.total_cons, htotal, hheld, hkd] at hbytes
  have hmax := he.bytes
  have hmost := he.chunks
  omega

theorem Holds.accept_emission [DecidableEq Signature] (h : state.Holds w) (hw : ∀ m ∈ w, e.Sends m.1 m.2) (he : e.Bounded)
    {c : StreamContent Signature} (hc : e.Sends seq c) (hs : shapeOk seq c = true) :
    ∃ state', state.accept seq c = some (some state') ∧ state'.Holds (w ++ [(seq, c)]) := by
  rcases h.accept hs with hnone | haccept
  · exfalso
    have hfin : ∀ k signed, state.finSequence = some k → state.fin = some signed →
        k.toNat = e.chunks.length + 1 ∧ signed = e.fin := fun k signed hk hsigned => hw _ ((h.fin k signed).1 ⟨hk, hsigned⟩)
    have hfinSequence : ∀ k, state.finSequence = some k → k.toNat = e.chunks.length + 1 := by
      intro k hk
      have hboth := h.both
      rw [hk] at hboth
      obtain ⟨signed, hsigned⟩ := Option.isSome_iff_exists.1 hboth.symm
      exact (hfin k signed hk hsigned).1
    have hend : ∀ k, state.endSequence = some k → k.toNat = e.chunks.length + 2 := fun k hk => hw _ ((h.ends k).1 hk)
    have hkeys : ∀ (k : UInt64) bytes, state.data[k]? = some bytes → k.toNat ≤ e.chunks.length := by
      intro k bytes hk
      obtain ⟨hpos, hat⟩ := h.chunkAt hw hk
      have hlt := (List.getElem?_eq_some_iff.1 hat).1
      omega
    match c, hc, hs, hnone with
    | .data (.init header), hc, hs, hnone =>
      have hno : ¬ state.init.any (fun old => decide (old ≠ header)) = true := by
        rw [any_ne]
        rintro ⟨old, hold, hne⟩
        have hsent := hw _ ((h.init old).1 hold)
        exact hne (hsent.2.trans hc.2.symm)
      have heq : state.acceptInit header = some (some { state with init := some header }) := if_neg hno
      rw [show state.accept seq (.data (.init header)) = state.acceptInit header from rfl, heq] at hnone
      cases hnone
    | .data (.data bytes), ⟨k, hk, hbytes⟩, hs, hnone =>
      have hklt := (List.getElem?_eq_some_iff.1 hbytes).1
      obtain ⟨refused, hrefused, heq⟩ := h.acceptData_eq seq bytes
      rw [show state.accept seq (.data (.data bytes)) = state.acceptData seq bytes from rfl, heq] at hnone
      cases refused with
      | true =>
        rcases hrefused.1 rfl with ⟨f, hf, hle⟩ | ⟨last, n, hlast, hn, hle⟩
        · have := hfinSequence f hf
          rw [UInt64.le_iff_toNat_le] at hle
          omega
        · have := hend last hlast
          rw [UInt64.le_iff_toNat_le] at hle
          omega
      | false =>
        cases hold : state.data[seq]? with
        | some old =>
          obtain ⟨-, hat⟩ := h.chunkAt hw hold
          rw [hk, Nat.add_sub_cancel, hbytes] at hat
          have hsame : old = bytes := (Option.some.inj hat).symm
          rw [hold] at hnone
          simp [hsame] at hnone
        | none =>
          have hroom := h.room hw he hbytes hk hold
          have hnot : ¬ (state.data.size ≥ maxProposalChunks ∨ state.dataLen + bytes.length > maxValueBytes) := by omega
          rw [hold] at hnone
          simp [hnot] at hnone
    | .data (.fin signed), hc, hs, hnone =>
      obtain ⟨refused, hrefused, heq⟩ := h.acceptFin_eq seq signed
      rw [show state.accept seq (.data (.fin signed)) = state.acceptFin seq signed from rfl, heq] at hnone
      cases refused with
      | false => cases hnone
      | true =>
        obtain ⟨hseq, hsigned⟩ := hc
        rcases hrefused.1 rfl with ⟨k, hk, hne⟩ | ⟨last, n, hlast, hn, hne⟩ | ⟨old, hold, hne⟩ | ⟨k, bytes, hk, hle⟩
        · exact hne (UInt64.toNat_inj.1 ((hfinSequence k hk).trans hseq.symm))
        · have := hend last hlast
          exact hne (UInt64.toNat_inj.1 (by omega))
        · have hboth := h.both
          rw [hold] at hboth
          obtain ⟨k, hk⟩ := Option.isSome_iff_exists.1 hboth
          exact hne ((hfin k old hk hold).2.trans hsigned.symm)
        · have := hkeys k bytes hk
          rw [UInt64.le_iff_toNat_le] at hle
          omega
    | .fin, hc, hs, hnone =>
      have hseq : seq.toNat = e.chunks.length + 2 := hc
      have hpos : 1 ≤ seq.toNat := by omega
      obtain ⟨refused, hrefused, heq⟩ := acceptEnd_eq state hpos
      rw [show state.accept seq .fin = state.acceptEnd seq from rfl, heq] at hnone
      cases refused with
      | false => cases hnone
      | true =>
        rcases hrefused.1 rfl with ⟨k, hk, hne⟩ | ⟨k, hk, hne⟩ | ⟨k, bytes, hk, hle⟩
        · exact hne (UInt64.toNat_inj.1 ((hend k hk).trans hseq.symm))
        · have := hfinSequence k hk
          omega
        · have := hkeys k bytes hk
          omega
  · exact haccept

theorem keys_eq_iff {m : Std.ExtTreeMap UInt64 (List UInt8)} {n : Nat} : m.toList.map (·.1.toNat) = List.range' 1 n ↔
    ∀ k, (∃ entry ∈ m.toList, entry.1.toNat = k) ↔ 1 ≤ k ∧ k < 1 + n := by
  have hsorted : (m.toList.map (·.1.toNat)).Pairwise (· < ·) := by
    refine List.pairwise_map.2 (Std.ExtTreeMap.ordered_keys_toList.imp fun {a b} hab => ?_)
    exact UInt64.lt_iff_toNat_lt.1 (Std.compare_eq_lt.1 hab)
  constructor
  · intro h k
    rw [← List.mem_range'_1, ← h, List.mem_map]
  · refine fun h => hsorted.eq_of_mem_iff List.pairwise_lt_range' fun k => ?_
    rw [List.mem_range'_1, List.mem_map]
    exact h k

theorem Holds.complete_eq (h : state.Holds w) : ∃ b, state.complete = some b ∧ (b = true ↔ ∃ header last n,
    state.endSequence = some last ∧ state.init = some header ∧ n.toNat + 1 = last.toNat ∧ state.finSequence = some n ∧
    state.data.size + 2 = last.toNat ∧ state.data.toList.map (·.1.toNat) = List.range' 1 (n.toNat - 1)) := by
  unfold complete
  cases hend : state.endSequence with
  | none => exact ⟨false, rfl, by simp⟩
  | some last =>
    cases hinit : state.init with
    | none => exact ⟨false, rfl, by simp⟩
    | some header =>
      have hlast := h.end_le hend
      obtain ⟨n, hn, hsucc⟩ := pred_eq (n := last) (by omega)
      refine ⟨decide (state.finSequence = some n) && decide (state.data.size + 2 = last.toNat) &&
        decide (state.data.toList.map (·.1.toNat) = List.range' 1 (n.toNat - 1)), ?_, ?_⟩
      · show (if (some header).isNone then some false else _) = _
        rw [hn]
        rfl
      · simp only [Bool.and_eq_true, decide_eq_true_eq]
        constructor
        · rintro ⟨⟨hfin, hsize⟩, hkeys⟩
          exact ⟨header, last, n, rfl, rfl, hsucc, hfin, hsize, hkeys⟩
        · rintro ⟨_, _, n', ⟨⟩, ⟨⟩, hn', hfin, hsize, hkeys⟩
          obtain rfl : n' = n := UInt64.toNat_inj.1 (by omega)
          exact ⟨⟨hfin, hsize⟩, hkeys⟩

/-- The messages taken in are exactly those of an emission. -/
def IsEmission (w : List (Slot Signature)) (e : Emission Signature) : Prop := ∀ seq c, (seq, c) ∈ w ↔ e.Sends seq c

theorem Holds.of_complete (h : state.Holds w) (hcomplete : state.complete = some true) :
    ∃ e, IsEmission w e ∧ e.chunks.length ≤ maxProposalChunks ∧ state.assemble = some e.assembled := by
  obtain ⟨b, hb, hiff⟩ := h.complete_eq
  rw [hcomplete] at hb
  cases hb
  obtain ⟨header, last, n, hend, hinit, hsucc, hfin, hsize, hkeys⟩ := hiff.1 rfl
  have hlast := h.end_le hend
  have hboth := h.both
  rw [hfin] at hboth
  obtain ⟨signed, hsigned⟩ := Option.isSome_iff_exists.1 hboth.symm
  have hlen : (state.data.toList.map Prod.snd).length = state.data.size := by
    rw [List.length_map, Std.ExtTreeMap.length_toList]
  have hkey : ∀ (i : Nat) (entry : UInt64 × List UInt8), state.data.toList[i]? = some entry → entry.1.toNat = i + 1 := by
    intro i entry hentry
    have hi : (state.data.toList.map (·.1.toNat))[i]? = some entry.1.toNat := by rw [List.getElem?_map, hentry]; rfl
    have hlt : i < n.toNat - 1 := by
      have hbound := (List.getElem?_eq_some_iff.1 hi).1
      rwa [hkeys, List.length_range'] at hbound
    rw [hkeys, List.getElem?_range' hlt] at hi
    have heq := Option.some.inj hi
    omega
  refine ⟨⟨header, state.data.toList.map Prod.snd, signed⟩, fun seq c => ?_, by rw [hlen]; omega, ?_⟩
  · rcases c with (other | bytes | other) | _
    · constructor
      · intro hmem
        have hshape := h.shape _ hmem
        simp only [shapeOk, Bool.and_eq_true, decide_eq_true_eq] at hshape
        obtain ⟨rfl, -⟩ := hshape
        rw [← h.init, hinit] at hmem
        exact ⟨rfl, (Option.some.inj hmem).symm⟩
      · rintro ⟨rfl, rfl⟩
        exact (h.init _).1 hinit
    · rw [← h.data, ← Std.ExtTreeMap.mem_toList_iff_getElem?_eq_some, List.mem_iff_getElem?]
      constructor
      · rintro ⟨i, hi⟩
        refine ⟨i, hkey i _ hi, ?_⟩
        show (state.data.toList.map Prod.snd)[i]? = some bytes
        rw [List.getElem?_map, hi]
        rfl
      · rintro ⟨i, hseq, hi⟩
        obtain ⟨entry, hentry, rfl⟩ : ∃ entry, state.data.toList[i]? = some entry ∧ entry.2 = bytes := by
          rw [List.getElem?_map] at hi
          exact Option.map_eq_some_iff.1 hi
        have hek := hkey i entry hentry
        obtain rfl : entry.1 = seq := UInt64.toNat_inj.1 (by omega)
        exact ⟨i, hentry⟩
    · rw [← h.fin, hfin, hsigned]
      show _ ↔ seq.toNat = (state.data.toList.map Prod.snd).length + 1 ∧ other = signed
      rw [hlen]
      constructor
      · rintro ⟨⟨⟩, ⟨⟩⟩
        exact ⟨by omega, rfl⟩
      · rintro ⟨hseq, rfl⟩
        exact ⟨congrArg some (UInt64.toNat_inj.1 (by omega)), rfl⟩
    · rw [← h.ends, hend]
      show _ ↔ seq.toNat = (state.data.toList.map Prod.snd).length + 2
      rw [hlen]
      constructor
      · rintro ⟨⟩
        omega
      · exact fun hseq => congrArg some (UInt64.toNat_inj.1 (by omega))
  · rw [assemble, hinit, hsigned]
    rfl

theorem IsEmission.eq {e' : Emission Signature} (h : IsEmission w e) (h' : IsEmission w e')
    (hsize : e.chunks.length ≤ maxProposalChunks) : e = e' := by
  have hsends : ∀ {seq c}, e.Sends seq c → e'.Sends seq c := fun hs => (h' _ _).1 ((h _ _).2 hs)
  have hnum : ∀ n ≤ e.chunks.length + 2, (UInt64.ofNat n).toNat = n := fun n hn => Emission.toNat_seq hsize hn
  have hlen : e'.chunks.length = e.chunks.length := by
    have hend : e'.Sends (UInt64.ofNat (e.chunks.length + 2)) .fin := hsends (hnum _ (Nat.le_refl _))
    have heq : (UInt64.ofNat (e.chunks.length + 2)).toNat = e'.chunks.length + 2 := hend
    rw [hnum _ (Nat.le_refl _)] at heq
    omega
  have hinit : e.init = e'.init := (hsends (c := .data (.init e.init)) ⟨rfl, rfl⟩).2
  have hfin : e.fin = e'.fin := (hsends (c := .data (.fin e.fin)) ⟨hnum (e.chunks.length + 1) (by omega), rfl⟩).2
  have hchunks : e.chunks = e'.chunks := by
    refine List.ext_getElem hlen.symm fun i hi _ => ?_
    obtain ⟨k, hk, hbytes⟩ : e'.Sends (UInt64.ofNat (i + 1)) (.data (.data e.chunks[i])) :=
      hsends ⟨i, hnum _ (by omega), List.getElem?_eq_getElem hi⟩
    rw [hnum _ (by omega)] at hk
    obtain rfl : i = k := by omega
    exact ((List.getElem?_eq_some_iff.1 hbytes).2).symm
  obtain ⟨init, chunks, fin⟩ := e
  cases e'
  cases hinit
  cases hfin
  cases hchunks
  rfl

theorem Holds.complete_of (h : state.Holds w) (hw : IsEmission w e) (hsize : e.chunks.length ≤ maxProposalChunks) :
    state.complete = some true ∧ state.assemble = some e.assembled := by
  have hnum : ∀ n ≤ e.chunks.length + 2, (UInt64.ofNat n).toNat = n := fun n hn => Emission.toNat_seq hsize hn
  have hinit : state.init = some e.init := (h.init _).2 ((hw _ _).2 ⟨rfl, rfl⟩)
  have hfin := (h.fin (UInt64.ofNat (e.chunks.length + 1)) e.fin).2 ((hw _ _).2 ⟨hnum _ (by omega), rfl⟩)
  have hend : state.endSequence = some (UInt64.ofNat (e.chunks.length + 2)) :=
    (h.ends _).2 ((hw _ .fin).2 (hnum _ (Nat.le_refl _)))
  have hkeys : state.data.toList.map (·.1.toNat) = List.range' 1 e.chunks.length := by
    refine keys_eq_iff.2 fun k => ?_
    constructor
    · rintro ⟨entry, hentry, rfl⟩
      have hat := Std.ExtTreeMap.mem_toList_iff_getElem?_eq_some.1 hentry
      obtain ⟨i, hi, hbytes⟩ := (hw _ _).1 ((h.data _ _).1 hat)
      have hlti := (List.getElem?_eq_some_iff.1 hbytes).1
      omega
    · rintro ⟨hk, hk'⟩
      have hlti : k - 1 < e.chunks.length := by omega
      have hat : state.data[UInt64.ofNat k]? = some e.chunks[k - 1] :=
        (h.data _ _).2 ((hw _ _).2 ⟨k - 1, by rw [hnum k (by omega)]; omega, List.getElem?_eq_getElem hlti⟩)
      exact ⟨_, Std.ExtTreeMap.mem_toList_iff_getElem?_eq_some.2 hat, hnum k (by omega)⟩
  have hsize' : state.data.size = e.chunks.length := by
    rw [← Std.ExtTreeMap.length_toList, ← List.length_map (f := fun entry : UInt64 × List UInt8 => entry.1.toNat), hkeys,
      List.length_range']
  obtain ⟨b, hb, hiff⟩ := h.complete_eq
  have htrue : b = true := by
    refine hiff.2 ⟨e.init, _, _, hend, hinit, ?_, hfin.1, ?_, ?_⟩
    · rw [hnum _ (by omega), hnum _ (Nat.le_refl _)]
    · rw [hnum _ (Nat.le_refl _), hsize']
    · rw [hnum _ (by omega), Nat.add_sub_cancel, hkeys]
  rw [htrue] at hb
  obtain ⟨e', hw', hsize', hassemble⟩ := h.of_complete hb
  obtain rfl := hw'.eq hw hsize'
  exact ⟨hb, hassemble⟩

end

end StreamState

end

end Valhalla.RoomsNode
