import Valhalla.RoomsNode.Streams

/-!
# Emissions

A value as a proposer emits it: a header, chunks and a signature under consecutive sequences, with the end behind them.
-/

namespace Valhalla.RoomsNode
open FixedWidth

section
variable {Signature : Type}

/-- A stream as it was emitted: its header, its chunks and its signature. -/
structure Emission (Signature : Type) where
  init : ProposalInit
  chunks : List (List UInt8)
  fin : ProposalFin Signature

/-- A sequence and what was sent under it. -/
abbrev Slot (Signature : Type) := UInt64 × StreamContent Signature

namespace Emission
variable {e e' : Emission Signature}

def Sends (e : Emission Signature) (seq : UInt64) : StreamContent Signature → Prop
  | .data (.init header) => seq = 0 ∧ header = e.init
  | .data (.data bytes) => ∃ k, seq.toNat = k + 1 ∧ e.chunks[k]? = some bytes
  | .data (.fin signed) => seq.toNat = e.chunks.length + 1 ∧ signed = e.fin
  | .fin => seq.toNat = e.chunks.length + 2

def assembled (e : Emission Signature) : AssembledParts Signature := ⟨e.init, e.chunks.flatten, e.fin⟩

structure Bounded (e : Emission Signature) : Prop where
  chunks : e.chunks.length ≤ maxProposalChunks
  bytes : e.chunks.flatten.length ≤ maxValueBytes

theorem Sends.unique {seq : UInt64} {c c' : StreamContent Signature} (h : e.Sends seq c) (h' : e.Sends seq c') : c = c' := by
  have hlt : ∀ {k : Nat} {bytes : List UInt8}, e.chunks[k]? = some bytes → k < e.chunks.length := fun hk =>
    (List.getElem?_eq_some_iff.1 hk).1
  rcases c with (header | bytes | signed) | _ <;> rcases c' with (header' | bytes' | signed') | _
  · rw [h.2, h'.2]
  · obtain ⟨rfl, -⟩ := h
    obtain ⟨k, hk, -⟩ := h'
    cases hk
  · obtain ⟨rfl, -⟩ := h
    cases h'.1
  · obtain ⟨rfl, -⟩ := h
    cases h'
  · obtain ⟨rfl, -⟩ := h'
    obtain ⟨k, hk, -⟩ := h
    cases hk
  · obtain ⟨k, hk, hbytes⟩ := h
    obtain ⟨k', hk', hbytes'⟩ := h'
    obtain rfl : k = k' := by omega
    rw [Option.some.inj (hbytes.symm.trans hbytes')]
  · obtain ⟨k, hk, hbytes⟩ := h
    have := hlt hbytes
    have := h'.1
    omega
  · obtain ⟨k, hk, hbytes⟩ := h
    have := hlt hbytes
    have : seq.toNat = e.chunks.length + 2 := h'
    omega
  · obtain ⟨rfl, -⟩ := h'
    cases h.1
  · obtain ⟨k, hk, hbytes⟩ := h'
    have := hlt hbytes
    have := h.1
    omega
  · rw [h.2, h'.2]
  · have := h.1
    have : seq.toNat = e.chunks.length + 2 := h'
    omega
  · obtain ⟨rfl, -⟩ := h'
    cases h
  · obtain ⟨k, hk, hbytes⟩ := h'
    have := hlt hbytes
    have : seq.toNat = e.chunks.length + 2 := h
    omega
  · have := h'.1
    have : seq.toNat = e.chunks.length + 2 := h
    omega
  · rfl

theorem toNat_seq (hsize : e.chunks.length ≤ maxProposalChunks) {n : Nat} (h : n ≤ e.chunks.length + 2) :
    (UInt64.ofNat n).toNat = n := by
  refine UInt64.toNat_ofNat_of_lt' (Nat.lt_of_le_of_lt h ?_)
  refine Nat.lt_of_le_of_lt (Nat.add_le_add_right hsize 2) ?_
  decide

theorem exists_sends {n : Nat} (h : n ≤ e.chunks.length + 2) (hsize : e.chunks.length ≤ maxProposalChunks) :
    ∃ c, e.Sends (UInt64.ofNat n) c := by
  have hseq := toNat_seq hsize h
  rcases Nat.eq_zero_or_pos n with rfl | hpos
  · exact ⟨.data (.init e.init), rfl, rfl⟩
  rcases Nat.lt_or_ge (n - 1) e.chunks.length with hk | hk
  · refine ⟨.data (.data e.chunks[n - 1]), n - 1, by omega, List.getElem?_eq_getElem hk⟩
  rcases Nat.eq_or_lt_of_le h with rfl | hn
  · exact ⟨.fin, hseq⟩
  · exact ⟨.data (.fin e.fin), by omega, rfl⟩

theorem Sends.le {seq : UInt64} {c : StreamContent Signature} (h : e.Sends seq c) : seq.toNat ≤ e.chunks.length + 2 := by
  rcases c with (header | bytes | signed) | _
  · obtain ⟨rfl, -⟩ := h
    exact Nat.zero_le _
  · obtain ⟨k, hk, hbytes⟩ := h
    have := (List.getElem?_eq_some_iff.1 hbytes).1
    omega
  · have := h.1
    omega
  · exact Nat.le_of_eq h

theorem covers_of_sends (hsize : e'.chunks.length ≤ maxProposalChunks)
    (h : ∀ seq c, e'.Sends seq c → e.Sends seq c) {seq : UInt64} {c : StreamContent Signature} (hs : e.Sends seq c) :
    e'.Sends seq c := by
  have hend : e.Sends (UInt64.ofNat (e'.chunks.length + 2)) .fin := h _ _ (toNat_seq hsize (Nat.le_refl _))
  have hlen : (UInt64.ofNat (e'.chunks.length + 2)).toNat = e.chunks.length + 2 := hend
  rw [toNat_seq hsize (Nat.le_refl _)] at hlen
  have hle := hs.le
  obtain ⟨c', hc'⟩ := exists_sends (e := e') (n := seq.toNat) (by omega) hsize
  rw [UInt64.ofNat_toNat] at hc'
  rwa [hs.unique (h _ _ hc')]

end Emission

/-! ### Emitting a value -/

theorem flatten_chunks (n : Nat) (hn : 0 < n) (l : List UInt8) : (chunks n l).flatten = l := by
  fun_induction chunks n l with
  | case1 l h => rcases h with rfl | rfl <;> first | rfl | omega
  | case2 l h ih => rw [List.flatten_cons, ih, List.take_append_drop]

theorem mem_chunks {n : Nat} {l c : List UInt8} (h : c ∈ chunks n l) : c ≠ [] ∧ c.length ≤ n := by
  fun_induction chunks n l with
  | case1 l _ => cases h
  | case2 l hne ih =>
    rcases List.mem_cons.1 h with rfl | htail
    · refine ⟨fun hnil => ?_, List.length_take_le ..⟩
      rw [List.take_eq_nil_iff] at hnil
      exact hne hnil
    · exact ih htail

theorem length_chunks_lt {n : Nat} {l : List UInt8} (hn : 0 < n) (hl : l ≠ []) :
    0 < (chunks n l).length ∧ (chunks n l).length * n < l.length + n := by
  fun_induction chunks n l with
  | case1 l h => rcases h with rfl | rfl <;> first | exact absurd rfl hl | omega
  | case2 l hne ih =>
    refine ⟨Nat.succ_pos _, ?_⟩
    rw [List.length_cons, Nat.succ_mul]
    by_cases hdrop : l.drop n = []
    · have hpos := List.length_pos_iff.2 hl
      rw [hdrop, chunks, dif_pos (.inr rfl), List.length_nil]
      omega
    · have hlen := List.length_pos_iff.2 hdrop
      have := (ih hdrop).2
      rw [List.length_drop] at this hlen
      omega

namespace AssembledParts
variable {a : AssembledParts Signature}

def emission (a : AssembledParts Signature) : Emission Signature := ⟨a.init, RoomsNode.chunks proposalChunkBytes a.data, a.fin⟩

theorem emission_assembled (a : AssembledParts Signature) : a.emission.assembled = a := by
  rw [Emission.assembled, emission, flatten_chunks _ (by decide)]

/-- A value that the code emits: its header passes the receiver's check, and it is not empty. -/
structure Emittable (a : AssembledParts Signature) : Prop where
  header : validPartHeader a.init = true
  nonempty : 1 ≤ a.data.length
  bytes : a.data.length ≤ maxValueBytes

theorem Emittable.chunks_length (h : a.Emittable) : 1 ≤ a.emission.chunks.length ∧ a.emission.chunks.length ≤ maxProposalChunks := by
  have hlen := length_chunks_lt (n := proposalChunkBytes) (by decide) (List.length_pos_iff.1 h.nonempty)
  have hbytes := h.bytes
  refine ⟨hlen.1, ?_⟩
  have := hlen.2
  simp only [emission, maxProposalChunks, proposalChunkBytes, maxValueBytes] at *
  omega

theorem Emittable.bounded (h : a.Emittable) : a.emission.Bounded := by
  refine ⟨h.chunks_length.2, ?_⟩
  rw [emission, flatten_chunks _ (by decide)]
  exact h.bytes

theorem Emittable.shape (h : a.Emittable) {seq : UInt64} {c : StreamContent Signature} (hs : a.emission.Sends seq c) :
    shapeOk seq c = true := by
  have hlen := h.chunks_length
  rcases c with (header | bytes | signed) | _
  · obtain ⟨rfl, rfl⟩ := hs
    simp only [shapeOk, decide_true, Bool.true_and]
    exact h.header
  · obtain ⟨k, hk, hbytes⟩ := hs
    have hmem := mem_chunks (List.mem_of_getElem? hbytes)
    have hlt := (List.getElem?_eq_some_iff.1 hbytes).1
    simp only [shapeOk, Bool.and_eq_true, decide_eq_true_eq, Bool.not_eq_true', List.isEmpty_eq_false_iff]
    exact ⟨⟨⟨by omega, by omega⟩, hmem.1⟩, hmem.2⟩
  · have := hs.1
    simp only [shapeOk, decide_eq_true_eq]
    omega
  · have : seq.toNat = a.emission.chunks.length + 2 := hs
    simp only [shapeOk, decide_eq_true_eq]
    omega

/-- The slots of the messages that `sendPartStream` publishes. -/
def emitted (a : AssembledParts Signature) : List (Slot Signature) :=
  (sendPartStream [] a.parts).map fun msg => (msg.sequence, msg.content)

theorem parts_length (a : AssembledParts Signature) : a.parts.length = a.emission.chunks.length + 2 := by
  rw [parts, List.length_cons, List.length_append, dataParts, List.length_map]
  rfl

theorem parts_getElem? (a : AssembledParts Signature) (i : Nat) (part : RoomPart Signature) : a.parts[i]? = some part ↔
    i = 0 ∧ part = .init a.init ∨ (∃ k bytes, i = k + 1 ∧ a.emission.chunks[k]? = some bytes ∧ part = .data bytes) ∨
      i = a.emission.chunks.length + 1 ∧ part = .fin a.fin := by
  rcases i with _ | k
  · simp [parts, eq_comm]
  · have hcons : a.parts[k + 1]? = (dataParts a.data ++ [RoomPart.fin a.fin])[k]? := rfl
    have hlen : (dataParts a.data : List (RoomPart Signature)).length = a.emission.chunks.length := List.length_map ..
    rw [hcons, List.getElem?_append, hlen]
    split
    · rename_i hlt
      rw [dataParts, List.getElem?_map, Option.map_eq_some_iff]
      constructor
      · rintro ⟨bytes, hbytes, rfl⟩
        exact .inr (.inl ⟨k, bytes, rfl, hbytes, rfl⟩)
      · rintro (⟨h0, -⟩ | ⟨k', bytes, hk, hbytes, rfl⟩ | ⟨hk, -⟩)
        · omega
        · obtain rfl : k = k' := by omega
          exact ⟨bytes, hbytes, rfl⟩
        · omega
    · rename_i hge
      rw [List.getElem?_singleton]
      constructor
      · intro h
        split at h
        · cases h
          exact .inr (.inr ⟨by omega, rfl⟩)
        · cases h
      · rintro (⟨h0, -⟩ | ⟨k', bytes, hk, hbytes, -⟩ | ⟨hk, rfl⟩)
        · omega
        · have := (List.getElem?_eq_some_iff.1 hbytes).1
          omega
        · exact if_pos (by omega)

theorem mem_emitted (h : a.Emittable) {seq : UInt64} {c : StreamContent Signature} :
    (seq, c) ∈ a.emitted ↔ a.emission.Sends seq c := by
  have hlen := h.chunks_length
  have hnum : ∀ i ≤ a.emission.chunks.length + 2, (UInt64.ofNat i).toNat = i := fun i hi => Emission.toNat_seq hlen.2 hi
  have hmem : (seq, c) ∈ a.emitted ↔
      (∃ i part, a.parts[i]? = some part ∧ seq = UInt64.ofNat i ∧ c = .data part) ∨
        seq = UInt64.ofNat a.parts.length ∧ c = .fin := by
    simp only [emitted, sendPartStream, List.map_append, List.map_map, List.mem_append, List.mem_map, Prod.exists,
      List.mem_zipIdx_iff_getElem?, Function.comp_apply, List.map_cons, List.map_nil, List.mem_singleton, Prod.mk.injEq]
    refine or_congr ⟨?_, ?_⟩ Iff.rfl
    · rintro ⟨part, i, hpart, rfl, rfl⟩
      exact ⟨i, part, hpart, rfl, rfl⟩
    · rintro ⟨i, part, hpart, rfl, rfl⟩
      exact ⟨part, i, hpart, rfl, rfl⟩
  rw [hmem, a.parts_length]
  constructor
  · rintro (⟨i, part, hpart, rfl, rfl⟩ | ⟨rfl, rfl⟩)
    · rcases (a.parts_getElem? i part).1 hpart with ⟨rfl, rfl⟩ | ⟨k, bytes, rfl, hbytes, rfl⟩ | ⟨rfl, rfl⟩
      · exact ⟨rfl, rfl⟩
      · have := (List.getElem?_eq_some_iff.1 hbytes).1
        exact ⟨k, hnum _ (by omega), hbytes⟩
      · exact ⟨hnum _ (by omega), rfl⟩
    · exact hnum _ (Nat.le_refl _)
  · intro hs
    have hseq : seq = UInt64.ofNat seq.toNat := (UInt64.ofNat_toNat).symm
    rcases c with part | _
    · refine .inl ⟨seq.toNat, part, (a.parts_getElem? _ _).2 ?_, hseq, rfl⟩
      rcases part with header | bytes | signed
      · obtain ⟨rfl, rfl⟩ := hs
        exact .inl ⟨rfl, rfl⟩
      · obtain ⟨k, hk, hbytes⟩ := hs
        exact .inr (.inl ⟨k, bytes, hk, hbytes, rfl⟩)
      · obtain ⟨hk, rfl⟩ := hs
        exact .inr (.inr ⟨hk, rfl⟩)
    · have hs' : seq.toNat = a.emission.chunks.length + 2 := hs
      exact .inr ⟨hs' ▸ hseq, rfl⟩

end AssembledParts

end

end Valhalla.RoomsNode
