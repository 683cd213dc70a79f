import Valhalla.RoomsNode.StreamRuns

/-!
# Laws of the proposal streams

What a node hands over of the streams it is sent: all of a value that was emitted whole, and nothing but the messages
that one stream took in since it was last admitted.
-/

namespace Valhalla.RoomsNode
open FixedWidth

def handedOver {Signature : Type} [DecidableEq Signature] (streams : Streams Signature) :
    List (StreamEvent Signature) → List (AssembledParts Signature)
  | [] => []
  | e :: es =>
    match e.step streams with
    | none => []
    | some (next, out) => out.toList ++ handedOver next es

structure StreamLaws (Signature : Type) [DecidableEq Signature] : Prop where
  /-- No run panics, and none holds more than the limits. -/
  bounded : ∀ es : List (StreamEvent Signature), ∃ streams, afterEvents [] es = some streams ∧
    streams.length ≤ maxProposalStreams ∧
    (∀ peer, Assoc.count (fun key : StreamKey => key.peer = peer) streams ≤ maxProposalStreamsPerPeer) ∧
    ∀ entry ∈ streams, Weights.total (fun chunk => chunk.2.length) entry.2.data.toList ≤ maxValueBytes
  /-- The messages of an emission complete it with the last one missing, whatever else is delivered in between. -/
  completes : ∀ (a : AssembledParts Signature), a.Emittable → ∀ (key : StreamKey) (before : List (StreamEvent Signature))
    (streams : Streams Signature) (es : List (StreamEvent Signature)) (ev : StreamEvent Signature),
    1 ≤ key.stream.length → key.stream.length ≤ 64 → afterEvents [] before = some streams → Assoc.get streams key = none →
    Spared key streams (es ++ [ev]) → (∀ m ∈ (es ++ [ev]).filterMap (StreamEvent.slot key), m ∈ a.emitted) →
    ¬ a.emitted ⊆ es.filterMap (StreamEvent.slot key) → (ev.slot key).isSome → ∃ mid next out,
      afterEvents streams es = some mid ∧ ev.step mid = some (next, out) ∧
      (a.emitted ⊆ (es ++ [ev]).filterMap (StreamEvent.slot key) → out = some a) ∧
      (¬ a.emitted ⊆ (es ++ [ev]).filterMap (StreamEvent.slot key) → out = none)
  /-- A completed stream hands over the whole emission that its window is, and is gone. -/
  whole : ∀ (es : List (StreamEvent Signature)) (streams next : Streams Signature) (now : Nat) (peer : List UInt8)
    (msg : StreamMessage Signature) (a : AssembledParts Signature), afterEvents [] es = some streams →
    handlePart streams now peer msg = some (next, some a) → Assoc.get next ⟨peer, msg.streamId⟩ = none ∧
      ∃ e : Emission Signature, a = e.assembled ∧
        StreamState.IsEmission (windowAfter ⟨peer, msg.streamId⟩ [] [] es ++ [(msg.sequence, msg.content)]) e
  /-- A message out of shape, or against one that the stream holds, drops the stream and hands over nothing. -/
  drops : ∀ (es : List (StreamEvent Signature)) (streams : Streams Signature) (now : Nat) (peer : List UInt8)
    (msg : StreamMessage Signature), afterEvents [] es = some streams →
    (shapeOk msg.sequence msg.content = false ∨
      ∃ c, (msg.sequence, c) ∈ windowAfter ⟨peer, msg.streamId⟩ [] [] es ∧ c ≠ msg.content) →
    ∃ next, handlePart streams now peer msg = some (next, none) ∧ Assoc.get next ⟨peer, msg.streamId⟩ = none

section
variable {Signature : Type} [DecidableEq Signature] {streams next : Streams Signature} {key : StreamKey}
  {w : List (Slot Signature)} {es : List (StreamEvent Signature)}

omit [DecidableEq Signature] in
theorem SoundStreams.buffered (hs : SoundStreams streams) {entry : StreamKey × StreamState Signature} (h : entry ∈ streams) :
    Weights.total (fun chunk => chunk.2.length) entry.2.data.toList ≤ maxValueBytes := by
  obtain ⟨w, hw⟩ := hs.holds entry.1 entry.2 (Assoc.get_of_mem hs.distinct h)
  rw [← hw.dataLen]
  exact hw.limit

theorem afterEvents_sound (h : afterEvents [] es = some streams) (key : StreamKey) :
    SoundStreams streams ∧ Window streams key (windowAfter key [] [] es) := by
  obtain ⟨next, hafter, hs, hwindow⟩ := run_sound es soundStreams_nil
  obtain rfl : next = streams := Option.some.inj (hafter.symm.trans h)
  exact ⟨hs, hwindow key [] (window_of_none rfl)⟩

theorem emission_completes {a : AssembledParts Signature} (ha : a.Emittable) {ev : StreamEvent Signature}
    (hkey : ¬ (key.stream = [] ∨ 64 < key.stream.length)) (hs : SoundStreams streams) (hnew : Assoc.get streams key = none)
    (hspared : Spared key streams (es ++ [ev]))
    (hsent : ∀ m ∈ (es ++ [ev]).filterMap (StreamEvent.slot key), m ∈ a.emitted)
    (hmissing : ¬ a.emitted ⊆ es.filterMap (StreamEvent.slot key)) (hslot : (ev.slot key).isSome) :
    ∃ mid next out, afterEvents streams es = some mid ∧ ev.step mid = some (next, out) ∧
      (a.emitted ⊆ (es ++ [ev]).filterMap (StreamEvent.slot key) → out = some a) ∧
      (¬ a.emitted ⊆ (es ++ [ev]).filterMap (StreamEvent.slot key) → out = none) := by
  have hcovers : ∀ w : List (Slot Signature), Covers a.emission w ↔ a.emitted ⊆ w := by
    intro w
    constructor
    · rintro h ⟨seq, c⟩ hm
      exact h seq c ((AssembledParts.mem_emitted ha).1 hm)
    · exact fun h seq c hs => h ((AssembledParts.mem_emitted ha).2 hs)
  have hsends : ∀ m ∈ (es ++ [ev]).filterMap (StreamEvent.slot key), a.emission.Sends m.1 m.2 := fun m hm =>
    (AssembledParts.mem_emitted ha).1 (hsent m hm)
  obtain ⟨m, hm⟩ := Option.isSome_iff_exists.1 hslot
  have hall : (es ++ [ev]).filterMap (StreamEvent.slot key) = es.filterMap (StreamEvent.slot key) ++ [m] := by
    rw [List.filterMap_append, List.filterMap_cons_some hm, List.filterMap_nil]
  rw [hall] at hsent hsends ⊢
  rw [← hcovers] at hmissing
  obtain ⟨mid, hafter, hmid, hwindow⟩ := honest_run ha.bounded (fun _ _ => ha.shape) hkey es hs (window_of_none hnew)
    (fun m hm => hsends m (List.mem_append_left _ hm)) hspared.left hmissing
  obtain ⟨next, out, hstep, -, hout⟩ := StreamEvent.honest_step ha.bounded (fun _ _ => ha.shape) hkey hmid hwindow
    (fun m hm => hsends m (List.mem_append_left _ hm)) (hspared.last hafter) hm
    (hsends m (List.mem_append_right _ (List.mem_singleton_self m)))
  refine ⟨mid, next, out, hafter, hstep, ?_, ?_⟩ <;> rw [← hcovers]
  · intro hall
    rcases hout with ⟨-, hout⟩ | ⟨hnot, -⟩
    · rw [hout, a.emission_assembled]
    · exact absurd hall hnot
  · intro hnot
    rcases hout with ⟨hall, -⟩ | ⟨-, hout, -⟩
    · exact absurd hall hnot
    · exact hout

theorem window_completed {now : Nat} {peer : List UInt8} {msg : StreamMessage Signature} {a : AssembledParts Signature}
    (hw : Window streams ⟨peer, msg.streamId⟩ w) (h : handlePart streams now peer msg = some (next, some a)) :
    Assoc.get next ⟨peer, msg.streamId⟩ = none ∧ ∃ e : Emission Signature, a = e.assembled ∧
      StreamState.IsEmission (w ++ [(msg.sequence, msg.content)]) e := by
  obtain ⟨next', out, hstep, hcases⟩ := handlePart_cases now peer msg hw
  rw [h] at hstep
  cases hstep
  rcases hcases with ⟨-, -, hout⟩ | ⟨-, hdelivery⟩
  · cases hout
  · cases hdelivery with
    | completed e _ _ _ hall => exact ⟨by rw [Assoc.get_remove, if_pos rfl], e, rfl, hall⟩

theorem conflict_drops (hs : SoundStreams streams) (now : Nat) (peer : List UInt8) (msg : StreamMessage Signature)
    (hw : Window streams ⟨peer, msg.streamId⟩ w)
    (h : shapeOk msg.sequence msg.content = false ∨ ∃ c, (msg.sequence, c) ∈ w ∧ c ≠ msg.content) :
    ∃ next, handlePart streams now peer msg = some (next, none) ∧ Assoc.get next ⟨peer, msg.streamId⟩ = none := by
  obtain ⟨next, out, hstep, hcases⟩ := handlePart_cases now peer msg hw
  have hconflict : ∀ e : Emission Signature, shapeOk msg.sequence msg.content = true →
      StreamState.IsEmission (w ++ [(msg.sequence, msg.content)]) e → False := by
    intro e hshape hall
    rcases h with h | ⟨c, hc, hne⟩
    · rw [hshape] at h
      cases h
    · exact hne (Emission.Sends.unique ((hall _ _).1 (List.mem_append_left _ hc))
        ((hall _ _).1 (List.mem_append_right _ (List.mem_singleton_self _))))
  rcases hcases with ⟨hid, rfl, rfl⟩ | ⟨-, hdelivery⟩
  · refine ⟨_, hstep, ?_⟩
    cases hget : Assoc.get next ⟨peer, msg.streamId⟩ with
    | none => rfl
    | some state => exact absurd hid (hs.ids _ state hget)
  · cases hdelivery with
    | ignored hadmits =>
      refine ⟨_, hstep, ?_⟩
      cases hget : Assoc.get streams ⟨peer, msg.streamId⟩ with
      | none => rfl
      | some state =>
        rw [admits, hget] at hadmits
        cases hadmits
    | dropped _ => exact ⟨_, hstep, by rw [Assoc.get_remove, if_pos rfl]⟩
    | taken state hshape _ hnew _ _ =>
      rcases h with h | ⟨c, hc, hne⟩
      · rw [hshape] at h
        cases h
      · exact absurd (hnew c hc) hne
    | completed e hshape _ _ hall => exact (hconflict e hshape hall).elim

end

theorem stream_laws (Signature : Type) [DecidableEq Signature] : StreamLaws Signature where
  bounded := by
    intro es
    obtain ⟨streams, hafter, hs, -⟩ := run_sound es (soundStreams_nil : SoundStreams ([] : Streams Signature))
    exact ⟨streams, hafter, hs.total, hs.perPeer, fun _ h => hs.buffered h⟩
  completes := by
    intro a ha key before streams es ev hpos hlen hbefore hnew hspared hsent hmissing hslot
    refine emission_completes ha ?_ (afterEvents_sound hbefore key).1 hnew hspared hsent hmissing hslot
    rintro (hnil | hlong)
    · rw [hnil] at hpos
      exact absurd hpos (by decide)
    · omega
  whole := by
    intro es streams next now peer msg a hafter h
    exact window_completed (afterEvents_sound hafter _).2 h
  drops := by
    intro es streams now peer msg hafter h
    obtain ⟨hs, hw⟩ := afterEvents_sound hafter ⟨peer, msg.streamId⟩
    exact conflict_drops hs now peer msg hw h

/-! ### Two emissions under one stream -/

def mixedKey : StreamKey := ⟨[1], [7]⟩

def mixedHeader (round : UInt32) : ProposalInit := ⟨5, .some round, .nil, Vector.replicate 20 0⟩

def mixedFirst : AssembledParts Bool := ⟨mixedHeader 0, [10], ⟨false⟩⟩

def mixedSecond : AssembledParts Bool := ⟨mixedHeader 1, [20], ⟨true⟩⟩

def mixedPart (seq : UInt64) (content : StreamContent Bool) : StreamEvent Bool :=
  .part 0 mixedKey.peer ⟨mixedKey.stream, seq, content⟩

/-- The second chunk contradicts the first, and the stream starts over. -/
def mixedRun : List (StreamEvent Bool) :=
  [mixedPart 1 (.data (.data [10])), mixedPart 1 (.data (.data [20])), mixedPart 0 (.data (.init (mixedHeader 0))),
    mixedPart 1 (.data (.data [20])), mixedPart 2 (.data (.fin ⟨false⟩)), mixedPart 3 .fin]

/-- A stream that took conflicting parts completes later with the header of one emission and the data of another. -/
theorem mixed_emissions_complete :
    (∀ m ∈ mixedRun.filterMap (StreamEvent.slot mixedKey), m ∈ mixedFirst.emitted ∨ m ∈ mixedSecond.emitted) ∧
      handedOver [] mixedRun = [⟨mixedFirst.init, mixedSecond.data, mixedFirst.fin⟩] ∧
      mixedFirst.init ≠ mixedSecond.init ∧ mixedFirst.data ≠ mixedSecond.data := by
  refine ⟨?_, by decide +kernel, by decide, by decide⟩
  have hchunks : ∀ byte : UInt8, chunks proposalChunkBytes [byte] = [[byte]] := fun byte => by
    simp [chunks, proposalChunkBytes]
  have hfirst : mixedFirst.emitted = [(0, .data (.init (mixedHeader 0))), (1, .data (.data [10])),
      (2, .data (.fin ⟨false⟩)), (3, .fin)] := by
    simp [AssembledParts.emitted, sendPartStream, AssembledParts.parts, dataParts, mixedFirst, hchunks]
  have hsecond : mixedSecond.emitted = [(0, .data (.init (mixedHeader 1))), (1, .data (.data [20])),
      (2, .data (.fin ⟨true⟩)), (3, .fin)] := by
    simp [AssembledParts.emitted, sendPartStream, AssembledParts.parts, dataParts, mixedSecond, hchunks]
  rw [hfirst, hsecond]
  decide

end Valhalla.RoomsNode
