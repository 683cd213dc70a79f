import Valhalla.RoomsNode.Reassembly

/-!
# Runs of the proposal streams

A window is what the stream of one peer took in since it was last admitted. Over every run, the streams stay within
their limits, a stream hands over exactly its window, and an emission hands itself over with its last missing message.
-/

namespace Valhalla.RoomsNode
open FixedWidth

section
variable {Signature : Type}

/-- Well-formed streams, within all limits. -/
structure SoundStreams (streams : Streams Signature) : Prop where
  distinct : Assoc.Distinct streams
  total : streams.length ≤ maxProposalStreams
  perPeer : ∀ peer, Assoc.count (fun k : StreamKey => k.peer = peer) streams ≤ maxProposalStreamsPerPeer
  ids : ∀ key state, Assoc.get streams key = some state → ¬ (key.stream = [] ∨ 64 < key.stream.length)
  holds : ∀ key state, Assoc.get streams key = some state → ∃ w, state.Holds w

/-- The stream of `key` has taken in `w`, or there is no such stream. -/
def Window (streams : Streams Signature) (key : StreamKey) (w : List (Slot Signature)) : Prop :=
  match Assoc.get streams key with
  | none => w = []
  | some state => state.Holds w

theorem window_of_none {streams : Streams Signature} {key : StreamKey} (h : Assoc.get streams key = none) :
    Window streams key [] := by
  rw [Window, h]

theorem Window.congr {streams streams' : Streams Signature} {key : StreamKey} {w : List (Slot Signature)}
    (h : Window streams key w) (heq : Assoc.get streams' key = Assoc.get streams key) : Window streams' key w := by
  rw [Window, heq]
  exact h

theorem SoundStreams.window {streams : Streams Signature} (hs : SoundStreams streams) (key : StreamKey) :
    ∃ w, Window streams key w := by
  cases hget : Assoc.get streams key with
  | none => exact ⟨[], window_of_none hget⟩
  | some state =>
    obtain ⟨w, hw⟩ := hs.holds key state hget
    refine ⟨w, ?_⟩
    rw [Window, hget]
    exact hw

/-! ### Outcomes of a message -/

/-- What becomes of a message for the stream of `key`, which holds `w`. -/
inductive Delivery (streams : Streams Signature) (key : StreamKey) (seq : UInt64) (c : StreamContent Signature)
    (w : List (Slot Signature)) : Streams Signature → Option (AssembledParts Signature) → Prop
  | ignored (h : admits streams key = false) : Delivery streams key seq c w streams none
  | dropped (h : shapeOk seq c = false ∨ shapeOk seq c = true ∧ admits streams key = true ∧
      (¬ ∃ e : Emission Signature, e.Bounded ∧ (∀ m ∈ w, e.Sends m.1 m.2) ∧ e.Sends seq c)) :
      Delivery streams key seq c w (Assoc.remove streams key) none
  | taken (state : StreamState Signature) (hshape : shapeOk seq c = true) (hadmits : admits streams key = true)
      (hnew : ∀ c', (seq, c') ∈ w → c' = c) (hholds : state.Holds (w ++ [(seq, c)]))
      (hpart : ¬ ∃ e : Emission Signature, e.chunks.length ≤ maxProposalChunks ∧ StreamState.IsEmission (w ++ [(seq, c)]) e) :
      Delivery streams key seq c w (Assoc.put streams key state) none
  | completed (e : Emission Signature) (hshape : shapeOk seq c = true) (hadmits : admits streams key = true)
      (hsize : e.chunks.length ≤ maxProposalChunks) (hall : StreamState.IsEmission (w ++ [(seq, c)]) e) :
      Delivery streams key seq c w (Assoc.remove streams key) (some e.assembled)

variable [DecidableEq Signature] {streams next : Streams Signature} {key : StreamKey} {w : List (Slot Signature)}
  {out : Option (AssembledParts Signature)}

theorem handlePart_cases (now : Nat) (peer : List UInt8) (msg : StreamMessage Signature)
    (hw : Window streams ⟨peer, msg.streamId⟩ w) : ∃ next out, handlePart streams now peer msg = some (next, out) ∧
      ((msg.streamId = [] ∨ 64 < msg.streamId.length) ∧ next = streams ∧ out = none ∨
        (¬ (msg.streamId = [] ∨ 64 < msg.streamId.length)) ∧
          Delivery streams ⟨peer, msg.streamId⟩ msg.sequence msg.content w next out) := by
  unfold handlePart
  by_cases hid : msg.streamId = [] ∨ 64 < msg.streamId.length
  · have hid' : (msg.streamId.isEmpty || decide (msg.streamId.length > 64)) = true := by simpa using hid
    exact ⟨streams, none, if_pos hid', .inl ⟨hid, rfl, rfl⟩⟩
  have hid' : ¬ (msg.streamId.isEmpty || decide (msg.streamId.length > 64)) = true := by simpa using hid
  rw [if_neg hid']
  cases hshape : shapeOk msg.sequence msg.content with
  | false => exact ⟨_, none, rfl, .inr ⟨hid, .dropped (.inl hshape)⟩⟩
  | true =>
    cases hadmits : admits streams ⟨peer, msg.streamId⟩ with
    | false =>
      refine ⟨streams, none, ?_, .inr ⟨hid, .ignored hadmits⟩⟩
      simp only [hadmits, Bool.not_true, Bool.not_false, Bool.false_eq_true, if_false, if_true]
    | true =>
      simp only [hadmits, Bool.not_true, Bool.false_eq_true, if_false]
      have hholds : ((Assoc.get streams ⟨peer, msg.streamId⟩).getD .default).Holds w := by
        cases hget : Assoc.get streams ⟨peer, msg.streamId⟩ with
        | none =>
          rw [Window, hget] at hw
          rw [hw]
          exact holds_default
        | some state =>
          rw [Window, hget] at hw
          exact hw
      generalize hstate : (Assoc.get streams ⟨peer, msg.streamId⟩).getD StreamState.default = state at hholds
      have hseen := hholds.seen (some (state.firstSeen.getD now))
      rcases hseen.accept hshape with hrefused | ⟨state', haccept, hholds'⟩
      · rw [hrefused]
        refine ⟨_, none, rfl, .inr ⟨hid, .dropped (.inr ⟨hshape, hadmits, ?_⟩)⟩⟩
        rintro ⟨e, he, hsends, hsent⟩
        obtain ⟨state', haccept, -⟩ := hseen.accept_emission hsends he hsent hshape
        rw [hrefused] at haccept
        cases haccept
      · rw [haccept]
        have hnew : ∀ c', (msg.sequence, c') ∈ w → c' = msg.content := by
          intro c' hmem
          refine Decidable.byContradiction fun hne => ?_
          rw [hseen.accept_conflict hshape hmem hne] at haccept
          cases haccept
        obtain ⟨b, hcomplete, -⟩ := hholds'.complete_eq
        cases b with
        | false =>
          refine ⟨Assoc.put streams ⟨peer, msg.streamId⟩ state', none, ?_,
            .inr ⟨hid, .taken state' hshape hadmits hnew hholds' ?_⟩⟩
          · show (do
              let done ← state'.complete
              if done then pure _ else pure _) = _
            rw [hcomplete]
            rfl
          · rintro ⟨e, hsize, he⟩
            rw [(hholds'.complete_of he hsize).1] at hcomplete
            cases hcomplete
        | true =>
          obtain ⟨e, he, hsize, hassemble⟩ := hholds'.of_complete hcomplete
          refine ⟨Assoc.remove streams ⟨peer, msg.streamId⟩, some e.assembled, ?_,
            .inr ⟨hid, .completed e hshape hadmits hsize he⟩⟩
          show (do
            let done ← state'.complete
            if done then pure (_, state'.assemble) else pure _) = _
          rw [hcomplete, hassemble]
          rfl

namespace Delivery
variable {seq : UInt64} {c : StreamContent Signature}

omit [DecidableEq Signature] in
theorem other (h : Delivery streams key seq c w next out) {k : StreamKey} (hk : k ≠ key) :
    Assoc.get next k = Assoc.get streams k := by
  cases h with
  | ignored _ => rfl
  | dropped _ | completed _ _ _ _ _ => rw [Assoc.get_remove, if_neg (Ne.symm hk)]
  | taken _ _ _ _ _ _ => rw [Assoc.get_put, if_neg (Ne.symm hk)]

omit [DecidableEq Signature] in
theorem window (h : Delivery streams key seq c w next out) :
    Window next key (if (Assoc.get next key).isNone then [] else w ++ [(seq, c)]) := by
  cases h with
  | ignored hadmits =>
    have hnone : Assoc.get streams key = none := by
      cases hget : Assoc.get streams key with
      | none => rfl
      | some state =>
        rw [admits, hget] at hadmits
        cases hadmits
    rw [hnone]
    exact window_of_none hnone
  | dropped _ | completed _ _ _ _ _ =>
    have hnone : Assoc.get (Assoc.remove streams key) key = none := by rw [Assoc.get_remove, if_pos rfl]
    rw [hnone]
    exact window_of_none hnone
  | taken state _ _ _ hholds _ =>
    have hsome : Assoc.get (Assoc.put streams key state) key = some state := by rw [Assoc.get_put, if_pos rfl]
    rw [Window, hsome]
    exact hholds

omit [DecidableEq Signature] in
theorem sound (h : Delivery streams key seq c w next out) (hs : SoundStreams streams)
    (hid : ¬ (key.stream = [] ∨ 64 < key.stream.length)) : SoundStreams next := by
  have hremove : SoundStreams (Assoc.remove streams key) := by
    refine ⟨hs.distinct.remove, ?_, fun peer => Nat.le_trans Assoc.count_remove_le (hs.perPeer peer), fun k state hk => ?_,
      fun k state hk => ?_⟩
    · exact Nat.le_trans (List.length_filter_le ..) hs.total
    · rw [Assoc.get_remove] at hk
      split at hk
      · cases hk
      · exact hs.ids k state hk
    · rw [Assoc.get_remove] at hk
      split at hk
      · cases hk
      · exact hs.holds k state hk
  cases h with
  | ignored _ => exact hs
  | dropped _ | completed _ _ _ _ _ => exact hremove
  | taken state _ hadmits _ hholds _ =>
    refine ⟨hs.distinct.put, ?_, fun peer => ?_, fun k other hk => ?_, fun k other hk => ?_⟩
    · have hall : ∀ m : Streams Signature, Assoc.count (fun _ : StreamKey => true) m = m.length := fun m => by
        rw [Assoc.count, List.filter_true]
      rw [← hall]
      cases hget : Assoc.get streams key with
      | some old => exact Nat.le_trans (Assoc.count_put_of_get hget) (by rw [hall]; exact hs.total)
      | none =>
        simp only [admits, hget, Option.isSome_none, Bool.false_or, Bool.not_eq_true', Bool.or_eq_false_iff,
          decide_eq_false_iff_not] at hadmits
        have hput := Assoc.count_put_le (p := fun _ : StreamKey => true) (m := streams) (k := key) (v := state)
        rw [hall] at hput
        rw [hall] at hput ⊢
        omega
    · cases hget : Assoc.get streams key with
      | some old => exact Nat.le_trans (Assoc.count_put_of_get hget) (hs.perPeer peer)
      | none =>
        by_cases hpeer : key.peer = peer
        · subst hpeer
          simp only [admits, hget, Option.isSome_none, Bool.false_or, Bool.not_eq_true', Bool.or_eq_false_iff,
            decide_eq_false_iff_not] at hadmits
          have hput := Assoc.count_put_le (p := fun k : StreamKey => k.peer = key.peer) (m := streams) (k := key) (v := state)
          omega
        · exact Nat.le_trans (Assoc.count_put_of_not (by simpa using hpeer)) (hs.perPeer peer)
    · rw [Assoc.get_put] at hk
      split at hk
      · rename_i heq
        exact heq ▸ hid
      · exact hs.ids k other hk
    · rw [Assoc.get_put] at hk
      split at hk
      · cases hk
        exact ⟨_, hholds⟩
      · exact hs.holds k other hk

end Delivery

omit [DecidableEq Signature] in
theorem SoundStreams.filter (hs : SoundStreams streams) (p : StreamKey × StreamState Signature → Bool) :
    SoundStreams (streams.filter p) := by
  have hget : ∀ k state, Assoc.get (streams.filter p) k = some state → Assoc.get streams k = some state := by
    intro k state hk
    rw [Assoc.get_filter hs.distinct, Option.filter_eq_some_iff] at hk
    exact hk.1
  exact ⟨hs.distinct.filter, Nat.le_trans (List.length_filter_le ..) hs.total,
    fun peer => Nat.le_trans Assoc.count_filter_le (hs.perPeer peer), fun k state hk => hs.ids k state (hget k state hk),
    fun k state hk => hs.holds k state (hget k state hk)⟩

omit [DecidableEq Signature] in
theorem Window.filter (hs : SoundStreams streams) (hw : Window streams key w) (p : StreamKey × StreamState Signature → Bool) :
    Window (streams.filter p) key (if (Assoc.get (streams.filter p) key).isNone then [] else w) := by
  cases hget : Assoc.get (streams.filter p) key with
  | none => exact window_of_none hget
  | some state =>
    have hold : Assoc.get streams key = some state := by
      rw [Assoc.get_filter hs.distinct, Option.filter_eq_some_iff] at hget
      exact hget.1
    exact hw.congr (hget.trans hold.symm)

/-! ### Events -/

namespace StreamEvent

/-- The message of an event for the stream of `key`. -/
def slot (key : StreamKey) : StreamEvent Signature → Option (Slot Signature)
  | .part _ peer msg => if peer = key.peer ∧ msg.streamId = key.stream then some (msg.sequence, msg.content) else none
  | .expire _ | .sweep _ => none

/-- The event neither refuses the stream of `key` for lack of room nor drops it as expired. -/
def Spares (key : StreamKey) (streams : Streams Signature) : StreamEvent Signature → Prop
  | .part _ peer msg => peer = key.peer → msg.streamId = key.stream → admits streams key = true
  | .expire now => Assoc.get (expireStreams streams now) key = Assoc.get streams key
  | .sweep height => Assoc.get (sweepDecided streams height) key = Assoc.get streams key

theorem step_sound (e : StreamEvent Signature) (hs : SoundStreams streams) : ∃ next out, e.step streams = some (next, out) ∧
    SoundStreams next ∧ ∀ key w, Window streams key w →
      Window next key (if (Assoc.get next key).isNone then [] else w ++ (e.slot key).toList) := by
  match e with
  | .part now peer msg =>
    obtain ⟨w₀, hw₀⟩ := hs.window ⟨peer, msg.streamId⟩
    obtain ⟨next, out, hstep, hcases⟩ := handlePart_cases now peer msg hw₀
    refine ⟨next, out, hstep, ?_, fun key w hw => ?_⟩
    · rcases hcases with ⟨-, rfl, -⟩ | ⟨hid, hdelivery⟩
      · exact hs
      · exact hdelivery.sound hs hid
    · by_cases hkey : (⟨peer, msg.streamId⟩ : StreamKey) = key
      · subst hkey
        obtain ⟨next', out', hstep', hcases'⟩ := handlePart_cases now peer msg hw
        rw [hstep] at hstep'
        cases hstep'
        have hslot : slot ⟨peer, msg.streamId⟩ (.part now peer msg) = some (msg.sequence, msg.content) :=
          if_pos ⟨rfl, rfl⟩
        rw [hslot]
        rcases hcases' with ⟨hid, rfl, -⟩ | ⟨-, hdelivery⟩
        · have hnone : Assoc.get next ⟨peer, msg.streamId⟩ = none := by
            cases hget : Assoc.get next ⟨peer, msg.streamId⟩ with
            | none => rfl
            | some state => exact absurd hid (hs.ids _ state hget)
          rw [hnone]
          exact window_of_none hnone
        · exact hdelivery.window
      · have hother : Assoc.get next key = Assoc.get streams key := by
          rcases hcases with ⟨-, rfl, -⟩ | ⟨-, hdelivery⟩
          · rfl
          · exact hdelivery.other (Ne.symm hkey)
        have hslot : slot key (.part now peer msg) = none := by
          refine if_neg ?_
          rintro ⟨rfl, hstream⟩
          exact hkey (hstream ▸ rfl)
        rw [hslot, Option.toList_none, List.append_nil]
        cases hget : Assoc.get next key with
        | none => exact window_of_none hget
        | some state => exact hw.congr hother
  | .expire now =>
    refine ⟨_, none, rfl, hs.filter _, fun key w hw => ?_⟩
    rw [slot, Option.toList_none, List.append_nil]
    exact hw.filter hs _
  | .sweep height =>
    refine ⟨_, none, rfl, hs.filter _, fun key w hw => ?_⟩
    rw [slot, Option.toList_none, List.append_nil]
    exact hw.filter hs _

end StreamEvent

/-! ### Runs -/

/-- What the stream of `key` has taken in since it was last admitted. -/
def windowAfter (key : StreamKey) (streams : Streams Signature) (w : List (Slot Signature)) :
    List (StreamEvent Signature) → List (Slot Signature)
  | [] => w
  | e :: es =>
    match e.step streams with
    | none => []
    | some (next, _) =>
      windowAfter key next (if (Assoc.get next key).isNone then [] else w ++ (e.slot key).toList) es

theorem run_sound (es : List (StreamEvent Signature)) (hs : SoundStreams streams) :
    ∃ next, afterEvents streams es = some next ∧ SoundStreams next ∧
      ∀ key w, Window streams key w → Window next key (windowAfter key streams w es) := by
  induction es generalizing streams with
  | nil => exact ⟨streams, rfl, hs, fun _ _ hw => hw⟩
  | cons e es ih =>
    obtain ⟨mid, out, hstep, hmid, hwindow⟩ := e.step_sound hs
    obtain ⟨next, hafter, hnext, hrun⟩ := ih hmid
    refine ⟨next, ?_, hnext, fun key w hw => ?_⟩
    · rw [afterEvents, hstep]
      exact hafter
    · rw [windowAfter, hstep]
      exact hrun key _ (hwindow key w hw)

omit [DecidableEq Signature] in
theorem soundStreams_nil : SoundStreams ([] : Streams Signature) :=
  ⟨List.nodup_nil, Nat.zero_le _, fun _ => Nat.zero_le _, fun _ _ h => (by cases h), fun _ _ h => (by cases h)⟩

/-! ### Runs of one emission -/

def Covers (e : Emission Signature) (w : List (Slot Signature)) : Prop := ∀ seq c, e.Sends seq c → (seq, c) ∈ w

/-- Every event of a run spares the stream of `key`. -/
def Spared (key : StreamKey) : Streams Signature → List (StreamEvent Signature) → Prop
  | _, [] => True
  | streams, e :: es => e.Spares key streams ∧ ∀ next out, e.step streams = some (next, out) → Spared key next es

theorem Spared.left {es es' : List (StreamEvent Signature)} (h : Spared key streams (es ++ es')) : Spared key streams es := by
  induction es generalizing streams with
  | nil => exact trivial
  | cons e es ih => exact ⟨h.1, fun next out hstep => ih (h.2 next out hstep)⟩

theorem Spared.last {es : List (StreamEvent Signature)} {e : StreamEvent Signature} (h : Spared key streams (es ++ [e]))
    (hafter : afterEvents streams es = some next) : e.Spares key next := by
  induction es generalizing streams with
  | nil =>
    cases hafter
    exact h.1
  | cons e' es ih =>
    rw [afterEvents] at hafter
    obtain ⟨⟨mid, out⟩, hstep, hrest⟩ := Option.bind_eq_some_iff.1 hafter
    exact ih (h.2 mid out hstep) hrest

variable {e : Emission Signature}

omit [DecidableEq Signature] in
theorem Delivery.honest {seq : UInt64} {c : StreamContent Signature} (h : Delivery streams key seq c w next out)
    (hbounded : e.Bounded) (hsent : ∀ m ∈ w, e.Sends m.1 m.2) (hsend : e.Sends seq c) (hshape : shapeOk seq c = true)
    (hadmits : admits streams key = true) :
    Covers e (w ++ [(seq, c)]) ∧ out = some e.assembled ∨
      ¬ Covers e (w ++ [(seq, c)]) ∧ out = none ∧ Window next key (w ++ [(seq, c)]) := by
  have hall : ∀ m ∈ w ++ [(seq, c)], e.Sends m.1 m.2 := by
    intro m hm
    rcases List.mem_append.1 hm with hm | hm
    · exact hsent m hm
    · obtain rfl := List.mem_singleton.1 hm
      exact hsend
  cases h with
  | ignored hrefused =>
    rw [hadmits] at hrefused
    cases hrefused
  | dropped hdrop =>
    rcases hdrop with hdrop | ⟨-, -, hnot⟩
    · rw [hshape] at hdrop
      cases hdrop
    · exact absurd ⟨e, hbounded, hsent, hsend⟩ hnot
  | taken state _ _ _ hholds hpart =>
    refine .inr ⟨fun hcovers => hpart ⟨e, hbounded.chunks, fun seq' c' => ⟨fun hm => hall _ hm, hcovers seq' c'⟩⟩, rfl, ?_⟩
    rw [Window, Assoc.get_put, if_pos rfl]
    exact hholds
  | completed e' _ _ hsize hemission =>
    have hcovers : Covers e (w ++ [(seq, c)]) := fun seq' c' hs =>
      (hemission seq' c').2 (Emission.covers_of_sends hsize (fun s d hd => hall _ ((hemission s d).2 hd)) hs)
    obtain rfl : e' = e := hemission.eq (fun seq' c' => ⟨fun hm => hall _ hm, hcovers seq' c'⟩) hsize
    exact .inl ⟨hcovers, rfl⟩

namespace StreamEvent

theorem other_window {ev : StreamEvent Signature} (hs : SoundStreams streams) (hw : Window streams key w)
    (hslot : ev.slot key = none) (hspares : ev.Spares key streams) (hstep : ev.step streams = some (next, out)) :
    Window next key w := by
  match ev, hslot, hspares, hstep with
  | .part now peer msg, hslot, _, hstep =>
    have hkey : (⟨peer, msg.streamId⟩ : StreamKey) ≠ key := by
      rintro rfl
      have hsome : slot ⟨peer, msg.streamId⟩ (.part now peer msg) = some (msg.sequence, msg.content) := if_pos ⟨rfl, rfl⟩
      rw [hsome] at hslot
      cases hslot
    obtain ⟨w₀, hw₀⟩ := hs.window ⟨peer, msg.streamId⟩
    obtain ⟨next', out', hstep', hcases⟩ := handlePart_cases now peer msg hw₀
    obtain ⟨rfl, rfl⟩ : next' = next ∧ out' = out := by
      have heq := hstep'.symm.trans hstep
      cases heq
      exact ⟨rfl, rfl⟩
    rcases hcases with ⟨-, rfl, -⟩ | ⟨-, hdelivery⟩
    · exact hw
    · exact hw.congr (hdelivery.other (Ne.symm hkey))
  | .expire now, _, hspares, hstep =>
    cases hstep
    exact hw.congr hspares
  | .sweep height, _, hspares, hstep =>
    cases hstep
    exact hw.congr hspares

theorem honest_step {ev : StreamEvent Signature} (hbounded : e.Bounded) (hshape : ∀ seq c, e.Sends seq c → shapeOk seq c = true)
    (hkey : ¬ (key.stream = [] ∨ 64 < key.stream.length)) (hs : SoundStreams streams) (hw : Window streams key w)
    (hsent : ∀ m ∈ w, e.Sends m.1 m.2) (hspares : ev.Spares key streams) {m : Slot Signature} (hslot : ev.slot key = some m)
    (hsend : e.Sends m.1 m.2) : ∃ next out, ev.step streams = some (next, out) ∧ SoundStreams next ∧
      (Covers e (w ++ [m]) ∧ out = some e.assembled ∨
        ¬ Covers e (w ++ [m]) ∧ out = none ∧ Window next key (w ++ [m])) := by
  match ev, hspares, hslot with
  | .expire _, _, hslot => cases hslot
  | .sweep _, _, hslot => cases hslot
  | .part now peer msg, hspares, hslot =>
    rw [slot] at hslot
    split at hslot
    · rename_i hmatch
      obtain ⟨rfl, hstream⟩ := hmatch
      cases hslot
      obtain ⟨peer, stream⟩ := key
      obtain rfl : msg.streamId = stream := hstream
      obtain ⟨next, out, hstep, hcases⟩ := handlePart_cases now peer msg hw
      rcases hcases with ⟨hid, -⟩ | ⟨-, hdelivery⟩
      · exact absurd hid hkey
      · exact ⟨next, out, hstep, hdelivery.sound hs hkey,
          hdelivery.honest hbounded hsent hsend (hshape _ _ hsend) (hspares rfl rfl)⟩
    · cases hslot

end StreamEvent

theorem honest_run (hbounded : e.Bounded) (hshape : ∀ seq c, e.Sends seq c → shapeOk seq c = true)
    (hkey : ¬ (key.stream = [] ∨ 64 < key.stream.length)) (es : List (StreamEvent Signature)) (hs : SoundStreams streams)
    (hw : Window streams key w) (hsent : ∀ m ∈ w ++ es.filterMap (StreamEvent.slot key), e.Sends m.1 m.2)
    (hspared : Spared key streams es) (hmissing : ¬ Covers e (w ++ es.filterMap (StreamEvent.slot key))) :
    ∃ next, afterEvents streams es = some next ∧ SoundStreams next ∧
      Window next key (w ++ es.filterMap (StreamEvent.slot key)) := by
  induction es generalizing streams w with
  | nil =>
    rw [List.filterMap_nil, List.append_nil]
    exact ⟨streams, rfl, hs, hw⟩
  | cons ev es ih =>
    obtain ⟨hspares, hrest⟩ := hspared
    cases hslot : ev.slot key with
    | none =>
      obtain ⟨mid, out, hstep, hmid, -⟩ := ev.step_sound hs
      rw [List.filterMap_cons_none hslot] at *
      obtain ⟨next, hafter, hnext⟩ :=
        ih hmid (StreamEvent.other_window hs hw hslot hspares hstep) hsent (hrest _ _ hstep) hmissing
      refine ⟨next, ?_, hnext⟩
      rw [afterEvents, hstep]
      exact hafter
    | some m =>
      rw [List.filterMap_cons_some hslot, List.append_cons] at *
      obtain ⟨mid, out, hstep, hmid, hcases⟩ := StreamEvent.honest_step hbounded hshape hkey hs hw
        (fun m hm => hsent m (by simp [hm])) hspares hslot (hsent m (by simp))
      rcases hcases with ⟨hcovers, -⟩ | ⟨-, -, hwindow⟩
      · exact absurd (fun seq c hc => List.mem_append_left _ (hcovers seq c hc)) hmissing
      · obtain ⟨next, hafter, hnext⟩ := ih hmid hwindow hsent (hrest _ _ hstep) hmissing
        refine ⟨next, ?_, hnext⟩
        rw [afterEvents, hstep]
        exact hafter

end

end Valhalla.RoomsNode
