import Valhalla.Lib.Assoc
import Valhalla.Lib.Maps
import Valhalla.RoomsNode.Wire

/-!
# Proposal streams (`App::handle_part` of `vhalla-rooms-node`)

The parts of a proposed value as a proposer emits them, and the streams that a node puts together from the messages
it receives. A step that returns `none` is one where the code would subtract below zero.
-/

namespace Valhalla.RoomsNode
open FixedWidth

def proposalChunkBytes : Nat := 768
def maxProposalStreams : Nat := 128
def maxProposalStreamsPerPeer : Nat := 4
def maxProposalChunks : Nat := (maxValueBytes + proposalChunkBytes - 1) / proposalChunkBytes

/-- Nanoseconds after which an unfinished stream is dropped. -/
def streamStale : Nat := 60 * 1000000000

/-! ### Emitting -/

/-- `slice::chunks` -/
def chunks (n : Nat) (l : List UInt8) : List (List UInt8) :=
  if _h : n = 0 ∨ l = [] then [] else l.take n :: chunks n (l.drop n)
termination_by l.length
decreasing_by
  have hlen : l.length ≠ 0 := fun he => _h (.inr (List.eq_nil_of_length_eq_zero he))
  rw [List.length_drop]
  omega

section
variable {Signature : Type}

def dataParts (data : List UInt8) : List (RoomPart Signature) := (chunks proposalChunkBytes data).map .data

/-- What a completed stream hands over. -/
structure AssembledParts (Signature : Type) where
  init : ProposalInit
  data : List UInt8
  fin : ProposalFin Signature
deriving DecidableEq

/-- `sign_parts`: the parts of a value with the signature over it. -/
def AssembledParts.parts (a : AssembledParts Signature) : List (RoomPart Signature) :=
  .init a.init :: (dataParts a.data ++ [.fin a.fin])

/-- `send_part_stream`: consecutive sequences, and the marker of the end behind the parts. -/
def sendPartStream (streamId : List UInt8) (parts : List (RoomPart Signature)) : List (StreamMessage Signature) :=
  (parts.zipIdx.map fun (part, sequence) => ⟨streamId, UInt64.ofNat sequence, .data part⟩) ++
    [⟨streamId, UInt64.ofNat parts.length, .fin⟩]

/-! ### Receiving -/

structure StreamState (Signature : Type) where
  init : Option ProposalInit
  data : Std.ExtTreeMap UInt64 (List UInt8)
  dataLen : Nat
  fin : Option (ProposalFin Signature)
  finSequence : Option UInt64
  endSequence : Option UInt64
  firstSeen : Option Nat

structure StreamKey where
  peer : List UInt8
  stream : List UInt8
deriving DecidableEq

abbrev Streams (Signature : Type) := List (StreamKey × StreamState Signature)

def StreamState.default : StreamState Signature := ⟨none, ∅, 0, none, none, none, none⟩

def validPartHeader (init : ProposalInit) : Bool :=
  match init.round with
  | .nil => false
  | .some round =>
    decide (0 < init.height) && decide (init.height.toNat + round.toNat < 2 ^ 64) &&
      match init.polRound with
      | .nil => true
      | .some pol => decide (pol < round)

/-- The shape that `sendPartStream` gives a stream. -/
def shapeOk (seq : UInt64) : StreamContent Signature → Bool
  | .data (.init init) => decide (seq = 0) && validPartHeader init
  | .data (.data data) => decide (1 ≤ seq.toNat ∧ seq.toNat ≤ maxProposalChunks) && !data.isEmpty &&
      decide (data.length ≤ proposalChunkBytes)
  | .data (.fin _) => decide (2 ≤ seq.toNat ∧ seq.toNat ≤ maxProposalChunks + 1)
  | .fin => decide (3 ≤ seq.toNat ∧ seq.toNat ≤ maxProposalChunks + 2)

/-- `n - 1` -/
def pred (n : UInt64) : Option UInt64 := checkedSub n 1

/-- `is_some_and` of a condition that subtracts. -/
def someAnd {α : Type} (o : Option α) (p : α → Option Bool) : Option Bool :=
  match o with
  | none => some false
  | some a => p a

/-- `||` -/
def orElse (a b : Option Bool) : Option Bool := do
  if ← a then pure true else b

namespace StreamState

def acceptInit (state : StreamState Signature) (init : ProposalInit) : Option (Option (StreamState Signature)) :=
  if state.init.any (· ≠ init) then some none else some (some { state with init := some init })

def acceptData (state : StreamState Signature) (seq : UInt64) (data : List UInt8) : Option (Option (StreamState Signature)) := do
  let refused ← orElse (someAnd state.finSequence fun fin => some (decide (fin ≤ seq)))
    (someAnd state.endSequence fun end' => (pred end').map fun last => decide (last ≤ seq))
  if refused then pure none
  else match state.data[seq]? with
    | some old => pure (if old = data then some state else none)
    | none =>
      if state.data.size ≥ maxProposalChunks ∨ state.dataLen + data.length > maxValueBytes then pure none
      else pure (some { state with dataLen := state.dataLen + data.length, data := state.data.insert seq data })

def acceptFin [DecidableEq Signature] (state : StreamState Signature) (seq : UInt64) (fin : ProposalFin Signature) :
    Option (Option (StreamState Signature)) := do
  let refused ← orElse (some (state.finSequence.any (· ≠ seq)))
    (orElse (someAnd state.endSequence fun end' => (pred end').map fun last => decide (seq ≠ last))
    (some (state.fin.any (· ≠ fin) || state.data.toList.any fun e => decide (seq ≤ e.1))))
  if refused then pure none else pure (some { state with fin := some fin, finSequence := some seq })

def acceptEnd (state : StreamState Signature) (seq : UInt64) : Option (Option (StreamState Signature)) := do
  let refused ← orElse (some (state.endSequence.any (· ≠ seq)))
    (orElse (someAnd state.finSequence fun fin => (pred seq).map fun last => decide (fin ≠ last))
    (if state.data.isEmpty then some false
      else (pred seq).map fun last => state.data.toList.any fun e => decide (last ≤ e.1)))
  if refused then pure none else pure (some { state with endSequence := some seq })

def accept [DecidableEq Signature] (state : StreamState Signature) (seq : UInt64) :
    StreamContent Signature → Option (Option (StreamState Signature))
  | .data (.init init) => state.acceptInit init
  | .data (.data data) => state.acceptData seq data
  | .data (.fin fin) => state.acceptFin seq fin
  | .fin => state.acceptEnd seq

def complete (state : StreamState Signature) : Option Bool :=
  someAnd state.endSequence fun end' =>
    if state.init.isNone then some false
    else do
      let last ← pred end'
      pure (decide (state.finSequence = some last) && decide (state.data.size + 2 = end'.toNat) &&
        decide (state.data.toList.map (·.1.toNat) = List.range' 1 (last.toNat - 1)))

/-- The chunks in the order of their sequences. -/
def assemble (state : StreamState Signature) : Option (AssembledParts Signature) := do
  let init ← state.init
  let fin ← state.fin
  pure ⟨init, (state.data.toList.map Prod.snd).flatten, fin⟩

end StreamState

def admits (streams : Streams Signature) (key : StreamKey) : Bool :=
  (Assoc.get streams key).isSome ||
    !(decide (streams.length ≥ maxProposalStreams) ||
      decide (Assoc.count (fun k : StreamKey => k.peer = key.peer) streams ≥ maxProposalStreamsPerPeer))

/-- The streams after one message, and the parts handed to `complete_part_stream`. -/
def handlePart [DecidableEq Signature] (streams : Streams Signature) (now : Nat) (peer : List UInt8)
    (part : StreamMessage Signature) : Option (Streams Signature × Option (AssembledParts Signature)) :=
  if part.streamId.isEmpty || decide (part.streamId.length > 64) then some (streams, none)
  else
    let key : StreamKey := ⟨peer, part.streamId⟩
    if !shapeOk part.sequence part.content then some (Assoc.remove streams key, none)
    else if !admits streams key then some (streams, none)
    else do
      let state := (Assoc.get streams key).getD .default
      let state := { state with firstSeen := some (state.firstSeen.getD now) }
      match ← state.accept part.sequence part.content with
      | none => pure (Assoc.remove streams key, none)
      | some state =>
        if ← state.complete then pure (Assoc.remove streams key, state.assemble)
        else pure (Assoc.put streams key state, none)

def expireStreams (streams : Streams Signature) (now : Nat) : Streams Signature :=
  streams.filter fun e => e.2.firstSeen.all fun t => decide (now - t < streamStale)

/-- What `sweep_decided` does to the streams. -/
def sweepDecided (streams : Streams Signature) (height : UInt64) : Streams Signature :=
  streams.filter fun e => e.2.init.all fun init => decide (height < init.height)

/-! ### Runs -/

inductive StreamEvent (Signature : Type)
  | part (now : Nat) (peer : List UInt8) (msg : StreamMessage Signature)
  | expire (now : Nat)
  | sweep (height : UInt64)

def StreamEvent.step [DecidableEq Signature] (streams : Streams Signature) :
    StreamEvent Signature → Option (Streams Signature × Option (AssembledParts Signature))
  | .part now peer msg => handlePart streams now peer msg
  | .expire now => some (expireStreams streams now, none)
  | .sweep height => some (sweepDecided streams height, none)

def afterEvents [DecidableEq Signature] (streams : Streams Signature) : List (StreamEvent Signature) → Option (Streams Signature)
  | [] => some streams
  | e :: es => do
    let (next, _) ← e.step streams
    afterEvents next es

end

end Valhalla.RoomsNode
