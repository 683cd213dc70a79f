import Valhalla.Lib.Assoc
import Valhalla.RoomsConsensus.Application

/-!
# Submissions (`App::drain_intake` to `App::decide` of `vhalla-rooms-node`)

Bodies dropped into the intake, their markers under `store/pending`, the queue of what may be proposed next, and what
a decision or a restart makes of them. The adapter's answer to a certificate, and all that the node learns besides, are
inputs.
-/

namespace Valhalla.RoomsNode
open Fallible FixedWidth RoomsConsensus

abbrev FileName := List UInt8

abbrev Files := Std.ExtTreeMap FileName (List UInt8) compare

/-! ### Names -/

def hexDigit (n : UInt8) : UInt8 := if n < 10 then 48 + n else 87 + n

def hex (bytes : List UInt8) : FileName := bytes.flatMap fun b => [hexDigit (b / 16), hexDigit (b % 16)]

def hexValue (c : UInt8) : Option UInt8 :=
  if 48 ≤ c ∧ c ≤ 57 then some (c - 48)
  else if 97 ≤ c ∧ c ≤ 102 then some (c - 87)
  else if 65 ≤ c ∧ c ≤ 70 then some (c - 55)
  else none

def unhex : FileName → Option (List UInt8)
  | [] => some []
  | [_] => none
  | high :: low :: rest => do
    let high ← hexValue high
    let low ← hexValue low
    let bytes ← unhex rest
    pure ((16 * high + low) :: bytes)

def batchSuffix : FileName := ".batch".toUTF8.toList
def bodySuffix : FileName := ".body".toUTF8.toList
def eligibleSuffix : FileName := ".eligible".toUTF8.toList
def rotationSuffix : FileName := ".rotation".toUTF8.toList
def tmpSuffix : FileName := ".tmp".toUTF8.toList
def rejectedSuffix : FileName := ".rejected".toUTF8.toList

def endsWith (name suffix : FileName) : Bool := suffix.isSuffixOf name

def stripSuffix (name suffix : FileName) : Option FileName :=
  if endsWith name suffix then some (name.take (name.length - suffix.length)) else none

def stemOf (name : FileName) : Option FileName :=
  (stripSuffix name batchSuffix).or ((stripSuffix name bodySuffix).or
    ((stripSuffix name eligibleSuffix).or (stripSuffix name rotationSuffix)))

def isStemByte (c : UInt8) : Bool := Social.isAsciiAlphanumeric c || c == 46 || c == 45 || c == 95

def safeStem (stem : FileName) : Bool := decide (stem.length ≤ 64) && !stem.isEmpty && stem.all isStemByte

/-- `Path::with_extension`: the last extension is replaced, where there is a name before it. -/
def withExtension (name suffix : FileName) : FileName :=
  let before := (name.reverse.dropWhile fun c => c != 46).drop 1
  (if before.isEmpty then name else before.reverse) ++ suffix

/-! ### State -/

def decodeIntake (name : FileName) (bytes : List UInt8) : Option BatchBody :=
  if endsWith name batchSuffix then (Batch.decode bytes).toOption.map Batch.toBatchBody
  else if endsWith name eligibleSuffix then
    (decodeEligibleUpdate bytes).toOption.map fun set => ⟨0, [], [], [], some set, none⟩
  else if endsWith name rotationSuffix then
    (decodeRotationUpdate bytes).toOption.map fun rotation => ⟨0, [], [], [], none, some rotation⟩
  else (BatchBody.decode bytes).toOption

inductive PendingEntry
  | body (name : FileName)
  | value (id : Bytes32)
deriving DecidableEq

def PendingEntry.valueId : PendingEntry → Option Bytes32
  | .value id => some id
  | .body _ => none

def PendingEntry.turns : PendingEntry → Nat
  | .value _ => 2
  | .body _ => 1

def PendingEntry.name : PendingEntry → FileName
  | .body name => name
  | .value id => hex id.toList

/-- What the node keeps of submissions. `accepted` and `committed` record what has been taken in and what was acknowledged. -/
structure Submissions (crypto : Crypto) where
  app : Application crypto
  pending : Files
  queue : List PendingEntry
  assigned : List (Bytes32 × FileName)
  held : List (Bytes32 × Batch)
  proposals : List (UInt64 × Bytes32)
  rejected : List FileName
  accepted : List (FileName × BatchBody)
  committed : List Bytes32

def storeWrite (files : Files) (name : FileName) (bytes : List UInt8) : Files :=
  (files.erase (name ++ tmpSuffix)).insert name bytes

/-! ### Operations -/

namespace Submissions
variable {crypto : Crypto} (s : Submissions crypto)

def submitBody (name : FileName) (body : BatchBody) : Submissions crypto :=
  let s := { s with pending := storeWrite s.pending name body.encode }
  if !s.queue.any (fun e => e.name == name) && !s.assigned.any (fun e => e.2 == name) then
    { s with queue := s.queue ++ [.body name] }
  else s

/-- One file of the directory, with its bytes where they can be read. -/
def drainFile (file : FileName × Option (List UInt8)) : Submissions crypto :=
  match stemOf file.1 with
  | none => s
  | some stem =>
    match safeStem stem, file.2.bind (decodeIntake file.1) with
    | true, some body => { s.submitBody stem body with accepted := s.accepted ++ [(stem, body)] }
    | false, _ | true, none => { s with rejected := s.rejected ++ [withExtension file.1 rejectedSuffix] }

def drainIntake (files : List (FileName × Option (List UInt8))) : Submissions crypto := files.foldl drainFile s

def submit (batch : Batch) : Submissions crypto :=
  match s.app.validate batch with
  | .error _ => s
  | .ok _ =>
    let id := batch.valueId crypto
    let s := { s with
      held := Assoc.put s.held id batch
      pending := storeWrite s.pending (hex id.toList) [] }
    if !s.queue.any (fun e => e.valueId == some id) && !s.proposals.any (fun p => p.2 == id) then
      { s with queue := s.queue ++ [.value id] }
    else s

/-- A value at the front that can go as it is. -/
def goes (id : Bytes32) : Bool :=
  match Assoc.get s.held id with
  | none => false
  | some batch => (s.app.validate batch).isOk

/-- A lost height: the value goes back to its body, or is dropped. -/
def downgrade (id : Bytes32) (rest : List PendingEntry) : Submissions crypto :=
  match Assoc.get s.assigned id with
  | some name => { s with queue := rest ++ [.body name], assigned := Assoc.remove s.assigned id }
  | none => { s with queue := rest, pending := s.pending.erase (hex id.toList) }

def assemble (name : FileName) : Option (Checked crypto) := do
  let bytes ← s.pending[name]?
  let body ← (BatchBody.decode bytes).toOption
  (s.app.prepareWithGames body).toOption

def assign (name : FileName) (batch : Batch) (rest : List PendingEntry) : Submissions crypto :=
  let id := batch.valueId crypto
  { s with
    held := Assoc.put s.held id batch
    assigned := Assoc.put s.assigned id name
    queue := .value id :: rest }

def reject (name : FileName) (rest : List PendingEntry) : Submissions crypto :=
  { s with
    rejected := s.rejected ++ [name ++ rejectedSuffix]
    pending := s.pending.erase name
    queue := rest }

/-- One turn of the loop, with what it returns if it ends there. -/
def turn : Submissions crypto × Option (Option Bytes32) :=
  match s.queue with
  | [] => (s, some none)
  | .value id :: rest => if s.goes id then (s, some (some id)) else (s.downgrade id rest, none)
  | .body name :: rest =>
    match s.assemble name with
    | some checked => (s.assign name checked.batch rest, some (some (checked.batch.valueId crypto)))
    | none => (s.reject name rest, none)

def work : Nat := Weights.total PendingEntry.turns s.queue

theorem turn_work {s next : Submissions crypto} (h : s.turn = (next, none)) : next.work < s.work := by
  unfold turn at h
  split at h
  · cases h
  · rename_i id rest hqueue
    split at h
    · cases h
    · cases h
      rw [work, work, hqueue, Weights.total_cons]
      have hvalue : PendingEntry.turns (.value id) = 2 := rfl
      have hbody : ∀ name, PendingEntry.turns (.body name) = 1 := fun _ => rfl
      rw [downgrade]
      split
      · rw [Weights.total_append, Weights.total_cons, Weights.total_nil, hbody, hvalue]
        omega
      · rw [hvalue]
        exact Nat.lt_add_of_pos_left (by decide)
  · rename_i name rest hqueue
    split at h
    · cases h
    · cases h
      rw [work, work, hqueue, Weights.total_cons]
      exact Nat.lt_add_of_pos_left Nat.one_pos

def nextPending (s : Submissions crypto) : Submissions crypto × Option Bytes32 :=
  match _h : s.turn with
  | (next, some result) => (next, result)
  | (next, none) => nextPending next
termination_by s.work
decreasing_by exact turn_work _h

/-- The shared decided path after a certificate for `id` at `height` was verified. -/
def decide (height : UInt64) (id : Bytes32) (acked : Bool) (app : Application crypto) : Submissions crypto :=
  let s := { s with app, proposals := Assoc.remove s.proposals height }
  if acked then
    let pending := s.pending.erase (hex id.toList)
    { s with
      pending := match Assoc.get s.assigned id with
        | some name => pending.erase name
        | none => pending
      assigned := Assoc.remove s.assigned id
      queue := s.queue.filter fun e => e.valueId != some id
      committed := id :: s.committed }
  else s

/-- What a marker says at start: `none` removes it. -/
def reloadEntry (app : Application crypto) (held : List (Bytes32 × Batch)) (name : FileName) (bytes : List UInt8) :
    Option PendingEntry :=
  if bytes.isEmpty then do
    let raw ← unhex name
    if h : raw.toArray.size = 32 then
      let id : Bytes32 := ⟨raw.toArray, h⟩
      let batch ← Assoc.get held id
      if (app.validate batch).isOk then some (.value id) else none
    else none
  else if (BatchBody.decode bytes).isOk then some (.body name)
  else none

/-- A start on the files that are there, in the order of their names. -/
def reloadPending (app : Application crypto) (held : List (Bytes32 × Batch)) (proposals : List (UInt64 × Bytes32)) :
    Submissions crypto :=
  { s with
    app
    held
    proposals
    assigned := []
    pending := s.pending.filter fun name bytes => (reloadEntry app held name bytes).isSome
    queue := s.pending.toList.filterMap fun file => reloadEntry app held file.1 file.2 }

end Submissions

/-! ### Runs -/

inductive SubmissionEvent (crypto : Crypto)
  | drain (files : List (FileName × Option (List UInt8)))
  | submit (batch : Batch)
  | next
  | decide (height : UInt64) (id : Bytes32) (acked : Bool) (app : Application crypto)
  | restart (app : Application crypto) (held : List (Bytes32 × Batch)) (proposals : List (UInt64 × Bytes32))
  | other (app : Application crypto) (held : List (Bytes32 × Batch)) (proposals : List (UInt64 × Bytes32))

def SubmissionEvent.step {crypto : Crypto} (s : Submissions crypto) : SubmissionEvent crypto → Submissions crypto
  | .drain files => s.drainIntake files
  | .submit batch => s.submit batch
  | .next => s.nextPending.1
  | .decide height id acked app => s.decide height id acked app
  | .restart app held proposals => s.reloadPending app held proposals
  | .other app held proposals => { s with app, held, proposals }

def Submissions.start {crypto : Crypto} (app : Application crypto) : Submissions crypto :=
  ⟨app, ∅, [], [], [], [], [], [], []⟩

end Valhalla.RoomsNode
