import Valhalla.Lib.Wire
import Valhalla.Witness.World

/-!
# The canonical encoding of programs (`codec.rs`)

Writers return the bytes they append; readers consume the front of the bytes left. A reader error carries
the field it is about. The codec of every type says that its reader accepts exactly what its writer
writes, and a size bound says how much that is.
-/

namespace Valhalla.Witness
open Fallible FixedWidth

def version : UInt8 := 1
def languageFiniteRuleV1 : UInt8 := 1
def maxCases : Nat := 8

def maxConditionBytes : Nat := 3
def maxActionBytes : Nat := 5
def maxRuleBytes : Nat := 1 + maxConditions * maxConditionBytes + maxActionBytes + 3
def maxProgramBodyBytes : Nat := 1 + maxRules * maxRuleBytes
def maxProgramBytes : Nat := 2 + maxProgramBodyBytes
def maxAssignmentBytes : Nat := 3 + maxCells * (2 + maxProgramBodyBytes)

/-- Fields a truncated or malformed input can fail on. -/
inductive Field
  | version | language | count | bool | slot | port | valve | value | direction | relative | condition
  | action | bitSource | remember | cellId | point | spark | source | depot | beacon | valveSpec | cell
  | link | endpoint | event | case | contract | status | hash | ledger
deriving DecidableEq, Repr

inductive CodecError
  | tooLarge (actual limit : Nat)
  | truncated (field : Field)
  | trailingBytes (count : Nat)
  | unsupportedVersion (found : UInt8)
  | unsupportedLanguage (found : UInt8)
  | discriminant (field : Field) (found : UInt8)
  | bound (field : Field)
  | unsorted (field : Field)
  | model (error : ModelError)
deriving DecidableEq, Repr

abbrev GetM := Reader CodecError

/-! ### Fields -/

def putU8 (value : UInt8) : List UInt8 := [value]
def putU16 (value : UInt16) : List UInt8 := toBe value
def putU32 (value : UInt32) : List UInt8 := toBe value
def putU64 (value : UInt64) : List UInt8 := toBe value
def putBool (value : Bool) : List UInt8 := putU8 (if value then 1 else 0)

def getU8 (field : Field) : GetM UInt8 := Reader.int (.truncated field)
def getU16 (field : Field) : GetM UInt16 := Reader.int (.truncated field)
def getU32 (field : Field) : GetM UInt32 := Reader.int (.truncated field)
def getU64 (field : Field) : GetM UInt64 := Reader.int (.truncated field)

def getBool (field : Field) : GetM Bool := do
  match ← getU8 field with
  | 0 => pure false
  | 1 => pure true
  | found => throw (.discriminant field found)

/-- `n` raw bytes (a digest or a memory). -/
def getBytes (n : Nat) (field : Field) : GetM (Vector UInt8 n) := do
  let bytes ← Reader.take (.truncated field) n
  if h : bytes.length = n then pure ⟨bytes.toArray, h⟩ else throw (.truncated field)

/-- A one-byte count at most `limit`. -/
def getCount (limit : Nat) (field : Field) : GetM Nat := do
  let count ← getU8 field
  if count.toNat > limit then throw (.bound field) else pure count.toNat

/-- `len as u8`. -/
def putCount (len : Nat) : List UInt8 := putU8 (UInt8.ofNat len)

def header : GetM Unit := do
  let found ← getU8 .version
  if found ≠ version then throw (.unsupportedVersion found)
  else do
    let found ← getU8 .language
    if found ≠ languageFiniteRuleV1 then throw (.unsupportedLanguage found) else pure ()

def putHeader : List UInt8 := putU8 version ++ putU8 languageFiniteRuleV1

/-- `Option` behind a 0 or 1 tag. -/
def getOption {α : Type} (field : Field) (get : GetM α) : GetM (Option α) := do
  match ← getU8 field with
  | 0 => pure none
  | 1 => do
    let a ← get
    pure (some a)
  | found => throw (.discriminant field found)

def putOption {α : Type} (put : α → List UInt8) : Option α → List UInt8
  | none => putU8 0
  | some a => putU8 1 ++ put a

/-- A list behind a one-byte count at most `limit`. -/
def getList {α : Type} (limit : Nat) (get : GetM α) : GetM (List α) := do
  let count ← getCount limit .count
  Reader.replicate get count

def putList {α : Type} (put : α → List UInt8) (l : List α) : List UInt8 := putCount l.length ++ l.flatMap put

def ofModel {α : Type} : Except ModelError α → GetM α
  | .ok a => pure a
  | .error e => throw (.model e)

/-! ### Programs -/

def directionTag : Direction → UInt8
  | .north => 1
  | .east => 2
  | .south => 3
  | .west => 4

def getDirection : GetM Direction := do
  match ← getU8 .direction with
  | 1 => pure .north
  | 2 => pure .east
  | 3 => pure .south
  | 4 => pure .west
  | found => throw (.discriminant .direction found)

def relativeTag : Relative → UInt8
  | .forward => 1
  | .left => 2
  | .right => 3
  | .back => 4

def getRelative : GetM Relative := do
  match ← getU8 .relative with
  | 1 => pure .forward
  | 2 => pure .left
  | 3 => pure .right
  | 4 => pure .back
  | found => throw (.discriminant .relative found)

def getSlot : GetM Slot := do
  let index ← getU8 .slot
  okOr (.bound .slot) (Slot.new index)

def getPort : GetM Port := do
  let index ← getU8 .port
  okOr (.bound .port) (Port.new index)

def putCondition : Condition → List UInt8
  | .carrying value => putU8 1 ++ putBool value
  | .atSource value => putU8 2 ++ putBool value
  | .atDepot value => putU8 3 ++ putBool value
  | .atBeacon value => putU8 4 ++ putBool value
  | .atReceiver value => putU8 5 ++ putBool value
  | .blocked direction value => putU8 6 ++ (putU8 (relativeTag direction) ++ putBool value)
  | .hasMessage port value => putU8 7 ++ (putU8 port.get ++ putBool value)
  | .messageBit port value => putU8 8 ++ (putU8 port.get ++ putBool value)
  | .memory slot value => putU8 9 ++ (putU8 slot.get ++ putU8 value)
  | .heading direction => putU8 10 ++ putU8 (directionTag direction)

def getCondition : GetM Condition := do
  match ← getU8 .condition with
  | 1 => do let value ← getBool .bool; pure (.carrying value)
  | 2 => do let value ← getBool .bool; pure (.atSource value)
  | 3 => do let value ← getBool .bool; pure (.atDepot value)
  | 4 => do let value ← getBool .bool; pure (.atBeacon value)
  | 5 => do let value ← getBool .bool; pure (.atReceiver value)
  | 6 => do let direction ← getRelative; let value ← getBool .bool; pure (.blocked direction value)
  | 7 => do let port ← getPort; let value ← getBool .bool; pure (.hasMessage port value)
  | 8 => do let port ← getPort; let value ← getBool .bool; pure (.messageBit port value)
  | 9 => do let slot ← getSlot; let value ← getU8 .value; pure (.memory slot value)
  | 10 => do let direction ← getDirection; pure (.heading direction)
  | found => throw (.discriminant .condition found)

def putBitSource : BitSource → List UInt8
  | .constant value => putU8 1 ++ putBool value
  | .memory slot => putU8 2 ++ putU8 slot.get
  | .message port => putU8 3 ++ putU8 port.get

def getBitSource : GetM BitSource := do
  match ← getU8 .bitSource with
  | 1 => do let value ← getBool .bool; pure (.constant value)
  | 2 => do let slot ← getSlot; pure (.memory slot)
  | 3 => do let port ← getPort; pure (.message port)
  | found => throw (.discriminant .bitSource found)

def putAction : Action → List UInt8
  | .move direction => putU8 1 ++ putU8 (relativeTag direction)
  | .turn direction => putU8 2 ++ putU8 (relativeTag direction)
  | .pickup => putU8 3
  | .drop => putU8 4
  | .wait => putU8 5
  | .writeMemory slot value => putU8 6 ++ (putU8 slot.get ++ putU8 value)
  | .takeMessage port slot => putU8 7 ++ (putU8 port.get ++ putU8 slot.get)
  | .send port bit => putU8 8 ++ (putU8 port.get ++ putBitSource bit)
  | .route valve bit => putU8 9 ++ (putU16 valve.get ++ putBitSource bit)

def getValveId : GetM ValveId := do
  let valve ← getU16 .valve
  pure ⟨valve⟩

def getAction : GetM Action := do
  match ← getU8 .action with
  | 1 => do let direction ← getRelative; pure (.move direction)
  | 2 => do let direction ← getRelative; pure (.turn direction)
  | 3 => pure .pickup
  | 4 => pure .drop
  | 5 => pure .wait
  | 6 => do let slot ← getSlot; let value ← getU8 .value; pure (.writeMemory slot value)
  | 7 => do let port ← getPort; let slot ← getSlot; pure (.takeMessage port slot)
  | 8 => do let port ← getPort; let bit ← getBitSource; pure (.send port bit)
  | 9 => do let valve ← getValveId; let bit ← getBitSource; pure (.route valve bit)
  | found => throw (.discriminant .action found)

def putMemoryWrite (write : MemoryWrite) : List UInt8 := putU8 write.slot.get ++ putU8 write.value

def getMemoryWrite : GetM MemoryWrite := do
  let slot ← getSlot
  let value ← getU8 .value
  pure ⟨slot, value⟩

def putRule (rule : Rule) : List UInt8 :=
  putList putCondition rule.when ++ (putAction rule.action ++ putOption putMemoryWrite rule.remember)

def getRule : GetM Rule := do
  let when ← getList maxConditions getCondition
  let action ← getAction
  let remember ← getOption .remember getMemoryWrite
  ofModel (Rule.new when action remember)

def putProgramBody (program : Program) : List UInt8 := putList putRule program.rules

def getProgramBody : GetM Program := do
  let rules ← getList maxRules getRule
  ofModel (Program.new rules)

def decodeBounded {α : Type} (limit : Nat) (get : GetM α) (raw : List UInt8) : Except CodecError α :=
  Reader.decode .tooLarge .trailingBytes limit get raw

def encodeProgram (program : Program) : List UInt8 := putHeader ++ putProgramBody program

def decodeProgram (raw : List UInt8) : Except CodecError Program :=
  decodeBounded maxProgramBytes (do header; getProgramBody) raw

def putCandidateEntry (entry : UInt16 × Program) : List UInt8 := putU16 entry.1 ++ putProgramBody entry.2

def getCellAbove (previous : Option UInt16) : GetM UInt16 := do
  let cell ← getU16 .cellId
  if previous.any fun last => decide (cell ≤ last) then throw (.unsorted .cellId) else pure cell

def getCandidateEntry (previous : Option UInt16) : GetM (UInt16 × Program) := do
  let cell ← getCellAbove previous
  let program ← getProgramBody
  pure (cell, program)

def putCandidate (programs : List (UInt16 × Program)) : List UInt8 := putList putCandidateEntry programs

def getCandidate : GetM (List (UInt16 × Program)) := do
  let count ← getCount maxCells .count
  Reader.many (fun _ entry => some entry.1) getCandidateEntry count none

/-- Encodes `(cell id, program)` pairs that are already sorted. -/
def encodeCandidate (programs : List (UInt16 × Program)) : List UInt8 := putHeader ++ putCandidate programs

def encodeAssignment (assignment : Assignment) : List UInt8 :=
  encodeCandidate (assignment.cells.zip assignment.programs)

def decodeCandidate (raw : List UInt8) : Except CodecError (List (UInt16 × Program)) :=
  decodeBounded maxAssignmentBytes (do header; getCandidate) raw

end Valhalla.Witness
