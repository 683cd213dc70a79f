import Valhalla.Lib.Hex
import Valhalla.RoomActivity.Frame

/-!
# Continuity requests (`continuity.rs` and `request.rs` of `vhalla-public-protocol`)

What a requester may ask of a peer, with its canonical bytes, its target and the body of a mutation.
-/

namespace Valhalla.Continuity
open Fallible FixedWidth Check
open RoomActivity (EventId RoomScope VerifiedEvent zeroBytes maxEventBytes)

inductive Error
  | bounds | encoding | nonce | peer | network | request | body | signature
deriving DecidableEq, Repr

def stageEvents : Nat := 32
def maxPage : Nat := 32
def maxRequestBytes : Nat := 600
def maxTargetBytes : Nat := 30 + maxRequestBytes * 2
def maxBodyBytes : Nat := 6 + 33 * (2 + maxEventBytes)
def targetPrefix : List UInt8 := "/vhalla/v1/continuity?request=".toUTF8.toList
/-- `VHCQ`, version 1. -/
def requestMagic : List UInt8 := [0x56, 0x48, 0x43, 0x51, 1]
/-- `VHCC` and `VHCS`, version 1. -/
def commitMagic : List UInt8 := [0x56, 0x48, 0x43, 0x43, 1]
def stageMagic : List UInt8 := [0x56, 0x48, 0x43, 0x53, 1]

def expect (magic : List UInt8) : Reader Error Unit := do
  let found ← Reader.take .encoding magic.length
  if found ≠ magic then throw .encoding else pure ()

/-- `framed`, `end` and what stands between them. -/
def framed {α : Type} (magic : List UInt8) (limit : Nat) (get : Reader Error α) : List UInt8 → Except Error α :=
  Reader.decode (fun _ _ => .bounds) (fun _ => .encoding) limit (do expect magic; get)

/-- A length of two bytes. -/
def sizeRead (limit : Nat) : Reader Error Nat := do
  let size ← (Reader.int .encoding : Reader Error UInt16)
  if toNat size > limit then throw .bounds else pure (toNat size)

/-! ### Scopes, positions and stages -/

structure Scope where
  network : Bytes32
  realm : Vector UInt8 16
  directory : Bytes32
  room : Bytes32
deriving DecidableEq

def Scope.of (scope : RoomScope) : Scope :=
  ⟨scope.network, beVector 16 scope.realm.value.toNat, scope.directory.bytes, scope.room.bytes⟩

def Scope.check (scope : Scope) : Except Error Unit := require .network (scope.network != zeroBytes)

def Scope.put (scope : Scope) : List UInt8 :=
  scope.network.toList ++ (scope.realm.toList ++ (scope.directory.toList ++ scope.room.toList))

def Scope.read : Reader Error Scope := do
  let network ← Reader.array .encoding 32
  let realm ← Reader.array .encoding 16
  let directory ← Reader.array .encoding 32
  let room ← Reader.array .encoding 32
  Reader.lift (Scope.check ⟨network, realm, directory, room⟩)
  pure ⟨network, realm, directory, room⟩

/-- A point of an author's chain; before the first event stands the empty point. -/
structure Position where
  sequence : UInt64
  event : EventId
deriving DecidableEq

namespace Position

def empty : Position := ⟨0, .zero⟩

/-- What `new` asks for. -/
def Consistent (position : Position) : Prop := position.sequence = 0 ↔ position.event = .zero

instance (position : Position) : Decidable position.Consistent := inferInstanceAs (Decidable (_ ↔ _))

def new (sequence : UInt64) (event : EventId) : Except Error Position := do
  require .encoding (decide (Consistent ⟨sequence, event⟩))
  pure ⟨sequence, event⟩

def of {crypto : Crypto} (event : VerifiedEvent crypto) : Position := ⟨event.claims.sequence, event.id⟩

def put (position : Position) : List UInt8 := toBe position.sequence ++ position.event.bytes.toList

def read : Reader Error Position := do
  let sequence ← (Reader.int .encoding : Reader Error UInt64)
  let event ← Reader.array .encoding 32
  Reader.lift (new sequence ⟨event⟩)

def extension {crypto : Crypto} (position : Position) (event : VerifiedEvent crypto) : Except Error Position := do
  require .request (checkedAdd position.sequence 1 == some event.claims.sequence && position.event == event.claims.previous)
  pure (of event)

end Position

structure StageRef where
  id : Bytes32
  tail : Position
  pages : UInt32
  expires : UInt64
deriving DecidableEq

namespace StageRef

/-- What `new` asks for, under the published base. -/
def check (stage : StageRef) (base : Position) : Except Error Unit :=
  require .bounds (stage.id != zeroBytes && stage.pages != 0 && decide (stage.pages ≤ 128) && stage.expires != 0 &&
    checkedAdd base.sequence (UInt64.ofNat (stage.pages.toNat * 32)) == some stage.tail.sequence)

def new (id : Bytes32) (base tail : Position) (pages : UInt32) (expires : UInt64) : Except Error StageRef := do
  check ⟨id, tail, pages, expires⟩ base
  pure ⟨id, tail, pages, expires⟩

def put (stage : StageRef) : List UInt8 :=
  stage.id.toList ++ (stage.tail.put ++ (toBe stage.pages ++ toBe stage.expires))

def read (base : Position) : Reader Error StageRef := do
  let id ← Reader.array .encoding 32
  let tail ← Position.read
  let pages ← (Reader.int .encoding : Reader Error UInt32)
  let expires ← (Reader.int .encoding : Reader Error UInt64)
  Reader.lift (new id base tail pages expires)

end StageRef

def stagePut : Option StageRef → List UInt8
  | none => [0]
  | some stage => 1 :: stage.put

def stageRead (base : Position) : Reader Error (Option StageRef) := do
  let tag ← (Reader.int .encoding : Reader Error UInt8)
  match tag with
  | 0 => pure none
  | 1 => do
    let stage ← StageRef.read base
    pure (some stage)
  | _ => throw .encoding

/-- A checkpoint that a peer says it has seen. -/
structure Observed where
  height : UInt64
  frontier : Bytes32
deriving DecidableEq

namespace Observed

def check (observed : Observed) : Except Error Unit := require .encoding (observed.frontier != zeroBytes)

def put (observed : Observed) : List UInt8 := toBe observed.height ++ observed.frontier.toList

def read : Reader Error Observed := do
  let height ← (Reader.int .encoding : Reader Error UInt64)
  let frontier ← Reader.array .encoding 32
  Reader.lift (check ⟨height, frontier⟩)
  pure ⟨height, frontier⟩

end Observed

/-! ### Requests -/

inductive Selection
  | roomFeed
  | author (author : Bytes32)
deriving DecidableEq

structure RequestContext where
  scope : Scope
  nonce : Bytes32
  operation : Vector UInt8 16
  floor : Observed
deriving DecidableEq

/-- One temporary page of 32 events. -/
structure StageRequest where
  base : Position
  prior : Option StageRef
  end_ : Position
  body : Bytes32
deriving DecidableEq

structure CommitRequest where
  base : Position
  stage : Option StageRef
  terminal : Position
  terminalFrame : Bytes32
  body : Bytes32
deriving DecidableEq

inductive Kind
  | stage (stage : StageRequest)
  | commit (commit : CommitRequest)
  | status (minimum : Position)
  | feed (after : UInt64) (count : UInt8)
  | evidence (after : Position) (count : UInt8)
deriving DecidableEq

def countCheck (count : UInt8) : Except Error Unit := require .bounds (count != 0 && decide (count.toNat ≤ maxPage))

def checkedTail (base : Position) : Option StageRef → Except Error Position
  | some stage => do
    stage.check base
    pure stage.tail
  | none => pure base

/-- `checked_key` with the error of this module. -/
def checkedKey (crypto : Crypto) (key : Bytes32) : Except Error Unit := require .peer (crypto.decodesKey key && !crypto.isWeak key)

/-- What `new` asks of the operations of one author. -/
def Kind.check : Kind → Except Error Unit
  | .stage s => do
    let tail ← checkedTail s.base s.prior
    require .bounds (checkedAdd tail.sequence 32 == some s.end_.sequence && s.body != zeroBytes &&
      !(s.prior.any fun prior => decide (128 ≤ prior.pages)))
  | .commit c => do
    let tail ← checkedTail c.base c.stage
    let count ← Check.okOr .bounds (checkedSub c.terminal.sequence tail.sequence)
    require .bounds (decide (1 ≤ count) && decide (count ≤ 33) && c.body != zeroBytes && c.terminalFrame != zeroBytes)
  | .status _ => .ok ()
  | .evidence _ count => countCheck count
  | .feed _ _ => .error .request

/-- What `new` asks for. -/
def checkRequest (crypto : Crypto) (context : RequestContext) (selection : Selection) (kind : Kind) : Except Error Unit := do
  context.scope.check
  context.floor.check
  require .nonce (context.nonce != zeroBytes)
  require .request (context.operation != Vector.replicate 16 0)
  match selection, kind with
  | .roomFeed, .feed _ count => countCheck count
  | .author author, kind => do
    checkedKey crypto author
    kind.check
  | .roomFeed, _ => .error .request

structure Request (crypto : Crypto) where
  context : RequestContext
  selection : Selection
  kind : Kind
  checked : checkRequest crypto context selection kind = .ok ()
deriving DecidableEq

def RequestContext.put (context : RequestContext) : List UInt8 :=
  context.scope.put ++ (context.nonce.toList ++ (context.operation.toList ++ context.floor.put))

def RequestContext.read : Reader Error RequestContext := do
  let scope ← Scope.read
  let nonce ← Reader.array .encoding 32
  let operation ← Reader.array .encoding 16
  let floor ← Observed.read
  pure ⟨scope, nonce, operation, floor⟩

def Selection.put : Selection → List UInt8
  | .roomFeed => [0]
  | .author key => 1 :: key.toList

def Selection.read : Reader Error Selection := do
  let tag ← (Reader.int .encoding : Reader Error UInt8)
  match tag with
  | 0 => pure .roomFeed
  | 1 => do
    let author ← Reader.array .encoding 32
    pure (.author author)
  | _ => throw .encoding

def StageRequest.put (s : StageRequest) : List UInt8 := s.base.put ++ (stagePut s.prior ++ (s.end_.put ++ s.body.toList))

def StageRequest.read : Reader Error StageRequest := do
  let base ← Position.read
  let prior ← stageRead base
  let end_ ← Position.read
  let body ← Reader.array .encoding 32
  pure ⟨base, prior, end_, body⟩

def CommitRequest.put (c : CommitRequest) : List UInt8 :=
  c.base.put ++ (stagePut c.stage ++ (c.terminal.put ++ (c.terminalFrame.toList ++ c.body.toList)))

def CommitRequest.read : Reader Error CommitRequest := do
  let base ← Position.read
  let stage ← stageRead base
  let terminal ← Position.read
  let terminalFrame ← Reader.array .encoding 32
  let body ← Reader.array .encoding 32
  pure ⟨base, stage, terminal, terminalFrame, body⟩

def Kind.put : Kind → List UInt8
  | .stage s => 0 :: s.put
  | .commit c => 1 :: c.put
  | .status minimum => 2 :: minimum.put
  | .feed after count => 3 :: (toBe after ++ toBe count)
  | .evidence after count => 4 :: (after.put ++ toBe count)

def Kind.read : Reader Error Kind := do
  let tag ← (Reader.int .encoding : Reader Error UInt8)
  match tag with
  | 0 => do
    let s ← StageRequest.read
    pure (.stage s)
  | 1 => do
    let c ← CommitRequest.read
    pure (.commit c)
  | 2 => do
    let minimum ← Position.read
    pure (.status minimum)
  | 3 => do
    let after ← (Reader.int .encoding : Reader Error UInt64)
    let count ← (Reader.int .encoding : Reader Error UInt8)
    pure (.feed after count)
  | 4 => do
    let after ← Position.read
    let count ← (Reader.int .encoding : Reader Error UInt8)
    pure (.evidence after count)
  | _ => throw .encoding

def readParts : Reader Error (RequestContext × Selection × Kind) := do
  let context ← RequestContext.read
  let selection ← Selection.read
  let kind ← Kind.read
  pure (context, selection, kind)

/-- `raw` without the prefix. -/
def stripPrefix (pre raw : List UInt8) : Option (List UInt8) :=
  if raw.take pre.length = pre then some (raw.drop pre.length) else none

def unhex (raw : List UInt8) (limit : Nat) : Except Error (List UInt8) := do
  require .bounds (decide (raw.length ≤ limit * 2) && raw.length % 2 == 0)
  Check.okOr .encoding (Hex.pairs raw)

namespace Request

def new (crypto : Crypto) (context : RequestContext) (selection : Selection) (kind : Kind) : Except Error (Request crypto) :=
  match h : checkRequest crypto context selection kind with
  | .ok () => .ok ⟨context, selection, kind, h⟩
  | .error e => .error e

def decode (crypto : Crypto) (raw : List UInt8) : Except Error (Request crypto) := do
  let parts ← framed requestMagic maxRequestBytes readParts raw
  new crypto parts.1 parts.2.1 parts.2.2

variable {crypto : Crypto} (request : Request crypto)

def encode : List UInt8 := requestMagic ++ (request.context.put ++ (request.selection.put ++ request.kind.put))

def target : List UInt8 := targetPrefix ++ Hex.encode request.encode

def parseTarget (crypto : Crypto) (raw : List UInt8) : Except Error (Request crypto) := do
  require .bounds (decide (raw.length ≤ maxTargetBytes))
  let digits ← Check.okOr .encoding (stripPrefix targetPrefix raw)
  let bytes ← unhex digits maxRequestBytes
  let request ← decode crypto bytes
  require .encoding (request.target == raw)
  pure request

def author : Except Error Bytes32 :=
  match request.selection with
  | .author key => .ok key
  | .roomFeed => .error .request

end Request

/-! ### Bodies -/

section
variable {crypto : Crypto}

def identity (event : VerifiedEvent crypto) (scope : Scope) (author : Option Bytes32) : Except Error Unit :=
  require .request (Scope.of event.claims.scope == scope && author.all (· == event.claims.author))

def eventPut (event : VerifiedEvent crypto) : List UInt8 := toBe (UInt16.ofNat event.encode.length) ++ event.encode

def eventRead (crypto : Crypto) : Reader Error (VerifiedEvent crypto) := do
  let size ← sizeRead maxEventBytes
  let raw ← Reader.take .encoding size
  let signed ← Reader.lift ((RoomActivity.decodeSigned crypto raw).mapError fun _ => .encoding)
  Reader.lift ((RoomActivity.SignedEvent.verify crypto signed).mapError fun _ => .signature)

structure Body (crypto : Crypto) where
  history : List (VerifiedEvent crypto)
  terminal : Option (VerifiedEvent crypto)
  bounded : history.length ≤ stageEvents
  whole : terminal = none → history.length = stageEvents
deriving DecidableEq

namespace Body

def hasTerminal (body : Body crypto) : Bool := body.terminal.isSome

def stage (history : List (VerifiedEvent crypto)) : Except Error (Body crypto) :=
  if h : history.length = stageEvents then .ok ⟨history, none, h.le, fun _ => h⟩ else .error .bounds

def commit (history : List (VerifiedEvent crypto)) (terminal : VerifiedEvent crypto) : Except Error (Body crypto) :=
  if h : history.length ≤ stageEvents then .ok ⟨history, some terminal, h, fun h => by cases h⟩ else .error .bounds

def encode (body : Body crypto) : List UInt8 :=
  (if body.hasTerminal then commitMagic else stageMagic) ++ (toBe (UInt8.ofNat body.history.length) ++
    (body.history.flatMap eventPut ++ body.terminal.toList.flatMap eventPut))

def countRead (terminal : Bool) : Reader Error Nat := do
  let n ← (Reader.int .encoding : Reader Error UInt8)
  if 32 < toNat n ∨ (terminal = false ∧ toNat n ≠ 32) then throw .bounds else pure (toNat n)

/-- What follows the magic. -/
def read (crypto : Crypto) (terminal : Bool) : Reader Error (Body crypto) := do
  let n ← countRead terminal
  let history ← Reader.replicate (eventRead crypto) n
  if terminal then do
    let terminal ← eventRead crypto
    Reader.lift (commit history terminal)
  else Reader.lift (stage history)

def decode (crypto : Crypto) (raw : List UInt8) : Except Error (Body crypto) := do
  require .bounds (decide (raw.length ≤ maxBodyBytes))
  if raw.take 5 = commitMagic then Reader.complete .encoding (read crypto true) (raw.drop 5)
  else if raw.take 5 = stageMagic then Reader.complete .encoding (read crypto false) (raw.drop 5)
  else .error .encoding

def span (body : Body crypto) (kind : Kind) : Except Error (Position × Position) :=
  match kind, body.terminal with
  | .stage s, none => do
    let tail ← checkedTail s.base s.prior
    pure (tail, s.end_)
  | .commit c, some terminal => do
    require .body (crypto.sha256 terminal.encode == c.terminalFrame)
    let tail ← checkedTail c.base c.stage
    pure (tail, c.terminal)
  | _, _ => .error .request

def check (body : Body crypto) (request : Request crypto) : Except Error Unit := do
  let (tail, end_) ← body.span request.kind
  let author ← request.author
  let tail ← (body.history ++ body.terminal.toList).foldlM (fun tail event => do
    identity event request.context.scope (some author)
    tail.extension event) tail
  require .request (tail == end_)

end Body

def Kind.body : Kind → Option Bytes32
  | .stage s => some s.body
  | .commit c => some c.body
  | _ => none

def Request.checkBody (request : Request crypto) (raw : List UInt8) : Except Error (Body crypto) := do
  let expected ← Check.okOr .request request.kind.body
  require .bounds (decide (raw.length ≤ maxBodyBytes))
  require .body (crypto.sha256 raw == expected)
  let body ← Body.decode crypto raw
  body.check request
  pure body

end

end Valhalla.Continuity
