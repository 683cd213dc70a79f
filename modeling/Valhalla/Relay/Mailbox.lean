import Valhalla.Relay.Page
import Valhalla.Lib.Maps
import Valhalla.Lib.Trace

/-!
# Mailboxes (`relay/mod.rs` of `vhalla-private-native`)

The reference mailbox keeps its items in an ordered map, the durable one in the table of a database. A query is read
as what it says of the rows; columns are signed integers and blobs, and every row is checked again when it is read.
-/

namespace Valhalla.Relay.Mailbox
open FixedWidth Check
open Valhalla.PrivateKernel (OperationId)

structure Limits where
  maxItems : Nat
  maxBytes : Nat
deriving DecidableEq

def Limits.check (limits : Limits) : Except RelayError Unit :=
  require .bounds (limits.maxItems != 0 && decide (limits.maxItems ≤ maxRelayItems) && limits.maxBytes != 0)

/-- `usize::checked_add` -/
def usizeAdd (a b : Nat) : Option Nat := if a + b < 2 ^ 64 then some (a + b) else none

/-- `i64::try_from`, `usize::try_from` and `u64::try_from`, `u8::try_from` -/
def asI64 (n : Int) : Option Int := if -2 ^ 63 ≤ n ∧ n < 2 ^ 63 then some n else none

def asUsize (n : Int) : Option Nat := if 0 ≤ n ∧ n < 2 ^ 64 then some n.toNat else none

def asU64 (n : Int) : Option UInt64 := (asUsize n).map UInt64.ofNat

def asU8 (n : Int) : Option UInt8 := if 0 ≤ n ∧ n < 2 ^ 8 then some (UInt8.ofNat n.toNat) else none

/-- `Vec::try_into` -/
def asArray (n : Nat) (bytes : List UInt8) : Option (Vector UInt8 n) :=
  if h : bytes.length = n then some ⟨bytes.toArray, h⟩ else none

/-! ### The reference mailbox -/

structure Store where
  scope : RelayNamespace
  limits : Limits
  bytes : Nat
  items : Std.ExtTreeMap UInt64 RelayItem compare

namespace Store

def new (scope : RelayNamespace) (limits : Limits) : Except RelayError Store := do
  limits.check
  pure ⟨scope, limits, 0, ∅⟩

variable (crypto : Crypto) (store : Store)

def put (item : RelayItem) : Except RelayError (RelayReceipt × Store) := do
  require .scope (item.scope == store.scope)
  match store.items.toList.find? fun entry => entry.2.digest crypto == item.digest crypto with
  | some (position, _) => pure (⟨position, item.digest crypto, true⟩, store)
  | none =>
    require .conflict (!store.items.toList.any fun entry => entry.2.operation == item.operation)
    require .capacity (decide (store.items.size < store.limits.maxItems))
    let bytes ← okOr .capacity (usizeAdd store.bytes item.payload.length)
    require .capacity (decide (bytes ≤ store.limits.maxBytes))
    let position ← okOr .bounds (checkedAdd (store.items.maxKey?.getD 0) 1)
    pure (⟨position, item.digest crypto, false⟩, { store with bytes, items := store.items.insert position item })

def page (after : UInt64) (limit : Nat) : Except RelayError RelayPage := do
  require .bounds (limit != 0 && decide (limit ≤ maxRelayPage))
  let start ← okOr .bounds (checkedAdd after 1)
  let range := store.items.toList.filter fun entry => decide (start ≤ entry.1)
  let records := (range.take limit).map fun entry => (⟨entry.1, entry.2⟩ : PositionedItem)
  pure ⟨store.items.maxKey?.getD 0,
    records.getLast?.bind fun last => (range.drop limit).head?.map fun _ => last.position, records⟩

end Store

/-! ### The tables of the durable mailbox -/

/-- The only row of `meta`. -/
structure Meta where
  format : Int
  scope : List UInt8
  maxItems : Int
  maxBytes : Int
deriving DecidableEq

/-- A row of `items`. -/
structure Row where
  position : Int
  sequence : List UInt8
  operation : List UInt8
  kind : Int
  payload : List UInt8
  digest : List UInt8
deriving DecidableEq

/-- The only row of `generation_state`, a table of format 3. -/
structure GenerationState where
  transition : Option (List UInt8)
  successor : Option (List UInt8)
  head : Option Int
  items : Option (List UInt8)
deriving DecidableEq

structure Db where
  header : Meta
  items : List Row
  generation : Option GenerationState
deriving DecidableEq

def decodeRow (crypto : Crypto) (scope : RelayNamespace) (row : Row) : Option PositionedItem := do
  let sequence ← asArray 8 row.sequence
  let operation ← asArray 16 row.operation
  let digest ← asArray 32 row.digest
  let byte ← asU8 row.kind
  let kind ← (kindFromByte byte).toOption
  let operation ← (OperationId.fromBytes operation).toOption
  let item ← (RelayItem.new scope (fromBe sequence.toList) operation kind row.payload).toOption
  if item.digest crypto ≠ digest ∨ row.position ≤ 0 then none
  else
    let position ← asU64 row.position
    pure ⟨position, item⟩

namespace Db
variable (db : Db)

/-- `SELECT COUNT(*), COALESCE(SUM(length(payload)), 0) FROM items`, as `i64` -/
def totals : Except RelayError (Int × Int) := do
  let count ← okOr .storage (asI64 db.items.length)
  let bytes ← okOr .storage (asI64 (db.items.map fun row => (row.payload.length : Int)).sum)
  pure (count, bytes)

/-- `ORDER BY position` -/
def ordered : List Row := db.items.mergeSort fun a b => decide (a.position ≤ b.position)

/-- `MAX(position)` -/
def last : Option Int := db.ordered.getLast?.map (·.position)

/-- `INSERT INTO items`, with the constraints of its columns -/
def insert (row : Row) : Except RelayError Db := do
  require .storage (!db.items.any fun old => old.position == row.position || (old.operation == row.operation || old.digest == row.digest))
  pure { db with items := db.items ++ [row] }

end Db

/-! ### The durable mailbox -/

def generationDomain : List UInt8 := "vhalla/private/relay-generation-items/v1".toUTF8.toList ++ [0]

structure GenerationFence where
  transition : Bytes32
  predecessor : RelayNamespace
  successor : RelayNamespace
  head : UInt64
  items : Bytes32
deriving DecidableEq

structure FileStore where
  db : Db
  scope : RelayNamespace
  limits : Limits
  format : Nat
  needsReopen : Bool
deriving DecidableEq

namespace FileStore
variable (crypto : Crypto) (file : FileStore)

def live : Except RelayError Unit := require .storage !file.needsReopen

/-- The loop of `item_commitment`: the head and what is hashed of the items. -/
def commitRows : UInt64 → List UInt8 → List Row → Except RelayError (UInt64 × List UInt8)
  | head, hashed, [] => pure (head, hashed)
  | head, hashed, row :: rows => do
    let record ← okOr .storage (decodeRow crypto file.scope row)
    require .storage (record.position == head + 1 && decide (record.position.toNat ≤ maxRelayItems))
    commitRows record.position (hashed ++ (toBe record.position ++ (record.item.digest crypto).toList)) rows

def itemCommitment : Except RelayError (UInt64 × Bytes32) := do
  let (head, hashed) ← commitRows crypto file 0 (generationDomain ++ file.scope.bytes.toList) file.db.ordered
  pure (head, crypto.sha256 (hashed ++ toBe head))

def generationFence : Except RelayError (Option GenerationFence) := do
  file.live
  if file.format = 2 then pure none
  else
    let state ← okOr .storage file.db.generation
    match state with
    | ⟨none, none, none, none⟩ => pure none
    | ⟨some transition, some successor, some head, some items⟩ =>
      let transition ← okOr .storage (asArray 32 transition)
      let successor ← okOr .storage (asArray 32 successor)
      let successor ← (RelayNamespace.fromBytes successor).mapError fun _ => .storage
      let head ← okOr .storage (asU64 head)
      let items ← okOr .storage (asArray 32 items)
      require .storage (transition != Vector.replicate 32 0 && successor != file.scope)
      let commitment ← file.itemCommitment crypto
      require .storage (commitment == (head, items))
      pure (some ⟨transition, file.scope, successor, head, items⟩)
    | _ => .error .storage

/-- `SELECT transition IS NOT NULL FROM generation_state` -/
def fenced : Except RelayError Bool := do
  file.live
  if file.format = 2 then pure false
  else
    let state ← okOr .storage file.db.generation
    pure state.transition.isSome

def validate : Except RelayError Unit := do
  let (count, bytes) ← file.db.totals
  let items ← okOr .storage (asUsize count)
  require .storage (decide (0 ≤ count) && decide (items ≤ file.limits.maxItems))
  let bytes ← okOr .storage (asUsize bytes)
  require .storage (decide (bytes ≤ file.limits.maxBytes))
  let _ ← file.db.items.mapM fun row => okOr .storage (decodeRow crypto file.scope row)
  let _ ← file.generationFence crypto

def createNew (scope : RelayNamespace) (limits : Limits) : Except RelayError FileStore := do
  limits.check
  let maxItems ← okOr .bounds (asI64 limits.maxItems)
  let maxBytes ← okOr .bounds (asI64 limits.maxBytes)
  let out : FileStore := ⟨⟨⟨2, scope.bytes.toList, maxItems, maxBytes⟩, [], none⟩, scope, limits, 2, false⟩
  out.validate crypto
  pure out

def readMeta (db : Db) (expected : RelayNamespace) : Except RelayError (Limits × Nat) := do
  require .scope (db.header.format == 2 || db.header.format == 3)
  require .scope (db.header.scope == expected.bytes.toList && decide (0 < db.header.maxItems) && decide (0 < db.header.maxBytes))
  let maxItems ← okOr .bounds (asUsize db.header.maxItems)
  let maxBytes ← okOr .bounds (asUsize db.header.maxBytes)
  let limits : Limits := ⟨maxItems, maxBytes⟩
  limits.check
  pure (limits, db.header.format.toNat)

def openDb (db : Db) (scope : RelayNamespace) : Except RelayError FileStore := do
  let (limits, format) ← readMeta db scope
  let out : FileStore := ⟨db, scope, limits, format, false⟩
  out.validate crypto
  pure out

/-- `put`, whose write to the disk is the barrier after `put_staged` -/
def put (item : RelayItem) : Except RelayError (RelayReceipt × FileStore) := do
  file.live
  require .scope (item.scope == file.scope)
  match file.db.items.find? fun row => row.digest == (item.digest crypto).toList with
  | some row =>
    let position ← okOr .storage (asU64 row.position)
    pure (⟨position, item.digest crypto, true⟩, file)
  | none =>
    let fenced ← file.fenced
    require .capacity !fenced
    require .conflict (!file.db.items.any fun row => row.operation == item.operation.bytes.toList)
    let (count, bytes) ← file.db.totals
    let length ← okOr .bounds (asI64 item.payload.length)
    let count ← okOr .storage (asUsize count)
    require .capacity (decide (count < file.limits.maxItems) &&
      ((asI64 (bytes + length)).bind asUsize).any fun total => decide (total ≤ file.limits.maxBytes))
    let position ← okOr .storage (asI64 (file.db.last.getD 0 + 1))
    require .bounds (decide (0 < position))
    let db ← file.db.insert ⟨position, toBe item.sequence, item.operation.bytes.toList, (kindByte item.kind).toNat, item.payload,
      (item.digest crypto).toList⟩
    let stored ← okOr .storage (asU64 position)
    pure (⟨stored, item.digest crypto, false⟩, { file with db })

def page (after : UInt64) (limit : Nat) : Except RelayError RelayPage := do
  file.live
  require .bounds (limit != 0 && decide (limit ≤ maxRelayPage))
  let start ← okOr .bounds (checkedAdd after 1)
  let start ← okOr .bounds (asI64 start.toNat)
  let rows := (file.db.ordered.filter fun row => decide (start ≤ row.position)).take (limit + 1)
  let records ← rows.mapM fun row => okOr .storage (decodeRow crypto file.scope row)
  let (records, next) := if records.length > limit then (records.dropLast, records.dropLast.getLast?.map (·.position)) else (records, none)
  let head ← match file.db.last with
    | some last => okOr .storage (asU64 last)
    | none => pure 0
  pure ⟨head, next, records⟩

def upgradeGenerationFormat : Except RelayError FileStore := do
  file.live
  if file.format = 3 then
    let _ ← file.generationFence crypto
    pure file
  else
    file.validate crypto
    let upgraded := { file with
      db := { file.db with header := { file.db.header with format := 3 }, generation := some ⟨none, none, none, none⟩ }, format := 3 }
    upgraded.validate crypto
    pure upgraded

end FileStore

/-! ### Calls -/

inductive Call
  | put (item : RelayItem)
  | page (after : UInt64) (limit : Nat)
  | reopen
  | upgrade

inductive Reply
  | receipt (receipt : Except RelayError RelayReceipt)
  | page (page : Except RelayError RelayPage)
  | done (result : Except RelayError Unit)

def after {σ α : Type} (state : σ) : Except RelayError (α × σ) → Except RelayError α × σ
  | .ok (value, next) => (.ok value, next)
  | .error e => (.error e, state)

/-- The reference mailbox has nothing to reopen and one format. -/
def Store.call (crypto : Crypto) (store : Store) : Call → Reply × Store
  | .put item => (after store (store.put crypto item)).map .receipt id
  | .page after limit => (.page (store.page after limit), store)
  | .reopen | .upgrade => (.done (.ok ()), store)

def FileStore.call (crypto : Crypto) (file : FileStore) : Call → Reply × FileStore
  | .put item => (after file (file.put crypto item)).map .receipt id
  | .page after limit => (.page (file.page crypto after limit), file)
  | .reopen => (after file ((FileStore.openDb crypto file.db file.scope).map fun file => ((), file))).map .done id
  | .upgrade => (after file ((file.upgradeGenerationFormat crypto).map fun file => ((), file))).map .done id

def runCalls {σ : Type} (call : σ → Call → Reply × σ) : σ → List Call → List Reply × σ
  | state, [] => ([], state)
  | state, c :: calls =>
    let (reply, next) := call state c
    let (replies, last) := runCalls call next calls
    (reply :: replies, last)

end Valhalla.Relay.Mailbox
