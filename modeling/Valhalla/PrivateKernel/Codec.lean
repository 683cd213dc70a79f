import Valhalla.Lib.Writer
import Valhalla.PrivateKernel.ProtocolCodec

/-!
# Kernel vocabulary and framing (`lib.rs` and `codec.rs` of `vhalla-private-kernel`)

Refusals, limits, the custody context, the bounded reader and writer, and sealed storage. The AEAD and the
random nonces are parameters.
-/

namespace Valhalla.PrivateKernel
open Fallible FixedWidth Check

def maxStateBytes : Nat := 4 * 1024 * 1024
def maxImageBytes : Nat := maxStateBytes + 40
def maxWireBytes : Nat := 128 * 1024
def maxBodyBytes : Nat := 4096
def maxStoredRecordBytes : Nat := 2 * maxWireBytes + 4096 + 40
def maxPageRecords : Nat := 16
def maxPageBytes : Nat := 512 * 1024
def maxTransactionRecords : Nat := 3
def maxMembers : Nat := 16
def maxSuccessions : Nat := 16

inductive Error
  | bounds | encoding | entropy | authentication | scope | policy | time | unsupported | conflict | needsReopen
  | missing | mls | staleEpoch | futureEpoch | controlGap | ratchetGap (past : Bool) | clockRegressed | refused
  | quarantined
deriving DecidableEq, Repr

/-- `From<protocol::Error>`. -/
def Error.ofRecord : RecordError → Error
  | .bounds => .bounds
  | .time => .time
  | .signature | .key | .signer => .authentication
  | _ => .encoding

/-- A record operation under `?`. -/
def ofRecord {α : Type} (x : Except RecordError α) : Except Error α := x.mapError Error.ofRecord

@[simp] theorem ofRecord_eq_ok {α : Type} {x : Except RecordError α} {a : α} : ofRecord x = .ok a ↔ x = .ok a :=
  mapError_eq_ok

/-- Full caller-selected custody context. -/
structure Context (crypto : Hashing) where
  scope : PrivateRoomScope
  account : Key crypto
  device : Key crypto
deriving DecidableEq

def Context.encode {crypto : Hashing} (context : Context crypto) : List UInt8 :=
  context.scope.room.bytes.toList ++ (context.scope.anchor.bytes.toList ++ (context.account.bytes.toList ++
    context.device.bytes.toList))

/-- Full nonzero caller-chosen operation identifier. -/
structure OperationId where
  bytes : Vector UInt8 16
  nonzero : bytes ≠ Vector.replicate 16 0
deriving DecidableEq

def OperationId.fromBytes (raw : Vector UInt8 16) : Except Error OperationId :=
  if h : raw = Vector.replicate 16 0 then .error .encoding else .ok ⟨raw, h⟩

theorem OperationId.fromBytes_eq_ok {raw : Vector UInt8 16} {id : OperationId} :
    OperationId.fromBytes raw = .ok id ↔ id.bytes = raw := by
  obtain ⟨bytes, nonzero⟩ := id
  unfold OperationId.fromBytes
  constructor
  · intro h
    split at h <;> cases h
    rfl
  · rintro rfl
    rw [dif_neg nonzero]

inductive Phase
  | ownerGenesis | awaitingWelcome | ownerJoined | memberJoined | ownerAfterRemoval | removed
deriving DecidableEq, Repr

/-- Exact type of a retained outbox artifact. -/
inductive OutboxKind
  | contactOffer | contactRequest | contactInvitation | keyPackage | invitation | application | removal | ownerUpdate
  | succession
deriving DecidableEq, Repr

/-! ### Readers -/

abbrev ReadM := Reader Error

def readArray (n : Nat) : ReadM (Vector UInt8 n) := Reader.array .encoding n

def readU64 : ReadM UInt64 := Reader.int .encoding

def readByte : ReadM UInt8 := Reader.int .encoding

def readMagic (magic : List UInt8) : ReadM Unit := do
  let found ← Reader.take .encoding magic.length
  if found ≠ magic then throw .encoding else pure ()

def readBlob (limit : Nat) : ReadM (List UInt8) := do
  let length ← (Reader.int .encoding : ReadM UInt32)
  if toNat length > limit then throw .bounds else Reader.take .encoding (toNat length)

/-- `Reader::new` with the fields of the record, and `end`. -/
def decodeWith {α : Type} (limit : Nat) (get : ReadM α) (raw : List UInt8) : Except Error α :=
  Reader.decode (fun _ _ => .bounds) (fun _ => .encoding) limit get raw

def readVerified {crypto : Hashing} {C : Type} (kind : RecordKind crypto C) (limit : Nat) : ReadM (Verified kind) := do
  let raw ← readBlob limit
  Reader.lift (ofRecord (Verified.decode raw))

/-- An identifier under `?`. -/
def readIdentifier (kind : IdentifierKind) : ReadM (Identifier kind) := do
  let raw ← readArray 32
  Reader.lift (ofRecord (Identifier.fromBytes raw))

def readKey {crypto : Hashing} : ReadM (Key crypto) := do
  let raw ← readArray 32
  Reader.lift (ofRecord (Key.fromBytes raw))

def readScope : ReadM PrivateRoomScope := do
  let room ← readIdentifier .room
  let anchor ← readIdentifier .anchor
  pure ⟨room, anchor⟩

def readValidity : ReadM Validity := do
  let notBefore ← readU64
  let expiresAt ← readU64
  Reader.lift (ofRecord (Validity.new notBefore expiresAt))

/-- `read_floor`. -/
def readFloor : ReadM ControlFloor := do
  let sequence ← readU64
  let raw ← readArray 32
  Reader.lift (ofRecord (ControlFloor.read sequence raw))

/-- A byte that says whether a value follows. -/
def readOption {α : Type} (get : ReadM α) : ReadM (Option α) := do
  let tag ← readByte
  if tag = 0 then pure none
  else if tag = 1 then do
    let a ← get
    pure (some a)
  else throw .encoding

/-! ### Writers -/

abbrev WriteM := Writing Error

def writeBytes (raw : List UInt8) : WriteM Unit := Writing.put .bounds raw

def writeByte (byte : UInt8) : WriteM Unit := writeBytes [byte]

def writeU64 (value : UInt64) : WriteM Unit := writeBytes (toBe value)

def writeBlob (limit : Nat) (raw : List UInt8) : WriteM Unit := do
  Writing.lift (require .bounds (decide (raw.length ≤ limit)))
  Writing.lift (require .bounds (decide (raw.length < 2 ^ 32)))
  writeBytes (toBe (UInt32.ofNat raw.length))
  writeBytes raw

def writeFloor (floor : ControlFloor) : WriteM Unit := do
  writeU64 floor.sequence
  writeBytes (floorId floor.id).toList

def putOption {α : Type} (put : α → List UInt8) : Option α → List UInt8
  | none => [0]
  | some a => 1 :: put a

def writeOption {α : Type} (write : α → WriteM Unit) : Option α → WriteM Unit
  | none => writeByte 0
  | some a => do
    writeByte 1
    write a

/-! ### What is read and written -/

theorem codec_readArray {n : Nat} : Codec (readArray n) Vector.toList fun _ => True := .array _ n

theorem codec_readU64 : Codec readU64 toBe fun _ => True := .int _

theorem codec_readByte : Codec readByte (fun b => [b]) fun _ => True :=
  (Codec.int _).congr (fun _ => Iff.rfl) fun b _ => (toBe_uInt8 b).symm

theorem codec_readMagic {magic : List UInt8} : Codec (readMagic magic) (fun _ => magic) fun _ => True := .magic

theorem codec_readBlob {limit : Nat} (h : limit < 2 ^ 32) : Codec (readBlob limit) putBlob fun raw => raw.length ≤ limit := by
  refine ⟨fun bytes raw rest => ?_⟩
  simp only [readBlob, exec_bind_eq_ok, (Codec.int _).iff]
  constructor
  · rintro ⟨length, mid, ⟨rfl, -⟩, hraw⟩
    split at hraw
    · cases hraw
    · rename_i hle
      obtain ⟨rfl, hlen⟩ := ((Codec.take _ _).iff _ _ _).1 hraw
      refine ⟨?_, by omega⟩
      rw [putBlob, hlen, id, List.append_assoc]
      exact congrArg (toBe · ++ _) (ofNat_toNat length).symm
  · rintro ⟨rfl, hle⟩
    have hn : toNat (UInt32.ofNat raw.length) = raw.length := toNat_ofNat _ (Nat.lt_of_le_of_lt hle h)
    refine ⟨_, raw ++ rest, ⟨List.append_assoc .., trivial⟩, ?_⟩
    rw [hn, if_neg (Nat.not_lt.2 hle)]
    exact ((Codec.take _ _).iff _ _ _).2 ⟨rfl, rfl⟩

theorem codec_readOption {α : Type} {get : ReadM α} {put : α → List UInt8} {ok : α → Prop} (h : Codec get put ok) :
    Codec (readOption get) (putOption put) fun o => ∀ a ∈ o, ok a := by
  have hput : ∀ o : Option α, putOption put o = [if o.isSome then 1 else 0] ++ o.elim [] put := by
    rintro (_ | a) <;> rfl
  refine (codec_readByte.field (fun o : Option α => if o.isSome then 1 else 0) fun tag => ?_).congr
    (fun _ => Iff.rfl) fun o _ => hput o
  by_cases h0 : tag = 0
  · rw [if_pos h0]
    subst h0
    refine .constant (fun o => ?_) rfl
    cases o <;> simp
  rw [if_neg h0]
  by_cases h1 : tag = 1
  · rw [if_pos h1]
    subst h1
    refine h.map (fun o => ?_) fun _ => rfl
    cases o <;> simp
  rw [if_neg h1]
  refine .none (fun bytes => ⟨_, rfl⟩) fun o ho => ?_
  obtain ⟨-, rfl⟩ := ho
  cases o
  · exact h0 rfl
  · exact h1 rfl

section
variable {crypto : Hashing}

theorem codec_readIdentifier {kind : IdentifierKind} :
    Codec (readIdentifier kind) (fun id => id.bytes.toList) fun _ => True :=
  codec_readArray.lift (fun id => by simp [Identifier.fromBytes_eq_ok]) fun _ _ h => by
    rw [Identifier.fromBytes_eq_ok.1 (ofRecord_eq_ok.1 h)]

theorem codec_readKey : Codec (readKey : ReadM (Key crypto)) (fun key => key.bytes.toList) fun _ => True :=
  codec_readArray.lift (fun id => by simp [Key.fromBytes_eq_ok]) fun _ _ h => by
    rw [Key.fromBytes_eq_ok.1 (ofRecord_eq_ok.1 h)]

theorem codec_readScope : Codec readScope putScope fun _ => True :=
  codec_readIdentifier.field PrivateRoomScope.room fun _ =>
    codec_readIdentifier.lastField PrivateRoomScope.anchor fun _ => .pure _ fun ⟨_, _⟩ => by simp

theorem codec_readValidity : Codec readValidity putValidity fun _ => True := by
  refine codec_readU64.field Validity.notBefore fun a =>
    codec_readU64.lift (fun v => ?_) fun b v h => ?_
  · simp [Validity.new_eq_ok]
  · rw [(Validity.new_eq_ok.1 (ofRecord_eq_ok.1 h)).2]

theorem codec_readFloor : Codec readFloor putFloor fun _ => True := by
  refine codec_readU64.field ControlFloor.sequence fun a =>
    codec_readArray.lift (fun v => ?_) fun b v h => ?_
  · simp [ControlFloor.read_eq_ok]
  · rw [(ControlFloor.read_eq_ok.1 (ofRecord_eq_ok.1 h)).2]

theorem codec_readVerified {C : Type} {kind : RecordKind crypto C} {ok : C → Prop} (h : kind.Lawful ok) {limit : Nat}
    (hl : limit < 2 ^ 32) :
    Codec (readVerified kind limit) (fun record => putBlob record.encode) fun record => record.encode.length ≤ limit :=
  (codec_readBlob hl).lift (fun record => by simp [h.verified_decode_eq_ok]) fun raw record hd => by
    rw [h.verified_decode_eq_ok.1 (ofRecord_eq_ok.1 hd)]

end

theorem decodeWith_eq_ok {α : Type} {get : ReadM α} {put : α → List UInt8} {ok : α → Prop} (h : Codec get put ok)
    {limit : Nat} {raw : List UInt8} {a : α} :
    decodeWith limit get raw = .ok a ↔ raw = put a ∧ ok a ∧ (put a).length ≤ limit := h.decode_eq_ok

theorem writes_bytes (raw : List UInt8) : Writes (writeBytes raw) raw True := .put _ raw

theorem writes_byte (byte : UInt8) : Writes (writeByte byte) [byte] True := .put _ _

theorem writes_u64 (value : UInt64) : Writes (writeU64 value) (toBe value) True := .put _ _

theorem writes_floor (floor : ControlFloor) : Writes (writeFloor floor) (putFloor floor) True :=
  ((writes_u64 _).bind (writes_bytes _)).congr (by simp) fun _ => rfl

theorem writes_blob {limit : Nat} (h : limit < 2 ^ 32) (raw : List UInt8) :
    Writes (writeBlob limit raw) (putBlob raw) (raw.length ≤ limit) := by
  have hlimit : require Error.bounds (decide (raw.length ≤ limit)) = .ok () ↔ raw.length ≤ limit := by simp
  have hwidth : require Error.bounds (decide (raw.length < 2 ^ 32)) = .ok () ↔ raw.length < 2 ^ 32 := by simp
  refine ((Writes.check hlimit).bind ((Writes.check hwidth).bind ((writes_bytes _).bind (writes_bytes raw)))).congr ?_
    fun _ => rfl
  exact ⟨fun hle => ⟨hle, Nat.lt_of_le_of_lt hle h, trivial, trivial⟩, fun hle => hle.1⟩

theorem writes_option {α : Type} {write : α → WriteM Unit} {put : α → List UInt8} {ok : α → Prop}
    (h : ∀ a, Writes (write a) (put a) (ok a)) (o : Option α) : Writes (writeOption write o) (putOption put o) (∀ a ∈ o, ok a) := by
  cases o with
  | none => exact (writes_byte 0).congr (by simp) fun _ => rfl
  | some a => exact ((writes_byte 1).bind (h a)).congr (by simp) fun _ => rfl

/-! ### Sealed storage -/

/-- XChaCha20-Poly1305. -/
structure Cipher where
  encrypt : Bytes32 → Vector UInt8 24 → (aad clear : List UInt8) → List UInt8
  decrypt : Bytes32 → Vector UInt8 24 → (aad raw : List UInt8) → Option (List UInt8)
  decrypt_encrypt : ∀ key nonce aad clear, decrypt key nonce aad (encrypt key nonce aad clear) = some clear
  length_encrypt : ∀ key nonce aad clear, (encrypt key nonce aad clear).length = clear.length + 16

/-- The random bytes that one operation draws, by the position of the draw. -/
structure Entropy where
  draw : Nat → (n : Nat) → Option (Vector UInt8 n)

/-- `codec::random`. -/
def Entropy.random (entropy : Entropy) (i n : Nat) : Except Error (Vector UInt8 n) := Check.okOr .entropy (entropy.draw i n)

/-- `codec::hash`. -/
def hash (crypto : Hashing) (domain raw : List UInt8) : Bytes32 := crypto.sha256 (domain ++ raw)

section
variable {crypto : Hashing} (cipher : Cipher) (key : Bytes32) (context : Context crypto)

/-- `codec::aad`. -/
def storageAad (purpose : List UInt8) : List UInt8 :=
  "vhalla/private-kernel/encrypted-storage/v1".toUTF8.toList ++ (0 :: (context.encode ++ purpose))

/-- `codec::seal`. -/
def sealStorage (draw : Except Error (Vector UInt8 24)) (purpose clear : List UInt8) (maximum : Nat) :
    Except Error (List UInt8) := do
  require .bounds (decide (clear.length + 40 ≤ maximum))
  let nonce ← draw
  .ok (nonce.toList ++ cipher.encrypt key nonce (storageAad context purpose) clear)

/-- `codec::unseal`. -/
def unsealStorage (purpose raw : List UInt8) (maximum : Nat) : Except Error (List UInt8) :=
  if raw.length < 40 ∨ raw.length > maximum then .error .bounds
  else if h : (raw.take 24).length = 24 then
    Check.okOr .authentication (cipher.decrypt key ⟨(raw.take 24).toArray, h⟩ (storageAad context purpose) (raw.drop 24))
  else .error .bounds

variable {cipher key context}

end

end Valhalla.PrivateKernel
