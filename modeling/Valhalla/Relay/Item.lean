import Valhalla.PrivateKernel.Codec

/-!
# Opaque relay items (`vhalla-private-relay`)
-/

namespace Valhalla.Relay
open Fallible FixedWidth Check
open Valhalla.PrivateKernel (OutboxKind OperationId)

/-- `VHPRELAY`, version 1. -/
def magic : List UInt8 := [0x56, 0x48, 0x50, 0x52, 0x45, 0x4c, 0x41, 0x59, 1]
def digestDomain : List UInt8 := "vhalla/private/relay-item/v1".toUTF8.toList
def maxRelayPayload : Nat := 2 * 128 * 1024 + 4096
def maxRelayItems : Nat := 4096
def maxPutBody : Nat := 32 + magic.length + 32 + 8 + 16 + 1 + 4 + maxRelayPayload + 32

inductive RelayKind
  | outbox (kind : OutboxKind)
  | control
deriving DecidableEq, Repr

inductive RelayError
  | bounds | scope | conflict | confidential | capacity | storage
deriving DecidableEq, Repr

inductive NetError
  | connect | timeout | denied | conflict | capacity | bounds | scope | malformed | unavailable
deriving DecidableEq, Repr

structure RelayNamespace where
  bytes : Bytes32
  nonzero : bytes ≠ Vector.replicate 32 0
deriving DecidableEq

def RelayNamespace.fromBytes (bytes : Bytes32) : Except RelayError RelayNamespace :=
  if h : bytes = Vector.replicate 32 0 then .error .bounds else .ok ⟨bytes, h⟩

structure RelayReceipt where
  position : UInt64
  digest : Bytes32
  duplicate : Bool
deriving DecidableEq

def relayKind : RelayKind → Bool
  | .control | .outbox .contactRequest | .outbox .contactInvitation | .outbox .application | .outbox .removal
  | .outbox .ownerUpdate | .outbox .succession => true
  | _ => false

def kindByte : RelayKind → UInt8
  | .control => 9
  | .outbox .contactOffer => 0
  | .outbox .contactRequest => 1
  | .outbox .contactInvitation => 2
  | .outbox .keyPackage => 3
  | .outbox .invitation => 4
  | .outbox .application => 5
  | .outbox .removal => 6
  | .outbox .ownerUpdate => 7
  | .outbox .succession => 8

def kindFromByte (byte : UInt8) : Except RelayError RelayKind :=
  if byte = 9 then .ok .control
  else match byte with
    | 1 => .ok (.outbox .contactRequest)
    | 2 => .ok (.outbox .contactInvitation)
    | 3 => .ok (.outbox .keyPackage)
    | 4 => .ok (.outbox .invitation)
    | 5 => .ok (.outbox .application)
    | 6 => .ok (.outbox .removal)
    | 7 => .ok (.outbox .ownerUpdate)
    | 8 => .ok (.outbox .succession)
    | _ => .error .confidential

/-- What `new` accepts. -/
structure Admissible (sequence : UInt64) (kind : RelayKind) (payload : List UInt8) : Prop where
  sequence : sequence ≠ 0
  kind : relayKind kind = true
  nonempty : payload ≠ []
  bounded : payload.length ≤ maxRelayPayload

instance {sequence : UInt64} {kind : RelayKind} {payload : List UInt8} : Decidable (Admissible sequence kind payload) :=
  decidable_of_iff (sequence ≠ 0 ∧ relayKind kind = true ∧ payload ≠ [] ∧ payload.length ≤ maxRelayPayload)
    ⟨fun ⟨h₁, h₂, h₃, h₄⟩ => ⟨h₁, h₂, h₃, h₄⟩, fun h => ⟨h.sequence, h.kind, h.nonempty, h.bounded⟩⟩

structure RelayItem where
  scope : RelayNamespace
  sequence : UInt64
  operation : OperationId
  kind : RelayKind
  payload : List UInt8
  admissible : Admissible sequence kind payload
deriving DecidableEq

namespace RelayItem

def new (scope : RelayNamespace) (sequence : UInt64) (operation : OperationId) (kind : RelayKind) (payload : List UInt8) :
    Except RelayError RelayItem :=
  if h : Admissible sequence kind payload then .ok ⟨scope, sequence, operation, kind, payload, h⟩
  else .error (if relayKind kind then .bounds else .confidential)

def digest (crypto : Crypto) (item : RelayItem) : Bytes32 :=
  crypto.sha256 (digestDomain ++ (item.scope.bytes.toList ++ (toBe item.sequence ++ (item.operation.bytes.toList ++
    (toBe (kindByte item.kind) ++ item.payload)))))

def encode (crypto : Crypto) (item : RelayItem) : List UInt8 :=
  magic ++ (item.scope.bytes.toList ++ (toBe item.sequence ++ (item.operation.bytes.toList ++ (toBe (kindByte item.kind) ++
    (toBe (UInt32.ofNat item.payload.length) ++ (item.payload ++ (item.digest crypto).toList))))))

/-- What follows the magic. -/
def get (crypto : Crypto) : Reader RelayError RelayItem := do
  let raw ← Reader.array .bounds 32
  let scope ← Reader.lift (RelayNamespace.fromBytes raw)
  let sequence ← (Reader.int .bounds : Reader RelayError UInt64)
  let raw ← Reader.array .bounds 16
  let operation ← Reader.lift ((OperationId.fromBytes raw).mapError fun _ => .bounds)
  let byte ← (Reader.int .bounds : Reader RelayError UInt8)
  let kind ← Reader.lift (kindFromByte byte)
  let length ← (Reader.int .bounds : Reader RelayError UInt32)
  Reader.lift (require .bounds (toNat length != 0 && decide (toNat length ≤ maxRelayPayload)))
  let remaining ← view List.length
  Reader.lift (require .bounds (toNat length + 32 == remaining))
  let payload ← Reader.take .bounds (toNat length)
  let expected ← Reader.array .bounds 32
  let item ← Reader.lift (new scope sequence operation kind payload)
  Reader.lift (require .conflict (item.digest crypto == expected))
  pure item

def decode (crypto : Crypto) (raw : List UInt8) : Except RelayError RelayItem :=
  if raw.length < magic.length + 32 + 8 + 16 + 1 + 4 + 32 || raw.take magic.length != magic then .error .bounds
  else (exec (get crypto) (raw.drop magic.length)).1

variable {crypto : Crypto} {item : RelayItem}

theorem length_encode : (item.encode crypto).length = magic.length + 93 + item.payload.length := by
  simp only [encode, List.length_append, Vector.length_toList, length_toBe, bytes_uInt64, bytes_uInt32, bytes_uInt8]
  omega

theorem length_encode_le : (item.encode crypto).length ≤ maxPutBody - 32 := by
  have hbound := item.admissible.bounded
  rw [length_encode, maxPutBody]
  omega

theorem kindFromByte_kindByte {kind : RelayKind} (h : relayKind kind = true) : kindFromByte (kindByte kind) = .ok kind := by
  cases kind with
  | control => rfl
  | outbox kind => cases kind <;> first | rfl | cases h

theorem toNat_length : toNat (UInt32.ofNat item.payload.length) = item.payload.length := by
  refine toNat_ofNat _ (Nat.lt_of_le_of_lt item.admissible.bounded ?_)
  decide

theorem decode_encode : decode crypto (item.encode crypto) = .ok item := by
  have harray {n : Nat} (v : Vector UInt8 n) (rest : List UInt8) :
      exec (Reader.array RelayError.bounds n) (v.toList ++ rest) = (.ok v, rest) := ((Codec.array _ n).iff _ _ _).2 ⟨rfl, trivial⟩
  have hu64 (v : UInt64) (rest : List UInt8) : exec (Reader.int RelayError.bounds : Reader RelayError UInt64) (toBe v ++ rest) =
      (.ok v, rest) := ((Codec.int _).iff _ _ _).2 ⟨rfl, trivial⟩
  have hu32 (v : UInt32) (rest : List UInt8) : exec (Reader.int RelayError.bounds : Reader RelayError UInt32) (toBe v ++ rest) =
      (.ok v, rest) := ((Codec.int _).iff _ _ _).2 ⟨rfl, trivial⟩
  have hu8 (v : UInt8) (rest : List UInt8) : exec (Reader.int RelayError.bounds : Reader RelayError UInt8) (toBe v ++ rest) =
      (.ok v, rest) := ((Codec.int _).iff _ _ _).2 ⟨rfl, trivial⟩
  have hlift {α : Type} {x : Except RelayError α} {a : α} (h : x = .ok a) (rest : List UInt8) :
      exec (Reader.lift x) rest = (.ok a, rest) := by
    rw [h]
    rfl
  have hscope : RelayNamespace.fromBytes item.scope.bytes = .ok item.scope := dif_neg item.scope.nonzero
  have hoperation : (OperationId.fromBytes item.operation.bytes).mapError (fun _ => RelayError.bounds) = .ok item.operation :=
    mapError_eq_ok.2 (OperationId.fromBytes_eq_ok.2 rfl)
  have hnew : new item.scope item.sequence item.operation item.kind item.payload = .ok item := dif_pos item.admissible
  have hne : item.payload.length ≠ 0 := fun h => item.admissible.nonempty (List.eq_nil_of_length_eq_zero h)
  have hbounds : require RelayError.bounds (toNat (UInt32.ofNat item.payload.length) != 0 &&
      decide (toNat (UInt32.ofNat item.payload.length) ≤ maxRelayPayload)) = .ok () := by
    rw [require_eq_ok, toNat_length, Bool.and_eq_true, decide_eq_true_eq, bne_iff_ne]
    exact ⟨hne, item.admissible.bounded⟩
  have hrest : require RelayError.bounds (toNat (UInt32.ofNat item.payload.length) + 32 ==
      (item.payload ++ (item.digest crypto).toList).length) = .ok () := by
    rw [require_eq_ok, toNat_length, beq_iff_eq, List.length_append, Vector.length_toList]
  have hpayload (rest : List UInt8) : exec (Reader.take RelayError.bounds (toNat (UInt32.ofNat item.payload.length)))
      (item.payload ++ rest) = (.ok item.payload, rest) := ((Codec.take _ _).iff _ _ _).2 ⟨rfl, toNat_length.symm⟩
  have hdigest : require RelayError.conflict (item.digest crypto == item.digest crypto) = .ok () := by rw [require_eq_ok, beq_self_eq_true]
  have hget : exec (get crypto) ((item.encode crypto).drop magic.length) = (.ok item, []) := by
    rw [encode, List.drop_left' rfl, get, exec_bind_ok (harray _ _), exec_bind_ok (hlift hscope _), exec_bind_ok (hu64 _ _),
      exec_bind_ok (harray _ _), exec_bind_ok (hlift hoperation _), exec_bind_ok (hu8 _ _),
      exec_bind_ok (hlift (kindFromByte_kindByte item.admissible.kind) _), exec_bind_ok (hu32 _ _), exec_bind_ok (hlift hbounds _),
      exec_bind_ok (exec_view _), exec_bind_ok (hlift hrest _), exec_bind_ok (hpayload _)]
    have hlast := harray (item.digest crypto) []
    rw [List.append_nil] at hlast
    rw [exec_bind_ok hlast, exec_bind_ok (hlift hnew _), exec_bind_ok (hlift hdigest _), exec_pure]
  have hshort : ¬ (item.encode crypto).length < magic.length + 32 + 8 + 16 + 1 + 4 + 32 := by
    rw [length_encode]
    omega
  have hmagic : (item.encode crypto).take magic.length = magic := List.take_left' rfl
  rw [decode, hget, hmagic, decide_eq_false hshort]
  simp

theorem exec_lift_eq_ok {ε α : Type} {x : Except ε α} {bytes rest : List UInt8} {a : α} :
    exec (Reader.lift x) bytes = (.ok a, rest) ↔ x = .ok a ∧ bytes = rest := by
  rw [Reader.lift, exec_of, Prod.mk.injEq]

theorem kindByte_of_kindFromByte {byte : UInt8} {kind : RelayKind} (h : kindFromByte byte = .ok kind) : kindByte kind = byte := by
  unfold kindFromByte at h
  split at h
  · rename_i heq
    cases h
    exact heq.symm
  · split at h <;> cases h <;> rfl

theorem fromBytes_eq_ok {bytes : Bytes32} {scope : RelayNamespace} (h : RelayNamespace.fromBytes bytes = .ok scope) : scope.bytes = bytes := by
  unfold RelayNamespace.fromBytes at h
  split at h <;> cases h
  rfl

theorem new_eq_ok {scope : RelayNamespace} {sequence : UInt64} {operation : OperationId} {kind : RelayKind} {payload : List UInt8}
    (h : new scope sequence operation kind payload = .ok item) :
    item.scope = scope ∧ item.sequence = sequence ∧ item.operation = operation ∧ item.kind = kind ∧ item.payload = payload := by
  unfold new at h
  split at h <;> cases h
  exact ⟨rfl, rfl, rfl, rfl, rfl⟩

theorem encode_of_decode {raw : List UInt8} (h : decode crypto raw = .ok item) : item.encode crypto = raw := by
  unfold decode at h
  split at h
  · cases h
  rename_i hheader
  rw [Bool.or_eq_true, not_or, bne_iff_ne, ne_eq, Decidable.not_not] at hheader
  generalize hrest : (exec (get crypto) (raw.drop magic.length)).2 = rest
  have hget : exec (get crypto) (raw.drop magic.length) = (.ok item, rest) := Prod.ext h hrest
  simp only [get, exec_bind_eq_ok, (Codec.array _ _).iff, (Codec.int _).iff, (Codec.take _ _).iff, exec_lift_eq_ok, exec_view,
    exec_pure, Prod.mk.injEq, Except.ok.injEq, and_true, id] at hget
  obtain ⟨namespaceBytes, _, hraw, scope, _, ⟨hscope, rfl⟩, sequence, _, rfl, operationBytes, _, rfl, operation, _, ⟨hoperation, rfl⟩,
    byte, _, rfl, kind, _, ⟨hkind, rfl⟩, length, _, rfl, _, _, ⟨-, rfl⟩, _, _, ⟨rfl, rfl⟩, _, _, ⟨hremaining, rfl⟩,
    payload, _, ⟨rfl, hpayload⟩, expected, last, rfl, read, _, ⟨hnew, rfl⟩, _, _, ⟨hdigest, rfl⟩, rfl, -⟩ := hget
  have hlast : last = [] := by
    rw [require_eq_ok, beq_iff_eq, List.length_append, List.length_append, Vector.length_toList, hpayload] at hremaining
    exact List.eq_nil_of_length_eq_zero (by omega)
  obtain ⟨rfl, rfl, rfl, rfl, rfl⟩ := new_eq_ok hnew
  rw [require_eq_ok, beq_iff_eq] at hdigest
  have hlength : UInt32.ofNat read.payload.length = length := by
    rw [hpayload]
    exact ofNat_toNat length
  rw [hlast, List.append_nil] at hraw
  rw [← List.take_append_drop magic.length raw, hheader.2, hraw, encode, fromBytes_eq_ok hscope, OperationId.fromBytes_eq_ok.1 (mapError_eq_ok.1 hoperation), kindByte_of_kindFromByte hkind, hlength,
    hdigest]

theorem decode_eq_ok {raw : List UInt8} : decode crypto raw = .ok item ↔ raw = item.encode crypto := by
  constructor
  · intro h
    exact (encode_of_decode h).symm
  · rintro rfl
    exact decode_encode

end RelayItem

end Valhalla.Relay
