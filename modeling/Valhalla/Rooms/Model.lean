import Valhalla.Social.Model

/-!
# The vocabulary of room records (`model.rs` of `vhalla-rooms`)

Identifiers, slugs and descriptions, which carry their check, and the bodies of the three kinds of records. No
value of these types grants a right.
-/

namespace Valhalla.Rooms
open Social (OwnerId AgentId RecordId)

def maxRecordBytes : Nat := 2048
def maxSlugBytes : Nat := 48
def maxDescriptionBytes : Nat := 256

inductive Error
  | bounds | encoding | key | signature | signingKey
deriving DecidableEq, Repr

/-! ### Identifiers -/

inductive IdKind
  | directory | policy | record | genesis | permit

/-- A full digest (`digest_type!`). -/
structure Id (kind : IdKind) where
  bytes : Bytes32
deriving DecidableEq

abbrev DirectoryId := Id .directory
abbrev PolicyId := Id .policy
abbrev RoomRecordId := Id .record
abbrev RoomGenesisId := Id .genesis
abbrev PermitId := Id .permit

namespace Id
variable {kind : IdKind}

instance : Ord (Id kind) := ⟨fun a b => compare a.bytes b.bytes⟩

theorem compare_def (a b : Id kind) : compare a b = compare a.bytes b.bytes := rfl

instance transCmp : Std.TransCmp (compare : Id kind → Id kind → Ordering) where
  eq_swap {a b} := by
    rw [compare_def, compare_def]
    exact Std.OrientedCmp.eq_swap
  isLE_trans {a b c} hab hbc := by
    rw [compare_def] at hab hbc ⊢
    exact Std.TransCmp.isLE_trans hab hbc

instance lawfulEqCmp : Std.LawfulEqCmp (compare : Id kind → Id kind → Ordering) where
  eq_of_compare {a b} h := by
    rw [compare_def] at h
    cases a
    cases b
    exact congrArg _ (Std.LawfulEqCmp.eq_of_compare h)

end Id

/-! ### Text -/

/-- The letters of a slug: `a` to `z`, digits and `-`. -/
def isSlugByte (b : UInt8) : Bool := (97 ≤ b && b ≤ 122) || (48 ≤ b && b ≤ 57) || b == 45

def doubleDash : List UInt8 → Bool
  | 45 :: 45 :: _ => true
  | _ :: rest => doubleDash rest
  | [] => false

def checkSlug (value : List UInt8) : Except Error Unit := do
  Check.require .bounds !(value.isEmpty || decide (value.length > maxSlugBytes))
  Check.require .encoding !(value.head? == some 45 || value.getLast? == some 45 || doubleDash value || !value.all isSlugByte)

/-- A canonical lowercase ASCII slug by its bytes. -/
structure Slug where
  bytes : List UInt8
  valid : checkSlug bytes = .ok ()
deriving DecidableEq

namespace Slug

def new (value : List UInt8) : Except Error Slug :=
  match h : checkSlug value with
  | .ok () => .ok ⟨value, h⟩
  | .error e => .error e

/-- Strings compare by their bytes. -/
instance : Ord Slug := ⟨fun a b => compare a.bytes b.bytes⟩

theorem compare_def (a b : Slug) : compare a b = compare a.bytes b.bytes := rfl

instance transCmp : Std.TransCmp (compare : Slug → Slug → Ordering) where
  eq_swap {a b} := by
    rw [compare_def, compare_def]
    exact Std.OrientedCmp.eq_swap
  isLE_trans {a b c} hab hbc := by
    rw [compare_def] at hab hbc ⊢
    exact Std.TransCmp.isLE_trans hab hbc

instance lawfulEqCmp : Std.LawfulEqCmp (compare : Slug → Slug → Ordering) where
  eq_of_compare {a b} h := by
    rw [compare_def] at h
    obtain ⟨x, hx⟩ := a
    obtain ⟨y, hy⟩ := b
    obtain rfl : x = y := Std.LawfulEqCmp.eq_of_compare h
    rfl

end Slug

/-- `char::is_control`. -/
def isControl (c : Char) : Bool := c.val < 32 || (127 ≤ c.val && c.val ≤ 159)

def checkDescription (value : String) : Except Error Unit := do
  Check.require .bounds !(value.isEmpty || decide (value.utf8ByteSize > maxDescriptionBytes))
  Check.require .encoding !(value.toList.any isControl)

/-- Short text without control characters. -/
structure Description where
  str : String
  valid : checkDescription str = .ok ()
deriving DecidableEq

namespace Description

def new (value : String) : Except Error Description :=
  match h : checkDescription value with
  | .ok () => .ok ⟨value, h⟩
  | .error e => .error e

def bytes (description : Description) : List UInt8 := description.str.toUTF8.data.toList

end Description

/-! ### Bodies -/

inductive CreateAction
  | grantCreate (agent : AgentId) (agentKey : Bytes32) (expiresAt maximumCharge : UInt64) (nonce : Bytes32)
  | revokeGrant (grant : RoomRecordId)
deriving DecidableEq

structure RoomControl where
  directory : DirectoryId
  realm : RealmId
  owner : OwnerId
  socialControl : RecordId
  controllerKey : Bytes32
  previous : Option RoomRecordId
  sequence : UInt64
  action : CreateAction
deriving DecidableEq

structure CreationIntent where
  directory : DirectoryId
  realm : RealmId
  policy : PolicyId
  initialSettings : PolicyId
  owner : OwnerId
  agent : AgentId
  ownerKey : Bytes32
  agentKey : Bytes32
  socialControl : RecordId
  roomControl : RoomRecordId
  grant : RoomRecordId
  slug : Slug
  description : Description
  slot : UInt32
  charge : UInt64
  expiresAt : UInt64
  nonce : Bytes32
deriving DecidableEq

def publicActivityVersion : UInt8 := 1

inductive UpdateAction
  | describe (description : Description)
  | archive
  | setPublicActivityPolicy (network : Bytes32) (enabled : Bool)
deriving DecidableEq

structure RoomUpdate where
  directory : DirectoryId
  realm : RealmId
  genesis : RoomGenesisId
  previous : RoomRecordId
  owner : OwnerId
  socialControl : RecordId
  controllerKey : Bytes32
  expiresAt : UInt64
  nonce : Bytes32
  action : UpdateAction
deriving DecidableEq

inductive Body
  | control (control : RoomControl)
  | create (intent : CreationIntent)
  | update (update : RoomUpdate)
deriving DecidableEq

/-! ### Validators -/

def maxOwners : Nat := 256
def maxValidators : Nat := 64

structure ValidatorMember where
  key : Bytes32
  power : UInt64
deriving DecidableEq

namespace ValidatorMember

/-- By key, then by power (`derive(Ord)`). -/
instance : Ord ValidatorMember := ⟨compareLex (compareOn key) (compareOn power)⟩

instance transCmp : Std.TransCmp (compare : ValidatorMember → ValidatorMember → Ordering) :=
  inferInstanceAs (Std.TransCmp (compareLex (compareOn key) (compareOn power)))

theorem key_lt_of_isLE {a b : ValidatorMember} (hne : a.key ≠ b.key) (h : (compare a b).isLE = true) :
    compare a.key b.key = .lt := by
  have hthen : compare a b = (compare a.key b.key).then (compare a.power b.power) := rfl
  rw [hthen] at h
  cases hab : compare a.key b.key with
  | lt => rfl
  | eq => exact absurd (Std.LawfulEqCmp.eq_of_compare hab) hne
  | gt =>
    rw [hab] at h
    exact absurd h Bool.false_ne_true

theorem lt_of_key_lt {a b : ValidatorMember} (h : compare a.key b.key = .lt) : compare a b = .lt := by
  have hthen : compare a b = (compare a.key b.key).then (compare a.power b.power) := rfl
  rw [hthen, h]
  rfl

end ValidatorMember

end Valhalla.Rooms
