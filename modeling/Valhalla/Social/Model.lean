import Valhalla.Core
import Valhalla.Lib.Check
import Valhalla.Lib.Maps

/-!
# The vocabulary of social records (`model.rs`, `facets.rs` of `vhalla-social`)

Identifiers, bounded texts and references, operations, control actions and record bodies. A bounded value
carries the fact that it passed its check.
-/

namespace Valhalla.Social
open FixedWidth Check

def maxRecordBytes : Nat := 8192
def maxTextBytes : Nat := 4096
def maxBioBytes : Nat := 512
def maxRefs : Nat := 16
def maxRecords : Nat := 4096

inductive Error
  | bounds | encoding | key | signature | signingKey | missing | unauthorized | context | conflict | capacity | budget
  | incomplete | privateDisabled | recoveryDisabled | acknowledgementRequired
deriving DecidableEq, Repr

/-! ### Identifiers -/

/-- What a digest identifies. -/
inductive IdKind
  | record | owner | agent | root

/-- A complete digest (`digest_type!`). -/
structure Id (kind : IdKind) where
  bytes : Bytes32
deriving DecidableEq

abbrev RecordId := Id .record
abbrev OwnerId := Id .owner
abbrev AgentId := Id .agent
abbrev EvidenceRoot := Id .root

namespace Id
variable {kind : IdKind}

instance : Ord (Id kind) := ⟨fun a b => compare a.bytes b.bytes⟩

theorem compare_def (a b : Id kind) : compare a b = compare a.bytes b.bytes := rfl

instance transCmp : Std.TransCmp (compare : Id kind → Id kind → Ordering) where
  eq_swap {a b} := by
    rw [compare_def, compare_def]
    exact Std.OrientedCmp.eq_swap
  isLE_trans {a b c} hab hbc := by
    rw [compare_def] at hab hbc ⊢
    exact Std.TransCmp.isLE_trans hab hbc

instance lawfulEqCmp : Std.LawfulEqCmp (compare : Id kind → Id kind → Ordering) where
  eq_of_compare {a b} h := by
    rw [compare_def] at h
    cases a
    cases b
    exact congrArg _ (Std.LawfulEqCmp.eq_of_compare h)

end Id

/-! ### Text -/

structure Text where
  str : String
  valid : str.utf8ByteSize ≤ maxTextBytes
deriving DecidableEq

def Text.new (text : String) : Except Error Text :=
  if h : text.utf8ByteSize ≤ maxTextBytes then .ok ⟨text, h⟩ else .error .bounds

def Text.bytes (text : Text) : List UInt8 := text.str.toUTF8.data.toList

/-! ### References and rights -/

def checkReferences (ids : List RecordId) : Bool := decide (ids.length ≤ maxRefs) && ascendingBy compare ids

/-- Sorted, unique, bounded references. -/
structure References where
  ids : List RecordId
  valid : checkReferences ids = true
deriving DecidableEq

def References.new (ids : List RecordId) : Except Error References :=
  if h : checkReferences ids = true then .ok ⟨ids, h⟩ else .error .bounds

def checkRights (bits : UInt8) : Bool := !(bits == 0 || bits &&& ~~~63 != 0)

/-- A nonempty set of operation rights. -/
structure Rights where
  bits : UInt8
  valid : checkRights bits = true
deriving DecidableEq

namespace Rights

def post : Rights := ⟨1, by decide⟩
def bio : Rights := ⟨2, by decide⟩
def react : Rights := ⟨4, by decide⟩
def follow : Rights := ⟨8, by decide⟩
def repost : Rights := ⟨16, by decide⟩
def revise : Rights := ⟨32, by decide⟩

def contains (self required : Rights) : Bool := self.bits &&& required.bits == required.bits

def fromBits (bits : UInt8) : Except Error Rights :=
  if h : checkRights bits = true then .ok ⟨bits, h⟩ else .error .encoding

end Rights

/-! ### Facets -/

def maxFacets : Nat := 16
def maxMentionTargets : Nat := 8
def maxTags : Nat := 8
def maxTagBytes : Nat := 48

inductive MentionTarget
  | owner (id : OwnerId)
  | agent (id : AgentId)
deriving DecidableEq

def isAsciiAlphanumeric (b : UInt8) : Bool :=
  (48 ≤ b && b ≤ 57) || (65 ≤ b && b ≤ 90) || (97 ≤ b && b ≤ 122)

def toAsciiLowercase (b : UInt8) : UInt8 := if 65 ≤ b && b ≤ 90 then b + 32 else b

/-- An alphanumeric or `_`, then also `-`. -/
def isTag : List UInt8 → Bool
  | [] => false
  | first :: rest =>
    decide (rest.length < maxTagBytes) && (isAsciiAlphanumeric first || first == 95) &&
      rest.all fun b => isAsciiAlphanumeric b || b == 95 || b == 45

theorem isAsciiAlphanumeric_lowercase {b : UInt8} (h : isAsciiAlphanumeric b = true) :
    isAsciiAlphanumeric (toAsciiLowercase b) = true := by
  simp only [isAsciiAlphanumeric, toAsciiLowercase, Bool.or_eq_true, Bool.and_eq_true, decide_eq_true_eq,
    UInt8.le_iff_toNat_le] at h ⊢
  split
  · rename_i hb
    have hadd : (b + 32).toNat = b.toNat + 32 := by
      rw [UInt8.toNat_add]
      simp at hb ⊢
      omega
    simp only [hadd]
    simp at hb ⊢
    omega
  · exact h

theorem toAsciiLowercase_idem (b : UInt8) : toAsciiLowercase (toAsciiLowercase b) = toAsciiLowercase b := by
  unfold toAsciiLowercase
  by_cases hb : (65 ≤ b && b ≤ 90) = true
  · rw [if_pos hb, if_neg]
    simp only [Bool.and_eq_true, decide_eq_true_eq, UInt8.le_iff_toNat_le, UInt8.toNat_add] at hb ⊢
    simp at hb ⊢
    omega
  · rw [if_neg hb, if_neg hb]

theorem toAsciiLowercase_of_punctuation {b : UInt8} (h : b = 95 ∨ b = 45) : toAsciiLowercase b = b := by
  obtain rfl | rfl := h <;> rfl

theorem isTag_lowercase {input : List UInt8} (h : isTag input = true) : isTag (input.map toAsciiLowercase) = true := by
  cases input with
  | nil => exact h
  | cons first rest =>
    simp only [isTag, List.map_cons, Bool.and_eq_true, Bool.or_eq_true, decide_eq_true_eq, beq_iff_eq, List.all_eq_true,
      List.length_map] at h ⊢
    obtain ⟨⟨hlen, hfirst⟩, hrest⟩ := h
    refine ⟨⟨hlen, hfirst.imp isAsciiAlphanumeric_lowercase fun he => ?_⟩, fun b hb => ?_⟩
    · rw [toAsciiLowercase_of_punctuation (.inl he), he]
    · obtain ⟨b, hmem, rfl⟩ := List.mem_map.1 hb
      obtain (hb | hb) | hb := hrest b hmem
      · exact .inl (.inl (isAsciiAlphanumeric_lowercase hb))
      · exact .inl (.inr (by rw [toAsciiLowercase_of_punctuation (.inl hb), hb]))
      · exact .inr (by rw [toAsciiLowercase_of_punctuation (.inr hb), hb])

/-- A topic key: the bytes of an ASCII string in lower case. -/
structure CanonicalTag where
  bytes : List UInt8
  tag : isTag bytes = true
  lowercase : bytes.map toAsciiLowercase = bytes
deriving DecidableEq

def CanonicalTag.new (input : List UInt8) : Except Error CanonicalTag :=
  if h : isTag input = true then
    .ok ⟨input.map toAsciiLowercase, isTag_lowercase h, by simp [toAsciiLowercase_idem]⟩
  else .error .encoding

/-- Only the normalized spelling. -/
def CanonicalTag.canonical (input : List UInt8) : Except Error CanonicalTag := do
  let tag ← CanonicalTag.new input
  require .encoding (tag.bytes == input)
  pure tag

inductive FacetKind
  | mention (target : MentionTarget)
  | tag (tag : CanonicalTag)
deriving DecidableEq

structure Facet where
  start : UInt16
  stop : UInt16
  kind : FacetKind
deriving DecidableEq

/-- `is_char_boundary` on UTF-8 bytes. -/
def isCharBoundary (bytes : List UInt8) (i : Nat) : Bool :=
  match bytes[i]? with
  | some b => b < 128 || b ≥ 192
  | none => i == bytes.length

/-- `str::get(start..stop)` on UTF-8 bytes. -/
def slice (bytes : List UInt8) (start stop : Nat) : Option (List UInt8) :=
  if decide (start ≤ stop) && isCharBoundary bytes start && isCharBoundary bytes stop then
    some ((bytes.drop start).take (stop - start))
  else none

def checkMention (label : List UInt8) : Except Error Unit :=
  require .encoding !(label.head? != some 64 || decide (label.length < 2) || label.any fun b => b ≤ 32 || b == 127)

/-- The visible tag behind its hash sign. -/
def checkTag (label : List UInt8) (tag : CanonicalTag) : Except Error Unit := do
  require .encoding (label.head? == some 35)
  let displayed ← CanonicalTag.new label.tail
  require .encoding (displayed == tag)

/-- One span behind the end of the one before it. -/
def checkFacet (bytes : List UInt8) (stop : Nat) (facet : Facet) : Except Error Nat := do
  let start := facet.start.toNat
  let next := facet.stop.toNat
  require .encoding !(decide (start < stop) || decide (start ≥ next))
  let label ← okOr .encoding (slice bytes start next)
  match facet.kind with
  | .mention _ => checkMention label
  | .tag tag => checkTag label tag
  pure next

def mentionOf (facet : Facet) : Option MentionTarget :=
  match facet.kind with
  | .mention target => some target
  | .tag _ => none

def tagOf (facet : Facet) : Option CanonicalTag :=
  match facet.kind with
  | .mention _ => none
  | .tag tag => some tag

def checkFacets (text : Text) (facets : List Facet) : Except Error Unit := do
  require .bounds (decide (facets.length ≤ maxFacets))
  let _ ← facets.foldlM (checkFacet text.bytes) 0
  require .bounds
    !(decide ((facets.filterMap mentionOf).eraseDups.length > maxMentionTargets) ||
      decide ((facets.filterMap tagOf).eraseDups.length > maxTags))

/-- Text with its annotations, signed as a unit. -/
structure FacetedText where
  text : Text
  facets : List Facet
  valid : checkFacets text facets = .ok ()
deriving DecidableEq

def FacetedText.new (text : Text) (facets : List Facet) : Except Error FacetedText :=
  match h : checkFacets text facets with
  | .ok () => .ok ⟨text, facets, h⟩
  | .error e => .error e

/-! ### Operations -/

inductive Placement
  | profile
  | channel (room : RoomId)
deriving DecidableEq

structure PostRef where
  post : RecordId
  revision : RecordId
deriving DecidableEq

structure ReplyRef where
  root : RecordId
  parent : PostRef
deriving DecidableEq

inductive Reaction
  | clear
  | up (revision : RecordId)
  | down (revision : RecordId)
deriving DecidableEq

inductive Operation
  | post (placement : Placement) (text : Text) (reply : Option ReplyRef) (quote : Option PostRef)
  | revise (post : RecordId) (text : Text) (supersedes : References)
  | postFaceted (placement : Placement) (content : FacetedText) (reply : Option ReplyRef) (quote : Option PostRef)
  | reviseFaceted (post : RecordId) (content : FacetedText) (supersedes : References)
  | retract (post : RecordId)
  | repost (post : RecordId) (revision : Option RecordId) (supersedes : References)
  | react (post : RecordId) (reaction : Reaction) (supersedes : References)
  | follow (target : OwnerId) (following : Bool) (supersedes : References)
  | agentBio (text : Text) (supersedes : References)
  | ownerProfile (text : Text) (supersedes : References)
deriving DecidableEq

namespace Operation

def requiredRight : Operation → Option Rights
  | .post .. | .postFaceted .. => some .post
  | .revise .. | .reviseFaceted .. | .retract .. => some .revise
  | .repost .. => some .repost
  | .react .. => some .react
  | .follow .. => some .follow
  | .agentBio .. => some .bio
  | .ownerProfile .. => none

def edited : Operation → Option RecordId
  | .revise id .. | .reviseFaceted id .. | .retract id => some id
  | _ => none

def isPost : Operation → Bool
  | .post .. | .postFaceted .. => true
  | _ => false

end Operation

/-! ### Records -/

inductive Actor
  | owner (owner : OwnerId) (control : RecordId)
  | agent (owner : OwnerId) (agent : AgentId) (grant : RecordId)
deriving DecidableEq

/-- Claimed owner reference (`Actor::owner`). -/
def Actor.ownerOf : Actor → OwnerId
  | .owner id _ => id
  | .agent id _ _ => id

inductive ControlAction
  | grant (agent : AgentId) (realm : RealmId) (rights : Rights) (expiresAt : UInt64) (nonce : Bytes32)
  | revoke (grant : RecordId) (accepted : References)
  | retire (agent : AgentId) (realm : RealmId) (accepted : References)
  | sealHeads (realm : RealmId) (heads : References)
  | ratify (realm : RealmId) (heads : References)
  | rotate (newKey : Bytes32)
deriving DecidableEq

inductive Body
  | ownerGenesis (controller : Bytes32) (recovery : Option Bytes32) (nonce : Bytes32)
  | control (owner : OwnerId) (previous : RecordId) (action : ControlAction)
  | agentGenesis (owner : OwnerId) (control : RecordId) (key : Bytes32) (nonce : Bytes32)
  | social (actor : Actor) (realm : RealmId) (sequence : UInt64) (previous : Option RecordId) (operation : Operation)
deriving DecidableEq

def Body.acknowledgementKey : Body → Option Bytes32
  | .agentGenesis _ _ key _ => some key
  | .control _ _ (.rotate newKey) => some newKey
  | _ => none

end Valhalla.Social
