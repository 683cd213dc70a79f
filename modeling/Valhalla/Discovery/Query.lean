import Valhalla.Lib.Meter
import Valhalla.Retrieval.Wire
import Valhalla.Social.View

/-!
# Literal queries (`query.rs` of `vhalla-discovery`)

A query is a few literal terms, all of which have to occur in a text up to the case of ASCII letters. Looking for them is paid
from a budget, one step for each byte that is compared.
-/

namespace Valhalla.Discovery
open Fallible Check
open Social (RecordId OwnerId AgentId PostRef MentionTarget RecordState toAsciiLowercase)

inductive Error
  | bounds | encoding | budget | stale | clock | evidence
deriving DecidableEq, Repr

def maxPage : Nat := 64
def maxDocuments : Nat := 4096
def policyVersion : UInt16 := 1

def utf8 (s : String) : List UInt8 := s.toUTF8.data.toList

def isAsciiWhitespace (b : UInt8) : Bool := b == 32 || b == 9 || b == 10 || b == 12 || b == 13

def isAsciiLowercase (b : UInt8) : Bool := 97 ≤ b && b ≤ 122

def isAsciiDigit (b : UInt8) : Bool := 48 ≤ b && b ≤ 57

def isAsciiControl (b : UInt8) : Bool := b < 32 || b == 127

def validTag (s : String) : Except Error Unit :=
  match utf8 s with
  | [] => .error .bounds
  | first :: rest =>
    require .bounds (decide ((first :: rest).length ≤ 48) && (isAsciiLowercase first || isAsciiDigit first || first == 95) &&
      (first :: rest).all fun c => isAsciiLowercase c || isAsciiDigit c || c == 95 || c == 45)

/-! ### Queries -/

namespace Query

/-- Whether a byte belongs to the term before it. -/
def continues (quoted : Bool) (b : UInt8) : Bool := if quoted then b != 34 else !isAsciiWhitespace b

def scanTerm (quoted : Bool) : List UInt8 → Except Error (List UInt8 × List UInt8)
  | [] => .ok ([], [])
  | b :: rest =>
    if continues quoted b then
      if b = 92 ∨ (quoted = false ∧ b = 34) then .error .encoding
      else do
        let (term, behind) ← scanTerm quoted rest
        pure (b :: term, behind)
    else .ok ([], b :: rest)

theorem length_scanTerm {quoted : Bool} {l term behind : List UInt8} (h : scanTerm quoted l = .ok (term, behind)) :
    term.length + behind.length = l.length := by
  induction l generalizing term behind with
  | nil =>
    cases h
    rfl
  | cons b rest ih =>
    unfold scanTerm at h
    split at h
    · split at h
      · cases h
      · rw [bind_eq_ok] at h
        obtain ⟨out, hrest, h⟩ := h
        cases h
        have hlength := ih hrest
        rw [List.length_cons, List.length_cons]
        omega
    · cases h
      exact Nat.zero_add _

/-- A quote on either side of a term is not part of it. -/
def unquote (quoted : Bool) (l : List UInt8) : List UInt8 := if quoted then l.tail else l

theorem length_unquote_le (quoted : Bool) (l : List UInt8) : (unquote quoted l).length ≤ l.length := by
  unfold unquote
  split
  · rw [List.length_tail]
    exact Nat.sub_le _ _
  · exact Nat.le_refl _

/-- The terms from here on, after those found already. -/
def parseTerms (l : List UInt8) (terms : List (List UInt8)) : Except Error (List (List UInt8)) :=
  match _h : l.dropWhile isAsciiWhitespace with
  | [] => .ok terms
  | b :: rest =>
    let quoted := b == 34
    match _hterm : scanTerm quoted (unquote quoted (b :: rest)) with
    | .error e => .error e
    | .ok (term, behind) =>
      if _hend : quoted = true ∧ behind = [] ∨ term = [] then .error .encoding
      else if 96 < term.length ∨ terms.length = 8 then .error .bounds
      else if quoted = true ∧ (behind.tail.head?.any fun c => !isAsciiWhitespace c) = true then .error .encoding
      else parseTerms (unquote quoted behind) (terms ++ [term])
termination_by l.length
decreasing_by
  have hle : (b :: rest).length ≤ l.length := _h ▸ (List.dropWhile_suffix _).length_le
  have hlength := length_scanTerm _hterm
  have hpos : 0 < term.length := List.length_pos_iff.2 fun hnil => _hend (.inr hnil)
  have hstart := length_unquote_le quoted (b :: rest)
  have hbehind := length_unquote_le quoted behind
  show (unquote quoted behind).length < l.length
  omega

end Query

structure Query where
  raw : String
  terms : List (List UInt8)
  short : raw.utf8ByteSize ≤ 256
  parsed : Query.parseTerms (utf8 raw) [] = .ok terms
deriving DecidableEq

namespace Query

def parse (input : String) : Except Error Query :=
  if hshort : input.utf8ByteSize ≤ 256 then
    match h : parseTerms (utf8 input) [] with
    | .ok terms => .ok ⟨input, terms, hshort, h⟩
    | .error e => .error e
  else .error .bounds

end Query

/-! ### Filters -/

inductive Kind
  | post | reply | repost
deriving DecidableEq

structure Filters where
  state : Option RecordState
  kind : Option Kind
  owner : Option OwnerId
  agent : Option AgentId
  channel : Option RoomId
  root : Option RecordId
  tag : Option String
  mention : Option MentionTarget
  reply : Option Bool
  repostOnly : Bool
deriving DecidableEq

namespace Filters

/-- `Filters::default` -/
def unfiltered : Filters := ⟨none, none, none, none, none, none, none, none, none, false⟩

def check (filters : Filters) : Except Error Unit := do
  require .bounds !(filters.state.any fun state => !(state == .committed || state == .provisional))
  match filters.tag with
  | some tag => validTag tag
  | none => pure ()

end Filters

/-! ### Budgets -/

@[ext]
structure Budget where
  documents : Nat
  bytes : Nat
  steps : Nat
deriving DecidableEq

abbrev Work := Fallible Error Budget

namespace Budget

def standard : Budget := ⟨maxDocuments, 16 * 1024 * 1024, 16 * 1024 * 1024⟩

def compact : Budget := ⟨256, 256 * 1024, 1024 * 1024⟩

def check (budget : Budget) : Except Error Unit :=
  require .bounds
    !(decide (budget.documents > maxDocuments) || decide (budget.bytes > 16 * 1024 * 1024) || decide (budget.steps > 64 * 1024 * 1024))

def document (bytes metadata : Nat) : Work Unit := of fun budget =>
  if budget.documents = 0 ∨ budget.bytes < bytes ∨ budget.steps < metadata then (.error .budget, budget)
  else (.ok (), ⟨budget.documents - 1, budget.bytes - bytes, budget.steps - metadata⟩)

def chargeSteps (n : Nat) : Work Unit := of fun budget =>
  if budget.steps < n then (.error .budget, budget) else (.ok (), { budget with steps := budget.steps - n })

end Budget

/-! ### Matching -/

/-- All stretches of `n` bytes (`windows`). -/
def windows (n : Nat) : List UInt8 → List (List UInt8)
  | [] => []
  | b :: l => if n ≤ (b :: l).length then (b :: l).take n :: windows n l else []

def eqIgnoreAsciiCase (a b : UInt8) : Bool := toAsciiLowercase a == toAsciiLowercase b

namespace Query

def windowEquals : List UInt8 → List UInt8 → Work Bool
  | a :: window, b :: term => do
    Budget.chargeSteps 1
    if eqIgnoreAsciiCase a b then windowEquals window term else pure false
  | _, _ => pure true

def findTerm (term : List UInt8) : List (List UInt8) → Work Bool
  | [] => pure false
  | window :: windows => do
    if ← windowEquals window term then pure true else findTerm term windows

def matchTerms (text : List UInt8) : List (List UInt8) → Work Bool
  | [] => pure true
  | term :: terms =>
    if text.length < term.length then pure false
    else do
      if ← findTerm term (windows term.length text) then matchTerms text terms else pure false

/-- `Query::matches` -/
def matchText (query : Query) (text : String) : Work Bool := matchTerms (utf8 text) query.terms

end Query

end Valhalla.Discovery
