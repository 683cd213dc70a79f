import Valhalla.Core
import Valhalla.Lib.Check
import Valhalla.Lib.Fallible
import Valhalla.Lib.Maps

/-!
# Redeemed invitation nonces on disk (`spent.rs`)

A `SpentFile` holds a set in memory and republishes the whole set through a temporary sibling. `Disk` is what the file
operations see: what the path names, what it may name after a crash, and the sibling. Any operation may fail or be cut
by a crash, with its effect taken place in part.
-/

namespace Valhalla.Native
open Check

inductive SpentError
  | io
  | malformed
  | alreadySpent
  | capacity
deriving DecidableEq, Repr

def spentCapacity : Nat := 1024

/-- `VSN1` -/
def magic : List UInt8 := [0x56, 0x53, 0x4e, 0x31]

def zero : Bytes32 := Vector.replicate 32 0

abbrev Nonces := Std.ExtTreeSet Bytes32 compare

/-! ### The layout -/

/-- The first `k` whole chunks of `n` bytes. -/
def chunks (n : Nat) : Nat → List UInt8 → List (Vector UInt8 n)
  | 0, _ => []
  | k + 1, raw => if h : (raw.take n).length = n then ⟨(raw.take n).toArray, h⟩ :: chunks n k (raw.drop n) else []

/-- The whole chunks of `n` bytes. -/
def asChunks (n : Nat) (raw : List UInt8) : List (Vector UInt8 n) := chunks n (raw.length / n) raw

def validEncodedLength (len : Nat) : Bool := 4 ≤ len && len % 32 == 4 && len ≤ 4 + 32 * spentCapacity

def ascends : Bytes32 → List Bytes32 → Bool
  | _, [] => true
  | previous, nonce :: entries => if (compare nonce previous).isLE then false else ascends nonce entries

def decodeEntries (raw : List UInt8) : Except SpentError (List Bytes32) :=
  if !validEncodedLength raw.length || raw.take 4 != magic then .error .malformed
  else if ascends zero (asChunks 32 (raw.drop 4)) then .ok (asChunks 32 (raw.drop 4))
  else .error .malformed

def decode (raw : List UInt8) : Except SpentError Nonces := do
  let entries ← decodeEntries raw
  pure (Maps.ofKeys compare entries)

def encodeEntries (entries : List Bytes32) : List UInt8 := magic ++ entries.flatMap Vector.toList

section
variable {n : Nat} {raw : List UInt8} {entries : List Bytes32} {previous nonce : Bytes32} {spent : Nonces}

theorem chunks_flatMap (l : List (Vector UInt8 n)) : chunks n l.length (l.flatMap Vector.toList) = l := by
  induction l with
  | nil => rfl
  | cons v l ih =>
    have htake : ((v :: l).flatMap Vector.toList).take n = v.toList := by
      rw [List.flatMap_cons, List.take_left' v.length_toList]
    have hdrop : ((v :: l).flatMap Vector.toList).drop n = l.flatMap Vector.toList := by
      rw [List.flatMap_cons, List.drop_left' v.length_toList]
    have hlen : (((v :: l).flatMap Vector.toList).take n).length = n := by rw [htake, v.length_toList]
    rw [List.length_cons, chunks, dif_pos hlen, hdrop, ih]
    congr 1
    exact Vector.toList_inj.1 htake

theorem length_flatMap_toList (l : List (Vector UInt8 n)) : (l.flatMap Vector.toList).length = l.length * n := by
  induction l with
  | nil => simp
  | cons v l ih => rw [List.flatMap_cons, List.length_append, ih, v.length_toList, List.length_cons, Nat.succ_mul, Nat.add_comm]

theorem asChunks_flatMap (hn : 0 < n) (l : List (Vector UInt8 n)) : asChunks n (l.flatMap Vector.toList) = l := by
  rw [asChunks, length_flatMap_toList, Nat.mul_div_cancel _ hn, chunks_flatMap]

theorem length_chunks_le (k : Nat) : (chunks n k raw).length ≤ k := by
  induction k generalizing raw with
  | zero => exact Nat.zero_le _
  | succ k ih =>
    unfold chunks
    split
    · rw [List.length_cons]
      exact Nat.succ_le_succ ih
    · exact Nat.zero_le _

theorem zero_isLE (nonce : Bytes32) : (compare zero nonce).isLE = true := by
  rw [Vector.compare_eq_compare_toList]
  have hzero : zero.toList = List.replicate nonce.toList.length 0 := by
    rw [zero, nonce.length_toList, Vector.toList_replicate]
  rw [hzero]
  generalize nonce.toList = l
  induction l with
  | nil => rfl
  | cons b l ih =>
    rw [List.length_cons, List.replicate_succ, List.compare_cons_cons, Ordering.isLE_then_iff_and]
    refine ⟨?_, .inr ih⟩
    show (compareOfLessAndEq 0 b).isLE = true
    by_cases hb : b = 0
    · subst hb
      rfl
    · have hlt : 0 < b := UInt8.pos_iff_ne_zero.2 hb
      rw [compareOfLessAndEq, if_pos hlt]
      rfl

theorem ascends_iff : ascends previous entries = true ↔ (previous :: entries).Pairwise (compare · · = .lt) := by
  induction entries generalizing previous with
  | nil => simp [ascends]
  | cons nonce entries ih =>
    have hlt : ¬ (compare nonce previous).isLE = true ↔ compare previous nonce = .lt := by
      have hswap : compare previous nonce = (compare nonce previous).swap := Std.OrientedCmp.eq_swap
      rw [hswap]
      cases compare nonce previous <;> simp
    rw [ascends]
    constructor
    · intro h
      split at h
      · cases h
      · rename_i hle
        have hpw := ih.1 h
        refine List.pairwise_cons.2 ⟨fun b hb => ?_, hpw⟩
        rcases List.mem_cons.1 hb with rfl | hb
        · exact hlt.1 hle
        · exact Std.TransCmp.lt_trans (hlt.1 hle) ((List.pairwise_cons.1 hpw).1 b hb)
    · intro h
      obtain ⟨hall, hpw⟩ := List.pairwise_cons.1 h
      rw [if_neg (hlt.2 (hall nonce List.mem_cons_self))]
      exact ih.2 hpw

/-- A set that the layout can hold. -/
structure Canonical (spent : Nonces) : Prop where
  nonzero : zero ∉ spent
  bounded : spent.size ≤ spentCapacity

theorem canonical_empty : Canonical ∅ := ⟨Std.ExtTreeSet.not_mem_empty, by rw [Std.ExtTreeSet.size_empty]; exact Nat.zero_le _⟩

theorem Canonical.ascends (h : Canonical spent) : ascends zero spent.toList = true := by
  refine ascends_iff.2 (List.pairwise_cons.2 ⟨fun nonce hn => ?_, Std.ExtTreeSet.ordered_toList⟩)
  have hle := zero_isLE nonce
  rw [Ordering.isLE_iff_eq_lt_or_eq_eq] at hle
  rcases hle with hlt | heq
  · exact hlt
  · rw [Std.LawfulEqCmp.compare_eq_iff_eq] at heq
    subst heq
    exact absurd (Std.ExtTreeSet.mem_toList.1 hn) h.nonzero

theorem decode_encode (h : Canonical spent) : decode (encodeEntries spent.toList) = .ok spent := by
  have hlen : (encodeEntries spent.toList).length = 4 + spent.size * 32 := by
    rw [encodeEntries, List.length_append, length_flatMap_toList, Std.ExtTreeSet.length_toList]
    rfl
  have hbound := h.bounded
  have hvalid : validEncodedLength (encodeEntries spent.toList).length = true := by
    rw [hlen, validEncodedLength]
    simp only [Bool.and_eq_true, decide_eq_true_eq, beq_iff_eq]
    omega
  have hmagic : (encodeEntries spent.toList).take 4 = magic := List.take_left' rfl
  have hdrop : (encodeEntries spent.toList).drop 4 = spent.toList.flatMap Vector.toList := List.drop_left' rfl
  have hentries : decodeEntries (encodeEntries spent.toList) = .ok spent.toList := by
    rw [decodeEntries, hvalid, hmagic, hdrop, asChunks_flatMap (by decide), h.ascends]
    simp
  rw [decode, hentries]
  show Except.ok (Maps.ofKeys compare spent.toList) = .ok spent
  rw [Maps.ofKeys_toList]

theorem canonical_of_decode (h : decode raw = .ok spent) : Canonical spent := by
  simp only [decode, bind_eq_ok] at h
  obtain ⟨entries, hentries, hspent⟩ := h
  cases hspent
  unfold decodeEntries at hentries
  split at hentries
  · cases hentries
  · rename_i hvalid
    split at hentries
    · rename_i hasc
      cases hentries
      simp only [Bool.or_eq_true, Bool.not_eq_true', not_or, Bool.not_eq_false, validEncodedLength, Bool.and_eq_true,
        decide_eq_true_eq] at hvalid
      obtain ⟨hall, hpw⟩ := List.pairwise_cons.1 (ascends_iff.1 hasc)
      refine ⟨fun hzero => ?_, ?_⟩
      · have hlt := hall zero (Maps.mem_ofKeys.1 hzero)
        have hself : compare zero zero = .eq := Std.ReflCmp.compare_self
        rw [hself] at hlt
        cases hlt
      · rw [← Std.ExtTreeSet.length_toList, Maps.toList_ofKeys hpw, asChunks, List.length_drop]
        refine Nat.le_trans (length_chunks_le _) ?_
        omega
    · cases hentries

end

/-! ### File operations -/

/-- A file, and whether its bytes survive a crash. -/
structure File where
  bytes : List UInt8
  synced : Bool
deriving DecidableEq

/-- What a path names: a regular file, or anything else with its length. -/
inductive Node
  | file (file : File)
  | foreign (len : Nat)
deriving DecidableEq

structure Disk where
  published : Option Node
  /-- What the path may name after a crash. -/
  lasting : List (Option Node)
  sibling : Option File

/-- How an operation ends, and how much of its effect takes place when it does not end well. -/
inductive Outcome
  | done
  | failed (extent : Nat)
  | crashed (extent : Nat)

inductive Stop
  | failed (error : SpentError)
  | crashed

/-- A file operation. -/
def perform (outcome : Outcome) (whole : Disk → Disk) (part : Nat → Disk → Disk) : Fallible Stop Disk Unit :=
  match outcome with
  | .done => Fallible.of fun d => (.ok (), whole d)
  | .failed extent => Fallible.of fun d => (.error (.failed .io), part extent d)
  | .crashed extent => Fallible.of fun d => (.error .crashed, part extent d)

def partly (effect : Disk → Disk) (extent : Nat) (d : Disk) : Disk := if extent = 0 then d else effect d

namespace Disk

def create (d : Disk) : Disk := { d with sibling := some ⟨[], false⟩ }

def writeAll (raw : List UInt8) (d : Disk) : Disk := { d with sibling := some ⟨raw, false⟩ }

def syncAll (d : Disk) : Disk := { d with sibling := d.sibling.map fun file => { file with synced := true } }

def rename (d : Disk) : Disk :=
  match d.sibling with
  | some file => ⟨some (.file file), d.lasting ++ [some (.file file)], none⟩
  | none => d

def syncParent (d : Disk) : Disk := { d with lasting := [d.published] }

structure Metadata where
  isFile : Bool
  len : Nat

def symlinkMetadata (fails : Bool) (d : Disk) : Option Metadata :=
  if fails then none
  else match d.published with
    | none => none
    | some (.file file) => some ⟨true, file.bytes.length⟩
    | some (.foreign len) => some ⟨false, len⟩

def read (fails : Bool) (d : Disk) : Option (List UInt8) :=
  match d.published with
  | some (.file file) => if fails then none else some file.bytes
  | _ => none

end Disk

/-! ### The set of a process -/

structure SpentFile where
  spent : Nonces

def admissionError (nonce : Bytes32) (alreadySpent : Bool) (count : Nat) : Option SpentError :=
  if nonce = zero then some .malformed
  else if alreadySpent then some .alreadySpent
  else if count ≥ spentCapacity then some .capacity
  else none

/-- How the operations of `publish` end. -/
structure Faults where
  create : Outcome
  write : Outcome
  sync : Outcome
  rename : Outcome
  openParent : Outcome
  syncParent : Outcome

namespace SpentFile

def openAt (lookupFails readFails : Bool) (d : Disk) : Except SpentError SpentFile :=
  match d.symlinkMetadata lookupFails with
  | none => .ok ⟨∅⟩
  | some metadata =>
    if !metadata.isFile || metadata.len > 4 + 32 * spentCapacity then .error .malformed
    else do
      let raw ← okOr .io (d.read readFails)
      let spent ← decode raw
      pure ⟨spent⟩

def encode (file : SpentFile) : List UInt8 := encodeEntries file.spent.toList

def publish (faults : Faults) (file : SpentFile) : Fallible Stop Disk Unit := do
  perform faults.create Disk.create (partly Disk.create)
  perform faults.write (Disk.writeAll file.encode) fun extent => Disk.writeAll (file.encode.take extent)
  perform faults.sync Disk.syncAll (partly Disk.syncAll)
  perform faults.rename Disk.rename (partly Disk.rename)
  perform faults.openParent id fun _ => id
  perform faults.syncParent Disk.syncParent (partly Disk.syncParent)

def consume (nonce : Bytes32) (faults : Faults) (file : SpentFile) (d : Disk) : (Except Stop Unit × Disk) × SpentFile :=
  match admissionError nonce (file.spent.contains nonce) file.spent.size with
  | some error => ((.error (.failed error), d), file)
  | none =>
    let file : SpentFile := ⟨file.spent.insert nonce⟩
    (Fallible.exec (file.publish faults) d, file)

end SpentFile

end Valhalla.Native
