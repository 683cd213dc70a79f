import Valhalla.Core
import Valhalla.Lib.Check
import Valhalla.Lib.Fields

/-!
# Bundles of the commit journal (`vhalla-journal`)

A bundle is nine fields behind their lengths. `Bundle.new` writes them and hashes the list of fields; `Bundle.decode` walks the
stored bytes and hashes the region they spell; `Bundle.field` walks them again. `Bundle.made` is what all three have in common:
some parts whose fields the bytes spell. `decode_eq_ok` is both directions of the codec at once.
-/

namespace Valhalla.Journal
open Check FixedWidth

def maxFieldBytes : Nat := 64 * 1024

def maxBundleBytes : Nat := 4 + 9 * 8 + 6 * maxFieldBytes + 2 * 32 + 8

/-- `VJB1` -/
def bundleMagic : List UInt8 := [0x56, 0x4a, 0x42, 0x31]

/-- The hash function, and the pointer width, which holds the constants of the crate. -/
structure Host extends Crypto where
  usizeMax : Nat
  constants : maxBundleBytes ≤ usizeMax

/-- `usize::try_from` -/
def Host.narrow (host : Host) (n : UInt64) : Option Nat := if n.toNat ≤ host.usizeMax then some n.toNat else none

inductive JournalError
  | conflict (expected found : Bytes32)
  | corrupt
  | oversized
  | busy
  | notFound
  | io
  | crashed
deriving DecidableEq

structure BundleParts where
  certificate : List UInt8
  predecessor : Bytes32
  next : Bytes32
  batch : List UInt8
  value : List UInt8
  configuration : List UInt8
  controlRecord : List UInt8
  debitMarker : List UInt8
  height : UInt64
deriving DecidableEq

namespace BundleParts

def fields (parts : BundleParts) : List (List UInt8) :=
  [parts.certificate, parts.predecessor.toList, parts.next.toList, parts.batch, parts.value, parts.configuration,
    parts.controlRecord, parts.debitMarker, toLe parts.height]

def encode (parts : BundleParts) : List UInt8 := bundleMagic ++ Fields.region parts.fields

/-- No field exceeds its bound. -/
def Fits (parts : BundleParts) : Prop := ∀ field ∈ parts.fields, field.length ≤ maxFieldBytes

instance (parts : BundleParts) : Decidable parts.Fits := inferInstanceAs (Decidable (∀ field ∈ parts.fields, _))

end BundleParts

/-- `sha256(parts)`: every part behind its length. -/
def Host.sha256Parts (host : Host) (parts : List (List UInt8)) : Bytes32 := host.sha256 (Fields.region parts)

/-- A bundle holds what some parts say. -/
structure Bundle (host : Host) where
  predecessor : Bytes32
  next : Bytes32
  height : UInt64
  id : Bytes32
  bytes : List UInt8
  made : ∃ parts : BundleParts, parts.Fits ∧ predecessor = parts.predecessor ∧ next = parts.next ∧ height = parts.height ∧
    id = host.sha256Parts parts.fields ∧ bytes = parts.encode

namespace Bundle

def new (host : Host) (parts : BundleParts) : Except JournalError (Bundle host) :=
  if hfits : parts.Fits then
    if parts.encode.length ≤ maxBundleBytes then
      .ok ⟨parts.predecessor, parts.next, parts.height, host.sha256Parts parts.fields, parts.encode, parts, hfits, rfl, rfl, rfl, rfl, rfl⟩
    else .error .oversized
  else .error .oversized

def len {host : Host} (bundle : Bundle host) : Nat := bundle.bytes.length

/-- The loop of `field`, with `n` rounds to go before the `i + n`-th field. -/
def fieldFrom (host : Host) (index : Nat) : Nat → Nat → List UInt8 → Option (List UInt8)
  | 0, _, _ => none
  | n + 1, i, rest =>
    if rest.length < 8 then none
    else match host.narrow (fromLe (rest.take 8)) with
      | none => none
      | some len =>
        if (rest.drop 8).length < len then none
        else if i = index then some ((rest.drop 8).take len)
        else fieldFrom host index n (i + 1) ((rest.drop 8).drop len)

def field {host : Host} (bundle : Bundle host) (index : Nat) : Option (List UInt8) :=
  if bundle.bytes.length < 4 || bundle.bytes.take 4 != bundleMagic then none else fieldFrom host index 9 0 (bundle.bytes.drop 4)

/-- What the loop of `decode` has found so far. -/
structure Found where
  predecessor : Option Bytes32
  next : Option Bytes32
  height : Option UInt64

/-- `field.try_into()` -/
def exactly (n : Nat) (bytes : List UInt8) : Except JournalError (Vector UInt8 n) :=
  if h : bytes.length = n then .ok ⟨bytes.toArray, h⟩ else .error .corrupt

/-- What the `i`-th field says. -/
def Found.take (found : Found) (field : List UInt8) : Nat → Except JournalError Found
  | 1 => do
    let predecessor ← exactly 32 field
    pure { found with predecessor := some predecessor }
  | 2 => do
    let next ← exactly 32 field
    pure { found with next := some next }
  | 8 => if field.length = 8 then .ok { found with height := some (fromLe field) } else .error .corrupt
  | _ => .ok found

/-- A round of the loop of `decode`. -/
def scanField (host : Host) (state : Found × List UInt8) (i : Nat) : Except JournalError (Found × List UInt8) := do
  require .corrupt (decide (8 ≤ state.2.length))
  let declared : UInt64 := fromLe (state.2.take 8)
  -- the bound is checked before narrowing, so that no length aliases a smaller one
  require .corrupt (decide (declared.toNat ≤ maxFieldBytes))
  let len ← okOr .corrupt (host.narrow declared)
  let rest := state.2.drop 8
  require .corrupt (decide (len ≤ rest.length))
  let found ← state.1.take (rest.take len) i
  pure (found, rest.drop len)

/-- The two frontiers and the height that stored bytes hold. -/
def links (host : Host) (raw : List UInt8) : Except JournalError (Bytes32 × Bytes32 × UInt64) := do
  require .corrupt (decide (raw.length ≤ maxBundleBytes ∧ 4 ≤ raw.length ∧ raw.take 4 = bundleMagic))
  let (found, rest) ← (List.range 9).foldlM (scanField host) (⟨none, none, none⟩, raw.drop 4)
  require .corrupt (decide (rest = []))
  let predecessor ← okOr .corrupt found.predecessor
  let next ← okOr .corrupt found.next
  let height ← okOr .corrupt found.height
  pure (predecessor, next, height)

end Bundle

/-! ### Lengths -/

section
variable {host : Host} {parts parts' : BundleParts} {f raw : List UInt8} {n : UInt64} {len : Nat}

theorem BundleParts.Fits.short (h : parts.Fits) : ∀ f ∈ parts.fields, Fields.Short f := by
  intro f hf
  have hle := h f hf
  unfold maxFieldBytes at hle
  unfold Fields.Short
  omega

theorem BundleParts.Fits.length_encode_le (h : parts.Fits) : parts.encode.length ≤ maxBundleBytes := by
  have hlen : ∀ f ∈ parts.fields, f.length ≤ maxFieldBytes := h
  simp only [BundleParts.fields, List.forall_mem_cons] at hlen
  obtain ⟨hcertificate, -, -, hbatch, hvalue, hconfiguration, hcontrol, hdebit, -⟩ := hlen
  rw [BundleParts.encode, List.length_append, Fields.length_region]
  simp only [BundleParts.fields, List.map_cons, List.map_nil, List.sum_cons, List.sum_nil, Vector.length_toList, length_toLe,
    bytes_uInt64]
  have hmagic : bundleMagic.length = 4 := rfl
  unfold maxBundleBytes
  omega

theorem Host.narrow_eq_some : host.narrow n = some len ↔ len = n.toNat ∧ n.toNat ≤ host.usizeMax := by
  unfold Host.narrow
  split
  · rename_i h
    simp [h, eq_comm]
  · rename_i h
    simp [h]

theorem Host.narrow_of_le (host : Host) (h : n.toNat ≤ maxFieldBytes) : host.narrow n = some n.toNat := by
  refine Host.narrow_eq_some.2 ⟨rfl, Nat.le_trans h ?_⟩
  have hconstants := host.constants
  unfold maxBundleBytes at hconstants
  omega

theorem BundleParts.encode_take : parts.encode.take 4 = bundleMagic := List.take_left' rfl

theorem BundleParts.encode_drop : parts.encode.drop 4 = Fields.region parts.fields := List.drop_left' rfl

theorem BundleParts.fields_inj (h : parts.fields = parts'.fields) : parts = parts' := by
  cases parts
  cases parts'
  simp only [BundleParts.fields, List.cons.injEq, Vector.toList_inj] at h
  obtain ⟨rfl, rfl, rfl, rfl, rfl, rfl, rfl, rfl, hheight, -⟩ := h
  rw [toLe_inj hheight]

theorem BundleParts.region_inj (h : parts.Fits) (h' : parts'.Fits) (he : Fields.region parts.fields = Fields.region parts'.fields) :
    parts = parts' :=
  BundleParts.fields_inj (Fields.region_inj h.short h'.short he)

end

namespace Bundle

/-! ### `field` -/

section
variable {host : Host} {parts : BundleParts} {bundle : Bundle host} {index n i : Nat} {l : List (List UInt8)} {tail : List UInt8}

theorem fieldFrom_region (hl : ∀ f ∈ l, f.length ≤ maxFieldBytes) :
    fieldFrom host index l.length i (Fields.region l) = if i ≤ index then l[index - i]? else none := by
  induction l generalizing i with
  | nil => simp [fieldFrom]
  | cons f l ih =>
    rw [List.forall_mem_cons] at hl
    have hshort : Fields.Short f := by
      have hf := hl.1
      unfold maxFieldBytes at hf
      unfold Fields.Short
      omega
    obtain ⟨hcount, hdrop⟩ := Fields.put_take (Fields.region l) hshort
    have hnarrow := host.narrow_of_le (n := fromLe ((Fields.put f ++ Fields.region l).take 8)) (by rw [hcount]; exact hl.1)
    have h8 : ¬ (Fields.put f ++ Fields.region l).length < 8 := by
      rw [List.length_append, Fields.length_put]
      omega
    rw [List.length_cons, Fields.region_cons, fieldFrom, if_neg h8, hnarrow, hcount, hdrop]
    simp only
    rw [if_neg (by simp), List.take_left, List.drop_left, ih hl.2]
    by_cases hi : i = index
    · subst hi
      simp
    · rw [if_neg hi]
      by_cases hlt : i + 1 ≤ index
      · rw [if_pos hlt, if_pos (by omega), show index - i = (index - (i + 1)) + 1 by omega, List.getElem?_cons_succ]
      · rw [if_neg hlt, if_neg (by omega)]

theorem field_of_bytes (hfits : parts.Fits) (hbytes : bundle.bytes = parts.encode) : bundle.field index = parts.fields[index]? := by
  have hregion : fieldFrom host index parts.fields.length 0 (Fields.region parts.fields) =
      if 0 ≤ index then parts.fields[index - 0]? else none := fieldFrom_region hfits
  have hlen : ¬ parts.encode.length < 4 := by
    rw [BundleParts.encode, List.length_append]
    exact Nat.not_lt.2 (Nat.le_add_right 4 _)
  rw [field, hbytes, BundleParts.encode_take, BundleParts.encode_drop]
  simp only [hlen, decide_false, bne_self_eq_false, Bool.or_self, Bool.false_eq_true, if_false]
  exact hregion

end

/-! ### `decode` -/

section
variable {host : Host} {parts : BundleParts} {found found' : Found} {i : Nat} {raw rest rest' : List UInt8}

@[simp] theorem exactly_eq_ok {n : Nat} {bytes : List UInt8} {v : Vector UInt8 n} : exactly n bytes = .ok v ↔ bytes = v.toList := by
  unfold exactly
  constructor
  · intro h
    split at h
    · cases h
      rfl
    · cases h
  · rintro rfl
    rw [dif_pos v.length_toList]
    rfl

theorem scanField_eq_ok : scanField host (found, rest) i = .ok (found', rest') ↔
    ∃ f, f.length ≤ maxFieldBytes ∧ rest = Fields.put f ++ rest' ∧ found.take f i = .ok found' := by
  simp only [scanField, bind_eq_ok, require_eq_ok, okOr_eq_ok, Host.narrow_eq_some, decide_eq_true_eq]
  constructor
  · rintro ⟨-, h8, -, hbound, len, ⟨rfl, -⟩, -, hlen, mid, htake, hscan⟩
    cases hscan
    have hf := List.length_take_of_le hlen
    refine ⟨_, hf.trans_le hbound, ?_, htake⟩
    exact (Fields.put_of_take h8 hf (List.take_append_drop _ _).symm).1
  · rintro ⟨f, hf, rfl, htake⟩
    have hshort : Fields.Short f := by
      unfold maxFieldBytes at hf
      unfold Fields.Short
      omega
    obtain ⟨hcount, hdrop⟩ := Fields.put_take rest' hshort
    have husize := host.constants
    unfold maxBundleBytes at husize
    rw [hdrop]
    refine ⟨(), ?_, (), by omega, f.length, ⟨hcount.symm, by omega⟩, (), ?_, found', ?_, ?_⟩
    · rw [List.length_append, Fields.length_put]
      omega
    · rw [List.length_append]
      omega
    · rw [List.take_left, htake]
    · rw [List.drop_left]
      rfl

def Found.takeAll (found : Found) (fields : List (List UInt8 × Nat)) : Except JournalError Found :=
  fields.foldlM (fun found p => found.take p.1 p.2) found

theorem scan_eq_ok {indices : List Nat} : indices.foldlM (scanField host) (found, rest) = .ok (found', rest') ↔
    ∃ fs : List (List UInt8), fs.length = indices.length ∧ (∀ f ∈ fs, f.length ≤ maxFieldBytes) ∧ rest = Fields.region fs ++ rest' ∧
      found.takeAll (fs.zip indices) = .ok found' := by
  induction indices generalizing found rest with
  | nil =>
    constructor
    · intro h
      cases h
      exact ⟨[], rfl, by simp, rfl, rfl⟩
    · rintro ⟨fs, hlen, -, rfl, h⟩
      rw [List.eq_nil_of_length_eq_zero hlen] at h ⊢
      cases h
      rfl
  | cons i indices ih =>
    rw [List.foldlM_cons, bind_eq_ok]
    constructor
    · rintro ⟨⟨mid, tail⟩, hone, hrest⟩
      obtain ⟨f, hf, rfl, htake⟩ := scanField_eq_ok.1 hone
      obtain ⟨fs, hlen, hfs, rfl, htakes⟩ := ih.1 hrest
      refine ⟨f :: fs, by rw [List.length_cons, hlen, List.length_cons], List.forall_mem_cons.2 ⟨hf, hfs⟩, ?_, ?_⟩
      · rw [Fields.region_cons, List.append_assoc]
      · rw [List.zip_cons_cons, Found.takeAll, List.foldlM_cons, bind_eq_ok]
        exact ⟨mid, htake, htakes⟩
    · rintro ⟨fs, hlen, hfs, rfl, htakes⟩
      cases fs with
      | nil => cases hlen
      | cons f fs =>
        rw [List.zip_cons_cons, Found.takeAll, List.foldlM_cons, bind_eq_ok] at htakes
        obtain ⟨mid, htake, htakes⟩ := htakes
        rw [List.forall_mem_cons] at hfs
        refine ⟨(mid, Fields.region fs ++ rest'), scanField_eq_ok.2 ⟨f, hfs.1, ?_, htake⟩, ?_⟩
        · rw [Fields.region_cons, List.append_assoc]
        · exact ih.2 ⟨fs, Nat.succ.inj hlen, hfs.2, rfl, htakes⟩

theorem takes_eq_ok {fs : List (List UInt8)} {predecessor next : Option Bytes32} {height : Option UInt64} (hlen : fs.length = 9) :
    (⟨none, none, none⟩ : Found).takeAll (fs.zip (List.range 9)) = .ok ⟨predecessor, next, height⟩ ↔
      ∃ parts : BundleParts, fs = parts.fields ∧ predecessor = some parts.predecessor ∧ next = some parts.next ∧ height = some parts.height := by
  obtain ⟨f₀, f₁, f₂, f₃, f₄, f₅, f₆, f₇, f₈, rfl⟩ : ∃ f₀ f₁ f₂ f₃ f₄ f₅ f₆ f₇ f₈, fs = [f₀, f₁, f₂, f₃, f₄, f₅, f₆, f₇, f₈] := by
    rcases fs with _ | ⟨f₀, _ | ⟨f₁, _ | ⟨f₂, _ | ⟨f₃, _ | ⟨f₄, _ | ⟨f₅, _ | ⟨f₆, _ | ⟨f₇, _ | ⟨f₈, _ | ⟨f₉, fs⟩⟩⟩⟩⟩⟩⟩⟩⟩⟩ <;> simp at hlen
    exact ⟨f₀, f₁, f₂, f₃, f₄, f₅, f₆, f₇, f₈, rfl⟩
  have hrange : List.range 9 = [0, 1, 2, 3, 4, 5, 6, 7, 8] := rfl
  simp only [hrange, List.zip_cons_cons, List.zip_nil_right, Found.takeAll, List.foldlM_cons, List.foldlM_nil, Found.take, bind_eq_ok, exactly_eq_ok]
  constructor
  · rintro ⟨_, h₀, _, ⟨p, rfl, h₁⟩, _, ⟨n, rfl, h₂⟩, _, h₃, _, h₄, _, h₅, _, h₆, _, h₇, _, h₈, he⟩
    cases h₀; cases h₁; cases h₂; cases h₃; cases h₄; cases h₅; cases h₆; cases h₇
    split at h₈
    · rename_i h8
      cases h₈
      cases he
      refine ⟨⟨f₀, p, n, f₃, f₄, f₅, f₆, f₇, fromLe f₈⟩, ?_, rfl, rfl, rfl⟩
      rw [BundleParts.fields, toLe_fromLe h8]
    · cases h₈
  · rintro ⟨parts, hfs, rfl, rfl, rfl⟩
    simp only [BundleParts.fields, List.cons.injEq, and_true] at hfs
    obtain ⟨rfl, rfl, rfl, rfl, rfl, rfl, rfl, rfl, rfl⟩ := hfs
    refine ⟨_, rfl, _, ⟨_, rfl, rfl⟩, _, ⟨_, rfl, rfl⟩, _, rfl, _, rfl, _, rfl, _, rfl, _, rfl, _, if_pos (length_toLe _), ?_⟩
    rw [fromLe_toLe]
    rfl

theorem links_eq_ok {predecessor next : Bytes32} {height : UInt64} : links host raw = .ok (predecessor, next, height) ↔
    ∃ parts : BundleParts, parts.Fits ∧ raw = parts.encode ∧ predecessor = parts.predecessor ∧ next = parts.next ∧ height = parts.height := by
  simp only [links, bind_eq_ok, require_eq_ok, okOr_eq_ok, decide_eq_true_eq]
  constructor
  · rintro ⟨-, ⟨-, -, hmagic⟩, ⟨⟨-, -, -⟩, rest⟩, hscan, -, hrest, p, rfl, n, rfl, t, rfl, he⟩
    cases he
    obtain ⟨fs, hlen, hfs, hregion, htakes⟩ := scan_eq_ok.1 hscan
    obtain ⟨parts, rfl, hp, hn, ht⟩ := (takes_eq_ok hlen).1 htakes
    refine ⟨parts, hfs, ?_, Option.some.inj hp, Option.some.inj hn, Option.some.inj ht⟩
    rw [BundleParts.encode, ← hmagic, ← List.append_nil (Fields.region _), ← hrest, ← hregion, List.take_append_drop]
  · rintro ⟨parts, hfits, rfl, rfl, rfl, rfl⟩
    refine ⟨(), ⟨hfits.length_encode_le, ?_, BundleParts.encode_take⟩, (⟨_, _, _⟩, []), scan_eq_ok.2 ⟨parts.fields, rfl, hfits, ?_, ?_⟩,
      (), rfl, _, rfl, _, rfl, _, rfl, rfl⟩
    · rw [BundleParts.encode, List.length_append]
      exact Nat.le_add_right 4 _
    · rw [BundleParts.encode_drop, List.append_nil]
    · exact (takes_eq_ok rfl).2 ⟨parts, rfl, rfl, rfl, rfl⟩

end

/-- The identity is derived from content. -/
def decode (host : Host) (raw : List UInt8) : Except JournalError (Bundle host) :=
  match h : links host raw with
  | .error error => .error error
  | .ok (predecessor, next, height) =>
    .ok ⟨predecessor, next, height, host.sha256 (raw.drop 4), raw, by
      obtain ⟨parts, hfits, rfl, hp, hn, ht⟩ := links_eq_ok.1 h
      exact ⟨parts, hfits, hp, hn, ht, by rw [BundleParts.encode_drop, Host.sha256Parts], rfl⟩⟩

section
variable {host : Host} {parts : BundleParts} {bundle bundle' : Bundle host} {raw raw' : List UInt8}

theorem ext_of_bytes (h : bundle.bytes = bundle'.bytes) : bundle = bundle' := by
  obtain ⟨p, n, t, i, b, parts, hfits, rfl, rfl, rfl, rfl, rfl⟩ := bundle
  obtain ⟨p', n', t', i', b', parts', hfits', rfl, rfl, rfl, rfl, rfl⟩ := bundle'
  obtain rfl := BundleParts.region_inj hfits hfits' (List.append_cancel_left h)
  rfl

theorem decode_eq_ok : decode host raw = .ok bundle ↔ raw = bundle.bytes := by
  obtain ⟨parts, hfits, hp, hn, ht, hid, hbytes⟩ := bundle.made
  unfold decode
  constructor
  · intro h
    split at h
    · cases h
    · cases h
      rfl
  · rintro rfl
    have hlinks : links host bundle.bytes = .ok (bundle.predecessor, bundle.next, bundle.height) :=
      links_eq_ok.2 ⟨parts, hfits, hbytes, hp, hn, ht⟩
    split
    · rename_i he
      rw [hlinks] at he
      cases he
    · exact congrArg Except.ok (ext_of_bytes rfl)

theorem new_eq_ok : new host parts = .ok bundle ↔ parts.Fits ∧ bundle.bytes = parts.encode := by
  unfold new
  constructor
  · intro h
    split at h
    · rename_i hfits
      rw [if_pos hfits.length_encode_le] at h
      cases h
      exact ⟨hfits, rfl⟩
    · cases h
  · rintro ⟨hfits, hbytes⟩
    rw [dif_pos hfits, if_pos hfits.length_encode_le]
    exact congrArg Except.ok (ext_of_bytes hbytes.symm)

theorem len_le (bundle : Bundle host) : bundle.len ≤ maxBundleBytes := by
  obtain ⟨parts, hfits, -, -, -, -, hbytes⟩ := bundle.made
  rw [len, hbytes]
  exact hfits.length_encode_le

theorem field_of_new (h : new host parts = .ok bundle) {i : Nat} (hi : i < parts.fields.length) :
    bundle.field i = some parts.fields[i] := by
  obtain ⟨hfits, hbytes⟩ := new_eq_ok.1 h
  rw [field_of_bytes hfits hbytes, List.getElem?_eq_getElem hi]

theorem exists_new (bundle : Bundle host) : ∃ parts, new host parts = .ok bundle := by
  obtain ⟨parts, hfits, -, -, -, -, hbytes⟩ := bundle.made
  exact ⟨parts, new_eq_ok.2 ⟨hfits, hbytes⟩⟩

theorem links_of_new (h : new host parts = .ok bundle) :
    bundle.predecessor = parts.predecessor ∧ bundle.next = parts.next ∧ bundle.height = parts.height := by
  obtain ⟨hfits, hbytes⟩ := new_eq_ok.1 h
  obtain ⟨parts', hfits', hp, hn, ht, -, hbytes'⟩ := bundle.made
  rw [hbytes] at hbytes'
  obtain rfl := BundleParts.region_inj hfits hfits' (List.append_cancel_left hbytes')
  exact ⟨hp, hn, ht⟩

theorem ext_of_region (h : bundle.bytes.drop 4 = bundle'.bytes.drop 4) : bundle = bundle' := by
  obtain ⟨parts, -, -, -, -, -, hbytes⟩ := bundle.made
  obtain ⟨parts', -, -, -, -, -, hbytes'⟩ := bundle'.made
  rw [hbytes, hbytes', BundleParts.encode_drop, BundleParts.encode_drop] at h
  refine ext_of_bytes ?_
  rw [hbytes, hbytes', BundleParts.encode, h, BundleParts.encode]

end

end Bundle

/-- The constructor, the decoder and the field reader agree, and the hashed region determines the fields. -/
theorem bundle_codec (host : Host) :
    (∀ parts bundle, Bundle.new host parts = .ok bundle → ∃ decoded, Bundle.decode host bundle.bytes = .ok decoded ∧
      decoded.id = bundle.id ∧ decoded.predecessor = parts.predecessor ∧ decoded.next = parts.next ∧ decoded.height = parts.height ∧
      ∀ i (hi : i < parts.fields.length), decoded.field i = some parts.fields[i]) ∧
    (∀ raw decoded, Bundle.decode host raw = .ok decoded →
      ∃ parts bundle, Bundle.new host parts = .ok bundle ∧ bundle.bytes = raw ∧ bundle.id = decoded.id) ∧
    ∀ raw raw' decoded decoded', Bundle.decode host raw = .ok decoded → Bundle.decode host raw' = .ok decoded' →
      ∀ i < 9, decoded.field i ≠ decoded'.field i → raw.drop 4 ≠ raw'.drop 4 := by
  refine ⟨fun parts bundle h => ?_, fun raw decoded h => ?_, fun raw raw' decoded decoded' h h' i _ hne he => ?_⟩
  · obtain ⟨hp, hn, ht⟩ := Bundle.links_of_new h
    exact ⟨bundle, Bundle.decode_eq_ok.2 rfl, rfl, hp, hn, ht, fun i hi => Bundle.field_of_new h hi⟩
  · obtain ⟨parts, hnew⟩ := decoded.exists_new
    exact ⟨parts, decoded, hnew, (Bundle.decode_eq_ok.1 h).symm, rfl⟩
  · rw [Bundle.decode_eq_ok] at h h'
    rw [h, h'] at he
    exact hne (by rw [Bundle.ext_of_region he])

end Valhalla.Journal
