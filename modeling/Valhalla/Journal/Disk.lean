import Valhalla.Journal.Bundle
import Valhalla.Lib.Fallible
import Valhalla.Lib.Maps

/-!
# The journal on disk

`Disk` is what the journal's file operations see: `HEAD` and what it may name after a power loss, the temporary pin, the bundles by
identity and the height markers. Every operation of the `Store` may fail or be cut by a crash, with its effect taken place in part
(`Fault`). `recover` and `commit` are the two writers.
-/

namespace Valhalla

/-- A journal directory whose empty state has the frontier `genesisNext`. -/
structure Journal (host : Journal.Host) where
  genesisNext : Bytes32

namespace Journal
open Check FixedWidth Fallible

def zero : Bytes32 := Vector.replicate 32 0

/-! ### The pin -/

/-- `VHP1` -/
def headMagic : List UInt8 := [0x56, 0x48, 0x50, 0x31]

def pinBytes : Nat := 4 + 104

structure Pin where
  predecessor : Bytes32
  next : Bytes32
  bundle : Bytes32
  height : UInt64
deriving DecidableEq

/-- `bytes[at..at + n]` -/
def slice (start n : Nat) (bytes : List UInt8) (h : start + n ≤ bytes.length) : Vector UInt8 n :=
  ⟨((bytes.drop start).take n).toArray, by simp; omega⟩

namespace Pin

def encode (pin : Pin) : List UInt8 :=
  headMagic ++ (pin.predecessor.toList ++ (pin.next.toList ++ (pin.bundle.toList ++ toLe pin.height)))

def decode (bytes : List UInt8) : Except JournalError Pin :=
  if h : bytes.length = 4 + 104 ∧ bytes.take 4 = headMagic then
    .ok ⟨slice 4 32 bytes (by omega), slice 36 32 bytes (by omega), slice 68 32 bytes (by omega),
      fromLe (slice 100 8 bytes (by omega)).toList⟩
  else .error .corrupt

end Pin

def Bundle.pin {host : Host} (bundle : Bundle host) : Pin := ⟨bundle.predecessor, bundle.next, bundle.id, bundle.height⟩

section
variable {pin pin' : Pin} {bytes : List UInt8}

theorem toList_slice {start n : Nat} {h : start + n ≤ bytes.length} : (slice start n bytes h).toList = (bytes.drop start).take n := rfl

@[simp] theorem Pin.length_encode : pin.encode.length = pinBytes := by
  simp [encode, headMagic, pinBytes]

theorem Pin.decode_eq_ok : Pin.decode bytes = .ok pin ↔ bytes = pin.encode := by
  unfold Pin.decode
  constructor
  · intro h
    split at h
    · rename_i hb
      cases h
      simp only [encode, toList_slice]
      rw [toLe_fromLe (by simp; omega), ← hb.2]
      have hsplit : ∀ a b : Nat, (bytes.drop a).take b ++ bytes.drop (a + b) = bytes.drop a := fun a b => by
        rw [← List.drop_drop, List.take_append_drop]
      rw [List.take_of_length_le (l := bytes.drop 100) (by simp; omega), hsplit 68 32, hsplit 36 32, hsplit 4 32, List.take_append_drop]
    · cases h
  · rintro rfl
    have hlen : ∀ v : Bytes32, v.toList.length = 32 := fun v => v.length_toList
    have htake : pin.encode.take 4 = headMagic := List.take_left' rfl
    have h4 : pin.encode.drop 4 = pin.predecessor.toList ++ (pin.next.toList ++ (pin.bundle.toList ++ toLe pin.height)) :=
      List.drop_left' rfl
    have h36 : pin.encode.drop 36 = pin.next.toList ++ (pin.bundle.toList ++ toLe pin.height) := by
      rw [← List.drop_drop (i := 32) (j := 4), h4, List.drop_left' (hlen _)]
    have h68 : pin.encode.drop 68 = pin.bundle.toList ++ toLe pin.height := by
      rw [← List.drop_drop (i := 32) (j := 36), h36, List.drop_left' (hlen _)]
    have h100 : pin.encode.drop 100 = toLe pin.height := by
      rw [← List.drop_drop (i := 32) (j := 68), h68, List.drop_left' (hlen _)]
    rw [dif_pos ⟨Pin.length_encode, htake⟩]
    congr 1
    obtain ⟨p, n, b, t⟩ := pin
    rw [Pin.mk.injEq]
    refine ⟨Vector.toList_inj.1 ?_, Vector.toList_inj.1 ?_, Vector.toList_inj.1 ?_, ?_⟩
    · rw [toList_slice, h4, List.take_left' (hlen _)]
    · rw [toList_slice, h36, List.take_left' (hlen _)]
    · rw [toList_slice, h68, List.take_left' (hlen _)]
    · rw [toList_slice, h100, List.take_of_length_le (by simp), fromLe_toLe]

end

/-! ### The disk -/

/-- A file, and whether its bytes and its name survive a power loss. -/
structure File where
  bytes : List UInt8
  synced : Bool
  linked : Bool
deriving DecidableEq

def File.settled (file : File) : Bool := file.synced && file.linked

structure Disk where
  head : Option File
  /-- What `HEAD` may name after a power loss. -/
  lasting : List (Option File)
  headTmp : Option File
  bundles : Std.ExtTreeMap Bytes32 File compare
  heights : Std.ExtTreeMap UInt64 File compare

namespace Disk

/-! What the reading methods of `FsStore` answer. -/

/-- `read_bounded` -/
def readBounded (max : Nat) : Option File → Except JournalError (List UInt8)
  | none => .error .notFound
  | some file => if file.bytes.length ≤ max then .ok file.bytes else .error .corrupt

/-- `read_opt` -/
def readOpt (max : Nat) : Option File → Except JournalError (Option (List UInt8))
  | none => .ok none
  | some file => if file.bytes.length ≤ max then .ok (some file.bytes) else .error .corrupt

def readPin (d : Disk) : Except JournalError (Option (List UInt8)) := readOpt pinBytes d.head

def readPinTmp (d : Disk) : Except JournalError (Option (List UInt8)) := readOpt pinBytes d.headTmp

def readBundle (id : Bytes32) (d : Disk) : Except JournalError (List UInt8) := readBounded maxBundleBytes d.bundles[id]?

def readHeightMarker (height : UInt64) (d : Disk) : Except JournalError (Option Bytes32) := do
  match ← readOpt 32 d.heights[height]? with
  | none => pure none
  | some bytes => do
    let id ← Bundle.exactly 32 bytes
    pure (some id)

def listBundles (d : Disk) : List Bytes32 := d.bundles.keys

def listHeightMarkers (d : Disk) : List UInt64 := d.heights.keys

/-! What its writing methods change. -/

def removePinTmp (d : Disk) : Disk := { d with headTmp := none }

/-- The hard link to the synced scratch file. -/
def linkBundle (id : Bytes32) (bytes : List UInt8) (d : Disk) : Disk := { d with bundles := d.bundles.insert id ⟨bytes, true, false⟩ }

def syncBundle (id : Bytes32) (d : Disk) : Disk :=
  match d.bundles[id]? with
  | some file => { d with bundles := d.bundles.insert id { file with synced := true } }
  | none => d

def syncBundlesDir (d : Disk) : Disk := { d with bundles := d.bundles.map fun _ file => { file with linked := true } }

def writeHeightMarker (height : UInt64) (bytes : List UInt8) (d : Disk) : Disk :=
  { d with heights := d.heights.insert height ⟨bytes, false, (d.heights[height]?.map File.linked).getD false⟩ }

def syncHeightMarker (height : UInt64) (d : Disk) : Disk :=
  match d.heights[height]? with
  | some file => { d with heights := d.heights.insert height { file with synced := true } }
  | none => d

def syncHeightsDir (d : Disk) : Disk := { d with heights := d.heights.map fun _ file => { file with linked := true } }

def removeHeightMarker (height : UInt64) (d : Disk) : Disk := { d with heights := d.heights.erase height }

def writePinTmp (bytes : List UInt8) (d : Disk) : Disk := { d with headTmp := some ⟨bytes, false, false⟩ }

def syncPinTmp (d : Disk) : Disk := { d with headTmp := d.headTmp.map fun file => { file with synced := true } }

def renamePin (d : Disk) : Disk :=
  match d.headTmp with
  | some file => { d with head := some file, lasting := d.lasting ++ [some file], headTmp := none }
  | none => d

def syncDir (d : Disk) : Disk := { d with lasting := [d.head] }

end Disk

/-! ### Operations that may fail -/

/-- The methods of a `Store`. -/
inductive Step
  | lock
  | readPin
  | readPinTmp
  | removePinTmp
  | createBundle
  | syncBundle
  | syncBundlesDir
  | readBundle
  | listBundles
  | writeHeightMarker
  | syncHeightMarker
  | syncHeightsDir
  | readHeightMarker
  | listHeightMarkers
  | removeHeightMarker (height : UInt64)
  | writePinTmp
  | syncPinTmp
  | renamePin
  | syncDir

/-- How an operation ends, and how much of its effect takes place when it does not end well. -/
inductive Fault
  | pass
  | failed (error : JournalError) (extent : Nat)
  | crashed (extent : Nat)

structure Faults where
  fault : Step → Fault
  /-- The lock finds the layout missing or unproven, and syncs the journal's directory. -/
  fresh : Bool

/-- A writing operation. -/
def perform (fault : Fault) (whole : Disk → Disk) (part : Nat → Disk → Disk) : Fallible JournalError Disk Unit :=
  match fault with
  | .pass => update whole
  | .failed error extent => of fun d => (.error error, part extent d)
  | .crashed extent => of fun d => (.error .crashed, part extent d)

/-- A reading operation. -/
def ask {α : Type} (fault : Fault) (answer : Disk → Except JournalError α) : Fallible JournalError Disk α :=
  match fault with
  | .pass => examine answer
  | .failed error _ => throw error
  | .crashed _ => throw .crashed

/-- `map_err` -/
def mapErr {α : Type} (f : JournalError → JournalError) (m : Fallible JournalError Disk α) : Fallible JournalError Disk α :=
  of fun d => ((exec m d).1.mapError f, (exec m d).2)

def partly (effect : Disk → Disk) (extent : Nat) (d : Disk) : Disk := if extent = 0 then d else effect d

/-- A file is not opened, or written up to some byte. -/
def prefixed (write : List UInt8 → Disk → Disk) (bytes : List UInt8) (extent : Nat) (d : Disk) : Disk :=
  if extent = 0 then d else write (bytes.take (extent - 1)) d

/-! ### The journal -/

inductive Committed
  | committed
  | alreadyCommitted
deriving DecidableEq

structure Recovered where
  pin : Pin
  orphans : List Bytes32
  droppedTmp : Bool
  droppedHeights : List UInt64

section
variable {host : Host} (journal : Journal host) (faults : Faults)

def genesis : Pin := ⟨zero, journal.genesisNext, zero, 0⟩

def checkBundle (host : Host) (faults : Faults) (pin : Pin) : Fallible JournalError Disk Unit :=
  if pin.bundle ≠ zero then do
    let stored ← mapErr (fun _ => .corrupt) (ask (faults.fault .readBundle) (Disk.readBundle pin.bundle))
    let bundle ← examine fun _ => Bundle.decode host stored
    if bundle.id ≠ pin.bundle ∨ bundle.predecessor ≠ pin.predecessor ∨ bundle.next ≠ pin.next then throw .corrupt else pure ()
  else pure ()

def checkMarker (pin : Pin) : Fallible JournalError Disk Unit :=
  if pin.height > 0 then do
    let id ← ask (faults.fault .readHeightMarker) (Disk.readHeightMarker pin.height)
    if id = some pin.bundle then pure () else throw .corrupt
  else pure ()

/-- The pin that `HEAD` holds, before any check against bundles. -/
def readCurrent : Fallible JournalError Disk Pin := do
  match ← ask (faults.fault .readPin) Disk.readPin with
  | none => pure journal.genesis
  | some bytes => examine fun _ => Pin.decode bytes

/-- The pin that `recover` starts from. -/
def recoverPin : Fallible JournalError Disk Pin := do
  match ← ask (faults.fault .readPin) Disk.readPin with
  | none => pure journal.genesis
  | some bytes => do
    let pin ← examine fun _ => Pin.decode bytes
    checkBundle host faults pin
    pure pin

def dropHeight (pin : Pin) (dropped : List UInt64) (height : UInt64) : Fallible JournalError Disk (List UInt64) :=
  if height > pin.height then do
    perform (faults.fault (.removeHeightMarker height)) (Disk.removeHeightMarker height) (partly (Disk.removeHeightMarker height))
    pure (dropped ++ [height])
  else pure dropped

def dropTmp : Fallible JournalError Disk Bool := do
  let tmp ← ask (faults.fault .readPinTmp) Disk.readPinTmp
  if tmp.isSome then do
    perform (faults.fault .removePinTmp) Disk.removePinTmp (partly Disk.removePinTmp)
    pure true
  else pure false

def recover : Fallible JournalError Disk Recovered := do
  let pin ← journal.recoverPin faults
  checkMarker faults pin
  let droppedTmp ← dropTmp faults
  let heights ← ask (faults.fault .listHeightMarkers) fun d => .ok d.listHeightMarkers
  let droppedHeights ← heights.foldlM (dropHeight faults pin) []
  perform (faults.fault .syncHeightsDir) Disk.syncHeightsDir (partly Disk.syncHeightsDir)
  perform (faults.fault .syncDir) Disk.syncDir (partly Disk.syncDir)
  let ids ← ask (faults.fault .listBundles) fun d => .ok d.listBundles
  pure ⟨pin, ids.filter (· != pin.bundle), droppedTmp, droppedHeights⟩

def retry (current : Pin) (bundle : Bundle host) : Fallible JournalError Disk Committed :=
  if current.predecessor ≠ bundle.predecessor ∨ current.next ≠ bundle.next ∨ current.height ≠ bundle.height then throw .corrupt
  else do
    let stored ← mapErr (fun error => if error = .notFound then .corrupt else error)
      (ask (faults.fault .readBundle) (Disk.readBundle bundle.id))
    if stored ≠ bundle.bytes then throw .corrupt
    else do
      let id ← ask (faults.fault .readHeightMarker) (Disk.readHeightMarker current.height)
      if id ≠ some bundle.id then throw .corrupt
      else do
        perform (faults.fault .syncBundlesDir) Disk.syncBundlesDir (partly Disk.syncBundlesDir)
        perform (faults.fault .syncHeightsDir) Disk.syncHeightsDir (partly Disk.syncHeightsDir)
        perform (faults.fault .syncDir) Disk.syncDir (partly Disk.syncDir)
        pure .alreadyCommitted

/-- `create_bundle`: a name that exists is left as it is. -/
def createBundle (id : Bytes32) (bytes : List UInt8) : Fallible JournalError Disk Bool :=
  if bytes.length > maxBundleBytes then throw .oversized
  else do
    let found ← examine fun d => .ok d.bundles[id]?.isSome
    if found then pure false
    else do
      perform (faults.fault .createBundle) (Disk.linkBundle id bytes) (partly (Disk.linkBundle id bytes))
      pure true

def placeBundle (bundle : Bundle host) : Fallible JournalError Disk Unit := do
  let created ← createBundle faults bundle.id bundle.bytes
  if created then pure ()
  else do
    let stored ← ask (faults.fault .readBundle) (Disk.readBundle bundle.id)
    if stored ≠ bundle.bytes then throw .corrupt
    else perform (faults.fault .syncBundle) (Disk.syncBundle bundle.id) (partly (Disk.syncBundle bundle.id))

def placeMarker (bundle : Bundle host) : Fallible JournalError Disk Unit := do
  perform (faults.fault .writeHeightMarker) (Disk.writeHeightMarker bundle.height bundle.id.toList)
    (prefixed (Disk.writeHeightMarker bundle.height) bundle.id.toList)
  perform (faults.fault .syncHeightMarker) (Disk.syncHeightMarker bundle.height) (partly (Disk.syncHeightMarker bundle.height))
  perform (faults.fault .syncHeightsDir) Disk.syncHeightsDir (partly Disk.syncHeightsDir)

def placePin (bundle : Bundle host) : Fallible JournalError Disk Unit := do
  perform (faults.fault .writePinTmp) (Disk.writePinTmp bundle.pin.encode) (prefixed Disk.writePinTmp bundle.pin.encode)
  perform (faults.fault .syncPinTmp) Disk.syncPinTmp (partly Disk.syncPinTmp)
  perform (faults.fault .renamePin) Disk.renamePin (partly Disk.renamePin)
  perform (faults.fault .syncDir) Disk.syncDir (partly Disk.syncDir)

def publish (current : Pin) (bundle : Bundle host) : Fallible JournalError Disk Committed := do
  if current.next ≠ bundle.predecessor then throw (.conflict bundle.predecessor current.next)
  else do
    let expected ← okOr .crashed (checkedAdd current.height 1)
    if bundle.height ≠ expected then throw (.conflict bundle.predecessor current.next)
    else do
      placeBundle faults bundle
      perform (faults.fault .syncBundlesDir) Disk.syncBundlesDir (partly Disk.syncBundlesDir)
      placeMarker faults bundle
      placePin faults bundle
      pure .committed

def commit (bundle : Bundle host) : Fallible JournalError Disk Committed := do
  perform (faults.fault .lock) (if faults.fresh then Disk.syncDir else id) (partly Disk.syncDir)
  let current ← journal.readCurrent faults
  if current.bundle = bundle.id then retry faults current bundle else publish faults current bundle

end

end Journal

end Valhalla
