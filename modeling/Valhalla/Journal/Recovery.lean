import Valhalla.Journal.Disk

/-!
# What recovery and a retry check

`recover` and an exact retry of `commit` accept a disk by what they read. The retry compares the whole retained record byte for byte
(`commit_retained`). `recover` leaves out three comparisons: the bundle's own height, the marker at height zero, and everything about
a pin that names the zero bundle; it fails closed exactly on the disks whose `HEAD` would pass these too (`recovery_fails_closed`).
-/

namespace Valhalla.Journal
open Check FixedWidth Fallible

/-! ### Operations that end well -/

section
variable {α β : Type} {fault : Fault} {whole : Disk → Disk} {part : Nat → Disk → Disk} {answer : Disk → Except JournalError α}
  {d d' : Disk} {a : α} {u : Unit}

@[simp] theorem exec_perform_eq_ok : exec (perform fault whole part) d = (.ok u, d') ↔ fault = .pass ∧ d' = whole d := by
  cases fault with
  | pass => simp [perform, eq_comm]
  | failed => simp [perform]
  | crashed => simp [perform]

@[simp] theorem exec_ask_eq_ok : exec (ask fault answer) d = (.ok a, d') ↔ fault = .pass ∧ answer d = .ok a ∧ d' = d := by
  cases fault with
  | pass => simp [ask, eq_comm]
  | failed => simp [ask]
  | crashed => simp [ask]

@[simp] theorem exec_mapErr_eq_ok {f : JournalError → JournalError} {m : Fallible JournalError Disk α} :
    exec (mapErr f m) d = (.ok a, d') ↔ exec m d = (.ok a, d') := by
  rw [mapErr, exec_of, Prod.mk.injEq, mapError_eq_ok, ← Prod.mk.injEq]

theorem exec_examine_eq_ok : exec (examine answer) d = (.ok a, d') ↔ answer d = .ok a ∧ d' = d := by
  rw [exec_examine, Prod.mk.injEq, eq_comm (a := d)]

end

namespace Disk
variable {d : Disk} {id : Bytes32} {height : UInt64} {raw : List UInt8} {o : Option Bytes32}

theorem readOpt_eq_some {max : Nat} {node : Option File} : readOpt max node = .ok (some raw) ↔
    ∃ file, node = some file ∧ file.bytes = raw ∧ raw.length ≤ max := by
  unfold readOpt
  cases node with
  | none => simp
  | some file =>
    constructor
    · intro h
      simp only at h
      split at h
      · cases h
        exact ⟨file, rfl, rfl, ‹_›⟩
      · cases h
    · rintro ⟨file', hfile, rfl, hle⟩
      cases hfile
      exact if_pos hle

theorem readOpt_eq_none {max : Nat} {node : Option File} : readOpt max node = .ok none ↔ node = none := by
  cases node with
  | none => simp [readOpt]
  | some file =>
    simp only [readOpt]
    split <;> simp

theorem readBundle_eq_ok : d.readBundle id = .ok raw ↔ ∃ file, d.bundles[id]? = some file ∧ file.bytes = raw ∧ raw.length ≤ maxBundleBytes := by
  unfold readBundle readBounded
  cases d.bundles[id]? with
  | none => simp
  | some file =>
    constructor
    · intro h
      simp only at h
      split at h
      · cases h
        exact ⟨file, rfl, rfl, ‹_›⟩
      · cases h
    · rintro ⟨file', hfile, rfl, hle⟩
      cases hfile
      exact if_pos hle

theorem readHeightMarker_eq_some : d.readHeightMarker height = .ok (some id) ↔ ∃ file, d.heights[height]? = some file ∧ file.bytes = id.toList := by
  unfold readHeightMarker
  rw [bind_eq_ok]
  constructor
  · rintro ⟨o, ho, h⟩
    cases o with
    | none => cases h
    | some bytes =>
      obtain ⟨file, hfile, hbytes, -⟩ := readOpt_eq_some.1 ho
      simp only [bind_eq_ok, Bundle.exactly_eq_ok] at h
      obtain ⟨v, rfl, hv⟩ := h
      cases hv
      exact ⟨file, hfile, hbytes⟩
  · rintro ⟨file, hfile, hbytes⟩
    refine ⟨some id.toList, readOpt_eq_some.2 ⟨file, hfile, hbytes, id.length_toList.le⟩, ?_⟩
    simp only [bind_eq_ok, Bundle.exactly_eq_ok]
    exact ⟨id, rfl, rfl⟩

def contents (d : Disk) : Option (List UInt8) × Option (List UInt8) × (Bytes32 → Option (List UInt8)) × (UInt64 → Option (List UInt8)) :=
  (d.head.map File.bytes, d.headTmp.map File.bytes, fun id => d.bundles[id]?.map File.bytes, fun height => d.heights[height]?.map File.bytes)

@[simp] theorem contents_syncDir : d.syncDir.contents = d.contents := rfl

@[simp] theorem contents_syncBundlesDir : d.syncBundlesDir.contents = d.contents := by
  simp [contents, syncBundlesDir, Std.ExtTreeMap.getElem?_map, Function.comp_def]

@[simp] theorem contents_syncHeightsDir : d.syncHeightsDir.contents = d.contents := by
  simp [contents, syncHeightsDir, Std.ExtTreeMap.getElem?_map, Function.comp_def]

variable {host : Host}

def Evidences (host : Host) (d : Disk) (pin : Pin) : Prop :=
  ∃ (file : File) (bundle : Bundle host), d.bundles[pin.bundle]? = some file ∧ Bundle.decode host file.bytes = .ok bundle ∧
    bundle.pin = pin ∧ d.readHeightMarker pin.height = .ok (some pin.bundle)

def storedHeight (host : Host) (d : Disk) (id : Bytes32) : Option UInt64 :=
  d.bundles[id]?.bind fun file => (Bundle.decode host file.bytes).toOption.map Bundle.height

end Disk

section
variable {host : Host} {journal : Journal host} {faults : Faults} {d d' : Disk} {pin : Pin} {u : Unit} {bundle : Bundle host} {r : Recovered}

/-! ### `recover` -/

/-- A pin that passes the comparisons that `recover` leaves out. -/
def Anchored (journal : Journal host) (d : Disk) (pin : Pin) : Prop :=
  pin = journal.genesis ∨ pin.bundle ≠ zero ∧ d.storedHeight host pin.bundle = some pin.height ∧
    (pin.height = 0 → d.readHeightMarker 0 = .ok (some pin.bundle))

/-- Such a pin is what `HEAD` holds. -/
def HeadAnchored (journal : Journal host) (d : Disk) : Prop :=
  ∀ file pin, d.head = some file → Pin.decode file.bytes = .ok pin → Anchored journal d pin

theorem checkBundle_ok (h : exec (checkBundle host faults pin) d = (.ok u, d')) : d' = d ∧ (pin.bundle ≠ zero →
    ∃ (file : File) (bundle : Bundle host), d.bundles[pin.bundle]? = some file ∧ Bundle.decode host file.bytes = .ok bundle ∧
      bundle.id = pin.bundle ∧ bundle.predecessor = pin.predecessor ∧ bundle.next = pin.next) := by
  unfold checkBundle at h
  split at h
  · rename_i hne
    simp only [exec_bind_eq_ok, exec_mapErr_eq_ok, exec_ask_eq_ok, exec_examine_eq_ok] at h
    obtain ⟨stored, _, ⟨-, hstored, rfl⟩, bundle, _, ⟨hbundle, rfl⟩, h⟩ := h
    split at h
    · cases h
    · rename_i hlinks
      cases h
      simp only [not_or, ne_eq, Decidable.not_not] at hlinks
      obtain ⟨file, hfile, rfl, -⟩ := Disk.readBundle_eq_ok.1 hstored
      exact ⟨rfl, fun _ => ⟨file, bundle, hfile, hbundle, hlinks.1, hlinks.2.1, hlinks.2.2⟩⟩
  · rename_i heq
    cases h
    exact ⟨rfl, fun hne => absurd hne heq⟩

theorem checkMarker_ok (h : exec (checkMarker faults pin) d = (.ok u, d')) :
    d' = d ∧ (0 < pin.height → d.readHeightMarker pin.height = .ok (some pin.bundle)) := by
  unfold checkMarker at h
  split at h
  · simp only [exec_bind_eq_ok, exec_ask_eq_ok] at h
    obtain ⟨id, _, ⟨-, hid, rfl⟩, h⟩ := h
    split at h
    · rename_i heq
      cases h
      rw [heq] at hid
      exact ⟨rfl, fun _ => hid⟩
    · cases h
  · rename_i hheight
    cases h
    exact ⟨rfl, fun hlt => absurd hlt hheight⟩

theorem recoverPin_ok (h : exec (journal.recoverPin faults) d = (.ok pin, d')) : d' = d ∧
    (d.head = none ∧ pin = journal.genesis ∨ ∃ file, d.head = some file ∧ Pin.decode file.bytes = .ok pin ∧
      exec (checkBundle host faults pin) d = (.ok (), d)) := by
  simp only [recoverPin, exec_bind_eq_ok, exec_ask_eq_ok] at h
  obtain ⟨raw, _, ⟨-, hraw, rfl⟩, h⟩ := h
  cases raw with
  | none =>
    cases h
    exact ⟨rfl, .inl ⟨Disk.readOpt_eq_none.1 hraw, rfl⟩⟩
  | some bytes =>
    simp only [exec_bind_eq_ok, exec_examine_eq_ok] at h
    obtain ⟨pin', _, ⟨hpin, rfl⟩, ⟨⟩, mid, hcheck, h⟩ := h
    cases h
    obtain ⟨rfl, -⟩ := checkBundle_ok hcheck
    obtain ⟨file, hfile, rfl, -⟩ := Disk.readOpt_eq_some.1 hraw
    exact ⟨rfl, .inr ⟨file, hfile, hpin, hcheck⟩⟩

theorem recover_ok (h : exec (journal.recover faults) d = (.ok r, d')) :
    exec (journal.recoverPin faults) d = (.ok r.pin, d) ∧ exec (checkMarker faults r.pin) d = (.ok (), d) := by
  rw [recover, exec_bind_eq_ok] at h
  obtain ⟨pin, mid, hpin, h⟩ := h
  obtain ⟨rfl, -⟩ := recoverPin_ok hpin
  rw [exec_bind_eq_ok] at h
  obtain ⟨⟨⟩, mid, hmarker, h⟩ := h
  obtain ⟨rfl, -⟩ := checkMarker_ok hmarker
  simp only [exec_bind_eq_ok, exec_pure] at h
  obtain ⟨tmp, _, -, _, _, -, _, _, -, _, _, -, _, _, -, _, _, -, h⟩ := h
  cases h
  exact ⟨hpin, hmarker⟩

/-- No bundle has the zero identity where no stored bytes hash to zero. -/
theorem ne_zero_of_decode (hzero : ∀ file, d.bundles[zero]? = some file → host.sha256 (file.bytes.drop 4) ≠ zero) {file : File}
    (hfile : d.bundles[bundle.id]? = some file) (hdecode : Bundle.decode host file.bytes = .ok bundle) : bundle.id ≠ zero := by
  intro hid
  obtain ⟨parts, -, -, -, -, hsha, hbytes⟩ := bundle.made
  have hraw := Bundle.decode_eq_ok.1 hdecode
  rw [hid] at hfile
  refine hzero file hfile ?_
  rw [hraw, hbytes, BundleParts.encode_drop, ← hid, hsha, Host.sha256Parts]

theorem recover_evidenced (h : exec (journal.recover faults) d = (.ok r, d'))
    (hzero : ∀ file, d.bundles[zero]? = some file → host.sha256 (file.bytes.drop 4) ≠ zero) :
    (r.pin = journal.genesis ∨ d.Evidences host r.pin) ↔ HeadAnchored journal d := by
  obtain ⟨hpin, hmarker⟩ := recover_ok h
  obtain ⟨-, hpin⟩ := recoverPin_ok hpin
  obtain ⟨-, hmarker⟩ := checkMarker_ok hmarker
  rcases hpin with ⟨hnone, hgenesis⟩ | ⟨file, hhead, hdecode, hcheck⟩
  · refine ⟨fun _ file pin hfile => ?_, fun _ => .inl hgenesis⟩
    rw [hnone] at hfile
    cases hfile
  obtain ⟨-, hbundle⟩ := checkBundle_ok hcheck
  constructor
  · intro hevidence file' pin hfile hpin
    rw [hhead] at hfile
    cases hfile
    rw [hdecode] at hpin
    cases hpin
    rcases hevidence with hgenesis | ⟨stored, bundle, hstored, hb, hpin, hmark⟩
    · exact .inl hgenesis
    · rw [← hpin] at hstored hmark ⊢
      refine .inr ⟨ne_zero_of_decode hzero hstored hb, ?_, fun hheight => ?_⟩
      · rw [Disk.storedHeight, hstored, Option.bind_some, hb]
        rfl
      · rw [hheight] at hmark
        exact hmark
  · intro hanchored
    rcases hanchored file r.pin hhead hdecode with hgenesis | ⟨hne, hheight, hmark⟩
    · exact .inl hgenesis
    obtain ⟨stored, bundle, hstored, hb, hid, hp, hn⟩ := hbundle hne
    rw [Disk.storedHeight, hstored, Option.bind_some, hb] at hheight
    refine .inr ⟨stored, bundle, hstored, hb, ?_, ?_⟩
    · have ht : bundle.height = r.pin.height := Option.some.inj hheight
      rw [Bundle.pin, hid, hp, hn, ht]
    · by_cases hpos : 0 < r.pin.height
      · exact hmarker hpos
      · have h0 : r.pin.height = 0 := by
          by_contra hne'
          exact hpos (UInt64.pos_iff_ne_zero.2 hne')
        rw [h0]
        exact hmark h0

/-! ### The exact retry -/

/-- `HEAD`, the bundle's file and the marker of its height hold the bundle, byte for byte. -/
structure Retains (journal : Journal host) (d : Disk) (bundle : Bundle host) : Prop where
  pin : d.head = none ∧ bundle.pin = journal.genesis ∨ ∃ file, d.head = some file ∧ file.bytes = bundle.pin.encode
  stored : ∃ file, d.bundles[bundle.id]? = some file ∧ file.bytes = bundle.bytes
  marked : ∃ file, d.heights[bundle.height]? = some file ∧ file.bytes = bundle.id.toList

theorem readCurrent_ok (h : exec (journal.readCurrent faults) d = (.ok pin, d')) : d' = d ∧
    (d.head = none ∧ pin = journal.genesis ∨ ∃ file, d.head = some file ∧ file.bytes = pin.encode) := by
  simp only [readCurrent, exec_bind_eq_ok, exec_ask_eq_ok] at h
  obtain ⟨raw, _, ⟨-, hraw, rfl⟩, h⟩ := h
  cases raw with
  | none =>
    cases h
    exact ⟨rfl, .inl ⟨Disk.readOpt_eq_none.1 hraw, rfl⟩⟩
  | some bytes =>
    obtain ⟨hpin, rfl⟩ := exec_examine_eq_ok.1 h
    obtain ⟨file, hfile, hbytes, -⟩ := Disk.readOpt_eq_some.1 hraw
    exact ⟨rfl, .inr ⟨file, hfile, hbytes.trans (Pin.decode_eq_ok.1 hpin)⟩⟩

theorem retry_ok {outcome : Committed} (h : exec (retry faults pin bundle) d = (.ok outcome, d')) (hid : pin.bundle = bundle.id) :
    outcome = .alreadyCommitted ∧ pin = bundle.pin ∧ (∃ file, d.bundles[bundle.id]? = some file ∧ file.bytes = bundle.bytes) ∧
      (∃ file, d.heights[bundle.height]? = some file ∧ file.bytes = bundle.id.toList) ∧
      d' = d.syncBundlesDir.syncHeightsDir.syncDir := by
  unfold retry at h
  split at h
  · cases h
  rename_i hlinks
  simp only [not_or, ne_eq, Decidable.not_not] at hlinks
  simp only [exec_bind_eq_ok, exec_mapErr_eq_ok, exec_ask_eq_ok] at h
  obtain ⟨stored, _, ⟨-, hstored, rfl⟩, h⟩ := h
  split at h
  · cases h
  rename_i hbytes
  simp only [exec_bind_eq_ok, exec_ask_eq_ok] at h
  obtain ⟨id, _, ⟨-, hmark, rfl⟩, h⟩ := h
  split at h
  · cases h
  rename_i hmarked
  rw [Decidable.not_not] at hbytes hmarked
  rw [hmarked] at hmark
  simp only [exec_bind_eq_ok, exec_perform_eq_ok, exec_pure] at h
  obtain ⟨_, _, ⟨-, rfl⟩, _, _, ⟨-, rfl⟩, _, _, ⟨-, rfl⟩, h⟩ := h
  cases h
  have hpin : pin = bundle.pin := by
    rw [Bundle.pin, ← hlinks.1, ← hlinks.2.1, ← hid, ← hlinks.2.2]
  obtain ⟨file, hfile, hraw, -⟩ := Disk.readBundle_eq_ok.1 hstored
  rw [hlinks.2.2] at hmark
  exact ⟨rfl, hpin, ⟨file, hfile, hraw.trans hbytes⟩, Disk.readHeightMarker_eq_some.1 hmark, rfl⟩

theorem publish_ok {outcome : Committed} (h : exec (publish faults pin bundle) d = (.ok outcome, d')) : outcome = .committed := by
  unfold publish at h
  split at h
  · cases h
  rw [exec_bind_eq_ok] at h
  obtain ⟨expected, mid, -, h⟩ := h
  split at h
  · cases h
  simp only [exec_bind_eq_ok, exec_pure] at h
  obtain ⟨_, _, -, _, _, -, _, _, -, _, _, -, h⟩ := h
  cases h
  rfl

/-- A retry is acknowledged only where the whole record is retained, and changes no file. -/
theorem commit_retained (h : exec (journal.commit faults bundle) d = (.ok .alreadyCommitted, d')) :
    Retains journal d bundle ∧ d'.contents = d.contents := by
  simp only [commit, exec_bind_eq_ok, exec_perform_eq_ok] at h
  obtain ⟨_, locked, ⟨-, hlocked⟩, current, _, hcurrent, h⟩ := h
  have hframe : locked.head = d.head ∧ locked.bundles = d.bundles ∧ locked.heights = d.heights ∧ locked.contents = d.contents := by
    rw [hlocked]
    cases faults.fresh <;> exact ⟨rfl, rfl, rfl, rfl⟩
  obtain ⟨hhead, hbundles, hheights, hcontents⟩ := hframe
  obtain ⟨rfl, hpin⟩ := readCurrent_ok hcurrent
  split at h
  · rename_i hid
    obtain ⟨-, rfl, hstored, hmarked, rfl⟩ := retry_ok h hid
    rw [hbundles] at hstored
    rw [hheights] at hmarked
    rw [hhead] at hpin
    exact ⟨⟨hpin, hstored, hmarked⟩, by simpa using hcontents⟩
  · cases publish_ok h

end

/-- Recovery fails closed exactly where the pin also passes what recovery leaves out; a retry always does. -/
theorem recovery_fails_closed {host : Host} (journal : Journal host) (d : Disk)
    (hzero : ∀ file, d.bundles[zero]? = some file → host.sha256 (file.bytes.drop 4) ≠ zero) :
    (∀ faults r d', exec (journal.recover faults) d = (.ok r, d') →
      ((r.pin = journal.genesis ∨ d.Evidences host r.pin) ↔ HeadAnchored journal d)) ∧
    ∀ faults bundle d', exec (journal.commit faults bundle) d = (.ok .alreadyCommitted, d') →
      Retains journal d bundle ∧ d'.contents = d.contents :=
  ⟨fun _ _ _ h => recover_evidenced h hzero, fun _ _ _ h => commit_retained h⟩

/-! ### A pin of no bundle -/

/-- The digest is that of the first bundle of `sampleParts`. -/
def sampleHost : Host where
  sha256 _ := beVector 32 0xb1bf9dde107b9d84a114a918e5d77f2871873ead185dcd2fb5d92ac892107d1d
  decodesKey _ := true
  isWeak _ := false
  verifyStrict _ _ _ := false
  usizeMax := 2 ^ 64 - 1
  constants := by decide

def sampleJournal : Journal sampleHost := ⟨Vector.replicate 32 0xa5⟩

def quiet : Faults := ⟨fun _ => .pass, false⟩

/-- Neither genesis nor the pin of a bundle. -/
def forgedPin : Pin := ⟨zero, Vector.replicate 32 1, zero, 0⟩

def forgedDisk : Disk where
  head := some ⟨forgedPin.encode, true, true⟩
  lasting := [some ⟨forgedPin.encode, true, true⟩]
  headTmp := none
  bundles := ∅
  heights := ∅

theorem forged_recover :
    exec (sampleJournal.recover quiet) forgedDisk = (.ok ⟨forgedPin, [], false, []⟩, forgedDisk.syncHeightsDir.syncDir) := by
  have hread : forgedDisk.readPin = .ok (some forgedPin.encode) :=
    Disk.readOpt_eq_some.2 ⟨_, rfl, rfl, Pin.length_encode.le⟩
  have hpin : exec (sampleJournal.recoverPin quiet) forgedDisk = (.ok forgedPin, forgedDisk) := by
    simp only [recoverPin, exec_bind_eq_ok, exec_ask_eq_ok]
    refine ⟨_, _, ⟨rfl, hread, rfl⟩, ?_⟩
    simp only [exec_bind_eq_ok, exec_examine_eq_ok]
    exact ⟨forgedPin, forgedDisk, ⟨Pin.decode_eq_ok.2 rfl, rfl⟩, (), forgedDisk, rfl, rfl⟩
  rw [recover, exec_bind_ok hpin]
  rfl

theorem forged_not_evidenced : ¬ (forgedPin = sampleJournal.genesis ∨ forgedDisk.Evidences sampleHost forgedPin) := by
  rintro (hgenesis | ⟨file, bundle, hfile, -⟩)
  · exact absurd (congrArg Pin.next hgenesis) (by decide)
  · simp [forgedDisk] at hfile

theorem recover_accepts_forged : ¬ ∀ (faults : Faults) (d : Disk) (r : Recovered) (d' : Disk),
    exec (sampleJournal.recover faults) d = (.ok r, d') → r.pin = sampleJournal.genesis ∨ d.Evidences sampleHost r.pin :=
  fun h => forged_not_evidenced (h quiet forgedDisk _ _ forged_recover)

/-- The forged pin is judged by what recovery leaves out. -/
theorem forged_judged : (forgedPin = sampleJournal.genesis ∨ forgedDisk.Evidences sampleHost forgedPin) ↔
    HeadAnchored sampleJournal forgedDisk :=
  (recovery_fails_closed sampleJournal forgedDisk (by simp [forgedDisk])).1 quiet _ _ forged_recover

end Valhalla.Journal
