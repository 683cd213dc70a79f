import Valhalla.Journal.Published
import Valhalla.Lib.Trace

/-!
# Runs of the journal

Commits and recoveries over one directory, each cut or failing at any operation, with power losses in between. At every time `HEAD`
is the pin of a linked history whose bundles and markers are settled, and whatever `HEAD` may name after a power loss is the pin of a
prefix that holds every acknowledged bundle (`Holds`). Each operation either keeps that history as it is (`Keeps`) or, at the rename,
extends it by the bundle being committed.
-/

namespace Valhalla.Journal
open Check FixedWidth Fallible

/-! ### Runs -/

/-- What a power loss makes of what `HEAD` names: nothing is known of bytes that were not synced. -/
inductive Survives : Option File → Option File → Prop
  | missing : Survives none none
  | synced {file : File} (h : file.synced = true) : Survives (some file) (some file)
  | torn {file file' : File} (h : file.synced = false) : Survives (some file) (some file')

/-- Settled files stay; any other name may hold anything. -/
structure PowerLoss (d d' : Disk) : Prop where
  head : ∃ node ∈ d.lasting, Survives node d'.head
  lasting : d'.lasting = [d'.head]
  bundles : ∀ (id : Bytes32) (file : File), d.bundles[id]? = some file → file.settled = true → d'.bundles[id]? = some file
  heights : ∀ (height : UInt64) (file : File), d.heights[height]? = some file → file.settled = true → d'.heights[height]? = some file

structure Note (host : Host) where
  bundle : Bundle host
  result : Except JournalError Committed

/-- A process runs a commit or a recovery to its end, or up to where it dies, or the power is lost. -/
inductive Moves {host : Host} (journal : Journal host) : Disk → List (Note host) → Disk → Prop
  | commit {d d' : Disk} {faults : Faults} {bundle : Bundle host} {result : Except JournalError Committed}
      (h : exec (journal.commit faults bundle) d = (result, d')) : Moves journal d [⟨bundle, result⟩] d'
  | recover {d d' : Disk} {faults : Faults} {result : Except JournalError Recovered}
      (h : exec (journal.recover faults) d = (result, d')) : Moves journal d [] d'
  | powerLoss {d d' : Disk} (h : PowerLoss d d') : Moves journal d [] d'

/-- An empty directory. -/
def Disk.fresh : Disk := ⟨none, [none], none, ∅, ∅⟩

def acknowledged {host : Host} (notes : List (Note host)) : List (Bundle host) :=
  (notes.filter fun note => note.result.isOk).map Note.bundle

/-! ### The invariant -/

/-- A file with these bytes that survives a power loss. -/
def Settled (node : Option File) (bytes : List UInt8) : Prop := ∃ file, node = some file ∧ file.bytes = bytes ∧ file.settled = true

/-- What `HEAD` names is the synced pin of a history. -/
inductive Names {host : Host} : Option File → List (Bundle host) → Prop
  | genesis : Names none []
  | pin {file : File} {history : List (Bundle host)} {bundle : Bundle host} (hlast : history.getLast? = some bundle)
      (hbytes : file.bytes = bundle.pin.encode) (hsynced : file.synced = true) : Names (some file) history

structure Holds {host : Host} (journal : Journal host) (acked : List (Bundle host)) (d : Disk) (history : List (Bundle host)) : Prop where
  chained : Chained journal history
  head : Names d.head history
  current : d.head ∈ d.lasting
  lasting : ∀ node ∈ d.lasting, ∃ kept, kept <+: history ∧ Names node kept ∧ ∀ bundle ∈ acked, bundle ∈ kept
  stored : ∀ bundle ∈ history, Settled d.bundles[bundle.id]? bundle.bytes
  marked : ∀ bundle ∈ history, Settled d.heights[bundle.height]? bundle.id.toList

/-- What the operations before the rename leave as it is. -/
structure Keeps {host : Host} (history : List (Bundle host)) (d d' : Disk) : Prop where
  head : d'.head = d.head
  lasting : d'.lasting = d.lasting
  stored : ∀ bundle ∈ history, Settled d.bundles[bundle.id]? bundle.bytes → Settled d'.bundles[bundle.id]? bundle.bytes
  marked : ∀ bundle ∈ history, Settled d.heights[bundle.height]? bundle.id.toList → Settled d'.heights[bundle.height]? bundle.id.toList

section
variable {host : Host} {journal : Journal host} {acked history kept kept' : List (Bundle host)} {bundle : Bundle host} {d d' d'' : Disk}
  {node : Option File} {bytes : List UInt8} {faults : Faults} {fault : Fault} {extent : Nat}

theorem Names.survives {node' : Option File} (h : Names node history) (hs : Survives node node') : node' = node := by
  cases hs with
  | missing => rfl
  | synced => rfl
  | torn hsynced =>
    cases h with
    | pin _ _ hkept =>
      rw [hsynced] at hkept
      cases hkept

theorem Names.readPin (journal : Journal host) (h : Names d.head history) :
    history = [] ∧ d.readPin = .ok none ∨ history ≠ [] ∧ d.readPin = .ok (some (pinOf journal history).encode) := by
  cases hd : d.head with
  | none =>
    rw [hd] at h
    cases h
    exact .inl ⟨rfl, Disk.readOpt_eq_none.2 hd⟩
  | some file =>
    rw [hd] at h
    cases h with
    | pin hlast hbytes _ =>
      refine .inr ⟨fun hnil => ?_, ?_⟩
      · rw [hnil] at hlast
        cases hlast
      · rw [pinOf, hlast]
        exact Disk.readOpt_eq_some.2 ⟨file, hd, hbytes, Pin.length_encode.le⟩

namespace Holds

theorem fresh : Holds journal [] Disk.fresh [] where
  chained := rfl
  head := .genesis
  current := List.mem_singleton.2 rfl
  lasting node hn := ⟨[], List.prefix_refl [], by
    rw [List.mem_singleton.1 hn]
    exact .genesis, fun _ hb => nomatch hb⟩
  stored _ hb := nomatch hb
  marked _ hb := nomatch hb

theorem keep (h : Holds journal acked d history) (hk : Keeps history d d') : Holds journal acked d' history where
  chained := h.chained
  head := hk.head ▸ h.head
  current := by rw [hk.head, hk.lasting]; exact h.current
  lasting := by rw [hk.lasting]; exact h.lasting
  stored b hb := hk.stored b hb (h.stored b hb)
  marked b hb := hk.marked b hb (h.marked b hb)

/-- `HEAD` names the whole history. -/
theorem acked_mem (h : Holds journal acked d history) (hb : bundle ∈ acked) : bundle ∈ history := by
  obtain ⟨kept, hsub, -, hacked⟩ := h.lasting d.head h.current
  exact hsub.mem (hacked bundle hb)

theorem weaken (h : Holds journal (acked ++ [bundle]) d history) : Holds journal acked d history where
  chained := h.chained
  head := h.head
  current := h.current
  lasting node hn := by
    obtain ⟨kept, hsub, hkept, hacked⟩ := h.lasting node hn
    exact ⟨kept, hsub, hkept, fun b hb => hacked b (List.mem_append_left _ hb)⟩
  stored := h.stored
  marked := h.marked

/-- The directory's sync makes `HEAD` final, and with it a bundle of the history may be acknowledged. -/
theorem syncDir (h : Holds journal acked d history) (hb : bundle ∈ history) : Holds journal (acked ++ [bundle]) d.syncDir history where
  chained := h.chained
  head := h.head
  current := List.mem_singleton.2 rfl
  lasting node hn := by
    refine ⟨history, List.prefix_refl _, ?_, fun b hb' => ?_⟩
    · rw [List.mem_singleton.1 hn]
      exact h.head
    · rcases List.mem_append.1 hb' with hb' | hb'
      · exact h.acked_mem hb'
      · rwa [List.mem_singleton.1 hb']
  stored := h.stored
  marked := h.marked

theorem syncDir_same (h : Holds journal acked d history) : Holds journal acked d.syncDir history where
  chained := h.chained
  head := h.head
  current := List.mem_singleton.2 rfl
  lasting node hn := ⟨history, List.prefix_refl _, by
    rw [List.mem_singleton.1 hn]
    exact h.head, fun _ hb => h.acked_mem hb⟩
  stored := h.stored
  marked := h.marked

theorem rename (h : Holds journal acked d history) {file : File} (htmp : d.headTmp = some file) (hbytes : file.bytes = bundle.pin.encode)
    (hsynced : file.synced = true) (hchained : Chained journal (history ++ [bundle])) (hstored : Settled d.bundles[bundle.id]? bundle.bytes)
    (hmarked : Settled d.heights[bundle.height]? bundle.id.toList) : Holds journal acked d.renamePin (history ++ [bundle]) := by
  have hrename : d.renamePin = { d with head := some file, lasting := d.lasting ++ [some file], headTmp := none } := by
    rw [Disk.renamePin, htmp]
  have hnames : Names (some file) (history ++ [bundle]) := .pin List.getLast?_concat hbytes hsynced
  rw [hrename]
  refine ⟨hchained, hnames, by simp, fun node hn => ?_, fun b hb => ?_, fun b hb => ?_⟩
  · rcases List.mem_append.1 hn with hn | hn
    · obtain ⟨kept, hsub, hkept, hacked⟩ := h.lasting node hn
      exact ⟨kept, hsub.trans (List.prefix_append _ _), hkept, hacked⟩
    · rw [List.mem_singleton.1 hn]
      exact ⟨_, List.prefix_refl _, hnames, fun b hb => List.mem_append_left _ (h.acked_mem hb)⟩
  · rcases List.mem_append.1 hb with hb | hb
    · exact h.stored b hb
    · rw [List.mem_singleton.1 hb]
      exact hstored
  · rcases List.mem_append.1 hb with hb | hb
    · exact h.marked b hb
    · rw [List.mem_singleton.1 hb]
      exact hmarked

theorem powerLoss (h : Holds journal acked d history) (hl : PowerLoss d d') : ∃ kept, kept <+: history ∧ Holds journal acked d' kept := by
  obtain ⟨node, hnode, hs⟩ := hl.head
  obtain ⟨kept, hsub, hnames, hacked⟩ := h.lasting node hnode
  have hhead : d'.head = node := hnames.survives hs
  refine ⟨kept, hsub, ?_, hhead ▸ hnames, ?_, fun node' hn => ?_, fun b hb => ?_, fun b hb => ?_⟩
  · obtain ⟨rest, rfl⟩ := hsub
    exact chained_append h.chained
  · rw [hl.lasting]
    exact List.mem_singleton.2 rfl
  · rw [hl.lasting, List.mem_singleton] at hn
    rw [hn, hhead]
    exact ⟨kept, List.prefix_refl _, hnames, hacked⟩
  · obtain ⟨file, hfile, hbytes, hsettled⟩ := h.stored b (hsub.mem hb)
    exact ⟨file, hl.bundles _ _ hfile hsettled, hbytes, hsettled⟩
  · obtain ⟨file, hfile, hbytes, hsettled⟩ := h.marked b (hsub.mem hb)
    exact ⟨file, hl.heights _ _ hfile hsettled, hbytes, hsettled⟩

theorem serves (h : Holds journal acked d history) (hnonzero : ∀ bundle ∈ history, bundle.id ≠ zero) : Serves journal d.answers history where
  head := h.head.readPin journal
  chained := h.chained
  nonzero := hnonzero
  indexed b hb := by
    obtain ⟨file, hfile, hbytes, -⟩ := h.marked b hb
    obtain ⟨file', hfile', hbytes', -⟩ := h.stored b hb
    exact ⟨Disk.readHeightMarker_eq_some.2 ⟨file, hfile, hbytes⟩, Disk.readBundle_eq_ok.2 ⟨file', hfile', hbytes', b.len_le⟩⟩

end Holds

/-! ### What the operations keep -/

namespace Keeps

theorem refl (d : Disk) : Keeps history d d := ⟨rfl, rfl, fun _ _ h => h, fun _ _ h => h⟩

theorem trans (h : Keeps history d d') (h' : Keeps history d' d'') : Keeps history d d'' :=
  ⟨h'.head.trans h.head, h'.lasting.trans h.lasting, fun b hb hs => h'.stored b hb (h.stored b hb hs),
    fun b hb hs => h'.marked b hb (h.marked b hb hs)⟩

theorem partly {effect : Disk → Disk} (h : Keeps history d (effect d)) : Keeps history d (Journal.partly effect extent d) := by
  unfold Journal.partly
  split
  · exact refl d
  · exact h

theorem prefixed {write : List UInt8 → Disk → Disk} (h : ∀ bytes, Keeps history d (write bytes d)) :
    Keeps history d (Journal.prefixed write bytes extent d) := by
  unfold Journal.prefixed
  split
  · exact refl d
  · exact h _

theorem removePinTmp : Keeps history d d.removePinTmp := ⟨rfl, rfl, fun _ _ h => h, fun _ _ h => h⟩

theorem writePinTmp (bytes : List UInt8) : Keeps history d (d.writePinTmp bytes) := ⟨rfl, rfl, fun _ _ h => h, fun _ _ h => h⟩

theorem syncPinTmp : Keeps history d d.syncPinTmp := ⟨rfl, rfl, fun _ _ h => h, fun _ _ h => h⟩

theorem linkBundle {id : Bytes32} (h : d.bundles[id]? = none) : Keeps history d (d.linkBundle id bytes) := by
  refine ⟨rfl, rfl, fun b _ hs => ?_, fun _ _ hs => hs⟩
  obtain ⟨file, hfile, hs⟩ := hs
  refine ⟨file, ?_, hs⟩
  rw [Disk.linkBundle, Maps.getElem?_insert, if_neg]
  · exact hfile
  · rintro rfl
    rw [h] at hfile
    cases hfile

theorem syncBundle {id : Bytes32} : Keeps history d (d.syncBundle id) := by
  unfold Disk.syncBundle
  cases hd : d.bundles[id]? with
  | none => exact refl d
  | some file =>
    refine ⟨rfl, rfl, fun b _ hs => ?_, fun _ _ hs => hs⟩
    obtain ⟨file', hfile, hbytes, hs⟩ := hs
    simp only
    rw [Maps.getElem?_insert]
    split
    · rename_i he
      rw [← he, hd] at hfile
      cases hfile
      refine ⟨_, rfl, hbytes, ?_⟩
      simp only [File.settled, Bool.and_eq_true] at hs ⊢
      exact ⟨trivial, hs.2⟩
    · exact ⟨file', hfile, hbytes, hs⟩

theorem settled_linked {file : File} (h : file.settled = true) : ({ file with linked := true } : File).settled = true := by
  simp only [File.settled, Bool.and_eq_true] at h ⊢
  exact ⟨h.1, trivial⟩

theorem syncBundlesDir : Keeps history d d.syncBundlesDir := by
  refine ⟨rfl, rfl, fun b _ hs => ?_, fun _ _ hs => hs⟩
  obtain ⟨file, hfile, hbytes, hs⟩ := hs
  refine ⟨{ file with linked := true }, ?_, hbytes, settled_linked hs⟩
  rw [Disk.syncBundlesDir, Std.ExtTreeMap.getElem?_map, hfile]
  rfl

theorem syncHeightsDir : Keeps history d d.syncHeightsDir := by
  refine ⟨rfl, rfl, fun _ _ hs => hs, fun b _ hs => ?_⟩
  obtain ⟨file, hfile, hbytes, hs⟩ := hs
  refine ⟨{ file with linked := true }, ?_, hbytes, settled_linked hs⟩
  rw [Disk.syncHeightsDir, Std.ExtTreeMap.getElem?_map, hfile]
  rfl

theorem writeHeightMarker {height : UInt64} (h : ∀ bundle ∈ history, bundle.height ≠ height) :
    Keeps history d (d.writeHeightMarker height bytes) := by
  refine ⟨rfl, rfl, fun _ _ hs => hs, fun b hb hs => ?_⟩
  rwa [Disk.writeHeightMarker, Maps.getElem?_insert, if_neg (Ne.symm (h b hb))]

theorem syncHeightMarker {height : UInt64} (h : ∀ bundle ∈ history, bundle.height ≠ height) : Keeps history d (d.syncHeightMarker height) := by
  unfold Disk.syncHeightMarker
  cases d.heights[height]? with
  | none => exact refl d
  | some file =>
    refine ⟨rfl, rfl, fun _ _ hs => hs, fun b hb hs => ?_⟩
    simp only
    rwa [Maps.getElem?_insert, if_neg (Ne.symm (h b hb))]

theorem removeHeightMarker {height : UInt64} (h : ∀ bundle ∈ history, bundle.height ≠ height) : Keeps history d (d.removeHeightMarker height) := by
  refine ⟨rfl, rfl, fun _ _ hs => hs, fun b hb hs => ?_⟩
  rwa [Disk.removeHeightMarker, Maps.getElem?_erase, if_neg (Ne.symm (h b hb))]

end Keeps

/-! ### The writers -/

section
variable {α : Type} {whole : Disk → Disk} {part : Nat → Disk → Disk} {answer : Disk → Except JournalError α} {I : α → Disk → Prop}
  {P E : Disk → Prop}

theorem wp_perform (h : P (whole d)) (he : ∀ extent, E (part extent d)) : wp (perform fault whole part) (Post (fun _ => P) fun _ => E) d := by
  cases fault with
  | pass => exact h
  | failed _ extent => exact he extent
  | crashed extent => exact he extent

theorem wp_ask (h : ∀ a, answer d = .ok a → I a d) (he : E d) : wp (ask fault answer) (Post I fun _ => E) d := by
  cases fault with
  | pass =>
    show Post I (fun _ => E) (answer d) d
    cases ha : answer d with
    | ok a => exact h a ha
    | error => exact he
  | failed => exact he
  | crashed => exact he

theorem wp_examine (h : ∀ a, answer d = .ok a → I a d) (he : E d) : wp (examine answer) (Post I fun _ => E) d :=
  show wp (ask .pass answer) (Post I fun _ => E) d from wp_ask h he

theorem wp_mapErr {f : JournalError → JournalError} {m : Fallible JournalError Disk α} (h : wp m (Post I fun _ => E) d) :
    wp (mapErr f m) (Post I fun _ => E) d := by
  unfold wp at h ⊢
  show Post I (fun _ => E) ((exec m d).1.mapError f) (exec m d).2
  cases hm : (exec m d).1 with
  | ok a =>
    rw [hm] at h
    exact h
  | error e =>
    rw [hm] at h
    exact h

end

def Extends (history : List (Bundle host)) (bundle : Bundle host) (history' : List (Bundle host)) : Prop :=
  history' = history ∨ history' = history ++ [bundle]

/-- What a commit leaves where it fails. -/
def Left (journal : Journal host) (acked history : List (Bundle host)) (bundle : Bundle host) (d : Disk) : Prop :=
  ∃ history', Extends history bundle history' ∧ Holds journal acked d history'

/-- What a commit leaves where it ends well. -/
def Taken (journal : Journal host) (acked history : List (Bundle host)) (bundle : Bundle host) (d : Disk) : Prop :=
  Left journal (acked ++ [bundle]) history bundle d

theorem Holds.left (h : Holds journal acked d history) : Left journal acked history bundle d := ⟨history, .inl rfl, h⟩

theorem Holds.partly_syncDir (h : Holds journal acked d history) : Holds journal acked (partly Disk.syncDir extent d) history := by
  unfold partly
  split
  · exact h
  · exact h.syncDir_same

theorem readCurrent_holds (h : Holds journal acked d history) :
    wp (journal.readCurrent faults) (Post (fun pin d' => d' = d ∧ pin = pinOf journal history) fun _ d' => d' = d) d := by
  rw [readCurrent, wp_bind]
  refine wp_ask (fun raw hraw => ?_) rfl
  rcases h.head.readPin journal with ⟨rfl, hread⟩ | ⟨-, hread⟩
  · rw [hraw] at hread
    cases hread
    exact ⟨rfl, rfl⟩
  · rw [hraw] at hread
    cases hread
    refine wp_examine (fun pin hpin => ⟨rfl, ?_⟩) rfl
    rw [Pin.decode_eq_ok.2 rfl] at hpin
    exact (Except.ok.inj hpin).symm

/-- The bundle is not taken for the genesis pin. -/
def Fresh (history : List (Bundle host)) (bundle : Bundle host) : Prop := bundle.id ≠ zero ∨ history.length < bundle.height.toNat

theorem retry_holds (h : Holds journal acked d history) (hfresh : Fresh history bundle) (hid : (pinOf journal history).bundle = bundle.id) :
    wp (retry faults (pinOf journal history) bundle) (Post (fun _ => Taken journal acked history bundle)
      fun _ => Left journal acked history bundle) d := by
  unfold retry
  split
  · exact h.left
  rename_i hlinks
  simp only [not_or, ne_eq, Decidable.not_not] at hlinks
  rw [wp_bind]
  refine wp_mapErr (wp_ask (fun stored hstored => ?_) h.left)
  split
  · exact h.left
  rename_i hbytes
  rw [wp_bind]
  refine wp_ask (fun id _ => ?_) h.left
  split
  · exact h.left
  have hmem : bundle ∈ history := by
    rcases List.eq_nil_or_concat history with rfl | ⟨before, last, rfl⟩
    · rcases hfresh with hne | hlt
      · exact absurd hid.symm hne
      · rw [← hlinks.2.2] at hlt
        exact absurd hlt (Nat.lt_irrefl 0)
    · rw [List.concat_eq_append] at *
      rw [pinOf_snoc] at hid
      obtain ⟨file, hfile, hfb, -⟩ := h.stored last (by simp)
      obtain ⟨file', hfile', hfb', -⟩ := Disk.readBundle_eq_ok.1 hstored
      rw [show last.id = bundle.id from hid, hfile'] at hfile
      cases hfile
      have hlast : last = bundle := Bundle.ext_of_bytes (by rw [← hfb, hfb', Decidable.not_not.1 hbytes])
      simp [hlast]
  have h₁ := h.keep Keeps.syncBundlesDir
  have h₂ := h₁.keep Keeps.syncHeightsDir
  rw [wp_bind]
  refine wp_perform ?_ fun extent => (h.keep Keeps.syncBundlesDir.partly).left
  rw [wp_bind]
  refine wp_perform ?_ fun extent => (h₁.keep Keeps.syncHeightsDir.partly).left
  rw [wp_bind]
  refine wp_perform ?_ fun extent => h₂.partly_syncDir.left
  exact (h₂.syncDir hmem).left

theorem createBundle_keeps {id : Bytes32} : wp (createBundle faults id bytes) (Post (fun created d' => Keeps history d d' ∧
    (created = true → d'.bundles[id]? = some ⟨bytes, true, false⟩) ∧ (created = false → d' = d)) fun _ => Keeps history d) d := by
  unfold createBundle
  split
  · exact Keeps.refl d
  rw [wp_bind]
  refine wp_examine (fun found hfound => ?_) (Keeps.refl d)
  cases found with
  | true => exact ⟨Keeps.refl d, fun h => (nomatch h), fun _ => rfl⟩
  | false =>
    have hd : d.bundles[id]? = none := Option.isSome_eq_false_iff.1 (Except.ok.inj hfound) |> Option.isNone_iff_eq_none.1
    have hlink : (Disk.linkBundle id bytes d).bundles[id]? = some ⟨bytes, true, false⟩ := by
      rw [Disk.linkBundle, Maps.getElem?_insert, if_pos rfl]
    rw [if_neg (by decide), wp_bind]
    exact wp_perform ⟨Keeps.linkBundle hd, fun _ => hlink, fun h => nomatch h⟩ fun extent => (Keeps.linkBundle hd).partly

theorem placeBundle_keeps (history : List (Bundle host)) (faults : Faults) (bundle : Bundle host) : wp (placeBundle faults bundle) (Post (fun _ d' => Keeps history d d' ∧
    ∃ file, d'.bundles[bundle.id]? = some file ∧ file.bytes = bundle.bytes ∧ file.synced = true) fun _ => Keeps history d) d := by
  rw [placeBundle, wp_bind]
  refine createBundle_keeps.post (fun created d' hcreated => ?_) fun _ _ h => h
  obtain ⟨hkeeps, hnew, hold⟩ := hcreated
  cases created with
  | true => exact ⟨hkeeps, _, hnew rfl, rfl, rfl⟩
  | false =>
    obtain rfl := hold rfl
    rw [if_neg (by decide), wp_bind]
    refine wp_ask (fun stored hstored => ?_) hkeeps
    split
    · exact hkeeps
    rename_i hbytes
    obtain ⟨file, hfile, hfb, -⟩ := Disk.readBundle_eq_ok.1 hstored
    refine wp_perform ⟨Keeps.syncBundle, { file with synced := true }, ?_, hfb.trans (Decidable.not_not.1 hbytes), rfl⟩
      fun extent => Keeps.syncBundle.partly
    simp only [Disk.syncBundle, hfile]
    rw [Maps.getElem?_insert, if_pos rfl]

theorem placeMarker_keeps (faults : Faults) (bundle : Bundle host) (hfree : ∀ b ∈ history, b.height ≠ bundle.height) : wp (placeMarker faults bundle) (Post (fun _ d' =>
    Keeps history d d' ∧ d'.bundles = d.bundles ∧ Settled d'.heights[bundle.height]? bundle.id.toList) fun _ => Keeps history d) d := by
  have hwrite : ∀ bytes, Keeps history d (Disk.writeHeightMarker bundle.height bytes d) := fun bytes => .writeHeightMarker hfree
  have hmark := hwrite bundle.id.toList
  have hsync := hmark.trans (.syncHeightMarker hfree)
  have hwritten : ∃ file, (Disk.writeHeightMarker bundle.height bundle.id.toList d).heights[bundle.height]? = some file ∧
      file.bytes = bundle.id.toList := by
    rw [Disk.writeHeightMarker, Maps.getElem?_insert, if_pos rfl]
    exact ⟨_, rfl, rfl⟩
  obtain ⟨file, hfile, hbytes⟩ := hwritten
  have hsynced : Disk.syncHeightMarker bundle.height (Disk.writeHeightMarker bundle.height bundle.id.toList d) =
      { Disk.writeHeightMarker bundle.height bundle.id.toList d with
        heights := (Disk.writeHeightMarker bundle.height bundle.id.toList d).heights.insert bundle.height { file with synced := true } } := by
    rw [Disk.syncHeightMarker, hfile]
  rw [placeMarker, wp_bind]
  refine wp_perform ?_ fun extent => .prefixed hwrite
  rw [wp_bind]
  refine wp_perform ?_ fun extent => hmark.trans (Keeps.syncHeightMarker hfree).partly
  refine wp_perform ⟨hsync.trans .syncHeightsDir, ?_, ?_⟩ fun extent => hsync.trans Keeps.syncHeightsDir.partly
  · rw [hsynced]
    rfl
  · refine ⟨⟨file.bytes, true, true⟩, ?_, hbytes, rfl⟩
    rw [Disk.syncHeightsDir, Std.ExtTreeMap.getElem?_map, hsynced, Maps.getElem?_insert, if_pos rfl]
    rfl

theorem placePin_holds (h : Holds journal acked d history) (hchained : Chained journal (history ++ [bundle]))
    (hstored : Settled d.bundles[bundle.id]? bundle.bytes) (hmarked : Settled d.heights[bundle.height]? bundle.id.toList) :
    wp (placePin faults bundle) (Post (fun _ => Taken journal acked history bundle) fun _ => Left journal acked history bundle) d := by
  have h₁ := h.keep (.writePinTmp bundle.pin.encode)
  have h₂ := h₁.keep Keeps.syncPinTmp
  have h₃ := h₂.rename rfl rfl rfl hchained hstored hmarked
  rw [placePin, wp_bind]
  refine wp_perform ?_ fun extent => (h.keep (Keeps.prefixed fun _ => .writePinTmp _)).left
  rw [wp_bind]
  refine wp_perform ?_ fun extent => (h₁.keep Keeps.syncPinTmp.partly).left
  rw [wp_bind]
  refine wp_perform ?_ fun extent => ?_
  · refine wp_perform ?_ fun extent => ⟨_, .inr rfl, h₃.partly_syncDir⟩
    exact ⟨_, .inr rfl, h₃.syncDir (by simp)⟩
  · unfold partly
    split
    · exact h₂.left
    · exact ⟨_, .inr rfl, h₃⟩

theorem publish_holds (h : Holds journal acked d history) : wp (publish faults (pinOf journal history) bundle)
    (Post (fun _ => Taken journal acked history bundle) fun _ => Left journal acked history bundle) d := by
  unfold publish
  split
  · exact h.left
  rename_i hprev
  rw [wp_bind, wp_okOr]
  refine ⟨fun expected hexpected => ?_, fun _ => h.left⟩
  rw [Post_ok]
  split
  · exact h.left
  rename_i hheight
  have hnat : bundle.height.toNat = history.length + 1 := by
    rw [Decidable.not_not.1 hheight, ← h.chained.pinOf_height]
    exact checkedAdd_eq_some.1 hexpected
  have hchained : Chained journal (history ++ [bundle]) :=
    h.chained.snoc hnat (by rw [← pinOf_next, Decidable.not_not.1 hprev])
  have hfree : ∀ b ∈ history, b.height ≠ bundle.height := by
    intro b hb he
    have hle := (h.chained.height_le hb).2
    rw [he] at hle
    omega
  rw [wp_bind]
  refine (placeBundle_keeps history faults bundle).post (fun _ d₁ hd₁ => ?_) fun _ _ hk => (h.keep hk).left
  obtain ⟨hk₁, file, hfile, hbytes, hsynced⟩ := hd₁
  have h₁ := h.keep hk₁
  have hplaced : Settled d₁.syncBundlesDir.bundles[bundle.id]? bundle.bytes := by
    refine ⟨{ file with linked := true }, ?_, hbytes, ?_⟩
    · rw [Disk.syncBundlesDir, Std.ExtTreeMap.getElem?_map, hfile]
      rfl
    · rw [File.settled, hsynced]
      rfl
  have h₂ := h₁.keep Keeps.syncBundlesDir
  rw [wp_bind]
  refine wp_perform ?_ fun extent => (h₁.keep Keeps.syncBundlesDir.partly).left
  rw [wp_bind]
  refine (placeMarker_keeps faults bundle hfree).post (fun _ d₃ hd₃ => ?_) fun _ _ hk => (h₂.keep hk).left
  obtain ⟨hk₃, hsame, hmarked⟩ := hd₃
  rw [wp_bind]
  refine (placePin_holds (h₂.keep hk₃) hchained ?_ hmarked).post (fun _ _ ht => ht) fun _ _ hl => hl
  rw [hsame]
  exact hplaced

theorem commit_holds (faults : Faults) (h : Holds journal acked d history) (hfresh : Fresh history bundle) : wp (journal.commit faults bundle)
    (Post (fun _ => Taken journal acked history bundle) fun _ => Left journal acked history bundle) d := by
  rw [commit, wp_bind]
  refine wp_perform ?_ fun extent => h.partly_syncDir.left
  have hlocked : Holds journal acked ((if faults.fresh then Disk.syncDir else id) d) history := by
    cases faults.fresh with
    | false => exact h
    | true => exact h.syncDir_same
  rw [wp_bind]
  refine (readCurrent_holds hlocked).post (fun pin d' hpin => ?_) fun _ d' hd' => ?_
  · obtain ⟨rfl, rfl⟩ := hpin
    show wp (if (pinOf journal history).bundle = bundle.id then _ else _) _ _
    split
    · exact retry_holds hlocked hfresh ‹_›
    · exact publish_holds hlocked
  · rw [hd']
    exact hlocked.left

/-- A commit that ends well leaves the bundle under its name and under its height, whatever the disk held. -/
theorem commit_stores {outcome : Committed} (h : exec (journal.commit faults bundle) d = (.ok outcome, d')) :
    (∃ file, d'.bundles[bundle.id]? = some file ∧ file.bytes = bundle.bytes) ∧
      ∃ file, d'.heights[bundle.height]? = some file ∧ file.bytes = bundle.id.toList := by
  cases outcome with
  | alreadyCommitted =>
    obtain ⟨hretains, hcontents⟩ := commit_retained h
    simp only [Disk.contents, Prod.mk.injEq] at hcontents
    obtain ⟨file, hfile, hbytes⟩ := hretains.stored
    obtain ⟨file', hfile', hbytes'⟩ := hretains.marked
    have hstored := congrFun hcontents.2.2.1 bundle.id
    have hmarked := congrFun hcontents.2.2.2 bundle.height
    rw [hfile, Option.map_some, hbytes] at hstored
    rw [hfile', Option.map_some, hbytes'] at hmarked
    exact ⟨Option.map_eq_some_iff.1 hstored, Option.map_eq_some_iff.1 hmarked⟩
  | committed =>
    simp only [commit, exec_bind_eq_ok] at h
    obtain ⟨_, _, -, current, d₀, -, h⟩ := h
    split at h
    · rename_i hid
      cases (retry_ok h hid).1
    unfold publish at h
    split at h
    · cases h
    rw [exec_bind_eq_ok] at h
    obtain ⟨expected, mid, -, h⟩ := h
    split at h
    · cases h
    simp only [exec_bind_eq_ok, exec_perform_eq_ok, exec_pure] at h
    obtain ⟨_, d₁, hplace, _, _, ⟨-, rfl⟩, _, d₂, hmark, _, d₃, hpin, h⟩ := h
    cases h
    have hplaced := placeBundle_keeps [] faults bundle (d := mid)
    unfold wp at hplaced
    rw [hplace] at hplaced
    obtain ⟨-, file, hfile, hbytes, -⟩ := hplaced
    have hmarked := placeMarker_keeps faults bundle (d := d₁.syncBundlesDir) (List.forall_mem_nil _)
    unfold wp at hmarked
    rw [hmark] at hmarked
    obtain ⟨-, hsame, file', hfile', hbytes', -⟩ := hmarked
    simp only [placePin, exec_bind_eq_ok, exec_perform_eq_ok] at hpin
    obtain ⟨_, _, ⟨-, rfl⟩, _, _, ⟨-, rfl⟩, _, _, ⟨-, rfl⟩, -, rfl⟩ := hpin
    refine ⟨⟨{ file with linked := true }, ?_, hbytes⟩, file', hfile', hbytes'⟩
    show d₂.bundles[bundle.id]? = _
    rw [hsame, Disk.syncBundlesDir, Std.ExtTreeMap.getElem?_map, hfile]
    rfl

theorem commit_extends {outcome : Committed} (h : Holds journal acked d history)
    (hexec : exec (journal.commit faults bundle) d = (.ok outcome, d')) (hnew : history.length < bundle.height.toNat) :
    Holds journal (acked ++ [bundle]) d' (history ++ [bundle]) := by
  have hspec := commit_holds faults h (.inr hnew)
  unfold wp at hspec
  rw [hexec] at hspec
  obtain ⟨history', hextends, hholds⟩ := hspec
  rcases hextends with rfl | rfl
  · have hmem : bundle ∈ history' := hholds.acked_mem (List.mem_append_right _ (List.mem_singleton.2 rfl))
    exact absurd (h.chained.height_le hmem).2 (Nat.not_le.2 hnew)
  · exact hholds

theorem checkBundle_same {pin : Pin} :
    wp (checkBundle host faults pin) (Post (fun _ d' => d' = d) fun _ d' => d' = d) d := by
  unfold checkBundle
  split
  · rw [wp_bind]
    refine wp_mapErr (wp_ask (fun stored _ => ?_) rfl)
    rw [wp_bind]
    refine wp_examine (fun bundle _ => ?_) rfl
    split <;> exact rfl
  · exact rfl

theorem checkMarker_same {pin : Pin} : wp (checkMarker faults pin) (Post (fun _ d' => d' = d) fun _ d' => d' = d) d := by
  unfold checkMarker
  split
  · rw [wp_bind]
    refine wp_ask (fun id _ => ?_) rfl
    split <;> exact rfl
  · exact rfl

theorem recoverPin_holds (h : Holds journal acked d history) :
    wp (journal.recoverPin faults) (Post (fun pin d' => d' = d ∧ pin = pinOf journal history) fun _ d' => d' = d) d := by
  rw [recoverPin, wp_bind]
  refine wp_ask (fun raw hraw => ?_) rfl
  rcases h.head.readPin journal with ⟨rfl, hread⟩ | ⟨-, hread⟩
  · rw [hraw] at hread
    cases hread
    exact ⟨rfl, rfl⟩
  · rw [hraw] at hread
    cases hread
    show wp (do let pin ← _; _) _ d
    rw [wp_bind]
    refine wp_examine (fun pin hpin => ?_) rfl
    rw [Pin.decode_eq_ok.2 rfl] at hpin
    rw [wp_bind]
    refine checkBundle_same.post (fun _ d' hd' => ⟨hd', (Except.ok.inj hpin).symm⟩) fun _ _ hd' => hd'

theorem dropTmp_keeps : wp (dropTmp faults) (Post (fun _ => Keeps history d) fun _ => Keeps history d) d := by
  rw [dropTmp, wp_bind]
  refine wp_ask (fun tmp _ => ?_) (Keeps.refl d)
  split
  · rw [wp_bind]
    exact wp_perform Keeps.removePinTmp fun extent => Keeps.removePinTmp.partly
  · exact Keeps.refl d

theorem dropHeight_holds (faults : Faults) (dropped : List UInt64) (height : UInt64) (h : Holds journal acked d history) :
    wp (dropHeight faults (pinOf journal history) dropped height) (Post (fun _ d' => Holds journal acked d' history)
      fun _ d' => Holds journal acked d' history) d := by
  unfold dropHeight
  split
  · rename_i habove
    have hfree : ∀ b ∈ history, b.height ≠ height := by
      intro b hb he
      have hle := (h.chained.height_le hb).2
      rw [he, ← h.chained.pinOf_height] at hle
      exact absurd (UInt64.lt_iff_toNat_lt.1 habove) (Nat.not_lt.2 hle)
    rw [wp_bind]
    exact wp_perform (h.keep (.removeHeightMarker hfree)) fun extent => h.keep (Keeps.removeHeightMarker hfree).partly
  · exact h

theorem recover_holds (faults : Faults) (h : Holds journal acked d history) : wp (journal.recover faults)
    (Post (fun recovered d' => recovered.pin = pinOf journal history ∧ Holds journal acked d' history) fun _ d' => Holds journal acked d' history)
      d := by
  rw [recover, wp_bind]
  refine (recoverPin_holds h).post (fun pin d₁ hpin => ?_) fun _ _ hd => hd ▸ h
  obtain ⟨rfl, rfl⟩ := hpin
  rw [wp_bind]
  refine checkMarker_same.post (fun _ d₂ hd₂ => ?_) fun _ _ hd => hd ▸ h
  rw [hd₂, wp_bind]
  refine dropTmp_keeps.post (fun _ d₃ hk => ?_) fun _ _ hk => h.keep hk
  have h₃ := h.keep hk
  rw [wp_bind]
  refine wp_ask (fun heights _ => ?_) h₃
  rw [wp_bind]
  have hloop := wp_foldlM (l := heights) (b := []) (s := d₃) (I := fun _ d' => Holds journal acked d' history)
    (E := fun (_ : JournalError) d' => Holds journal acked d' history)
    (fun height _ dropped _ hs => dropHeight_holds faults dropped height hs) h₃
  refine hloop.post (fun dropped d₄ h₄ => ?_) fun _ _ he => he
  have h₅ := h₄.keep Keeps.syncHeightsDir
  rw [wp_bind]
  refine wp_perform ?_ fun extent => h₄.keep Keeps.syncHeightsDir.partly
  rw [wp_bind]
  refine wp_perform ?_ fun extent => h₅.partly_syncDir
  rw [wp_bind]
  exact wp_ask (fun ids _ => ⟨rfl, h₅.syncDir_same⟩) h₅.syncDir_same

/-! ### Every run -/

variable {notes : List (Note host)}

def Recorded (journal : Journal host) (notes : List (Note host)) (d : Disk) (history : List (Bundle host)) : Prop :=
  Holds journal (acknowledged notes) d history ∧ ∀ bundle ∈ history, bundle ∈ notes.map Note.bundle

theorem Moves.recorded {note : List (Note host)} (hm : Moves journal d note d') (hids : ∀ n ∈ note, n.bundle.id ≠ zero)
    (h : Recorded journal notes d history) : ∃ history', Recorded journal (notes ++ note) d' history' := by
  obtain ⟨h, hoffered⟩ := h
  cases hm with
  | @commit _ faults bundle result hexec =>
    have hspec := commit_holds faults h (.inl (hids _ (List.mem_singleton.2 rfl)))
    have hmem : ∀ history', Extends history bundle history' → ∀ b ∈ history', b ∈ (notes ++ [(⟨bundle, result⟩ : Note host)]).map Note.bundle := by
      intro history' hextends b hb
      rw [List.map_append]
      rcases hextends with rfl | rfl
      · exact List.mem_append_left _ (hoffered b hb)
      · rcases List.mem_append.1 hb with hb | hb
        · exact List.mem_append_left _ (hoffered b hb)
        · exact List.mem_append_right _ hb
    unfold wp at hspec
    rw [hexec] at hspec
    cases result with
    | ok outcome =>
      obtain ⟨history', hextends, hholds⟩ := hspec
      refine ⟨history', ?_, hmem history' hextends⟩
      rw [acknowledged, List.filter_append, List.map_append]
      exact hholds
    | error error =>
      obtain ⟨history', hextends, hholds⟩ := hspec
      refine ⟨history', ?_, hmem history' hextends⟩
      rw [acknowledged, List.filter_append, List.map_append]
      simpa [Except.isOk, Except.toBool, acknowledged] using hholds
  | @recover _ faults result hexec =>
    have hspec := recover_holds faults h
    unfold wp at hspec
    rw [hexec] at hspec
    rw [List.append_nil]
    cases result with
    | ok => exact ⟨history, hspec.2, hoffered⟩
    | error => exact ⟨history, hspec, hoffered⟩
  | powerLoss hl =>
    obtain ⟨kept, hsub, hholds⟩ := h.powerLoss hl
    rw [List.append_nil]
    exact ⟨kept, hholds, fun b hb => hoffered b (hsub.mem hb)⟩

theorem run_recorded (h : Steps (Moves journal) Disk.fresh notes d) (hids : ∀ note ∈ notes, note.bundle.id ≠ zero) :
    ∃ history, Recorded journal notes d history := by
  refine h.recorded (I := fun notes d => (∀ note ∈ notes, note.bundle.id ≠ zero) → ∃ history, Recorded journal notes d history)
    (fun _ => ⟨[], .fresh, fun _ hb => nomatch hb⟩) (fun notes d note d' ih hm hids => ?_) hids
  rw [List.forall_mem_append] at hids
  obtain ⟨history, hhistory⟩ := ih hids.1
  exact hm.recorded hids.2 hhistory

end

/-- Reading follows the committed history to its end; and every page, of any store, is a linked run under the observed pin. -/
theorem published_reads {host : Host} (journal : Journal host) :
    (∀ notes d, Steps (Moves journal) Disk.fresh notes d → (∀ note ∈ notes, note.bundle.id ≠ zero) →
      ∃ history : List (Bundle host), (∀ bundle ∈ acknowledged notes, bundle ∈ history) ∧
        (∀ bundle ∈ history, bundle ∈ notes.map Note.bundle) ∧ Names d.head history ∧ Chained journal history ∧
        (pinOf journal history).height.toNat = history.length ∧
        ∀ (after : UInt64) (limits : Nat → Limits), after ≤ (pinOf journal history).height →
          (∀ i, (limits i).Suffice (history.drop after.toNat)) →
          ∃ pages, follow journal d.answers limits (history.length - after.toNat + 1) 0 after
              (frontierOf journal (history.take after.toNat)) = .ok pages ∧
            pages.flatMap PublishedPage.bundles = history.drop after.toNat ∧
            ∀ i page, pages[i]? = some page → page.bundles.length ≤ (limits i).maxBundles ∧ page.bytes = size page.bundles ∧
              page.bytes ≤ (limits i).maxBytes ∧ (page.hasMore = true ↔ i + 1 < pages.length)) ∧
    ∀ answers request (page : PublishedPage host), readPublishedRange journal answers request = .ok page → Page journal answers request page := by
  refine ⟨fun notes d h hids => ?_, fun answers request page h => readPublishedRange_page h⟩
  obtain ⟨history, hholds, hoffered⟩ := run_recorded h hids
  have hheight := hholds.chained.pinOf_height
  have hserves : Serves journal d.answers history := hholds.serves fun b hb => by
    obtain ⟨note, hnote, rfl⟩ := List.mem_map.1 (hoffered b hb)
    exact hids note hnote
  refine ⟨history, fun b hb => hholds.acked_mem hb, hoffered, hholds.head, hholds.chained, hheight, fun after limits hafter hlimits => ?_⟩
  rw [UInt64.le_iff_toNat_le, hheight] at hafter
  obtain ⟨pages, hfollow, hall, heach⟩ := hserves.follow (i := 0) rfl hafter hlimits (Nat.lt_succ_self _)
  exact ⟨pages, hfollow, hall, fun i page hi => by simpa using heach i page hi⟩

/-! ### One commit -/

def Bundle.firstDisk {host : Host} (bundle : Bundle host) : Disk :=
  let placed := (Disk.linkBundle bundle.id bundle.bytes Disk.fresh).syncBundlesDir
  let marked := ((placed.writeHeightMarker bundle.height bundle.id.toList).syncHeightMarker bundle.height).syncHeightsDir
  (marked.writePinTmp bundle.pin.encode).syncPinTmp.renamePin.syncDir

theorem commit_fresh {host : Host} {journal : Journal host} {bundle : Bundle host} (hprev : bundle.predecessor = journal.genesisNext)
    (hheight : bundle.height = 1) (hne : bundle.id ≠ zero) :
    exec (journal.commit quiet bundle) Disk.fresh = (.ok .committed, bundle.firstDisk) := by
  have hnext : ¬ journal.genesis.next ≠ bundle.predecessor := by rw [hprev]; exact not_not.2 rfl
  have hadd : checkedAdd journal.genesis.height 1 = some bundle.height := by rw [hheight]; rfl
  have hid : ¬ journal.genesis.bundle = bundle.id := Ne.symm hne
  have hcreate : exec (createBundle quiet bundle.id bundle.bytes) Disk.fresh = (.ok true, Disk.linkBundle bundle.id bundle.bytes Disk.fresh) := by
    have hlen : ¬ bundle.bytes.length > maxBundleBytes := Nat.not_lt.2 bundle.len_le
    rw [createBundle, if_neg hlen]
    rfl
  have hplace : exec (placeBundle quiet bundle) Disk.fresh = (.ok (), Disk.linkBundle bundle.id bundle.bytes Disk.fresh) := by
    rw [placeBundle, exec_bind_ok hcreate]
    rfl
  have hpublish : exec (publish quiet journal.genesis bundle) Disk.fresh = (.ok .committed, bundle.firstDisk) := by
    rw [publish, if_neg hnext, hadd, Fallible.okOr_some, pure_bind, if_neg (by simp), exec_bind_ok hplace]
    rfl
  have hcurrent : exec (journal.readCurrent quiet) Disk.fresh = (.ok journal.genesis, Disk.fresh) := rfl
  rw [commit]
  refine (exec_bind_ok (a := ()) rfl).trans ?_
  rw [exec_bind_ok hcurrent, if_neg hid]
  exact hpublish

def sampleParts : BundleParts where
  certificate := [1, 2, 3]
  predecessor := Vector.replicate 32 0xa5
  next := Vector.replicate 32 5
  batch := []
  value := []
  configuration := []
  controlRecord := []
  debitMarker := []
  height := 1

def sampleBundle : Bundle sampleHost where
  predecessor := sampleParts.predecessor
  next := sampleParts.next
  height := sampleParts.height
  id := sampleHost.sha256Parts sampleParts.fields
  bytes := sampleParts.encode
  made := ⟨sampleParts, by decide, rfl, rfl, rfl, rfl, rfl⟩

theorem sampleBundle_id_ne_zero : sampleBundle.id ≠ zero := by decide

theorem sample_commit : exec (sampleJournal.commit quiet sampleBundle) Disk.fresh = (.ok .committed, sampleBundle.firstDisk) :=
  commit_fresh rfl rfl sampleBundle_id_ne_zero

/-- The committed bundle is read back from genesis in one call. -/
theorem sample_reads : ∃ history : List (Bundle sampleHost), sampleBundle ∈ history ∧
    ∃ pages, follow sampleJournal sampleBundle.firstDisk.answers (fun _ => ⟨1, maxBundleBytes, true⟩) (history.length - (0 : UInt64).toNat + 1) 0 0
        (frontierOf sampleJournal (history.take (0 : UInt64).toNat)) = .ok pages ∧
      pages.flatMap PublishedPage.bundles = history.drop (0 : UInt64).toNat := by
  obtain ⟨history, hacked, -, -, -, -, hfollow⟩ := (published_reads sampleJournal).1 [⟨sampleBundle, .ok .committed⟩] _
    (.single (.commit sample_commit)) (by
      rintro note hnote
      rw [List.mem_singleton.1 hnote]
      exact sampleBundle_id_ne_zero)
  refine ⟨history, hacked _ (List.mem_singleton.2 rfl), ?_⟩
  obtain ⟨pages, hpages, hall, -⟩ := hfollow 0 (fun _ => ⟨1, maxBundleBytes, true⟩) (Nat.zero_le _) fun _ =>
    ⟨Nat.one_pos, by decide, by decide, by decide, fun b _ => b.len_le⟩
  exact ⟨pages, hpages, hall⟩

end Valhalla.Journal
