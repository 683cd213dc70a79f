import Valhalla.Native.Spent
import Valhalla.Lib.Trace

/-!
# Nonces are redeemed once

The runs of one path: processes that open the set and consume nonces, with crashes anywhere. As long as no lookup of an
existing file fails, what the path names, now and after a crash, holds every redeemed nonce. A failed lookup opens the
empty set, and the next publication forgets what was redeemed before.
-/

namespace Valhalla.Native
open Check Fallible

/-! ### Runs -/

/-- What a crash makes of a file: nothing is known of bytes that were not synced. -/
inductive Survives : Option Node → Option Node → Prop
  | missing : Survives none none
  | foreign (len : Nat) : Survives (some (.foreign len)) (some (.foreign len))
  | synced {file : File} (h : file.synced = true) : Survives (some (.file file)) (some (.file file))
  | torn {file : File} (bytes : List UInt8) (h : file.synced = false) : Survives (some (.file file)) (some (.file ⟨bytes, true⟩))

/-- A crash, after which the sibling may be anything. -/
def Crash (d d' : Disk) : Prop := (∃ node ∈ d.lasting, Survives node d'.published) ∧ d'.lasting = [d'.published]

structure World where
  disk : Disk
  handle : Option SpentFile

inductive Event
  | openAt (lookupFails readFails : Bool)
  | consume (nonce : Bytes32) (faults : Faults)
  | dropped
  | crash

/-- One event, with the nonces whose consumption returned. -/
inductive Step : World → Event → List Bytes32 → World → Prop
  | opened {w : World} {lookupFails readFails : Bool} {file : SpentFile} (hw : w.handle = none)
      (h : SpentFile.openAt lookupFails readFails w.disk = .ok file) : Step w (.openAt lookupFails readFails) [] ⟨w.disk, some file⟩
  | refused {w : World} {lookupFails readFails : Bool} {error : SpentError} (hw : w.handle = none)
      (h : SpentFile.openAt lookupFails readFails w.disk = .error error) : Step w (.openAt lookupFails readFails) [] w
  | consumed {w : World} {nonce : Bytes32} {faults : Faults} {file file' : SpentFile} {d : Disk} (hw : w.handle = some file)
      (h : file.consume nonce faults w.disk = ((.ok (), d), file')) : Step w (.consume nonce faults) [nonce] ⟨d, some file'⟩
  | failed {w : World} {nonce : Bytes32} {faults : Faults} {file file' : SpentFile} {d : Disk} {error : SpentError}
      (hw : w.handle = some file) (h : file.consume nonce faults w.disk = ((.error (.failed error), d), file')) :
      Step w (.consume nonce faults) [] ⟨d, some file'⟩
  | cut {w : World} {nonce : Bytes32} {faults : Faults} {file file' : SpentFile} {d d' : Disk} (hw : w.handle = some file)
      (h : file.consume nonce faults w.disk = ((.error .crashed, d), file')) (hd : Crash d d') :
      Step w (.consume nonce faults) [] ⟨d', none⟩
  | dropped {w : World} {file : SpentFile} (hw : w.handle = some file) : Step w .dropped [] ⟨w.disk, none⟩
  | crash {w : World} {d' : Disk} (hd : Crash w.disk d') : Step w .crash [] ⟨d', none⟩

def Event.Sees (w : World) : Event → Prop
  | .openAt lookupFails _ => lookupFails = true → w.disk.published = none
  | _ => True

/-- The runs. -/
def Next (w : World) (notes : List Bytes32) (w' : World) : Prop := ∃ event, Step w event notes w'

/-- The runs in which no lookup of what the path names fails. -/
def Seeing (w : World) (notes : List Bytes32) (w' : World) : Prop := ∃ event, event.Sees w ∧ Step w event notes w'

/-- Nothing, or a set that opens. -/
structure World.Initial (w : World) : Prop where
  closed : w.handle = none
  lasting : w.disk.lasting = [w.disk.published]
  readable : w.disk.published = none ∨
    ∃ bytes spent, w.disk.published = some (.file ⟨bytes, true⟩) ∧ decode bytes = .ok spent

/-! ### What a publication leaves -/

def nonces : Option Node → Nonces
  | some (.file file) => match decode file.bytes with
    | .ok spent => spent
    | .error _ => ∅
  | _ => ∅

def Disk.nonces (d : Disk) : Nonces := Native.nonces d.published

/-- What a path names holds these nonces and opens, also after a crash. -/
def Holds (notes : List Bytes32) : Option Node → Prop
  | none => notes = []
  | some (.file file) => file.synced = true ∧ ∃ spent, decode file.bytes = .ok spent ∧ ∀ nonce ∈ notes, nonce ∈ spent
  | some (.foreign _) => False

/-- What `publish` puts in place. -/
def SpentFile.node (file : SpentFile) : Option Node := some (.file ⟨file.encode, true⟩)

section
variable {notes : List Bytes32} {node node' : Option Node} {d d' : Disk} {file file' : SpentFile} {faults : Faults}
  {nonce : Bytes32} {r : Except Stop Unit} {w w' : World} {event : Event} {n : List Bytes32}

theorem nonces_node (h : Canonical file.spent) : nonces file.node = file.spent := by
  simp only [nonces, SpentFile.node, SpentFile.encode, decode_encode h]

theorem holds_node (h : Canonical file.spent) (hn : ∀ nonce ∈ notes, nonce ∈ file.spent) : Holds notes file.node :=
  ⟨rfl, file.spent, decode_encode h, hn⟩

theorem Holds.mem (h : Holds notes node) (hn : nonce ∈ notes) : nonce ∈ nonces node := by
  unfold Holds at h
  split at h
  · rw [h] at hn
    cases hn
  · obtain ⟨-, spent, hspent, hall⟩ := h
    simp only [nonces, hspent]
    exact hall nonce hn
  · cases h

theorem Holds.canonical (h : Holds notes node) : Canonical (nonces node) := by
  unfold Holds at h
  split at h
  · exact canonical_empty
  · obtain ⟨-, spent, hspent, -⟩ := h
    simp only [nonces, hspent]
    exact canonical_of_decode hspent
  · cases h

theorem Holds.survives (h : Holds notes node) (hs : Survives node node') : node' = node := by
  cases hs with
  | missing => rfl
  | foreign => rfl
  | synced => rfl
  | torn _ hsynced =>
    have hkept := h.1
    rw [hsynced] at hkept
    cases hkept

theorem Holds.openAt (h : Holds notes d.published) : SpentFile.openAt false false d = .ok ⟨d.nonces⟩ := by
  unfold SpentFile.openAt Disk.symlinkMetadata Disk.nonces
  unfold Holds at h
  split at h
  · rename_i hp
    rw [hp]
    rfl
  · rename_i file hp
    obtain ⟨-, spent, hspent, -⟩ := h
    have hlen : ¬ file.bytes.length > 4 + 32 * spentCapacity := by
      intro hlong
      rw [decode, decodeEntries, if_pos] at hspent
      · cases hspent
      · rw [validEncodedLength, decide_eq_false (Nat.not_le.2 hlong), Bool.and_false]
        rfl
    simp [hp, hlen, Disk.read, nonces, hspent, Check.okOr, bind, Except.bind, pure, Except.pure]
  · cases h

theorem exec_perform_bind {α : Type} {outcome : Outcome} {whole : Disk → Disk} {part : Nat → Disk → Disk}
    {f : Unit → Fallible Stop Disk α} {r : Except Stop α} (h : exec (perform outcome whole part >>= f) d = (r, d')) :
    exec (f ()) (whole d) = (r, d') ∨ ∃ stop extent, r = .error stop ∧ d' = part extent d := by
  rw [exec_bind] at h
  cases outcome with
  | done => exact .inl h
  | failed extent =>
    cases h
    exact .inr ⟨_, extent, rfl, rfl⟩
  | crashed extent =>
    cases h
    exact .inr ⟨_, extent, rfl, rfl⟩

/-- The path names what it did, or the whole set. -/
inductive Replaces (file : SpentFile) (d : Disk) (r : Except Stop Unit) (d' : Disk) : Prop
  | kept (hr : r ≠ .ok ()) (hp : d'.published = d.published) (hl : d'.lasting = d.lasting)
  | replaced (hp : d'.published = file.node) (hm : file.node ∈ d'.lasting)
      (hl : ∀ node ∈ d'.lasting, node ∈ d.lasting ∨ node = file.node) (hr : r = .ok () → d'.lasting = [file.node])

theorem partly_cases (effect : Disk → Disk) (extent : Nat) (d : Disk) : partly effect extent d = d ∨ partly effect extent d = effect d := by
  unfold partly
  split
  · exact .inl rfl
  · exact .inr rfl

theorem error_ne_ok {stop : Stop} : (.error stop : Except Stop Unit) ≠ .ok () := by
  intro h
  cases h

theorem publish_spec (h : exec (file.publish faults) d = (r, d')) : Replaces file d r d' := by
  -- each operation either goes on or ends the publication with part of its effect
  rcases exec_perform_bind h with h | ⟨stop, extent, rfl, rfl⟩
  swap
  · rcases partly_cases Disk.create extent d with h | h <;> rw [h]
    · exact .kept error_ne_ok rfl rfl
    · exact .kept error_ne_ok rfl rfl
  rcases exec_perform_bind h with h | ⟨stop, extent, rfl, rfl⟩
  swap
  · exact .kept error_ne_ok rfl rfl
  rcases exec_perform_bind h with h | ⟨stop, extent, rfl, rfl⟩
  swap
  · rcases partly_cases Disk.syncAll extent (Disk.writeAll file.encode d.create) with h | h <;> rw [h]
    · exact .kept error_ne_ok rfl rfl
    · exact .kept error_ne_ok rfl rfl
  have hrename : (Disk.syncAll (Disk.writeAll file.encode d.create)).rename = ⟨file.node, d.lasting ++ [file.node], none⟩ := rfl
  have hmem : ∀ node ∈ d.lasting ++ [file.node], node ∈ d.lasting ∨ node = file.node := fun node hnode =>
    (List.mem_append.1 hnode).imp_right List.mem_singleton.1
  have hlast : file.node ∈ d.lasting ++ [file.node] := List.mem_append_right _ (List.mem_singleton.2 rfl)
  rcases exec_perform_bind h with h | ⟨stop, extent, rfl, rfl⟩
  swap
  · rcases partly_cases Disk.rename extent (Disk.syncAll (Disk.writeAll file.encode d.create)) with h | h
    · rw [h]
      exact .kept error_ne_ok rfl rfl
    · rw [h, hrename]
      exact .replaced rfl hlast hmem fun hr => absurd hr error_ne_ok
  rw [hrename] at h
  rcases exec_perform_bind h with h | ⟨stop, extent, rfl, rfl⟩
  swap
  · exact .replaced rfl hlast hmem fun hr => absurd hr error_ne_ok
  have hsynced : Disk.syncParent ⟨file.node, d.lasting ++ [file.node], none⟩ = ⟨file.node, [file.node], none⟩ := rfl
  have hone : ∀ node ∈ [file.node], node ∈ d.lasting ∨ node = file.node := fun node hnode => .inr (List.mem_singleton.1 hnode)
  unfold perform at h
  split at h
  · cases h
    exact .replaced rfl (List.mem_singleton.2 rfl) hone fun _ => rfl
  all_goals
    rename_i extent _
    cases h
    rcases partly_cases Disk.syncParent extent ⟨file.node, d.lasting ++ [file.node], none⟩ with h | h <;> rw [id, h]
    · exact .replaced rfl hlast hmem fun hr => absurd hr error_ne_ok
    · exact .replaced rfl (List.mem_singleton.2 rfl) hone fun hr => absurd hr error_ne_ok

structure Sound (notes : List Bytes32) (w : World) : Prop where
  lasting : ∀ node ∈ w.disk.lasting, Holds notes node
  current : w.disk.published ∈ w.disk.lasting
  handle : ∀ file, w.handle = some file → Canonical file.spent ∧ ∀ nonce ∈ w.disk.nonces, nonce ∈ file.spent
  once : notes.Nodup

theorem Sound.initial (h : w.Initial) : Sound [] w := by
  refine ⟨?_, ?_, ?_, List.nodup_nil⟩
  · intro node hnode
    rw [h.lasting, List.mem_singleton] at hnode
    rw [hnode]
    rcases h.readable with hp | ⟨bytes, spent, hp, hspent⟩ <;> rw [hp]
    · exact rfl
    · exact ⟨rfl, spent, hspent, fun _ hn => by cases hn⟩
  · rw [h.lasting]
    exact List.mem_singleton.2 rfl
  · intro file hfile
    rw [h.closed] at hfile
    cases hfile

theorem Sound.holds (h : Sound notes w) : Holds notes w.disk.published := h.lasting _ h.current

theorem Sound.canonical (h : Sound notes w) : Canonical w.disk.nonces := h.holds.canonical

theorem Sound.crash (h : ∀ node ∈ d.lasting, Holds notes node) (hnodup : notes.Nodup) (hd : Crash d d') : Sound notes ⟨d', none⟩ := by
  obtain ⟨⟨node, hnode, hs⟩, hl⟩ := hd
  have hsame := (h node hnode).survives hs
  refine ⟨fun node' hnode' => ?_, ?_, fun file hfile => (by cases hfile), hnodup⟩
  · rw [hl, List.mem_singleton] at hnode'
    rw [hnode', hsame]
    exact h node hnode
  · rw [hl]
    exact List.mem_singleton.2 rfl

theorem openAt_spec {lookupFails readFails : Bool} (h : SpentFile.openAt lookupFails readFails d = .ok file)
    (hsees : lookupFails = true → d.published = none) : file.spent = d.nonces ∧ Canonical file.spent := by
  unfold SpentFile.openAt Disk.symlinkMetadata at h
  split at h
  · rename_i hmissing
    cases h
    have hp : d.published = none := by
      cases lookupFails with
      | true => exact hsees rfl
      | false =>
        simp only [Bool.false_eq_true, if_false] at hmissing
        split at hmissing
        · assumption
        · cases hmissing
        · cases hmissing
    refine ⟨?_, canonical_empty⟩
    rw [Disk.nonces, hp]
    rfl
  · split at h
    · cases h
    · simp only [bind_eq_ok, okOr_eq_ok] at h
      obtain ⟨raw, hread, spent, hspent, hfile⟩ := h
      cases hfile
      refine ⟨?_, canonical_of_decode hspent⟩
      unfold Disk.read at hread
      split at hread
      · rename_i file hp
        cases readFails with
        | true => cases hread
        | false =>
          cases hread
          simp only [Disk.nonces, hp, nonces, hspent]
      · cases hread

/-- What `consume` does: it refuses, or it publishes the set with the nonce. -/
theorem consume_spec {file'} (h : file.consume nonce faults d = ((r, d'), file')) (hfile : Canonical file.spent) :
    (r ≠ .ok () ∧ d' = d ∧ file' = file) ∨
      (nonce ∉ file.spent ∧ file'.spent = file.spent.insert nonce ∧ Canonical file'.spent ∧ Replaces file' d r d') := by
  unfold SpentFile.consume at h
  split at h
  · cases h
    exact .inl ⟨error_ne_ok, rfl, rfl⟩
  · rename_i hnone
    obtain ⟨hpublish, rfl⟩ := Prod.mk.inj h
    unfold admissionError at hnone
    split at hnone
    · cases hnone
    rename_i hzero
    split at hnone
    · cases hnone
    rename_i hfresh
    split at hnone
    · cases hnone
    rename_i hroom
    refine .inr ⟨fun hmem => hfresh (Std.ExtTreeSet.mem_iff_contains.1 hmem), rfl, ⟨fun hmem => ?_, ?_⟩, publish_spec hpublish⟩
    · rw [Std.ExtTreeSet.mem_insert, Std.LawfulEqCmp.compare_eq_iff_eq] at hmem
      rcases hmem with rfl | hmem
      · exact hzero rfl
      · exact hfile.nonzero hmem
    · rw [Std.ExtTreeSet.size_insert]
      split
      · exact hfile.bounded
      · omega

def redeemed (nonce : Bytes32) : Except Stop Unit → List Bytes32
  | .ok _ => [nonce]
  | .error _ => []

theorem redeemed_of_ne (hr : r ≠ .ok ()) : redeemed nonce r = [] := by
  cases r with
  | ok => exact absurd rfl hr
  | error => rfl

theorem Sound.consume (h : Sound notes w) (hw : w.handle = some file)
    (hc : file.consume nonce faults w.disk = ((r, d'), file')) :
    (∀ node ∈ d'.lasting, Holds notes node) ∧ Sound (notes ++ redeemed nonce r) ⟨d', some file'⟩ ∧
      ∀ nonce ∈ w.disk.nonces, nonce ∈ d'.nonces := by
  obtain ⟨hfile, hknown⟩ := h.handle file hw
  have hnotes : ∀ nonce ∈ notes, nonce ∈ file.spent := fun nonce hn => hknown nonce (h.holds.mem hn)
  rcases consume_spec hc hfile with ⟨hr, rfl, rfl⟩ | ⟨hfresh, hspent, hcanonical, hreplaces⟩
  · rw [redeemed_of_ne hr, List.append_nil]
    refine ⟨h.lasting, ⟨h.lasting, h.current, fun file' hf => ?_, h.once⟩, fun _ hn => hn⟩
    cases hf
    exact ⟨hfile, hknown⟩
  · have hgrown : ∀ nonce ∈ file.spent, nonce ∈ file'.spent := fun nonce hn => by
      rw [hspent]
      exact Std.ExtTreeSet.mem_insert.2 (.inr hn)
    have hnode : Holds notes file'.node := holds_node hcanonical fun nonce hn => hgrown nonce (hnotes nonce hn)
    cases hreplaces with
    | kept hr hp hl =>
      have hsame : d'.nonces = w.disk.nonces := by rw [Disk.nonces, hp]; rfl
      rw [redeemed_of_ne hr, List.append_nil]
      refine ⟨hl ▸ h.lasting, ⟨hl ▸ h.lasting, ?_, fun file'' hf => ?_, h.once⟩, fun _ hn => hsame ▸ hn⟩
      · show d'.published ∈ d'.lasting
        rw [hp, hl]
        exact h.current
      · cases hf
        exact ⟨hcanonical, fun nonce hn => hgrown nonce (hknown nonce (hsame ▸ hn))⟩
    | replaced hp hm hl hr =>
      have hpublished : d'.nonces = file'.spent := by rw [Disk.nonces, hp, nonces_node hcanonical]
      have hlasting : ∀ node ∈ d'.lasting, Holds notes node := fun node hnode' => by
        rcases hl node hnode' with hold | rfl
        · exact h.lasting node hold
        · exact hnode
      refine ⟨hlasting, ⟨?_, ?_, fun file'' hf => ?_, ?_⟩, fun nonce hn => ?_⟩
      · show ∀ node ∈ d'.lasting, Holds _ node
        cases r with
        | ok =>
          rw [hr rfl]
          intro node hnode'
          rw [List.mem_singleton.1 hnode']
          refine holds_node hcanonical fun nonce' hn => ?_
          rcases List.mem_append.1 hn with hn | hn
          · exact hgrown nonce' (hnotes nonce' hn)
          · rw [List.mem_singleton.1 hn, hspent]
            exact Std.ExtTreeSet.mem_insert_self
        | error => simpa only [redeemed, List.append_nil] using hlasting
      · show d'.published ∈ d'.lasting
        rw [hp]
        exact hm
      · cases hf
        exact ⟨hcanonical, fun nonce hn => hpublished ▸ hn⟩
      · cases r with
        | ok =>
          refine List.nodup_append.2 ⟨h.once, List.nodup_singleton _, fun a ha b hb hab => ?_⟩
          rw [List.mem_singleton.1 hb] at hab
          exact hfresh (hab ▸ hnotes a ha)
        | error => simpa only [redeemed, List.append_nil] using h.once
      · rw [hpublished]
        exact hgrown nonce (hknown nonce hn)

theorem Sound.step (h : Sound notes w) (hsees : event.Sees w) (hs : Step w event n w') : Sound (notes ++ n) w' := by
  cases hs with
  | opened hw ho =>
    rw [List.append_nil]
    obtain ⟨hspent, hcanonical⟩ := openAt_spec ho hsees
    refine ⟨h.lasting, h.current, fun file' hf => ?_, h.once⟩
    cases hf
    exact ⟨hcanonical, fun nonce hn => hspent ▸ hn⟩
  | refused => rwa [List.append_nil]
  | consumed hw hc => exact (h.consume hw hc).2.1
  | failed hw hc => exact (h.consume hw hc).2.1
  | cut hw hc hd =>
    rw [List.append_nil]
    exact .crash (h.consume hw hc).1 h.once hd
  | dropped hw =>
    rw [List.append_nil]
    exact ⟨h.lasting, h.current, fun file hf => (by cases hf), h.once⟩
  | crash hd =>
    rw [List.append_nil]
    exact .crash h.lasting h.once hd

end

/-! ### The results -/

/-- Redeemed nonces stay redeemed. -/
structure Spends (notes : List Bytes32) (w : World) : Prop where
  once : notes.Nodup
  bounded : w.disk.nonces.size ≤ spentCapacity
  /-- What is there now opens, and so does what a crash leaves. -/
  opens : ∀ d, d = w.disk ∨ Crash w.disk d →
    ∃ file, SpentFile.openAt false false d = .ok file ∧ ∀ nonce ∈ notes, nonce ∈ d.nonces ∧ nonce ∈ file.spent
  /-- Also a consumption that fails or is cut removes nothing. -/
  keeps : ∀ file nonce faults, w.handle = some file → ∀ other ∈ w.disk.nonces, other ∈ (file.consume nonce faults w.disk).1.2.nonces

theorem seeing_spends {w w' : World} {notes : List Bytes32} (hw : w.Initial) (h : Steps Seeing w notes w') : Spends notes w' := by
  have hsound : Sound notes w' := h.recorded (Sound.initial hw) fun notes w n w' hs ⟨event, hsees, hstep⟩ => hs.step hsees hstep
  refine ⟨hsound.once, hsound.canonical.bounded, fun d hd => ?_, fun file nonce faults hf => (hsound.consume hf rfl).2.2⟩
  have hholds : Holds notes d.published := by
    rcases hd with rfl | hd
    · exact hsound.holds
    · exact (Sound.crash hsound.lasting hsound.once hd).holds
  exact ⟨_, hholds.openAt, fun nonce hn => ⟨hholds.mem hn, hholds.mem hn⟩⟩

/-! ### Two redemptions -/

/-- Nothing fails. -/
def Faults.none : Faults := ⟨.done, .done, .done, .done, .done, .done⟩

theorem consume_done {file : SpentFile} {nonce : Bytes32} {d : Disk} (hzero : nonce ≠ zero) (hfresh : nonce ∉ file.spent)
    (hroom : file.spent.size < spentCapacity) :
    file.consume nonce .none d =
      ((.ok (), ⟨SpentFile.node ⟨file.spent.insert nonce⟩, [SpentFile.node ⟨file.spent.insert nonce⟩], .none⟩),
        ⟨file.spent.insert nonce⟩) := by
  have hadmits : admissionError nonce (file.spent.contains nonce) file.spent.size = .none := by
    rw [admissionError, if_neg hzero, if_neg (fun h => hfresh (Std.ExtTreeSet.mem_iff_contains.2 h)), if_neg (Nat.not_le.2 hroom)]
  rw [SpentFile.consume, hadmits]
  rfl

def sampleNonce : Bytes32 := Vector.replicate 32 1

def otherNonce : Bytes32 := Vector.replicate 32 2

/-- A path that names nothing. -/
def emptyWorld : World := ⟨⟨none, [none], none⟩, none⟩

def publishedWorld (spent : Nonces) (handle : Option SpentFile) : World :=
  ⟨⟨SpentFile.node ⟨spent⟩, [SpentFile.node ⟨spent⟩], none⟩, handle⟩

theorem emptyWorld_initial : emptyWorld.Initial := ⟨rfl, rfl, .inl rfl⟩

theorem sampleNonce_ne : sampleNonce ≠ zero := by decide

theorem otherNonce_ne : otherNonce ≠ zero := by decide

theorem otherNonce_fresh : otherNonce ∉ (∅ : Nonces).insert sampleNonce := by
  rw [Std.ExtTreeSet.mem_insert, Std.LawfulEqCmp.compare_eq_iff_eq]
  rintro (h | h)
  · exact absurd h (by decide)
  · exact Std.ExtTreeSet.not_mem_empty h

theorem consume_step {file : SpentFile} {nonce : Bytes32} {d : Disk} (hzero : nonce ≠ zero) (hfresh : nonce ∉ file.spent)
    (hroom : file.spent.size < spentCapacity) : Step ⟨d, some file⟩ (.consume nonce .none) [nonce]
      (publishedWorld (file.spent.insert nonce) (some ⟨file.spent.insert nonce⟩)) :=
  .consumed rfl (consume_done hzero hfresh hroom)

theorem size_empty_lt : (∅ : Nonces).size < spentCapacity := by
  rw [Std.ExtTreeSet.size_empty]
  decide

theorem sample_seeing : Steps Seeing emptyWorld [sampleNonce]
    (publishedWorld ((∅ : Nonces).insert sampleNonce) (some ⟨(∅ : Nonces).insert sampleNonce⟩)) := by
  have hopen : Seeing emptyWorld [] ⟨emptyWorld.disk, some ⟨∅⟩⟩ := ⟨.openAt false false, (fun h => by cases h), .opened rfl rfl⟩
  have hconsume : Seeing ⟨emptyWorld.disk, some ⟨∅⟩⟩ [sampleNonce] _ :=
    ⟨.consume sampleNonce .none, trivial, consume_step sampleNonce_ne Std.ExtTreeSet.not_mem_empty size_empty_lt⟩
  exact (Steps.single hopen).tail hconsume

theorem sample_seeing_spends : Spends [sampleNonce]
    (publishedWorld ((∅ : Nonces).insert sampleNonce) (some ⟨(∅ : Nonces).insert sampleNonce⟩)) :=
  seeing_spends emptyWorld_initial sample_seeing

theorem sample_revived : Steps Next emptyWorld [sampleNonce, otherNonce, sampleNonce]
    (publishedWorld ((∅ : Nonces).insert sampleNonce) (some ⟨(∅ : Nonces).insert sampleNonce⟩)) := by
  have hone : ((∅ : Nonces).insert sampleNonce).size < spentCapacity := by
    rw [Std.ExtTreeSet.size_insert]
    split
    · exact size_empty_lt
    · rw [Std.ExtTreeSet.size_empty]
      decide
  have hopen : Next emptyWorld [] ⟨emptyWorld.disk, some ⟨∅⟩⟩ := ⟨.openAt false false, .opened rfl rfl⟩
  have hfirst : Next ⟨emptyWorld.disk, some ⟨∅⟩⟩ [sampleNonce] _ :=
    ⟨_, consume_step sampleNonce_ne Std.ExtTreeSet.not_mem_empty size_empty_lt⟩
  have hsecond : Next (publishedWorld ((∅ : Nonces).insert sampleNonce) (some ⟨(∅ : Nonces).insert sampleNonce⟩)) [otherNonce]
      (publishedWorld (((∅ : Nonces).insert sampleNonce).insert otherNonce) (some ⟨((∅ : Nonces).insert sampleNonce).insert otherNonce⟩)) :=
    ⟨_, consume_step otherNonce_ne otherNonce_fresh hone⟩
  have hdropped : Next (publishedWorld (((∅ : Nonces).insert sampleNonce).insert otherNonce)
      (some ⟨((∅ : Nonces).insert sampleNonce).insert otherNonce⟩)) []
      (publishedWorld (((∅ : Nonces).insert sampleNonce).insert otherNonce) none) :=
    ⟨_, .dropped rfl⟩
  -- the lookup fails
  have hempty : Next (publishedWorld (((∅ : Nonces).insert sampleNonce).insert otherNonce) none) []
      (publishedWorld (((∅ : Nonces).insert sampleNonce).insert otherNonce) (some ⟨∅⟩)) :=
    ⟨.openAt true false, .opened rfl rfl⟩
  have hagain : Next (publishedWorld (((∅ : Nonces).insert sampleNonce).insert otherNonce) (some ⟨∅⟩)) [sampleNonce]
      (publishedWorld ((∅ : Nonces).insert sampleNonce) (some ⟨(∅ : Nonces).insert sampleNonce⟩)) :=
    ⟨_, consume_step sampleNonce_ne Std.ExtTreeSet.not_mem_empty size_empty_lt⟩
  exact (((((Steps.single hopen).tail hfirst).tail hsecond).tail hdropped).tail hempty).tail hagain

theorem revived : ¬ ∀ (w w' : World) (notes : List Bytes32), w.Initial → Steps Next w notes w' → Spends notes w' := by
  intro h
  have honce := (h _ _ _ emptyWorld_initial sample_revived).once
  exact absurd honce (by decide)

end Valhalla.Native
