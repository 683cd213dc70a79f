import Mathlib.Data.List.Perm.Subperm
import Valhalla.EventLedger.History
import Valhalla.Lib.Wire

/-!
# Ledger snapshots

`restore` replays the events of a snapshot and checks the sections that follow from them. As a codec it reads
back exactly what `snapshot` writes (`codec_restoreFrom`); the main result collects what holds of every ledger
that appends, checkpoints and restores lead to.
-/

namespace Valhalla.EventLedger
open Fallible FixedWidth Check

def snapshotDomain : List UInt8 := "vhalla/ledger/snapshot/v1".toUTF8.toList
def snapshotVersion : UInt8 := 1
def maxSnapshotBytes : Nat := 16 * 1024 * 1024

/-! ### Writing -/

def putEvent (event : Event) : List UInt8 :=
  event.id.toList ++ (putDigest event.parent ++ (toBe event.realm.value ++ (toBe event.epoch ++ (toBe event.actor.value ++
    (toBe event.sequence ++ (toBe (UInt32.ofNat event.payload.length) ++ event.payload))))))

def putCheckpoint (checkpoint : Checkpoint) : List UInt8 :=
  toBe checkpoint.realm.value ++ (toBe checkpoint.epoch ++ (checkpoint.head.toList ++ (checkpoint.stateRoot.toList ++
    toBe checkpoint.height)))

def putOption {α : Type} (put : α → List UInt8) : Option α → List UInt8
  | some a => 1 :: put a
  | none => [0]

def putSequence (entry : PeerId × UInt64) : List UInt8 := toBe entry.1.value ++ toBe entry.2

def putSequences (sequences : Std.ExtTreeMap PeerId UInt64 compare) : List UInt8 :=
  toBe (UInt32.ofNat sequences.size) ++ sequences.toList.flatMap putSequence

namespace Ledger
variable (l : Ledger)

def history : List Event := (l.head.bind fun head => (l.chain head).toOption).getD []

def putHistory : List UInt8 := toBe (UInt32.ofNat l.history.length) ++ l.history.flatMap putEvent

def putDerived : List UInt8 :=
  putDigest l.head ++ (putOption putCheckpoint l.checkpoint ++ putSequences l.lastSequences)

def snapshot : List UInt8 :=
  (snapshotDomain ++ [snapshotVersion]) ++ (toBe l.realm.value ++ (toBe l.epoch ++ (l.putHistory ++ l.putDerived)))

end Ledger

/-! ### Reading -/

abbrev GetM := Reader Error

def getArray (n : Nat) : GetM (Vector UInt8 n) := Reader.array .truncatedSnapshot n

section
variable {α : Type}

def getInt [FixedWidth α] : GetM α := Reader.int .truncatedSnapshot

def getOption (get : GetM α) : GetM (Option α) := do
  match ← (getInt : GetM UInt8) with
  | 0 => pure none
  | 1 => do
    let a ← get
    pure (some a)
  | _ => throw .invalidSnapshotBounds

end

def getHeader : GetM Unit := do
  let domain ← Reader.take .truncatedSnapshot snapshotDomain.length
  if domain ≠ snapshotDomain then throw .invalidSnapshotHeader
  else do
    let version ← (getInt : GetM UInt8)
    if version ≠ snapshotVersion then throw .invalidSnapshotHeader else pure ()

def getRealm : GetM RealmId := do
  let value ← getInt
  pure ⟨value⟩

def getPeer : GetM PeerId := do
  let value ← getInt
  pure ⟨value⟩

def getCount (limit : Nat) : GetM Nat := do
  let n ← (getInt : GetM UInt32)
  if n.toNat > limit then throw .invalidSnapshotBounds else pure n.toNat

def getPayload : GetM (List UInt8) := do
  let n ← getCount maxPayload
  Reader.take .truncatedSnapshot n

def getEvent : GetM Event := do
  let id ← getArray 32
  let parent ← getOption (getArray 32)
  let realm ← getRealm
  let epoch ← getInt
  let actor ← getPeer
  let sequence ← getInt
  let payload ← getPayload
  pure ⟨id, parent, realm, epoch, actor, sequence, payload⟩

def getCheckpoint : GetM Checkpoint := do
  let realm ← getRealm
  let epoch ← getInt
  let head ← getArray 32
  let stateRoot ← getArray 32
  let height ← getInt
  pure ⟨realm, epoch, head, stateRoot, height⟩

def getSequences : Nat → Option PeerId → Std.ExtTreeMap PeerId UInt64 compare → GetM (Std.ExtTreeMap PeerId UInt64 compare)
  | 0, _, sequences => pure sequences
  | n + 1, previous, sequences => do
    let actor ← getPeer
    let sequence ← getInt
    if previous.any fun p => compare p actor != .lt then throw .nonCanonicalSnapshot
    else if sequences[actor]?.isSome then throw .snapshotSequenceMismatch
    else getSequences n (some actor) (sequences.insert actor sequence)

section
variable (crypto : Crypto)

def appended (l : Ledger) (event : Event) : Except Error Ledger := do
  l.checkAppend crypto event
  pure (l.extend event)

def replay : Nat → Ledger → GetM Ledger
  | 0, l => pure l
  | n + 1, l => do
    let event ← getEvent
    let l ← Reader.lift (appended crypto l event)
    replay n l

def withCheckpoint (checkpoint : Option Checkpoint) (l : Ledger) : Except Error Ledger :=
  match checkpoint with
  | some checkpoint => do
    l.validateRetainedCheckpoint crypto checkpoint
    pure (l.setCheckpoint checkpoint)
  | none => pure l

def getDerived (count : Nat) (l : Ledger) : GetM Ledger := do
  let head ← getOption (getArray 32)
  if head ≠ l.head then throw .unknownHead
  else do
    let checkpoint ← getOption getCheckpoint
    let l ← Reader.lift (withCheckpoint crypto checkpoint l)
    let n ← getCount (min count maxEventCount)
    let sequences ← getSequences n none ∅
    if sequences.toList ≠ l.lastSequences.toList then throw .snapshotSequenceMismatch else pure l

def restoreFrom (maxEvents : Nat) : GetM Ledger := do
  getHeader
  let realm ← getRealm
  let epoch ← getInt
  let count ← getCount (min maxEvents maxEventCount)
  let l ← replay crypto count (Ledger.new realm epoch maxEvents)
  getDerived crypto count l

def restore (raw : List UInt8) (maxEvents : Nat) : Except Error Ledger :=
  Reader.decode (fun _ _ => .snapshotTooLarge) (fun _ => .trailingSnapshot) maxSnapshotBytes (restoreFrom crypto maxEvents) raw

end

/-! ### Codecs of the fields -/

section
variable {α : Type}

theorem codec_int [FixedWidth α] : Codec (getInt : GetM α) toBe fun _ => True := .int _

theorem codec_array {n : Nat} : Codec (getArray n) Vector.toList fun _ => True := .array _ n

theorem codec_option {get : GetM α} {put : α → List UInt8} {ok : α → Prop} (h : Codec get put ok) :
    Codec (getOption get) (putOption put) fun o => ∀ a, o = some a → ok a := by
  refine .tagged (fun o => by cases o <;> exact ⟨_, _, rfl⟩) fun t => ?_
  split
  · exact .constant (by rintro (_ | _) <;> simp [putOption]) rfl
  · exact h.map (by rintro (_ | _) <;> simp [putOption]) fun _ => rfl
  · exact .none (fun _ => ⟨_, rfl⟩) fun r => by cases r <;> simp_all [putOption, eq_comm]

theorem putDigest_eq (digest : Option EventDigest) : putDigest digest = putOption Vector.toList digest := by
  cases digest <;> rfl

theorem codec_digest : Codec (getOption (getArray 32)) putDigest fun _ => True :=
  (codec_option codec_array).congr (fun _ => by simp) fun digest _ => putDigest_eq digest

end

theorem codec_header : Codec getHeader (fun _ => snapshotDomain ++ [snapshotVersion]) fun _ => True := by
  refine ⟨fun bytes u rest => ?_⟩
  simp only [getHeader, exec_bind_eq_ok, (Codec.take _ _).iff, id]
  constructor
  · rintro ⟨found, mid, ⟨rfl, -⟩, h⟩
    split at h
    · cases h
    · rename_i hdomain
      obtain ⟨version, mid', hversion, hrest⟩ := exec_bind_eq_ok.1 h
      obtain ⟨rfl, -⟩ := (codec_int.iff _ _ _).1 hversion
      split at hrest
      · cases hrest
      · rename_i hv
        cases hrest
        rw [Decidable.not_not.1 hdomain, Decidable.not_not.1 hv]
        exact ⟨by rw [List.append_assoc]; rfl, trivial⟩
  · rintro ⟨rfl, -⟩
    refine ⟨snapshotDomain, [snapshotVersion] ++ rest, ⟨by rw [List.append_assoc], rfl⟩, ?_⟩
    rw [if_neg (by simp), exec_bind_eq_ok]
    exact ⟨snapshotVersion, rest, (codec_int.iff _ _ _).2 ⟨rfl, trivial⟩, by rw [if_neg (by simp)]; rfl⟩

theorem codec_realm : Codec getRealm (fun realm => toBe realm.value) fun _ => True :=
  codec_int.lastField RealmId.value fun _ => .pure _ fun realm => by cases realm; simp

theorem codec_peer : Codec getPeer (fun peer => toBe peer.value) fun _ => True :=
  codec_int.lastField PeerId.value fun _ => .pure _ fun peer => by cases peer; simp

theorem codec_count {limit : Nat} (h : limit ≤ maxEventCount) :
    Codec (getCount limit) (fun n => toBe (UInt32.ofNat n)) (· ≤ limit) :=
  .limited (Nat.lt_of_le_of_lt h (by decide))

theorem codec_payload :
    Codec getPayload (fun payload => toBe (UInt32.ofNat payload.length) ++ payload) (·.length ≤ maxPayload) := by
  refine (codec_count (by decide)).bind List.length (fun _ h => h) fun n hn => (Codec.take _ n).congr (fun payload => ?_)
    fun _ _ => rfl
  exact ⟨fun h => h.2, fun h => ⟨h ▸ hn, h⟩⟩

theorem codec_event : Codec getEvent putEvent fun event => event.payload.length ≤ maxPayload := by
  refine codec_array.field Event.id fun _ => codec_digest.field Event.parent
    fun _ => codec_realm.field Event.realm fun _ => codec_int.field Event.epoch
    fun _ => codec_peer.field Event.actor fun _ =>
    codec_int.field Event.sequence fun _ =>
    codec_payload.last Event.payload (fun _ h => h.1.1.1.1.1.1) fun payload hpayload => .pure _ fun event => ?_
  obtain ⟨_, _, _, _, _, _, _⟩ := event
  constructor
  · rintro ⟨⟨⟨⟨⟨⟨⟨-, rfl⟩, rfl⟩, rfl⟩, rfl⟩, rfl⟩, rfl⟩, rfl⟩
    rfl
  · rintro ⟨⟩
    exact ⟨⟨⟨⟨⟨⟨⟨hpayload, rfl⟩, rfl⟩, rfl⟩, rfl⟩, rfl⟩, rfl⟩, rfl⟩

theorem codec_checkpoint : Codec getCheckpoint putCheckpoint fun _ => True :=
  codec_realm.field Checkpoint.realm fun _ => codec_int.field Checkpoint.epoch
    fun _ => codec_array.field Checkpoint.head fun _ =>
    codec_array.field Checkpoint.stateRoot fun _ =>
    codec_int.lastField Checkpoint.height fun _ => .pure _ fun checkpoint => by
      cases checkpoint
      simp [and_assoc]

/-! ### Sequences -/

/-- The keys read so far are not above the last one. -/
def Below (sequences : Std.ExtTreeMap PeerId UInt64 compare) (previous : Option PeerId) : Prop :=
  ∀ actor, sequences[actor]?.isSome → ∃ p, previous = some p ∧ (compare actor p).isLE

theorem exec_getSequences {n : Nat} {previous : Option PeerId} {sequences result : Std.ExtTreeMap PeerId UInt64 compare}
    {bytes rest : List UInt8} (hbelow : Below sequences previous) :
    exec (getSequences n previous sequences) bytes = (.ok result, rest) ↔ ∃ entries : List (PeerId × UInt64),
      entries.length = n ∧ bytes = entries.flatMap putSequence ++ rest ∧
      (∀ p, previous = some p → ∀ e ∈ entries, compare p e.1 = .lt) ∧
      entries.Pairwise (fun a b => compare a.1 b.1 = .lt) ∧ result = Maps.insertAll Prod.fst Prod.snd sequences entries := by
  induction n generalizing previous sequences bytes with
  | zero =>
    simp only [getSequences, exec_pure, Prod.mk.injEq, Except.ok.injEq]
    constructor
    · rintro ⟨rfl, rfl⟩
      exact ⟨[], rfl, rfl, by simp, .nil, rfl⟩
    · rintro ⟨entries, hlen, rfl, -, -, rfl⟩
      obtain rfl := List.eq_nil_of_length_eq_zero hlen
      exact ⟨rfl, rfl⟩
  | succ n ih =>
    have hnext : ∀ actor sequence, (∀ p, previous = some p → compare p actor = .lt) →
        Below (sequences.insert actor sequence) (some actor) := by
      intro actor sequence hp a ha
      refine ⟨actor, rfl, ?_⟩
      rw [Maps.getElem?_insert] at ha
      by_cases hk : actor = a
      · subst hk
        exact Std.ReflCmp.isLE_rfl
      · rw [if_neg hk] at ha
        obtain ⟨p, hprev, hle⟩ := hbelow a ha
        exact Std.TransCmp.isLE_trans hle (by rw [hp p hprev]; rfl)
    have hfresh : ∀ actor, (∀ p, previous = some p → compare p actor = .lt) → sequences[actor]? = none := by
      intro actor hp
      rcases hs : sequences[actor]? with _ | s
      · rfl
      · obtain ⟨p, hprev, hle⟩ := hbelow actor (by rw [hs]; rfl)
        have hgt : compare actor p = .gt := Std.OrientedCmp.gt_of_lt (hp p hprev)
        rw [hgt] at hle
        cases hle
    have hany : ∀ actor, (previous.any fun p => compare p actor != .lt) = false ↔
        ∀ p, previous = some p → compare p actor = .lt := by
      intro actor
      cases previous <;> simp
    simp only [getSequences, exec_bind_eq_ok, codec_peer.iff, codec_int.iff]
    constructor
    · rintro ⟨actor, mid, ⟨rfl, -⟩, sequence, mid', ⟨rfl, -⟩, h⟩
      split at h
      · cases h
      · rename_i hprev
        rw [Bool.not_eq_true, hany] at hprev
        split at h
        · cases h
        · obtain ⟨entries, rfl, rfl, hafter, hasc, rfl⟩ := (ih (hnext actor sequence hprev)).1 h
          have hafter' := hafter actor rfl
          refine ⟨(actor, sequence) :: entries, rfl, by simp [putSequence], fun p hp e he => ?_,
            List.pairwise_cons.2 ⟨hafter', hasc⟩, rfl⟩
          rcases List.mem_cons.1 he with rfl | he
          · exact hprev p hp
          · exact Std.TransCmp.lt_trans (hprev p hp) (hafter' e he)
    · rintro ⟨entries, hlen, rfl, hafter, hasc, rfl⟩
      cases entries with
      | nil => cases hlen
      | cons e entries =>
        obtain ⟨actor, sequence⟩ := e
        have hprev : ∀ p, previous = some p → compare p actor = .lt := fun p hp => hafter p hp (actor, sequence) (by simp)
        refine ⟨actor, _, ⟨by simp [putSequence]; rfl, trivial⟩, sequence, _, ⟨rfl, trivial⟩, ?_⟩
        rw [if_neg (by rw [Bool.not_eq_true, hany]; exact hprev), hfresh actor hprev]
        refine (ih (hnext actor sequence hprev)).2 ⟨entries, Nat.succ.inj hlen, rfl, ?_, (List.pairwise_cons.1 hasc).2, rfl⟩
        intro p hp e he
        cases hp
        exact (List.pairwise_cons.1 hasc).1 e he

theorem codec_sequences {n : Nat} :
    Codec (getSequences n none ∅) (fun sequences => sequences.toList.flatMap putSequence) (·.size = n) := by
  refine ⟨fun bytes sequences rest => ?_⟩
  rw [exec_getSequences fun _ h => by simp at h]
  constructor
  · rintro ⟨entries, rfl, rfl, -, hasc, rfl⟩
    have hlist : (Maps.insertAll Prod.fst Prod.snd ∅ entries : Std.ExtTreeMap PeerId UInt64 compare).toList = entries :=
      Maps.toList_ofEntries hasc
    refine ⟨by rw [hlist], ?_⟩
    rw [← Std.ExtTreeMap.length_toList, hlist]
  · rintro ⟨rfl, rfl⟩
    refine ⟨sequences.toList, Std.ExtTreeMap.length_toList, rfl, fun _ h => (nomatch h),
      Std.ExtTreeMap.ordered_keys_toList, Maps.ofEntries_toList.symm⟩

/-! ### Replaying events -/

variable {crypto : Crypto} {l l₀ l' : Ledger} {es : List Event}

theorem appended_eq_ok {event : Event} : appended crypto l event = .ok l' ↔ Extends crypto l event ∧ l' = l.extend event := by
  rw [appended, bind_eq_ok, ← checkAppend_eq_ok]
  constructor
  · rintro ⟨⟨⟩, hcheck, h⟩
    cases h
    exact ⟨hcheck, rfl⟩
  · rintro ⟨hcheck, rfl⟩
    exact ⟨(), hcheck, rfl⟩

theorem exec_replay {n : Nat} {bytes rest : List UInt8} :
    exec (replay crypto n l) bytes = (.ok l', rest) ↔ ∃ es : List Event,
      es.length = n ∧ bytes = es.flatMap putEvent ++ rest ∧ es.foldlM (appended crypto) l = .ok l' := by
  induction n generalizing l bytes with
  | zero =>
    simp only [replay, exec_pure, Prod.mk.injEq, Except.ok.injEq]
    constructor
    · rintro ⟨rfl, rfl⟩
      exact ⟨[], rfl, rfl, rfl⟩
    · rintro ⟨es, hlen, rfl, hfold⟩
      obtain rfl := List.eq_nil_of_length_eq_zero hlen
      cases hfold
      exact ⟨rfl, rfl⟩
  | succ n ih =>
    simp only [replay, exec_bind_eq_ok, codec_event.iff, Reader.lift, exec_of, Prod.mk.injEq, ih]
    constructor
    · rintro ⟨event, mid, ⟨rfl, -⟩, l₁, mid', ⟨happ, rfl⟩, es, rfl, rfl, hfold⟩
      exact ⟨event :: es, rfl, by simp, by rw [List.foldlM_cons, bind_eq_ok]; exact ⟨l₁, happ, hfold⟩⟩
    · rintro ⟨es, hlen, rfl, hfold⟩
      cases es with
      | nil => cases hlen
      | cons event es =>
        rw [List.foldlM_cons, bind_eq_ok] at hfold
        obtain ⟨l₁, happ, hfold⟩ := hfold
        refine ⟨event, es.flatMap putEvent ++ rest, ⟨by simp, (appended_eq_ok.1 happ).1.payload⟩, l₁, _, ⟨happ, rfl⟩, es,
          Nat.succ.inj hlen, rfl, hfold⟩

theorem Retained.replayed {before : List Event} (h : Retained crypto l before) (hfold : es.foldlM (appended crypto) l = .ok l') :
    Retained crypto l' (before ++ es) ∧ l'.realm = l.realm ∧ l'.epoch = l.epoch ∧ l'.maxEvents = l.maxEvents ∧
      l'.checkpoint = l.checkpoint := by
  induction es generalizing l before with
  | nil =>
    cases hfold
    exact ⟨by rwa [List.append_nil], rfl, rfl, rfl, rfl⟩
  | cons event es ih =>
    rw [List.foldlM_cons, bind_eq_ok] at hfold
    obtain ⟨l₁, happ, hfold⟩ := hfold
    obtain ⟨hext, rfl⟩ := appended_eq_ok.1 happ
    have hrest := ih (h.extend hext) hfold
    rwa [List.append_assoc] at hrest

theorem Retained.ext (h : Retained crypto l es) (h' : Retained crypto l' es) (hr : l.realm = l'.realm)
    (he : l.epoch = l'.epoch) (hm : l.maxEvents = l'.maxEvents) (hc : l.checkpoint = l'.checkpoint) : l = l' := by
  have hevents : l.events = l'.events := Std.ExtTreeMap.ext_getElem? fun {id} => Option.ext fun event => by
    rw [h.events, h'.events]
  have hseq : l.lastSequences = l'.lastSequences := Std.ExtTreeMap.ext_getElem? fun {actor} => by
    rw [h.lastSequences, h'.lastSequences]
  have hhead : l.head = l'.head := by
    cases es using List.reverseRecOn with
    | nil => exact h.linked.symm.trans h'.linked
    | append_singleton es event => rw [(linked_snoc.1 h.linked).2, (linked_snoc.1 h'.linked).2]
  cases l
  cases l'
  simp only at *
  subst hr he hm hc hevents hseq hhead
  rfl

theorem Retained.replays (h : Retained crypto l es) {m : Nat} (hm : es.length ≤ min m maxEventCount) :
    ∀ before after, es = before ++ after →
      ∃ l₁, before.foldlM (appended crypto) (Ledger.new l.realm l.epoch m) = .ok l₁ ∧ Retained crypto l₁ before ∧
        l₁.realm = l.realm ∧ l₁.epoch = l.epoch ∧ l₁.maxEvents = min m maxEventCount ∧ l₁.checkpoint = none := by
  intro before
  induction before using List.reverseRecOn with
  | nil => exact fun _ _ => ⟨_, rfl, retained_new, rfl, rfl, rfl, rfl⟩
  | append_singleton before event ih =>
    intro after hes
    have hes' : es = before ++ ([event] ++ after) := by rw [hes, List.append_assoc]
    obtain ⟨l₁, hfold, hret, hr, he, hmax, hcp⟩ := ih _ hes'
    have hmem : event ∈ es := by simp [hes]
    have hlinked := h.linked
    rw [hes, linked_append] at hlinked
    obtain ⟨mid, hbefore, -⟩ := hlinked
    have hnodup := h.nodup
    rw [hes', List.map_append, List.nodup_append] at hnodup
    have hinc := h.increasing
    rw [hes', List.pairwise_append] at hinc
    have hext : Extends crypto l₁ event := by
      refine ⟨h.payload event hmem, hr ▸ (h.context event hmem).1, he ▸ (h.context event hmem).2, h.address event hmem, ?_, ?_,
        ?_, ?_⟩
      · rcases hget : l₁.events[event.id]? with _ | e
        · rfl
        · obtain ⟨hmem', hid⟩ := (hret.events _ _).1 hget
          exact absurd hid (hnodup.2.2 _ (List.mem_map_of_mem hmem') _ (by simp))
      · intro last hlast
        rw [hret.lastSequences, lastOf, Option.map_eq_some_iff] at hlast
        obtain ⟨e, hlast, rfl⟩ := hlast
        have hmem' := List.mem_filter.1 (List.mem_of_getLast? hlast)
        exact hinc.2.2 e hmem'.1 event (by simp) (by simpa using hmem'.2)
      · cases before using List.reverseRecOn with
        | nil => exact (linked_snoc.1 hbefore).1.symm.trans hret.linked
        | append_singleton before e =>
          rw [(linked_snoc.1 hret.linked).2, (linked_snoc.1 (linked_snoc.1 hbefore).1).2]
      · rw [hret.eventCount, hmax]
        rw [hes, List.length_append, List.length_append, List.length_singleton] at hm
        omega
    refine ⟨l₁.extend event, ?_, hret.extend hext, hr, he, hmax, hcp⟩
    rw [List.foldlM_append, bind_eq_ok]
    exact ⟨l₁, hfold, by rw [List.foldlM_cons, bind_eq_ok]; exact ⟨_, appended_eq_ok.2 ⟨hext, rfl⟩, rfl⟩⟩

/-! ### Whole snapshots -/

theorem Retained.history_eq (h : Retained crypto l es) : l.history = es := h.chain_head

theorem walk_congr (h : l.events = l'.events) (n : Nat) (last : Option EventDigest) (chain : List Event) :
    l.walk n last chain = l'.walk n last chain := by
  induction n generalizing last chain with
  | zero => cases last <;> rfl
  | succ n ih =>
    cases last with
    | none => rfl
    | some id => simp only [Ledger.walk, h, ih]

theorem history_congr (h : l.events = l'.events) (hhead : l.head = l'.head) : l.history = l'.history := by
  have hchain : ∀ head, l.chain head = l'.chain head := fun head => by
    rw [Ledger.chain, Ledger.chain, walk_congr h, Ledger.eventCount, h]
    rfl
  simp only [Ledger.history, hhead, hchain]

def Ledger.withoutCheckpoint (l : Ledger) : Ledger := { l with checkpoint := none }

/-- What `restore` accepts: the events of the ledger, appended to a fresh one, and a checkpoint that names one of them. -/
structure Restores (crypto : Crypto) (m : Nat) (l : Ledger) : Prop where
  events : ∃ es : List Event, es.length ≤ min m maxEventCount ∧
    es.foldlM (appended crypto) (Ledger.new l.realm l.epoch m) = .ok l.withoutCheckpoint
  checkpoint : ∀ c, l.checkpoint = some c → l.withoutCheckpoint.validateRetainedCheckpoint crypto c = .ok ()

theorem withCheckpoint_eq_ok {checkpoint : Option Checkpoint} (h : l₀.checkpoint = none) :
    withCheckpoint crypto checkpoint l₀ = .ok l ↔ l.withoutCheckpoint = l₀ ∧ l.checkpoint = checkpoint ∧
      ∀ c, checkpoint = some c → l₀.validateRetainedCheckpoint crypto c = .ok () := by
  have hl₀ : l₀.withoutCheckpoint = l₀ := by
    cases l₀
    cases h
    rfl
  cases checkpoint with
  | none =>
    constructor
    · intro hw
      cases hw
      exact ⟨hl₀, h, by simp⟩
    · rintro ⟨rfl, hc, -⟩
      cases l
      cases hc
      rfl
  | some c =>
    rw [withCheckpoint, bind_eq_ok]
    constructor
    · rintro ⟨⟨⟩, hvalid, hw⟩
      cases hw
      exact ⟨hl₀, rfl, fun c' hc' => by cases hc'; exact hvalid⟩
    · rintro ⟨rfl, hc, hvalid⟩
      refine ⟨(), hvalid c rfl, ?_⟩
      cases l
      cases hc
      rfl

theorem codec_derived {count : Nat} (h : l₀.checkpoint = none) (hcount : l₀.lastSequences.size ≤ min count maxEventCount) :
    Codec (getDerived crypto count l₀) Ledger.putDerived fun l =>
      withCheckpoint crypto l.checkpoint l₀ = .ok l := by
  have hfields : ∀ l, withCheckpoint crypto l.checkpoint l₀ = .ok l → l.head = l₀.head ∧ l.lastSequences = l₀.lastSequences := by
    intro l hl
    obtain ⟨rfl, -, -⟩ := (withCheckpoint_eq_ok h).1 hl
    exact ⟨rfl, rfl⟩
  refine codec_digest.field Ledger.head fun head => ?_
  split
  · rename_i hne
    refine .none (fun _ => ⟨_, rfl⟩) fun l hl => ?_
    obtain ⟨hl, rfl⟩ := hl
    exact hne (hfields l hl).1
  · rename_i heq
    rw [Decidable.not_not] at heq
    refine (codec_option codec_checkpoint).bind Ledger.checkpoint (fun _ _ _ _ => trivial) fun checkpoint _ => ?_
    refine ⟨fun bytes l rest => ?_⟩
    simp only [exec_bind_eq_ok, Reader.lift, exec_of, Prod.mk.injEq, (codec_count (Nat.min_le_right _ _)).iff,
      codec_sequences.iff]
    constructor
    · rintro ⟨l₁, mid, ⟨hw, rfl⟩, n, mid', ⟨rfl, hn⟩, sequences, mid'', ⟨rfl, rfl⟩, hend⟩
      split at hend
      · cases hend
      · rename_i hseq
        cases hend
        rw [Decidable.not_not] at hseq
        have hsame : sequences = l.lastSequences := Std.ExtTreeMap.ext_toList (by rw [hseq])
        have hc := ((withCheckpoint_eq_ok h).1 hw).2.1
        rw [hc, putSequences, ← hsame, List.append_assoc]
        exact ⟨rfl, ⟨hw, by rw [heq, (hfields l (by rw [hc]; exact hw)).1]⟩, rfl⟩
    · rintro ⟨rfl, ⟨hw, -⟩, rfl⟩
      have hseq := (hfields l hw).2
      refine ⟨l, _, ⟨hw, rfl⟩, l.lastSequences.size, l.lastSequences.toList.flatMap putSequence ++ rest, ⟨?_, ?_⟩,
        l.lastSequences, rest, ⟨rfl, rfl⟩, ?_⟩
      · rw [putSequences, List.append_assoc]
      · rw [hseq]
        exact hcount
      · rw [if_neg (by simp)]
        rfl

theorem Retained.sequences_le (h : Retained crypto l es) : l.lastSequences.size ≤ es.length := by
  rw [← Std.ExtTreeMap.length_toList, ← List.length_map (f := Prod.fst), ← List.length_map (f := Event.actor)]
  refine (List.Nodup.subperm ?_ fun actor hactor => ?_).length_le
  · exact Maps.nodup_keys_of_ascending Std.ExtTreeMap.ordered_keys_toList
  · obtain ⟨⟨a, last⟩, hmem, rfl⟩ := List.mem_map.1 hactor
    rw [Std.ExtTreeMap.mem_toList_iff_getElem?_eq_some, h.lastSequences, lastOf, Option.map_eq_some_iff] at hmem
    obtain ⟨event, hlast, -⟩ := hmem
    obtain ⟨hevent, hactor⟩ := List.mem_filter.1 (List.mem_of_getLast? hlast)
    exact List.mem_map.2 ⟨event, hevent, by simpa using hactor⟩

theorem codec_restoreFrom {m : Nat} : Codec (restoreFrom crypto m) Ledger.snapshot (Restores crypto m) := by
  have hretained : ∀ {realm epoch l₁} {es : List Event}, es.foldlM (appended crypto) (Ledger.new realm epoch m) = .ok l₁ →
      Retained crypto l₁ es ∧ l₁.realm = realm ∧ l₁.epoch = epoch ∧ l₁.checkpoint = none := by
    intro realm epoch es l₁ hfold
    obtain ⟨hret, hr, he, -, hc⟩ := retained_new.replayed hfold
    exact ⟨hret, hr, he, hc⟩
  refine codec_header.field (fun _ => ()) fun _ =>
    codec_realm.field Ledger.realm fun realm =>
    codec_int.field Ledger.epoch fun epoch => ?_
  refine ⟨fun bytes l rest => ?_⟩
  simp only [exec_bind_eq_ok, (codec_count (Nat.min_le_right _ _)).iff, exec_replay]
  constructor
  · rintro ⟨n, mid, ⟨rfl, hn⟩, l₁, mid', ⟨es, rfl, rfl, hfold⟩, hderived⟩
    obtain ⟨hret, rfl, rfl, hc⟩ := hretained hfold
    have hcount := hret.sequences_le
    obtain ⟨rfl, hw⟩ := ((codec_derived hc (by omega)).iff _ _ _).1 hderived
    obtain ⟨rfl, -, hvalid⟩ := (withCheckpoint_eq_ok hc).1 hw
    have hhist := hret.history_eq
    rw [history_congr (show l.withoutCheckpoint.events = l.events from rfl) rfl] at hhist
    refine ⟨?_, ⟨⟨?_, trivial⟩, rfl⟩, rfl⟩
    · rw [Ledger.putHistory, hhist]
      simp only [List.append_assoc]
    · exact ⟨⟨es, hn, hfold⟩, hvalid⟩
  · rintro ⟨rfl, ⟨⟨⟨⟨es, hlen, hfold⟩, hcp⟩, -⟩, rfl⟩, rfl⟩
    obtain ⟨hret, -, -, -⟩ := hretained hfold
    have hhist := hret.history_eq
    rw [history_congr (show l.withoutCheckpoint.events = l.events from rfl) rfl] at hhist
    have hcount := hret.sequences_le
    refine ⟨es.length, es.flatMap putEvent ++ (l.putDerived ++ rest), ⟨?_, hlen⟩, l.withoutCheckpoint, l.putDerived ++ rest,
      ⟨es, rfl, rfl, hfold⟩, ?_⟩
    · rw [Ledger.putHistory, hhist]
      simp only [List.append_assoc]
    · refine ((codec_derived rfl ?_).iff _ _ _).2 ⟨rfl, (withCheckpoint_eq_ok rfl).2 ⟨rfl, rfl, hcp⟩⟩
      exact Nat.le_min.2 ⟨hcount, by omega⟩

theorem restore_eq_ok {raw : List UInt8} {m : Nat} :
    restore crypto raw m = .ok l ↔ raw = l.snapshot ∧ Restores crypto m l ∧ l.snapshot.length ≤ maxSnapshotBytes :=
  codec_restoreFrom.decode_eq_ok

theorem Restores.retained {m : Nat} (h : Restores crypto m l) : ∃ es, Retained crypto l es := by
  obtain ⟨es, -, hfold⟩ := h.events
  obtain ⟨hret, -, -, -, -⟩ := retained_new.replayed hfold
  rw [List.nil_append] at hret
  refine ⟨es, ⟨hret.linked, hret.nodup, hret.events, hret.eventCount, hret.fits, hret.limit, hret.increasing,
    hret.lastSequences, hret.payload, hret.context, hret.address, fun c hc => ?_⟩⟩
  have hnames := hret.names_iff.1 (h.checkpoint c hc)
  exact ⟨hnames.realm, hnames.epoch, hnames.retained⟩

theorem length_putEvent {event : Event} (h : event.payload.length ≤ maxPayload) : (putEvent event).length ≤ 1141 := by
  have hparent : (putDigest event.parent).length ≤ 33 := by
    cases event.parent <;> simp [putDigest]
  have hrealm : (toBe event.realm.value).length = 16 := length_toBe _
  have hepoch : (toBe event.epoch).length = 8 := length_toBe _
  have hactor : (toBe event.actor.value).length = 16 := length_toBe _
  have hsequence : (toBe event.sequence).length = 8 := length_toBe _
  have hlen : (toBe (UInt32.ofNat event.payload.length)).length = 4 := length_toBe _
  simp only [maxPayload] at h
  simp only [putEvent, List.length_append, Vector.length_toList, hrealm, hepoch, hactor, hsequence, hlen]
  omega

theorem length_flatMap_le {α : Type} {put : α → List UInt8} {size : Nat} {items : List α}
    (h : ∀ a ∈ items, (put a).length ≤ size) : (items.flatMap put).length ≤ size * items.length := by
  induction items with
  | nil => exact Nat.zero_le _
  | cons a items ih =>
    have ha := h a (by simp)
    have hrest := ih fun b hb => h b (by simp [hb])
    rw [List.flatMap_cons, List.length_append, List.length_cons, Nat.mul_succ]
    omega

theorem Retained.length_snapshot (h : Retained crypto l es) : l.snapshot.length ≤ maxSnapshotBytes := by
  have hfits := h.fits
  have hlimit := h.limit
  have hevents : (es.flatMap putEvent).length ≤ 1141 * es.length :=
    length_flatMap_le fun event he => length_putEvent (h.payload event he)
  have hsize := h.sequences_le
  have hsequences : (l.lastSequences.toList.flatMap putSequence).length ≤ 24 * l.lastSequences.size := by
    rw [← Std.ExtTreeMap.length_toList]
    refine length_flatMap_le fun entry _ => ?_
    have hactor : (toBe entry.1.value).length = 16 := length_toBe _
    have hsequence : (toBe entry.2).length = 8 := length_toBe _
    rw [putSequence, List.length_append, hactor, hsequence]
  have hhead : (putDigest l.head).length ≤ 33 := by
    cases l.head <;> simp [putDigest]
  have hcheckpoint : (putOption putCheckpoint l.checkpoint).length ≤ 97 := by
    rcases l.checkpoint with _ | c
    · simp [putOption]
    · have hrealm : (toBe c.realm.value).length = 16 := length_toBe _
      have hepoch : (toBe c.epoch).length = 8 := length_toBe _
      have hheight : (toBe c.height).length = 8 := length_toBe _
      simp [putOption, putCheckpoint, hrealm, hepoch, hheight]
  have hrealm : (toBe l.realm.value).length = 16 := length_toBe _
  have hepoch : (toBe l.epoch).length = 8 := length_toBe _
  have hcount : (toBe (UInt32.ofNat es.length)).length = 4 := length_toBe _
  have hscount : (toBe (UInt32.ofNat l.lastSequences.size)).length = 4 := length_toBe _
  have hdomain : snapshotDomain.length = 25 := by decide +kernel
  simp only [Ledger.snapshot, Ledger.putHistory, Ledger.putDerived, putSequences, h.history_eq, List.length_append,
    List.length_singleton, hrealm, hepoch, hcount, hscount, hdomain]
  simp only [maxEventCount] at hlimit
  simp only [maxSnapshotBytes]
  omega

def Ledger.withBound (l : Ledger) (m : Nat) : Ledger := { l with maxEvents := min m maxEventCount }

theorem Retained.restores (h : Retained crypto l es) {m : Nat} (hm : l.eventCount ≤ m) :
    restore crypto l.snapshot m = .ok (l.withBound m) := by
  have hlen : es.length ≤ min m maxEventCount := by
    have hfits := h.fits
    have hlimit := h.limit
    rw [h.eventCount] at hm
    omega
  obtain ⟨l₁, hfold, hret, hr, he, hmax, hc⟩ := h.replays hlen es [] (List.append_nil es).symm
  have hret' : Retained crypto (l.withBound m).withoutCheckpoint es :=
    ⟨h.linked, h.nodup, h.events, h.eventCount, hlen, Nat.min_le_right _ _, h.increasing, h.lastSequences, h.payload,
      h.context, h.address, fun c hc => (nomatch hc)⟩
  obtain rfl := hret.ext hret' hr he hmax hc
  have hsnap : l.snapshot = (l.withBound m).snapshot := by
    have hhist : l.history = (l.withBound m).history := history_congr rfl rfl
    rw [Ledger.snapshot, Ledger.snapshot, Ledger.putHistory, Ledger.putHistory, hhist]
    rfl
  refine restore_eq_ok.2 ⟨hsnap, ⟨⟨es, hlen, hfold⟩, fun c hc => hret'.names_iff.2 ?_⟩, hsnap ▸ h.length_snapshot⟩
  have hnames := h.checkpoint c hc
  exact ⟨hnames.realm, hnames.epoch, hnames.retained⟩

/-! ### Every ledger that operations lead to -/

inductive Call
  | append (event : Event)
  | acceptCheckpoint (checkpoint : Checkpoint)

def Call.run (crypto : Crypto) : Call → Fallible Error Ledger Unit
  | .append event => Ledger.append crypto event
  | .acceptCheckpoint checkpoint => Ledger.acceptCheckpoint crypto checkpoint

inductive Reachable (crypto : Crypto) : Ledger → Prop
  | new (realm : RealmId) (epoch : UInt64) (m : Nat) : Reachable crypto (Ledger.new realm epoch m)
  | restore {raw : List UInt8} {m : Nat} {l : Ledger} : restore crypto raw m = .ok l → Reachable crypto l
  | call {l : Ledger} (call : Call) : Reachable crypto l → Reachable crypto (exec (call.run crypto) l).2

/-- A step keeps the checkpoint or moves it to a greater height. -/
def Advances (before after : Option Checkpoint) : Prop :=
  ∀ c, before = some c → ∃ c', after = some c' ∧ (c' = c ∨ c.height < c'.height)

theorem Retained.call (h : Retained crypto l es) (call : Call) :
    (∀ e, (exec (call.run crypto) l).1 = .error e → (exec (call.run crypto) l).2 = l) ∧
      Advances l.checkpoint (exec (call.run crypto) l).2.checkpoint ∧
      ∃ after, Retained crypto (exec (call.run crypto) l).2 (es ++ after) := by
  have hstay : Advances l.checkpoint l.checkpoint := fun c hc => ⟨c, hc, .inl rfl⟩
  have hsame : ∃ after, Retained crypto l (es ++ after) := ⟨[], by rwa [List.append_nil]⟩
  cases call with
  | append event =>
    rcases append_cases crypto l event with ⟨e, he⟩ | ⟨hext, he⟩
    · simp only [Call.run, he]
      exact ⟨fun _ _ => trivial, hstay, hsame⟩
    · simp only [Call.run, he]
      exact ⟨fun _ h => (nomatch h), hstay, [event], h.extend hext⟩
  | acceptCheckpoint checkpoint =>
    rcases acceptCheckpoint_cases crypto l checkpoint with ⟨e, he⟩ | ⟨-, he⟩ | ⟨hvalid, hlt, he⟩
    · simp only [Call.run, he]
      exact ⟨fun _ _ => trivial, hstay, hsame⟩
    · simp only [Call.run, he]
      exact ⟨fun _ _ => trivial, hstay, hsame⟩
    · simp only [Call.run, he]
      refine ⟨fun _ h => (nomatch h), fun c hc => ⟨checkpoint, rfl, .inr (hlt c hc)⟩, [], ?_⟩
      rw [List.append_nil]
      exact h.setCheckpoint (h.names_iff.1 hvalid)

theorem Reachable.retained (h : Reachable crypto l) : ∃ es, Retained crypto l es := by
  induction h with
  | new realm epoch m => exact ⟨[], retained_new⟩
  | restore hrestore => exact (restore_eq_ok.1 hrestore).2.1.retained
  | call call _ ih =>
    obtain ⟨es, hes⟩ := ih
    obtain ⟨-, -, after, hafter⟩ := hes.call call
    exact ⟨_, hafter⟩

structure SameHistory (l l' : Ledger) : Prop where
  realm : l'.realm = l.realm
  epoch : l'.epoch = l.epoch
  events : l'.events = l.events
  history : l'.history = l.history
  head : l'.head = l.head
  checkpoint : l'.checkpoint = l.checkpoint
  lastSequences : l'.lastSequences = l.lastSequences

/-- A reachable ledger is one linked chain with its derived data; refused calls change nothing, checkpoints only
advance, snapshots are lossless, and only snapshots are restored. -/
theorem ledger_history (h : Reachable crypto l) :
    (∃ es, Retained crypto l es ∧ l.history = es) ∧
    (∀ call : Call, (∀ e, (exec (call.run crypto) l).1 = .error e → (exec (call.run crypto) l).2 = l) ∧
      Advances l.checkpoint (exec (call.run crypto) l).2.checkpoint) ∧
    (∀ m, l.eventCount ≤ m → ∃ l', restore crypto l.snapshot m = .ok l' ∧ SameHistory l l') ∧
    ∀ raw m l', restore crypto raw m = .ok l' → l'.snapshot = raw := by
  obtain ⟨es, hes⟩ := h.retained
  refine ⟨⟨es, hes, hes.history_eq⟩, fun call => ?_, fun m hm => ⟨_, hes.restores hm, ?_⟩, fun raw m l' hl' => ?_⟩
  · obtain ⟨hkeep, hadv, -⟩ := hes.call call
    exact ⟨hkeep, hadv⟩
  · exact ⟨rfl, rfl, rfl, history_congr rfl rfl, rfl, rfl, rfl⟩
  · exact (restore_eq_ok.1 hl').1.symm

/-! A history of two events, with their digests. -/

def sampleDigest₁ : EventDigest := beVector 32 0x0da4d7355a97d12c9a9418c01eec9f18ae8461691e2ce168761bd6d1059be15f
def sampleDigest₂ : EventDigest := beVector 32 0x696fb844cd49d5eaf55b2352b9c2a4b6481e8e8482c94f8cf1853473e83985c7
def sampleRoot : StateRoot := beVector 32 0x9afae1028b8b150984a07ea37678831f78196c6fce70d262e7a4c4e05f1eb1c7

def sampleEvent₁ : Event := ⟨sampleDigest₁, none, ⟨77⟩, 3, ⟨5⟩, 1, [1, 2]⟩
def sampleEvent₂ : Event := ⟨sampleDigest₂, some sampleDigest₁, ⟨77⟩, 3, ⟨6⟩, 4, []⟩
def sampleCheckpoint : Checkpoint := ⟨⟨77⟩, 3, sampleDigest₂, sampleRoot, 1⟩

/-- SHA-256 on the transcripts of the two events: the first one has a payload of two bytes. -/
def sampleCrypto : Crypto where
  sha256 message :=
    if message.take 21 = rootDomain then sampleRoot else if message.length = 81 then sampleDigest₁ else sampleDigest₂
  decodesKey _ := true
  isWeak _ := false
  verifyStrict _ _ _ := false

def sampleLedger : Ledger :=
  [Call.append sampleEvent₁, .append sampleEvent₂, .acceptCheckpoint sampleCheckpoint].foldl
    (fun l call => (exec (call.run sampleCrypto) l).2) (Ledger.new ⟨77⟩ 3 8)

theorem sample_reachable : Reachable sampleCrypto sampleLedger :=
  .call _ (.call _ (.call _ (.new _ _ _)))

theorem sample_ledger_history : sampleLedger.checkpoint = some sampleCheckpoint ∧ sampleLedger.eventCount = 2 ∧
    ∃ l', restore sampleCrypto sampleLedger.snapshot 2 = .ok l' ∧ SameHistory sampleLedger l' := by
  have hcount : sampleLedger.eventCount = 2 := by decide +kernel
  exact ⟨by decide +kernel, hcount, (ledger_history sample_reachable).2.2.1 2 (Nat.le_of_eq hcount)⟩

end Valhalla.EventLedger
