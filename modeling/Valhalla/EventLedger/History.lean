import Mathlib.Data.List.Induction
import Valhalla.Core
import Valhalla.Lib.Check
import Valhalla.Lib.Fallible
import Valhalla.Lib.Maps

/-!
# The bounded event history (`vhalla-ledger`)

Appending events, walking the chain, and checkpoints. `Retained l es` says that the ledger retains the
events `es`, oldest first, as one linked chain; every operation keeps it.
-/

namespace Valhalla.EventLedger
open Fallible FixedWidth Check

def eventDomain : List UInt8 := "vhalla/ledger/event/v1".toUTF8.toList
def rootDomain : List UInt8 := "vhalla/ledger/root/v1".toUTF8.toList
def maxPayload : Nat := 1024
def maxEventCount : Nat := 4096

abbrev EventDigest := Bytes32
abbrev StateRoot := Bytes32

structure PeerId where
  value : BitVec 128
deriving DecidableEq

namespace PeerId

instance : Ord PeerId := ⟨fun a b => compare a.value b.value⟩

theorem compare_def (a b : PeerId) : compare a b = compare a.value b.value := rfl

instance transCmp : Std.TransCmp (compare : PeerId → PeerId → Ordering) where
  eq_swap {a b} := by
    rw [compare_def, compare_def]
    exact Std.OrientedCmp.eq_swap
  isLE_trans {a b c} hab hbc := by
    rw [compare_def] at hab hbc ⊢
    exact Std.TransCmp.isLE_trans hab hbc

instance lawfulEqCmp : Std.LawfulEqCmp (compare : PeerId → PeerId → Ordering) where
  eq_of_compare {a b} h := by
    rw [compare_def] at h
    cases a
    cases b
    exact congrArg _ (Std.LawfulEqCmp.eq_of_compare h)

end PeerId

structure Event where
  id : EventDigest
  parent : Option EventDigest
  realm : RealmId
  epoch : UInt64
  actor : PeerId
  sequence : UInt64
  payload : List UInt8
deriving DecidableEq

structure Checkpoint where
  realm : RealmId
  epoch : UInt64
  head : EventDigest
  stateRoot : StateRoot
  height : UInt64
deriving DecidableEq

inductive Error
  | payloadTooLarge | invalidEventId | wrongContext | unknownOrForkedParent | duplicateEvent | nonMonotonicSequence
  | capacity | unknownHead | rootMismatch | heightMismatch | staleCheckpoint | conflictingCheckpoint | snapshotTooLarge
  | truncatedSnapshot | invalidSnapshotHeader | trailingSnapshot | invalidSnapshotBounds | snapshotSequenceMismatch
  | nonCanonicalSnapshot
deriving DecidableEq, Repr

/-- A bounded, single-tip event ledger. -/
structure Ledger where
  realm : RealmId
  epoch : UInt64
  maxEvents : Nat
  events : Std.ExtTreeMap EventDigest Event compare
  head : Option EventDigest
  checkpoint : Option Checkpoint
  lastSequences : Std.ExtTreeMap PeerId UInt64 compare

def putDigest : Option EventDigest → List UInt8
  | some digest => 1 :: digest.toList
  | none => [0]

section
variable (crypto : Crypto)

def hashEvent (parent : Option EventDigest) (realm : RealmId) (epoch : UInt64) (actor : PeerId) (sequence : UInt64)
    (payload : List UInt8) : EventDigest :=
  crypto.sha256 (eventDomain ++ putDigest parent ++ toBe realm.value ++ toBe epoch ++ toBe actor.value ++ toBe sequence ++
    toBe (UInt64.ofNat payload.length) ++ payload)

def Event.new (parent : Option EventDigest) (realm : RealmId) (epoch : UInt64) (actor : PeerId) (sequence : UInt64)
    (payload : List UInt8) : Event :=
  ⟨hashEvent crypto parent realm epoch actor sequence payload, parent, realm, epoch, actor, sequence, payload⟩

def Event.address (event : Event) : EventDigest :=
  hashEvent crypto event.parent event.realm event.epoch event.actor event.sequence event.payload

def rootOf (realm : RealmId) (epoch : UInt64) (chain : List Event) : StateRoot :=
  crypto.sha256 (rootDomain ++ toBe realm.value ++ toBe epoch ++ toBe (UInt64.ofNat chain.length) ++
    chain.flatMap fun event => event.id.toList)

namespace Ledger

def new (realm : RealmId) (epoch : UInt64) (maxEvents : Nat) : Ledger :=
  ⟨realm, epoch, min maxEvents maxEventCount, ∅, none, none, ∅⟩

def eventCount (l : Ledger) : Nat := l.events.size

def checkAppend (event : Event) (l : Ledger) : Except Error Unit := do
  require .payloadTooLarge (decide (event.payload.length ≤ maxPayload))
  require .wrongContext (event.realm == l.realm && event.epoch == l.epoch)
  require .invalidEventId (event.id == event.address crypto)
  require .duplicateEvent l.events[event.id]?.isNone
  require .nonMonotonicSequence !(l.lastSequences[event.actor]?.any fun last => decide (event.sequence ≤ last))
  require .unknownOrForkedParent (event.parent == l.head)
  require .capacity (decide (l.eventCount < l.maxEvents))

def extend (event : Event) (l : Ledger) : Ledger :=
  { l with
    lastSequences := l.lastSequences.insert event.actor event.sequence
    head := some event.id
    events := l.events.insert event.id event }

def append (event : Event) : Fallible Error Ledger Unit := do
  examine (checkAppend crypto event)
  update (extend event)

/-- The loop of `chain`: it pushes at most as many events as there are. -/
def walk (l : Ledger) : Nat → Option EventDigest → List Event → Except Error (List Event)
  | _, none, chain => .ok chain
  | 0, some _, _ => .error .unknownHead
  | n + 1, some id, chain => do
    let event ← Check.okOr .unknownHead l.events[id]?
    walk l n event.parent (event :: chain)

def chain (l : Ledger) (head : EventDigest) : Except Error (List Event) := walk l l.eventCount (some head) []

def stateRoot (l : Ledger) (head : EventDigest) : Except Error StateRoot := do
  let chain ← l.chain head
  pure (rootOf crypto l.realm l.epoch chain)

def validateRetainedCheckpoint (checkpoint : Checkpoint) (l : Ledger) : Except Error Unit := do
  require .wrongContext (checkpoint.realm == l.realm && checkpoint.epoch == l.epoch)
  let root ← l.stateRoot crypto checkpoint.head
  require .rootMismatch (root == checkpoint.stateRoot)
  let chain ← l.chain checkpoint.head
  require .heightMismatch (checkpoint.height == UInt64.ofNat (chain.length - 1))

def checkCheckpoint (checkpoint : Checkpoint) (l : Ledger) : Except Error Unit := do
  require .wrongContext (checkpoint.realm == l.realm && checkpoint.epoch == l.epoch)
  require .staleCheckpoint (l.head == some checkpoint.head)
  validateRetainedCheckpoint crypto checkpoint l

def setCheckpoint (checkpoint : Checkpoint) (l : Ledger) : Ledger := { l with checkpoint := some checkpoint }

def acceptCheckpoint (checkpoint : Checkpoint) : Fallible Error Ledger Unit := do
  examine (checkCheckpoint crypto checkpoint)
  match ← view Ledger.checkpoint with
  | some previous =>
    if previous = checkpoint then pure ()
    else if checkpoint.height ≤ previous.height then throw .conflictingCheckpoint
    else update (setCheckpoint checkpoint)
  | none => update (setCheckpoint checkpoint)

end Ledger

/-! ### One linked chain -/

/-- The events name each other from the event after `parent` to the event `last`. -/
def Linked : Option EventDigest → List Event → Option EventDigest → Prop
  | parent, [], last => parent = last
  | parent, event :: events, last => event.parent = parent ∧ Linked (some event.id) events last

theorem linked_append {parent last : Option EventDigest} {es fs : List Event} :
    Linked parent (es ++ fs) last ↔ ∃ mid, Linked parent es mid ∧ Linked mid fs last := by
  induction es generalizing parent with
  | nil => simp [Linked]
  | cons e es ih => simp [Linked, ih, and_assoc]

theorem linked_snoc {parent last : Option EventDigest} {es : List Event} {event : Event} :
    Linked parent (es ++ [event]) last ↔ Linked parent es event.parent ∧ last = some event.id := by
  rw [linked_append]
  constructor
  · rintro ⟨mid, hes, rfl, rfl⟩
    exact ⟨hes, rfl⟩
  · rintro ⟨hes, rfl⟩
    exact ⟨_, hes, rfl, rfl⟩

def lastOf (es : List Event) (actor : PeerId) : Option UInt64 :=
  ((es.filter fun event => decide (event.actor = actor)).getLast?).map Event.sequence

theorem lastOf_snoc {es : List Event} {event : Event} {actor : PeerId} :
    lastOf (es ++ [event]) actor = if event.actor = actor then some event.sequence else lastOf es actor := by
  rw [lastOf, List.filter_append]
  by_cases h : event.actor = actor
  · simp [h]
  · simp [h, lastOf]

theorem lastOf_of_mem {es : List Event} {event : Event} (h : event ∈ es)
    (hinc : es.Pairwise fun a b => a.actor = b.actor → a.sequence < b.sequence) :
    ∃ last, lastOf es event.actor = some last ∧ event.sequence ≤ last := by
  induction es using List.reverseRecOn with
  | nil => cases h
  | append_singleton es e ih =>
    rw [lastOf_snoc]
    obtain ⟨hes, -, hbefore⟩ := List.pairwise_append.1 hinc
    by_cases he : e.actor = event.actor
    · refine ⟨e.sequence, if_pos he, ?_⟩
      rcases List.mem_append.1 h with hmem | hmem
      · exact UInt64.le_of_lt (hbefore event hmem e (by simp) he.symm)
      · rw [List.mem_singleton.1 hmem]
        exact UInt64.le_refl _
    · rw [if_neg he]
      rcases List.mem_append.1 h with hmem | hmem
      · exact ih hmem hes
      · exact absurd (congrArg Event.actor (List.mem_singleton.1 hmem)).symm he

structure Names (l : Ledger) (es : List Event) (checkpoint : Checkpoint) : Prop where
  realm : checkpoint.realm = l.realm
  epoch : checkpoint.epoch = l.epoch
  retained : ∃ before event after, es = before ++ event :: after ∧ event.id = checkpoint.head ∧
    checkpoint.stateRoot = rootOf crypto l.realm l.epoch (before ++ [event]) ∧ checkpoint.height.toNat = before.length

/-- The ledger retains exactly the events `es`, one linked chain from a root to the head. -/
structure Retained (l : Ledger) (es : List Event) : Prop where
  linked : Linked none es l.head
  nodup : (es.map Event.id).Nodup
  events : ∀ id event, l.events[id]? = some event ↔ event ∈ es ∧ event.id = id
  eventCount : l.eventCount = es.length
  fits : es.length ≤ l.maxEvents
  limit : l.maxEvents ≤ maxEventCount
  increasing : es.Pairwise fun a b => a.actor = b.actor → a.sequence < b.sequence
  lastSequences : ∀ actor, l.lastSequences[actor]? = lastOf es actor
  payload : ∀ event ∈ es, event.payload.length ≤ maxPayload
  context : ∀ event ∈ es, event.realm = l.realm ∧ event.epoch = l.epoch
  address : ∀ event ∈ es, event.id = event.address crypto
  checkpoint : ∀ checkpoint, l.checkpoint = some checkpoint → Names crypto l es checkpoint

end

variable {crypto : Crypto} {l l' : Ledger} {es : List Event} {event : Event} {checkpoint : Checkpoint} {realm : RealmId}
  {epoch : UInt64} {m : Nat}

theorem Names.append (h : Names crypto l es checkpoint) (hr : l'.realm = l.realm) (he : l'.epoch = l.epoch) :
    Names crypto l' (es ++ [event]) checkpoint := by
  obtain ⟨before, e, after, rfl, hid, hroot, hheight⟩ := h.retained
  refine ⟨hr ▸ h.realm, he ▸ h.epoch, before, e, after ++ [event], by simp, hid, ?_, hheight⟩
  rw [hr, he]
  exact hroot

theorem retained_new : Retained crypto (Ledger.new realm epoch m) [] where
  linked := rfl
  nodup := List.nodup_nil
  events := by simp [Ledger.new]
  eventCount := rfl
  fits := Nat.zero_le _
  limit := Nat.min_le_right _ _
  increasing := List.Pairwise.nil
  lastSequences := by simp [Ledger.new, lastOf]
  payload := by simp
  context := by simp
  address := by simp
  checkpoint := fun _ h => by cases h

/-- What an accepted event passed. -/
structure Extends (crypto : Crypto) (l : Ledger) (event : Event) : Prop where
  payload : event.payload.length ≤ maxPayload
  realm : event.realm = l.realm
  epoch : event.epoch = l.epoch
  address : event.id = event.address crypto
  fresh : l.events[event.id]? = none
  newer : ∀ last, l.lastSequences[event.actor]? = some last → last < event.sequence
  parent : event.parent = l.head
  room : l.eventCount < l.maxEvents

theorem checkAppend_eq_ok : l.checkAppend crypto event = .ok () ↔ Extends crypto l event := by
  simp only [Ledger.checkAppend, bind_eq_ok, require_eq_ok, decide_eq_true_eq, Bool.and_eq_true, beq_iff_eq,
    Option.isNone_iff_eq_none, Bool.not_eq_true', exists_const]
  have hnewer : (l.lastSequences[event.actor]?.any fun last => decide (event.sequence ≤ last)) = false ↔
      ∀ last, l.lastSequences[event.actor]? = some last → last < event.sequence := by
    cases l.lastSequences[event.actor]? with
    | none => simp
    | some last => simp [UInt64.not_le]
  rw [hnewer]
  constructor
  · rintro ⟨hp, ⟨hr, he⟩, ha, hf, hn, hpar, hroom⟩
    exact ⟨hp, hr, he, ha, hf, hn, hpar, hroom⟩
  · intro h
    exact ⟨h.payload, ⟨h.realm, h.epoch⟩, h.address, h.fresh, h.newer, h.parent, h.room⟩

theorem append_cases (crypto : Crypto) (l : Ledger) (event : Event) :
    (∃ e, exec (Ledger.append crypto event) l = (.error e, l)) ∨
      (Extends crypto l event ∧ exec (Ledger.append crypto event) l = (.ok (), l.extend event)) := by
  rw [Ledger.append, exec_examine_bind]
  rcases hc : l.checkAppend crypto event with e | ⟨⟩
  · exact .inl ⟨e, rfl⟩
  · exact .inr ⟨checkAppend_eq_ok.1 hc, rfl⟩

theorem Retained.extend (h : Retained crypto l es) (hext : Extends crypto l event) :
    Retained crypto (l.extend event) (es ++ [event]) := by
  have hfresh : ∀ e ∈ es, e.id ≠ event.id := fun e he hid => by
    have := (h.events event.id e).2 ⟨he, hid⟩
    rw [hext.fresh] at this
    cases this
  have hcount : (l.extend event).eventCount = es.length + 1 := by
    show (l.events.insert event.id event).size = _
    rw [Maps.size_insert_new hext.fresh]
    exact congrArg (· + 1) h.eventCount
  refine ⟨?_, ?_, fun id e => ?_, by simp [hcount], ?_, h.limit, ?_, fun actor => ?_, ?_, ?_, ?_, fun c hc => ?_⟩
  · exact linked_snoc.2 ⟨hext.parent ▸ h.linked, rfl⟩
  · rw [List.map_append, List.nodup_append]
    refine ⟨h.nodup, by simp, fun a ha b hb => ?_⟩
    obtain ⟨e, he, rfl⟩ := List.mem_map.1 ha
    obtain rfl : b = event.id := by simpa using hb
    exact hfresh e he
  · show (l.events.insert event.id event)[id]? = some e ↔ _
    rw [Maps.getElem?_insert]
    by_cases hid : event.id = id
    · subst hid
      rw [if_pos rfl, Option.some.injEq, List.mem_append, List.mem_singleton]
      constructor
      · rintro rfl
        exact ⟨.inr rfl, rfl⟩
      · rintro ⟨he | rfl, hid⟩
        · exact absurd hid (hfresh e he)
        · rfl
    · rw [if_neg hid, h.events, List.mem_append, List.mem_singleton]
      constructor
      · rintro ⟨he, rfl⟩
        exact ⟨.inl he, rfl⟩
      · rintro ⟨he | rfl, rfl⟩
        · exact ⟨he, rfl⟩
        · exact absurd rfl hid
  · rw [List.length_append]
    show es.length + 1 ≤ l.maxEvents
    rw [← h.eventCount]
    exact hext.room
  · refine List.pairwise_append.2 ⟨h.increasing, List.pairwise_singleton _ _, fun a ha b hb hactor => ?_⟩
    obtain rfl := List.mem_singleton.1 hb
    obtain ⟨last, hlast, hle⟩ := lastOf_of_mem ha h.increasing
    rw [← h.lastSequences, hactor] at hlast
    exact UInt64.lt_of_le_of_lt hle (hext.newer last hlast)
  · show (l.lastSequences.insert event.actor event.sequence)[actor]? = _
    rw [Maps.getElem?_insert, lastOf_snoc, h.lastSequences]
  · intro e he
    rcases List.mem_append.1 he with he | he
    · exact h.payload e he
    · exact List.mem_singleton.1 he ▸ hext.payload
  · intro e he
    rcases List.mem_append.1 he with he | he
    · exact h.context e he
    · rw [List.mem_singleton.1 he]
      exact ⟨hext.realm, hext.epoch⟩
  · intro e he
    rcases List.mem_append.1 he with he | he
    · exact h.address e he
    · exact List.mem_singleton.1 he ▸ hext.address
  · exact (h.checkpoint c hc).append rfl rfl

/-! ### Walking the chain -/

theorem Retained.walk (h : Retained crypto l es) {before after : List Event} {last : Option EventDigest}
    (hes : es = before ++ after) (hlast : Linked none before last) {n : Nat} (hn : before.length ≤ n) (acc : List Event) :
    l.walk n last acc = .ok (before ++ acc) := by
  induction before using List.reverseRecOn generalizing after last n acc with
  | nil =>
    obtain rfl := hlast
    cases n <;> rfl
  | append_singleton before event ih =>
    obtain ⟨hbefore, rfl⟩ := linked_snoc.1 hlast
    rw [List.length_append] at hn
    obtain ⟨n, rfl⟩ : ∃ k, n = k + 1 := ⟨n - 1, by simp at hn; omega⟩
    have hget : l.events[event.id]? = some event := (h.events _ _).2 ⟨by simp [hes], rfl⟩
    rw [Ledger.walk, hget]
    show l.walk n event.parent (event :: acc) = _
    have hes' : es = before ++ ([event] ++ after) := by rw [hes, List.append_assoc]
    rw [ih hes' hbefore (by simp at hn; omega), List.append_assoc]
    rfl

theorem Retained.chain_eq (h : Retained crypto l es) {before after : List Event} (hes : es = before ++ event :: after) :
    l.chain event.id = .ok (before ++ [event]) := by
  have hlinked := h.linked
  rw [hes, ← List.singleton_append, ← List.append_assoc, linked_append] at hlinked
  obtain ⟨mid, hbefore, -⟩ := hlinked
  obtain rfl := (linked_snoc.1 hbefore).2
  have hlen : (before ++ [event]).length ≤ l.eventCount := by
    rw [h.eventCount, hes]
    simp
  have hsplit : es = (before ++ [event]) ++ after := by simp [hes]
  have hw := h.walk hsplit hbefore hlen []
  rw [Ledger.chain, hw, List.append_nil]

theorem Retained.of_chain (h : Retained crypto l es) {head : EventDigest} {chain : List Event} (hc : l.chain head = .ok chain) :
    ∃ before event after, es = before ++ event :: after ∧ event.id = head ∧ chain = before ++ [event] := by
  have hsome : ∃ event, l.events[head]? = some event := by
    rw [Ledger.chain] at hc
    cases hn : l.eventCount with
    | zero => rw [hn] at hc; cases hc
    | succ n =>
      rw [hn, Ledger.walk, bind_eq_ok] at hc
      obtain ⟨event, hget, -⟩ := hc
      exact ⟨event, okOr_eq_ok.1 hget⟩
  obtain ⟨event, hget⟩ := hsome
  obtain ⟨hmem, rfl⟩ := (h.events _ _).1 hget
  obtain ⟨before, after, hes⟩ := List.append_of_mem hmem
  rw [h.chain_eq hes] at hc
  cases hc
  exact ⟨before, event, after, hes, rfl, rfl⟩

theorem Retained.chain_head (h : Retained crypto l es) :
    ((l.head.bind fun head => (l.chain head).toOption).getD []) = es := by
  cases es using List.reverseRecOn with
  | nil =>
    have hlinked : none = l.head := h.linked
    rw [← hlinked]
    rfl
  | append_singleton before event =>
    have hsplit : before ++ [event] = before ++ event :: [] := rfl
    rw [(linked_snoc.1 h.linked).2, Option.bind_some, h.chain_eq hsplit]
    rfl

/-! ### Checkpoints -/

theorem Retained.names_iff (h : Retained crypto l es) :
    l.validateRetainedCheckpoint crypto checkpoint = .ok () ↔ Names crypto l es checkpoint := by
  have hheight : ∀ before : List Event, ∀ event after, es = before ++ event :: after →
      (checkpoint.height = UInt64.ofNat ((before ++ [event]).length - 1) ↔ checkpoint.height.toNat = before.length) := by
    intro before event after hes
    have hlt : before.length < UInt64.size := by
      have hfits := h.fits
      have hlimit := h.limit
      rw [hes, List.length_append, List.length_cons] at hfits
      simp only [maxEventCount, UInt64.size] at hlimit ⊢
      omega
    rw [List.length_append, List.length_singleton, Nat.add_sub_cancel, ← UInt64.toNat_inj, UInt64.toNat_ofNat_of_lt' hlt]
  simp only [Ledger.validateRetainedCheckpoint, Ledger.stateRoot, bind_eq_ok, require_eq_ok, Bool.and_eq_true, beq_iff_eq,
    exists_const]
  constructor
  · rintro ⟨⟨hr, he⟩, root, ⟨chain, hchain, hroot⟩, heq, chain', hchain', hh⟩
    obtain ⟨before, event, after, hes, hid, rfl⟩ := h.of_chain hchain
    rw [hchain] at hchain'
    cases hroot
    cases hchain'
    exact ⟨hr, he, before, event, after, hes, hid, heq.symm, (hheight before event after hes).1 hh⟩
  · rintro ⟨hr, he, before, event, after, hes, hid, hroot, hh⟩
    have hchain := h.chain_eq hes
    rw [hid] at hchain
    exact ⟨⟨hr, he⟩, _, ⟨_, hchain, rfl⟩, hroot.symm, _, hchain, (hheight before event after hes).2 hh⟩

theorem acceptCheckpoint_cases (crypto : Crypto) (l : Ledger) (checkpoint : Checkpoint) :
    (∃ e, exec (Ledger.acceptCheckpoint crypto checkpoint) l = (.error e, l)) ∨
      (l.checkpoint = some checkpoint ∧ exec (Ledger.acceptCheckpoint crypto checkpoint) l = (.ok (), l)) ∨
      (l.validateRetainedCheckpoint crypto checkpoint = .ok () ∧
        (∀ previous, l.checkpoint = some previous → previous.height < checkpoint.height) ∧
        exec (Ledger.acceptCheckpoint crypto checkpoint) l = (.ok (), l.setCheckpoint checkpoint)) := by
  rw [Ledger.acceptCheckpoint, exec_examine_bind]
  rcases hc : l.checkCheckpoint crypto checkpoint with e | ⟨⟩
  · exact .inl ⟨e, rfl⟩
  · have hvalid : l.validateRetainedCheckpoint crypto checkpoint = .ok () := by
      simp only [Ledger.checkCheckpoint, bind_eq_ok] at hc
      obtain ⟨-, -, -, -, hc⟩ := hc
      exact hc
    simp only [exec_bind, exec_view]
    rcases hp : l.checkpoint with _ | previous
    · refine .inr (.inr ⟨hvalid, fun p h => ?_, rfl⟩)
      cases h
    · by_cases heq : previous = checkpoint
      · simp only [if_pos heq]
        exact .inr (.inl ⟨congrArg some heq, rfl⟩)
      · simp only [if_neg heq]
        by_cases hle : checkpoint.height ≤ previous.height
        · simp only [if_pos hle]
          exact .inl ⟨_, rfl⟩
        · simp only [if_neg hle]
          refine .inr (.inr ⟨hvalid, fun p h => ?_, rfl⟩)
          cases h
          exact UInt64.not_le.1 hle

theorem Retained.setCheckpoint (h : Retained crypto l es) (hn : Names crypto l es checkpoint) :
    Retained crypto (l.setCheckpoint checkpoint) es where
  linked := h.linked
  nodup := h.nodup
  events := h.events
  eventCount := h.eventCount
  fits := h.fits
  limit := h.limit
  increasing := h.increasing
  lastSequences := h.lastSequences
  payload := h.payload
  context := h.context
  address := h.address
  checkpoint := fun c hc => by
    cases hc
    exact ⟨hn.realm, hn.epoch, hn.retained⟩

end Valhalla.EventLedger
