import Valhalla.Continuity.ReplyCodec
import Valhalla.RoomActivity.Admission

/-!
# Segments and evidence

What an accepted body or page says of the author's chain, and that a peer which answers from a chain of admitted
transactions is believed, wherever its page is cut.
-/

namespace Valhalla.Continuity
open Fallible FixedWidth Check
open RoomActivity (EventId VerifiedEvent zeroBytes linking)

variable {crypto : Crypto} {request : Request crypto}

def Position.point (position : Position) : Nat × EventId := (position.sequence.toNat, position.event)

theorem Position.point_injective {p q : Position} (h : p.point = q.point) : p = q := by
  obtain ⟨hsequence, hevent⟩ := Prod.mk.inj h
  obtain ⟨_, _⟩ := p
  obtain ⟨_, _⟩ := q
  cases UInt64.toNat_inj.1 hsequence
  cases hevent
  rfl

theorem Position.point_of (event : VerifiedEvent crypto) : (Position.of event).point = (linking crypto).position event := rfl

theorem extension_eq_ok {tail last : Position} {event : VerifiedEvent crypto} : tail.extension event = .ok last ↔
    last = .of event ∧ event.claims.sequence.toNat = tail.sequence.toNat + 1 ∧ event.claims.previous = tail.event := by
  simp only [Position.extension, bind_eq_ok, require_eq_ok, Bool.and_eq_true, beq_iff_eq, checkedAdd_eq_some]
  constructor
  · rintro ⟨_, ⟨hsequence, hprevious⟩, he⟩
    cases he
    exact ⟨rfl, hsequence, hprevious.symm⟩
  · rintro ⟨rfl, hsequence, hprevious⟩
    exact ⟨(), ⟨hsequence, hprevious.symm⟩, rfl⟩

theorem identity_eq_ok {event : VerifiedEvent crypto} {scope : Scope} {author : Bytes32} {u : Unit} :
    identity event scope (some author) = .ok u ↔ Scope.of event.claims.scope = scope ∧ event.claims.author = author := by
  rw [identity, require_eq_ok, Bool.and_eq_true, beq_iff_eq, Option.all_some, beq_iff_eq]
  exact and_congr_right fun _ => eq_comm

structure Segment (scope : Scope) (author : Bytes32) (first : Position) (events : List (VerifiedEvent crypto)) (last : Position) : Prop where
  path : (linking crypto).Path first.point events last.point
  own : ∀ event ∈ events, Scope.of event.claims.scope = scope ∧ event.claims.author = author

section
variable {scope : Scope} {author : Bytes32} {first middle last : Position} {events later : List (VerifiedEvent crypto)}
  {event : VerifiedEvent crypto}

theorem Segment.refl : Segment scope author first ([] : List (VerifiedEvent crypto)) first :=
  ⟨rfl, fun _ he => (List.not_mem_nil he).elim⟩

theorem Segment.cons (hsequence : event.claims.sequence.toNat = first.sequence.toNat + 1) (hprevious : event.claims.previous = first.event)
    (hown : Scope.of event.claims.scope = scope ∧ event.claims.author = author) (h : Segment scope author (.of event) events last) :
    Segment scope author first (event :: events) last :=
  ⟨⟨hsequence, hprevious, h.path⟩, List.forall_mem_cons.2 ⟨hown, h.own⟩⟩

theorem Segment.snoc (h : Segment scope author first events middle) (hsequence : event.claims.sequence.toNat = middle.sequence.toNat + 1)
    (hprevious : event.claims.previous = middle.event) (hown : Scope.of event.claims.scope = scope ∧ event.claims.author = author) :
    Segment scope author first (events ++ [event]) (.of event) :=
  ⟨h.path.snoc hsequence hprevious, fun e he => (List.mem_append.1 he).elim (h.own e) fun he => List.mem_singleton.1 he ▸ hown⟩

theorem Segment.length (h : Segment scope author first events last) : last.sequence.toNat = first.sequence.toNat + events.length :=
  h.path.length

theorem Segment.unique (h : Segment scope author first events last) (h' : Segment scope author first events middle) : last = middle :=
  Position.point_injective (h.path.unique h'.path)

theorem Segment.split (h : Segment scope author first (events ++ later) last) :
    ∃ middle, Segment scope author first events middle ∧ Segment scope author middle later last := by
  induction events generalizing first with
  | nil => exact ⟨first, .refl, h⟩
  | cons event events ih =>
    obtain ⟨hsequence, hprevious, hpath⟩ := h.path
    obtain ⟨hown, hrest⟩ := List.forall_mem_cons.1 h.own
    have hsegment : Segment scope author (.of event) (events ++ later) last := ⟨hpath, hrest⟩
    obtain ⟨middle, hfirst, hlater⟩ := ih hsegment
    exact ⟨middle, .cons hsequence hprevious hown hfirst, hlater⟩

end

/-! ### Bodies -/

theorem Body.check_scan {tail last : Position} {author : Bytes32} {events : List (VerifiedEvent crypto)}
    (h : events.foldlM (fun tail event => do
      identity event request.context.scope (some author)
      tail.extension event) tail = .ok last) : Segment request.context.scope author tail events last := by
  refine foldlM_invariant (I := fun events last => Segment request.context.scope author tail events last)
    (fun done event middle next hdone hstep => ?_) .refl h
  rw [bind_eq_ok] at hstep
  obtain ⟨_, hidentity, hextension⟩ := hstep
  obtain ⟨rfl, hsequence, hprevious⟩ := extension_eq_ok.1 hextension
  exact hdone.snoc hsequence hprevious (identity_eq_ok.1 hidentity)

/-- What `check_body` has made sure of. -/
inductive Carried (request : Request crypto) (body : Body crypto) : Prop
  | stage {s : StageRequest} {tail : Position} {author : Bytes32} (hkind : request.kind = .stage s) (hauthor : request.selection = .author author)
      (htail : checkedTail s.base s.prior = .ok tail) (hnone : body.terminal = none) (hlength : body.history.length = 32)
      (h : Segment request.context.scope author tail body.history s.end_)
  | commit {c : CommitRequest} {tail : Position} {author : Bytes32} {terminal : VerifiedEvent crypto} (hkind : request.kind = .commit c)
      (hauthor : request.selection = .author author) (htail : checkedTail c.base c.stage = .ok tail)
      (hterminal : body.terminal = some terminal) (hlength : body.history.length ≤ 32) (hframe : crypto.sha256 terminal.encode = c.terminalFrame)
      (h : Segment request.context.scope author tail (body.history ++ [terminal]) c.terminal)

theorem Request.author_eq_ok {author : Bytes32} : request.author = .ok author ↔ request.selection = .author author := by
  unfold Request.author
  split
  · rename_i hselection
    rw [hselection, Except.ok.injEq, Selection.author.injEq]
  · rename_i hselection
    rw [hselection]
    exact iff_of_false (fun h => by cases h) fun h => by cases h

theorem Request.checkBody_carried {body : Body crypto} {raw : List UInt8} (h : request.checkBody raw = .ok body) :
    raw = body.encode ∧ Carried request body := by
  simp only [Request.checkBody, bind_eq_ok, Body.decode_eq_ok] at h
  obtain ⟨_, -, _, -, _, -, body', rfl, _, hcheck, he⟩ := h
  cases he
  refine ⟨rfl, ?_⟩
  simp only [Body.check, bind_eq_ok, require_eq_ok, beq_iff_eq, Request.author_eq_ok] at hcheck
  obtain ⟨⟨tail, end_⟩, hspan, author, hauthor, last, hscan, rfl⟩ := hcheck
  have hsegment := Body.check_scan hscan
  unfold Body.span at hspan
  split at hspan
  · rename_i s hkind hnone
    rw [bind_eq_ok] at hspan
    obtain ⟨tail', htail, he⟩ := hspan
    cases he
    rw [hnone, Option.toList_none, List.append_nil] at hsegment
    exact .stage hkind hauthor htail hnone (body.whole hnone) hsegment
  · rename_i c terminal hkind hterminal
    simp only [bind_eq_ok, require_eq_ok, beq_iff_eq] at hspan
    obtain ⟨_, hframe, tail', htail, he⟩ := hspan
    cases he
    rw [hterminal, Option.toList_some] at hsegment
    exact .commit hkind hauthor htail hterminal body.bounded hframe hsegment
  · cases hspan

/-! ### Pages -/

/-- Every entry may come behind the one before it. -/
def Continuing : Option (Entry crypto) → List (Entry crypto) → Prop
  | _, [] => True
  | previous, entry :: rest =>
    (previous.all fun prior => continues prior.role prior.committedBy entry) = true ∧ Continuing (some entry) rest

def Entry.Attributed (entry : Entry crypto) : Prop := entry.committedBy ≠ 0 ∧ entry.registry ≠ zeroBytes

section
variable {author : Bytes32} {scope : Scope} {first last : Position} {previous : Option (Entry crypto)} {entries later : List (Entry crypto)}

theorem Entry.check_eq_ok {entry : Entry crypto} {u : Unit} : entry.check scope (some author) = .ok u ↔
    entry.Attributed ∧ Scope.of entry.event.claims.scope = scope ∧ entry.event.claims.author = author := by
  simp only [Entry.check, bind_eq_ok, require_eq_ok, Bool.and_eq_true, bne_iff_ne, identity_eq_ok, exists_const, Entry.Attributed]

theorem evidenceEntries_eq_ok (hauthor : request.selection = .author author) :
    evidenceEntries request first previous entries = .ok last ↔
      Segment request.context.scope author first (entries.map Entry.event) last ∧ Continuing previous entries ∧
        ∀ entry ∈ entries, entry.Attributed := by
  induction entries generalizing first previous with
  | nil =>
    constructor
    · intro h
      cases h
      exact ⟨.refl, trivial, fun _ he => (List.not_mem_nil he).elim⟩
    · rintro ⟨h, -, -⟩
      rw [evidenceEntries, Segment.unique h .refl]
  | cons entry entries ih =>
    simp only [evidenceEntries, bind_eq_ok, Request.author_eq_ok, Entry.check_eq_ok, extension_eq_ok, require_eq_ok, ih]
    constructor
    · rintro ⟨author', hauthor', _, ⟨hattributed, hown⟩, _, ⟨rfl, hsequence, hprevious⟩, _, hcontinues, hsegment, hrest, hall⟩
      rw [hauthor, Selection.author.injEq] at hauthor'
      subst hauthor'
      exact ⟨.cons hsequence hprevious hown hsegment, ⟨hcontinues, hrest⟩, List.forall_mem_cons.2 ⟨hattributed, hall⟩⟩
    · rintro ⟨hsegment, ⟨hcontinues, hrest⟩, hall⟩
      obtain ⟨hattributed, hall⟩ := List.forall_mem_cons.1 hall
      obtain ⟨hsequence, hprevious, hpath⟩ := hsegment.path
      obtain ⟨hown, howns⟩ := List.forall_mem_cons.1 hsegment.own
      exact ⟨author, hauthor, (), ⟨hattributed, hown⟩, _, ⟨rfl, hsequence, hprevious⟩, (), hcontinues, ⟨hpath, howns⟩, hrest, hall⟩

/-- What an accepted page says: a segment behind the position that was asked for, within the count and the tip. -/
structure Believed (request : Request crypto) (page : EvidencePage crypto) (after : Position) (count : UInt8) (author : Bytes32)
    (last : Position) : Prop where
  selected : request.selection = .author author
  covers : page.observed.covers request = .ok ()
  segment : Segment request.context.scope author after (page.entries.map Entry.event) last
  continuing : Continuing none page.entries
  attributed : ∀ entry ∈ page.entries, entry.Attributed
  count : page.entries.length ≤ count.toNat
  tip : last.sequence ≤ page.tip.sequence
  progress : page.entries = [] → page.tip.sequence ≤ after.sequence
  /-- At the tip stands an admitted terminal, and nothing else. -/
  whole : last.sequence = page.tip.sequence → last = page.tip ∧ ∀ entry, page.entries.getLast? = some entry → entry.role = .currentAdmission

theorem pageLen_eq_ok {after tip : UInt64} {count : UInt8} {len : Nat} (hcount : count.toNat ≤ maxPage) :
    pageLen after tip count len = .ok () ↔ len ≤ count.toNat ∧ after.toNat + len ≤ tip.toNat ∧ (len = 0 → tip ≤ after) := by
  have hsmall : len ≤ count.toNat → toNat (UInt64.ofNat len) = len := fun hlen =>
    toNat_ofNat len (Nat.lt_of_le_of_lt (hlen.trans hcount) (by decide))
  have hadd : len ≤ count.toNat → ((checkedAdd after (UInt64.ofNat len)).any (fun n => decide (n ≤ tip)) = true ↔ after.toNat + len ≤ tip.toNat) := by
    intro hlen
    rw [Option.any_eq_true]
    constructor
    · rintro ⟨n, hn, hle⟩
      rw [checkedAdd_eq_some, hsmall hlen] at hn
      have hle' : n.toNat ≤ tip.toNat := UInt64.le_iff_toNat_le.1 (of_decide_eq_true hle)
      simp only [toNat_uInt64] at hn
      omega
    · intro hle
      have htip := tip.toNat_lt
      refine ⟨UInt64.ofNat (after.toNat + len), ?_, decide_eq_true (UInt64.le_iff_toNat_le.2 ?_)⟩
      · rw [checkedAdd_eq_some, hsmall hlen]
        exact toNat_ofNat (α := UInt64) _ (Nat.lt_of_le_of_lt hle htip)
      · rw [UInt64.toNat_ofNat_of_lt' (Nat.lt_of_le_of_lt hle htip)]
        exact hle
  simp only [pageLen, require_eq_ok, Bool.and_eq_true, decide_eq_true_eq, Bool.not_eq_true', Bool.and_eq_false_iff, beq_eq_false_iff_ne,
    decide_eq_false_iff_not, UInt64.not_lt]
  constructor
  · rintro ⟨⟨⟨hle, hlen⟩, hany⟩, hprogress⟩
    exact ⟨hlen, (hadd hlen).1 hany, fun h => hprogress.resolve_left fun hne => hne h⟩
  · rintro ⟨hlen, hle, hprogress⟩
    refine ⟨⟨⟨UInt64.le_iff_toNat_le.2 (by omega), hlen⟩, (hadd hlen).2 hle⟩, ?_⟩
    by_cases h : len = 0
    · exact .inr (hprogress h)
    · exact .inl h

theorem Request.evidence_selected {after : Position} {count : UInt8} (hkind : request.kind = .evidence after count) :
    ∃ author, request.selection = .author author := by
  have hchecked := request.checked
  simp only [checkRequest, bind_eq_ok] at hchecked
  obtain ⟨_, -, _, -, _, -, _, -, hchecked⟩ := hchecked
  cases hselection : request.selection with
  | author key => exact ⟨key, rfl⟩
  | roomFeed =>
    rw [hselection, hkind] at hchecked
    cases hchecked

theorem EvidencePage.check_eq_ok {page : EvidencePage crypto} {after : Position} {count : UInt8} (hkind : request.kind = .evidence after count)
    (hauthor : request.selection = .author author) :
    page.check request after count = .ok () ↔ ∃ last, Believed request page after count author last := by
  have hcount := (request.count (.inr ⟨after, hkind⟩)).2
  simp only [EvidencePage.check, bind_eq_ok, require_eq_ok, pageLen_eq_ok hcount, evidenceEntries_eq_ok hauthor, Bool.not_eq_true',
    Bool.and_eq_false_iff, Bool.or_eq_false_iff, beq_eq_false_iff_ne, bne_eq_false_iff_eq]
  constructor
  · rintro ⟨_, hcovers, _, ⟨hlen, hle, hprogress⟩, _, -, last, ⟨hsegment, hcontinuing, hattributed⟩, hwhole⟩
    have hlast := hsegment.length
    rw [List.length_map] at hlast
    refine ⟨last, hauthor, hcovers, hsegment, hcontinuing, hattributed, hlen, UInt64.le_iff_toNat_le.2 (by omega), fun hnil => ?_, fun htip => ?_⟩
    · rw [hnil] at hprogress
      exact hprogress rfl
    · obtain ⟨rfl, hrole⟩ := hwhole.resolve_left fun hne => hne htip
      refine ⟨rfl, fun entry hentry => ?_⟩
      rw [hentry, Option.any_some, bne_eq_false_iff_eq] at hrole
      exact hrole
  · rintro ⟨last, h⟩
    have hlast := h.segment.length
    have htip : last.sequence.toNat ≤ page.tip.sequence.toNat := UInt64.le_iff_toNat_le.1 h.tip
    rw [List.length_map] at hlast
    refine ⟨(), h.covers, (), ⟨h.count, by omega, fun hnil => h.progress (List.length_eq_zero_iff.1 hnil)⟩, (), ?_, last,
      ⟨h.segment, h.continuing, h.attributed⟩, ?_⟩
    · by_cases hne : after.sequence = page.tip.sequence
      · have hnil : page.entries = [] := by
          rw [← List.length_eq_zero_iff]
          rw [← hne] at htip
          omega
        have hsame : last = after := by
          have hsegment := h.segment
          rw [hnil] at hsegment
          exact hsegment.unique .refl
        rw [← hsame] at hne ⊢
        exact .inr (h.whole hne).1
      · exact .inl hne
    · by_cases hne : last.sequence = page.tip.sequence
      · obtain ⟨hsame, hrole⟩ := h.whole hne
        refine .inr ⟨hsame, ?_⟩
        cases hentry : page.entries.getLast? with
        | none => rfl
        | some entry => rw [Option.any_some, bne_eq_false_iff_eq, hrole entry hentry]
      · exact .inl hne

end

/-! ### Chains of transactions -/

/-- Ancestors and the terminal that retained them, each with the registry that it was evaluated against. -/
structure Transaction (crypto : Crypto) where
  number : UInt64
  history : List (Bytes32 × VerifiedEvent crypto)
  terminal : Bytes32 × VerifiedEvent crypto

def Transaction.ancestors (transaction : Transaction crypto) : List (Entry crypto) :=
  transaction.history.map fun frame => ⟨.historicalContinuity, transaction.number, frame.1, frame.2⟩

def Transaction.last (transaction : Transaction crypto) : Entry crypto :=
  ⟨.currentAdmission, transaction.number, transaction.terminal.1, transaction.terminal.2⟩

/-- The evidence that a peer keeps. -/
def retained (transactions : List (Transaction crypto)) : List (Entry crypto) :=
  transactions.flatMap fun transaction => transaction.ancestors ++ [transaction.last]

/-- An author's chain, cut into admission transactions of growing numbers. -/
structure Partitioned (scope : Scope) (author : Bytes32) (transactions : List (Transaction crypto)) (tip : Position) : Prop where
  segment : Segment scope author .empty ((retained transactions).map Entry.event) tip
  attributed : ∀ entry ∈ retained transactions, entry.Attributed
  growing : transactions.Pairwise fun a b => a.number < b.number

section
variable {author : Bytes32} {scope : Scope} {tip : Position} {transaction : Transaction crypto} {transactions : List (Transaction crypto)}
  {previous : Option (Entry crypto)} {entries later : List (Entry crypto)}

theorem Continuing.start (h : Continuing previous entries) : Continuing none entries := by
  cases entries with
  | nil => trivial
  | cons entry entries => exact ⟨rfl, h.2⟩

theorem Continuing.drop (h : Continuing previous entries) (n : Nat) : Continuing none (entries.drop n) := by
  induction entries generalizing previous n with
  | nil =>
    rw [List.drop_nil]
    trivial
  | cons entry entries ih =>
    cases n with
    | zero => exact h.start
    | succ n => exact ih h.2 n

theorem Continuing.take (h : Continuing previous entries) (n : Nat) : Continuing previous (entries.take n) := by
  induction entries generalizing previous n with
  | nil =>
    rw [List.take_nil]
    trivial
  | cons entry entries ih =>
    cases n with
    | zero => trivial
    | succ n => exact ⟨h.1, ih h.2 n⟩

theorem Transaction.continuing (hfirst : ∀ entry : Entry crypto, entry.committedBy = transaction.number →
      (previous.all fun prior => continues prior.role prior.committedBy entry) = true)
    (h : Continuing (some transaction.last) later) : Continuing previous (transaction.ancestors ++ [transaction.last] ++ later) := by
  unfold ancestors
  generalize transaction.history = history
  induction history generalizing previous with
  | nil => exact ⟨hfirst _ rfl, h⟩
  | cons frame history ih =>
    refine ⟨hfirst _ rfl, ih fun entry hentry => ?_⟩
    rw [Option.all_some, continues, hentry, beq_self_eq_true]

theorem continuing_retained (h : transactions.Pairwise fun a b => a.number < b.number)
    (hprevious : ∀ prior, previous = some prior → prior.role = .currentAdmission ∧ ∀ t ∈ transactions, prior.committedBy < t.number) :
    Continuing previous (retained transactions) := by
  induction transactions generalizing previous with
  | nil => trivial
  | cons transaction transactions ih =>
    obtain ⟨hless, hrest⟩ := List.pairwise_cons.1 h
    rw [retained, List.flatMap_cons]
    refine Transaction.continuing (fun entry hentry => ?_) (ih hrest fun prior hprior => ?_)
    · cases hp : previous with
      | none => rfl
      | some prior =>
        obtain ⟨hrole, hnumber⟩ := hprevious prior hp
        simp only [Option.all_some, continues, hrole, hentry]
        exact decide_eq_true (hnumber transaction List.mem_cons_self)
    · cases hprior
      exact ⟨rfl, hless⟩

theorem getLast?_retained {entry : Entry crypto} (h : (retained transactions).getLast? = some entry) : entry.role = .currentAdmission := by
  rcases List.eq_nil_or_concat transactions with rfl | ⟨before, transaction, rfl⟩
  · cases h
  · rw [List.concat_eq_append, retained, List.flatMap_append, List.flatMap_singleton, ← List.append_assoc, List.getLast?_concat] at h
    cases h
    rfl

theorem Partitioned.believed (h : Partitioned scope author transactions tip) {after : Position} {count : UInt8} {n : Nat} {observed : Observed}
    (hselected : request.selection = .author author) (hscope : request.context.scope = scope) (hcovers : observed.covers request = .ok ())
    (hcount : count ≠ 0) (hafter : Segment scope author .empty (((retained transactions).take n).map Entry.event) after) :
    ∃ last, Believed request ⟨observed, tip, ((retained transactions).drop n).take count.toNat⟩ after count author last := by
  obtain ⟨rest, hrest⟩ : ∃ rest, rest = (retained transactions).drop n := ⟨_, rfl⟩
  have hsplit : (retained transactions).map Entry.event = ((retained transactions).take n).map Entry.event ++
      ((rest.take count.toNat).map Entry.event ++ (rest.drop count.toNat).map Entry.event) := by
    rw [← List.map_append, List.take_append_drop, hrest, ← List.map_append, List.take_append_drop]
  have hsegment := h.segment
  rw [hsplit] at hsegment
  obtain ⟨after', hfirst, hrests⟩ := hsegment.split
  obtain rfl := hfirst.unique hafter
  obtain ⟨last, hpage, htail⟩ := hrests.split
  have hlast := hpage.length
  have htip := htail.length
  rw [List.length_map] at hlast htip
  have hcontinuing : Continuing none (retained transactions) := continuing_retained h.growing fun prior hp => by cases hp
  have hpositive : 0 < count.toNat := Nat.pos_of_ne_zero fun hz => hcount (UInt8.toNat_inj.1 hz)
  refine ⟨last, hselected, hcovers, hscope ▸ hrest ▸ hpage, ?_, fun entry he => ?_, List.length_take_le _ _, UInt64.le_iff_toNat_le.2 ?_,
    fun hnil => UInt64.le_iff_toNat_le.2 ?_, fun hsame => ?_⟩
  · exact (hcontinuing.drop n).take _
  · exact h.attributed entry (List.mem_of_mem_drop (List.mem_of_mem_take he))
  · show last.sequence.toNat ≤ tip.sequence.toNat
    omega
  · rw [← hrest] at hnil
    have hzero : rest = [] := by
      rw [List.take_eq_nil_iff] at hnil
      exact hnil.resolve_left (Nat.ne_of_gt hpositive)
    show tip.sequence.toNat ≤ after'.sequence.toNat
    rw [hzero] at hlast htip
    simp only [List.take_nil, List.drop_nil, List.length_nil] at hlast htip
    omega
  · have hnone : rest.drop count.toNat = [] := by
      rw [← List.length_eq_zero_iff]
      have hsame' : last.sequence.toNat = tip.sequence.toNat := congrArg UInt64.toNat hsame
      omega
    have hend : last = tip := by
      rw [hnone] at htail
      exact Segment.unique .refl htail
    refine ⟨hend, fun entry hentry => ?_⟩
    have htake : rest.take count.toNat = rest := by
      have happend := List.take_append_drop count.toNat rest
      rwa [hnone, List.append_nil] at happend
    rw [← hrest, htake, hrest] at hentry
    have hwhole : (retained transactions).getLast? = some entry := by
      rw [← List.take_append_drop n (retained transactions), List.getLast?_append, hentry]
      rfl
    exact getLast?_retained hwhole

end

end Valhalla.Continuity

/-!
## The laws of the continuity wire

Positions come from `Position::new` or from verified events (`Position.consistent_of`), so those of a request and of a
reply are consistent.
-/

namespace Valhalla.Continuity
open Fallible FixedWidth Check

/-- What a decoder and an encoder promise each other, and what the checks between them let through. -/
structure Laws (crypto : Crypto) : Prop where
  request : ∀ context selection kind request, Request.new crypto context selection kind = .ok request → kind.Consistent →
    RoundTrips (Request.decode crypto) Request.encode maxRequestBytes request ∧
      RoundTrips (Request.parseTarget crypto) Request.target maxTargetBytes request
  requestBytes : Canonical (Request.decode crypto) Request.encode ∧ Canonical (Request.parseTarget crypto) Request.target
  body : ∀ body : Body crypto, RoundTrips (Body.decode crypto) Body.encode maxBodyBytes body
  bodyBytes : Canonical (Body.decode crypto) Body.encode
  reply : ∀ (request : Request crypto) (reply : Reply crypto), reply.check request = .ok () → reply.Consistent →
    ∃ raw, reply.encode request = .ok raw ∧ raw.length ≤ maxReplyBytes ∧ Reply.decode raw request = .ok reply
  replyBytes : ∀ (request : Request crypto) (reply : Reply crypto) (raw : List UInt8), Reply.decode raw request = .ok reply →
    reply.encode request = .ok raw
  proof : ∀ proof : ResponseProof crypto, proof.statement.request.kind.Consistent →
    RoundTrips (ResponseProof.decode crypto) ResponseProof.encode maxProofBytes proof
  proofBytes : Canonical (ResponseProof.decode crypto) ResponseProof.encode ∧
    Canonical (ResponseProof.fromHex crypto) fun proof => Hex.encode proof.encode
  /-- A stage is the next 32 events, a commit up to 32 and the terminal. -/
  checked : ∀ (request : Request crypto) (raw : List UInt8) (body : Body crypto), request.checkBody raw = .ok body →
    raw = body.encode ∧ Carried request body
  /-- A peer's own page is accepted behind any point of its chain. -/
  honest : ∀ (request : Request crypto) (author : Bytes32) (transactions : List (Transaction crypto)) (tip after : Position) (count : UInt8)
    (n : Nat) (observed : Observed), Partitioned request.context.scope author transactions tip → request.selection = .author author →
    request.kind = .evidence after count → observed.covers request = .ok () →
    Segment request.context.scope author .empty (((retained transactions).take n).map Entry.event) after →
    Reply.check (.evidence ⟨observed, tip, ((retained transactions).drop n).take count.toNat⟩) request = .ok ()
  /-- An accepted page is a segment behind the position that was asked for. -/
  believed : ∀ (request : Request crypto) (page : EvidencePage crypto), Reply.check (.evidence page) request = .ok () →
    ∃ after count author last, request.kind = .evidence after count ∧ Believed request page after count author last
  transcripts : ∀ (peer peer' : Bytes32) (request request' : Request crypto) (body body' : List UInt8) (u u' : UnsignedResponse crypto),
    UnsignedResponse.new peer request body = .ok u → UnsignedResponse.new peer' request' body' = .ok u' →
    request.kind.Consistent → request'.kind.Consistent → (crypto.sha256 body = crypto.sha256 body' → body = body') →
    u.signingBytes = u'.signingBytes → peer = peer' ∧ request = request' ∧ body = body'

section
variable {crypto : Crypto} {request request' : Request crypto} {peer peer' : Bytes32} {body body' : List UInt8}
  {u u' : UnsignedResponse crypto}

theorem UnsignedResponse.new_eq_ok (h : UnsignedResponse.new peer request body = .ok u) :
    u.peer = peer ∧ u.request = request ∧ u.body = crypto.sha256 body := by
  simp only [UnsignedResponse.new, bind_eq_ok] at h
  obtain ⟨statement, hmake, _, -, he⟩ := h
  cases he
  exact UnsignedResponse.make_eq_ok.1 hmake

theorem signingBytes_injective (hkind : u.request.kind.Consistent) (hkind' : u'.request.kind.Consistent)
    (h : u.signingBytes = u'.signingBytes) : u = u' := by
  have hunsigned : u.unsigned = u'.unsigned := List.append_cancel_left h
  have hdecode : ∀ v : UnsignedResponse crypto, v.request.kind.Consistent →
      ResponseProof.decode crypto (v.unsigned ++ (Vector.replicate 64 0 : Signature).toList) = .ok ⟨v, Vector.replicate 64 0⟩ :=
    fun v hv => ResponseProof.decode_eq_ok.2 ⟨rfl, hv⟩
  have heq := hdecode u hkind
  rw [hunsigned, hdecode u' hkind'] at heq
  cases heq
  rfl

end

theorem wire_laws (crypto : Crypto) : Laws crypto where
  request context selection kind request hnew hkind := by
    obtain ⟨rfl, rfl, rfl⟩ := Request.new_eq_ok.1 hnew
    exact ⟨⟨Request.decode_eq_ok.2 ⟨rfl, hkind⟩, request.length_encode_le⟩,
      ⟨Request.parseTarget_eq_ok.2 ⟨rfl, hkind⟩, request.length_target_le⟩⟩
  requestBytes :=
    ⟨fun _ _ h => (Request.decode_eq_ok.1 h).1.symm, fun _ _ h => (Request.parseTarget_eq_ok.1 h).1.symm⟩
  body body := ⟨Body.decode_eq_ok.2 rfl, body.length_encode_le⟩
  bodyBytes _ _ h := (Body.decode_eq_ok.1 h).symm
  reply request reply hcheck hconsistent := by
    have hformed := (Reply.formed (Reply.check_eq_ok.1 hcheck)).2 hconsistent
    exact ⟨replyMagic ++ reply.put, (Reply.encode_eq_ok hconsistent).2 ⟨rfl, hcheck⟩, Reply.length_put_le hformed,
      Reply.decode_eq_ok.2 ⟨rfl, hconsistent, hcheck⟩⟩
  replyBytes request reply raw h := by
    obtain ⟨hraw, hconsistent, hcheck⟩ := Reply.decode_eq_ok.1 h
    exact (Reply.encode_eq_ok hconsistent).2 ⟨hraw, hcheck⟩
  proof proof hkind := ⟨ResponseProof.decode_eq_ok.2 ⟨rfl, hkind⟩, proof.length_encode_le⟩
  proofBytes :=
    ⟨fun _ _ h => (ResponseProof.decode_eq_ok.1 h).1.symm, fun _ _ h => (ResponseProof.fromHex_eq_ok.1 h).1.symm⟩
  checked _ _ _ h := Request.checkBody_carried h
  honest request author transactions tip after count n observed hpartitioned hselected hkind hcovers hafter := by
    have hcount := (request.count (.inr ⟨after, hkind⟩)).1
    refine Reply.check_eq_ok.2 (.evidence hkind ((EvidencePage.check_eq_ok hkind hselected).2 ?_))
    exact hpartitioned.believed hselected rfl hcovers hcount hafter
  believed request page h := by
    cases Reply.check_eq_ok.1 h with
    | @evidence _ after count hkind hpage =>
      obtain ⟨author, hselected⟩ := Request.evidence_selected hkind
      obtain ⟨last, hlast⟩ := (EvidencePage.check_eq_ok hkind hselected).1 hpage
      exact ⟨after, count, author, last, hkind, hlast⟩
  transcripts peer peer' request request' body body' u u' hnew hnew' hkind hkind' hcollision h := by
    obtain ⟨rfl, rfl, hbody⟩ := UnsignedResponse.new_eq_ok hnew
    obtain ⟨rfl, rfl, hbody'⟩ := UnsignedResponse.new_eq_ok hnew'
    obtain rfl := signingBytes_injective hkind hkind' h
    exact ⟨rfl, rfl, hcollision (hbody.symm.trans hbody')⟩

end Valhalla.Continuity
