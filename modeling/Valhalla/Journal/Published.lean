import Valhalla.Journal.Recovery
import Valhalla.Lib.Linked

/-!
# Reading the published history (`read.rs`)

A page is read under one observed `HEAD`. Whatever the store answers, an accepted page is a linked run of bundles from the cursor on,
within the limits of the request and under the observed pin (`Page`, `readPublishedRange_page`): the loop keeps `Filling`.
-/

namespace Valhalla.Journal
open Check FixedWidth

def maxPublishedPageBundles : Nat := 32

def maxPublishedPageBytes : Nat := 2 * 1024 * 1024

structure Answers where
  readPin : Except JournalError (Option (List UInt8))
  readBundle : Bytes32 → Except JournalError (List UInt8)
  readHeightMarker : UInt64 → Except JournalError (Option Bytes32)

def Disk.answers (d : Disk) : Answers := ⟨d.readPin, (d.readBundle ·), (d.readHeightMarker ·)⟩

structure PublishedRange where
  afterHeight : UInt64
  expectedPredecessor : Option Bytes32
  maxBundles : Nat
  maxBytes : Nat

structure PublishedPage (host : Host) where
  head : Pin
  bundles : List (Bundle host)
  bytes : Nat
  nextAfter : UInt64

def PublishedPage.hasMore {host : Host} (page : PublishedPage host) : Bool := page.nextAfter < page.head.height

inductive PublishedReadError
  | limits
  | cursorAhead (requested observed : UInt64)
  | budgetTooSmall (required : Nat)
  | corruptHead
  | missingHeight (height : UInt64)
  | discontinuous (height : UInt64)
  | frontierMismatch (height : UInt64)
  | journal (error : JournalError)
deriving DecidableEq

section
variable {host : Host} (journal : Journal host) (answers : Answers)

/-- `Journal::bundle` -/
def bundleAt (host : Host) (answers : Answers) (id : Bytes32) : Except JournalError (Option (Bundle host)) :=
  match answers.readBundle id with
  | .ok bytes => do
    let bundle ← Bundle.decode host bytes
    if bundle.id ≠ id then .error .corrupt else pure (some bundle)
  | .error .notFound => .ok none
  | .error error => .error error

def publishedTip : Except PublishedReadError (Pin × Option (Bundle host)) := do
  match ← answers.readPin.mapError .journal with
  | none => pure (journal.genesis, none)
  | some raw => do
    let head ← (Pin.decode raw).mapError .journal
    if head.height = 0 then
      if head ≠ journal.genesis then .error .corruptHead else pure (head, none)
    else if head.bundle = zero then .error .corruptHead
    else do
      let marker ← (answers.readHeightMarker head.height).mapError .journal
      require .corruptHead (decide (marker = some head.bundle))
      let found ← (bundleAt host answers head.bundle).mapError .journal
      let tip ← okOr .corruptHead found
      if tip.height ≠ head.height ∨ tip.predecessor ≠ head.predecessor ∨ tip.next ≠ head.next ∨ tip.len > maxBundleBytes then
        .error .corruptHead
      else pure (head, some tip)

def publishedBundle (host : Host) (answers : Answers) (height : UInt64) : Except PublishedReadError (Bundle host) := do
  let marker ← (answers.readHeightMarker height).mapError .journal
  let id ← okOr (.missingHeight height) marker
  let found ← (bundleAt host answers id).mapError .journal
  let bundle ← okOr (.missingHeight height) found
  if bundle.height ≠ height then .error (.discontinuous height) else pure bundle

def nextBundle (head : Pin) (tip : Option (Bundle host)) (height : UInt64) : Except PublishedReadError (Bundle host × Option (Bundle host)) :=
  if height = head.height then do
    let bundle ← okOr .corruptHead tip
    pure (bundle, none)
  else do
    let bundle ← publishedBundle host answers height
    pure (bundle, tip)

def fillPage (request : PublishedRange) :
    Nat → Option (Bundle host) → Option Bytes32 → PublishedPage host → Except PublishedReadError (PublishedPage host)
  | 0, _, _, page => .ok page
  | room + 1, tip, expected, page =>
    if page.nextAfter < page.head.height then do
      let height ← okOr .limits (checkedAdd page.nextAfter 1)
      let (bundle, tip) ← nextBundle answers page.head tip height
      if expected.any (· ≠ bundle.predecessor) then
        .error (if page.bundles = [] then .frontierMismatch height else .discontinuous height)
      else if bundle.len > request.maxBytes - page.bytes then
        (if page.bundles = [] then .error (.budgetTooSmall bundle.len) else .ok page)
      else
        fillPage request room tip (some bundle.next)
          { page with bytes := page.bytes + bundle.len, nextAfter := height, bundles := page.bundles ++ [bundle] }
    else .ok page

def anchor (request : PublishedRange) : Except PublishedReadError (Option Bytes32) :=
  if request.afterHeight = 0 then
    if request.expectedPredecessor.any (· ≠ journal.genesis.next) then .error (.frontierMismatch 1) else .ok (some journal.genesis.next)
  else .ok request.expectedPredecessor

def readPublishedRange (request : PublishedRange) : Except PublishedReadError (PublishedPage host) := do
  if request.maxBundles = 0 ∨ request.maxBundles > maxPublishedPageBundles ∨ request.maxBytes = 0 ∨ request.maxBytes > maxPublishedPageBytes then
    .error .limits
  else do
    let (head, tip) ← publishedTip journal answers
    if request.afterHeight > head.height then .error (.cursorAhead request.afterHeight head.height)
    else do
      let expected ← anchor journal request
      if request.afterHeight = head.height ∧ expected.any (· ≠ head.next) then .error (.frontierMismatch head.height)
      else fillPage answers request request.maxBundles tip expected ⟨head, [], 0, request.afterHeight⟩

end

/-! ### Accepted pages -/

def linking (host : Host) : Linking (Bundle host) Bytes32 := ⟨fun bundle => bundle.height.toNat, Bundle.next, Bundle.predecessor⟩

/-- The bytes of a page. -/
def size {host : Host} (bundles : List (Bundle host)) : Nat := (bundles.map Bundle.len).sum

/-- A contiguous run from the cursor on, under the observed pin and within the limits. -/
structure Page {host : Host} (journal : Journal host) (answers : Answers) (request : PublishedRange) (page : PublishedPage host) : Prop where
  observed : answers.readPin = .ok none ∧ page.head = journal.genesis ∨
    ∃ raw, answers.readPin = .ok (some raw) ∧ Pin.decode raw = .ok page.head
  run : ∃ first last, (∀ frontier ∈ request.expectedPredecessor, first = frontier) ∧
    (request.afterHeight = 0 → first = journal.genesisNext) ∧
    (linking host).Path (request.afterHeight.toNat, first) page.bundles (page.nextAfter.toNat, last)
  below : page.nextAfter ≤ page.head.height
  /-- Where the run reaches the height of the pin it ends in the pinned tip. -/
  tip : page.nextAfter = page.head.height → ∀ bundle, page.bundles.getLast? = some bundle → bundle.pin = page.head
  indexed : ∀ bundle ∈ page.bundles, answers.readHeightMarker bundle.height = .ok (some bundle.id) ∧
    answers.readBundle bundle.id = .ok bundle.bytes
  count : page.bundles.length ≤ request.maxBundles
  total : page.bytes = size page.bundles
  budget : page.bytes ≤ request.maxBytes

section
variable {host : Host} {journal : Journal host} {answers : Answers} {request : PublishedRange} {page page' : PublishedPage host}
  {bundle : Bundle host} {head : Pin} {tip tip' : Option (Bundle host)} {id : Bytes32} {height : UInt64} {expected : Option Bytes32}

theorem bundleAt_eq_some : bundleAt host answers id = .ok (some bundle) ↔ answers.readBundle id = .ok bundle.bytes ∧ bundle.id = id := by
  unfold bundleAt
  cases hread : answers.readBundle id with
  | ok bytes =>
    simp only [bind_eq_ok, Bundle.decode_eq_ok, Except.ok.injEq]
    constructor
    · rintro ⟨found, rfl, h⟩
      split at h
      · cases h
      · rename_i hid
        cases h
        exact ⟨rfl, Decidable.not_not.1 hid⟩
    · rintro ⟨rfl, hid⟩
      exact ⟨bundle, rfl, if_neg (not_not.2 hid)⟩
  | error error =>
    cases error <;> simp

theorem publishedTip_ok (h : publishedTip journal answers = .ok (head, tip)) :
    (answers.readPin = .ok none ∧ head = journal.genesis ∨ ∃ raw, answers.readPin = .ok (some raw) ∧ Pin.decode raw = .ok head) ∧
    ∀ bundle ∈ tip, bundle.pin = head ∧ answers.readHeightMarker bundle.height = .ok (some bundle.id) ∧
      answers.readBundle bundle.id = .ok bundle.bytes := by
  simp only [publishedTip, bind_eq_ok, mapError_eq_ok] at h
  obtain ⟨raw, hraw, h⟩ := h
  cases raw with
  | none =>
    cases h
    exact ⟨.inl ⟨hraw, rfl⟩, fun _ hb => absurd hb (Option.not_mem_none _)⟩
  | some raw =>
    simp only [bind_eq_ok, mapError_eq_ok] at h
    obtain ⟨pin, hpin, h⟩ := h
    split at h
    · split at h
      · cases h
      · cases h
        exact ⟨.inr ⟨raw, hraw, hpin⟩, fun _ hb => absurd hb (Option.not_mem_none _)⟩
    · split at h
      · cases h
      simp only [bind_eq_ok, mapError_eq_ok, require_eq_ok, okOr_eq_ok, decide_eq_true_eq] at h
      obtain ⟨_, hmarker, -, rfl, _, hfound, found, rfl, h⟩ := h
      split at h
      · cases h
      · rename_i hlinks
        cases h
        simp only [not_or, ne_eq, Decidable.not_not] at hlinks
        obtain ⟨hread, hid⟩ := bundleAt_eq_some.1 hfound
        refine ⟨.inr ⟨raw, hraw, hpin⟩, fun bundle hb => ?_⟩
        cases hb
        refine ⟨?_, ?_, ?_⟩
        · rw [Bundle.pin, hid, hlinks.1, hlinks.2.1, hlinks.2.2.1]
        · rw [hlinks.1, hid]
          exact hmarker
        · rw [hid]
          exact hread

theorem publishedBundle_ok (h : publishedBundle host answers height = .ok bundle) :
    bundle.height = height ∧ answers.readHeightMarker height = .ok (some bundle.id) ∧ answers.readBundle bundle.id = .ok bundle.bytes := by
  simp only [publishedBundle, bind_eq_ok, mapError_eq_ok, okOr_eq_ok] at h
  obtain ⟨_, hmarker, id, rfl, _, hfound, found, rfl, h⟩ := h
  split at h
  · cases h
  · rename_i hheight
    cases h
    obtain ⟨hread, rfl⟩ := bundleAt_eq_some.1 hfound
    exact ⟨Decidable.not_not.1 hheight, hmarker, hread⟩

/-- What the loop keeps: a page so far, what the next bundle must extend, and room for more. -/
structure Filling (journal : Journal host) (answers : Answers) (request : PublishedRange) (room : Nat) (expected : Option Bytes32)
    (page : PublishedPage host) : Prop where
  observed : answers.readPin = .ok none ∧ page.head = journal.genesis ∨
    ∃ raw, answers.readPin = .ok (some raw) ∧ Pin.decode raw = .ok page.head
  /-- Nothing is expected of the first bundle, or the run leads to the frontier that is expected. -/
  run : expected = none ∧ request.expectedPredecessor = none ∧ request.afterHeight ≠ 0 ∧ page.bundles = [] ∧
      page.nextAfter = request.afterHeight ∨
    ∃ first frontier, expected = some frontier ∧ (∀ frontier ∈ request.expectedPredecessor, first = frontier) ∧
      (request.afterHeight = 0 → first = journal.genesisNext) ∧
      (linking host).Path (request.afterHeight.toNat, first) page.bundles (page.nextAfter.toNat, frontier)
  below : page.nextAfter ≤ page.head.height
  tip : page.nextAfter = page.head.height → ∀ bundle, page.bundles.getLast? = some bundle → bundle.pin = page.head
  indexed : ∀ bundle ∈ page.bundles, answers.readHeightMarker bundle.height = .ok (some bundle.id) ∧
    answers.readBundle bundle.id = .ok bundle.bytes
  count : page.bundles.length + room ≤ request.maxBundles
  total : page.bytes = size page.bundles
  budget : page.bytes ≤ request.maxBytes

def Tip (answers : Answers) (head : Pin) (tip : Option (Bundle host)) : Prop :=
  ∀ bundle ∈ tip, bundle.pin = head ∧ answers.readHeightMarker bundle.height = .ok (some bundle.id) ∧
    answers.readBundle bundle.id = .ok bundle.bytes

theorem nextBundle_ok (htip : Tip answers head tip) (h : nextBundle answers head tip height = .ok (bundle, tip')) :
    bundle.height = height ∧ answers.readHeightMarker height = .ok (some bundle.id) ∧ answers.readBundle bundle.id = .ok bundle.bytes ∧
      Tip answers head tip' ∧ (height = head.height → bundle.pin = head) := by
  unfold nextBundle at h
  split at h
  · rename_i hheight
    simp only [bind_eq_ok, okOr_eq_ok] at h
    obtain ⟨found, hfound, h⟩ := h
    cases h
    obtain ⟨hpin, hmarker, hread⟩ := htip bundle hfound
    have ht : bundle.height = height := by
      rw [hheight, ← hpin]
      rfl
    rw [ht] at hmarker
    exact ⟨ht, hmarker, hread, fun _ hb => absurd hb (Option.not_mem_none _), fun _ => hpin⟩
  · rename_i hheight
    simp only [bind_eq_ok] at h
    obtain ⟨found, hfound, h⟩ := h
    cases h
    obtain ⟨ht, hmarker, hread⟩ := publishedBundle_ok hfound
    exact ⟨ht, hmarker, hread, htip, fun he => absurd he hheight⟩

variable {room : Nat}

theorem Filling.done (h : Filling journal answers request room expected page) : Page journal answers request page where
  observed := h.observed
  run := by
    rcases h.run with ⟨-, hnone, hne, hnil, hnext⟩ | ⟨first, frontier, -, hfirst, hzero, hpath⟩
    · refine ⟨zero, zero, fun _ hf => ?_, fun h0 => absurd h0 hne, ?_⟩
      · rw [hnone] at hf
        cases hf
      · rw [hnil, hnext]
        rfl
    · exact ⟨first, frontier, hfirst, hzero, hpath⟩
  below := h.below
  tip := h.tip
  indexed := h.indexed
  count := Nat.le_trans (Nat.le_add_right _ _) h.count
  total := h.total
  budget := h.budget

theorem size_append (bundles bundles' : List (Bundle host)) : size (bundles ++ bundles') = size bundles + size bundles' := by
  simp [size]

theorem Filling.push (h : Filling journal answers request (room + 1) expected page) (hlt : page.nextAfter < page.head.height)
    (hheight : checkedAdd page.nextAfter 1 = some height) (ht : bundle.height = height)
    (hmarker : answers.readHeightMarker height = .ok (some bundle.id)) (hread : answers.readBundle bundle.id = .ok bundle.bytes)
    (htip : height = page.head.height → bundle.pin = page.head) (hexpected : ¬ expected.any (· ≠ bundle.predecessor) = true)
    (hfits : ¬ bundle.len > request.maxBytes - page.bytes) :
    Filling journal answers request room (some bundle.next)
      { page with bytes := page.bytes + bundle.len, nextAfter := height, bundles := page.bundles ++ [bundle] } := by
  have hsucc : height.toNat = page.nextAfter.toNat + 1 := checkedAdd_eq_some.1 hheight
  have hlt' : page.nextAfter.toNat < page.head.height.toNat := UInt64.lt_iff_toNat_lt.1 hlt
  have hbudget := h.budget
  refine ⟨h.observed, .inr ?_, ?_, fun he b hb => ?_, fun b hb => ?_, ?_, ?_, ?_⟩
  · have hseq : (linking host).sequence bundle = page.nextAfter.toNat + 1 := by
      rw [← hsucc, ← ht]
      rfl
    have hposition : (linking host).position bundle = (height.toNat, bundle.next) := by rw [← ht]; rfl
    rcases h.run with ⟨-, hnone, hne, hnil, hnext⟩ | ⟨first, frontier, rfl, hfirst, hzero, hpath⟩
    · refine ⟨bundle.predecessor, bundle.next, rfl, fun _ hf => ?_, fun h0 => absurd h0 hne, ?_⟩
      · rw [hnone] at hf
        cases hf
      · rw [hnil, ← hposition, ← hnext]
        exact ⟨hseq, rfl, rfl⟩
    · have hprev : bundle.predecessor = frontier := by
        by_contra hne
        exact hexpected (by simpa using Ne.symm hne)
      refine ⟨first, bundle.next, rfl, hfirst, hzero, ?_⟩
      rw [← hposition]
      exact hpath.snoc hseq hprev
  · exact UInt64.le_iff_toNat_le.2 (by simp only [hsucc]; omega)
  · simp only [List.getLast?_append, List.getLast?_singleton, Option.some_or, Option.some.injEq] at hb
    rw [← hb]
    exact htip he
  · rcases List.mem_append.1 hb with hb | hb
    · exact h.indexed b hb
    · rw [List.mem_singleton] at hb
      subst hb
      rw [ht]
      exact ⟨hmarker, hread⟩
  · have hcount := h.count
    simp only [List.length_append, List.length_singleton]
    omega
  · rw [size_append, ← h.total]
    simp [size]
  · simp only
    omega

theorem fillPage_page (h : Filling journal answers request room expected page) (htip : Tip answers page.head tip)
    (hfill : fillPage answers request room tip expected page = .ok page') : Page journal answers request page' ∧ page'.head = page.head := by
  induction room generalizing tip expected page with
  | zero =>
    cases hfill
    exact ⟨h.done, rfl⟩
  | succ room ih =>
    unfold fillPage at hfill
    split at hfill
    · rename_i hlt
      simp only [bind_eq_ok, okOr_eq_ok] at hfill
      obtain ⟨height, hheight, ⟨bundle, tip'⟩, hnext, hfill⟩ := hfill
      obtain ⟨ht, hmarker, hread, htip', hpin⟩ := nextBundle_ok htip hnext
      split at hfill
      · cases hfill
      rename_i hexpected
      split at hfill
      · split at hfill
        · cases hfill
        · cases hfill
          exact ⟨h.done, rfl⟩
      · rename_i hfits
        have hpush := h.push hlt hheight ht hmarker hread hpin hexpected hfits
        exact @ih ⟨page.head, page.bundles ++ [bundle], page.bytes + bundle.len, height⟩ tip' (some bundle.next) hpush htip' hfill
    · cases hfill
      exact ⟨h.done, rfl⟩

theorem anchor_ok (h : anchor journal request = .ok expected) :
    expected = none ∧ request.expectedPredecessor = none ∧ request.afterHeight ≠ 0 ∨
    ∃ frontier, expected = some frontier ∧ (∀ f ∈ request.expectedPredecessor, frontier = f) ∧
      (request.afterHeight = 0 → frontier = journal.genesisNext) := by
  unfold anchor at h
  split at h
  · rename_i h0
    split at h
    · cases h
    · rename_i hany
      cases h
      refine .inr ⟨_, rfl, fun f hf => ?_, fun _ => rfl⟩
      rw [Option.mem_def] at hf
      rw [hf] at hany
      by_contra hne
      exact hany (by simpa using Ne.symm hne)
  · rename_i h0
    cases h
    cases he : request.expectedPredecessor with
    | none => exact .inl ⟨rfl, rfl, h0⟩
    | some frontier =>
      refine .inr ⟨frontier, rfl, fun f hf => Option.some.inj hf, fun h0' => absurd h0' h0⟩

/-- Every accepted page, whatever the store answers. -/
theorem readPublishedRange_page (h : readPublishedRange journal answers request = .ok page) : Page journal answers request page := by
  unfold readPublishedRange at h
  split at h
  · cases h
  simp only [bind_eq_ok] at h
  obtain ⟨⟨head, tip⟩, htip, h⟩ := h
  split at h
  · cases h
  rename_i hahead
  obtain ⟨expected, hanchor, h⟩ := bind_eq_ok.1 h
  split at h
  · cases h
  obtain ⟨hobserved, htip⟩ := publishedTip_ok htip
  have hempty : Filling journal answers request request.maxBundles expected ⟨head, [], 0, request.afterHeight⟩ := by
    refine ⟨hobserved, ?_, UInt64.not_lt.1 hahead, by simp, by simp, by simp, rfl, Nat.zero_le _⟩
    rcases anchor_ok hanchor with ⟨rfl, hnone, hne⟩ | ⟨frontier, rfl, hfirst, hzero⟩
    · exact .inl ⟨rfl, hnone, hne, rfl, rfl⟩
    · exact .inr ⟨frontier, frontier, rfl, hfirst, hzero, rfl⟩
  exact (fillPage_page hempty htip h).1

end

/-! ### Stores that hold a history -/

def pinOf {host : Host} (journal : Journal host) (history : List (Bundle host)) : Pin := (history.getLast?.map Bundle.pin).getD journal.genesis

def frontierOf {host : Host} (journal : Journal host) (history : List (Bundle host)) : Bytes32 :=
  (history.getLast?.map Bundle.next).getD journal.genesisNext

def Chained {host : Host} (journal : Journal host) (history : List (Bundle host)) : Prop :=
  (linking host).Path (0, journal.genesisNext) history (history.length, frontierOf journal history)

/-- The answers are those of a store that holds the history, and `HEAD` is its pin. -/
structure Serves {host : Host} (journal : Journal host) (answers : Answers) (history : List (Bundle host)) : Prop where
  head : history = [] ∧ answers.readPin = .ok none ∨ history ≠ [] ∧ answers.readPin = .ok (some (pinOf journal history).encode)
  chained : Chained journal history
  nonzero : ∀ bundle ∈ history, bundle.id ≠ zero
  indexed : ∀ bundle ∈ history, answers.readHeightMarker bundle.height = .ok (some bundle.id) ∧
    answers.readBundle bundle.id = .ok bundle.bytes

section
variable {host : Host} {journal : Journal host} {answers : Answers} {history history' : List (Bundle host)} {bundle : Bundle host}
  {height : UInt64} {i c : Nat}

theorem path_position {start : Bytes32} {position : Nat × Bytes32} (h : (linking host).Path (0, start) history position) :
    position = (history.length, (history.getLast?.map Bundle.next).getD start) := by
  have hlen := h.length
  rcases List.eq_nil_or_concat history with rfl | ⟨before, last, rfl⟩
  · exact h.symm
  · rw [List.concat_eq_append] at *
    have hlast := h.last (e := last) (by simp)
    refine Prod.ext (by simpa using hlen) ?_
    rw [← hlast]
    simp [linking, Linking.position]

theorem chained_append : Chained journal (history ++ history') → Chained journal history := by
  intro h
  obtain ⟨position, hpath, -⟩ := Linking.path_append.1 h
  rw [path_position hpath] at hpath
  exact hpath

theorem Chained.snoc (h : Chained journal history) (hheight : bundle.height.toNat = history.length + 1)
    (hprev : bundle.predecessor = frontierOf journal history) : Chained journal (history ++ [bundle]) := by
  have hpath := Linking.Path.snoc (e := bundle) h hheight hprev
  rwa [path_position hpath] at hpath

theorem Chained.getElem (h : Chained journal history) (hi : i < history.length) :
    history[i].height.toNat = i + 1 ∧ history[i].predecessor = frontierOf journal (history.take i) := by
  have hsplit : history = history.take i ++ history[i] :: history.drop (i + 1) := by
    rw [List.getElem_cons_drop, List.take_append_drop]
  rw [Chained, hsplit] at h
  obtain ⟨position, hbefore, hheight, hprev, -⟩ := Linking.path_append.1 h
  have hposition := path_position hbefore
  rw [hposition] at hheight hprev
  refine ⟨?_, hprev⟩
  rw [List.length_take_of_le (Nat.le_of_lt hi)] at hheight
  exact hheight

theorem Chained.height_le (h : Chained journal history) (hb : bundle ∈ history) :
    0 < bundle.height.toNat ∧ bundle.height.toNat ≤ history.length := by
  obtain ⟨i, hi, rfl⟩ := List.mem_iff_getElem.1 hb
  have hheight := (h.getElem hi).1
  omega

theorem frontierOf_take_succ (hc : c < history.length) : frontierOf journal (history.take (c + 1)) = history[c].next := by
  rw [frontierOf, List.take_succ_eq_append_getElem hc, List.getLast?_concat]
  rfl

theorem pinOf_nil : pinOf journal [] = journal.genesis := rfl

theorem pinOf_snoc : pinOf journal (history ++ [bundle]) = bundle.pin := by simp [pinOf]

theorem pinOf_next : (pinOf journal history).next = frontierOf journal history := by
  unfold pinOf frontierOf
  cases history.getLast? <;> rfl

theorem Chained.pinOf_height (h : Chained journal history) : (pinOf journal history).height.toNat = history.length := by
  rcases List.eq_nil_or_concat history with rfl | ⟨before, last, rfl⟩
  · rfl
  · rw [List.concat_eq_append] at *
    have hlast := h.getElem (i := before.length) (by simp)
    rw [pinOf_snoc, List.length_append, List.length_singleton, ← hlast.1]
    simp [Bundle.pin]

namespace Serves

theorem bundleAt (h : Serves journal answers history) (hb : bundle ∈ history) :
    Journal.bundleAt host answers bundle.id = .ok (some bundle) :=
  bundleAt_eq_some.2 ⟨(h.indexed bundle hb).2, rfl⟩

theorem tip (h : Serves journal answers history) : publishedTip journal answers = .ok (pinOf journal history, history.getLast?) := by
  rcases h.head with ⟨rfl, hread⟩ | ⟨hne, hread⟩
  · simp only [publishedTip, bind_eq_ok, mapError_eq_ok]
    exact ⟨none, hread, rfl⟩
  · have hlast := List.getLast?_eq_some_getLast hne
    have hmem := List.getLast_mem hne
    have hpin : pinOf journal history = (history.getLast hne).pin := by rw [pinOf, hlast]; rfl
    have hpos := (h.chained.height_le hmem).1
    rw [hpin] at hread ⊢
    rw [hlast]
    simp only [publishedTip, bind_eq_ok, mapError_eq_ok]
    refine ⟨_, hread, ?_⟩
    simp only [bind_eq_ok, mapError_eq_ok]
    refine ⟨_, Pin.decode_eq_ok.2 rfl, ?_⟩
    have hnonzero : (history.getLast hne).pin.bundle ≠ zero := h.nonzero _ hmem
    rw [if_neg, if_neg hnonzero]
    · simp only [bind_eq_ok, mapError_eq_ok, require_eq_ok, okOr_eq_ok, decide_eq_true_eq]
      refine ⟨_, (h.indexed _ hmem).1, (), rfl, _, h.bundleAt hmem, _, rfl, if_neg ?_⟩
      simp only [Bundle.pin, ne_eq, not_true_eq_false, false_or, not_lt]
      exact Bundle.len_le _
    · intro h0
      have hzero : (history.getLast hne).height = 0 := h0
      rw [hzero] at hpos
      exact absurd hpos (by decide)

theorem publishedBundle (h : Serves journal answers history) (hb : bundle ∈ history) :
    Journal.publishedBundle host answers bundle.height = .ok bundle := by
  simp only [Journal.publishedBundle, bind_eq_ok, mapError_eq_ok, okOr_eq_ok]
  exact ⟨_, (h.indexed _ hb).1, _, rfl, _, h.bundleAt hb, _, rfl, if_neg (by simp)⟩

/-- The bundle after `c` is found, and the tip stays in hand while it is needed. -/
theorem nextBundle (h : Serves journal answers history) (hc : c < history.length) (hheight : height.toNat = c + 1) :
    ∃ tip, Journal.nextBundle answers (pinOf journal history) history.getLast? height = .ok (history[c], tip) ∧
      (c + 1 < history.length → tip = history.getLast?) := by
  have hbundle : history[c].height = height := UInt64.toNat_inj.1 ((h.chained.getElem hc).1.trans hheight.symm)
  have hhead := h.chained.pinOf_height
  unfold Journal.nextBundle
  split
  · rename_i he
    have hlast : c + 1 = history.length := by rw [← hheight, he, hhead]
    refine ⟨none, ?_, fun hlt => by omega⟩
    have hget : history.getLast? = some history[c] := by
      rw [List.getLast?_eq_getElem?, List.getElem?_eq_some_iff]
      exact ⟨by omega, by congr 1; omega⟩
    rw [hget]
    rfl
  · refine ⟨history.getLast?, ?_, fun _ => rfl⟩
    rw [← hbundle, h.publishedBundle (List.getElem_mem hc)]
    rfl

/-- Nothing, or the frontier that the first bundle after `c` extends. -/
def Expects (journal : Journal host) (history : List (Bundle host)) (c : Nat) (expected : Option Bytes32) : Prop :=
  ∀ frontier ∈ expected, frontier = frontierOf journal (history.take c)

theorem fillPage (h : Serves journal answers history) (request : PublishedRange) (room : Nat) (tip : Option (Bundle host))
    (expected : Option Bytes32) (page : PublishedPage host) (hhead : page.head = pinOf journal history) (hc : page.nextAfter.toNat = c)
    (hle : c ≤ history.length) (htip : c < history.length → tip = history.getLast?) (hexpected : Expects journal history c expected)
    (hempty : page.bundles = [] → page.bytes = 0 ∧ ∀ bundle ∈ history.drop c, bundle.len ≤ request.maxBytes) :
    ∃ page' k, Journal.fillPage answers request room tip expected page = .ok page' ∧ page'.head = page.head ∧ page'.bundles = page.bundles ++ (history.drop c).take k ∧
      page'.nextAfter.toNat = c + k ∧ c + k ≤ history.length ∧ (page.bundles = [] → 0 < room → c < history.length → 0 < k) := by
  induction room generalizing tip expected page c with
  | zero => exact ⟨page, 0, rfl, rfl, by simp, hc, hle, fun _ h0 => absurd h0 (Nat.lt_irrefl 0)⟩
  | succ room ih =>
    have hheight : page.head.height.toNat = history.length := by rw [hhead, h.chained.pinOf_height]
    by_cases hlt : c < history.length
    · obtain ⟨height, hsucc⟩ : ∃ height, checkedAdd page.nextAfter 1 = some height := by
        refine checkedAdd_isSome ?_
        have hbound := page.head.height.toNat_lt
        have hone : (1 : UInt64).toNat = 1 := rfl
        simp only [toNat_uInt64, bytes_uInt64, hone]
        omega
      have hnat : height.toNat = c + 1 := by rw [← hc]; exact checkedAdd_eq_some.1 hsucc
      obtain ⟨tip', hnext, htip'⟩ := h.nextBundle hlt hnat
      rw [← hhead, ← htip hlt] at hnext
      have hbelow : page.nextAfter < page.head.height := by rw [UInt64.lt_iff_toNat_lt]; omega
      have hany : ¬ expected.any (· ≠ history[c].predecessor) = true := by
        cases expected with
        | none => simp
        | some frontier => simp [hexpected frontier rfl, (h.chained.getElem hlt).2]
      have hunfold : Journal.fillPage answers request (room + 1) tip expected page =
          if history[c].len > request.maxBytes - page.bytes then
            (if page.bundles = [] then .error (.budgetTooSmall history[c].len) else .ok page)
          else Journal.fillPage answers request room tip' (some history[c].next)
            { page with bytes := page.bytes + history[c].len, nextAfter := height, bundles := page.bundles ++ [history[c]] } := by
        rw [Journal.fillPage, if_pos hbelow, hsucc]
        show (Journal.nextBundle answers page.head tip height >>= _) = _
        rw [hnext]
        exact if_neg hany
      rw [hunfold]
      by_cases hfits : history[c].len > request.maxBytes - page.bytes
      · rw [if_pos hfits, if_neg]
        · refine ⟨page, 0, rfl, rfl, by simp, hc, hle, fun hnil => ?_⟩
          obtain ⟨hzero, hmax⟩ := hempty hnil
          have hfirst := hmax history[c] (by rw [List.mem_drop_iff_getElem]; exact ⟨0, by omega, by simp⟩)
          omega
        · intro hnil
          obtain ⟨hzero, hmax⟩ := hempty hnil
          have hfirst := hmax history[c] (by rw [List.mem_drop_iff_getElem]; exact ⟨0, by omega, by simp⟩)
          omega
      · rw [if_neg hfits]
        obtain ⟨page', k, hfill, hsame, hbundles, hafter, hk, -⟩ := @ih (c + 1) tip' (some history[c].next)
          { page with bytes := page.bytes + history[c].len, nextAfter := height, bundles := page.bundles ++ [history[c]] }
          hhead hnat hlt htip' (fun frontier hf => by rw [frontierOf_take_succ hlt, Option.some.inj hf]) (by simp)
        refine ⟨page', k + 1, hfill, hsame, ?_, by omega, by omega, fun _ _ _ => Nat.succ_pos k⟩
        rw [hbundles, List.drop_eq_getElem_cons hlt, List.take_succ_cons, List.append_assoc]
        rfl
    · refine ⟨page, 0, ?_, rfl, by simp, hc, hle, fun _ _ h' => absurd h' hlt⟩
      rw [Journal.fillPage, if_neg]
      rw [UInt64.lt_iff_toNat_lt]
      omega

end Serves

/-- The limits of a call, and whether it names the frontier that it extends. -/
structure Limits where
  maxBundles : Nat
  maxBytes : Nat
  anchored : Bool

structure Limits.Suffice (limits : Limits) (bundles : List (Bundle host)) : Prop where
  bundles_pos : 0 < limits.maxBundles
  bundles_le : limits.maxBundles ≤ maxPublishedPageBundles
  bytes_pos : 0 < limits.maxBytes
  bytes_le : limits.maxBytes ≤ maxPublishedPageBytes
  largest : ∀ bundle ∈ bundles, bundle.len ≤ limits.maxBytes

def Limits.request (limits : Limits) (after : UInt64) (frontier : Bytes32) : PublishedRange :=
  ⟨after, if limits.anchored then some frontier else none, limits.maxBundles, limits.maxBytes⟩

/-- The `i`-th call and those after it, each from where the one before it ended, until there is no more. -/
def follow (journal : Journal host) (answers : Answers) (limits : Nat → Limits) :
    Nat → Nat → UInt64 → Bytes32 → Except PublishedReadError (List (PublishedPage host))
  | 0, _, _, _ => .ok []
  | calls + 1, i, after, frontier => do
    let page ← readPublishedRange journal answers ((limits i).request after frontier)
    if page.hasMore then do
      let pages ← follow journal answers limits calls (i + 1) page.nextAfter ((page.bundles.getLast?.map Bundle.next).getD frontier)
      pure (page :: pages)
    else pure [page]

namespace Serves
variable {limits : Limits} {after : UInt64} {page : PublishedPage host}

theorem read (h : Serves journal answers history) (hafter : after.toNat = c) (hc : c ≤ history.length)
    (hlimits : limits.Suffice (history.drop c)) :
    ∃ page k, readPublishedRange journal answers (limits.request after (frontierOf journal (history.take c))) = .ok page ∧
      page.head = pinOf journal history ∧ page.bundles = (history.drop c).take k ∧ page.nextAfter.toNat = c + k ∧
      c + k ≤ history.length ∧ (c < history.length → 0 < k) := by
  have hheight := h.chained.pinOf_height
  obtain ⟨expected, hanchor, hexpected⟩ : ∃ expected,
      anchor journal (limits.request after (frontierOf journal (history.take c))) = .ok expected ∧ Expects journal history c expected := by
    have hgiven : Expects journal history c (limits.request after (frontierOf journal (history.take c))).expectedPredecessor := by
      intro frontier hf
      simp only [Limits.request, Option.mem_ite_none_right, Option.mem_some_iff] at hf
      exact hf.2.symm
    unfold anchor
    split
    · rename_i h0
      have hc0 : c = 0 := by
        rw [← hafter, show after = 0 from h0]
        rfl
      subst hc0
      rw [if_neg]
      · exact ⟨_, rfl, fun frontier hf => (Option.some.inj hf).symm⟩
      · cases he : (limits.request after (frontierOf journal (history.take 0))).expectedPredecessor with
        | none => simp
        | some frontier =>
          rw [hgiven frontier he]
          simp [frontierOf, genesis]
    · exact ⟨_, rfl, hgiven⟩
  have hlast : ¬ (after = (pinOf journal history).height ∧ expected.any (· ≠ (pinOf journal history).next) = true) := by
    rintro ⟨hend, hany⟩
    have hcN : c = history.length := by rw [← hafter, hend, hheight]
    cases expected with
    | none => cases hany
    | some frontier =>
      have hfrontier := hexpected frontier rfl
      rw [hcN, List.take_length, ← pinOf_next] at hfrontier
      simp [hfrontier] at hany
  obtain ⟨page, k, hfill, hhead, hbundles, hnext, hk, hpos⟩ := h.fillPage (limits.request after (frontierOf journal (history.take c)))
    limits.maxBundles history.getLast? expected ⟨pinOf journal history, [], 0, after⟩
    rfl hafter hc (fun _ => rfl) hexpected fun _ => ⟨rfl, hlimits.largest⟩
  have hread : readPublishedRange journal answers (limits.request after (frontierOf journal (history.take c))) = .ok page := by
    have h1 := hlimits.bundles_pos
    have h2 := hlimits.bundles_le
    have h3 := hlimits.bytes_pos
    have h4 := hlimits.bytes_le
    unfold readPublishedRange
    rw [if_neg (by simp only [Limits.request]; omega), h.tip]
    show (if after > (pinOf journal history).height then _ else _) = _
    rw [if_neg (by rw [gt_iff_lt, UInt64.lt_iff_toNat_lt]; omega), hanchor]
    exact (if_neg hlast).trans hfill
  exact ⟨page, k, hread, hhead, by simpa using hbundles, hnext, hk, fun hlt => hpos rfl hlimits.bundles_pos hlt⟩

theorem frontierOf_page {k : Nat} :
    (((history.drop c).take k).getLast?.map Bundle.next).getD (frontierOf journal (history.take c)) = frontierOf journal (history.take (c + k)) := by
  unfold frontierOf
  rw [List.take_add, List.getLast?_append]
  cases ((history.drop c).take k).getLast? <;> rfl

theorem follow (h : Serves journal answers history) {limits : Nat → Limits} {calls i : Nat} (hafter : after.toNat = c) (hc : c ≤ history.length)
    (hlimits : ∀ i, (limits i).Suffice (history.drop c)) (hcalls : history.length - c < calls) :
    ∃ pages, Journal.follow journal answers limits calls i after (frontierOf journal (history.take c)) = .ok pages ∧
      pages.flatMap PublishedPage.bundles = history.drop c ∧
      ∀ j page, pages[j]? = some page → page.bundles.length ≤ (limits (i + j)).maxBundles ∧ page.bytes = size page.bundles ∧
        page.bytes ≤ (limits (i + j)).maxBytes ∧ (page.hasMore = true ↔ j + 1 < pages.length) := by
  induction calls generalizing i c after with
  | zero => exact absurd hcalls (Nat.not_lt_zero _)
  | succ calls ih =>
    obtain ⟨page, k, hread, hhead, hbundles, hnext, hk, hpos⟩ := h.read hafter hc (hlimits i)
    have hpage := readPublishedRange_page hread
    have hmore : page.hasMore = true ↔ c + k < history.length := by
      rw [PublishedPage.hasMore, decide_eq_true_eq, UInt64.lt_iff_toNat_lt, hnext, hhead, h.chained.pinOf_height]
    unfold Journal.follow
    rw [hread]
    show ∃ pages, (if page.hasMore then _ else _) = Except.ok pages ∧ _
    by_cases hlt : c + k < history.length
    · have hkpos : 0 < k := hpos (by omega)
      obtain ⟨pages, hfollow, hall, heach⟩ := ih (i := i + 1) hnext hk
        (fun j => ⟨(hlimits j).bundles_pos, (hlimits j).bundles_le, (hlimits j).bytes_pos, (hlimits j).bytes_le, fun b hb =>
          (hlimits j).largest b (List.mem_of_mem_drop (i := k) (by rwa [List.drop_drop]))⟩) (by omega)
      have hne : pages ≠ [] := by
        rintro rfl
        have hlen := congrArg List.length hall
        simp at hlen
        omega
      rw [if_pos (hmore.2 hlt), hbundles, frontierOf_page, hfollow]
      refine ⟨page :: pages, rfl, ?_, fun j page' hj => ?_⟩
      · rw [List.flatMap_cons, hall, hbundles, ← List.drop_drop, List.take_append_drop]
      · cases j with
        | zero =>
          cases hj
          refine ⟨hpage.count, hpage.total, hpage.budget, hmore.trans ⟨fun _ => ?_, fun _ => hlt⟩⟩
          have hlen := List.length_pos_iff.2 hne
          rw [List.length_cons]
          omega
        | succ j =>
          obtain ⟨hcount, htotal, hbudget, hj'⟩ := heach j page' hj
          rw [show i + (j + 1) = i + 1 + j by omega]
          refine ⟨hcount, htotal, hbudget, hj'.trans ?_⟩
          rw [List.length_cons]
          omega
    · have hall : (history.drop c).take k = history.drop c := by
        refine List.take_of_length_le ?_
        rw [List.length_drop]
        omega
      rw [if_neg (by rw [hmore]; exact hlt)]
      refine ⟨[page], rfl, ?_, fun j page' hj => ?_⟩
      · rw [List.flatMap_cons, List.flatMap_nil, List.append_nil, hbundles, hall]
      · cases j with
        | zero =>
          cases hj
          refine ⟨hpage.count, hpage.total, hpage.budget, hmore.trans ⟨fun h' => absurd h' hlt, fun h' => ?_⟩⟩
          rw [List.length_singleton] at h'
          omega
        | succ j => simp at hj

end Serves

end

end Valhalla.Journal
