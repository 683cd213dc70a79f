import Valhalla.Relay.Durable

/-!
# The same replies from both mailboxes

A call on the list of retained items answers for both mailboxes; from that, every run of them gives the same replies,
leaves the same items at the same positions, and serves them once each to a reader that follows the pages.
-/

namespace Valhalla.Relay.Mailbox
open Check

variable {crypto : Crypto} {scope : RelayNamespace} {limits : Limits} {items : List RelayItem}

/-- A cursor that a signed column can hold. -/
def Call.Within : Call → Prop
  | .page after _ => after.toNat < 2 ^ 63 - 1
  | _ => True

def listCall (crypto : Crypto) (scope : RelayNamespace) (limits : Limits) (items : List RelayItem) : Call → Reply × List RelayItem
  | .put item => (after items (retain crypto scope limits items item)).map .receipt id
  | .page after limit => (.page (view items after.toNat limit), items)
  | .reopen | .upgrade => (.done (.ok ()), items)

/-! ### Runs -/

theorem runCalls_append {σ : Type} (call : σ → Call → Reply × σ) (s : σ) (calls later : List Call) :
    (runCalls call s (calls ++ later)).2 = (runCalls call (runCalls call s calls).2 later).2 := by
  induction calls generalizing s with
  | nil => rfl
  | cons c calls ih => exact ih (call s c).2

theorem runCalls_simulates {σ τ : Type} {f : σ → Call → Reply × σ} {g : τ → Call → Reply × τ} {R : σ → τ → Prop}
    (hstep : ∀ s t c, R s t → c.Within → (f s c).1 = (g t c).1 ∧ R (f s c).2 (g t c).2) {s : σ} {t : τ} (h : R s t)
    {calls : List Call} (hcalls : ∀ c ∈ calls, c.Within) :
    (runCalls f s calls).1 = (runCalls g t calls).1 ∧ R (runCalls f s calls).2 (runCalls g t calls).2 := by
  induction calls generalizing s t with
  | nil => exact ⟨rfl, h⟩
  | cons c calls ih =>
    rw [List.forall_mem_cons] at hcalls
    obtain ⟨hreply, hnext⟩ := hstep s t c h hcalls.1
    obtain ⟨hreplies, hlast⟩ := ih hnext hcalls.2
    refine ⟨?_, hlast⟩
    show (f s c).1 :: _ = (g t c).1 :: _
    rw [hreply, hreplies]

theorem Sound.listCall (h : Sound crypto scope limits items) (c : Call) : Sound crypto scope limits (Mailbox.listCall crypto scope limits items c).2 := by
  cases c with
  | put item =>
    show Sound crypto scope limits (after items (Mailbox.retain crypto scope limits items item)).2
    cases hretain : Mailbox.retain crypto scope limits items item with
    | ok out => exact h.retain hretain
    | error e => exact h
  | page after limit => exact h
  | reopen => exact h
  | upgrade => exact h

theorem prefix_runCalls (crypto : Crypto) (scope : RelayNamespace) (limits : Limits) (items : List RelayItem) (calls : List Call) : items <+: (runCalls (listCall crypto scope limits) items calls).2 := by
  induction calls generalizing items with
  | nil => exact List.prefix_rfl
  | cons c calls ih =>
    refine List.IsPrefix.trans ?_ (ih (listCall crypto scope limits items c).2)
    cases c with
    | put item =>
      show items <+: (after items (retain crypto scope limits items item)).2
      cases hretain : retain crypto scope limits items item with
      | ok out =>
        obtain ⟨-, -, ⟨hsame, -⟩ | ⟨hmore, -⟩⟩ := retain_cases hretain
        · exact ⟨[], (List.append_nil items).trans hsame.symm⟩
        · exact ⟨_, hmore.symm⟩
      | error e => exact List.prefix_rfl
    | page after limit => exact List.prefix_rfl
    | reopen => exact List.prefix_rfl
    | upgrade => exact List.prefix_rfl

theorem Store.Holds.call {store : Store} (h : store.Holds scope limits items) (hs : Sound crypto scope limits items) (hlimits : limits.Durable)
    {c : Call} (hc : c.Within) :
    (store.call crypto c).1 = (listCall crypto scope limits items c).1 ∧
      (store.call crypto c).2.Holds scope limits (listCall crypto scope limits items c).2 := by
  cases c with
  | put item =>
    have hput := h.put hs hlimits item
    dsimp only [Store.call, listCall]
    cases hretain : retain crypto scope limits items item with
    | ok out =>
      rw [hretain] at hput
      obtain ⟨store', hput, hholds⟩ := hput
      rw [hput]
      exact ⟨rfl, hholds⟩
    | error e =>
      rw [hretain] at hput
      rw [show store.put crypto item = .error e from hput]
      exact ⟨rfl, h⟩
  | page after limit => exact ⟨congrArg Reply.page (h.page (hs.length_lt hlimits) hc limit), h⟩
  | reopen => exact ⟨rfl, h⟩
  | upgrade => exact ⟨rfl, h⟩

theorem FileStore.Holds.call {file : FileStore} (h : file.Holds crypto scope limits items) (hs : Sound crypto scope limits items)
    (hlimits : limits.Durable) {c : Call} (hc : c.Within) :
    (file.call crypto c).1 = (listCall crypto scope limits items c).1 ∧
      (file.call crypto c).2.Holds crypto scope limits (listCall crypto scope limits items c).2 := by
  cases c with
  | put item =>
    have hput := h.put hs hlimits item
    dsimp only [FileStore.call, listCall]
    cases hretain : retain crypto scope limits items item with
    | ok out =>
      rw [hretain] at hput
      obtain ⟨file', hput, hholds⟩ := hput
      rw [hput]
      exact ⟨rfl, hholds⟩
    | error e =>
      rw [hretain] at hput
      rw [show file.put crypto item = .error e from hput]
      exact ⟨rfl, h⟩
  | page after limit => exact ⟨congrArg Reply.page (h.page hs (hs.length_lt hlimits) hc limit), h⟩
  | reopen =>
    dsimp only [FileStore.call, listCall]
    rw [h.openDb_eq hs hlimits]
    exact ⟨rfl, h⟩
  | upgrade =>
    obtain ⟨file', hupgrade, hholds⟩ := h.upgrade hs hlimits
    dsimp only [FileStore.call, listCall]
    rw [hupgrade]
    exact ⟨rfl, hholds⟩

theorem runCalls_agree {store : Store} {file : FileStore} (hstore : Store.new scope limits = .ok store)
    (hfile : FileStore.createNew crypto scope limits = .ok file) {calls : List Call} (hcalls : ∀ c ∈ calls, c.Within) :
    (runCalls (FileStore.call crypto) file calls).1 = (runCalls (Store.call crypto) store calls).1 ∧
      (runCalls (FileStore.call crypto) file calls).2.Holds crypto scope limits (runCalls (listCall crypto scope limits) [] calls).2 ∧
      (runCalls (Store.call crypto) store calls).2.Holds scope limits (runCalls (listCall crypto scope limits) [] calls).2 ∧
      Sound crypto scope limits (runCalls (listCall crypto scope limits) [] calls).2 := by
  obtain ⟨hlimits, hholds⟩ := FileStore.createNew_holds hfile
  obtain ⟨hfiles, hfinal⟩ := runCalls_simulates (f := FileStore.call crypto) (g := listCall crypto scope limits)
    (R := fun file items => file.Holds crypto scope limits items ∧ Sound crypto scope limits items)
    (fun file items c h hc => ⟨(h.1.call h.2 hlimits hc).1, (h.1.call h.2 hlimits hc).2, h.2.listCall c⟩) ⟨hholds, .nil⟩ hcalls
  obtain ⟨hstores, hlast⟩ := runCalls_simulates (f := Store.call crypto) (g := listCall crypto scope limits)
    (R := fun store items => store.Holds scope limits items ∧ Sound crypto scope limits items)
    (fun store items c h hc => ⟨(h.1.call h.2 hlimits hc).1, (h.1.call h.2 hlimits hc).2, h.2.listCall c⟩) ⟨Store.new_holds hstore, .nil⟩ hcalls
  exact ⟨hfiles.trans hstores.symm, hfinal.1, hlast.1, hfinal.2⟩

/-- Both mailboxes after the same calls, and whatever is done next. -/
theorem mailboxes_agree {store : Store} {file : FileStore} (hstore : Store.new scope limits = .ok store)
    (hfile : FileStore.createNew crypto scope limits = .ok file) (calls : List Call) (hcalls : ∀ c ∈ calls, c.Within) :
    let (fileReplies, file') := runCalls (FileStore.call crypto) file calls
    let (storeReplies, store') := runCalls (Store.call crypto) store calls
    fileReplies = storeReplies ∧ ∃ items : List RelayItem,
      store'.items.toList = (positioned items).map entryOf ∧ file'.db.items = (positioned items).map (rowOf crypto) ∧
      (positioned items).map (·.position.toNat) = List.range' 1 items.length ∧ (items.map (·.operation)).Nodup ∧
      (∀ record ∈ positioned items,
        file'.put crypto record.item = .ok (⟨record.position, record.item.digest crypto, true⟩, file') ∧
        store'.put crypto record.item = .ok (⟨record.position, record.item.digest crypto, true⟩, store')) ∧
      (∀ later : List Call, (∀ c ∈ later, c.Within) →
        file'.db.items <+: (runCalls (FileStore.call crypto) file (calls ++ later)).2.db.items ∧
        store'.items.toList <+: (runCalls (Store.call crypto) store (calls ++ later)).2.items.toList) ∧
      ∀ limit : UInt64 → Nat, (∀ after, 0 < limit after ∧ limit after ≤ maxRelayPage) → ∀ after : UInt64, after.toNat < 2 ^ 63 - 1 →
        ∀ n, items.length - after.toNat < n →
          (∃ pages, Paging.follow (fun after => (file'.page crypto after (limit after)).map fun page => (page.records, page.next)) n after = some pages ∧
            pages.flatten = (positioned items).drop after.toNat) ∧
          ∃ pages, Paging.follow (fun after => (store'.page after (limit after)).map fun page => (page.records, page.next)) n after = some pages ∧
            pages.flatten = (positioned items).drop after.toNat := by
  obtain ⟨hlimits, -⟩ := FileStore.createNew_holds hfile
  obtain ⟨hreplies, hfileHolds, hstoreHolds, hs⟩ := runCalls_agree hstore hfile hcalls
  have hlength := hs.length_lt hlimits
  have hshort : (runCalls (listCall crypto scope limits) [] calls).2.length < 2 ^ 63 - 1 := by
    have hle := hs.length_le.trans hlimits.items_le
    have hmax : maxRelayItems < 2 ^ 63 - 1 := by decide
    omega
  refine ⟨hreplies, (runCalls (listCall crypto scope limits) [] calls).2, hstoreHolds.entries, hfileHolds.rows, positions_eq hlength, hs.operations,
    fun record hmem => ?_, fun later hlater => ?_, fun limit hlimit after hafter n hn => ?_⟩
  · have hscope := hs.same _ (mem_of_positioned hmem)
    exact ⟨hfileHolds.put_again hscope (hs.find?_eq hmem), hstoreHolds.put_again hscope (hs.find?_eq hmem)⟩
  · have hall : ∀ c ∈ calls ++ later, c.Within := fun c hc => (List.mem_append.1 hc).elim (hcalls c) (hlater c)
    obtain ⟨-, hfileLater, hstoreLater, -⟩ := runCalls_agree hstore hfile hall
    have hpre := positioned_prefix (prefix_runCalls crypto scope limits
      (runCalls (listCall crypto scope limits) [] calls).2 later)
    rw [← runCalls_append] at hpre
    rw [hfileLater.rows, hstoreLater.entries, hfileHolds.rows, hstoreHolds.entries]
    exact ⟨hpre.map _, hpre.map _⟩
  · have hserves := view_serves hlimit hshort
    have hrest : ((positioned (runCalls (listCall crypto scope limits) [] calls).2).drop after.toNat).length < n := by
      rw [List.length_drop, length_positioned]
      exact hn
    have hfilePages := hserves.congr fun after hafter => congrArg (·.map fun page => (page.records, page.next))
      (hfileHolds.page hs hlength hafter (limit after))
    have hstorePages := hserves.congr fun after hafter => congrArg (·.map fun page => (page.records, page.next))
      (hstoreHolds.page hlength hafter (limit after))
    exact ⟨hfilePages.follow hafter hrest, hstorePages.follow hafter hrest⟩

def sampleLimits : Limits := ⟨4, 1024 * 1024⟩

def sampleStore : Store := ⟨sampleScope, sampleLimits, 0, ∅⟩

def sampleFile : FileStore := ⟨⟨⟨2, sampleScope.bytes.toList, 4, 1024 * 1024⟩, [], none⟩, sampleScope, sampleLimits, 2, false⟩

def sampleCalls : List Call := [.put sampleItem, .upgrade, .reopen, .put sampleItem, .page 0 1]

theorem sampleCalls_within : ∀ c ∈ sampleCalls, c.Within := by
  intro c hc
  simp only [sampleCalls, List.mem_cons, List.not_mem_nil, or_false] at hc
  rcases hc with rfl | rfl | rfl | rfl | rfl
  · trivial
  · trivial
  · trivial
  · trivial
  · exact show (0 : Nat) < 2 ^ 63 - 1 by decide

theorem sampleStore_new : Store.new sampleScope sampleLimits = .ok sampleStore := rfl

theorem sampleFile_created : FileStore.createNew sampleCrypto sampleScope sampleLimits = .ok sampleFile := by
  have hlimits : sampleLimits.Durable := ⟨by decide, by decide, by decide, by decide⟩
  have hitems : asI64 sampleLimits.maxItems = some 4 := asI64_natCast (show 4 < 2 ^ 63 by omega)
  have hbytes : asI64 sampleLimits.maxBytes = some (1024 * 1024) := asI64_natCast (show 1024 * 1024 < 2 ^ 63 by omega)
  have hholds : sampleFile.Holds sampleCrypto sampleScope sampleLimits [] :=
    ⟨rfl, rfl, rfl, rfl, .inl rfl, fun h => absurd h (show ¬ 2 = 3 by omega), rfl⟩
  simp only [FileStore.createNew, bind_eq_ok, okOr_eq_ok]
  exact ⟨(), hlimits.check, _, hitems, _, hbytes, (), hholds.validate_eq .nil hlimits, rfl⟩

theorem mailboxes_agree_sample :
    (runCalls (FileStore.call sampleCrypto) sampleFile sampleCalls).1 = (runCalls (Store.call sampleCrypto) sampleStore sampleCalls).1 := by
  have h := mailboxes_agree sampleStore_new sampleFile_created sampleCalls sampleCalls_within
  exact h.1

end Valhalla.Relay.Mailbox
