import Valhalla.Journal.Runs

/-!
# The verdicts of undisturbed calls

After any run, whatever was cut or lost in it, a call that nothing disturbs ends in the one way that the history and the disk allow.
A commit acknowledges the last bundle of the history or takes the next one (`Commits`). A recovery refuses nothing but a temporary pin
that is longer than a pin, and leaves no residue above the history (`Recovers`).
-/

namespace Valhalla.Journal
open Check FixedWidth Fallible

section
variable {host : Host} {journal : Journal host} {acked history : List (Bundle host)} {bundle : Bundle host} {d d' : Disk} {pin : Pin}

def Disk.Admits (d : Disk) (bundle : Bundle host) : Prop := ∀ file, d.bundles[bundle.id]? = some file → file.bytes = bundle.bytes

theorem ask_quiet {α : Type} {step : Step} {answer : Disk → Except JournalError α} {a : α} (h : answer d = .ok a) :
    exec (ask (quiet.fault step) answer) d = (.ok a, d) := exec_ask_eq_ok.2 ⟨rfl, h, rfl⟩

/-! ### Commits -/

theorem readCurrent_quiet (h : Holds journal acked d history) : exec (journal.readCurrent quiet) d = (.ok (pinOf journal history), d) := by
  rw [readCurrent]
  rcases h.head.readPin journal with ⟨rfl, hread⟩ | ⟨-, hread⟩
  · rw [exec_bind_ok (ask_quiet hread)]
    rfl
  · rw [exec_bind_ok (ask_quiet hread)]
    exact exec_examine_eq_ok.2 ⟨Pin.decode_eq_ok.2 rfl, rfl⟩

theorem commit_quiet (h : Holds journal acked d history) : exec (journal.commit quiet bundle) d =
    exec (if (pinOf journal history).bundle = bundle.id then retry quiet (pinOf journal history) bundle
      else publish quiet (pinOf journal history) bundle) d := by
  rw [commit]
  refine (exec_bind_ok (a := ()) rfl).trans ?_
  exact exec_bind_ok (readCurrent_quiet h)

theorem pinOf_of_last (hlast : history.getLast? = some bundle) : pinOf journal history = bundle.pin := by
  rw [pinOf, hlast]
  rfl

theorem retry_quiet (h : Holds journal acked d history) (hlast : history.getLast? = some bundle) :
    exec (retry quiet bundle.pin bundle) d = (.ok .alreadyCommitted, d.syncBundlesDir.syncHeightsDir.syncDir) := by
  have hmem : bundle ∈ history := List.mem_of_getLast? hlast
  obtain ⟨file, hfile, hbytes, -⟩ := h.stored bundle hmem
  obtain ⟨marker, hmarker, hid, -⟩ := h.marked bundle hmem
  have hread : d.readBundle bundle.id = .ok bundle.bytes := Disk.readBundle_eq_ok.2 ⟨file, hfile, hbytes, bundle.len_le⟩
  have hmarked : d.readHeightMarker bundle.pin.height = .ok (some bundle.id) := Disk.readHeightMarker_eq_some.2 ⟨marker, hmarker, hid⟩
  rw [retry, if_neg (by simp [Bundle.pin]), exec_bind_ok (exec_mapErr_eq_ok.2 (ask_quiet hread)), if_neg (by simp),
    exec_bind_ok (ask_quiet hmarked), if_neg (by simp)]
  rfl

theorem create_quiet (bundle : Bundle host) : exec (createBundle quiet bundle.id bundle.bytes) d =
    if d.bundles[bundle.id]?.isSome then (.ok false, d) else (.ok true, d.linkBundle bundle.id bundle.bytes) := by
  have hlen : ¬ bundle.bytes.length > maxBundleBytes := Nat.not_lt.2 bundle.len_le
  rw [createBundle, if_neg hlen, exec_examine_bind]
  cases d.bundles[bundle.id]?.isSome <;> rfl

theorem place_quiet (hadmits : d.Admits bundle) : ∃ d', exec (placeBundle quiet bundle) d = (.ok (), d') := by
  have hcreate := create_quiet (d := d) bundle
  rw [placeBundle]
  cases hd : d.bundles[bundle.id]? with
  | none =>
    rw [hd] at hcreate
    exact ⟨_, exec_bind_ok hcreate⟩
  | some file =>
    have hread : d.readBundle bundle.id = .ok bundle.bytes := Disk.readBundle_eq_ok.2 ⟨file, hd, hadmits file hd, bundle.len_le⟩
    rw [hd] at hcreate
    rw [exec_bind_ok hcreate, if_neg (by decide), exec_bind_ok (ask_quiet hread), if_neg (by simp)]
    exact ⟨_, rfl⟩

theorem admits_of_place (h : exec (placeBundle quiet bundle) d = (.ok (), d')) : d.Admits bundle := by
  intro file hfile
  have hcreate := create_quiet (d := d) bundle
  rw [hfile] at hcreate
  rw [placeBundle, exec_bind_ok hcreate, if_neg (by decide), exec_bind_eq_ok] at h
  obtain ⟨stored, mid, hstored, h⟩ := h
  obtain ⟨-, hread, rfl⟩ := exec_ask_eq_ok.1 hstored
  obtain ⟨file', hfile', rfl, -⟩ := Disk.readBundle_eq_ok.1 hread
  rw [hfile] at hfile'
  cases hfile'
  split at h
  · cases h
  · rename_i hbytes
    exact Decidable.not_not.1 hbytes

theorem publish_quiet : (∃ d', exec (publish quiet pin bundle) d = (.ok .committed, d')) ↔
    pin.next = bundle.predecessor ∧ bundle.height.toNat = pin.height.toNat + 1 ∧ d.Admits bundle := by
  unfold publish
  constructor
  · rintro ⟨d', h⟩
    split at h
    · cases h
    rename_i hnext
    rw [exec_bind_eq_ok] at h
    obtain ⟨expected, mid, hexpected, h⟩ := h
    have hadd : checkedAdd pin.height 1 = some expected := by
      cases hc : checkedAdd pin.height 1 <;> rw [hc] at hexpected <;> cases hexpected
      rfl
    obtain rfl : d = mid := by
      rw [hadd] at hexpected
      cases hexpected
      rfl
    split at h
    · cases h
    rename_i hheight
    rw [exec_bind_eq_ok] at h
    obtain ⟨⟨⟩, placed, hplace, -⟩ := h
    rw [Decidable.not_not] at hnext hheight
    exact ⟨hnext, hheight ▸ checkedAdd_eq_some.1 hadd, admits_of_place hplace⟩
  · rintro ⟨hnext, hheight, hadmits⟩
    obtain ⟨placed, hplace⟩ := place_quiet hadmits
    have hadd : checkedAdd pin.height 1 = some bundle.height := checkedAdd_eq_some.2 hheight
    rw [if_neg (not_not.2 hnext), hadd, Fallible.okOr_some, pure_bind, if_neg (by simp), exec_bind_ok hplace]
    exact ⟨_, rfl⟩

theorem last_of_retained (h : Holds journal acked d history) (hne : bundle.id ≠ zero) (hr : Retains journal d bundle) :
    history.getLast? = some bundle := by
  obtain ⟨stored, hstored, hraw⟩ := hr.stored
  have hhead := h.head
  rcases hr.pin with ⟨-, hgenesis⟩ | ⟨file, hfile, hpin⟩
  · exact absurd (congrArg Pin.bundle hgenesis) hne
  · rw [hfile] at hhead
    cases hhead with
    | @pin _ _ last hlast hbytes hsynced =>
      have hpins : last.pin = bundle.pin := by
        have hdecode := Pin.decode_eq_ok.2 (hbytes.symm.trans hpin)
        rw [Pin.decode_eq_ok.2 rfl] at hdecode
        exact Except.ok.inj hdecode
      have hid : last.id = bundle.id := congrArg Pin.bundle hpins
      obtain ⟨file', hfile', hbytes', -⟩ := h.stored last (List.mem_of_getLast? hlast)
      rw [hid, hstored] at hfile'
      cases hfile'
      rw [hlast, Bundle.ext_of_bytes (hbytes'.symm.trans hraw)]

/-! ### Recoveries -/

theorem recoverPin_quiet (h : Holds journal acked d history) : exec (journal.recoverPin quiet) d = (.ok (pinOf journal history), d) := by
  rw [recoverPin]
  rcases h.head.readPin journal with ⟨rfl, hread⟩ | ⟨hne, hread⟩
  · rw [exec_bind_ok (ask_quiet hread)]
    rfl
  · have hdecode : exec (examine fun _ => Pin.decode (pinOf journal history).encode : Fallible JournalError Disk Pin) d =
        (.ok (pinOf journal history), d) := exec_examine_eq_ok.2 ⟨Pin.decode_eq_ok.2 rfl, rfl⟩
    obtain ⟨last, hlast⟩ : ∃ last, history.getLast? = some last := ⟨_, List.getLast?_eq_some_getLast hne⟩
    obtain ⟨file, hfile, hbytes, -⟩ := h.stored last (List.mem_of_getLast? hlast)
    have hstored : d.readBundle last.pin.bundle = .ok last.bytes := Disk.readBundle_eq_ok.2 ⟨file, hfile, hbytes, last.len_le⟩
    have hcheck : exec (checkBundle host quiet (pinOf journal history)) d = (.ok (), d) := by
      rw [pinOf_of_last hlast, checkBundle]
      split
      · rw [exec_bind_ok (exec_mapErr_eq_ok.2 (ask_quiet hstored)),
          exec_bind_ok (exec_examine_eq_ok.2 ⟨Bundle.decode_eq_ok.2 rfl, rfl⟩), if_neg (by simp [Bundle.pin])]
        rfl
      · rfl
    rw [exec_bind_ok (ask_quiet hread), exec_bind_ok hdecode, exec_bind_ok hcheck]
    rfl

theorem checkMarker_quiet (h : Holds journal acked d history) : exec (checkMarker quiet (pinOf journal history)) d = (.ok (), d) := by
  rcases List.eq_nil_or_concat history with rfl | ⟨before, last, rfl⟩
  · rfl
  · rw [List.concat_eq_append] at *
    obtain ⟨marker, hmarker, hid, -⟩ := h.marked last (by simp)
    have hmarked : d.readHeightMarker last.pin.height = .ok (some last.id) := Disk.readHeightMarker_eq_some.2 ⟨marker, hmarker, hid⟩
    rw [pinOf_snoc, checkMarker]
    split
    · rw [exec_bind_ok (ask_quiet hmarked), if_pos (by simp [Bundle.pin])]
      rfl
    · rfl

theorem drop_quiet (heights dropped : List UInt64) : exec (heights.foldlM (dropHeight quiet pin) dropped) d =
    (.ok (dropped ++ heights.filter (· > pin.height)), (heights.filter (· > pin.height)).foldl (fun d height => d.removeHeightMarker height) d) := by
  induction heights generalizing dropped d with
  | nil => simp
  | cons height heights ih =>
    rw [List.foldlM_cons]
    by_cases habove : height > pin.height
    · have hdrop : exec (dropHeight quiet pin dropped height) d = (.ok (dropped ++ [height]), d.removeHeightMarker height) := by
        rw [dropHeight, if_pos habove]
        rfl
      rw [exec_bind_ok hdrop, ih, List.filter_cons_of_pos (by simpa using habove), List.append_assoc]
      rfl
    · have hkeep : exec (dropHeight quiet pin dropped height) d = (.ok dropped, d) := by
        rw [dropHeight, if_neg habove]
        rfl
      rw [exec_bind_ok hkeep, ih, List.filter_cons_of_neg (by simpa using habove)]

theorem removed_heights (heights : List UInt64) (height : UInt64) :
    (heights.foldl (fun d height => d.removeHeightMarker height) d).headTmp = d.headTmp ∧
      (heights.foldl (fun d height => d.removeHeightMarker height) d).heights[height]? =
        if height ∈ heights then none else d.heights[height]? := by
  induction heights generalizing d with
  | nil => simp
  | cons first heights ih =>
    rw [List.foldl_cons]
    refine ⟨ih.1, ih.2.trans ?_⟩
    rw [Disk.removeHeightMarker, Maps.getElem?_erase]
    by_cases hfirst : first = height <;> by_cases hrest : height ∈ heights <;> simp [hfirst, hrest, Ne.symm]

theorem recover_quiet (h : Holds journal acked d history) (htmp : ∀ file, d.headTmp = some file → file.bytes.length ≤ pinBytes) :
    ∃ r d', exec (journal.recover quiet) d = (.ok r, d') ∧ d'.headTmp = none ∧
      ∀ height : UInt64, history.length < height.toNat → d'.heights[height]? = none := by
  have htmps : ∃ found d₁, exec (dropTmp quiet) d = (.ok found, d₁) ∧ d₁.headTmp = none ∧ d₁.heights = d.heights := by
    rw [dropTmp]
    cases hd : d.headTmp with
    | none =>
      rw [exec_bind_ok (ask_quiet (a := none) (Disk.readOpt_eq_none.2 hd))]
      exact ⟨_, _, rfl, hd, rfl⟩
    | some file =>
      rw [exec_bind_ok (ask_quiet (a := some file.bytes) (Disk.readOpt_eq_some.2 ⟨file, hd, rfl, htmp file hd⟩))]
      exact ⟨_, _, rfl, rfl, rfl⟩
  obtain ⟨found, d₁, hdrop, hnone, hsame⟩ := htmps
  have hlist : exec (ask (quiet.fault .listHeightMarkers) fun d : Disk => .ok d.listHeightMarkers) d₁ = (.ok d₁.listHeightMarkers, d₁) := rfl
  rw [recover, exec_bind_ok (recoverPin_quiet h), exec_bind_ok (checkMarker_quiet h), exec_bind_ok hdrop, exec_bind_ok hlist,
    exec_bind_ok (drop_quiet _ _)]
  refine ⟨_, _, rfl, (removed_heights _ 0).1.trans hnone, ?_⟩
  intro height habove
  have hheights := (removed_heights (d := d₁) (d₁.listHeightMarkers.filter (· > (pinOf journal history).height)) height).2
  have hfree : (if height ∈ d₁.listHeightMarkers.filter (· > (pinOf journal history).height) then none else d₁.heights[height]?) = none := by
    split
    · rfl
    · rename_i hmem
      rw [List.mem_filter, not_and] at hmem
      by_contra hsome
      have hkey : height ∈ d₁.listHeightMarkers := Std.ExtTreeMap.mem_keys.2 (by
        rw [Std.ExtTreeMap.mem_iff_isSome_getElem?]
        exact Option.isSome_iff_ne_none.2 hsome)
      refine hmem hkey ?_
      rw [decide_eq_true_eq, gt_iff_lt, UInt64.lt_iff_toNat_lt, h.chained.pinOf_height]
      exact habove
  show (Std.ExtTreeMap.map _ _)[height]? = none
  rw [Std.ExtTreeMap.getElem?_map, hheights, hfree]
  rfl

theorem tmp_of_recover {r : Recovered} (h : exec (journal.recover quiet) d = (.ok r, d')) :
    ∀ file, d.headTmp = some file → file.bytes.length ≤ pinBytes := by
  intro file hfile
  have hmarker := (recover_ok h).2
  rw [recover, exec_bind_ok (recover_ok h).1, exec_bind_ok hmarker, dropTmp] at h
  simp only [exec_bind_eq_ok, exec_ask_eq_ok] at h
  obtain ⟨-, -, ⟨tmp, _, ⟨-, htmp, -⟩, -⟩, -⟩ := h
  by_contra hlong
  rw [Disk.readPinTmp, hfile, Disk.readOpt, if_neg hlong] at htmp
  cases htmp

/-! ### Every run -/

/-- Recovery after a history, whatever its faults, and one that nothing disturbs. -/
structure Recovers (journal : Journal host) (d : Disk) (history : List (Bundle host)) : Prop where
  pin : ∀ faults r d', exec (journal.recover faults) d = (.ok r, d') → r.pin = pinOf journal history
  returns : (∃ r d', exec (journal.recover quiet) d = (.ok r, d') ∧ d'.headTmp = none ∧
    ∀ height : UInt64, history.length < height.toNat → d'.heights[height]? = none) ↔
      ∀ file, d.headTmp = some file → file.bytes.length ≤ pinBytes

/-- A commit after a history that nothing disturbs. -/
structure Commits (journal : Journal host) (d : Disk) (history : List (Bundle host)) (bundle : Bundle host) : Prop where
  already : (∃ d', exec (journal.commit quiet bundle) d = (.ok .alreadyCommitted, d')) ↔ history.getLast? = some bundle
  taken : (∃ d', exec (journal.commit quiet bundle) d = (.ok .committed, d')) ↔ (pinOf journal history).bundle ≠ bundle.id ∧
    frontierOf journal history = bundle.predecessor ∧ bundle.height.toNat = history.length + 1 ∧ d.Admits bundle
  again : ∀ outcome d', exec (journal.commit quiet bundle) d = (.ok outcome, d') →
    ∃ d'', exec (journal.commit quiet bundle) d' = (.ok .alreadyCommitted, d'')

theorem Holds.recovers (h : Holds journal acked d history) : Recovers journal d history where
  pin faults r d' hexec := by
    have hspec := recover_holds faults h
    unfold wp at hspec
    rw [hexec] at hspec
    exact hspec.1
  returns := by
    constructor
    · rintro ⟨r, d', hexec, -⟩
      exact tmp_of_recover hexec
    · exact recover_quiet h

theorem Holds.retry (h : Holds journal acked d history) (hlast : history.getLast? = some bundle) :
    ∃ d', exec (journal.commit quiet bundle) d = (.ok .alreadyCommitted, d') := by
  have hpin : pinOf journal history = bundle.pin := pinOf_of_last hlast
  rw [commit_quiet h, hpin, if_pos (show bundle.pin.bundle = bundle.id from rfl)]
  exact ⟨_, retry_quiet h hlast⟩

theorem Holds.commits (h : Holds journal acked d history) (hne : bundle.id ≠ zero) : Commits journal d history bundle := by
  have halready : ∀ d', exec (journal.commit quiet bundle) d = (.ok .alreadyCommitted, d') → history.getLast? = some bundle := by
    intro d' hexec
    exact last_of_retained h hne (commit_retained hexec).1
  have htaken : (∃ d', exec (journal.commit quiet bundle) d = (.ok .committed, d')) ↔ (pinOf journal history).bundle ≠ bundle.id ∧
      frontierOf journal history = bundle.predecessor ∧ bundle.height.toNat = history.length + 1 ∧ d.Admits bundle := by
    rw [commit_quiet h, ← pinOf_next, ← h.chained.pinOf_height, ← publish_quiet]
    constructor
    · rintro ⟨d', hexec⟩
      split at hexec
      · rename_i hid
        cases (retry_ok hexec hid).1
      · rename_i hid
        exact ⟨hid, d', hexec⟩
    · rintro ⟨hid, hpublish⟩
      rwa [if_neg hid]
  refine ⟨⟨fun ⟨d', hexec⟩ => halready d' hexec, h.retry⟩, htaken, ?_⟩
  intro outcome d' hexec
  cases outcome with
  | committed =>
    obtain ⟨-, -, hheight, -⟩ := htaken.1 ⟨d', hexec⟩
    exact (commit_extends h hexec (by omega)).retry List.getLast?_concat
  | alreadyCommitted =>
    have hspec := commit_holds quiet h (.inl hne)
    unfold wp at hspec
    rw [hexec] at hspec
    obtain ⟨history', hextends, hholds⟩ := hspec
    rcases hextends with rfl | rfl
    · exact hholds.retry (halready d' hexec)
    · exact hholds.retry List.getLast?_concat

theorem Chained.eq_of_height (h : Chained journal history) {b b' : Bundle host} (hb : b ∈ history) (hb' : b' ∈ history)
    (he : b.height = b'.height) : b = b' := by
  obtain ⟨i, hi, rfl⟩ := List.mem_iff_getElem.1 hb
  obtain ⟨j, hj, rfl⟩ := List.mem_iff_getElem.1 hb'
  have hij : i = j := by
    have hi' := (h.getElem hi).1
    have hj' := (h.getElem hj).1
    rw [he, hj'] at hi'
    omega
  subst hij
  rfl

end

theorem undisturbed_verdicts {host : Host} {journal : Journal host} {notes : List (Note host)} {d : Disk}
    (h : Steps (Moves journal) Disk.fresh notes d) (hids : ∀ note ∈ notes, note.bundle.id ≠ zero) :
    (∀ b ∈ acknowledged notes, ∀ b' ∈ acknowledged notes, b.height = b'.height → b = b') ∧
      ∃ history : List (Bundle host), Chained journal history ∧ (∀ b ∈ acknowledged notes, b ∈ history) ∧
        (∀ b ∈ history, b ∈ notes.map Note.bundle ∧ d.readHeightMarker b.height = .ok (some b.id) ∧
          bundleAt host d.answers b.id = .ok (some b)) ∧
        Recovers journal d history ∧ ∀ bundle, bundle.id ≠ zero → Commits journal d history bundle := by
  obtain ⟨history, hholds, hoffered⟩ := run_recorded h hids
  have hacked : ∀ b ∈ acknowledged notes, b ∈ history := fun b hb => hholds.acked_mem hb
  refine ⟨?_, history, hholds.chained, hacked, ?_, hholds.recovers, fun bundle hne => hholds.commits hne⟩
  · intro b hb b' hb' he
    exact hholds.chained.eq_of_height (hacked b hb) (hacked b' hb') he
  · intro b hb
    have hserves := hholds.serves fun b hb => by
      obtain ⟨note, hnote, rfl⟩ := List.mem_map.1 (hoffered b hb)
      exact hids note hnote
    obtain ⟨hmarker, hread⟩ := hserves.indexed b hb
    exact ⟨hoffered b hb, hmarker, bundleAt_eq_some.2 ⟨hread, rfl⟩⟩

theorem sample_verdicts : ∃ history : List (Bundle sampleHost), sampleBundle ∈ history ∧
    ∀ bundle, bundle.id ≠ zero → Commits sampleJournal sampleBundle.firstDisk history bundle := by
  have hrun : Steps (Moves sampleJournal) Disk.fresh [⟨sampleBundle, .ok .committed⟩] sampleBundle.firstDisk := .single (.commit sample_commit)
  obtain ⟨-, history, -, hacked, -, -, hcommits⟩ := undisturbed_verdicts hrun (by
    intro note hnote
    rw [List.mem_singleton.1 hnote]
    exact sampleBundle_id_ne_zero)
  exact ⟨history, hacked _ (List.mem_singleton.2 rfl), hcommits⟩

end Valhalla.Journal
