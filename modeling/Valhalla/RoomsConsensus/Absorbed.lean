import Valhalla.RoomsConsensus.Adapter
import Valhalla.Rooms.Steps
import Valhalla.Social.Union

/-!
# What an absorption journals

The journaled bundle is the absorbed one exactly where the fields that nothing checks are those that the batch determines (`Determined`).
The journal's own invariant then carries an absorbed bundle through whatever a replica does afterwards (`Acts.keeping`).
-/

namespace Valhalla.RoomsConsensus
open Fallible FixedWidth Journal

/-! ### What a batch determines -/

def Batch.establishes (crypto : Crypto) (batch : Batch) : Frontier where
  height := batch.parent.height + 1
  value := batch.valueId crypto
  registry := batch.resultRegistry
  social := batch.resultSocial
  control := batch.resultControl
  time := batch.time

/-- The fields that `absorb` does not check are those that the batch and the policy determine. -/
structure Determined (host : Host) (policy : Rooms.DirectoryPolicy) (batch : Batch) (bundle : Bundle host) : Prop where
  predecessor : bundle.predecessor = batch.parent.commitment host.toCrypto
  next : bundle.next = (batch.establishes host.toCrypto).commitment host.toCrypto
  configuration : bundle.field 5 = some (policy.id host.toCrypto).bytes.toList
  controlRecord : bundle.field 6 = some batch.resultControl.toList
  debitMarker : bundle.field 7 = bundle.field 4

namespace Adapter
variable {host : Host} {adapter adapter' : Adapter host} {bundle journaled : Bundle host} {faults : DecideFaults} {certificate : CommitCertificate}
  {checked : Checked host.toCrypto} {batch : Batch} {d : Disk} {r : Recovered} {verify : List UInt8 → UInt64 → Bytes32 → Bool}

theorem publish_acked (h : publish faults checked adapter = (.acked, adapter')) : adapter'.disk = adapter.disk ∧ adapter'.journal = adapter.journal ∧
    adapter'.app = Application.applyLocally checked := by
  unfold publish at h
  split at h
  · cases h
    exact ⟨rfl, rfl, rfl⟩
  · cases h

theorem validate_ok (h : adapter.app.validate batch = .ok checked) :
    batch.parent = adapter.app.frontier ∧ checked.next = batch.establishes host.toCrypto := by
  simp only [Application.validate, Check.bind_eq_ok, Check.require_eq_ok, beq_iff_eq] at h
  obtain ⟨_, hparent, -, -, -, -, states, -, -, -, hchecked⟩ := h
  cases hchecked
  refine ⟨hparent, ?_⟩
  rw [Application.nextFrontier, Batch.establishes, hparent]

theorem decide_acked (h : decide faults certificate adapter = (.acked, adapter'))
    (hrecover : exec (adapter.journal.recover faults.recover) adapter.disk = (.ok r, d)) (habove : r.pin.height < certificate.height) :
    ∃ batch checked journaled outcome, adapter.pending[certificate.valueCommitment]? = some batch ∧ adapter.app.validate batch = .ok checked ∧
      Bundle.new host (bundleParts adapter.app certificate batch checked.next) = .ok journaled ∧
      exec (adapter.journal.commit faults.commit journaled) d = (.ok outcome, adapter'.disk) ∧ adapter'.journal = adapter.journal ∧
      adapter'.app = Application.applyLocally checked := by
  have hcommitted : exec (committedAt adapter.journal faults certificate) adapter.disk = (.ok none, d) := by
    rw [committedAt, exec_bind_ok hrecover, if_pos habove]
    rfl
  unfold decide at h
  rw [hcommitted] at h
  simp only at h
  split at h
  · cases h
  rename_i batch hbatch
  split at h
  · cases h
  rename_i checked hchecked
  unfold journalBatch at h
  split at h
  · cases h
  rename_i journaled hnew
  split at h
  · rename_i outcome disk hcommit
    obtain ⟨hdisk, hjournal, happ⟩ := publish_acked h
    exact ⟨batch, checked, journaled, outcome, hbatch, hchecked, hnew, hdisk ▸ hcommit, hjournal, happ⟩
  · cases h
  · cases h

theorem absorb_acked (h : absorb verify faults bundle adapter = (.acked, adapter')) : ∃ raw batch, bundle.field 0 = some raw ∧
    bundle.field 3 = some batch.encode ∧ Batch.decode batch.encode = .ok batch ∧ bundle.field 4 = some (batch.valueId host.toCrypto).toList ∧
    decide faults ⟨raw, batch.valueId host.toCrypto, bundle.height⟩ (adapter.hold batch) = (.acked, adapter') := by
  unfold absorb at h
  split at h
  · rename_i raw batchRaw value hraw hbatchRaw hvalue
    split at h
    · rename_i batch valueCommitment hbatch hexactly
      split at h
      · cases h
      rename_i hid
      split at h
      · cases h
      rw [Decidable.not_not] at hid
      obtain rfl := (Batch.decode_eq_ok.1 hbatch).1
      rw [Bundle.exactly_eq_ok.1 hexactly, hid] at hvalue
      rw [hid] at h
      exact ⟨raw, batch, hraw, hbatchRaw, hbatch, hvalue, h⟩
    · cases h
  · cases h

/-- The journaled bundle is the absorbed one where what `absorb` does not check is determined. -/
theorem journaled_eq_iff {raw : List UInt8} (hcertificate : bundle.field 0 = some raw) (hbatch : bundle.field 3 = some batch.encode)
    (hvalue : bundle.field 4 = some (batch.valueId host.toCrypto).toList) (hparent : batch.parent = adapter.app.frontier)
    (hnew : Bundle.new host (bundleParts adapter.app ⟨raw, batch.valueId host.toCrypto, bundle.height⟩ batch (batch.establishes host.toCrypto)) =
      .ok journaled) :
    journaled = bundle ↔ Determined host adapter.app.registry.policy batch bundle := by
  obtain ⟨hfits, hbytes⟩ := Bundle.new_eq_ok.1 hnew
  obtain ⟨parts, hnew'⟩ := bundle.exists_new
  obtain ⟨hfits', hbytes'⟩ := Bundle.new_eq_ok.1 hnew'
  obtain ⟨hp, hn, ht⟩ := Bundle.links_of_new hnew'
  have hfield : ∀ i, bundle.field i = parts.fields[i]? := fun i => Bundle.field_of_bytes hfits' hbytes'
  have h0 : parts.certificate = raw := Option.some.inj ((hfield 0).symm.trans hcertificate)
  have h3 : parts.batch = batch.encode := Option.some.inj ((hfield 3).symm.trans hbatch)
  have h4 : parts.value = (batch.valueId host.toCrypto).toList := Option.some.inj ((hfield 4).symm.trans hvalue)
  have hparts : journaled = bundle ↔
      bundleParts adapter.app ⟨raw, batch.valueId host.toCrypto, bundle.height⟩ batch (batch.establishes host.toCrypto) = parts := by
    constructor
    · rintro rfl
      rw [hbytes] at hbytes'
      exact BundleParts.region_inj hfits hfits' (List.append_cancel_left hbytes')
    · intro he
      refine Bundle.ext_of_bytes ?_
      rw [hbytes, he, hbytes']
  rw [hparts]
  constructor
  · intro he
    refine ⟨?_, ?_, ?_, ?_, ?_⟩
    · rw [hp, ← he, hparent]
      rfl
    · rw [hn, ← he]
      rfl
    · rw [hfield, ← he]
      rfl
    · rw [hfield, ← he]
      rfl
    · rw [hfield, hvalue, ← he]
      rfl
  · intro hd
    have h5 := Option.some.inj ((hfield 5).symm.trans hd.configuration)
    have h6 := Option.some.inj ((hfield 6).symm.trans hd.controlRecord)
    have h7 := Option.some.inj ((hfield 7).symm.trans (hd.debitMarker.trans hvalue))
    have h1 := hp.symm.trans hd.predecessor
    have h2 := hn.symm.trans hd.next
    rw [hparent] at h1
    rw [bundleParts, ← h0, ← h1, ← h2, ← h3, ← h4, ← h5, ht]
    obtain ⟨c, p, n, b, v, g, r, m, t⟩ := parts
    simp only at h6 h7 ⊢
    rw [h6, h7]
    rfl

theorem committedAtHeight_of_stored (hstored : ∃ file, adapter.disk.bundles[bundle.id]? = some file ∧ file.bytes = bundle.bytes)
    (hmarked : ∃ file, adapter.disk.heights[bundle.height]? = some file ∧ file.bytes = bundle.id.toList) :
    adapter.committedAtHeight bundle.height = some bundle := by
  obtain ⟨file, hfile, hbytes⟩ := hstored
  have hread : adapter.disk.readBundle bundle.id = .ok bundle.bytes := Disk.readBundle_eq_ok.2 ⟨file, hfile, hbytes, bundle.len_le⟩
  rw [committedAtHeight, Disk.readHeightMarker_eq_some.2 hmarked]
  show ((bundleAt host adapter.disk.answers bundle.id).toOption.bind fun bundle => bundle) = _
  rw [bundleAt_eq_some.2 ⟨hread, rfl⟩]
  rfl

theorem committedAtHeight_of_commit {journal : Journal host} {faults : Faults} {outcome : Committed}
    (h : exec (journal.commit faults journaled) d = (.ok outcome, adapter'.disk)) :
    adapter'.committedAtHeight journaled.height = some journaled :=
  committedAtHeight_of_stored (commit_stores h).1 (commit_stores h).2

theorem absorb_journals (h : absorb verify faults bundle adapter = (.acked, adapter'))
    (hrecover : exec (adapter.journal.recover faults.recover) adapter.disk = (.ok r, d)) (habove : r.pin.height < bundle.height) :
    ∃ batch journaled outcome, bundle.field 3 = some (Batch.encode batch) ∧ Batch.decode batch.encode = .ok batch ∧ journaled.height = bundle.height ∧
      exec (adapter.journal.commit faults.commit journaled) d = (.ok outcome, adapter'.disk) ∧ adapter'.journal = adapter.journal ∧
      (journaled = bundle ↔ Determined host adapter.app.registry.policy batch bundle) := by
  obtain ⟨raw, batch, hcertificate, hbatch, hdecode, hvalue, hdecide⟩ := absorb_acked h
  obtain ⟨held, checked, journaled, outcome, hheld, hchecked, hnew, hcommit, hjournal, -⟩ := decide_acked hdecide hrecover habove
  have hsame : held = batch := by
    simp only [hold, Maps.getElem?_insert, if_true, Option.some.injEq] at hheld
    exact hheld.symm
  subst hsame
  obtain ⟨hparent, hnext⟩ := validate_ok hchecked
  rw [hnext] at hnew
  exact ⟨held, journaled, outcome, hbatch, hdecode, (Bundle.links_of_new hnew).2.2, hcommit, hjournal,
    journaled_eq_iff hcertificate hbatch hvalue hparent hnew⟩

/-! ### Runs -/

/-- One act of a replica over its directory. The absorptions that it acknowledges above the pin are listed. -/
inductive Acts : Adapter host → List (Bundle host) → Adapter host → Prop
  | hold {adapter : Adapter host} (batch : Batch) : Acts adapter [] (adapter.hold batch)
  | decide {adapter adapter' : Adapter host} {faults : DecideFaults} {certificate : CommitCertificate} {outcome : DecidedOutcome}
      (h : decide faults certificate adapter = (outcome, adapter')) : Acts adapter [] adapter'
  | absorbed {adapter adapter' : Adapter host} {verify : List UInt8 → UInt64 → Bytes32 → Bool} {faults : DecideFaults} {bundle : Bundle host}
      {r : Recovered} {d : Disk} (h : absorb verify faults bundle adapter = (.acked, adapter'))
      (hrecover : exec (adapter.journal.recover faults.recover) adapter.disk = (.ok r, d)) (habove : r.pin.height < bundle.height)
      (hdetermined : ∀ raw batch, bundle.field 3 = some raw → Batch.decode raw = .ok batch →
        Determined host adapter.app.registry.policy batch bundle) :
      Acts adapter [bundle] adapter'
  | passed {adapter adapter' : Adapter host} {verify : List UInt8 → UInt64 → Bytes32 → Bool} {faults : DecideFaults} {bundle : Bundle host}
      {outcome : DecidedOutcome} (h : absorb verify faults bundle adapter = (outcome, adapter'))
      (hpassed : outcome = .acked → ∀ r d, exec (adapter.journal.recover faults.recover) adapter.disk = (.ok r, d) → bundle.height ≤ r.pin.height) :
      Acts adapter [] adapter'
  | restart {adapter : Adapter host} {d : Disk} {app : Application host.toCrypto} (h : d = adapter.disk ∨ PowerLoss adapter.disk d) :
      Acts adapter [] ⟨adapter.journal, d, app, ∅⟩

def Keeping (journal : Journal host) (absorbed : List (Bundle host)) (adapter : Adapter host) : Prop :=
  adapter.journal = journal ∧ ∃ history, Holds journal absorbed adapter.disk history

theorem readHeight_same {faults : Faults} {height : UInt64} :
    wp (readHeight host faults height) (Post (fun _ d' => d' = d) fun _ d' => d' = d) d := by
  rw [readHeight, wp_bind]
  refine wp_ask (fun id _ => ?_) rfl
  cases id with
  | none => exact rfl
  | some id => exact wp_ask (fun _ _ => rfl) rfl

/-- The journal leaves the height open only above the history. -/
theorem committedAt_holds (faults : DecideFaults) (certificate : CommitCertificate) {journal : Journal host} {acked history : List (Bundle host)} (h : Holds journal acked d history) :
    wp (committedAt journal faults certificate) (Post (fun open? d' => Holds journal acked d' history ∧
      (open? = none → history.length < certificate.height.toNat)) fun _ d' => Holds journal acked d' history) d := by
  rw [committedAt, wp_bind]
  refine (recover_holds _ h).post (fun r d' hr => ?_) fun _ _ hd => hd
  obtain ⟨hpin, hholds⟩ := hr
  split
  · rename_i habove
    refine ⟨hholds, fun _ => ?_⟩
    rw [hpin] at habove
    rw [← h.chained.pinOf_height]
    exact UInt64.lt_iff_toNat_lt.1 habove
  · rw [wp_bind]
    refine readHeight_same.post (fun bundle d'' hd => ?_) fun _ _ hd => hd ▸ hholds
    rw [hd]
    exact ⟨hholds, fun he => nomatch he⟩

theorem publish_same (faults : DecideFaults) (checked : Checked host.toCrypto) (adapter : Adapter host) :
    (publish faults checked adapter).2.disk = adapter.disk ∧ (publish faults checked adapter).2.journal = adapter.journal := by
  unfold publish
  split <;> exact ⟨rfl, rfl⟩

theorem reconcileCommitted_same (faults : DecideFaults) (certificate : CommitCertificate) (adapter : Adapter host) :
    (reconcileCommitted faults certificate adapter).2.disk = adapter.disk ∧
    (reconcileCommitted faults certificate adapter).2.journal = adapter.journal := by
  unfold reconcileCommitted
  split
  · exact ⟨rfl, rfl⟩
  · dsimp only
    split
    · exact ⟨rfl, rfl⟩
    · split
      · exact ⟨rfl, rfl⟩
      · exact publish_same _ _ _

theorem journalBatch_keeping {journal : Journal host} {acked history : List (Bundle host)} (hjournal : adapter.journal = journal)
    (h : Holds journal acked adapter.disk history) (hopen : history.length < certificate.height.toNat) :
    Keeping journal acked (journalBatch faults certificate batch checked adapter).2 := by
  subst hjournal
  unfold journalBatch
  split
  · exact ⟨rfl, history, h⟩
  rename_i bundle hnew
  have hfresh : history.length < bundle.height.toNat := by rwa [(Bundle.links_of_new hnew).2.2]
  have hspec := commit_holds faults.commit h (.inr hfresh)
  unfold wp at hspec
  split
  · rename_i hcommit
    rw [hcommit] at hspec
    obtain ⟨history', -, hholds⟩ := hspec
    obtain ⟨hdisk, hsame⟩ := publish_same faults checked { adapter with disk := _ }
    exact ⟨hsame, history', hdisk ▸ hholds.weaken⟩
  · rename_i hcommit
    rw [hcommit] at hspec
    obtain ⟨history', -, hholds⟩ := hspec
    exact ⟨rfl, history', hholds⟩
  · rename_i hcommit
    rw [hcommit] at hspec
    obtain ⟨history', -, hholds⟩ := hspec
    exact ⟨rfl, history', hholds⟩

theorem decide_keeping (faults : DecideFaults) (certificate : CommitCertificate) {journal : Journal host} {acked : List (Bundle host)} (h : Keeping journal acked adapter) :
    Keeping journal acked (decide faults certificate adapter).2 := by
  obtain ⟨rfl, history, h⟩ := h
  have hspec := committedAt_holds faults certificate h
  unfold wp at hspec
  unfold decide
  split
  · rename_i hcommitted
    rw [hcommitted] at hspec
    obtain ⟨hdisk, hsame⟩ := reconcileCommitted_same faults certificate { adapter with disk := _ }
    exact ⟨hsame, history, hdisk ▸ hspec.1⟩
  · rename_i hcommitted
    rw [hcommitted] at hspec
    exact ⟨rfl, history, hspec.1⟩
  · rename_i hcommitted
    rw [hcommitted] at hspec
    exact ⟨rfl, history, hspec⟩
  · rename_i hcommitted
    rw [hcommitted] at hspec
    split
    · exact ⟨rfl, history, hspec.1⟩
    · split
      · exact ⟨rfl, history, hspec.1⟩
      · exact journalBatch_keeping rfl hspec.1 (hspec.2 rfl)

/-- What `absorb` refuses leaves the directory as it is. -/
theorem absorb_keeping (verify : List UInt8 → UInt64 → Bytes32 → Bool) (faults : DecideFaults) (bundle : Bundle host)
    {journal : Journal host} {acked : List (Bundle host)} (h : Keeping journal acked adapter) :
    Keeping journal acked (absorb verify faults bundle adapter).2 := by
  unfold absorb
  split
  · split
    · split
      · exact h
      · split
        · exact h
        · exact decide_keeping _ _ h
    · exact h
  · exact h

theorem Acts.keeping {journal : Journal host} {absorbed listed : List (Bundle host)} (hacts : Acts adapter listed adapter')
    (h : Keeping journal absorbed adapter) : Keeping journal (absorbed ++ listed) adapter' := by
  cases hacts with
  | hold batch =>
    rw [List.append_nil]
    exact h
  | @decide _ faults certificate _ hdecide =>
    have hkept := decide_keeping faults certificate h
    rw [hdecide] at hkept
    rwa [List.append_nil]
  | @absorbed _ verify faults bundle r d habsorb hrecover habove hdetermined =>
    obtain ⟨rfl, history, hholds⟩ := h
    obtain ⟨batch, journaled, outcome, hbatch, hdecode, hheight, hcommit, hjournal, hiff⟩ := absorb_journals habsorb hrecover habove
    obtain rfl := hiff.2 (hdetermined _ batch hbatch hdecode)
    have hspec := recover_holds faults.recover hholds
    unfold wp at hspec
    rw [hrecover] at hspec
    obtain ⟨hpin, hholds'⟩ := hspec
    rw [hpin] at habove
    refine ⟨hjournal, _, commit_extends hholds' hcommit ?_⟩
    rw [← hholds.chained.pinOf_height]
    exact UInt64.lt_iff_toNat_lt.1 habove
  | @passed _ verify faults bundle _ habsorb =>
    have hkept := absorb_keeping verify faults bundle h
    rw [habsorb] at hkept
    rwa [List.append_nil]
  | restart hdisk =>
    obtain ⟨rfl, history, hholds⟩ := h
    rw [List.append_nil]
    rcases hdisk with rfl | hlost
    · exact ⟨rfl, history, hholds⟩
    · obtain ⟨kept, -, hkept⟩ := hholds.powerLoss hlost
      exact ⟨rfl, kept, hkept⟩

theorem Keeping.committedAtHeight {journal : Journal host} {absorbed : List (Bundle host)} (h : Keeping journal absorbed adapter)
    (hb : bundle ∈ absorbed) : adapter.committedAtHeight bundle.height = some bundle := by
  obtain ⟨-, history, hholds⟩ := h
  have hmem := hholds.acked_mem hb
  obtain ⟨file, hfile, hbytes, -⟩ := hholds.stored bundle hmem
  obtain ⟨file', hfile', hbytes', -⟩ := hholds.marked bundle hmem
  exact committedAtHeight_of_stored ⟨file, hfile, hbytes⟩ ⟨file', hfile', hbytes'⟩

theorem decide_determined (h : decide faults certificate adapter = (.acked, adapter'))
    (hrecover : exec (adapter.journal.recover faults.recover) adapter.disk = (.ok r, d)) (habove : r.pin.height < certificate.height)
    (hheld : ∀ batch, adapter.pending[certificate.valueCommitment]? = some batch → batch.valueId host.toCrypto = certificate.valueCommitment) :
    ∃ batch journaled, journaled.field 3 = some (Batch.encode batch) ∧ adapter'.committedAtHeight certificate.height = some journaled ∧
      Determined host adapter.app.registry.policy batch journaled := by
  obtain ⟨batch, checked, journaled, outcome, hbatch, hchecked, hnew, hcommit, -⟩ := decide_acked h hrecover habove
  obtain ⟨hparent, hnext⟩ := validate_ok hchecked
  obtain ⟨raw, value, height⟩ := certificate
  obtain rfl := hheld batch hbatch
  have hheight : journaled.height = height := (Bundle.links_of_new hnew).2.2
  have hstored := committedAtHeight_of_commit hcommit
  rw [hheight] at hstored
  have hfield : ∀ i, journaled.field i = (bundleParts adapter.app ⟨raw, batch.valueId host.toCrypto, height⟩ batch checked.next).fields[i]? :=
    fun i => Bundle.field_of_bytes (Bundle.new_eq_ok.1 hnew).1 (Bundle.new_eq_ok.1 hnew).2
  rw [hnext] at hnew
  rw [← hheight] at hnew
  exact ⟨batch, journaled, hfield 3, hstored, (journaled_eq_iff (hfield 0) (hfield 3) (hfield 4) hparent hnew).1 rfl⟩

end Adapter

/-- An acknowledged absorption above the pin journals the absorbed bytes exactly where what is not checked is determined, as it is in
every bundle of a decision; and a replica whose absorptions are all determined has each of them at its height. -/
theorem absorbed_identical (host : Host) :
    (∀ (verify : List UInt8 → UInt64 → Bytes32 → Bool) (faults : DecideFaults) (bundle : Bundle host) (adapter adapter' : Adapter host)
      (r : Recovered) (d : Disk), adapter.absorb verify faults bundle = (.acked, adapter') →
      exec (adapter.journal.recover faults.recover) adapter.disk = (.ok r, d) → r.pin.height < bundle.height →
      ∃ raw batch journaled, bundle.field 3 = some raw ∧ Batch.decode raw = .ok batch ∧ adapter'.committedAtHeight bundle.height = some journaled ∧
        (journaled.bytes = bundle.bytes ↔ Determined host adapter.app.registry.policy batch bundle)) ∧
    (∀ (faults : DecideFaults) (certificate : CommitCertificate) (adapter adapter' : Adapter host) (r : Recovered) (d : Disk),
      adapter.decide faults certificate = (.acked, adapter') →
      exec (adapter.journal.recover faults.recover) adapter.disk = (.ok r, d) → r.pin.height < certificate.height →
      (∀ batch, adapter.pending[certificate.valueCommitment]? = some batch → batch.valueId host.toCrypto = certificate.valueCommitment) →
      ∃ batch journaled, journaled.field 3 = some (Batch.encode batch) ∧ adapter'.committedAtHeight certificate.height = some journaled ∧
        Determined host adapter.app.registry.policy batch journaled) ∧
    ∀ (adapter adapter' : Adapter host) (absorbed : List (Bundle host)), adapter.disk = Disk.fresh → Steps Adapter.Acts adapter absorbed adapter' →
      ∀ bundle ∈ absorbed, adapter'.committedAtHeight bundle.height = some bundle := by
  refine ⟨fun verify faults bundle adapter adapter' r d h hrecover habove => ?_, fun faults certificate adapter adapter' r d h hrecover habove
    hheld => Adapter.decide_determined h hrecover habove hheld, fun adapter adapter' absorbed hfresh h bundle hb => ?_⟩
  · obtain ⟨batch, journaled, outcome, hbatch, hdecode, hheight, hcommit, -, hiff⟩ := Adapter.absorb_journals h hrecover habove
    refine ⟨_, batch, journaled, hbatch, hdecode, ?_, ?_⟩
    · rw [← hheight]
      exact Adapter.committedAtHeight_of_commit hcommit
    · rw [← hiff]
      exact ⟨Bundle.ext_of_bytes, congrArg Bundle.bytes⟩
  · have hkeeping : Adapter.Keeping adapter.journal absorbed adapter' := by
      refine h.recorded (I := Adapter.Keeping adapter.journal) ⟨rfl, [], ?_⟩ fun _ _ _ _ ih hacts => hacts.keeping ih
      rw [hfresh]
      exact .fresh
    exact hkeeping.committedAtHeight hb

/-! ### One absorption -/

theorem Application.validate_empty {crypto : Crypto} {app : Application crypto} (htime : app.frontier.time = 0) :
    let batch := app.assemble ⟨0, [], [], [], none, none⟩ app.social app.registry
    app.validate batch = .ok ⟨batch, app.social, app.registry, app.nextFrontier batch⟩ := by
  intro batch
  have hbound : app.boundTime 0 = 0 := by rw [Application.boundTime, if_pos htime]
  have hreplay : app.replay 0 ⟨0, [], [], [], none, none⟩ = .ok (app.social, app.registry) := rfl
  simp only [Application.validate, Check.bind_eq_ok, Check.require_eq_ok]
  refine ⟨(), by simp [batch, Application.assemble], (), rfl, (), ?_, (app.social, app.registry), hreplay, (), ?_, rfl⟩
  · show (0 == app.boundTime 0) = true
    rw [hbound]
    rfl
  · simp [batch, Application.assemble]

theorem Batch.decode_empty {batch : Batch} (h : batch.toBatchBody = ⟨0, [], [], [], none, none⟩) : Batch.decode batch.encode = .ok batch := by
  refine Batch.decode_eq_ok.2 ⟨rfl, ?_, ?_⟩
  · rw [h]
    exact ⟨⟨by simp, by simp⟩, ⟨by simp, by simp⟩, by simp, nofun, nofun⟩
  · have hversion : batch.version = .v1 := by rw [h]; rfl
    have hbody : putBody .v1 batch.toBatchBody = List.replicate 16 0 := by rw [h]; decide
    simp [Batch.encode, hversion, putBatch, hbody, batchMagic, length_putFrontier, frontierBytes, maxBatchBytes]

def quiet : DecideFaults := ⟨Journal.quiet, Journal.quiet, Journal.quiet, true⟩

namespace Adapter
variable {host : Host}

/-- A replica before its first batch. -/
def start (host : Host) (app : Application host.toCrypto) : Adapter host where
  journal := ⟨app.frontier.commitment host.toCrypto⟩
  disk := Disk.fresh
  app := app
  pending := ∅

theorem start_recover {app : Application host.toCrypto} : exec ((start host app).journal.recover quiet.recover) (start host app).disk =
    (.ok ⟨(start host app).journal.genesis, [], false, []⟩, Disk.fresh) := rfl

/-- A replica that has nothing yet acknowledges every bundle with its first batch, whatever the other fields say. -/
theorem start_absorb {app : Application host.toCrypto} {bundle journaled : Bundle host} {batch : Batch} {checked : Checked host.toCrypto}
    (hcertificate : bundle.field 0 = some []) (hbatch : bundle.field 3 = some batch.encode)
    (hvalue : bundle.field 4 = some (batch.valueId host.toCrypto).toList) (hheight : bundle.height = 1)
    (hdecode : Batch.decode batch.encode = .ok batch) (hvalid : app.validate batch = .ok checked)
    (hnew : Bundle.new host (bundleParts app ⟨[], batch.valueId host.toCrypto, 1⟩ batch checked.next) = .ok journaled)
    (hid : journaled.id ≠ zero) : ∃ adapter, (start host app).absorb (fun _ _ _ => true) quiet bundle = (.acked, adapter) := by
  have hexactly : Bundle.exactly 32 (batch.valueId host.toCrypto).toList = .ok (batch.valueId host.toCrypto) := Bundle.exactly_eq_ok.2 rfl
  have hcommitted : exec (committedAt (start host app).journal quiet ⟨[], batch.valueId host.toCrypto, 1⟩) Disk.fresh = (.ok none, Disk.fresh) :=
    exec_bind_ok start_recover
  have hheld : ((start host app).hold batch).pending[batch.valueId host.toCrypto]? = some batch := by
    rw [hold, Maps.getElem?_insert, if_pos rfl]
  obtain ⟨hprev, -, hone⟩ := Bundle.links_of_new hnew
  have hcommit : exec ((start host app).journal.commit Journal.quiet journaled) Disk.fresh = (.ok .committed, journaled.firstDisk) :=
    commit_fresh hprev hone hid
  unfold absorb
  rw [hcertificate, hbatch, hvalue]
  simp only [hdecode, hexactly, ne_eq, not_true, if_false, Bool.not_true, Bool.false_eq_true, hheight]
  unfold decide
  rw [show ((start host app).hold batch).disk = Disk.fresh from rfl, show ((start host app).hold batch).journal = (start host app).journal from rfl,
    hcommitted]
  simp only [hheld, show ((start host app).hold batch).app = app from rfl, hvalid]
  unfold journalBatch
  simp only [hnew]
  rw [show quiet.commit = Journal.quiet from rfl, hcommit]
  exact ⟨_, rfl⟩

end Adapter

def sampleApp : Application sampleHost.toCrypto :=
  .genesis ⟨⟨77⟩, Social.sampleLimits, ∅, ∅, fun id record h => by simp at h⟩ (Rooms.sampleRegistry _)

def sampleBatch : Batch := sampleApp.assemble ⟨0, [], [], [], none, none⟩ sampleApp.social sampleApp.registry

def sampleFirst : BundleParts :=
  Adapter.bundleParts sampleApp ⟨[], sampleBatch.valueId sampleHost.toCrypto, 1⟩ sampleBatch (sampleApp.nextFrontier sampleBatch)

theorem sampleBatch_decode : Batch.decode sampleBatch.encode = .ok sampleBatch := Batch.decode_empty rfl

theorem sampleFirst_fits (debitMarker : List UInt8) (h : debitMarker.length ≤ 32) : { sampleFirst with debitMarker }.Fits := by
  have hbatch : sampleBatch.encode.length ≤ maxBatchBytes := (Batch.decode_eq_ok.1 sampleBatch_decode).2.2
  unfold maxBatchBytes at hbatch
  unfold BundleParts.Fits
  simp only [BundleParts.fields, sampleFirst, Adapter.bundleParts, List.forall_mem_cons, Vector.length_toList, List.length_nil, length_toLe]
  refine ⟨by decide, by decide, by decide, ?_, by decide, by decide, by decide, ?_, by decide, by simp⟩
  · unfold maxFieldBytes
    omega
  · unfold maxFieldBytes
    omega

/-- A replica acknowledges the first bundle with whatever debit marker. -/
theorem sampleFirst_absorb (bundle : Bundle sampleHost) (debitMarker : List UInt8) (h : debitMarker.length ≤ 32)
    (hbytes : bundle.bytes = { sampleFirst with debitMarker }.encode) : bundle.height = 1 ∧ bundle.field 7 = some debitMarker ∧
      bundle.field 4 = some (sampleBatch.valueId sampleHost.toCrypto).toList ∧
      ∃ adapter, (Adapter.start sampleHost sampleApp).absorb (fun _ _ _ => true) quiet bundle = (.acked, adapter) := by
  have hfits := sampleFirst_fits debitMarker h
  have hfield : ∀ i, bundle.field i = { sampleFirst with debitMarker }.fields[i]? := fun i => Bundle.field_of_bytes hfits hbytes
  have hheight : bundle.height = 1 := (Bundle.links_of_new (Bundle.new_eq_ok.2 ⟨hfits, hbytes⟩)).2.2
  obtain ⟨journaled, hnew⟩ : ∃ journaled, Bundle.new sampleHost sampleFirst = .ok journaled := by
    have hfirst : sampleFirst.Fits := sampleFirst_fits sampleFirst.debitMarker (by decide)
    exact ⟨⟨_, _, _, _, _, sampleFirst, hfirst, rfl, rfl, rfl, rfl, rfl⟩, Bundle.new_eq_ok.2 ⟨hfirst, rfl⟩⟩
  have hid : journaled.id ≠ zero := by
    obtain ⟨parts, -, -, -, -, hid, -⟩ := journaled.made
    rw [hid]
    exact (by decide : (beVector 32 0xb1bf9dde107b9d84a114a918e5d77f2871873ead185dcd2fb5d92ac892107d1d : Bytes32) ≠ zero)
  exact ⟨hheight, hfield 7, hfield 4, Adapter.start_absorb (hfield 0) (hfield 3) (hfield 4) hheight sampleBatch_decode
    (Application.validate_empty rfl) hnew hid⟩

def sampleSent : Bundle sampleHost where
  predecessor := sampleFirst.predecessor
  next := sampleFirst.next
  height := sampleFirst.height
  id := sampleHost.sha256Parts { sampleFirst with debitMarker := [] }.fields
  bytes := { sampleFirst with debitMarker := [] }.encode
  made := ⟨{ sampleFirst with debitMarker := [] }, sampleFirst_fits [] (Nat.zero_le _), rfl, rfl, rfl, rfl, rfl⟩

/-- The marker is the value, not what was sent. -/
theorem sent_differs : ∃ adapter journaled, (Adapter.start sampleHost sampleApp).absorb (fun _ _ _ => true) quiet sampleSent = (.acked, adapter) ∧
    exec ((Adapter.start sampleHost sampleApp).journal.recover quiet.recover) (Adapter.start sampleHost sampleApp).disk =
      (.ok ⟨(Adapter.start sampleHost sampleApp).journal.genesis, [], false, []⟩, Disk.fresh) ∧
    (Adapter.start sampleHost sampleApp).journal.genesis.height < sampleSent.height ∧
    adapter.committedAtHeight sampleSent.height = some journaled ∧ journaled.bytes ≠ sampleSent.bytes := by
  obtain ⟨hheight, hmarker, hvalue, adapter, habsorb⟩ := sampleFirst_absorb sampleSent [] (Nat.zero_le _) rfl
  have habove : (Adapter.start sampleHost sampleApp).journal.genesis.height < sampleSent.height := by
    rw [hheight]
    exact (by decide : (0 : UInt64) < 1)
  obtain ⟨batch, journaled, outcome, -, -, htheight, hcommit, -, hiff⟩ := Adapter.absorb_journals habsorb Adapter.start_recover habove
  refine ⟨adapter, journaled, habsorb, Adapter.start_recover, habove, ?_, fun hbytes => ?_⟩
  · rw [← htheight]
    exact Adapter.committedAtHeight_of_commit hcommit
  · have hdetermined := (hiff.1 (Bundle.ext_of_bytes hbytes)).debitMarker
    rw [hmarker, hvalue, Option.some.injEq] at hdetermined
    have hlen := congrArg List.length hdetermined
    rw [Vector.length_toList] at hlen
    exact absurd hlen (by decide)

theorem sampleFirst_identical : ∃ (adapter : Adapter sampleHost) (bundle : Bundle sampleHost), bundle.bytes = sampleFirst.encode ∧
    adapter.committedAtHeight bundle.height = some bundle ∧
    (∃ raw batch journaled, bundle.field 3 = some raw ∧ Batch.decode raw = .ok batch ∧ adapter.committedAtHeight bundle.height = some journaled ∧
      (journaled.bytes = bundle.bytes ↔ Determined sampleHost sampleApp.registry.policy batch bundle)) ∧
    ∃ batch journaled, journaled.field 3 = some (Batch.encode batch) ∧ adapter.committedAtHeight bundle.height = some journaled ∧
      Determined sampleHost sampleApp.registry.policy batch journaled := by
  have hfits : sampleFirst.Fits := sampleFirst_fits sampleFirst.debitMarker (by decide)
  obtain ⟨bundle, hbytes⟩ : ∃ bundle : Bundle sampleHost, bundle.bytes = sampleFirst.encode :=
    ⟨⟨_, _, _, _, _, sampleFirst, hfits, rfl, rfl, rfl, rfl, rfl⟩, rfl⟩
  have hnew : Bundle.new sampleHost sampleFirst = .ok bundle := Bundle.new_eq_ok.2 ⟨hfits, hbytes⟩
  obtain ⟨hheight, -, -, adapter, habsorb⟩ := sampleFirst_absorb bundle sampleFirst.debitMarker (by decide) hbytes
  have habove : (Adapter.start sampleHost sampleApp).journal.genesis.height < bundle.height := by
    rw [hheight]
    exact (by decide : (0 : UInt64) < 1)
  obtain ⟨raw, held, -, -, -, -, hdecide⟩ := Adapter.absorb_acked habsorb
  have hdetermined : Determined sampleHost sampleApp.registry.policy sampleBatch bundle := by
    have hfield : ∀ i, bundle.field i = sampleFirst.fields[i]? := fun i => Bundle.field_of_bytes hfits hbytes
    obtain ⟨hp, hn, -⟩ := Bundle.links_of_new hnew
    exact ⟨hp, hn, hfield 5, hfield 6, (hfield 7).trans (hfield 4).symm⟩
  have hbatch : ∀ raw batch, bundle.field 3 = some raw → Batch.decode raw = .ok batch → batch = sampleBatch := by
    rintro raw batch hraw hdecode
    rw [show bundle.field 3 = sampleFirst.fields[3]? from Bundle.field_of_bytes hfits hbytes] at hraw
    obtain rfl := Option.some.inj hraw
    exact (Except.ok.inj (sampleBatch_decode.symm.trans hdecode)).symm
  have hlaws := absorbed_identical sampleHost
  refine ⟨adapter, bundle, hbytes, ?_, ?_, ?_⟩
  · refine hlaws.2.2 (Adapter.start sampleHost sampleApp) adapter [bundle] rfl (.single (.absorbed habsorb Adapter.start_recover habove ?_)) bundle
      (List.mem_singleton.2 rfl)
    rintro raw batch hraw hdecode
    rw [hbatch raw batch hraw hdecode]
    exact hdetermined
  · exact hlaws.1 _ _ _ _ _ _ _ habsorb Adapter.start_recover habove
  · refine hlaws.2.1 _ _ _ _ _ _ hdecide Adapter.start_recover habove fun batch hheld => ?_
    simp only [Adapter.hold, Maps.getElem?_insert, if_true, Option.some.injEq] at hheld
    rw [hheld]

end Valhalla.RoomsConsensus
