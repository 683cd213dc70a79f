import Valhalla.Rooms.Chains
import Valhalla.Social.Heads
import Valhalla.Social.Union

/-!
# The control commitment covers admission

The bytes that `RoomAuthority::snapshot` hashes determine every table that an admission reads, and admission reads
nothing else but the number of retained records.
-/

namespace Valhalla.Rooms
open Fallible FixedWidth Check
open Social (OwnerId AgentId RecordId ControlView OwnerStatus AgentStatus)

variable {crypto : Crypto}

/-! ### Tables -/

def agentRow (s : AgentStatus) : OwnerId × Bytes32 × Bool × Bool := (s.owner, s.key, s.retired, s.active)

def chainRow (c : OwnerChain crypto) : Option RoomRecordId × UInt64 × Std.ExtTreeMap RoomRecordId OpenGrant compare :=
  (c.head, c.sequence, c.grants)

structure SameTables (a a' : RoomAuthority crypto) (view view' : ControlView) : Prop where
  directory : a.directory = a'.directory
  realm : a.realm = a'.realm
  owners : view.owners = view'.owners
  histories : ∀ o : OwnerId, view.ownerHistoryComplete o = view'.ownerHistoryComplete o
  agents : ∀ g : AgentId, view.agents[g]?.map agentRow = view'.agents[g]?.map agentRow
  chains : ∀ o : OwnerId, a.chains[o]?.map chainRow = a'.chains[o]?.map chainRow

/-! ### The bytes determine the tables -/

/-- A row of fixed size: three digests and a byte of flags. -/
abbrev RawRow := Bytes32 × Bytes32 × Bytes32 × UInt8

def putRaw (r : RawRow) : List UInt8 := r.1.toList ++ (r.2.1.toList ++ (r.2.2.1.toList ++ toBe r.2.2.2))

theorem codec_raw : Codec (ε := Unit) (do
    let a ← Reader.array () 32
    let b ← (do
      let b ← Reader.array () 32
      let c ← (do let c ← Reader.array () 32; let d ← Reader.int (); pure (c, d))
      pure (b, c))
    pure (a, b)) putRaw fun _ => True :=
  ((Codec.array () 32).pair ((Codec.array () 32).pair ((Codec.array () 32).pair (Codec.int ())))).congr
    (fun _ => by simp) fun _ _ => rfl

def rawOwner (view : ControlView) (o : OwnerId × OwnerStatus) : RawRow :=
  (o.1.bytes, (o.2.head.map Social.Id.bytes).getD zeroBytes, o.2.key.getD zeroBytes,
    bit o.2.frozen 0 ||| bit o.2.incomplete 1 ||| bit o.2.capacityBlocked 2 ||| bit (!view.ownerHistoryComplete o.1) 3)

theorem putOwnerStatus_eq (view : ControlView) (o : OwnerId × OwnerStatus) : putOwnerStatus view o = putRaw (rawOwner view o) := by
  simp only [putOwnerStatus, putRaw, rawOwner, orZero, toBe_uInt8]

def rawAgent (g : AgentId × AgentStatus) : RawRow :=
  (g.1.bytes, g.2.owner.bytes, g.2.key, bit g.2.retired 0 ||| bit g.2.active 1)

theorem putAgentStatus_eq (g : AgentId × AgentStatus) : putAgentStatus g = putRaw (rawAgent g) := by
  simp only [putAgentStatus, putRaw, rawAgent, toBe_uInt8]

theorem flags_inj {a b c d a' b' c' d' : Bool}
    (h : bit a 0 ||| bit b 1 ||| bit c 2 ||| bit d 3 = bit a' 0 ||| bit b' 1 ||| bit c' 2 ||| bit d' 3) :
    a = a' ∧ b = b' ∧ c = c' ∧ d = d' := by
  revert a b c d a' b' c' d'
  decide

theorem agentFlags_inj {a b a' b' : Bool} (h : bit a 0 ||| bit b 1 = bit a' 0 ||| bit b' 1) : a = a' ∧ b = b' := by
  revert a b a' b'
  decide

theorem getD_inj {α : Type} {o o' : Option α} {d : α} (hnone : o = none ↔ o' = none) (h : o.getD d = o'.getD d) : o = o' := by
  cases o with
  | none => rw [hnone.1 rfl]
  | some a =>
    cases o' with
    | none => exact absurd (hnone.2 rfl) (Option.some_ne_none a)
    | some b => exact congrArg some h

theorem map_bytes_inj {kind : Social.IdKind} {o o' : Option (Social.Id kind)} (h : o.map Social.Id.bytes = o'.map Social.Id.bytes) :
    o = o' := by
  refine Option.map_injective (fun a b hab => ?_) h
  cases a
  cases b
  exact congrArg Social.Id.mk hab

theorem rawOwner_inj {e e' : Social.Evidence} {view view' : ControlView} (hv : Social.HeadsSound e view)
    (hv' : Social.HeadsSound e' view') {o o' : OwnerId × OwnerStatus} (ho : view.owners[o.1]? = some o.2)
    (ho' : view'.owners[o'.1]? = some o'.2) (h : rawOwner view o = rawOwner view' o') :
    o = o' ∧ view.ownerHistoryComplete o.1 = view'.ownerHistoryComplete o.1 := by
  obtain ⟨⟨id⟩, head, key, frozen, incomplete, capacityBlocked⟩ := o
  obtain ⟨⟨id'⟩, head', key', frozen', incomplete', capacityBlocked'⟩ := o'
  simp only [rawOwner, Prod.mk.injEq] at h
  obtain ⟨rfl, hhead, hkey, hflags⟩ := h
  obtain ⟨rfl, rfl, rfl, hhistory⟩ := flags_inj hflags
  have hnone : head = none ↔ head' = none := (hv.head _ _ ho).trans (hv'.head _ _ ho').symm
  have hbytes : head.map Social.Id.bytes = head'.map Social.Id.bytes := getD_inj (by simpa using hnone) hhead
  obtain rfl := map_bytes_inj hbytes
  obtain rfl : key = key' := getD_inj ((hv.key _ _ ho).trans (hv'.key _ _ ho').symm) hkey
  exact ⟨rfl, by simpa using hhistory⟩

theorem rawAgent_inj {g g' : AgentId × AgentStatus} (h : rawAgent g = rawAgent g') : (g.1, agentRow g.2) = (g'.1, agentRow g'.2) := by
  obtain ⟨⟨id⟩, ⟨owner⟩, key, retired, active, grants⟩ := g
  obtain ⟨⟨id'⟩, ⟨owner'⟩, key', retired', active', grants'⟩ := g'
  simp only [rawAgent, Prod.mk.injEq] at h
  obtain ⟨rfl, rfl, rfl, hflags⟩ := h
  obtain ⟨rfl, rfl⟩ := agentFlags_inj hflags
  rfl

abbrev RawGrant := Bytes32 × Bytes32 × Bytes32 × UInt64 × UInt64

def putRawGrant (g : RawGrant) : List UInt8 :=
  g.1.toList ++ (g.2.1.toList ++ (g.2.2.1.toList ++ (toBe g.2.2.2.1 ++ toBe g.2.2.2.2)))

theorem codec_rawGrant : Codec (ε := Unit) (do
    let a ← Reader.array () 32
    let b ← (do
      let b ← Reader.array () 32
      let c ← (do
        let c ← Reader.array () 32
        let d ← (do let d ← Reader.int (); let e ← Reader.int (); pure (d, e))
        pure (c, d))
      pure (b, c))
    pure (a, b)) putRawGrant fun _ => True :=
  ((Codec.array () 32).pair ((Codec.array () 32).pair ((Codec.array () 32).pair ((Codec.int ()).pair (Codec.int ()))))).congr
    (fun _ => by simp) fun _ _ => rfl

def rawGrant (g : RoomRecordId × OpenGrant) : RawGrant :=
  (g.1.bytes, g.2.agent.bytes, g.2.agentKey, g.2.expiresAt, g.2.maximumCharge)

theorem rawGrant_inj {g g' : RoomRecordId × OpenGrant} (h : rawGrant g = rawGrant g') : g = g' := by
  obtain ⟨⟨id⟩, ⟨agent⟩, key, expiresAt, maximumCharge⟩ := g
  obtain ⟨⟨id'⟩, ⟨agent'⟩, key', expiresAt', maximumCharge'⟩ := g'
  simp only [rawGrant, Prod.mk.injEq] at h
  obtain ⟨rfl, rfl, rfl, rfl, rfl⟩ := h
  rfl

abbrev RawChain := Bytes32 × Bytes32 × UInt64 × List RawGrant

/-- As many items as a number of four bytes says. -/
def getCounted {α : Type} (limit : Nat) (get : Reader Unit α) : Reader Unit (List α) := do
  let n ← (do let n ← (Reader.int () : Reader Unit UInt32); if toNat n > limit then throw () else pure (toNat n))
  Reader.replicate get n

theorem codec_counted {α : Type} (limit : Nat) (hlimit : limit < 256 ^ bytes UInt32) {get : Reader Unit α} {put : α → List UInt8}
    (h : Codec get put fun _ => True) : Codec (getCounted limit get) (putCounted put) fun l => l.length ≤ limit := by
  refine (Codec.counted (.limited hlimit) fun _ => h).congr (fun l => ?_) fun _ _ => rfl
  rw [Codec.chained_of_forall]
  exact ⟨fun hl => ⟨hl, fun _ _ => trivial⟩, fun hl => hl.1⟩

def putRawChain (c : RawChain) : List UInt8 :=
  c.1.toList ++ (c.2.1.toList ++ (toBe c.2.2.1 ++ putCounted putRawGrant c.2.2.2))

theorem codec_rawChain : ∃ get : Reader Unit RawChain,
    Codec get putRawChain fun c => c.2.2.2.length ≤ maxControlRecords := by
  have hgrants : Codec _ (putCounted putRawGrant) _ := codec_counted maxControlRecords (by decide) codec_rawGrant
  exact ⟨_, ((Codec.array () 32).pair ((Codec.array () 32).pair ((Codec.int ()).pair hgrants))).congr (fun _ => by simp)
    fun _ _ => rfl⟩

def rawChain (c : OwnerId × OwnerChain crypto) : RawChain :=
  (c.1.bytes, (c.2.head.map Id.bytes).getD zeroBytes, c.2.sequence, c.2.grants.toList.map rawGrant)

theorem putChain_eq (c : OwnerId × OwnerChain crypto) : putChain c = putRawChain (rawChain c) := by
  simp only [putChain, putRawChain, rawChain, orZero, putCounted, List.length_map, Std.ExtTreeMap.length_toList,
    List.flatMap_map]
  rfl

theorem rawChain_inj {directory directory' : DirectoryId} {realm realm' : RealmId} {c c' : OwnerId × OwnerChain crypto}
    (hc : OwnerChain.Built directory realm c.1 c.2) (hc' : OwnerChain.Built directory' realm' c'.1 c'.2)
    (h : rawChain c = rawChain c') : (c.1, chainRow c.2) = (c'.1, chainRow c'.2) := by
  have hnone := hc.head_eq_none
  have hnone' := hc'.head_eq_none
  obtain ⟨⟨owner⟩, head, sequence, history, grants⟩ := c
  obtain ⟨⟨owner'⟩, head', sequence', history', grants'⟩ := c'
  simp only [rawChain, Prod.mk.injEq] at h
  obtain ⟨rfl, hhead, rfl, hgrants⟩ := h
  have hbytes : head.map Id.bytes = head'.map Id.bytes := by
    refine getD_inj ?_ hhead
    simp only [Option.map_eq_none_iff]
    exact hnone.trans hnone'.symm
  obtain rfl : head = head' := by
    refine Option.map_injective (fun a b hab => ?_) hbytes
    cases a
    cases b
    exact congrArg Id.mk hab
  have hlist : grants.toList = grants'.toList := by
    have hmap : grants.toList.map id = grants'.toList.map id :=
      Maps.map_eq_map_of hgrants fun a _ b _ hab => rawGrant_inj hab
    rwa [List.map_id, List.map_id] at hmap
  obtain rfl : grants = grants' := by
    rw [← Maps.ofEntries_toList (m := grants), hlist, Maps.ofEntries_toList]
  rfl

/-- A view of an archive that ingestion and unions lead to. -/
def IsView (crypto : Crypto) (view : ControlView) : Prop :=
  ∃ (realm : RealmId) (limits : Social.Limits) (archive : Social.Archive crypto) (now : UInt64),
    archive.Reachable realm limits ∧ view = ControlView.new archive.evidence now

theorem IsView.sound {view : ControlView} (h : IsView crypto view) :
    ∃ e, Social.HeadsSound e view ∧ view.owners.size ≤ Social.maxRecords ∧ view.agents.size ≤ Social.maxRecords := by
  obtain ⟨realm, limits, archive, now, hreachable, hview⟩ := h
  obtain ⟨hsettled, -, -⟩ := hreachable.settled
  have hheads := Social.heads_sound archive.evidence now
  rw [← hview] at hheads
  have hfacts : archive.evidence.facts.size ≤ Social.maxRecords := by
    rw [Social.Archive.evidence, Social.Archive.size_factsOf]
    exact Nat.le_trans hsettled.size (Social.Archive.records_le_of_check hsettled.checked)
  exact ⟨archive.evidence, hheads, Nat.le_trans hheads.owners_le hfacts, Nat.le_trans hheads.agents_le hfacts⟩

theorem snapshotPreimage_eq (a : RoomAuthority crypto) (view : ControlView) : a.snapshotPreimage view =
    controlDomain ++ (a.directory.bytes.toList ++ (toBe a.realm.value ++
      (putCounted putRaw (view.owners.toList.map (rawOwner view)) ++ (putCounted putRaw (view.agents.toList.map rawAgent) ++
        (toBe (UInt32.ofNat a.chains.size) ++ (a.chains.toList.map rawChain).flatMap putRawChain))))) := by
  have howners : view.owners.toList.flatMap (putOwnerStatus view) = (view.owners.toList.map (rawOwner view)).flatMap putRaw := by
    rw [List.flatMap_map]
    exact List.flatMap_congr fun o _ => putOwnerStatus_eq view o
  have hagents : view.agents.toList.flatMap putAgentStatus = (view.agents.toList.map rawAgent).flatMap putRaw := by
    rw [List.flatMap_map]
    exact List.flatMap_congr fun g _ => putAgentStatus_eq g
  have hchains : a.chains.toList.flatMap putChain = (a.chains.toList.map rawChain).flatMap putRawChain := by
    rw [List.flatMap_map]
    exact List.flatMap_congr fun c _ => putChain_eq c
  simp only [RoomAuthority.snapshotPreimage, howners, hagents, hchains, putCounted, List.length_map,
    Std.ExtTreeMap.length_toList, List.append_assoc]
  rfl

theorem sameTables_of_preimage {a a' : RoomAuthority crypto} {view view' : ControlView} (ha : a.Sound) (ha' : a'.Sound)
    (hv : IsView crypto view) (hv' : IsView crypto view') (h : a.snapshotPreimage view = a'.snapshotPreimage view') :
    SameTables a a' view view' := by
  obtain ⟨e, hheads, howners, hagents⟩ := hv.sound
  obtain ⟨e', hheads', howners', hagents'⟩ := hv'.sound
  rw [snapshotPreimage_eq, snapshotPreimage_eq] at h
  have hrows : Codec (ε := Unit) _ (putCounted putRaw) _ :=
    codec_counted Social.maxRecords (by decide) codec_raw
  obtain ⟨hdirectory, h⟩ := (Codec.array () 32).append_inj trivial trivial (List.append_cancel_left h)
  obtain ⟨hrealm, h⟩ := (Codec.int ()).append_inj trivial trivial h
  obtain ⟨hrawOwners, h⟩ := hrows.append_inj (by simpa using howners) (by simpa using howners') h
  obtain ⟨hrawAgents, h⟩ := hrows.append_inj (by simpa using hagents) (by simpa using hagents') h
  obtain ⟨-, h⟩ := (Codec.int ()).append_inj trivial trivial h
  obtain ⟨get, hget⟩ := codec_rawChain
  have hlen : ∀ {a : RoomAuthority crypto}, a.Sound → ∀ r ∈ a.chains.toList.map rawChain, r.2.2.2.length ≤ maxControlRecords := by
    intro a ha r hr
    obtain ⟨c, hc, rfl⟩ := List.mem_map.1 hr
    rw [Std.ExtTreeMap.mem_toList_iff_getElem?_eq_some] at hc
    have hgrants := (ha.built c.1 c.2 hc).grants_le
    have hhistory := ha.history_le c.1
    rw [RoomAuthority.chain, hc, Option.getD_some] at hhistory
    rw [rawChain, List.length_map, Std.ExtTreeMap.length_toList]
    exact Nat.le_trans hgrants (Nat.le_trans hhistory ha.bounded)
  have hrawChains := hget.flatMap_inj (fun r => by simp [putRawChain]) (hlen ha) (hlen ha') h
  have hownerRows : view.owners.toList.map (fun o => (o, view.ownerHistoryComplete o.1)) =
      view'.owners.toList.map fun o => (o, view'.ownerHistoryComplete o.1) := by
    refine Maps.map_eq_map_of hrawOwners fun o ho o' ho' hraw => ?_
    rw [Std.ExtTreeMap.mem_toList_iff_getElem?_eq_some] at ho ho'
    obtain ⟨rfl, hcomplete⟩ := rawOwner_inj hheads hheads' ho ho' hraw
    rw [hcomplete]
  have hownerList : view.owners.toList = view'.owners.toList := by
    have hfst := congrArg (List.map Prod.fst) hownerRows
    simpa [Function.comp_def] using hfst
  have hownersEq : view.owners = view'.owners := by
    rw [← Maps.ofEntries_toList (m := view.owners), hownerList, Maps.ofEntries_toList]
  refine ⟨congrArg Id.mk hdirectory, congrArg RealmId.mk hrealm, hownersEq, fun o => ?_, fun g => ?_, fun o => ?_⟩
  · cases ho : view.owners[o]? with
    | none =>
      have ho' : view'.owners[o]? = none := hownersEq ▸ ho
      simp only [ControlView.ownerHistoryComplete, Std.ExtTreeMap.contains_eq_isSome_getElem?, ho, ho']
      rfl
    | some s =>
      rw [← hownerList] at hownerRows
      have hrow := List.map_inj_left.1 hownerRows (o, s) (Std.ExtTreeMap.mem_toList_iff_getElem?_eq_some.2 ho)
      exact (Prod.mk.inj hrow).2
  · exact Maps.getElem?_map_eq_of_toList (Maps.map_eq_map_of hrawAgents fun g _ g' _ hraw => rawAgent_inj hraw) g
  · refine Maps.getElem?_map_eq_of_toList (Maps.map_eq_map_of hrawChains fun c hc c' hc' hraw => ?_) o
    rw [Std.ExtTreeMap.mem_toList_iff_getElem?_eq_some] at hc hc'
    exact rawChain_inj (ha.built c.1 c.2 hc) (ha'.built c'.1 c'.2 hc') hraw

/-! ### The tables determine admission -/

section
variable {a a' : RoomAuthority crypto} {view view' : ControlView}

theorem SameTables.ownerStatus (h : SameTables a a' view view') (owner : OwnerId) (basis : RecordId) (key : Bytes32) :
    ownerStatus view owner basis key = ownerStatus view' owner basis key := by
  rw [Rooms.ownerStatus, Rooms.ownerStatus, h.owners, h.histories]

theorem SameTables.agentStatus (h : SameTables a a' view view') (owner : OwnerId) (agent : AgentId) (key : Bytes32) :
    agentStatus view owner agent key = agentStatus view' owner agent key := by
  have hrow := h.agents agent
  rw [Rooms.agentStatus, Rooms.agentStatus]
  cases hg : view.agents[agent]? with
  | none =>
    rw [hg, Option.map_none, eq_comm, Option.map_eq_none_iff] at hrow
    rw [hrow]
  | some s =>
    rw [hg, Option.map_some, eq_comm, Option.map_eq_some_iff] at hrow
    obtain ⟨s', hs', hrow⟩ := hrow
    simp only [agentRow, Prod.mk.injEq] at hrow
    obtain ⟨howner, hkey, hretired, -⟩ := hrow
    rw [hs']
    simp only [bind, Except.bind, Check.okOr, howner, hkey, hretired]

theorem SameTables.checkScope (h : SameTables a a' view view') (directory : DirectoryId) (realm : RealmId) :
    a.checkScope directory realm = a'.checkScope directory realm := by
  rw [RoomAuthority.checkScope, RoomAuthority.checkScope, h.directory, h.realm]

theorem SameTables.assessUpdate (h : SameTables a a' view view') (update : RoomUpdate) (now : UInt64) :
    a.assessUpdate update view now = a'.assessUpdate update view' now := by
  rw [RoomAuthority.assessUpdate, RoomAuthority.assessUpdate, h.checkScope, h.ownerStatus]

theorem SameTables.assessCreation (h : SameTables a a' view view') (intent : CreationIntent) (now : UInt64) :
    a.assessCreation intent view now = a'.assessCreation intent view' now := by
  have hrow := h.chains intent.owner
  rw [RoomAuthority.assessCreation, RoomAuthority.assessCreation, h.checkScope, h.ownerStatus, h.agentStatus]
  cases hc : a.chains[intent.owner]? with
  | none =>
    rw [hc, Option.map_none, eq_comm, Option.map_eq_none_iff] at hrow
    rw [hrow]
  | some c =>
    rw [hc, Option.map_some, eq_comm, Option.map_eq_some_iff] at hrow
    obtain ⟨c', hc', hrow⟩ := hrow
    simp only [chainRow, Prod.mk.injEq] at hrow
    obtain ⟨hhead, -, hgrants⟩ := hrow
    rw [hc']
    simp only [bind, Except.bind, Check.okOr, hhead, hgrants]

theorem SameTables.checkAdmission (h : SameTables a a' view view') (record : VerifiedRecord crypto) (now : UInt64) :
    checkAdmission a record view now = checkAdmission a' record view' now := by
  have haction : ∀ owner action, checkAction view now owner action = checkAction view' now owner action := by
    intro owner action
    cases action with
    | grantCreate => simp only [checkAction, h.agentStatus]
    | revokeGrant => rfl
  simp only [Rooms.checkAdmission, h.checkScope, h.ownerStatus, haction]

theorem SameTables.accepts (h : SameTables a a' view view') (control : RoomControl) :
    (a.chain control.owner).accepts control = (a'.chain control.owner).accepts control := by
  have hrow := h.chains control.owner
  have hchain : chainRow (a.chain control.owner) = chainRow (a'.chain control.owner) := by
    rw [RoomAuthority.chain, RoomAuthority.chain]
    cases hc : a.chains[control.owner]? with
    | none =>
      rw [hc, Option.map_none, eq_comm, Option.map_eq_none_iff] at hrow
      rw [hrow]
    | some c =>
      rw [hc, Option.map_some, eq_comm, Option.map_eq_some_iff] at hrow
      obtain ⟨c', hc', hrow⟩ := hrow
      rw [hc']
      exact hrow.symm
  simp only [chainRow, Prod.mk.injEq] at hchain
  obtain ⟨hhead, hsequence, hgrants⟩ := hchain
  have hpermits : (a.chain control.owner).permits control.action = (a'.chain control.owner).permits control.action := by
    cases control.action with
    | grantCreate => rfl
    | revokeGrant grant => simp only [OwnerChain.permits, hgrants]
  rw [OwnerChain.accepts, OwnerChain.accepts, hhead, hsequence, hpermits]

theorem SameTables.admitControl (h : SameTables a a' view view') (ha : a.Sound) (ha' : a'.Sound) (record : VerifiedRecord crypto)
    (now : UInt64) : (exec (admitControl record view now) a).1 = (exec (admitControl record view' now) a').1 ∨
      (exec (admitControl record view now) a).1 = .error .capacity ∨
      (exec (admitControl record view' now) a').1 = .error .capacity := by
  rw [exec_admitControl, exec_admitControl, ← h.checkAdmission]
  cases Rooms.checkAdmission a record view now with
  | error e => exact .inl rfl
  | ok u =>
    show (exec (commitControl record) a).1 = (exec (commitControl record) a').1 ∨
      (exec (commitControl record) a).1 = .error .capacity ∨ (exec (commitControl record) a').1 = .error .capacity
    rw [ha.answer, ha'.answer, RoomAuthority.checkCommit, RoomAuthority.checkCommit]
    cases controlOf record.body with
    | error e => exact .inl rfl
    | ok control =>
      have haccepts := h.accepts control
      have hscope := h.checkScope control.directory control.realm
      simp only [bind, Except.bind, ← hscope]
      cases a.checkScope control.directory control.realm with
      | error e => exact .inl rfl
      | ok u =>
        by_cases hroom : a.records < maxControlRecords
        · by_cases hroom' : a'.records < maxControlRecords
          · refine .inl ?_
            rw [decide_eq_true hroom, decide_eq_true hroom']
            exact haccepts
          · refine .inr (.inr ?_)
            rw [decide_eq_false hroom']
            rfl
        · refine .inr (.inl ?_)
          rw [decide_eq_false hroom]
          rfl

end

structure SameAnswers (a a' : RoomAuthority crypto) (view view' : ControlView) : Prop where
  control : ∀ (record : VerifiedRecord crypto) (now : UInt64),
    (exec (admitControl record view now) a).1 = (exec (admitControl record view' now) a').1 ∨
      (exec (admitControl record view now) a).1 = .error .capacity ∨ (exec (admitControl record view' now) a').1 = .error .capacity
  creation : ∀ (intent : CreationIntent) (now : UInt64), a.assessCreation intent view now = a'.assessCreation intent view' now
  update : ∀ (update : RoomUpdate) (now : UInt64), a.assessUpdate update view now = a'.assessUpdate update view' now

/-- Authorities whose commitments hash the same bytes have the same tables, and admit alike. -/
theorem commitment_covers_admission {a a' : RoomAuthority crypto} {view view' : ControlView} (ha : a.Reachable)
    (ha' : a'.Reachable) (hv : IsView crypto view) (hv' : IsView crypto view')
    (h : a.snapshotPreimage view = a'.snapshotPreimage view') :
    SameTables a a' view view' ∧ SameAnswers a a' view view' := by
  have htables := sameTables_of_preimage ha.sound ha'.sound hv hv' h
  exact ⟨htables, htables.admitControl ha.sound ha'.sound, htables.assessCreation, htables.assessUpdate⟩

def sampleView (now : UInt64) : ControlView := ControlView.new Social.sampleArchive.evidence now

def sampleAuthority : RoomAuthority Social.sampleCrypto := .new ⟨zeroBytes⟩ ⟨77⟩

theorem sample_commitment : (sampleView 0).owners.size = 1 ∧
    SameTables sampleAuthority sampleAuthority (sampleView 0) (sampleView 1) ∧
      SameAnswers sampleAuthority sampleAuthority (sampleView 0) (sampleView 1) := by
  have hview : ∀ now, IsView Social.sampleCrypto (sampleView now) := fun now =>
    ⟨⟨77⟩, Social.sampleLimits, Social.sampleArchive, now, Social.sampleArchive_reachable, rfl⟩
  have hpreimage : sampleAuthority.snapshotPreimage (sampleView 0) = sampleAuthority.snapshotPreimage (sampleView 1) := by
    rw [sampleView, sampleView, Social.sampleArchive_evidence]
    decide +kernel
  have hsize : (sampleView 0).owners.size = 1 := by
    rw [sampleView, Social.sampleArchive_evidence]
    decide +kernel
  exact ⟨hsize, commitment_covers_admission (.new _ _) (.new _ _) (hview 0) (hview 1) hpreimage⟩

end Valhalla.Rooms
