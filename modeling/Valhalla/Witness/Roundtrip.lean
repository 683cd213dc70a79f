import Valhalla.Witness.Platform

/-!
# Round trips

Every reader of the canonical encoding reads exactly what its writer writes (`Codec`), for the values
within the bounds of the format, and no encoding is longer than its bound.
-/

namespace Valhalla.Witness
open Fallible FixedWidth

/-! ### Fields -/

section
variable {α : Type} {field : Field}

theorem codec_u8 : Codec (getU8 field) putU8 fun _ => True :=
  (Codec.int _).congr (fun _ => Iff.rfl) fun a _ => (toBe_uInt8 a).symm

theorem codec_u16 : Codec (getU16 field) putU16 fun _ => True := .int _
theorem codec_u32 : Codec (getU32 field) putU32 fun _ => True := .int _
theorem codec_u64 : Codec (getU64 field) putU64 fun _ => True := .int _

theorem codec_bool : Codec (getBool field) putBool fun _ => True := by
  refine .tagged (fun r => ⟨_, [], rfl⟩) fun t => ?_
  split
  · exact .constant (by decide) rfl
  · exact .constant (by decide) rfl
  · exact .none (fun _ => ⟨_, rfl⟩) fun r => by cases r <;> simp_all [putBool, putU8, eq_comm]

theorem codec_direction : Codec getDirection (fun d => putU8 (directionTag d)) fun _ => True := by
  refine .tagged (fun r => ⟨_, [], rfl⟩) fun t => ?_
  split
  · exact .constant (by rintro (_ | _) <;> decide) rfl
  · exact .constant (by rintro (_ | _) <;> decide) rfl
  · exact .constant (by rintro (_ | _) <;> decide) rfl
  · exact .constant (by rintro (_ | _) <;> decide) rfl
  · exact .none (fun _ => ⟨_, rfl⟩) fun r => by cases r <;> simp_all [directionTag, putU8, eq_comm]

theorem codec_relative : Codec getRelative (fun d => putU8 (relativeTag d)) fun _ => True := by
  refine .tagged (fun r => ⟨_, [], rfl⟩) fun t => ?_
  split
  · exact .constant (by rintro (_ | _) <;> decide) rfl
  · exact .constant (by rintro (_ | _) <;> decide) rfl
  · exact .constant (by rintro (_ | _) <;> decide) rfl
  · exact .constant (by rintro (_ | _) <;> decide) rfl
  · exact .none (fun _ => ⟨_, rfl⟩) fun r => by cases r <;> simp_all [relativeTag, putU8, eq_comm]

theorem codec_status : Codec getStatus (fun s => putU8 (statusTag s)) fun _ => True := by
  refine .tagged (fun r => ⟨_, [], rfl⟩) fun t => ?_
  split
  · exact .constant (by rintro (_ | _) <;> decide) rfl
  · exact .constant (by rintro (_ | _) <;> decide) rfl
  · exact .constant (by rintro (_ | _) <;> decide) rfl
  · exact .none (fun _ => ⟨_, rfl⟩) fun r => by cases r <;> simp_all [statusTag, putU8, eq_comm]

theorem codec_okOr {ρ : Type} {e : CodecError} {new : UInt8 → Option ρ} {get : ρ → UInt8}
    (hnew : ∀ r, new (get r) = some r) (hget : ∀ b r, new b = some r → get r = b) :
    Codec (do let b ← getU8 field; okOr e (new b)) (fun r => putU8 (get r)) fun _ => True := by
  refine codec_u8.lastField get fun b => ?_
  cases hb : new b with
  | none => exact .none (fun _ => ⟨_, rfl⟩) fun r hr => by rw [← hr.2, hnew] at hb; cases hb
  | some r =>
    refine .pure r fun r' => ⟨fun hr => ?_, fun hr => ⟨trivial, hr ▸ hget b r hb⟩⟩
    rw [← hr.2, hnew] at hb
    exact Option.some.inj hb

theorem codec_slot : Codec getSlot (fun slot => putU8 slot.get) fun _ => True :=
  codec_okOr Slot.new_get fun _ _ => Slot.get_of_new

theorem codec_port : Codec getPort (fun port => putU8 port.get) fun _ => True :=
  codec_okOr Port.new_get fun _ _ => Port.get_of_new

theorem codec_bytes {n : Nat} : Codec (getBytes n field) Vector.toList fun _ => True := .array _ n

theorem codec_count {limit : Nat} (h : limit < 256) : Codec (getCount limit field) putCount (· ≤ limit) :=
  Codec.congr (Codec.limited h) (fun _ => Iff.rfl) fun _ _ => (toBe_uInt8 _).symm

theorem codec_option {get : GetM α} {put : α → List UInt8} {ok : α → Prop} (h : Codec get put ok) :
    Codec (getOption field get) (putOption put) fun o => ∀ a, o = some a → ok a := by
  refine .tagged (fun o => by cases o <;> exact ⟨_, _, rfl⟩) fun t => ?_
  split
  · exact .constant (by rintro (_ | _) <;> simp [putOption, putU8]) rfl
  · exact h.map (by rintro (_ | _) <;> simp [putOption, putU8]) fun _ => rfl
  · exact .none (fun _ => ⟨_, rfl⟩) fun r => by cases r <;> simp_all [putOption, putU8, eq_comm]

theorem codec_list {get : GetM α} {put : α → List UInt8} {ok : α → Prop} {limit : Nat} (hlimit : limit < 256)
    (h : Codec get put ok) : Codec (getList limit get) (putList put) fun l => l.length ≤ limit ∧ ∀ a ∈ l, ok a :=
  (Codec.counted (codec_count hlimit) fun _ => h).congr (fun l => by rw [Codec.chained_of_forall]) fun _ _ => rfl

theorem codec_header : Codec header (fun _ => putHeader) fun _ => True := by
  refine ⟨fun bytes u rest => ?_⟩
  simp only [header, exec_bind_eq_ok, codec_u8.iff]
  constructor
  · rintro ⟨found, mid, ⟨rfl, -⟩, h⟩
    split at h
    · cases h
    · rename_i hversion
      obtain ⟨found', mid', hfound, hrest⟩ := exec_bind_eq_ok.1 h
      obtain ⟨rfl, -⟩ := (codec_u8.iff _ _ _).1 hfound
      split at hrest
      · cases hrest
      · rename_i hlanguage
        cases hrest
        rw [Decidable.not_not.1 hversion, Decidable.not_not.1 hlanguage]
        exact ⟨rfl, trivial⟩
  · rintro ⟨rfl, -⟩
    exact ⟨version, putU8 languageFiniteRuleV1 ++ rest, ⟨rfl, trivial⟩, rfl⟩

theorem codec_headed {get : GetM α} {put : α → List UInt8} {ok : α → Prop} (h : Codec get put ok) :
    Codec (do header; get) (fun a => putHeader ++ put a) ok :=
  codec_header.field (fun _ => ()) fun _ => h.congr (fun a => by simp) fun _ _ => rfl

end

/-! ### Programs -/

theorem codec_condition : Codec getCondition putCondition fun _ => True := by
  refine .tagged (fun c => by cases c <;> exact ⟨_, _, rfl⟩) fun t => ?_
  split
  · exact codec_bool.map (fun c => by cases c <;> simp [putCondition, putU8]) fun _ => rfl
  · exact codec_bool.map (fun c => by cases c <;> simp [putCondition, putU8]) fun _ => rfl
  · exact codec_bool.map (fun c => by cases c <;> simp [putCondition, putU8]) fun _ => rfl
  · exact codec_bool.map (fun c => by cases c <;> simp [putCondition, putU8]) fun _ => rfl
  · exact codec_bool.map (fun c => by cases c <;> simp [putCondition, putU8]) fun _ => rfl
  · exact codec_relative.map₂ codec_bool (fun c => by cases c <;> simp [putCondition, putU8]) fun _ _ => rfl
  · exact codec_port.map₂ codec_bool (fun c => by cases c <;> simp [putCondition, putU8]) fun _ _ => rfl
  · exact codec_port.map₂ codec_bool (fun c => by cases c <;> simp [putCondition, putU8]) fun _ _ => rfl
  · exact codec_slot.map₂ codec_u8 (fun c => by cases c <;> simp [putCondition, putU8]) fun _ _ => rfl
  · exact codec_direction.map (fun c => by cases c <;> simp [putCondition, putU8]) fun _ => rfl
  · exact .none (fun _ => ⟨_, rfl⟩) fun c => by cases c <;> simp_all [putCondition, putU8, eq_comm]

theorem codec_bitSource : Codec getBitSource putBitSource fun _ => True := by
  refine .tagged (fun b => by cases b <;> exact ⟨_, _, rfl⟩) fun t => ?_
  split
  · exact codec_bool.map (fun b => by cases b <;> simp [putBitSource, putU8]) fun _ => rfl
  · exact codec_slot.map (fun b => by cases b <;> simp [putBitSource, putU8]) fun _ => rfl
  · exact codec_port.map (fun b => by cases b <;> simp [putBitSource, putU8]) fun _ => rfl
  · exact .none (fun _ => ⟨_, rfl⟩) fun b => by cases b <;> simp_all [putBitSource, putU8, eq_comm]

theorem codec_valveId : Codec getValveId (fun valve => putU16 valve.get) fun _ => True :=
  codec_u16.lastField ValveId.get fun _ => .pure _ fun v => by cases v; simp

theorem codec_action : Codec getAction putAction fun _ => True := by
  refine .tagged (fun a => by cases a <;> exact ⟨_, _, rfl⟩) fun t => ?_
  split
  · exact codec_relative.map (fun a => by cases a <;> simp [putAction, putU8]) fun _ => rfl
  · exact codec_relative.map (fun a => by cases a <;> simp [putAction, putU8]) fun _ => rfl
  · exact .constant (fun a => by cases a <;> simp [putAction, putU8]) rfl
  · exact .constant (fun a => by cases a <;> simp [putAction, putU8]) rfl
  · exact .constant (fun a => by cases a <;> simp [putAction, putU8]) rfl
  · exact codec_slot.map₂ codec_u8 (fun a => by cases a <;> simp [putAction, putU8]) fun _ _ => rfl
  · exact codec_port.map₂ codec_slot (fun a => by cases a <;> simp [putAction, putU8]) fun _ _ => rfl
  · exact codec_port.map₂ codec_bitSource (fun a => by cases a <;> simp [putAction, putU8]) fun _ _ => rfl
  · exact codec_valveId.map₂ codec_bitSource (fun a => by cases a <;> simp [putAction, putU8]) fun _ _ => rfl
  · exact .none (fun _ => ⟨_, rfl⟩) fun a => by cases a <;> simp_all [putAction, putU8, eq_comm]

theorem codec_memoryWrite : Codec getMemoryWrite putMemoryWrite fun _ => True :=
  codec_slot.field MemoryWrite.slot fun _ =>
    codec_u8.lastField MemoryWrite.value fun _ => .pure _ fun w => by cases w; simp

theorem codec_rule : Codec getRule putRule fun _ => True := by
  refine (codec_list (by decide) codec_condition).bind Rule.when (fun r _ => ⟨r.bounded, fun _ _ => trivial⟩)
    fun when hwhen => codec_action.field Rule.action fun action =>
    (codec_option codec_memoryWrite).last Rule.remember (fun _ _ _ _ => trivial) fun remember _ => ?_
  rw [Rule.new, dif_neg (Nat.not_lt.2 hwhen.1)]
  exact .pure _ fun r => by cases r; simp [and_assoc]

theorem codec_programBody : Codec getProgramBody putProgramBody fun _ => True := by
  refine (codec_list (by decide) codec_rule).last Program.rules (fun p _ => ⟨p.bounded, fun _ _ => trivial⟩)
    fun rules hrules => ?_
  rw [Program.new]
  split
  · rename_i hempty
    refine .none (fun _ => ⟨_, rfl⟩) fun p hp => ?_
    have := p.nonempty
    rw [hp.2] at this
    omega
  · rw [dif_neg (Nat.not_lt.2 hrules.1)]
    exact .pure _ fun p => by cases p; simp

theorem codec_cellAbove {previous : Option UInt16} :
    Codec (getCellAbove previous) putU16 fun cell => ∀ last, previous = some last → last < cell := by
  refine Codec.congr (Codec.check codec_u16) (fun cell => ?_) fun _ _ => rfl
  cases previous <;> simp

theorem codec_candidateEntry {previous : Option UInt16} : Codec (getCandidateEntry previous) putCandidateEntry
    fun entry => ∀ last, previous = some last → last < entry.1 :=
  codec_cellAbove.bind Prod.fst (fun _ h => h) fun cell hcell =>
    codec_programBody.lastField Prod.snd fun program => .pure _ fun entry => by
      obtain ⟨cell', program'⟩ := entry
      constructor
      · rintro ⟨⟨-, rfl⟩, rfl⟩
        rfl
      · rintro ⟨⟩
        exact ⟨⟨hcell, rfl⟩, rfl⟩

theorem chained_ascending {α : Type} {key : α → UInt16} {previous : Option UInt16} {l : List α} :
    Codec.Chained (fun previous a => ∀ last, previous = some last → last < key a) (fun _ a => some (key a)) previous l ↔
      (∀ a ∈ l, ∀ last, previous = some last → last < key a) ∧ (l.map key).Pairwise (· < ·) := by
  induction l generalizing previous with
  | nil => simp [Codec.Chained]
  | cons a l ih =>
    simp only [Codec.Chained, ih, List.map_cons, List.pairwise_cons, List.mem_cons, List.mem_map, Option.some.injEq]
    constructor
    · rintro ⟨ha, hl, hsorted⟩
      refine ⟨?_, ?_, hsorted⟩
      · rintro b (rfl | hb) last hlast
        · exact ha last hlast
        · exact UInt16.lt_trans (ha last hlast) (hl b hb _ rfl)
      · rintro _ ⟨b, hb, rfl⟩
        exact hl b hb _ rfl
    · rintro ⟨hall, hl, hsorted⟩
      refine ⟨fun last hlast => hall a (.inl rfl) last hlast, ?_, hsorted⟩
      rintro b hb _ rfl
      exact hl _ ⟨b, hb, rfl⟩

theorem codec_candidate : Codec getCandidate putCandidate fun programs =>
    programs.length ≤ maxCells ∧ (programs.map (·.1)).Pairwise (· < ·) :=
  (Codec.counted (codec_count (by decide)) fun _ => codec_candidateEntry).congr
    (fun programs => by rw [chained_ascending]; simp) fun _ _ => rfl

/-! ### Worlds -/

theorem codec_point : Codec getPoint putPoint fun _ => True :=
  codec_u8.field Point.x fun _ => codec_u8.lastField Point.y fun _ =>
    .pure _ fun p => by cases p; simp

theorem codec_spark : Codec getSpark putSpark fun _ => True :=
  codec_u32.field Spark.id fun _ => codec_bool.lastField Spark.bit fun _ =>
    .pure _ fun s => by cases s; simp

theorem codec_endpoint : Codec getEndpoint putEndpoint fun _ => True := by
  refine .tagged (fun e => by cases e <;> exact ⟨_, _, rfl⟩) fun t => ?_
  split
  · exact codec_u16.map₂ codec_port (fun e => by cases e <;> simp [putEndpoint, putU8]) fun _ _ => rfl
  · exact codec_u16.map (fun e => by cases e <;> simp [putEndpoint, putU8]) fun _ => rfl
  · exact .none (fun _ => ⟨_, rfl⟩) fun e => by cases e <;> simp_all [putEndpoint, putU8, eq_comm]

theorem codec_wallCount : Codec getWallCount putWallCount (· ≤ maxWalls) := .limited (by decide)

theorem codec_walls : Codec getWalls putWalls fun walls => walls.length ≤ maxWalls :=
  (Codec.counted codec_wallCount fun _ => codec_point).congr (fun l => by rw [Codec.chained_of_forall]; simp)
    fun _ _ => rfl

theorem codec_sparkCount {total : Nat} : Codec (getSparkCount total) putCount (total + · ≤ maxInitialSparks) :=
  Codec.congr (Codec.check (codec_count (by decide))) (fun n => by omega) fun _ _ => rfl

theorem codec_sparks {total : Nat} : Codec (getSparks total) (putList putSpark) fun sparks =>
    total + sparks.length ≤ maxInitialSparks :=
  (Codec.counted codec_sparkCount fun _ => codec_spark).congr (fun l => by rw [Codec.chained_of_forall]; simp)
    fun _ _ => rfl

theorem codec_source {total : Nat} : Codec (getSource total) putSource fun source =>
    total + source.sparks.length ≤ maxInitialSparks :=
  codec_u16.field Source.id fun _ => codec_point.field Source.position
    fun _ => codec_sparks.last Source.sparks (fun _ h => h.1.1) fun sparks hsparks => .pure _ fun source => by
      obtain ⟨id', position', sparks'⟩ := source
      constructor
      · rintro ⟨⟨⟨-, rfl⟩, rfl⟩, rfl⟩
        rfl
      · rintro ⟨⟩
        exact ⟨⟨⟨hsparks, rfl⟩, rfl⟩, rfl⟩

theorem chained_total {limit total : Nat} {l : List Source} : Codec.Chained
      (fun total source => total + source.sparks.length ≤ limit) (fun total source => total + source.sparks.length) total l ↔
      (l = [] ∨ total + (l.map (·.sparks.length)).sum ≤ limit) := by
  induction l generalizing total with
  | nil => simp [Codec.Chained]
  | cons source l ih =>
    rw [Codec.Chained, ih, List.map_cons, List.sum_cons, ← Nat.add_assoc]
    cases l with
    | nil => simp
    | cons => simp; omega

theorem codec_sources : Codec getSources (putList putSource) fun sources =>
    sources.length ≤ maxSources ∧ (sources.map (·.sparks.length)).sum ≤ maxInitialSparks :=
  (Codec.counted (codec_count (by decide)) fun _ => codec_source).congr
    (fun sources => by rw [chained_total]; cases sources <;> simp) fun _ _ => rfl

theorem codec_depot : Codec getDepot putDepot fun _ => True :=
  codec_u16.field Depot.id fun _ => codec_point.field Depot.position
    fun _ => codec_u8.lastField Depot.capacity fun _ => .pure _ fun d => by
      cases d; simp [and_assoc]

theorem codec_beacon : Codec getBeacon putBeacon fun _ => True :=
  codec_u16.field Beacon.id fun _ => codec_point.field Beacon.position
    fun _ => codec_bool.field Beacon.accepts fun _ =>
    codec_u32.field Beacon.initialCharge fun _ =>
    codec_u32.field Beacon.drainEvery fun _ =>
    codec_u32.field Beacon.drainAmount fun _ =>
    codec_u32.field Beacon.sparkCharge fun _ =>
    codec_u32.lastField Beacon.requiredDeliveries fun _ => .pure _ fun b => by
      cases b; simp [and_assoc]

theorem codec_valve : Codec getValve putValve fun _ => True :=
  codec_u16.field Valve.id fun _ => codec_point.field Valve.position
    fun _ => codec_u16.field Valve.depot fun _ =>
    codec_u16.field Valve.beaconZero fun _ =>
    codec_u16.field Valve.beaconOne fun _ =>
    codec_bool.lastField Valve.enabled fun _ => .pure _ fun v => by cases v; simp [and_assoc]

theorem codec_cellBody : Codec getCellBody putCellBody fun _ => True :=
  codec_u16.field CellBody.id fun _ => codec_point.field CellBody.position
    fun _ => codec_direction.field CellBody.heading fun _ =>
    codec_bool.field CellBody.mobile fun _ =>
    codec_bytes.lastField CellBody.memory fun _ => .pure _ fun c => by cases c; simp [and_assoc]

theorem codec_link : Codec getLink putLink fun _ => True :=
  codec_u16.field Link.id fun _ => codec_endpoint.field Link.origin
    fun _ => codec_u16.field Link.toCell fun _ =>
    codec_port.field Link.toPort fun _ =>
    codec_u32.field Link.delay fun _ =>
    codec_bool.lastField Link.enabled fun _ => .pure _ fun l => by cases l; simp [and_assoc]

/-- A world within the list bounds of the format. -/
structure WorldSpec.Encodable (spec : WorldSpec) : Prop where
  walls : spec.walls.length ≤ maxWalls
  sources : spec.sources.length ≤ maxSources
  sparks : (spec.sources.map (·.sparks.length)).sum ≤ maxInitialSparks
  depots : spec.depots.length ≤ maxDepots
  beacons : spec.beacons.length ≤ maxBeacons
  valves : spec.valves.length ≤ maxValves
  cells : spec.cells.length ≤ maxCells
  links : spec.links.length ≤ maxLinks

theorem codec_world : Codec getWorld putWorld WorldSpec.Encodable := by
  refine codec_u8.field WorldSpec.width fun _ =>
    codec_u8.field WorldSpec.height fun _ =>
    codec_walls.bind WorldSpec.walls (fun _ h => h.1.1.walls) fun walls hwalls =>
    codec_sources.bind WorldSpec.sources (fun _ h => ⟨h.1.1.1.sources, h.1.1.1.sparks⟩) fun sources hsources =>
    (codec_list (by decide) codec_depot).bind WorldSpec.depots (fun _ h => ⟨h.1.1.1.1.depots, fun _ _ => trivial⟩)
    fun depots hdepots => (codec_list (by decide) codec_beacon).bind WorldSpec.beacons
    (fun _ h => ⟨h.1.1.1.1.1.beacons, fun _ _ => trivial⟩) fun beacons hbeacons =>
    (codec_list (by decide) codec_valve).bind WorldSpec.valves
    (fun _ h => ⟨h.1.1.1.1.1.1.valves, fun _ _ => trivial⟩) fun valves hvalves =>
    (codec_list (by decide) codec_cellBody).bind WorldSpec.cells
    (fun _ h => ⟨h.1.1.1.1.1.1.1.cells, fun _ _ => trivial⟩) fun cells hcells =>
    (codec_list (by decide) codec_link).last WorldSpec.links
    (fun _ h => ⟨h.1.1.1.1.1.1.1.1.links, fun _ _ => trivial⟩) fun links hlinks => .pure _ fun spec => ?_
  constructor
  · obtain ⟨width, height, walls', sources', depots', beacons', valves', cells', links'⟩ := spec
    rintro ⟨⟨⟨⟨⟨⟨⟨⟨⟨-, rfl⟩, rfl⟩, rfl⟩, rfl⟩, rfl⟩, rfl⟩, rfl⟩, rfl⟩, rfl⟩
    rfl
  · rintro rfl
    refine ⟨⟨⟨⟨⟨⟨⟨⟨⟨?_, rfl⟩, rfl⟩, rfl⟩, rfl⟩, rfl⟩, rfl⟩, rfl⟩, rfl⟩, rfl⟩
    exact ⟨hwalls, hsources.1, hsources.2, hdepots.1, hbeacons.1, hvalves.1, hcells.1, hlinks.1⟩

/-! ### Manifests -/

theorem codec_eventKind : Codec getEventKind putEventKind fun _ => True := by
  refine .tagged (fun e => by cases e <;> exact ⟨_, _, rfl⟩) fun t => ?_
  split
  · exact codec_u16.map₂ codec_bool (fun e => by cases e <;> simp [putEventKind, putU8]) fun _ _ => rfl
  · exact codec_u16.map₂ codec_bool (fun e => by cases e <;> simp [putEventKind, putU8]) fun _ _ => rfl
  · exact codec_u16.map (fun e => by cases e <;> simp [putEventKind, putU8]) fun _ => rfl
  · exact .none (fun _ => ⟨_, rfl⟩) fun e => by cases e <;> simp_all [putEventKind, putU8, eq_comm]

theorem codec_event : Codec getEvent putEvent fun _ => True :=
  codec_u32.field Event.tick fun _ => codec_eventKind.lastField Event.event
    fun _ => .pure _ fun e => by cases e; simp

theorem codec_case : Codec getCase putCase fun case => case.events.length ≤ maxEvents := by
  refine codec_u64.field CaseSpec.seed fun _ =>
    codec_u32.field CaseSpec.ticks fun _ =>
    codec_u64.field CaseSpec.fuel fun _ =>
    codec_u32.field CaseSpec.activationFuel fun _ =>
    (codec_list (by decide) codec_event).bind CaseSpec.events (fun _ h => ⟨h.1.1.1.1, fun _ _ => trivial⟩)
    fun events hevents => codec_u64.lastField CaseSpec.loadingWork fun _ => .pure _ fun case => ?_
  constructor
  · obtain ⟨seed, ticks, fuel, activationFuel, events', loadingWork⟩ := case
    rintro ⟨⟨⟨⟨⟨⟨-, rfl⟩, rfl⟩, rfl⟩, rfl⟩, rfl⟩, rfl⟩
    rfl
  · rintro rfl
    exact ⟨⟨⟨⟨⟨⟨hevents.1, rfl⟩, rfl⟩, rfl⟩, rfl⟩, rfl⟩, rfl⟩

theorem codec_programSlot {previous : Option UInt16} : Codec (getProgramSlot previous) putProgramSlot
    fun slot => ∀ last, previous = some last → last < slot.cell :=
  codec_cellAbove.bind ProgramSlot.cell (fun _ h => h) fun cell hcell =>
    (codec_option codec_programBody).last ProgramSlot.fixed (fun _ _ _ _ => trivial) fun fixed _ => .pure _ fun slot => by
      obtain ⟨cell', fixed'⟩ := slot
      constructor
      · rintro ⟨⟨-, rfl⟩, rfl⟩
        rfl
      · rintro ⟨⟩
        exact ⟨⟨hcell, rfl⟩, rfl⟩

theorem codec_programSlots : Codec getProgramSlots (putList putProgramSlot) fun slots =>
    slots.length ≤ maxCells ∧ (slots.map (·.cell)).Pairwise (· < ·) :=
  (Codec.counted (codec_count (by decide)) fun _ => codec_programSlot).congr
    (fun slots => by rw [chained_ascending]; simp) fun _ _ => rfl

theorem codec_contract : Codec getContract putContract fun _ => True :=
  codec_u64.field WorkContract.usefulFloor fun _ =>
    codec_u64.field WorkContract.totalCeiling fun _ =>
    codec_bool.lastField WorkContract.requirePassed fun _ => .pure _ fun c => by
      cases c; simp [and_assoc]

/-- A manifest within the bounds of the format. -/
structure TaskManifest.Encodable (manifest : TaskManifest) : Prop where
  world : manifest.world.Encodable
  slots : manifest.slots.length ≤ maxCells
  ascending : (manifest.slots.map (·.cell)).Pairwise (· < ·)
  cases : manifest.cases.length ≤ maxCases
  events : ∀ case ∈ manifest.cases, case.events.length ≤ maxEvents

theorem codec_manifest : Codec getManifest putManifest TaskManifest.Encodable := by
  refine codec_world.bind TaskManifest.world (fun _ h => h.world) fun world hworld =>
    codec_programSlots.bind TaskManifest.slots (fun _ h => ⟨h.1.slots, h.1.ascending⟩) fun slots hslots =>
    (codec_list (by decide) codec_case).bind TaskManifest.cases (fun _ h => ⟨h.1.1.cases, h.1.1.events⟩)
    fun cases hcases => codec_contract.lastField TaskManifest.contract fun contract =>
    .pure _ fun manifest => ?_
  constructor
  · obtain ⟨world', slots', cases', contract'⟩ := manifest
    rintro ⟨⟨⟨⟨-, rfl⟩, rfl⟩, rfl⟩, rfl⟩
    rfl
  · rintro rfl
    exact ⟨⟨⟨⟨⟨hworld, hslots.1, hslots.2, hcases.1, hcases.2⟩, rfl⟩, rfl⟩, rfl⟩, rfl⟩

/-! ### Results and receipts -/

theorem codec_hash : Codec getHash Vector.toList fun _ => True := codec_bytes

theorem codec_ledger : Codec getLedger putLedger fun _ => True :=
  codec_u64.field Ledger.loading fun _ =>
    codec_u64.field Ledger.scheduling fun _ =>
    codec_u64.field Ledger.conditions fun _ =>
    codec_u64.field Ledger.sensors fun _ =>
    codec_u64.field Ledger.memoryReads fun _ =>
    codec_u64.field Ledger.memoryWrites fun _ =>
    codec_u64.field Ledger.actions fun _ =>
    codec_u64.field Ledger.messages fun _ =>
    codec_u64.field Ledger.transfers fun _ =>
    codec_u64.field Ledger.checking fun _ =>
    codec_u64.field Ledger.draining fun _ =>
    codec_u64.field Ledger.copying fun _ =>
    codec_u64.lastField Ledger.construction fun _ => .pure _ fun l => by
      cases l; simp [and_assoc]

theorem codec_outcome : Codec getOutcome putOutcome fun _ => True :=
  codec_bool.field Outcome.allBeaconsPositive fun _ =>
    codec_bool.field Outcome.quotasMet fun _ =>
    codec_bool.field Outcome.conserved fun _ =>
    codec_bool.lastField Outcome.passed fun _ => .pure _ fun o => by cases o; simp [and_assoc]

theorem codec_caseResult : Codec getCaseResult putCaseResult fun _ => True :=
  codec_status.field CaseResult.status fun _ =>
    codec_u32.field CaseResult.ticksCompleted fun _ =>
    codec_outcome.field CaseResult.outcome fun _ =>
    codec_hash.field (fun r : CaseResult => r.finalState.bytes) fun _ =>
    codec_ledger.field CaseResult.ledger fun _ =>
    codec_u64.lastField CaseResult.useful fun _ => .pure _ fun r => by
      obtain ⟨_, _, _, ⟨_⟩, _, _⟩ := r
      simp [and_assoc]

theorem codec_output : Codec (getList maxCases getCaseResult) encodeOutput fun results =>
    results.length ≤ maxCases :=
  (codec_list (by decide) codec_caseResult).congr (fun _ => by simp) fun _ _ => rfl

theorem codec_receipt : Codec getReceipt putReceipt fun _ => True :=
  codec_hash.field ClaimedReceipt.challengeId fun _ =>
    codec_hash.field ClaimedReceipt.subjectKey fun _ =>
    codec_hash.field (fun r : ClaimedReceipt => r.manifest.bytes) fun _ =>
    codec_hash.field (fun r : ClaimedReceipt => r.program.bytes) fun _ =>
    codec_hash.field (fun r : ClaimedReceipt => r.output.bytes) fun _ =>
    codec_u64.field ClaimedReceipt.useful fun _ =>
    codec_u64.field ClaimedReceipt.total fun _ =>
    codec_bool.field ClaimedReceipt.passed fun _ =>
    codec_u8.lastField ClaimedReceipt.caseCount fun _ => .pure _ fun r => by
      obtain ⟨_, _, ⟨_⟩, ⟨_⟩, ⟨_⟩, _, _, _, _⟩ := r
      simp [and_assoc]

/-! ### Decoders -/

theorem decodeProgram_eq_ok {raw : List UInt8} {program : Program} : decodeProgram raw = .ok program ↔
    raw = encodeProgram program ∧ (encodeProgram program).length ≤ maxProgramBytes := by
  rw [decodeProgram, decodeBounded, Codec.decode_eq_ok (codec_headed codec_programBody)]
  simp [encodeProgram]

theorem decodeCandidate_eq_ok {raw : List UInt8} {programs : List (UInt16 × Program)} :
    decodeCandidate raw = .ok programs ↔ raw = encodeCandidate programs ∧
      (programs.length ≤ maxCells ∧ (programs.map (·.1)).Pairwise (· < ·)) ∧
      (encodeCandidate programs).length ≤ maxAssignmentBytes :=
  Codec.decode_eq_ok (codec_headed codec_candidate)

theorem decodeManifest_eq_ok {raw : List UInt8} {manifest : TaskManifest} : decodeManifest raw = .ok manifest ↔
    raw = encodeManifest manifest ∧ manifest.Encodable ∧ (encodeManifest manifest).length ≤ maxManifestBytes :=
  Codec.decode_eq_ok (codec_headed codec_manifest)

theorem decodeOutput_eq_ok {raw : List UInt8} {results : List CaseResult} : decodeOutput raw = .ok results ↔
    raw = encodeOutput results ∧ results.length ≤ maxCases ∧
      (encodeOutput results).length ≤ 1 + maxCases * caseResultBytes :=
  Codec.decode_eq_ok codec_output

theorem ClaimedReceipt.decode_eq_ok {raw : List UInt8} {receipt : ClaimedReceipt} :
    ClaimedReceipt.decode raw = .ok receipt ↔ raw = receipt.encode ∧ True ∧ receipt.encode.length ≤ receiptBytes :=
  Codec.decode_eq_ok (codec_headed codec_receipt)

end Valhalla.Witness
