import Valhalla.Continuity.Request

/-!
# What requests and bodies are read from

One codec for each part of a request. The stage references of a request are checked again by `new`; that its positions
are consistent is what `Position::new` asks for.
-/

namespace Valhalla.Continuity
open Fallible FixedWidth Check
open RoomActivity (EventId VerifiedEvent zeroBytes maxEventBytes)

/-! ### Parts -/

section
variable {α : Type}

theorem codec_array {n : Nat} : Codec (Reader.array Error.encoding n) Vector.toList fun _ => True := .array _ n

theorem codec_u64 : Codec (Reader.int .encoding : Reader Error UInt64) toBe fun _ => True := .int _

theorem codec_u32 : Codec (Reader.int .encoding : Reader Error UInt32) toBe fun _ => True := .int _

theorem codec_u8 : Codec (Reader.int .encoding : Reader Error UInt8) toBe fun _ => True := .int _

theorem framed_eq_ok {magic raw : List UInt8} {limit : Nat} {get : Reader Error α} {put : α → List UInt8} {ok : α → Prop} {a : α}
    (h : Codec get put ok) : framed magic limit get raw = .ok a ↔ raw = magic ++ put a ∧ ok a ∧ (magic ++ put a).length ≤ limit := by
  have hmagic : Codec (do expect magic; get) (fun a => magic ++ put a) ok :=
    Codec.magic.field (fun _ => ()) fun _ => h.congr (fun _ => and_iff_left rfl) fun _ _ => rfl
  rw [framed, hmagic.decode_eq_ok]

end

theorem codec_scope : Codec Scope.read Scope.put fun s => s.check = .ok () := by
  have h : Codec Scope.read (fun s => s.network.toList ++ (s.realm.toList ++ (s.directory.toList ++ (s.room.toList ++ ([] ++ [])))))
      fun s => s.check = .ok () :=
    codec_array.field Scope.network fun _ =>
    codec_array.field Scope.realm fun _ =>
    codec_array.field Scope.directory fun _ =>
    codec_array.field Scope.room fun _ =>
    Codec.guard.bind (fun _ => ()) (fun s ⟨⟨⟨⟨hs, hn⟩, hr⟩, hd⟩, hm⟩ => by subst hn hr hd hm; exact hs) fun _ hs => .pure _ fun s => by
      obtain ⟨network, realm, directory, room⟩ := s
      constructor
      · rintro ⟨⟨⟨⟨⟨-, rfl⟩, rfl⟩, rfl⟩, rfl⟩, -⟩
        rfl
      · rintro ⟨⟩
        exact ⟨⟨⟨⟨⟨hs, rfl⟩, rfl⟩, rfl⟩, rfl⟩, rfl⟩
  exact h.congr (fun _ => Iff.rfl) fun s _ => by simp only [Scope.put, List.append_nil]

theorem codec_observed : Codec Observed.read Observed.put fun o => o.check = .ok () := by
  have h : Codec Observed.read (fun o => toBe o.height ++ (o.frontier.toList ++ ([] ++ []))) fun o => o.check = .ok () :=
    codec_u64.field Observed.height fun _ =>
    codec_array.field Observed.frontier fun _ =>
    Codec.guard.bind (fun _ => ()) (fun o ⟨⟨ho, hh⟩, hf⟩ => by subst hh hf; exact ho) fun _ ho => .pure _ fun o => by
      obtain ⟨height, frontier⟩ := o
      constructor
      · rintro ⟨⟨⟨-, rfl⟩, rfl⟩, -⟩
        rfl
      · rintro ⟨⟩
        exact ⟨⟨⟨ho, rfl⟩, rfl⟩, rfl⟩
  exact h.congr (fun _ => Iff.rfl) fun o _ => by simp only [Observed.put, List.append_nil]

theorem Position.new_eq_ok {sequence : UInt64} {event : EventId} {p : Position} :
    Position.new sequence event = .ok p ↔ p = ⟨sequence, event⟩ ∧ p.Consistent := by
  simp only [Position.new, bind_eq_ok, require_eq_ok, decide_eq_true_eq]
  constructor
  · rintro ⟨_, h, hp⟩
    cases hp
    exact ⟨rfl, h⟩
  · rintro ⟨rfl, h⟩
    exact ⟨(), h, rfl⟩

theorem codec_position : Codec Position.read Position.put Position.Consistent := by
  have h : Codec Position.read (fun p => toBe p.sequence ++ (p.event.bytes.toList ++ [])) Position.Consistent :=
    codec_u64.field Position.sequence fun _ =>
    codec_array.field (fun p : Position => p.event.bytes) fun _ => ⟨fun bytes p rest => by
      obtain ⟨sequence, ⟨event⟩⟩ := p
      rw [Reader.lift, exec_of, Prod.mk.injEq, Position.new_eq_ok]
      constructor
      · rintro ⟨⟨⟨⟩, hp⟩, rfl⟩
        exact ⟨rfl, ⟨hp, rfl⟩, rfl⟩
      · rintro ⟨rfl, ⟨hp, rfl⟩, rfl⟩
        exact ⟨⟨rfl, hp⟩, rfl⟩⟩
  exact h.congr (fun _ => Iff.rfl) fun p _ => by simp only [Position.put, List.append_nil]

def StageRef.Under (base : Position) (stage : StageRef) : Prop := stage.tail.Consistent ∧ stage.check base = .ok ()

theorem StageRef.new_eq_ok {id : Bytes32} {base tail : Position} {pages : UInt32} {expires : UInt64} {stage : StageRef} :
    StageRef.new id base tail pages expires = .ok stage ↔ stage = ⟨id, tail, pages, expires⟩ ∧ stage.check base = .ok () := by
  simp only [StageRef.new, bind_eq_ok]
  constructor
  · rintro ⟨_, h, hs⟩
    cases hs
    exact ⟨rfl, h⟩
  · rintro ⟨rfl, h⟩
    exact ⟨(), h, rfl⟩

theorem codec_stageRef (base : Position) : Codec (StageRef.read base) StageRef.put (StageRef.Under base) := by
  have h : Codec (StageRef.read base) (fun s => s.id.toList ++ (s.tail.put ++ (toBe s.pages ++ (toBe s.expires ++ [])))) (StageRef.Under base) :=
    codec_array.field StageRef.id fun _ =>
    codec_position.bind StageRef.tail (fun _ hs => hs.1.1) fun _ htail =>
    codec_u32.field StageRef.pages fun _ =>
    codec_u64.field StageRef.expires fun _ => ⟨fun bytes s rest => by
      obtain ⟨id, tail, pages, expires⟩ := s
      rw [Reader.lift, exec_of, Prod.mk.injEq, StageRef.new_eq_ok]
      constructor
      · rintro ⟨⟨⟨⟩, hs⟩, rfl⟩
        exact ⟨rfl, ⟨⟨⟨⟨htail, hs⟩, rfl⟩, rfl⟩, rfl⟩, rfl⟩
      · rintro ⟨rfl, ⟨⟨⟨⟨-, hs⟩, rfl⟩, rfl⟩, rfl⟩, rfl⟩
        exact ⟨⟨rfl, hs⟩, rfl⟩⟩
  exact h.congr (fun _ => Iff.rfl) fun s _ => by simp only [StageRef.put, List.append_nil]

theorem codec_stage (base : Position) : Codec (stageRead base) stagePut fun o => ∀ s ∈ o, StageRef.Under base s := by
  refine .tagged (fun o => by cases o <;> exact ⟨_, _, rfl⟩) fun t => ?_
  split
  · exact .constant (fun o => by cases o <;> simp [stagePut]) rfl
  · exact (codec_stageRef base).map (fun o => by cases o <;> simp [stagePut]) fun _ => rfl
  · exact .none (fun _ => ⟨_, rfl⟩) fun o => by cases o <;> simp_all [stagePut, eq_comm]

/-! ### Requests -/

def StageRequest.Formed (s : StageRequest) : Prop :=
  s.base.Consistent ∧ (∀ prior ∈ s.prior, StageRef.Under s.base prior) ∧ s.end_.Consistent

def CommitRequest.Formed (c : CommitRequest) : Prop :=
  c.base.Consistent ∧ (∀ stage ∈ c.stage, StageRef.Under c.base stage) ∧ c.terminal.Consistent

theorem codec_stageRequest : Codec StageRequest.read StageRequest.put StageRequest.Formed :=
  codec_position.bind StageRequest.base (fun _ hs => hs.1) fun base hbase =>
  (codec_stage base).bind StageRequest.prior (fun _ hs => hs.2 ▸ hs.1.2.1) fun prior hprior =>
  codec_position.bind StageRequest.end_ (fun _ hs => hs.1.1.2.2) fun end_ hend =>
  codec_array.lastField StageRequest.body fun body => .pure _ fun s => by
    obtain ⟨base', prior', end', body'⟩ := s
    constructor
    · rintro ⟨⟨⟨⟨-, rfl⟩, rfl⟩, rfl⟩, rfl⟩
      rfl
    · rintro ⟨⟩
      exact ⟨⟨⟨⟨⟨hbase, hprior, hend⟩, rfl⟩, rfl⟩, rfl⟩, rfl⟩

theorem codec_commitRequest : Codec CommitRequest.read CommitRequest.put CommitRequest.Formed :=
  codec_position.bind CommitRequest.base (fun _ hc => hc.1) fun base hbase =>
  (codec_stage base).bind CommitRequest.stage (fun _ hc => hc.2 ▸ hc.1.2.1) fun stage hstage =>
  codec_position.bind CommitRequest.terminal (fun _ hc => hc.1.1.2.2) fun terminal hterminal =>
  codec_array.field CommitRequest.terminalFrame fun frame =>
  codec_array.lastField CommitRequest.body fun body => .pure _ fun c => by
    obtain ⟨base', stage', terminal', frame', body'⟩ := c
    constructor
    · rintro ⟨⟨⟨⟨⟨-, rfl⟩, rfl⟩, rfl⟩, rfl⟩, rfl⟩
      rfl
    · rintro ⟨⟩
      exact ⟨⟨⟨⟨⟨⟨hbase, hstage, hterminal⟩, rfl⟩, rfl⟩, rfl⟩, rfl⟩, rfl⟩

def Kind.Formed : Kind → Prop
  | .stage s => s.Formed
  | .commit c => c.Formed
  | .status minimum => minimum.Consistent
  | .feed _ _ => True
  | .evidence after _ => after.Consistent

theorem codec_kind : Codec Kind.read Kind.put Kind.Formed := by
  refine .tagged (fun k => by cases k <;> exact ⟨_, _, rfl⟩) fun t => ?_
  split
  · exact codec_stageRequest.map (fun k => by cases k <;> simp [Kind.put, Kind.Formed]) fun _ => rfl
  · exact codec_commitRequest.map (fun k => by cases k <;> simp [Kind.put, Kind.Formed]) fun _ => rfl
  · exact codec_position.map (fun k => by cases k <;> simp [Kind.put, Kind.Formed]) fun _ => rfl
  · exact codec_u64.map₂ codec_u8 (fun k => by cases k <;> simp [Kind.put, Kind.Formed]) fun _ _ => rfl
  · exact codec_position.map₂ codec_u8 (fun k => by cases k <;> simp [Kind.put, Kind.Formed]) fun _ _ => rfl
  · exact .none (fun _ => ⟨_, rfl⟩) fun k => by cases k <;> simp_all [Kind.put, eq_comm]

theorem codec_selection : Codec Selection.read Selection.put fun _ => True := by
  refine .tagged (fun s => by cases s <;> exact ⟨_, _, rfl⟩) fun t => ?_
  split
  · exact .constant (fun s => by cases s <;> simp [Selection.put]) rfl
  · exact codec_array.map (fun s => by cases s <;> simp [Selection.put]) fun _ => rfl
  · exact .none (fun _ => ⟨_, rfl⟩) fun s => by cases s <;> simp_all [Selection.put, eq_comm]

def RequestContext.Formed (context : RequestContext) : Prop := context.scope.check = .ok () ∧ context.floor.check = .ok ()

theorem codec_context : Codec RequestContext.read RequestContext.put RequestContext.Formed :=
  codec_scope.bind RequestContext.scope (fun _ hc => hc.1) fun scope hscope =>
  codec_array.field RequestContext.nonce fun nonce =>
  codec_array.field RequestContext.operation fun operation =>
  codec_observed.last RequestContext.floor (fun _ hc => hc.1.1.1.2) fun floor hfloor => .pure _ fun c => by
    obtain ⟨scope', nonce', operation', floor'⟩ := c
    constructor
    · rintro ⟨⟨⟨⟨-, rfl⟩, rfl⟩, rfl⟩, rfl⟩
      rfl
    · rintro ⟨⟩
      exact ⟨⟨⟨⟨⟨hscope, hfloor⟩, rfl⟩, rfl⟩, rfl⟩, rfl⟩

theorem codec_parts : Codec readParts (fun p => p.1.put ++ (p.2.1.put ++ p.2.2.put)) fun p => p.1.Formed ∧ p.2.2.Formed := by
  refine codec_context.map₃ codec_selection codec_kind (fun ⟨context, selection, kind⟩ => ?_) fun _ _ _ => rfl
  constructor
  · rintro ⟨hcontext, hkind⟩
    exact ⟨context, selection, kind, hcontext, trivial, hkind, rfl⟩
  · rintro ⟨_, _, _, hcontext, -, hkind, ⟨⟩⟩
    exact ⟨hcontext, hkind⟩

section
variable {crypto : Crypto} {request : Request crypto} {raw : List UInt8}

theorem Request.new_eq_ok {context : RequestContext} {selection : Selection} {kind : Kind} :
    Request.new crypto context selection kind = .ok request ↔
      request.context = context ∧ request.selection = selection ∧ request.kind = kind := by
  unfold Request.new
  constructor
  · intro h
    split at h
    · cases h
      exact ⟨rfl, rfl, rfl⟩
    · cases h
  · rintro ⟨rfl, rfl, rfl⟩
    split
    · rfl
    · rename_i he
      rw [request.checked] at he
      cases he

/-- The positions of a request are such as `Position::new` makes them. -/
def Kind.Consistent : Kind → Prop
  | .stage s => s.base.Consistent ∧ (∀ prior ∈ s.prior, prior.tail.Consistent) ∧ s.end_.Consistent
  | .commit c => c.base.Consistent ∧ (∀ stage ∈ c.stage, stage.tail.Consistent) ∧ c.terminal.Consistent
  | .status minimum => minimum.Consistent
  | .feed _ _ => True
  | .evidence after _ => after.Consistent

theorem checkedTail_ok {base tail : Position} {stage : Option StageRef} (h : checkedTail base stage = .ok tail) :
    ∀ s ∈ stage, s.check base = .ok () := by
  cases stage with
  | none => exact fun _ hs => by cases hs
  | some s =>
    simp only [checkedTail, bind_eq_ok] at h
    obtain ⟨_, h, -⟩ := h
    exact fun _ hs => Option.some.inj hs ▸ h

theorem checkedTail_formed {base tail : Position} {stage : Option StageRef} (h : checkedTail base stage = .ok tail) :
    (∀ s ∈ stage, s.tail.Consistent ∧ s.check base = .ok ()) ↔ ∀ s ∈ stage, s.tail.Consistent := by
  constructor
  · intro hs s hmem
    exact (hs s hmem).1
  · intro hs s hmem
    exact ⟨hs s hmem, checkedTail_ok h s hmem⟩

theorem Kind.formed {kind : Kind} (h : kind.check = .ok ()) : kind.Formed ↔ kind.Consistent := by
  cases kind with
  | stage s =>
    simp only [Kind.check, bind_eq_ok] at h
    obtain ⟨tail, htail, -⟩ := h
    exact and_congr_right' (and_congr_left' (checkedTail_formed htail))
  | commit c =>
    simp only [Kind.check, bind_eq_ok] at h
    obtain ⟨tail, htail, -⟩ := h
    exact and_congr_right' (and_congr_left' (checkedTail_formed htail))
  | status minimum => exact Iff.rfl
  | feed after count => exact Iff.rfl
  | evidence after count => exact Iff.rfl

theorem Request.formed (request : Request crypto) : request.context.Formed ∧ (request.kind.Formed ↔ request.kind.Consistent) := by
  have h := request.checked
  simp only [checkRequest, bind_eq_ok] at h
  obtain ⟨_, hscope, _, hfloor, _, -, _, -, h⟩ := h
  refine ⟨⟨hscope, hfloor⟩, ?_⟩
  cases hselection : request.selection with
  | roomFeed =>
    cases hkind : request.kind with
    | feed after count => exact Iff.rfl
    | stage s => rw [hselection, hkind] at h; cases h
    | commit c => rw [hselection, hkind] at h; cases h
    | status minimum => rw [hselection, hkind] at h; cases h
    | evidence after count => rw [hselection, hkind] at h; cases h
  | author key =>
    rw [hselection] at h
    simp only [bind_eq_ok] at h
    obtain ⟨_, -, h⟩ := h
    exact Kind.formed h

/-! ### Sizes -/

theorem Scope.length_put (scope : Scope) : scope.put.length = 112 := by
  simp only [put, List.length_append, Vector.length_toList]

theorem Position.length_put (position : Position) : position.put.length = 40 := by
  simp only [put, List.length_append, Vector.length_toList, length_toBe, bytes_uInt64]

theorem Observed.length_put (observed : Observed) : observed.put.length = 40 := by
  simp only [put, List.length_append, Vector.length_toList, length_toBe, bytes_uInt64]

theorem StageRef.length_put (stage : StageRef) : stage.put.length = 84 := by
  simp only [put, List.length_append, Vector.length_toList, length_toBe, bytes_uInt64, bytes_uInt32, Position.length_put]

theorem length_stagePut_le (stage : Option StageRef) : (stagePut stage).length ≤ 85 := by
  cases stage with
  | none => decide
  | some stage => rw [stagePut, List.length_cons, StageRef.length_put]

theorem Selection.length_put_le (selection : Selection) : selection.put.length ≤ 33 := by
  cases selection with
  | roomFeed => decide
  | author key => rw [put, List.length_cons, Vector.length_toList]

theorem Kind.length_put_le (kind : Kind) : kind.put.length ≤ 230 := by
  cases kind with
  | stage s =>
    have hstage := length_stagePut_le s.prior
    simp only [put, StageRequest.put, List.length_cons, List.length_append, Position.length_put, Vector.length_toList]
    omega
  | commit c =>
    have hstage := length_stagePut_le c.stage
    simp only [put, CommitRequest.put, List.length_cons, List.length_append, Position.length_put, Vector.length_toList]
    omega
  | status minimum =>
    rw [put, List.length_cons, Position.length_put]
    decide
  | feed after count =>
    simp only [put, List.length_cons, List.length_append, length_toBe, bytes_uInt64, bytes_uInt8]
    decide
  | evidence after count =>
    simp only [put, List.length_cons, List.length_append, Position.length_put, length_toBe, bytes_uInt8]
    decide

theorem Request.length_encode_le (request : Request crypto) : request.encode.length ≤ maxRequestBytes := by
  have hselection := request.selection.length_put_le
  have hkind := request.kind.length_put_le
  simp only [encode, RequestContext.put, List.length_append, Scope.length_put, Observed.length_put, Vector.length_toList, requestMagic,
    List.length_cons, List.length_nil, maxRequestBytes]
  omega

/-! ### Round trips -/

theorem Request.decode_eq_ok : Request.decode crypto raw = .ok request ↔ raw = request.encode ∧ request.kind.Consistent := by
  simp only [Request.decode, bind_eq_ok, framed_eq_ok codec_parts, Request.new_eq_ok]
  constructor
  · rintro ⟨⟨_, _, _⟩, ⟨rfl, ⟨-, hkind⟩, -⟩, rfl, rfl, rfl⟩
    exact ⟨rfl, request.formed.2.1 hkind⟩
  · rintro ⟨rfl, hkind⟩
    exact ⟨(request.context, request.selection, request.kind), ⟨rfl, ⟨request.formed.1, request.formed.2.2 hkind⟩,
      request.length_encode_le⟩, rfl, rfl, rfl⟩

theorem length_targetPrefix : targetPrefix.length = 30 := by
  rw [targetPrefix, ByteArray.toList_eq_toList_data]
  rfl

theorem Request.length_target_le (request : Request crypto) : request.target.length ≤ maxTargetBytes := by
  have hlength := request.length_encode_le
  rw [target, List.length_append, Hex.length_encode, length_targetPrefix, maxTargetBytes]
  omega

theorem stripPrefix_eq_some {pre rest : List UInt8} : stripPrefix pre raw = some rest ↔ raw = pre ++ rest := by
  unfold stripPrefix
  constructor
  · intro h
    split at h
    · rename_i hpre
      cases h
      rw [← List.take_append_drop pre.length raw, hpre, List.drop_left]
    · cases h
  · rintro rfl
    rw [List.take_left, List.drop_left, if_pos rfl]

theorem unhex_eq_ok {limit : Nat} {bytes : List UInt8} : unhex raw limit = .ok bytes ↔ raw = Hex.encode bytes ∧ bytes.length ≤ limit := by
  simp only [unhex, bind_eq_ok, require_eq_ok, Bool.and_eq_true, decide_eq_true_eq, beq_iff_eq, okOr_eq_ok, Hex.pairs_eq_some]
  constructor
  · rintro ⟨_, ⟨hle, -⟩, rfl⟩
    rw [Hex.length_encode] at hle
    exact ⟨rfl, Nat.le_of_mul_le_mul_right hle (by decide)⟩
  · rintro ⟨rfl, hle⟩
    rw [Hex.length_encode]
    exact ⟨(), ⟨Nat.mul_le_mul_right 2 hle, Nat.mul_mod_left ..⟩, rfl⟩

theorem Request.parseTarget_eq_ok : Request.parseTarget crypto raw = .ok request ↔ raw = request.target ∧ request.kind.Consistent := by
  simp only [Request.parseTarget, bind_eq_ok, require_eq_ok, decide_eq_true_eq, okOr_eq_ok, stripPrefix_eq_some, unhex_eq_ok,
    Request.decode_eq_ok, beq_iff_eq]
  constructor
  · rintro ⟨_, -, digits, -, bytes, -, request', ⟨-, hkind⟩, _, htarget, he⟩
    cases he
    exact ⟨htarget.symm, hkind⟩
  · rintro ⟨rfl, hkind⟩
    exact ⟨(), request.length_target_le, _, rfl, _, ⟨rfl, request.length_encode_le⟩, request, ⟨rfl, hkind⟩, (), rfl, rfl⟩

/-! ### Bodies -/

theorem codec_size {limit : Nat} (h : limit < 256 ^ 2) : Codec (sizeRead limit) (fun n => toBe (UInt16.ofNat n)) (· ≤ limit) :=
  .limited h

theorem codec_event : Codec (eventRead crypto) eventPut fun _ => True := by
  refine (codec_size (by decide)).bind (fun event : VerifiedEvent crypto => event.encode.length)
    (fun event _ => event.length_encode_le) fun n hn => (Codec.take _ n).last RoomActivity.VerifiedEvent.encode
      (fun event h => h.2) fun bytes hbytes => ⟨fun raw event rest => ?_⟩
  simp only [exec_bind_eq_ok, Reader.lift, exec_of, Prod.mk.injEq, mapError_eq_ok]
  have hread : (RoomActivity.decodeSigned crypto bytes >>= RoomActivity.SignedEvent.verify crypto) = .ok event ↔ bytes = event.encode :=
    RoomActivity.decode_verify_eq_ok
  rw [bind_eq_ok] at hread
  constructor
  · rintro ⟨signed, mid, ⟨hsigned, rfl⟩, hverify, rfl⟩
    have hencode := hread.1 ⟨signed, hsigned, hverify⟩
    exact ⟨rfl, ⟨trivial, by rw [← hencode, hbytes]⟩, hencode.symm⟩
  · rintro ⟨rfl, -, hencode⟩
    obtain ⟨signed, hsigned, hverify⟩ := hread.2 hencode.symm
    exact ⟨signed, _, ⟨hsigned, rfl⟩, hverify, rfl⟩

theorem length_eventPut_le (event : VerifiedEvent crypto) : (eventPut event).length ≤ 2 + maxEventBytes := by
  have hle := event.length_encode_le
  rw [eventPut, List.length_append, length_toBe, bytes_uInt16]
  omega

theorem codec_events (n : Nat) : Codec (Reader.replicate (eventRead crypto) n) (List.flatMap eventPut) fun l => l.length = n :=
  (Codec.many (fun _ => codec_event) n ()).congr
    (fun l => by rw [Codec.chained_of_forall]; exact (and_iff_left fun _ _ => trivial).symm) fun _ _ => rfl

theorem codec_count (terminal : Bool) : Codec (Body.countRead terminal) (fun n => toBe (UInt8.ofNat n))
    fun n => n ≤ stageEvents ∧ (terminal = false → n = stageEvents) := by
  refine ⟨fun bytes n rest => ?_⟩
  simp only [Body.countRead, exec_bind_eq_ok, codec_u8.iff]
  have hmeans : ∀ k : Nat, ¬ (32 < k ∨ terminal = false ∧ k ≠ 32) ↔ k ≤ stageEvents ∧ (terminal = false → k = stageEvents) := by
    intro k
    rw [not_or, Nat.not_lt, not_and, not_not]
    rfl
  constructor
  · rintro ⟨a, mid, ⟨rfl, -⟩, h⟩
    split at h
    · cases h
    · rename_i hn
      cases h
      exact ⟨congrArg (fun b : UInt8 => toBe b ++ rest) (ofNat_toNat a).symm, (hmeans _).1 hn⟩
  · rintro ⟨rfl, hn⟩
    have hto : toNat (UInt8.ofNat n) = n := toNat_ofNat n (Nat.lt_of_le_of_lt hn.1 (by decide))
    refine ⟨UInt8.ofNat n, rest, ⟨rfl, trivial⟩, ?_⟩
    rw [hto, if_neg ((hmeans n).2 hn)]
    rfl

namespace Body
variable {body : Body crypto}

theorem stage_eq_ok {history : List (VerifiedEvent crypto)} : stage history = .ok body ↔ body.history = history ∧ body.terminal = none := by
  unfold stage
  constructor
  · intro h
    split at h
    · cases h
      exact ⟨rfl, rfl⟩
    · cases h
  · obtain ⟨history', terminal', hbounded, hwhole⟩ := body
    rintro ⟨rfl, rfl⟩
    rw [dif_pos (hwhole rfl)]

theorem commit_eq_ok {history : List (VerifiedEvent crypto)} {terminal : VerifiedEvent crypto} :
    commit history terminal = .ok body ↔ body.history = history ∧ body.terminal = some terminal := by
  unfold commit
  constructor
  · intro h
    split at h
    · cases h
      exact ⟨rfl, rfl⟩
    · cases h
  · obtain ⟨history', terminal', hbounded, hwhole⟩ := body
    rintro ⟨rfl, rfl⟩
    rw [dif_pos hbounded]

def rest (body : Body crypto) : List UInt8 :=
  toBe (UInt8.ofNat body.history.length) ++ (body.history.flatMap eventPut ++ body.terminal.toList.flatMap eventPut)

theorem codec (terminal : Bool) : Codec (read crypto terminal) rest fun body => body.hasTerminal = terminal := by
  refine (codec_count terminal).bind (fun body : Body crypto => body.history.length)
    (fun body h => ⟨body.bounded, fun ht => body.whole (Option.not_isSome_iff_eq_none.1 (by rw [← hasTerminal, h, ht]; exact Bool.false_ne_true))⟩)
    fun n hn => (codec_events n).bind history (fun body h => h.2) fun history hlength => ?_
  cases terminal with
  | true =>
    refine ⟨fun raw body rest => ?_⟩
    simp only [if_true, exec_bind_eq_ok, codec_event.iff, Reader.lift, exec_of, Prod.mk.injEq, commit_eq_ok, and_true]
    constructor
    · rintro ⟨event, mid, rfl, ⟨rfl, hterminal⟩, rfl⟩
      refine ⟨?_, ⟨⟨?_, hlength⟩, rfl⟩⟩
      · rw [hterminal]
        exact congrArg (· ++ _) (List.append_nil _).symm
      · rw [hasTerminal, hterminal]
        rfl
    · rintro ⟨rfl, ⟨⟨hsome, -⟩, hhistory⟩⟩
      obtain ⟨event, hevent⟩ := Option.isSome_iff_exists.1 hsome
      refine ⟨event, rest, ?_, ⟨hhistory, hevent⟩, rfl⟩
      rw [hevent]
      exact congrArg (· ++ _) (List.append_nil _)
  | false =>
    refine ⟨fun raw body rest => ?_⟩
    simp only [Bool.false_eq_true, if_false, Reader.lift, exec_of, Prod.mk.injEq, stage_eq_ok]
    constructor
    · rintro ⟨⟨rfl, hterminal⟩, rfl⟩
      refine ⟨?_, ⟨⟨?_, hlength⟩, rfl⟩⟩
      · rw [hterminal]
        rfl
      · rw [hasTerminal, hterminal]
        rfl
    · rintro ⟨rfl, ⟨⟨hsome, -⟩, hhistory⟩⟩
      have hnone : body.terminal = none := Option.not_isSome_iff_eq_none.1 (by rw [← hasTerminal, hsome]; exact Bool.false_ne_true)
      refine ⟨⟨hhistory, hnone⟩, ?_⟩
      rw [hnone]
      rfl

theorem encode_eq (body : Body crypto) : body.encode = (if body.hasTerminal then commitMagic else stageMagic) ++ body.rest := rfl

theorem length_encode_le (body : Body crypto) : body.encode.length ≤ maxBodyBytes := by
  have hevents : ∀ l : List (VerifiedEvent crypto), (l.flatMap eventPut).length ≤ l.length * (2 + maxEventBytes) := fun l =>
    Codec.length_flatMap_le fun e _ => length_eventPut_le e
  have hhistory := hevents body.history
  have hterminal := hevents body.terminal.toList
  have hone : body.terminal.toList.length ≤ 1 := by
    cases body.terminal with
    | none => exact Nat.zero_le _
    | some event => exact Nat.le_refl _
  have hmagic : (if body.hasTerminal then commitMagic else stageMagic).length = 5 := by split <;> rfl
  have hle : body.history.length * (2 + maxEventBytes) ≤ 32 * (2 + maxEventBytes) := Nat.mul_le_mul_right _ body.bounded
  have hle' : body.terminal.toList.length * (2 + maxEventBytes) ≤ 1 * (2 + maxEventBytes) := Nat.mul_le_mul_right _ hone
  rw [encode_eq, rest, List.length_append, List.length_append, List.length_append, hmagic, length_toBe, bytes_uInt8, maxBodyBytes]
  omega

theorem decode_eq_ok : decode crypto raw = .ok body ↔ raw = body.encode := by
  have hne : commitMagic ≠ stageMagic := by decide
  simp only [decode, bind_eq_ok, require_eq_ok, decide_eq_true_eq]
  constructor
  · rintro ⟨_, -, h⟩
    split at h
    · rename_i hmagic
      obtain ⟨hrest, hterminal⟩ := (codec true).complete_eq_ok.1 h
      rw [encode_eq, hterminal, if_pos rfl, ← hmagic, ← hrest, List.take_append_drop]
    · split at h
      · rename_i hmagic
        obtain ⟨hrest, hterminal⟩ := (codec false).complete_eq_ok.1 h
        rw [encode_eq, hterminal, if_neg Bool.false_ne_true, ← hmagic, ← hrest, List.take_append_drop]
      · cases h
  · rintro rfl
    refine ⟨(), body.length_encode_le, ?_⟩
    cases hterminal : body.hasTerminal with
    | true =>
      have htake : (commitMagic ++ body.rest).take 5 = commitMagic := rfl
      have hdrop : (commitMagic ++ body.rest).drop 5 = body.rest := rfl
      have hencode : body.encode = commitMagic ++ body.rest := by rw [encode_eq, hterminal, if_pos rfl]
      rw [hencode, htake, if_pos rfl, hdrop]
      exact (codec true).complete_eq_ok.2 ⟨rfl, hterminal⟩
    | false =>
      have htake : (stageMagic ++ body.rest).take 5 = stageMagic := rfl
      have hdrop : (stageMagic ++ body.rest).drop 5 = body.rest := rfl
      have hencode : body.encode = stageMagic ++ body.rest := by rw [encode_eq, hterminal, if_neg Bool.false_ne_true]
      rw [hencode, htake, if_neg hne.symm, if_pos rfl, hdrop]
      exact (codec false).complete_eq_ok.2 ⟨rfl, hterminal⟩

end Body

end

end Valhalla.Continuity
