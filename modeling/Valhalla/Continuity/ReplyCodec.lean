import Valhalla.Continuity.Reply
import Valhalla.Continuity.RequestCodec

/-!
# What replies and proofs are read from
-/

namespace Valhalla.Continuity
open Fallible FixedWidth Check
open RoomActivity (EventId VerifiedEvent zeroBytes maxEventBytes)

variable {crypto : Crypto} {request : Request crypto} {raw : List UInt8}

/-! ### Parts -/

def StageAck.Formed (a : StageAck) : Prop :=
  a.observed.check = .ok () ∧ a.base.Consistent ∧ StageRef.Under a.base a.ticket ∧ a.submittedEnd.Consistent

def Status.Formed (s : Status) : Prop :=
  s.observed.check = .ok () ∧ s.published.Consistent ∧ ∀ stage ∈ s.stage, StageRef.Under s.published stage

def FeedPage.Formed (p : FeedPage crypto) : Prop := p.observed.check = .ok () ∧ p.entries.length ≤ maxPage

def EvidencePage.Formed (p : EvidencePage crypto) : Prop :=
  p.observed.check = .ok () ∧ p.tip.Consistent ∧ p.entries.length ≤ maxPage

theorem codec_stageAck : Codec StageAck.read StageAck.put StageAck.Formed :=
  codec_observed.bind StageAck.observed (fun _ h => h.1) fun observed hobserved =>
  codec_position.bind StageAck.base (fun _ h => h.1.2.1) fun base hbase =>
  (codec_stageRef base).bind StageAck.ticket (fun _ h => h.2 ▸ h.1.1.2.2.1) fun ticket hticket =>
  codec_position.bind StageAck.submittedEnd (fun _ h => h.1.1.1.2.2.2) fun submittedEnd hend =>
  codec_array.lastField StageAck.submittedBody fun body => .pure _ fun a => by
    obtain ⟨observed', base', ticket', end', body'⟩ := a
    constructor
    · rintro ⟨⟨⟨⟨⟨-, rfl⟩, rfl⟩, rfl⟩, rfl⟩, rfl⟩
      rfl
    · rintro ⟨⟩
      exact ⟨⟨⟨⟨⟨⟨hobserved, hbase, hticket, hend⟩, rfl⟩, rfl⟩, rfl⟩, rfl⟩, rfl⟩

theorem codec_bool : Codec boolRead boolPut fun _ => True := by
  refine .tagged (fun b => ⟨_, _, rfl⟩) fun t => ?_
  split
  · exact .constant (fun b => by cases b <;> simp [boolPut]) rfl
  · exact .constant (fun b => by cases b <;> simp [boolPut]) rfl
  · exact .none (fun _ => ⟨_, rfl⟩) fun b => by cases b <;> simp_all [boolPut, eq_comm]

theorem codec_receipt : Codec (TerminalReceipt.read crypto) TerminalReceipt.put fun c => c.observed.check = .ok () :=
  codec_observed.bind TerminalReceipt.observed (fun _ h => h) fun observed hobserved =>
  codec_u64.field TerminalReceipt.cursor fun cursor =>
  codec_array.field TerminalReceipt.registry fun registry =>
  codec_bool.field TerminalReceipt.reconciled fun reconciled =>
  codec_event.lastField TerminalReceipt.event fun event => .pure _ fun c => by
    obtain ⟨observed', event', cursor', registry', reconciled'⟩ := c
    constructor
    · rintro ⟨⟨⟨⟨⟨-, rfl⟩, rfl⟩, rfl⟩, rfl⟩, rfl⟩
      rfl
    · rintro ⟨⟩
      exact ⟨⟨⟨⟨⟨hobserved, rfl⟩, rfl⟩, rfl⟩, rfl⟩, rfl⟩

theorem codec_status : Codec Status.read Status.put Status.Formed :=
  codec_observed.bind Status.observed (fun _ h => h.1) fun observed hobserved =>
  codec_position.bind Status.published (fun _ h => h.1.2.1) fun published hpublished =>
  (codec_stage published).last Status.stage (fun _ h => h.2 ▸ h.1.1.2.2) fun stage hstage => .pure _ fun s => by
    obtain ⟨observed', published', stage'⟩ := s
    constructor
    · rintro ⟨⟨⟨-, rfl⟩, rfl⟩, rfl⟩
      rfl
    · rintro ⟨⟩
      exact ⟨⟨⟨⟨hobserved, hpublished, hstage⟩, rfl⟩, rfl⟩, rfl⟩

theorem codec_role : Codec roleRead rolePut fun _ => True := by
  refine .tagged (fun r => by cases r <;> exact ⟨_, _, rfl⟩) fun t => ?_
  split
  · exact .constant (fun r => by cases r <;> simp [rolePut]) rfl
  · exact .constant (fun r => by cases r <;> simp [rolePut]) rfl
  · exact .none (fun _ => ⟨_, rfl⟩) fun r => by cases r <;> simp_all [rolePut, eq_comm]

theorem codec_entry : Codec (Entry.read crypto) Entry.put fun _ => True :=
  codec_role.field Entry.role fun role =>
  codec_u64.field Entry.committedBy fun committedBy =>
  codec_array.field Entry.registry fun registry =>
  codec_event.lastField Entry.event fun event => .pure _ fun entry => by
    obtain ⟨role', committedBy', registry', event'⟩ := entry
    constructor
    · rintro ⟨⟨⟨⟨-, rfl⟩, rfl⟩, rfl⟩, rfl⟩
      rfl
    · rintro ⟨⟩
      exact ⟨⟨⟨⟨trivial, rfl⟩, rfl⟩, rfl⟩, rfl⟩

theorem codec_entries : Codec (entriesRead crypto) entriesPut fun entries => entries.length ≤ maxPage := by
  have hcount : Codec getCount (fun n => toBe (UInt8.ofNat n)) (· ≤ maxPage) := .limited (by decide)
  exact (hcount.counted fun _ => codec_entry).congr
    (fun l => by rw [Codec.chained_of_forall]; exact (and_iff_left fun _ _ => trivial).symm) fun _ _ => rfl

theorem codec_feed : Codec (FeedPage.read crypto) FeedPage.put FeedPage.Formed :=
  codec_observed.bind FeedPage.observed (fun _ h => h.1) fun observed hobserved =>
  codec_u64.field FeedPage.tip fun tip =>
  codec_entries.last FeedPage.entries (fun _ h => h.1.1.2) fun entries hentries => .pure _ fun p => by
    obtain ⟨observed', tip', entries'⟩ := p
    constructor
    · rintro ⟨⟨⟨-, rfl⟩, rfl⟩, rfl⟩
      rfl
    · rintro ⟨⟩
      exact ⟨⟨⟨⟨hobserved, hentries⟩, rfl⟩, rfl⟩, rfl⟩

theorem codec_evidence : Codec (EvidencePage.read crypto) EvidencePage.put EvidencePage.Formed :=
  codec_observed.bind EvidencePage.observed (fun _ h => h.1) fun observed hobserved =>
  codec_position.bind EvidencePage.tip (fun _ h => h.1.2.1) fun tip htip =>
  codec_entries.last EvidencePage.entries (fun _ h => h.1.1.2.2) fun entries hentries => .pure _ fun p => by
    obtain ⟨observed', tip', entries'⟩ := p
    constructor
    · rintro ⟨⟨⟨-, rfl⟩, rfl⟩, rfl⟩
      rfl
    · rintro ⟨⟩
      exact ⟨⟨⟨⟨hobserved, htip, hentries⟩, rfl⟩, rfl⟩, rfl⟩

/-! ### Replies -/

namespace Reply

def Formed : Reply crypto → Prop
  | .staged a => a.Formed
  | .committed c => c.observed.check = .ok ()
  | .status s => s.Formed
  | .feed p => p.Formed
  | .evidence p => p.Formed

/-- The positions of a reply are such as `Position::new` makes them. -/
def Consistent : Reply crypto → Prop
  | .staged a => a.base.Consistent ∧ a.ticket.tail.Consistent ∧ a.submittedEnd.Consistent
  | .committed _ => True
  | .status s => s.published.Consistent ∧ ∀ stage ∈ s.stage, stage.tail.Consistent
  | .feed _ => True
  | .evidence p => p.tip.Consistent

theorem codec : Codec (read crypto) put Formed := by
  refine .tagged (fun r => by cases r <;> exact ⟨_, _, rfl⟩) fun t => ?_
  split
  · exact codec_stageAck.map (fun r => by cases r <;> simp [put, Formed]) fun _ => rfl
  · exact codec_receipt.map (fun r => by cases r <;> simp [put, Formed]) fun _ => rfl
  · exact codec_status.map (fun r => by cases r <;> simp [put, Formed]) fun _ => rfl
  · exact codec_feed.map (fun r => by cases r <;> simp [put, Formed]) fun _ => rfl
  · exact codec_evidence.map (fun r => by cases r <;> simp [put, Formed]) fun _ => rfl
  · exact .none (fun _ => ⟨_, rfl⟩) fun r => by cases r <;> simp_all [put, eq_comm]

end Reply

/-! ### Checked replies -/

theorem covers_check {observed : Observed} (h : observed.covers request = .ok ()) : observed.check = .ok () := by
  simp only [Observed.covers, bind_eq_ok] at h
  obtain ⟨_, h, -⟩ := h
  exact h

theorem countCheck_eq_ok {count : UInt8} : countCheck count = .ok () ↔ count ≠ 0 ∧ count.toNat ≤ maxPage := by
  rw [countCheck, require_eq_ok, Bool.and_eq_true, bne_iff_ne, decide_eq_true_eq]

theorem Request.count (request : Request crypto) {count : UInt8}
    (h : (∃ after, request.kind = .feed after count) ∨ ∃ after, request.kind = .evidence after count) : count ≠ 0 ∧ count.toNat ≤ maxPage := by
  have hchecked := request.checked
  simp only [checkRequest, bind_eq_ok] at hchecked
  obtain ⟨_, -, _, -, _, -, _, -, hchecked⟩ := hchecked
  rcases h with ⟨after, hkind⟩ | ⟨after, hkind⟩ <;> rw [hkind] at hchecked <;> cases hselection : request.selection with
  | roomFeed =>
    rw [hselection] at hchecked
    first | exact countCheck_eq_ok.1 hchecked | cases hchecked
  | author key =>
    rw [hselection] at hchecked
    simp only [bind_eq_ok] at hchecked
    obtain ⟨_, -, hchecked⟩ := hchecked
    first | exact countCheck_eq_ok.1 hchecked | cases hchecked

theorem pageLen_le {after tip : UInt64} {count : UInt8} {len : Nat} (h : pageLen after tip count len = .ok ()) : len ≤ count.toNat := by
  simp only [pageLen, require_eq_ok, Bool.and_eq_true, decide_eq_true_eq] at h
  exact h.1.1.2

inductive Answers (request : Request crypto) : Reply crypto → Prop
  | staged {a : StageAck} {s : StageRequest} (hkind : request.kind = .stage s) (h : a.check request s = .ok ()) :
      Answers request (.staged a)
  | committed {c : TerminalReceipt crypto} {commit : CommitRequest} (hkind : request.kind = .commit commit)
      (h : c.check request commit = .ok ()) : Answers request (.committed c)
  | status {s : Status} {minimum : Position} (hkind : request.kind = .status minimum) (h : s.check request minimum = .ok ()) :
      Answers request (.status s)
  | feed {p : FeedPage crypto} {after : UInt64} {count : UInt8} (hkind : request.kind = .feed after count)
      (h : p.check request after count = .ok ()) : Answers request (.feed p)
  | evidence {p : EvidencePage crypto} {after : Position} {count : UInt8} (hkind : request.kind = .evidence after count)
      (h : p.check request after count = .ok ()) : Answers request (.evidence p)

namespace Reply
variable {reply : Reply crypto}

theorem check_eq_ok : reply.check request = .ok () ↔ Answers request reply := by
  constructor
  · intro h
    unfold check at h
    split at h
    · exact .staged ‹_› h
    · exact .committed ‹_› h
    · exact .status ‹_› h
    · exact .feed ‹_› h
    · exact .evidence ‹_› h
    · cases h
  · intro h
    cases h with
    | staged hkind h =>
      simp only [check, hkind]
      exact h
    | committed hkind h =>
      simp only [check, hkind]
      exact h
    | status hkind h =>
      simp only [check, hkind]
      exact h
    | feed hkind h =>
      simp only [check, hkind]
      exact h
    | evidence hkind h =>
      simp only [check, hkind]
      exact h

theorem formed (h : Answers request reply) : reply.Formed ↔ reply.Consistent := by
  cases h with
  | staged hkind h =>
    simp only [StageAck.check, bind_eq_ok, require_eq_ok, Bool.and_eq_true, beq_iff_eq] at h
    obtain ⟨_, hcovers, _, -, _, hticket, ⟨⟨⟨⟨⟨⟨hbase, -⟩, -⟩, -⟩, -⟩, -⟩, -⟩⟩ := h
    rw [← hbase] at hticket
    constructor
    · rintro ⟨-, hbase, hstage, hend⟩
      exact ⟨hbase, hstage.1, hend⟩
    · rintro ⟨hbase, hstage, hend⟩
      exact ⟨covers_check hcovers, hbase, ⟨hstage, hticket⟩, hend⟩
  | committed hkind h =>
    simp only [TerminalReceipt.check, bind_eq_ok] at h
    obtain ⟨_, hcovers, -⟩ := h
    exact iff_of_true (covers_check hcovers) trivial
  | status hkind h =>
    simp only [Status.check, bind_eq_ok] at h
    obtain ⟨_, hcovers, _, -, _, -, hstage⟩ := h
    constructor
    · rintro ⟨-, hpublished, hformed⟩
      exact ⟨hpublished, fun st hst => (hformed st hst).1⟩
    · rintro ⟨hpublished, htail⟩
      refine ⟨covers_check hcovers, hpublished, fun st hst => ⟨htail st hst, ?_⟩⟩
      rw [Option.mem_def.1 hst] at hstage
      exact hstage
  | @feed p after count hkind h =>
    simp only [FeedPage.check, bind_eq_ok] at h
    obtain ⟨_, -, _, hcovers, _, hlen, -⟩ := h
    exact iff_of_true ⟨covers_check hcovers, (pageLen_le hlen).trans (request.count (.inl ⟨after, hkind⟩)).2⟩ trivial
  | @evidence p after count hkind h =>
    simp only [EvidencePage.check, bind_eq_ok] at h
    obtain ⟨_, hcovers, _, hlen, -⟩ := h
    exact ⟨fun h => h.2.1, fun h => ⟨covers_check hcovers, h, (pageLen_le hlen).trans (request.count (.inr ⟨after, hkind⟩)).2⟩⟩

/-! ### Sizes -/

theorem length_entriesPut_le {entries : List (Entry crypto)} (h : entries.length ≤ maxPage) :
    (entriesPut entries).length ≤ 1 + 32 * (1 + 8 + 32 + 2 + maxEventBytes) := by
  have hentry : ∀ e ∈ entries, e.put.length ≤ 1 + 8 + 32 + 2 + maxEventBytes := fun e _ => by
    have hevent := length_eventPut_le e.event
    have hrole : (rolePut e.role).length = 1 := by cases e.role <;> rfl
    rw [Entry.put, List.length_append, List.length_append, List.length_append, hrole, length_toBe, bytes_uInt64, Vector.length_toList]
    omega
  have hflat := Codec.length_flatMap_le hentry
  have hle : entries.length * (1 + 8 + 32 + 2 + maxEventBytes) ≤ 32 * (1 + 8 + 32 + 2 + maxEventBytes) := Nat.mul_le_mul_right _ h
  rw [entriesPut, List.length_append, length_toBe, bytes_uInt8]
  omega

theorem length_put_le (h : reply.Formed) : (replyMagic ++ reply.put).length ≤ maxReplyBytes := by
  have hmagic : replyMagic.length = 5 := rfl
  rw [List.length_append, hmagic, maxReplyBytes]
  cases reply with
  | staged a =>
    simp only [put, StageAck.put, List.length_cons, List.length_append, Observed.length_put, Position.length_put, StageRef.length_put,
      Vector.length_toList]
    omega
  | committed c =>
    have hevent := length_eventPut_le c.event
    simp only [put, TerminalReceipt.put, boolPut, List.length_cons, List.length_nil, List.length_append, Observed.length_put,
      Vector.length_toList, length_toBe, bytes_uInt64]
    omega
  | status s =>
    have hstage := length_stagePut_le s.stage
    simp only [put, Status.put, List.length_cons, List.length_append, Observed.length_put, Position.length_put]
    omega
  | feed p =>
    have hentries := length_entriesPut_le h.2
    simp only [put, FeedPage.put, List.length_cons, List.length_append, Observed.length_put, length_toBe, bytes_uInt64]
    omega
  | evidence p =>
    have hentries := length_entriesPut_le h.2.2
    simp only [put, EvidencePage.put, List.length_cons, List.length_append, Observed.length_put, Position.length_put]
    omega

/-! ### Round trips -/

theorem decode_eq_ok : decode raw request = .ok reply ↔
    raw = replyMagic ++ reply.put ∧ reply.Consistent ∧ reply.check request = .ok () := by
  simp only [decode, bind_eq_ok, framed_eq_ok codec]
  constructor
  · rintro ⟨reply', ⟨rfl, hformed, -⟩, _, hcheck, he⟩
    cases he
    exact ⟨rfl, (formed (check_eq_ok.1 hcheck)).1 hformed, hcheck⟩
  · rintro ⟨rfl, hconsistent, hcheck⟩
    have hformed := (formed (check_eq_ok.1 hcheck)).2 hconsistent
    exact ⟨reply, ⟨rfl, hformed, length_put_le hformed⟩, (), hcheck, rfl⟩

theorem encode_eq_ok (hconsistent : reply.Consistent) : reply.encode request = .ok raw ↔
    raw = replyMagic ++ reply.put ∧ reply.check request = .ok () := by
  simp only [encode, bind_eq_ok, require_eq_ok, decide_eq_true_eq]
  constructor
  · rintro ⟨_, hcheck, _, -, he⟩
    cases he
    exact ⟨rfl, hcheck⟩
  · rintro ⟨rfl, hcheck⟩
    exact ⟨(), hcheck, (), length_put_le ((formed (check_eq_ok.1 hcheck)).2 hconsistent), rfl⟩

end Reply

/-! ### Proofs -/

theorem UnsignedResponse.make_eq_ok {peer body : Bytes32} {statement : UnsignedResponse crypto} :
    UnsignedResponse.make peer request body = .ok statement ↔
      statement.peer = peer ∧ statement.request = request ∧ statement.body = body := by
  unfold UnsignedResponse.make
  constructor
  · intro h
    split at h
    · cases h
      exact ⟨rfl, rfl, rfl⟩
    · cases h
  · rintro ⟨rfl, rfl, rfl⟩
    split
    · rfl
    · rename_i he
      rw [statement.key] at he
      cases he

namespace ResponseProof
variable {proof : ResponseProof crypto}

def rest (proof : ResponseProof crypto) : List UInt8 :=
  proof.statement.peer.toList ++ (toBe (UInt16.ofNat proof.statement.request.encode.length) ++
    (proof.statement.request.encode ++ (proof.statement.body.toList ++ proof.signature.toList)))

theorem encode_eq (proof : ResponseProof crypto) : proof.encode = proofMagic ++ proof.rest := by
  simp only [encode, rest, UnsignedResponse.unsigned, List.append_assoc]

theorem codec : Codec (read crypto) rest fun proof => proof.statement.request.kind.Consistent := by
  have hrequest : ∀ bytes : List UInt8, Codec (Reader.lift (Request.decode crypto bytes)) (fun _ => [])
      fun request => request.kind.Consistent ∧ request.encode = bytes := fun bytes => ⟨fun raw request rest => by
    rw [Reader.lift, exec_of, Prod.mk.injEq, Request.decode_eq_ok]
    constructor
    · rintro ⟨⟨hencode, hkind⟩, hrest⟩
      exact ⟨hrest, hkind, hencode.symm⟩
    · rintro ⟨hrest, hkind, hencode⟩
      exact ⟨⟨hencode.symm, hkind⟩, hrest⟩⟩
  have h : Codec (read crypto) (fun proof => proof.statement.peer.toList ++ ([] ++
      (toBe (UInt16.ofNat proof.statement.request.encode.length) ++ (proof.statement.request.encode ++ ([] ++ (proof.statement.body.toList ++
        (proof.signature.toList ++ []))))))) fun proof => proof.statement.request.kind.Consistent :=
    codec_array.field (fun proof : ResponseProof crypto => proof.statement.peer) fun peer =>
    Codec.guard.bind (fun _ => ()) (fun proof hp => hp.2 ▸ proof.statement.key) fun _ hkey =>
    (codec_size (by decide)).bind (fun proof : ResponseProof crypto => proof.statement.request.encode.length)
      (fun proof _ => proof.statement.request.length_encode_le) fun n hn =>
    (Codec.take _ n).bind (fun proof : ResponseProof crypto => proof.statement.request.encode) (fun _ hp => hp.2) fun bytes hbytes =>
    (hrequest bytes).bind (fun proof : ResponseProof crypto => proof.statement.request) (fun _ hp => ⟨hp.1.1.1.1, hp.2⟩) fun request hr =>
    codec_array.field (fun proof : ResponseProof crypto => proof.statement.body) fun body =>
    codec_array.field ResponseProof.signature fun signature => ⟨fun raw proof rest => by
      simp only [exec_bind_eq_ok, Reader.lift, exec_of, Prod.mk.injEq, UnsignedResponse.make_eq_ok, exec_pure, Except.ok.injEq]
      obtain ⟨statement, signature'⟩ := proof
      constructor
      · rintro ⟨statement', mid, ⟨⟨rfl, rfl, rfl⟩, rfl⟩, ⟨⟩, rfl⟩
        exact ⟨rfl, ⟨⟨⟨⟨⟨⟨⟨hr.1, rfl⟩, trivial⟩, by rw [hr.2, hbytes]⟩, hr.2⟩, rfl⟩, rfl⟩, rfl⟩⟩
      · rintro ⟨rfl, ⟨⟨⟨⟨⟨⟨⟨-, rfl⟩, -⟩, -⟩, -⟩, rfl⟩, rfl⟩, rfl⟩⟩
        exact ⟨statement, _, ⟨⟨rfl, rfl, rfl⟩, rfl⟩, rfl, rfl⟩⟩
  exact h.congr (fun _ => Iff.rfl) fun proof _ => by simp only [rest, List.append_nil, List.nil_append]

theorem length_encode_le (proof : ResponseProof crypto) : proof.encode.length ≤ maxProofBytes := by
  have hrequest := proof.statement.request.length_encode_le
  have hmagic : proofMagic.length = 5 := rfl
  simp only [encode_eq, rest, List.length_append, Vector.length_toList, length_toBe, bytes_uInt16, hmagic, maxProofBytes]
  omega

theorem decode_eq_ok : decode crypto raw = .ok proof ↔ raw = proof.encode ∧ proof.statement.request.kind.Consistent := by
  rw [decode, framed_eq_ok codec, ← encode_eq]
  exact ⟨fun ⟨h₁, h₂, _⟩ => ⟨h₁, h₂⟩, fun ⟨h₁, h₂⟩ => ⟨h₁, h₂, proof.length_encode_le⟩⟩

theorem fromHex_eq_ok : fromHex crypto raw = .ok proof ↔ raw = Hex.encode proof.encode ∧ proof.statement.request.kind.Consistent := by
  simp only [fromHex, bind_eq_ok, unhex_eq_ok, decode_eq_ok]
  constructor
  · rintro ⟨_, ⟨rfl, -⟩, rfl, hkind⟩
    exact ⟨rfl, hkind⟩
  · rintro ⟨rfl, hkind⟩
    exact ⟨_, ⟨rfl, proof.length_encode_le⟩, rfl, hkind⟩

end ResponseProof

end Valhalla.Continuity
