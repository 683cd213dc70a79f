import Valhalla.Rooms.Commitment
import Valhalla.Rooms.Steps
import Valhalla.RoomsConsensus.BatchCodec
import Valhalla.RoomsNode.Pending

/-!
# No submission is lost

A marker belongs to the stem of a file. As long as no other submission takes the name of a marker, or of its temporary
file, every accepted body stays in its marker until a batch that carries it is committed or it is rejected.
-/

namespace Valhalla.RoomsNode
open Fallible FixedWidth RoomsConsensus

/-! ### Names -/

theorem hexValue_hexDigit {n : UInt8} (h : n < 16) : hexValue (hexDigit n) = some n := by
  have hall : ∀ k : Fin 16, hexValue (hexDigit (UInt8.ofNat k)) = some (UInt8.ofNat k) := by decide
  have hn : n.toNat < 16 := UInt8.lt_iff_toNat_lt.1 h
  have hk := hall ⟨n.toNat, hn⟩
  rwa [UInt8.ofNat_toNat] at hk

theorem unhex_hex (bytes : List UInt8) : unhex (hex bytes) = some bytes := by
  induction bytes with
  | nil => rfl
  | cons b rest ih =>
    have hhigh : b / 16 < 16 := by
      rw [UInt8.lt_iff_toNat_lt, UInt8.toNat_div]
      have := b.toNat_lt
      show b.toNat / 16 < 16
      omega
    have hlow : b % 16 < 16 := by
      rw [UInt8.lt_iff_toNat_lt, UInt8.toNat_mod]
      exact Nat.mod_lt _ (by decide)
    have hsum : 16 * (b / 16) + b % 16 = b := by
      rw [← UInt8.toNat_inj, UInt8.toNat_add, UInt8.toNat_mul, UInt8.toNat_div, UInt8.toNat_mod]
      show (16 * (b.toNat / 16) % 256 + b.toNat % 16) % 256 = b.toNat
      have := b.toNat_lt
      omega
    have hcons : hex (b :: rest) = hexDigit (b / 16) :: hexDigit (b % 16) :: hex rest := rfl
    rw [hcons, unhex, hexValue_hexDigit hhigh, hexValue_hexDigit hlow, ih]
    show some ((16 * (b / 16) + b % 16) :: rest) = _
    rw [hsum]

theorem hex_injective {a b : Bytes32} (h : hex a.toList = hex b.toList) : a = b := by
  have heq := unhex_hex a.toList
  rw [h, unhex_hex] at heq
  exact (Vector.toList_inj.1 (Option.some.inj heq)).symm

/-! ### Bodies -/

theorem decode_nil (body : BatchBody) : ¬ BatchBody.decode [] = .ok body := by
  intro h
  cases h

theorem encode_ne_nil (body : BatchBody) : body.encode ≠ [] := by
  intro h
  have hlen := congrArg List.length h
  rw [BatchBody.encode, List.length_append, List.length_nil] at hlen
  have := length_putBody body.version body
  omega

theorem decode_encode_update {body : BatchBody} (hbody : body.evidence = [] ∧ body.records = [] ∧ body.games = [])
    (heligible : ∀ set, body.eligible = some set → CanonicalOwners set)
    (hrotation : ∀ r, body.rotation = some r → r.Canonical) (hlen : body.encode.length ≤ maxBatchBytes) :
    BatchBody.decode body.encode = .ok body := by
  obtain ⟨hevidence, hrecords, hgames⟩ := hbody
  have hitems : BoundedItems [] := ⟨Nat.zero_le _, fun _ h => (by cases h)⟩
  refine BatchBody.decode_eq_ok.2 ⟨rfl, ⟨hevidence ▸ hitems, hrecords ▸ hitems, ?_, heligible, hrotation⟩, hlen⟩
  rw [hgames]
  exact Nat.zero_le _

section
variable {α : Type} {least most : Nat} {magic raw : List UInt8} {get : GetM α} {put : α → List UInt8} {ok : α → Prop} {a : α}

theorem decodeFramed_ite_ok (h : Codec get put ok)
    (hdecode : decodeFramed least most (if raw.take 4 = magic then some get else none) raw = .ok a) :
    ok a ∧ (put a).length ≤ most := by
  by_cases hmagic : raw.take 4 = magic
  · rw [if_pos hmagic] at hdecode
    obtain ⟨⟨-, hmost⟩, hdrop, hok⟩ := (decodeFramed_eq_ok h).1 hdecode
    refine ⟨hok, ?_⟩
    rw [← hdrop, List.length_drop]
    omega
  · rw [if_neg hmagic] at hdecode
    obtain ⟨g, hg⟩ := get_of_decodeFramed hdecode
    cases hg

end

theorem toOption_eq_some {ε α : Type} {x : Except ε α} {a : α} : x.toOption = some a ↔ x = .ok a := by
  cases x with
  | error e => exact ⟨fun h => (by cases h), fun h => (by cases h)⟩
  | ok b => exact ⟨fun h => congrArg _ (Option.some.inj h), fun h => by cases h; rfl⟩

theorem length_updates (time : UInt64) : (bodyMagic .v4 ++ (toBe time ++ (putItems [] ++ putItems []))).length = 20 := by
  have htime : (toBe time).length = 8 := length_toBe _
  have hitems : (putItems []).length = 4 := rfl
  have hmagic : (bodyMagic .v4).length = 4 := rfl
  simp only [List.length_append, htime, hitems, hmagic]

theorem decode_of_decodeIntake {name : FileName} {bytes : List UInt8} {body : BatchBody}
    (h : decodeIntake name bytes = some body) : BatchBody.decode body.encode = .ok body := by
  unfold decodeIntake at h
  split at h
  · obtain ⟨batch, hbatch, rfl⟩ := Option.map_eq_some_iff.1 h
    obtain ⟨rfl, hcanonical, hlen⟩ := Batch.decode_eq_ok.1 (toOption_eq_some.1 hbatch)
    refine BatchBody.decode_eq_ok.2 ⟨rfl, hcanonical, Nat.le_trans ?_ hlen⟩
    rw [BatchBody.encode, Batch.encode, putBatch]
    have hmagic : (bodyMagic batch.version).length = (batchMagic batch.version).length := by
      cases batch.version <;> rfl
    simp only [List.length_append, hmagic]
    omega
  · split at h
    · obtain ⟨set, hset, rfl⟩ := Option.map_eq_some_iff.1 h
      obtain ⟨hcanonical, hput⟩ := decodeFramed_ite_ok codec_eligibleList (toOption_eq_some.1 hset)
      refine decode_encode_update ⟨rfl, rfl, rfl⟩ (fun _ h => Option.some.inj h ▸ hcanonical) (fun _ h => by cases h) ?_
      have hlen := length_updates 0
      have hbound : 8 + Rooms.maxOwners * 32 = 8200 := rfl
      have hmax : maxBatchBytes = 49152 := rfl
      show (bodyMagic .v2 ++ (toBe (0 : UInt64) ++ (putItems [] ++ (putItems [] ++ (1 :: putOwners set ++ ([] ++ [])))))).length ≤ _
      have hmagic : (bodyMagic .v2).length = (bodyMagic .v4).length := rfl
      simp only [List.length_append, List.length_cons, List.length_nil, hmagic] at hlen ⊢
      omega
    · split at h
      · obtain ⟨rotation, hrotation, rfl⟩ := Option.map_eq_some_iff.1 h
        obtain ⟨hcanonical, hput⟩ := decodeFramed_ite_ok codec_rotation (toOption_eq_some.1 hrotation)
        refine decode_encode_update ⟨rfl, rfl, rfl⟩ (fun _ h => by cases h) (fun _ h => Option.some.inj h ▸ hcanonical) ?_
        have hlen := length_updates 0
        have hbound : 16 + Rooms.maxValidators * 40 = 2576 := rfl
        have hmax : maxBatchBytes = 49152 := rfl
        have hgames : (putGames []).length = 4 := rfl
        show (bodyMagic .v4 ++ (toBe (0 : UInt64) ++ (putItems [] ++ (putItems [] ++ ([0] ++ (putGames [] ++
          (1 :: putRotation rotation))))))).length ≤ _
        simp only [List.length_append, List.length_cons, List.length_nil, hgames] at hlen ⊢
        omega
      · have hdecode := toOption_eq_some.1 h
        obtain ⟨rfl, -⟩ := BatchBody.decode_eq_ok.1 hdecode
        exact hdecode

/-! ### What is kept -/

def Carries (batch : Batch) (body : BatchBody) : Prop := batch.toBatchBody = { body with time := batch.time }

variable {crypto : Crypto}

def CarriedBy (crypto : Crypto) (body : BatchBody) (id : Bytes32) : Prop :=
  ∃ batch : Batch, batch.valueId crypto = id ∧ Carries batch body

namespace Submissions

def Kept (s : Submissions crypto) (stem : FileName) (body : BatchBody) : Prop :=
  s.pending[stem]? = some body.encode ∨ (∃ id ∈ s.committed, CarriedBy crypto body id) ∨ stem ++ rejectedSuffix ∈ s.rejected

/-- No body is waiting under the name. -/
def Free (s : Submissions crypto) (name : FileName) : Prop := ∀ id, Assoc.get s.assigned id ≠ some name

/-- An accepted file finds neither a marker of its stem, but for its own, nor one where the temporary file goes. -/
def FileSteady (s : Submissions crypto) (file : FileName × Option (List UInt8)) : Prop :=
  ∀ stem body, stemOf file.1 = some stem → safeStem stem = true → file.2.bind (decodeIntake file.1) = some body →
    s.pending[stem ++ tmpSuffix]? = none ∧
      (s.pending[stem]? = some body.encode ∨ s.pending[stem]? = none ∧ s.Free stem)

def DrainSteady (s : Submissions crypto) : List (FileName × Option (List UInt8)) → Prop
  | [] => True
  | file :: files => s.FileSteady file ∧ DrainSteady (s.drainFile file) files

def Steady (s : Submissions crypto) : SubmissionEvent crypto → Prop
  | .drain files => s.DrainSteady files
  | .submit batch => (s.app.validate batch).isOk = true → ∀ name, name = hex (batch.valueId crypto).toList →
    s.pending[name ++ tmpSuffix]? = none ∧ (s.pending[name]? = none ∨ s.pending[name]? = some []) ∧ s.Free name ∧
      .body name ∉ s.queue
  | .decide _ id acked _ => acked = true → ∀ bytes, s.pending[hex id.toList]? = some bytes →
    bytes = [] ∨ ∃ body, BatchBody.decode bytes = .ok body ∧ CarriedBy crypto body id
  | .next | .restart .. | .other .. => True

/-- What every steady run preserves. -/
structure Sound (s : Submissions crypto) : Prop where
  kept : ∀ x ∈ s.accepted, s.Kept x.1 x.2
  decodes : ∀ x ∈ s.accepted, BatchBody.decode x.2.encode = .ok x.2
  assigned : ∀ id name, Assoc.get s.assigned id = some name → s.queue.head? = some (.value id) ∧
    ∀ bytes, s.pending[name]? = some bytes → ∃ body, BatchBody.decode bytes = .ok body ∧ CarriedBy crypto body id
  bodies : ∀ name, .body name ∈ s.queue → s.pending[name]? ≠ some []
  direct : ∀ id, .value id ∈ s.queue.tail → s.pending[hex id.toList]? = some []
  head : ∀ id, s.queue.head? = some (.value id) → Assoc.get s.assigned id = none →
    s.pending[hex id.toList]? = some [] ∧ .value id ∉ s.queue.tail
  once : (s.queue.tail.filterMap PendingEntry.valueId).Nodup
  empties : ∀ name, s.pending[name]? = some [] → ∃ id : Bytes32, name = hex id.toList

theorem sound_start (app : Application crypto) : (Submissions.start app).Sound := by
  refine ⟨fun x h => (by cases h), fun x h => (by cases h), fun id name h => (by cases h), fun name h => (by cases h),
    fun id h => (by cases h), fun id h => (by cases h), List.nodup_nil, fun name h => ?_⟩
  rw [start] at h
  simp at h

variable {s : Submissions crypto}

/-! ### Markers -/

theorem storeWrite_get {files : Files} {name : FileName} {bytes : List UInt8} (htmp : files[name ++ tmpSuffix]? = none)
    (a : FileName) : (storeWrite files name bytes)[a]? = if name = a then some bytes else files[a]? := by
  rw [storeWrite, Maps.getElem?_insert, Maps.getElem?_erase]
  split
  · rfl
  · split
    · rename_i htemp
      rw [← htemp, htmp]
    · rfl

theorem Kept.mono {s' : Submissions crypto} {stem : FileName} {body : BatchBody} (h : s.Kept stem body)
    (hpending : s.pending[stem]? = some body.encode → s'.Kept stem body) (hcommitted : s.committed ⊆ s'.committed)
    (hrejected : s.rejected ⊆ s'.rejected) : s'.Kept stem body := by
  rcases h with h | ⟨id, hid, hcarried⟩ | h
  · exact hpending h
  · exact .inr (.inl ⟨id, hcommitted hid, hcarried⟩)
  · exact .inr (.inr (hrejected h))

theorem Sound.writeBody (h : s.Sound) {name : FileName} {body : BatchBody} (htmp : s.pending[name ++ tmpSuffix]? = none)
    (hname : s.pending[name]? = some body.encode ∨ s.pending[name]? = none ∧ s.Free name) :
    Sound { s with pending := storeWrite s.pending name body.encode } := by
  have hget : ∀ a : FileName, (storeWrite s.pending name body.encode)[a]? = if name = a then some body.encode else s.pending[a]? :=
    storeWrite_get htmp
  have hempty : s.pending[name]? ≠ some [] := by
    rcases hname with hsame | ⟨hnone, -⟩
    · rw [hsame]
      exact fun he => encode_ne_nil body (Option.some.inj he)
    · rw [hnone]
      exact nofun
  refine ⟨fun x hx => ?_, h.decodes, fun id n hn => ⟨(h.assigned id n hn).1, fun bytes hbytes => ?_⟩, fun n hn => ?_,
    fun id hid => ?_, fun id hid hnone => ⟨?_, (h.head id hid hnone).2⟩, h.once, fun n hn => ?_⟩
  · refine (h.kept x hx).mono (fun hmarker => .inl ?_) (fun _ h => h) fun _ h => h
    dsimp only
    rw [hget]
    split
    · rename_i heq
      rw [← heq] at hmarker
      rcases hname with hsame | ⟨hnone, -⟩
      · rw [← hsame, hmarker]
      · rw [hnone] at hmarker
        cases hmarker
    · exact hmarker
  · dsimp only at hbytes
    rw [hget] at hbytes
    split at hbytes
    · rename_i heq
      cases hbytes
      rcases hname with hsame | ⟨-, hfree⟩
      · exact (h.assigned id n hn).2 _ (heq ▸ hsame)
      · exact absurd (heq ▸ hn) (hfree id)
    · exact (h.assigned id n hn).2 bytes hbytes
  · dsimp only
    rw [hget]
    split
    · exact fun he => encode_ne_nil body (Option.some.inj he)
    · exact h.bodies n hn
  · have hold := h.direct id hid
    have hne : name ≠ hex id.toList := fun heq => hempty (heq ▸ hold)
    dsimp only
    rw [hget, if_neg hne]
    exact hold
  · have hold := (h.head id hid hnone).1
    have hne : name ≠ hex id.toList := fun heq => hempty (heq ▸ hold)
    dsimp only
    rw [hget, if_neg hne]
    exact hold
  · dsimp only at hn
    rw [hget] at hn
    split at hn
    · exact absurd (Option.some.inj hn) (encode_ne_nil body)
    · exact h.empties n hn

theorem Sound.writeValue (h : s.Sound) {id : Bytes32} (htmp : s.pending[hex id.toList ++ tmpSuffix]? = none)
    (hname : s.pending[hex id.toList]? = none ∨ s.pending[hex id.toList]? = some []) (hfree : s.Free (hex id.toList))
    (hqueue : .body (hex id.toList) ∉ s.queue) : Sound { s with pending := storeWrite s.pending (hex id.toList) [] } := by
  have hget : ∀ a : FileName, (storeWrite s.pending (hex id.toList) [])[a]? = if hex id.toList = a then some [] else s.pending[a]? :=
    storeWrite_get htmp
  refine ⟨fun x hx => ?_, h.decodes, fun i n hn => ⟨(h.assigned i n hn).1, fun bytes hbytes => ?_⟩, fun n hn => ?_,
    fun i hi => ?_, fun i hi hnone => ⟨?_, (h.head i hi hnone).2⟩, h.once, fun n hn => ?_⟩
  · refine (h.kept x hx).mono (fun hmarker => .inl ?_) (fun _ h => h) fun _ h => h
    have hne : hex id.toList ≠ x.1 := by
      intro heq
      rw [← heq] at hmarker
      rcases hname with hnone | hnil
      · rw [hnone] at hmarker
        cases hmarker
      · rw [hnil] at hmarker
        exact encode_ne_nil x.2 (Option.some.inj hmarker).symm
    dsimp only
    rw [hget, if_neg hne]
    exact hmarker
  · have hne : hex id.toList ≠ n := fun heq => hfree i (heq ▸ hn)
    dsimp only at hbytes
    rw [hget, if_neg hne] at hbytes
    exact (h.assigned i n hn).2 bytes hbytes
  · have hne : hex id.toList ≠ n := fun heq => hqueue (heq ▸ hn)
    dsimp only
    rw [hget, if_neg hne]
    exact h.bodies n hn
  · dsimp only
    rw [hget]
    split
    · rfl
    · exact h.direct i hi
  · dsimp only
    rw [hget]
    split
    · rfl
    · exact (h.head i hi hnone).1
  · dsimp only at hn
    rw [hget] at hn
    split at hn
    · rename_i heq
      exact ⟨id, heq.symm⟩
    · exact h.empties n hn

/-! ### The queue -/

theorem tail_append_singleton {α : Type} (l : List α) (b : α) : (l ++ [b]).tail = if l = [] then [] else l.tail ++ [b] := by
  cases l <;> rfl

theorem head?_append_singleton {α : Type} (l : List α) (b : α) : (l ++ [b]).head? = if l = [] then some b else l.head? := by
  cases l <;> rfl

theorem Sound.queueBody (h : s.Sound) {name : FileName} (hname : s.pending[name]? ≠ some []) :
    Sound { s with queue := s.queue ++ [.body name] } := by
  have hhead : ∀ {id}, (s.queue ++ [PendingEntry.body name]).head? = some (.value id) → s.queue.head? = some (.value id) := by
    intro id hid
    rw [head?_append_singleton] at hid
    split at hid
    · cases hid
    · exact hid
  have htail : ∀ {id}, PendingEntry.value id ∈ (s.queue ++ [PendingEntry.body name]).tail → .value id ∈ s.queue.tail := by
    intro id hid
    rw [tail_append_singleton] at hid
    split at hid
    · cases hid
    · simpa using hid
  refine ⟨h.kept, h.decodes, fun id n hn => ⟨?_, (h.assigned id n hn).2⟩, fun n hn => ?_, fun id hid => h.direct id (htail hid),
    fun id hid hnone => ⟨(h.head id (hhead hid) hnone).1, fun hmem => (h.head id (hhead hid) hnone).2 (htail hmem)⟩, ?_,
    h.empties⟩
  · have hold := (h.assigned id n hn).1
    dsimp only
    rw [head?_append_singleton, if_neg (fun hnil => by rw [hnil] at hold; cases hold)]
    exact hold
  · rcases List.mem_append.1 hn with hn | hn
    · exact h.bodies n hn
    · cases List.mem_singleton.1 hn
      exact hname
  · dsimp only
    rw [tail_append_singleton]
    split
    · exact List.nodup_nil
    · rw [List.filterMap_append]
      show (_ ++ []).Nodup
      rw [List.append_nil]
      exact h.once

theorem Sound.queueValue (h : s.Sound) {id : Bytes32} (hmarker : s.pending[hex id.toList]? = some [])
    (hnew : .value id ∉ s.queue) : Sound { s with queue := s.queue ++ [.value id] } := by
  have htail : ∀ {i}, PendingEntry.value i ∈ (s.queue ++ [PendingEntry.value id]).tail → .value i ∈ s.queue.tail ∨ s.queue ≠ [] ∧ i = id := by
    intro i hi
    rw [tail_append_singleton] at hi
    split at hi
    · cases hi
    · rename_i hne
      rcases List.mem_append.1 hi with hi | hi
      · exact .inl hi
      · cases List.mem_singleton.1 hi
        exact .inr ⟨hne, rfl⟩
  refine ⟨h.kept, h.decodes, fun i n hn => ⟨?_, (h.assigned i n hn).2⟩, fun n hn => ?_, fun i hi => ?_, fun i hi hnone => ?_, ?_,
    h.empties⟩
  · have hold := (h.assigned i n hn).1
    dsimp only
    rw [head?_append_singleton, if_neg (fun hnil => by rw [hnil] at hold; cases hold)]
    exact hold
  · rcases List.mem_append.1 hn with hn | hn
    · exact h.bodies n hn
    · cases List.mem_singleton.1 hn
  · rcases htail hi with hi | ⟨-, rfl⟩
    · exact h.direct i hi
    · exact hmarker
  · dsimp only at hi
    rw [head?_append_singleton] at hi
    split at hi
    · rename_i hnil
      cases hi
      refine ⟨hmarker, fun hmem => ?_⟩
      rcases htail hmem with hmem | ⟨hne, -⟩
      · rw [hnil] at hmem
        cases hmem
      · exact hne hnil
    · have hold := h.head i hi hnone
      refine ⟨hold.1, fun hmem => ?_⟩
      rcases htail hmem with hmem | ⟨-, rfl⟩
      · exact hold.2 hmem
      · exact hnew (List.mem_of_mem_head? hi)
  · dsimp only
    rw [tail_append_singleton]
    split
    · exact List.nodup_nil
    · have hsingle : [PendingEntry.value id].filterMap PendingEntry.valueId = [id] := rfl
      rw [List.filterMap_append, hsingle, List.nodup_append]
      refine ⟨h.once, List.nodup_singleton _, fun i hi j hj heq => ?_⟩
      cases List.mem_singleton.1 hj
      subst heq
      obtain ⟨entry, hentry, hvalue⟩ := List.mem_filterMap.1 hi
      cases entry with
      | body name => cases hvalue
      | value i =>
        cases hvalue
        exact hnew (List.mem_of_mem_tail hentry)

/-! ### Steps -/

theorem Sound.accept (h : s.Sound) {stem : FileName} {body : BatchBody} (hdecode : BatchBody.decode body.encode = .ok body)
    (hmarker : s.pending[stem]? = some body.encode) : Sound { s with accepted := s.accepted ++ [(stem, body)] } := by
  refine ⟨fun x hx => ?_, fun x hx => ?_, h.assigned, h.bodies, h.direct, h.head, h.once, h.empties⟩
  · rcases List.mem_append.1 hx with hx | hx
    · exact (h.kept x hx).mono .inl (fun _ h => h) fun _ h => h
    · cases List.mem_singleton.1 hx
      exact .inl hmarker
  · rcases List.mem_append.1 hx with hx | hx
    · exact h.decodes x hx
    · cases List.mem_singleton.1 hx
      exact hdecode

theorem Sound.answer (h : s.Sound) (name : FileName) : Sound { s with rejected := s.rejected ++ [name] } :=
  ⟨fun x hx => (h.kept x hx).mono .inl (fun _ h => h) (List.subset_append_left ..), h.decodes, h.assigned, h.bodies, h.direct,
    h.head, h.once, h.empties⟩

theorem Sound.drainFile (h : s.Sound) {file : FileName × Option (List UInt8)} (hsteady : s.FileSteady file) :
    (s.drainFile file).Sound := by
  unfold Submissions.drainFile
  split
  · exact h
  · rename_i stem hstem
    split
    · rename_i body hsafe hbody
      obtain ⟨htmp, hname⟩ := hsteady stem body hstem hsafe hbody
      have hdecode : BatchBody.decode body.encode = .ok body := by
        obtain ⟨bytes, -, hbytes⟩ := Option.bind_eq_some_iff.1 hbody
        exact decode_of_decodeIntake hbytes
      have hwritten := h.writeBody htmp hname
      have hmarker : (storeWrite s.pending stem body.encode)[stem]? = some body.encode := by
        rw [storeWrite_get htmp, if_pos rfl]
      rw [submitBody]
      dsimp only
      split
      · refine (hwritten.queueBody ?_).accept hdecode hmarker
        show (storeWrite s.pending stem body.encode)[stem]? ≠ some []
        rw [hmarker]
        exact fun he => encode_ne_nil body (Option.some.inj he)
      · exact hwritten.accept hdecode hmarker
    · exact h.answer _
    · exact h.answer _

theorem Sound.drainIntake (h : s.Sound) {files : List (FileName × Option (List UInt8))} (hsteady : s.DrainSteady files) :
    (s.drainIntake files).Sound := by
  induction files generalizing s with
  | nil => exact h
  | cons file files ih => exact ih (h.drainFile hsteady.1) hsteady.2

theorem Sound.other (h : s.Sound) (app : Application crypto) (held : List (Bytes32 × Batch)) (proposals : List (UInt64 × Bytes32)) :
    Sound { s with app, held, proposals } :=
  ⟨fun x hx => (h.kept x hx).mono .inl (fun _ h => h) fun _ h => h, h.decodes, h.assigned, h.bodies, h.direct, h.head, h.once,
    h.empties⟩

theorem Sound.submit (h : s.Sound) {batch : Batch} (hsteady : s.Steady (.submit batch)) : (s.submit batch).Sound := by
  rw [Submissions.submit]
  split
  · exact h
  · rename_i checked hvalid
    obtain ⟨htmp, hname, hfree, hqueue⟩ := hsteady (by rw [hvalid]; rfl) _ rfl
    have hwritten := (h.other s.app (Assoc.put s.held (batch.valueId crypto) batch) s.proposals).writeValue htmp hname hfree hqueue
    dsimp only
    split
    · rename_i hnew
      refine hwritten.queueValue ?_ fun hmem => ?_
      · show (storeWrite s.pending (hex (batch.valueId crypto).toList) [])[hex (batch.valueId crypto).toList]? = _
        rw [storeWrite_get htmp, if_pos rfl]
      · have hany : s.queue.any (fun e => e.valueId == some (batch.valueId crypto)) = true :=
          List.any_eq_true.2 ⟨_, hmem, beq_self_eq_true _⟩
        rw [hany] at hnew
        cases hnew
    · exact hwritten

theorem Sound.tail_front (h : s.Sound) {l : List PendingEntry} (hsub : l.Sublist s.queue.tail) {id : Bytes32}
    (hid : l.head? = some (.value id)) : s.pending[hex id.toList]? = some [] ∧ .value id ∉ l.tail := by
  refine ⟨h.direct id (hsub.subset (List.mem_of_mem_head? hid)), fun hmem => ?_⟩
  cases l with
  | nil => cases hid
  | cons e l =>
    cases hid
    have hnodup := h.once.sublist (hsub.filterMap PendingEntry.valueId)
    exact (List.nodup_cons.1 hnodup).1 (List.mem_filterMap.2 ⟨_, hmem, rfl⟩)

theorem Sound.front (h : s.Sound) {l : List PendingEntry} (hsub : l.Sublist s.queue) {id : Bytes32}
    (hid : l.head? = some (.value id)) (hnone : Assoc.get s.assigned id = none) :
    s.pending[hex id.toList]? = some [] ∧ .value id ∉ l.tail := by
  cases hqueue : s.queue with
  | nil =>
    rw [hqueue, List.sublist_nil] at hsub
    rw [hsub] at hid
    cases hid
  | cons e rest =>
    have htail : s.queue.tail = rest := by rw [hqueue]; rfl
    rw [hqueue] at hsub
    cases hsub with
    | cons _ hsub => exact h.tail_front (htail.symm ▸ hsub) hid
    | cons_cons _ hsub =>
      cases hid
      have hhead := h.head id (by rw [hqueue]; rfl) hnone
      exact ⟨hhead.1, fun hmem => hhead.2 (htail.symm ▸ hsub.subset hmem)⟩

theorem Sound.downgrade (h : s.Sound) {id : Bytes32} {rest : List PendingEntry} (hqueue : s.queue = .value id :: rest) :
    (s.downgrade id rest).Sound := by
  have hhead : s.queue.head? = some (.value id) := by rw [hqueue]; rfl
  have htail : s.queue.tail = rest := by rw [hqueue]; rfl
  have hbody : ∀ {name}, PendingEntry.body name ∈ rest → .body name ∈ s.queue := fun hn => by
    rw [hqueue]
    exact List.mem_cons_of_mem _ hn
  have hrest : ∀ {i}, PendingEntry.value i ∈ rest.tail → PendingEntry.value i ∈ s.queue.tail := fun hi => by
    rw [htail]
    exact List.mem_of_mem_tail hi
  have honce : (rest.tail.filterMap PendingEntry.valueId).Nodup := by
    have honce := h.once
    rw [htail] at honce
    exact honce.sublist ((List.tail_sublist rest).filterMap _)
  rw [Submissions.downgrade]
  split
  · rename_i name hname
    have hempty : s.pending[name]? ≠ some [] := fun he => by
      obtain ⟨body, hdecode, -⟩ := (h.assigned id name hname).2 _ he
      exact decode_nil body hdecode
    have hnone : ∀ i n, Assoc.get (Assoc.remove s.assigned id) i = some n → False := by
      intro i n hn
      rw [Assoc.get_remove] at hn
      split at hn
      · cases hn
      · rename_i hne
        have hsame := (h.assigned i n hn).1
        rw [hhead] at hsame
        cases hsame
        exact hne rfl
    have hpopped : Sound { s with queue := rest, assigned := Assoc.remove s.assigned id } :=
      ⟨fun x hx => (h.kept x hx).mono .inl (fun _ h => h) fun _ h => h, h.decodes, fun i n hn => (hnone i n hn).elim,
        fun n hn => h.bodies n (hbody hn), fun i hi => h.direct i (hrest hi), fun i hi _ => h.tail_front (by rw [htail]) hi, honce, h.empties⟩
    exact hpopped.queueBody hempty
  · rename_i hunassigned
    obtain ⟨hmarker, hnew⟩ := h.head id hhead hunassigned
    rw [htail] at hnew
    have hnone : ∀ i n, Assoc.get s.assigned i = some n → False := by
      intro i n hn
      have hsame := (h.assigned i n hn).1
      rw [hhead] at hsame
      cases hsame
      rw [hunassigned] at hn
      cases hn
    have hother : ∀ {i}, PendingEntry.value i ∈ rest → (s.pending.erase (hex id.toList))[hex i.toList]? =
        s.pending[hex i.toList]? := by
      intro i hi
      rw [Maps.getElem?_erase, if_neg]
      intro heq
      exact hnew (hex_injective heq ▸ hi)
    have hle : ∀ {n : FileName} {bytes : List UInt8}, (s.pending.erase (hex id.toList))[n]? = some bytes → s.pending[n]? = some bytes := by
      intro n bytes hn
      rw [Maps.getElem?_erase] at hn
      split at hn
      · cases hn
      · exact hn
    refine ⟨fun x hx => ?_, h.decodes, fun i n hn => (hnone i n hn).elim, fun n hn he => h.bodies n (hbody hn) (hle he),
      fun i hi => ?_, fun i hi _ => ?_, honce, fun n hn => h.empties n (hle hn)⟩
    · refine (h.kept x hx).mono (fun hm => .inl ?_) (fun _ h => h) fun _ h => h
      dsimp only
      rw [Maps.getElem?_erase, if_neg]
      · exact hm
      · intro heq
        rw [← heq, hmarker] at hm
        exact encode_ne_nil x.2 (Option.some.inj hm).symm
    · dsimp only
      rw [hother (List.mem_of_mem_tail hi)]
      exact h.direct i (hrest hi)
    · dsimp only
      rw [hother (List.mem_of_mem_head? hi)]
      exact h.tail_front (by rw [htail]) hi

theorem assemble_eq_some {name : FileName} {checked : Checked crypto} (h : s.assemble name = some checked) :
    ∃ bytes body, s.pending[name]? = some bytes ∧ BatchBody.decode bytes = .ok body ∧ s.app.prepareWithGames body = .ok checked := by
  obtain ⟨bytes, hbytes, h⟩ := Option.bind_eq_some_iff.1 h
  obtain ⟨body, hbody, h⟩ := Option.bind_eq_some_iff.1 h
  exact ⟨bytes, body, hbytes, toOption_eq_some.1 hbody, toOption_eq_some.1 h⟩

theorem Sound.unassigned (h : s.Sound) {name : FileName} {rest : List PendingEntry} (hqueue : s.queue = .body name :: rest)
    {id : Bytes32} {n : FileName} (hn : Assoc.get s.assigned id = some n) : False := by
  have hhead := (h.assigned id n hn).1
  rw [hqueue] at hhead
  cases hhead

theorem Sound.assign (h : s.Sound) {name : FileName} {rest : List PendingEntry} (hqueue : s.queue = .body name :: rest)
    {checked : Checked crypto} (hassemble : s.assemble name = some checked) : (s.assign name checked.batch rest).Sound := by
  have htail : s.queue.tail = rest := by rw [hqueue]; rfl
  obtain ⟨bytes, body, hbytes, hdecode, hprepare⟩ := assemble_eq_some hassemble
  have hcarried : CarriedBy crypto body (checked.batch.valueId crypto) := by
    refine ⟨checked.batch, rfl, ?_⟩
    have hbody := Application.prepareWithGames_body hprepare
    rw [Carries, hbody]
  refine ⟨fun x hx => (h.kept x hx).mono .inl (fun _ h => h) fun _ h => h, h.decodes, fun i n hn => ?_, fun n hn => ?_,
    fun i hi => h.direct i (htail ▸ hi), fun i hi hnone => ?_, htail ▸ h.once, h.empties⟩
  · have hget : Assoc.get (Assoc.put s.assigned (checked.batch.valueId crypto) name) i = some n := hn
    rw [Assoc.get_put] at hget
    split at hget
    · rename_i heq
      cases hget
      subst heq
      refine ⟨rfl, fun bytes' hbytes' => ?_⟩
      obtain rfl : bytes = bytes' := Option.some.inj (hbytes.symm.trans hbytes')
      exact ⟨body, hdecode, hcarried⟩
    · exact (h.unassigned hqueue hget).elim
  · rcases List.mem_cons.1 hn with hn | hn
    · cases hn
    · exact h.bodies n (by rw [hqueue]; exact List.mem_cons_of_mem _ hn)
  · cases hi
    have hget : Assoc.get (Assoc.put s.assigned (checked.batch.valueId crypto) name) (checked.batch.valueId crypto) = none := hnone
    rw [Assoc.get_put, if_pos rfl] at hget
    cases hget

theorem Sound.reject (h : s.Sound) {name : FileName} {rest : List PendingEntry} (hqueue : s.queue = .body name :: rest) :
    (s.reject name rest).Sound := by
  have htail : s.queue.tail = rest := by rw [hqueue]; rfl
  have hbody : s.pending[name]? ≠ some [] := h.bodies name (by rw [hqueue]; exact List.mem_cons_self)
  have hget : ∀ a : FileName, (s.reject name rest).pending[a]? = if name = a then none else s.pending[a]? := fun a =>
    Maps.getElem?_erase
  have hempty : ∀ {a : FileName}, s.pending[a]? = some [] → (s.reject name rest).pending[a]? = some [] := by
    intro a ha
    rw [hget, if_neg (fun heq : name = a => hbody (heq ▸ ha))]
    exact ha
  have hle : ∀ {a : FileName} {bytes : List UInt8}, (s.reject name rest).pending[a]? = some bytes → s.pending[a]? = some bytes := by
    intro a bytes ha
    rw [hget] at ha
    split at ha
    · cases ha
    · exact ha
  refine ⟨fun x hx => ?_, h.decodes, fun i n hn => (h.unassigned hqueue hn).elim, fun n hn he => ?_, fun i hi => ?_,
    fun i hi _ => ?_, ?_, fun n hn => h.empties n (hle hn)⟩
  · refine (h.kept x hx).mono (fun hm => ?_) (fun _ h => h) (List.subset_append_left ..)
    by_cases heq : name = x.1
    · exact .inr (.inr (List.mem_append_right _ (List.mem_singleton.2 (heq ▸ rfl))))
    · refine .inl ?_
      rw [hget, if_neg heq]
      exact hm
  · exact h.bodies n (by rw [hqueue]; exact List.mem_cons_of_mem _ hn) (hle he)
  · exact hempty (h.direct i (htail ▸ List.mem_of_mem_tail hi))
  · have hfront := h.tail_front (l := rest) (by rw [htail]) hi
    exact ⟨hempty hfront.1, hfront.2⟩
  · have honce := h.once
    rw [htail] at honce
    exact honce.sublist ((List.tail_sublist rest).filterMap _)

theorem Sound.turn (h : s.Sound) : s.turn.1.Sound := by
  unfold Submissions.turn
  split
  · exact h
  · rename_i id rest hqueue
    split
    · exact h
    · exact h.downgrade hqueue
  · rename_i name rest hqueue
    split
    · rename_i checked hassemble
      exact h.assign hqueue hassemble
    · exact h.reject hqueue

theorem Sound.nextPending (h : s.Sound) : s.nextPending.1.Sound := by
  fun_induction Submissions.nextPending s with
  | case1 s next result hturn =>
    have hnext := h.turn
    rw [hturn] at hnext
    exact hnext
  | case2 s next hturn ih =>
    have hnext := h.turn
    rw [hturn] at hnext
    exact ih hnext

theorem head?_filter_of_pos {α : Type} {p : α → Bool} {l : List α} {a : α} (h : l.head? = some a) (hp : p a = true) :
    (l.filter p).head? = some a := by
  cases l with
  | nil => cases h
  | cons b l =>
    cases h
    rw [List.filter_cons_of_pos hp]
    rfl

theorem tail_filter_sublist {α : Type} (p : α → Bool) (l : List α) : (l.filter p).tail.Sublist (l.tail.filter p) := by
  cases l with
  | nil => exact .slnil
  | cons a l =>
    rw [List.filter_cons]
    split
    · exact .refl _
    · exact List.tail_sublist _

theorem Sound.decide (h : s.Sound) {height : UInt64} {id : Bytes32} {acked : Bool} {app : Application crypto}
    (hsteady : s.Steady (.decide height id acked app)) : (s.decide height id acked app).Sound := by
  have hother := h.other app s.held (Assoc.remove s.proposals height)
  cases acked with
  | false => exact hother
  | true =>
    have hsafe := hsteady rfl
    -- The two markers that go hold a committed body, or nothing.
    have hgone : ∀ {a : FileName} {bytes : List UInt8}, s.pending[a]? = some bytes →
        (s.decide height id true app).pending[a]? = some bytes ∨
          (bytes = [] ∧ a = hex id.toList) ∨ ∃ body, BatchBody.decode bytes = .ok body ∧ CarriedBy crypto body id := by
      intro a bytes ha
      by_cases hhex : hex id.toList = a
      · rcases hsafe bytes (hhex ▸ ha) with hnil | hcarried
        · exact .inr (.inl ⟨hnil, hhex.symm⟩)
        · exact .inr (.inr hcarried)
      · have hkeep : (s.pending.erase (hex id.toList))[a]? = some bytes := by rw [Maps.getElem?_erase, if_neg hhex, ha]
        cases hname : Assoc.get s.assigned id with
        | none =>
          refine .inl ?_
          simp only [Submissions.decide, if_true, hname]
          exact hkeep
        | some name =>
          by_cases heq : name = a
          · exact .inr (.inr ((h.assigned id name hname).2 bytes (heq ▸ ha)))
          · refine .inl ?_
            simp only [Submissions.decide, if_true, hname]
            rw [Maps.getElem?_erase, if_neg heq]
            exact hkeep
    have hle : ∀ {a : FileName} {bytes : List UInt8}, (s.decide height id true app).pending[a]? = some bytes →
        s.pending[a]? = some bytes := by
      intro a bytes ha
      have hsub : ∀ {files : Files} {name : FileName}, (files.erase name)[a]? = some bytes → files[a]? = some bytes := by
        intro files name hf
        rw [Maps.getElem?_erase] at hf
        split at hf
        · cases hf
        · exact hf
      cases hname : Assoc.get s.assigned id with
      | none =>
        simp only [Submissions.decide, if_true, hname] at ha
        exact hsub ha
      | some name =>
        simp only [Submissions.decide, if_true, hname] at ha
        exact hsub (hsub ha)
    have hempty : ∀ {i : Bytes32}, i ≠ id → s.pending[hex i.toList]? = some [] →
        (s.decide height id true app).pending[hex i.toList]? = some [] := by
      intro i hi hm
      rcases hgone hm with hm | ⟨-, heq⟩ | ⟨body, hdecode, -⟩
      · exact hm
      · exact absurd (hex_injective heq) hi
      · exact absurd hdecode (decode_nil body)
    have hvalue : ∀ {i}, PendingEntry.value i ∈ s.queue.filter (fun e => e.valueId != some id) → i ≠ id := by
      rintro i hi rfl
      have hne := (List.mem_filter.1 hi).2
      simp [PendingEntry.valueId] at hne
    have htail : ∀ {e}, e ∈ (s.queue.filter fun e => e.valueId != some id).tail → e ∈ s.queue.tail := fun he =>
      (List.mem_filter.1 ((tail_filter_sublist _ _).subset he)).1
    refine ⟨fun x hx => ?_, h.decodes, fun i n hn => ?_, fun n hn he => ?_, fun i hi => ?_, fun i hi hnone => ?_, ?_,
      fun n hn => h.empties n (hle hn)⟩
    · refine (h.kept x hx).mono (fun hm => ?_) (List.subset_cons_self _ _) fun _ h => h
      rcases hgone hm with hm | ⟨hnil, -⟩ | ⟨body, hdecode, hcarried⟩
      · exact .inl hm
      · exact absurd hnil (encode_ne_nil x.2)
      · rw [h.decodes x hx] at hdecode
        cases hdecode
        exact .inr (.inl ⟨id, List.mem_cons_self, hcarried⟩)
    · have hget : Assoc.get (Assoc.remove s.assigned id) i = some n := hn
      rw [Assoc.get_remove] at hget
      split at hget
      · cases hget
      · rename_i hne
        refine ⟨head?_filter_of_pos (h.assigned i n hget).1 ?_, fun bytes hb => (h.assigned i n hget).2 bytes (hle hb)⟩
        have : some i ≠ some id := fun he => hne (Option.some.inj he).symm
        simpa [PendingEntry.valueId] using this
    · exact h.bodies n (List.mem_filter.1 hn).1 (hle he)
    · exact hempty (hvalue (List.mem_of_mem_tail hi)) (h.direct i (htail hi))
    · have hi' : (s.queue.filter fun e => e.valueId != some id).head? = some (.value i) := hi
      have hne : i ≠ id := hvalue (List.mem_of_mem_head? hi')
      have hnone' : Assoc.get s.assigned i = none := by
        have hget : Assoc.get (Assoc.remove s.assigned id) i = none := hnone
        rwa [Assoc.get_remove, if_neg (Ne.symm hne)] at hget
      have hfront := h.front List.filter_sublist hi' hnone'
      exact ⟨hempty hne hfront.1, hfront.2⟩
    · refine h.once.sublist ?_
      exact ((tail_filter_sublist _ _).trans List.filter_sublist).filterMap _

theorem reloadEntry_body {app : Application crypto} {held : List (Bytes32 × Batch)} {name n : FileName} {bytes : List UInt8}
    (h : reloadEntry app held name bytes = some (.body n)) : n = name ∧ bytes ≠ [] := by
  unfold reloadEntry at h
  split at h
  · obtain ⟨raw, -, h⟩ := Option.bind_eq_some_iff.1 h
    split at h
    · obtain ⟨batch, -, h⟩ := Option.bind_eq_some_iff.1 h
      split at h <;> cases h
    · cases h
  · rename_i hne
    split at h
    · cases h
      exact ⟨rfl, fun he => hne (by rw [he]; rfl)⟩
    · cases h

theorem reloadEntry_value {app : Application crypto} {held : List (Bytes32 × Batch)} {name : FileName} {bytes : List UInt8}
    {id : Bytes32} (h : reloadEntry app held name bytes = some (.value id)) : bytes = [] ∧ unhex name = some id.toList := by
  unfold reloadEntry at h
  split at h
  · rename_i hnil
    obtain ⟨raw, hraw, h⟩ := Option.bind_eq_some_iff.1 h
    split at h
    · obtain ⟨batch, -, h⟩ := Option.bind_eq_some_iff.1 h
      split at h <;> cases h
      refine ⟨List.isEmpty_iff.1 hnil, ?_⟩
      rw [hraw]
      rfl
    · cases h
  · split at h <;> cases h

theorem Sound.reloadPending (h : s.Sound) (app : Application crypto) (held : List (Bytes32 × Batch))
    (proposals : List (UInt64 × Bytes32)) : (s.reloadPending app held proposals).Sound := by
  have hget : ∀ {name : FileName} {bytes : List UInt8}, (s.reloadPending app held proposals).pending[name]? = some bytes ↔
      s.pending[name]? = some bytes ∧ (reloadEntry app held name bytes).isSome = true := by
    intro name bytes
    show (s.pending.filter _)[name]? = _ ↔ _
    rw [Std.ExtTreeMap.getElem?_filter']
    exact Option.filter_eq_some_iff
  have hentry : ∀ {e}, e ∈ (s.reloadPending app held proposals).queue → ∃ name bytes, s.pending[name]? = some bytes ∧
      reloadEntry app held name bytes = some e := by
    intro e he
    obtain ⟨⟨name, bytes⟩, hmem, hreload⟩ := List.mem_filterMap.1 he
    exact ⟨name, bytes, Std.ExtTreeMap.mem_toList_iff_getElem?_eq_some.1 hmem, hreload⟩
  have hvalue : ∀ {id}, PendingEntry.value id ∈ (s.reloadPending app held proposals).queue →
      (s.reloadPending app held proposals).pending[hex id.toList]? = some [] := by
    intro id hid
    obtain ⟨name, bytes, hbytes, hreload⟩ := hentry hid
    obtain ⟨rfl, hraw⟩ := reloadEntry_value hreload
    obtain ⟨id', rfl⟩ := h.empties name hbytes
    rw [unhex_hex] at hraw
    obtain rfl : id' = id := Vector.toList_inj.1 (Option.some.inj hraw)
    exact hget.2 ⟨hbytes, by rw [hreload]; rfl⟩
  have honce : ((s.reloadPending app held proposals).queue.filterMap PendingEntry.valueId).Nodup := by
    show ((s.pending.toList.filterMap _).filterMap _).Nodup
    rw [List.filterMap_filterMap]
    have hid : ∀ {file : FileName × List UInt8} {id : Bytes32}, file ∈ s.pending.toList →
        (reloadEntry app held file.1 file.2).bind PendingEntry.valueId = some id → file = (hex id.toList, []) := by
      rintro ⟨name, bytes⟩ id hmem hbind
      obtain ⟨e, hreload, hvalue⟩ := Option.bind_eq_some_iff.1 hbind
      cases e with
      | body n => cases hvalue
      | value i =>
        cases hvalue
        obtain ⟨rfl, hraw⟩ := reloadEntry_value hreload
        obtain ⟨id', rfl⟩ := h.empties name (Std.ExtTreeMap.mem_toList_iff_getElem?_eq_some.1 hmem)
        rw [unhex_hex] at hraw
        rw [Vector.toList_inj.1 (Option.some.inj hraw)]
    refine List.Pairwise.filterMap _ (fun a b hab id ha id' hb heq => ?_)
      (Maps.nodup_toList.imp_of_mem fun {a b} ha hb hne => (⟨ha, hb, hne⟩ : a ∈ s.pending.toList ∧ b ∈ s.pending.toList ∧ a ≠ b))
    subst heq
    exact hab.2.2 ((hid hab.1 ha).trans (hid hab.2.1 hb).symm)
  have hnone : ∀ {id : Bytes32} {n : FileName}, Assoc.get (s.reloadPending app held proposals).assigned id = some n → False :=
    fun hn => by cases hn
  refine ⟨fun x hx => ?_, h.decodes, fun id n hn => (hnone hn).elim, fun n hn he => ?_, fun id hid => hvalue (List.mem_of_mem_tail hid),
    fun id hid _ => ⟨hvalue (List.mem_of_mem_head? hid), fun hmem => ?_⟩, ?_, fun n hn => h.empties n (hget.1 hn).1⟩
  · refine (h.kept x hx).mono (fun hm => .inl (hget.2 ⟨hm, ?_⟩)) (fun _ h => h) fun _ h => h
    have hne : x.2.encode.isEmpty = false := List.isEmpty_eq_false_iff.2 (encode_ne_nil x.2)
    rw [reloadEntry, hne, h.decodes x hx]
    rfl
  · obtain ⟨name, bytes, hbytes, hreload⟩ := hentry hn
    obtain ⟨rfl, hne⟩ := reloadEntry_body hreload
    rw [(hget.1 he).1] at hbytes
    exact hne (Option.some.inj hbytes).symm
  · generalize (s.reloadPending app held proposals).queue = l at honce hid hmem
    cases l with
    | nil => cases hid
    | cons e l =>
      cases hid
      exact (List.nodup_cons.1 honce).1 (List.mem_filterMap.2 ⟨_, hmem, rfl⟩)
  · exact honce.sublist ((List.tail_sublist _).filterMap _)

theorem Sound.step (h : s.Sound) {e : SubmissionEvent crypto} (hsteady : s.Steady e) : (e.step s).Sound := by
  cases e with
  | drain files => exact h.drainIntake hsteady
  | submit batch => exact h.submit hsteady
  | next => exact h.nextPending
  | decide height id acked app => exact h.decide hsteady
  | restart app held proposals => exact h.reloadPending app held proposals
  | other app held proposals => exact h.other app held proposals

end Submissions

/-! ### Runs -/

/-- The states that events lead to, each of them steady where it happens. -/
inductive SteadyRun (app : Application crypto) : Submissions crypto → Prop
  | start : SteadyRun app (.start app)
  | step {s : Submissions crypto} (e : SubmissionEvent crypto) (hs : SteadyRun app s) (he : s.Steady e) : SteadyRun app (e.step s)

theorem SteadyRun.sound {app : Application crypto} {s : Submissions crypto} (h : SteadyRun app s) : s.Sound := by
  induction h with
  | start => exact Submissions.sound_start app
  | step e _ he ih => exact ih.step he

/-- In a steady run every accepted body is in its marker, in a committed batch, or answered. -/
theorem accepted_kept {app : Application crypto} {s : Submissions crypto} (h : SteadyRun app s) {stem : FileName}
    {body : BatchBody} (haccepted : (stem, body) ∈ s.accepted) : s.Kept stem body :=
  h.sound.kept (stem, body) haccepted

/-! ### Two files of one stem -/

def sampleApplication : Application Social.sampleCrypto := .genesis Social.sampleArchive (Rooms.sampleRegistry Social.sampleCrypto)

def sampleBody : BatchBody := ⟨0, [], [], [], none, none⟩

def sampleBodyFile : FileName × Option (List UInt8) :=
  ("a.body".toUTF8.toList, some ([86, 66, 66, 49] ++ List.replicate 16 0))

def sampleEligibleFile : FileName × Option (List UInt8) := ("a.eligible".toUTF8.toList, some [86, 66, 69, 49, 0, 0, 0, 0])

theorem sampleBodyFile_drained :
    ((Submissions.start sampleApplication).drainIntake [sampleBodyFile]).accepted = [([97], sampleBody)] := by decide +kernel

theorem sample_accepted_kept : ∃ s : Submissions Social.sampleCrypto, SteadyRun sampleApplication s ∧
    ([97], sampleBody) ∈ s.accepted ∧ s.Kept [97] sampleBody := by
  have hrun : SteadyRun sampleApplication ((Submissions.start sampleApplication).drainIntake [sampleBodyFile]) := by
    refine .step (.drain [sampleBodyFile]) .start ⟨fun stem body _ _ _ => ⟨?_, .inr ⟨?_, fun id => nofun⟩⟩, trivial⟩ <;>
      rw [Submissions.start] <;> exact Std.ExtTreeMap.getElem?_empty
  have hmem : ([97], sampleBody) ∈ ((Submissions.start sampleApplication).drainIntake [sampleBodyFile]).accepted := by
    rw [sampleBodyFile_drained]
    exact List.mem_singleton_self _
  exact ⟨_, hrun, hmem, accepted_kept hrun hmem⟩

/-- The second file takes the marker of the first, whose body is neither committed nor answered. -/
theorem same_stem_lost :
    ([97], sampleBody) ∈ ((Submissions.start sampleApplication).drainIntake [sampleBodyFile, sampleEligibleFile]).accepted ∧
      (∀ name : FileName, ((Submissions.start sampleApplication).drainIntake [sampleBodyFile, sampleEligibleFile]).pending[name]? ≠
        some sampleBody.encode) ∧
      ((Submissions.start sampleApplication).drainIntake [sampleBodyFile, sampleEligibleFile]).committed = [] ∧
      ((Submissions.start sampleApplication).drainIntake [sampleBodyFile, sampleEligibleFile]).rejected = [] := by
  refine ⟨by decide +kernel, fun name hname => ?_, by decide +kernel, by decide +kernel⟩
  have hfiles : ((Submissions.start sampleApplication).drainIntake [sampleBodyFile, sampleEligibleFile]).pending.toList =
      [([97], BatchBody.encode ⟨0, [], [], [], some [], none⟩)] := by decide +kernel
  have hmem := Std.ExtTreeMap.mem_toList_iff_getElem?_eq_some.2 hname
  rw [hfiles, List.mem_singleton, Prod.mk.injEq] at hmem
  exact absurd hmem.2 (by decide +kernel)

end Valhalla.RoomsNode
