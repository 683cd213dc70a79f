import Valhalla.Lib.Fallible
import Valhalla.Lib.FixedWidth

/-!
# Prefix codecs

A reader consumes the front of a byte string. `Codec get put ok` says that `get` reads exactly what `put`
writes for the values that satisfy `ok`: both round trips in one equivalence. The rules below build codecs
of records (`bind`, one field at a time), of tagged unions (`bind` on the tag, `map` and `map₂` for the
constructors), of lists whose reader carries a state (`many`) and of whole inputs (`decode_eq_ok`).
-/

/-- A reader over the bytes not yet consumed. -/
abbrev Reader (ε : Type) := Fallible ε (List UInt8)

namespace Reader
open Fallible FixedWidth
variable {ε α : Type}

/-- The next `n` bytes, or the failure `e`. -/
def take (e : ε) (n : Nat) : Reader ε (List UInt8) :=
  of fun bytes => if n ≤ bytes.length then (.ok (bytes.take n), bytes.drop n) else (.error e, bytes)

/-- The next `n` bytes as an array. -/
def array (e : ε) (n : Nat) : Reader ε (Vector UInt8 n) := do
  let bytes ← take e n
  if h : bytes.length = n then pure ⟨bytes.toArray, h⟩ else throw e

/-- A big-endian integer. -/
def int [FixedWidth α] (e : ε) : Reader ε α := do
  let bytes ← take e (bytes α)
  pure (fromBe bytes)

/-- A value that does not depend on the input, or the failure to build it. -/
def lift (x : Except ε α) : Reader ε α := of fun bytes => (x, bytes)

/-- Read `n` items with a state that every item moves. -/
def many {σ : Type} (next : σ → α → σ) (get : σ → Reader ε α) : Nat → σ → Reader ε (List α)
  | 0, _ => pure []
  | n + 1, s => do
    let a ← get s
    let rest ← many next get n (next s a)
    pure (a :: rest)

/-- Read `n` items of the same kind. -/
def replicate (get : Reader ε α) (n : Nat) : Reader ε (List α) := many (fun _ _ => ()) (fun _ => get) n ()

/-- Read a whole input of at most `limit` bytes, with nothing after the value. -/
def decode (tooLarge : Nat → Nat → ε) (trailing : Nat → ε) (limit : Nat) (get : Reader ε α) (raw : List UInt8) :
    Except ε α :=
  if raw.length > limit then .error (tooLarge raw.length limit)
  else match exec get raw with
    | (.error e, _) => .error e
    | (.ok a, rest) => if rest.length > 0 then .error (trailing rest.length) else .ok a

/-- Read a whole input of any length, with nothing after the value. -/
def complete (trailing : ε) (get : Reader ε α) (raw : List UInt8) : Except ε α :=
  match exec get raw with
  | (.error e, _) => .error e
  | (.ok a, rest) => if rest = [] then .ok a else .error trailing

end Reader

/-- `get` reads what `put` writes for the values that are `ok`, and nothing else. -/
structure Codec {ε α : Type} (get : Reader ε α) (put : α → List UInt8) (ok : α → Prop) : Prop where
  iff : ∀ bytes a rest, Fallible.exec get bytes = (.ok a, rest) ↔ bytes = put a ++ rest ∧ ok a

namespace Codec
open Fallible FixedWidth Reader
variable {ε α β ρ σ : Type} {get : Reader ε α} {put : α → List UInt8} {ok : α → Prop}

/-! ### Primitives -/

protected theorem pure (r : ρ) {ok : ρ → Prop} (h : ∀ r', ok r' ↔ r' = r) :
    Codec (pure r : Reader ε ρ) (fun _ => []) ok := by
  refine ⟨fun bytes r' rest => ?_⟩
  rw [exec_pure, h]
  simp [eq_comm, and_comm]

theorem take (e : ε) (n : Nat) : Codec (take e n) id (·.length = n) := by
  refine ⟨fun bytes a rest => ?_⟩
  simp only [Reader.take, exec_of, id]
  split
  · rename_i h
    constructor
    · intro he
      cases he
      exact ⟨(List.take_append_drop n bytes).symm, List.length_take_of_le h⟩
    · rintro ⟨rfl, rfl⟩
      simp
  · rename_i h
    refine ⟨fun he => (nomatch he), ?_⟩
    rintro ⟨rfl, rfl⟩
    exact absurd (by simp) h

theorem int [FixedWidth α] (e : ε) : Codec (Reader.int e : Reader ε α) toBe fun _ => True := by
  refine ⟨fun bytes a rest => ?_⟩
  simp only [Reader.int, exec_bind_eq_ok, (take e _).iff, exec_pure, Prod.mk.injEq, Except.ok.injEq, id, and_true]
  constructor
  · rintro ⟨bs, mid, ⟨rfl, hlen⟩, rfl, rfl⟩
    rw [toBe_fromBe hlen]
  · rintro rfl
    exact ⟨toBe a, rest, ⟨rfl, length_toBe a⟩, fromBe_toBe a, rfl⟩

/-! ### Sequencing -/

theorem congr {put' : α → List UInt8} {ok' : α → Prop} (h : Codec get put ok) (hok : ∀ a, ok' a ↔ ok a)
    (hput : ∀ a, ok a → put' a = put a) : Codec get put' ok' := by
  refine ⟨fun bytes a rest => ?_⟩
  rw [h.iff, hok]
  exact and_congr_left fun ha => by rw [hput a ha]

/-- The field `proj` first, then the rest of the record, of which that field is now known. -/
theorem bind {f : α → Reader ε ρ} {put' : ρ → List UInt8} {ok' : ρ → Prop} (proj : ρ → α) (ha : Codec get put ok)
    (hok : ∀ r, ok' r → ok (proj r)) (hf : ∀ a, ok a → Codec (f a) put' fun r => ok' r ∧ proj r = a) :
    Codec (get >>= f) (fun r => put (proj r) ++ put' r) ok' := by
  refine ⟨fun bytes r rest => ?_⟩
  rw [exec_bind_eq_ok]
  constructor
  · rintro ⟨a, mid, hget, hrest⟩
    obtain ⟨rfl, hoka⟩ := (ha.iff _ _ _).1 hget
    obtain ⟨rfl, hokr, rfl⟩ := ((hf a hoka).iff _ _ _).1 hrest
    exact ⟨(List.append_assoc ..).symm, hokr⟩
  · rintro ⟨rfl, hokr⟩
    refine ⟨proj r, put' r ++ rest, (ha.iff _ _ _).2 ⟨List.append_assoc .., hok r hokr⟩, ?_⟩
    exact ((hf _ (hok r hokr)).iff _ _ _).2 ⟨rfl, hokr, rfl⟩

theorem last {f : α → Reader ε ρ} {ok' : ρ → Prop} (proj : ρ → α) (ha : Codec get put ok)
    (hok : ∀ r, ok' r → ok (proj r)) (hf : ∀ a, ok a → Codec (f a) (fun _ => []) fun r => ok' r ∧ proj r = a) :
    Codec (get >>= f) (fun r => put (proj r)) ok' :=
  (ha.bind proj hok hf).congr (fun _ => Iff.rfl) fun _ _ => (List.append_nil _).symm

theorem field {f : α → Reader ε ρ} {put' : ρ → List UInt8} {ok' : ρ → Prop} (proj : ρ → α) (ha : Codec get put fun _ => True)
    (hf : ∀ a, Codec (f a) put' fun r => ok' r ∧ proj r = a) : Codec (get >>= f) (fun r => put (proj r) ++ put' r) ok' :=
  ha.bind proj (fun _ _ => trivial) fun a _ => hf a

theorem lastField {f : α → Reader ε ρ} {ok' : ρ → Prop} (proj : ρ → α) (ha : Codec get put fun _ => True)
    (hf : ∀ a, Codec (f a) (fun _ => []) fun r => ok' r ∧ proj r = a) : Codec (get >>= f) (fun r => put (proj r)) ok' :=
  ha.last proj (fun _ _ => trivial) fun a _ => hf a

theorem tagged {e : ε} {branch : UInt8 → Reader ε ρ} {put' : ρ → List UInt8} {ok' : ρ → Prop}
    (hput : ∀ r, ∃ t body, put' r = t :: body)
    (h : ∀ t, Codec (branch t) (fun r => (put' r).tail) fun r => ok' r ∧ (put' r).head? = some t) :
    Codec (Reader.int e >>= branch) put' ok' := by
  have htag : ∀ r t, (put' r).headD 0 = t ↔ (put' r).head? = some t := by
    intro r t
    obtain ⟨t', body, hr⟩ := hput r
    simp [hr]
  refine ((int e).bind (fun r => (put' r).headD 0) (fun _ _ => trivial) fun t _ =>
    (h t).congr (fun r => by rw [htag]) fun _ _ => rfl).congr (fun _ => Iff.rfl) fun r _ => ?_
  obtain ⟨t, body, hr⟩ := hput r
  simp [hr]

theorem constant {r : ρ} {put' : ρ → List UInt8} {ok' : ρ → Prop} (hok : ∀ r', ok' r' ↔ r' = r) (hput : put' r = []) :
    Codec (pure r : Reader ε ρ) put' ok' :=
  (Codec.pure r hok).congr (fun _ => Iff.rfl) fun r' hr => by rw [(hok r').1 hr, hput]

theorem map {mk : α → ρ} {put' : ρ → List UInt8} {ok' : ρ → Prop} (ha : Codec get put ok)
    (hok : ∀ r, ok' r ↔ ∃ a, ok a ∧ r = mk a) (hput : ∀ a, put' (mk a) = put a) :
    Codec (do let a ← get; pure (mk a)) put' ok' := by
  refine ⟨fun bytes r rest => ?_⟩
  simp only [exec_bind_eq_ok, ha.iff, exec_pure, Prod.mk.injEq, Except.ok.injEq, hok]
  constructor
  · rintro ⟨a, mid, ⟨rfl, hoka⟩, rfl, rfl⟩
    exact ⟨by rw [hput], a, hoka, rfl⟩
  · rintro ⟨rfl, a, hoka, rfl⟩
    exact ⟨a, rest, ⟨by rw [hput], hoka⟩, rfl, rfl⟩

theorem map₂ {getb : Reader ε β} {putb : β → List UInt8} {okb : β → Prop} {mk : α → β → ρ} {put' : ρ → List UInt8}
    {ok' : ρ → Prop} (ha : Codec get put ok) (hb : Codec getb putb okb)
    (hok : ∀ r, ok' r ↔ ∃ a b, ok a ∧ okb b ∧ r = mk a b) (hput : ∀ a b, put' (mk a b) = put a ++ putb b) :
    Codec (do let a ← get; let b ← getb; pure (mk a b)) put' ok' := by
  refine ⟨fun bytes r rest => ?_⟩
  simp only [exec_bind_eq_ok, ha.iff, hb.iff, exec_pure, Prod.mk.injEq, Except.ok.injEq, hok]
  constructor
  · rintro ⟨a, mid, ⟨rfl, hoka⟩, b, mid', ⟨rfl, hokb⟩, rfl, rfl⟩
    exact ⟨by rw [hput, List.append_assoc], a, b, hoka, hokb, rfl⟩
  · rintro ⟨rfl, a, b, hoka, hokb, rfl⟩
    exact ⟨a, putb b ++ rest, ⟨by rw [hput, List.append_assoc], hoka⟩, b, rest, ⟨rfl, hokb⟩, rfl, rfl⟩

theorem pair {getb : Reader ε β} {putb : β → List UInt8} {okb : β → Prop} (ha : Codec get put ok) (hb : Codec getb putb okb) :
    Codec (do let a ← get; let b ← getb; pure (a, b)) (fun p => put p.1 ++ putb p.2) fun p => ok p.1 ∧ okb p.2 :=
  ha.map₂ hb (fun ⟨a, b⟩ => by simp) fun _ _ => rfl

theorem map₃ {γ : Type} {getb : Reader ε β} {putb : β → List UInt8} {okb : β → Prop} {getc : Reader ε γ}
    {putc : γ → List UInt8} {okc : γ → Prop} {mk : α → β → γ → ρ} {put' : ρ → List UInt8} {ok' : ρ → Prop}
    (ha : Codec get put ok) (hb : Codec getb putb okb) (hc : Codec getc putc okc)
    (hok : ∀ r, ok' r ↔ ∃ a b c, ok a ∧ okb b ∧ okc c ∧ r = mk a b c)
    (hput : ∀ a b c, put' (mk a b c) = put a ++ (putb b ++ putc c)) :
    Codec (do let a ← get; let b ← getb; let c ← getc; pure (mk a b c)) put' ok' := by
  have h : Codec (do let p ← (do let a ← get; let b ← getb; pure (a, b)); let c ← getc; pure (mk p.1 p.2 c)) put' ok' := by
    refine (ha.pair hb).map₂ hc (fun r => ?_) fun p c => ?_
    · rw [hok]
      constructor
      · rintro ⟨a, b, c, hoka, hokb, hokc, rfl⟩
        exact ⟨(a, b), c, ⟨hoka, hokb⟩, hokc, rfl⟩
      · rintro ⟨⟨a, b⟩, c, ⟨hoka, hokb⟩, hokc, rfl⟩
        exact ⟨a, b, c, hoka, hokb, hokc, rfl⟩
    · rw [hput, List.append_assoc]
  simpa only [bind_assoc, pure_bind] using h

theorem lift {new : α → Except ε ρ} {put' : ρ → List UInt8} {ok' : ρ → Prop} (ha : Codec get put ok)
    (hok : ∀ r, ok' r ↔ ∃ a, ok a ∧ new a = .ok r) (hput : ∀ a r, new a = .ok r → put' r = put a) :
    Codec (do let a ← get; Reader.lift (new a)) put' ok' := by
  refine ⟨fun bytes r rest => ?_⟩
  simp only [exec_bind_eq_ok, ha.iff, Reader.lift, exec_of, Prod.mk.injEq, hok]
  constructor
  · rintro ⟨a, mid, ⟨rfl, hoka⟩, hnew, rfl⟩
    exact ⟨by rw [hput a r hnew], a, hoka, hnew⟩
  · rintro ⟨rfl, a, hoka, hnew⟩
    exact ⟨a, rest, ⟨by rw [hput a r hnew], hoka⟩, hnew, rfl⟩

theorem none {f : Reader ε ρ} {put' : ρ → List UInt8} {ok' : ρ → Prop} (h : ∀ bytes, ∃ e, (exec f bytes).1 = .error e)
    (hok : ∀ r, ¬ ok' r) : Codec f put' ok' := by
  refine ⟨fun bytes r rest => ⟨fun he => ?_, fun hr => absurd hr.2 (hok r)⟩⟩
  obtain ⟨e, hf⟩ := h bytes
  rw [he] at hf
  cases hf

theorem check {p : α → Prop} [DecidablePred p] {e : α → ε} (ha : Codec get put ok) :
    Codec (do let a ← get; if p a then throw (e a) else pure a) put fun a => ok a ∧ ¬ p a := by
  refine ⟨fun bytes a rest => ?_⟩
  simp only [exec_bind_eq_ok, ha.iff]
  constructor
  · rintro ⟨a', mid, ⟨rfl, hok⟩, h⟩
    split at h
    · cases h
    · rename_i hp
      cases h
      exact ⟨rfl, hok, hp⟩
  · rintro ⟨rfl, hok, hp⟩
    exact ⟨a, rest, ⟨rfl, hok⟩, by rw [if_neg hp]; rfl⟩

theorem guard {x : Except ε Unit} : Codec (Reader.lift x) (fun _ => []) fun _ => x = .ok () := by
  refine ⟨fun bytes u rest => ?_⟩
  simp only [Reader.lift, exec_of, Prod.mk.injEq, List.nil_append]
  exact ⟨fun ⟨he, hb⟩ => ⟨hb, he⟩, fun ⟨hb, he⟩ => ⟨he, hb⟩⟩

theorem limited [FixedWidth α] {e e' : ε} {limit : Nat} (h : limit < 256 ^ bytes α) :
    Codec (do let n ← (Reader.int e : Reader ε α); if toNat n > limit then throw e' else pure (toNat n))
      (fun n => toBe (ofNat n : α)) (· ≤ limit) := by
  refine ⟨fun bytes n rest => ?_⟩
  simp only [exec_bind_eq_ok, (int e).iff]
  constructor
  · rintro ⟨a, mid, ⟨rfl, -⟩, hn⟩
    split at hn
    · cases hn
    · rename_i hle
      cases hn
      exact ⟨by rw [ofNat_toNat], Nat.le_of_not_gt hle⟩
  · rintro ⟨rfl, hle⟩
    refine ⟨ofNat n, rest, ⟨rfl, trivial⟩, ?_⟩
    rw [toNat_ofNat n (Nat.lt_of_le_of_lt hle h), if_neg (Nat.not_lt.2 hle)]
    rfl

theorem array (e : ε) (n : Nat) : Codec (Reader.array e n : Reader ε (Vector UInt8 n)) Vector.toList fun _ => True := by
  refine (take e n).last Vector.toList (fun v _ => v.length_toList) fun bytes hlen => ?_
  rw [dif_pos hlen]
  refine .pure _ fun v => ?_
  rw [true_and]
  constructor
  · rintro rfl
    rfl
  · rintro rfl
    rfl

theorem magic {e e' : ε} {bytes : List UInt8} :
    Codec (do let found ← Reader.take e bytes.length; if found ≠ bytes then throw e' else pure () : Reader ε Unit)
      (fun _ => bytes) fun _ => True := by
  refine ⟨fun raw u rest => ?_⟩
  simp only [exec_bind_eq_ok, (take e _).iff, id]
  constructor
  · rintro ⟨found, mid, ⟨rfl, -⟩, h⟩
    split at h
    · cases h
    · rename_i heq
      cases h
      exact ⟨by rw [Decidable.not_not.1 heq], trivial⟩
  · rintro ⟨rfl, -⟩
    exact ⟨bytes, rest, ⟨rfl, rfl⟩, by rw [if_neg (by simp)]; rfl⟩

/-! ### Lists -/

/-- Every item is `ok` in the state that the items before it lead to. -/
def Chained (ok : σ → α → Prop) (next : σ → α → σ) : σ → List α → Prop
  | _, [] => True
  | s, a :: l => ok s a ∧ Chained ok next (next s a) l

theorem chained_of_forall {ok : α → Prop} {next : σ → α → σ} {s : σ} {l : List α} :
    Chained (fun _ => ok) next s l ↔ ∀ a ∈ l, ok a := by
  induction l generalizing s with
  | nil => simp [Chained]
  | cons a l ih => simp [Chained, ih]

theorem many {next : σ → α → σ} {get : σ → Reader ε α} {ok : σ → α → Prop} (h : ∀ s, Codec (get s) put (ok s))
    (n : Nat) (s : σ) :
    Codec (Reader.many next get n s) (List.flatMap put) fun l => l.length = n ∧ Chained ok next s l := by
  induction n generalizing s with
  | zero =>
    refine (Codec.pure [] fun l => ?_).congr (fun _ => Iff.rfl) fun l hl => ?_
    · exact ⟨fun h => List.eq_nil_of_length_eq_zero h.1, fun h => h ▸ ⟨rfl, trivial⟩⟩
    · rw [List.eq_nil_of_length_eq_zero hl.1]
      rfl
  | succ n ih =>
    refine ⟨fun bytes l rest => ?_⟩
    simp only [Reader.many, exec_bind_eq_ok, (h s).iff, (ih _).iff, exec_pure, Prod.mk.injEq, Except.ok.injEq]
    constructor
    · rintro ⟨a, mid, ⟨rfl, hok⟩, l', mid', ⟨rfl, hlen, hchain⟩, rfl, rfl⟩
      exact ⟨by rw [List.flatMap_cons, List.append_assoc], by rw [List.length_cons, hlen], hok, hchain⟩
    · rintro ⟨rfl, hlen, hchain⟩
      cases l with
      | nil => cases hlen
      | cons a l =>
        refine ⟨a, l.flatMap put ++ rest, ⟨?_, hchain.1⟩, l, rest, ⟨rfl, Nat.succ.inj hlen, hchain.2⟩, rfl, rfl⟩
        rw [List.flatMap_cons, List.append_assoc]

theorem counted {next : σ → α → σ} {get : σ → Reader ε α} {ok : σ → α → Prop} {getCount : Reader ε Nat}
    {putCount : Nat → List UInt8} {okCount : Nat → Prop} {s : σ} (hc : Codec getCount putCount okCount)
    (h : ∀ s, Codec (get s) put (ok s)) :
    Codec (do let n ← getCount; Reader.many next get n s) (fun l => putCount l.length ++ l.flatMap put)
      fun l => okCount l.length ∧ Chained ok next s l := by
  refine hc.bind List.length (fun l hl => hl.1) fun n hn => (many h n s).congr (fun l => ?_) fun _ _ => rfl
  constructor
  · rintro ⟨⟨-, hchain⟩, hlen⟩
    exact ⟨hlen, hchain⟩
  · rintro ⟨rfl, hchain⟩
    exact ⟨⟨hn, hchain⟩, rfl⟩

theorem length_flatMap_le {k : Nat} {l : List α} (h : ∀ a ∈ l, (put a).length ≤ k) : (l.flatMap put).length ≤ l.length * k := by
  induction l with
  | nil => exact Nat.zero_le _
  | cons a l ih =>
    have ha := h a List.mem_cons_self
    have hrest := ih fun b hb => h b (List.mem_cons_of_mem a hb)
    rw [List.flatMap_cons, List.length_append, List.length_cons, Nat.succ_mul]
    omega

/-! ### Unique parsing -/

theorem append_inj (h : Codec get put ok) {a b : α} {rest rest' : List UInt8} (ha : ok a) (hb : ok b)
    (he : put a ++ rest = put b ++ rest') : a = b ∧ rest = rest' := by
  have hread := (h.iff _ a rest).2 ⟨rfl, ha⟩
  rw [he, (h.iff _ b rest').2 ⟨rfl, hb⟩] at hread
  cases hread
  exact ⟨rfl, rfl⟩

theorem flatMap_inj (h : Codec get put ok) (hput : ∀ a, put a ≠ []) {l l' : List α} (hl : ∀ a ∈ l, ok a) (hl' : ∀ a ∈ l', ok a)
    (he : l.flatMap put = l'.flatMap put) : l = l' := by
  induction l generalizing l' with
  | nil =>
    cases l' with
    | nil => rfl
    | cons b l' => exact absurd (List.append_eq_nil_iff.1 he.symm).1 (hput b)
  | cons a l ih =>
    cases l' with
    | nil => exact absurd (List.append_eq_nil_iff.1 he).1 (hput a)
    | cons b l' =>
      rw [List.forall_mem_cons] at hl hl'
      obtain ⟨rfl, hrest⟩ := h.append_inj hl.1 hl'.1 he
      rw [ih hl.2 hl'.2 hrest]

/-! ### Whole inputs -/

theorem complete_eq_ok {trailing : ε} {raw : List UInt8} {a : α} (h : Codec get put ok) :
    complete trailing get raw = .ok a ↔ raw = put a ∧ ok a := by
  have hiff := h.iff raw a []
  rw [List.append_nil] at hiff
  rw [← hiff, complete]
  rcases exec get raw with ⟨e | a', _ | ⟨b, rest⟩⟩ <;> simp

theorem decode_eq_ok {tooLarge : Nat → Nat → ε} {trailing : Nat → ε} {limit : Nat} {raw : List UInt8} {a : α}
    (h : Codec get put ok) :
    decode tooLarge trailing limit get raw = .ok a ↔ raw = put a ∧ ok a ∧ (put a).length ≤ limit := by
  have hiff := h.iff raw a []
  rw [List.append_nil] at hiff
  rw [← and_assoc, ← hiff]
  unfold decode
  split
  · rename_i hlong
    refine ⟨fun he => (nomatch he), fun ⟨hget, hle⟩ => ?_⟩
    rw [(hiff.1 hget).1] at hlong
    omega
  · rename_i hshort
    have hfits : exec get raw = (.ok a, []) → (put a).length ≤ limit := fun hget => by
      rw [← (hiff.1 hget).1]
      omega
    rw [and_iff_left_of_imp hfits]
    rcases exec get raw with ⟨e | a', _ | ⟨b, rest⟩⟩ <;> simp

end Codec

theorem String.fromUTF8?_eq_some {bytes : ByteArray} {s : String} : String.fromUTF8? bytes = some s ↔ s.toUTF8 = bytes := by
  unfold String.fromUTF8?
  constructor
  · intro h
    split at h
    · cases h
      rfl
    · cases h
  · rintro rfl
    rw [String.toUTF8_eq_toByteArray, dif_pos s.isValidUTF8]
    rfl

theorem ByteArray.toList_eq_toList_data (bytes : ByteArray) : bytes.toList = bytes.data.toList := by
  have hloop : ∀ i r, ByteArray.toList.loop bytes i r = r.reverse ++ bytes.data.toList.drop i := by
    intro i r
    fun_induction ByteArray.toList.loop bytes i r with
    | case1 i r hlt ih =>
      have hi : i < bytes.data.toList.length := hlt
      have hget : bytes.get! i = bytes.data.toList[i] := getElem!_pos bytes.data i hlt
      rw [ih, List.drop_eq_getElem_cons hi, hget, List.reverse_cons, List.append_assoc]
      rfl
    | case2 i r hge =>
      have hi : bytes.data.toList.length ≤ i := Nat.not_lt.1 hge
      rw [List.drop_eq_nil_of_le hi, List.append_nil]
  rw [ByteArray.toList, hloop]
  rfl

/-- A value that survives its encoding, which is not longer than the limit. -/
def RoundTrips {ε α : Type} (decode : List UInt8 → Except ε α) (encode : α → List UInt8) (limit : Nat) (a : α) : Prop :=
  decode (encode a) = .ok a ∧ (encode a).length ≤ limit

/-- Nothing but encodings is accepted. -/
def Canonical {ε α : Type} (decode : List UInt8 → Except ε α) (encode : α → List UInt8) : Prop :=
  ∀ raw a, decode raw = .ok a → encode a = raw
