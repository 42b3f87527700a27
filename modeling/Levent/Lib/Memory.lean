/-
  Code that reads memory through pointers: little-endian numbers, what is at an
  address, and computations that record what they do before they return or stop.
-/
import Levent.Lib.Pack
import Mathlib.Tactic.Ring

namespace Levent.Lib

/-! ## Numbers -/

/-- The last `n` little-endian bytes of a number. -/
def leBytes (n k : ℕ) : List UInt8 := (toBytes n k).reverse

/-- The number that little-endian bytes stand for. -/
def ofLe (bs : List UInt8) : ℕ := ofBytes bs.reverse

/-- The integer of `n` bytes that a number stands for, in two's complement. -/
def signed (n k : ℕ) : ℤ := if 2 * k < 256 ^ n then k else k - 256 ^ n

/-- The `n` bytes of an integer, as a number. -/
def unsigned (n : ℕ) (z : ℤ) : ℕ := (z % 256 ^ n).toNat

@[simp] theorem leBytes_length (n k : ℕ) : (leBytes n k).length = n := by simp [leBytes]

theorem ofLe_lt (bs : List UInt8) : ofLe bs < 256 ^ bs.length := by
  have := ofBytes_lt bs.reverse
  rwa [List.length_reverse] at this

theorem ofLe_leBytes {n k : ℕ} (h : k < 256 ^ n) : ofLe (leBytes n k) = k := by
  rw [ofLe, leBytes, List.reverse_reverse, ofBytes_toBytes h]

theorem leBytes_ofLe (bs : List UInt8) : leBytes bs.length (ofLe bs) = bs := by
  have := toBytes_ofBytes bs.reverse
  rw [List.length_reverse] at this
  rw [leBytes, ofLe, this, List.reverse_reverse]

theorem unsigned_lt (n : ℕ) (z : ℤ) : unsigned n z < 256 ^ n := by
  have hpos : (0 : ℤ) < 256 ^ n := Int.pow_pos (by decide)
  have h1 := Int.emod_nonneg z hpos.ne'
  have h2 := Int.emod_lt_of_pos z hpos
  have h3 : ((unsigned n z : ℕ) : ℤ) < ((256 ^ n : ℕ) : ℤ) := by
    rw [unsigned, Int.toNat_of_nonneg h1]
    push_cast
    exact h2
  exact_mod_cast h3

theorem unsigned_natCast {n k : ℕ} (h : k < 256 ^ n) : unsigned n k = k := by
  have hk : (k : ℤ) < 256 ^ n := by exact_mod_cast h
  rw [unsigned, Int.emod_eq_of_lt (Int.natCast_nonneg k) hk, Int.toNat_natCast]

theorem signed_unsigned {n : ℕ} {z : ℤ} (hlo : -256 ^ n ≤ 2 * z) (hhi : 2 * z < 256 ^ n) :
    signed n (unsigned n z) = z := by
  have hpos : (0 : ℤ) < 256 ^ n := Int.pow_pos (by decide)
  have hcast : ((256 ^ n : ℕ) : ℤ) = 256 ^ n := by push_cast; rfl
  unfold signed
  rcases lt_or_ge z 0 with hz | hz
  · have hmod : z % 256 ^ n = z + 256 ^ n := by
      rw [← Int.add_emod_right, Int.emod_eq_of_lt (by omega) (by omega)]
    have hu : ((unsigned n z : ℕ) : ℤ) = z + 256 ^ n := by
      rw [unsigned, hmod, Int.toNat_of_nonneg (by omega)]
    rw [if_neg, hu]
    · ring
    · intro h
      have h' : (2 * (unsigned n z : ℕ) : ℤ) < 256 ^ n := by exact_mod_cast h
      omega
  · have hu : ((unsigned n z : ℕ) : ℤ) = z := by
      rw [unsigned, Int.emod_eq_of_lt hz (by omega), Int.toNat_of_nonneg hz]
    rw [if_pos, hu]
    have h' : (2 * (unsigned n z : ℕ) : ℤ) < 256 ^ n := by omega
    exact_mod_cast h'

theorem unsigned_signed {n k : ℕ} (h : k < 256 ^ n) : unsigned n (signed n k) = k := by
  have hk : (k : ℤ) < 256 ^ n := by exact_mod_cast h
  have hmod : signed n k % 256 ^ n = k := by
    unfold signed
    split
    · exact Int.emod_eq_of_lt (Int.natCast_nonneg k) hk
    · rw [Int.sub_emod_right, Int.emod_eq_of_lt (Int.natCast_nonneg k) hk]
  rw [unsigned, hmod, Int.toNat_natCast]

/-- An integer of `n` bytes is in their range. -/
theorem signed_range {n k : ℕ} (h : k < 256 ^ n) :
    -256 ^ n ≤ 2 * signed n k ∧ 2 * signed n k < 256 ^ n := by
  have hk : (k : ℤ) < 256 ^ n := by exact_mod_cast h
  unfold signed
  split
  · rename_i h2
    have h' : (2 * k : ℤ) < 256 ^ n := by exact_mod_cast h2
    constructor <;> omega
  · rename_i h2
    have h' : ¬ (2 * k : ℤ) < 256 ^ n := by exact_mod_cast h2
    constructor <;> omega

/-! ## Memory -/

/-- What is at each address, in a block of bytes and outside it. -/
abbrev Mem := ℤ → UInt8

/-- The `n` bytes from the address `p` on. -/
def slice (mem : Mem) (p : ℤ) (n : ℕ) : List UInt8 := (List.range n).map fun i => mem (p + (i : ℕ))

/-- The bytes `bs` are at the address `p`. -/
def Holds (mem : Mem) (p : ℤ) (bs : List UInt8) : Prop := slice mem p bs.length = bs

variable {mem : Mem} {p : ℤ} {n : ℕ} {bs cs : List UInt8}

@[simp] theorem slice_length (mem : Mem) (p : ℤ) (n : ℕ) : (slice mem p n).length = n := by simp [slice]

theorem slice_add (mem : Mem) (p : ℤ) (m n : ℕ) :
    slice mem p (m + n) = slice mem p m ++ slice mem (p + m) n := by
  rw [slice, List.range_add, List.map_append, List.map_map]
  congr 1
  refine List.map_congr_left fun i _ => ?_
  simp only [Function.comp_apply]
  push_cast
  rw [add_assoc]

theorem slice_one (mem : Mem) (p : ℤ) : slice mem p 1 = [mem p] := by simp [slice]

theorem slice_succ (mem : Mem) (p : ℤ) (n : ℕ) : slice mem p (n + 1) = mem p :: slice mem (p + 1) n := by
  rw [Nat.add_comm, slice_add, slice_one]
  rfl

theorem Holds.slice (h : Holds mem p bs) : slice mem p bs.length = bs := h

theorem Holds.nil : Holds mem p [] := rfl

theorem holds_append : Holds mem p (bs ++ cs) ↔ Holds mem p bs ∧ Holds mem (p + bs.length) cs := by
  unfold Holds
  rw [List.length_append, slice_add]
  constructor
  · intro h
    exact List.append_inj h (slice_length ..)
  · rintro ⟨h1, h2⟩
    rw [h1, h2]

theorem holds_cons {b : UInt8} : Holds mem p (b :: bs) ↔ mem p = b ∧ Holds mem (p + 1) bs := by
  unfold Holds
  rw [List.length_cons, slice_succ, List.cons.injEq]

/-- The bytes `bs` from address 0 on, and zeros around them. -/
def block (bs : List UInt8) : Mem := fun p => if p < 0 then 0 else bs.getD p.toNat 0

theorem holds_block (bs : List UInt8) : Holds (block bs) 0 bs := by
  refine List.ext_getElem (by simp) fun i h1 h2 => ?_
  simp only [slice, List.getElem_map, List.getElem_range, block]
  rw [if_neg (by omega), zero_add, Int.toNat_natCast]
  simp [h2]

theorem holds_slice : Holds mem p (Lib.slice mem p n) := by
  unfold Holds
  rw [slice_length]

/-! ## Bytes that are stored -/

/-- The bytes `cs` are stored from the address `p` on. -/
def store (mem : Mem) (p : ℤ) (cs : List UInt8) : Mem := fun q =>
  if p ≤ q ∧ q < p + cs.length then cs.getD (q - p).toNat 0 else mem q

theorem slice_store (mem : Mem) (p : ℤ) (cs : List UInt8) : slice (store mem p cs) p cs.length = cs := by
  refine List.ext_getElem (by simp) fun i h1 h2 => ?_
  simp only [slice, List.getElem_map, List.getElem_range, store]
  rw [if_pos (by omega), add_sub_cancel_left, Int.toNat_natCast]
  simp [h2]

theorem store_of_lt {q : ℤ} (h : q < p) : store mem p cs q = mem q := if_neg (by omega)

theorem store_of_le {q : ℤ} (h : p + cs.length ≤ q) : store mem p cs q = mem q := if_neg (by omega)

/-- The two memories are the same from `lo` up to `hi`. -/
def Agree (mem mem' : Mem) (lo hi : ℤ) : Prop := ∀ q, lo ≤ q → q < hi → mem' q = mem q

theorem Agree.mono {mem' : Mem} {lo lo' hi hi' : ℤ} (h : Agree mem mem' lo hi) (hlo : lo ≤ lo')
    (hhi : hi' ≤ hi) : Agree mem mem' lo' hi' := fun q h1 h2 => h q (hlo.trans h1) (h2.trans_le hhi)

theorem Agree.slice {mem' : Mem} {lo hi : ℤ} (h : Agree mem mem' lo hi) (hlo : lo ≤ p) (hhi : p + n ≤ hi) :
    Lib.slice mem' p n = Lib.slice mem p n := by
  refine List.map_congr_left fun i hi => ?_
  rw [List.mem_range] at hi
  exact h _ (by omega) (by omega)

/-- Memories with the same bytes are the same there. -/
theorem Holds.agree {mem' : Mem} (h : Holds mem p bs) (h' : Holds mem' p bs) : Agree mem mem' p (p + bs.length) := by
  intro q hlo hhi
  obtain ⟨i, rfl⟩ : ∃ i : ℕ, q = p + i := ⟨(q - p).toNat, by omega⟩
  have hi : i < (Lib.slice mem p bs.length).length := by
    rw [slice_length]
    omega
  have hget := List.getElem_of_eq (h.trans h'.symm) hi
  simpa only [Lib.slice, List.getElem_map, List.getElem_range] using hget.symm

theorem Agree.holds {mem' : Mem} {lo hi : ℤ} (h : Agree mem mem' lo hi) (hlo : lo ≤ p)
    (hhi : p + bs.length ≤ hi) (hbs : Holds mem p bs) : Holds mem' p bs := (h.slice hlo hhi).trans hbs

/-! ## Bytes that are written back -/

/-- The bytes `cs` are written over those from the place `off` on. -/
def overwrite (off : ℕ) : List UInt8 → List UInt8 → List UInt8
  | [], bs => bs
  | c :: cs, bs => overwrite (off + 1) cs (bs.set off c)

@[simp] theorem overwrite_length (off : ℕ) (cs bs : List UInt8) : (overwrite off cs bs).length = bs.length := by
  induction cs generalizing off bs with
  | nil => rfl
  | cons c cs ih => rw [overwrite, ih, List.length_set]

theorem overwrite_append {a o b cs : List UInt8} (h : o.length = cs.length) :
    overwrite a.length cs (a ++ o ++ b) = a ++ cs ++ b := by
  induction cs generalizing a o with
  | nil =>
    obtain rfl := List.eq_nil_of_length_eq_zero h
    rfl
  | cons c cs ih =>
    cases o with
    | nil => cases h
    | cons x o =>
      have hset : (a ++ x :: o ++ b).set a.length c = (a ++ [c]) ++ o ++ b := by
        simp
      have := ih (a := a ++ [c]) (Nat.succ.inj h)
      rw [List.length_append] at this
      rw [overwrite, hset]
      refine this.trans ?_
      simp

/-! ## Recorded computations -/

/-- A computation that records what it does, and returns or stops. -/
def Traced (ε ω α : Type) := List ω × Except ε α

namespace Traced

variable {ε ω α β : Type}

def trace (x : Traced ε ω α) : List ω := x.1

def result (x : Traced ε ω α) : Except ε α := x.2

def stop (e : ε) : Traced ε ω α := ⟨[], .error e⟩

/-- Record `o`. -/
def note (o : ω) : Traced ε ω Unit := ⟨[o], .ok ()⟩

instance : Monad (Traced ε ω) where
  pure a := ⟨[], .ok a⟩
  bind x f := match x with
    | ⟨l, .ok a⟩ => ⟨l ++ (f a).1, (f a).2⟩
    | ⟨l, .error e⟩ => ⟨l, .error e⟩

variable {x : Traced ε ω α} {f : α → Traced ε ω β}

@[simp] theorem result_pure (a : α) : (pure a : Traced ε ω α).result = .ok a := rfl
@[simp] theorem trace_pure (a : α) : (pure a : Traced ε ω α).trace = [] := rfl
@[simp] theorem result_stop (e : ε) : (stop e : Traced ε ω α).result = .error e := rfl
@[simp] theorem trace_stop (e : ε) : (stop e : Traced ε ω α).trace = [] := rfl
@[simp] theorem result_note (o : ω) : (note o : Traced ε ω Unit).result = .ok () := rfl
@[simp] theorem trace_note (o : ω) : (note o : Traced ε ω Unit).trace = [o] := rfl

theorem bind_ok {a : α} (h : x.result = .ok a) :
    (x >>= f).result = (f a).result ∧ (x >>= f).trace = x.trace ++ (f a).trace := by
  obtain ⟨l, r⟩ := x
  cases h
  exact ⟨rfl, rfl⟩

theorem bind_error {e : ε} (h : x.result = .error e) :
    (x >>= f).result = .error e ∧ (x >>= f).trace = x.trace := by
  obtain ⟨l, r⟩ := x
  cases h
  exact ⟨rfl, rfl⟩

theorem result_bind_ok {b : β} :
    (x >>= f).result = .ok b ↔ ∃ a, x.result = .ok a ∧ (f a).result = .ok b := by
  cases h : x.result with
  | ok a => simp [(bind_ok (f := f) h).1]
  | error e => simp [(bind_error (f := f) h).1]

theorem mem_bind_left {o : ω} (h : o ∈ x.trace) : o ∈ (x >>= f).trace := by
  cases hx : x.result with
  | ok a =>
    rw [(bind_ok hx).2]
    exact List.mem_append_left _ h
  | error e => rwa [(bind_error hx).2]

theorem mem_bind_right {o : ω} {a : α} (hx : x.result = .ok a) (h : o ∈ (f a).trace) : o ∈ (x >>= f).trace := by
  rw [(bind_ok hx).2]
  exact List.mem_append_right _ h

/-- Where all that is recorded meets `C`, it meets `G`, and the result meets `Q`, or `E`
    if the computation stops. -/
def Sound (C G : ω → Prop) (Q : α → Prop) (E : ε → Prop) (x : Traced ε ω α) : Prop :=
  (∀ o ∈ x.trace, C o) → (∀ o ∈ x.trace, G o) ∧ (∀ a, x.result = .ok a → Q a) ∧
    ∀ e, x.result = .error e → E e

variable {C G : ω → Prop} {Q : α → Prop} {Q' : β → Prop} {E : ε → Prop}

theorem Sound.pure {a : α} (h : Q a) : (pure a : Traced ε ω α).Sound C G Q E := by
  intro _
  refine ⟨by simp, ?_, by simp⟩
  rintro b hb
  cases hb
  exact h

theorem Sound.stop {e : ε} (h : E e) : (stop e : Traced ε ω α).Sound C G Q E := by
  intro _
  refine ⟨by simp, by simp, ?_⟩
  rintro e' he
  cases he
  exact h

theorem Sound.note {o : ω} {Q : Unit → Prop} (h : C o → G o ∧ Q ()) : (note o : Traced ε ω Unit).Sound C G Q E := by
  intro hC
  have h1 := h (hC o (by simp))
  refine ⟨by simpa using h1.1, fun _ _ => h1.2, by simp⟩

theorem Sound.bind (hx : x.Sound C G Q E) (hf : ∀ a, Q a → (f a).Sound C G Q' E) :
    (x >>= f).Sound C G Q' E := by
  intro hC
  cases h : x.result with
  | ok a =>
    obtain ⟨h1, h2⟩ := bind_ok (f := f) h
    rw [h2] at hC
    rw [h1, h2]
    obtain ⟨hx1, hx2, -⟩ := hx fun o ho => hC o (List.mem_append_left _ ho)
    obtain ⟨hf1, hf2, hf3⟩ := hf a (hx2 a h) fun o ho => hC o (List.mem_append_right _ ho)
    exact ⟨fun o ho => (List.mem_append.1 ho).elim (hx1 o) (hf1 o), hf2, hf3⟩
  | error e =>
    obtain ⟨h1, h2⟩ := bind_error (f := f) h
    rw [h2] at hC
    rw [h1, h2]
    obtain ⟨hx1, -, hx3⟩ := hx hC
    exact ⟨hx1, by simp, fun e' he => by cases he; exact hx3 e h⟩

theorem Sound.stop_bind {e : ε} (h : E e) : ((Traced.stop e : Traced ε ω α) >>= f).Sound C G Q' E :=
  Sound.bind (Q := fun _ => False) (Sound.stop h) fun _ h => h.elim

theorem Sound.mono {R : α → Prop} (hx : x.Sound C G Q E) (h : ∀ a, Q a → R a) : x.Sound C G R E :=
  fun hC => ⟨(hx hC).1, fun a ha => h a ((hx hC).2.1 a ha), (hx hC).2.2⟩

end Traced

end Levent.Lib
