/-
  Strings of bytes as Lua's `string.pack` and `string.unpack` make and read
  them, for big-endian unsigned integers (`>In`) and for strings counted by one
  (`>sn`).

  A read begins at a position, counted from 1 (or from the end, if it is
  negative); `At` says what the bytes at an offset, counted from 0, are.
-/
import Mathlib.Data.List.Induction
import Mathlib.Data.Int.Basic
import Mathlib.Tactic.Ring

namespace Levent.Lib

/-- Why a computation has no result: it raises an error, or it has not come to
    an end in the rounds its loops are given. -/
inductive Stop where
  | raised (msg : String)
  | unfinished
  deriving DecidableEq

abbrev Lua := Except Stop

theorem bind_eq_ok {ε α β : Type} {x : Except ε α} {f : α → Except ε β} {b : β} :
    x >>= f = .ok b ↔ ∃ a, x = .ok a ∧ f a = .ok b := by
  cases x with
  | error e => exact ⟨nofun, nofun⟩
  | ok a => exact ⟨fun h => ⟨a, rfl, h⟩, fun ⟨_, ha, hb⟩ => Except.ok.inj ha ▸ hb⟩

section
variable {α β : Type} {x : Lua α} {f : α → Lua β}

/-- The computation returns or raises. -/
def Ends (x : Lua α) : Prop := x ≠ .error .unfinished

theorem Ends.ok (a : α) : Ends (.ok a) := nofun

theorem Ends.raised (msg : String) : Ends (α := α) (.error (.raised msg)) := nofun

theorem Ends.bind (hx : Ends x) (hf : ∀ a, x = .ok a → Ends (f a)) : Ends (x >>= f) := by
  cases x with
  | error e => exact fun h => hx (congrArg Except.error (Except.error.inj h))
  | ok a => exact hf a rfl

theorem Ends.of_bind (h : Ends (x >>= f)) : Ends x := by
  rintro rfl
  exact h rfl

/-- A computation that ends and does not return raises. -/
theorem Ends.raises (h : Ends x) (hr : ∀ a, x ≠ .ok a) : ∃ msg, x = .error (.raised msg) := by
  cases x with
  | ok a => exact absurd rfl (hr a)
  | error e =>
    cases e with
    | raised msg => exact ⟨msg, rfl⟩
    | unfinished => exact absurd rfl h

end

/-! ## Numbers -/

/-- The number that big-endian bytes stand for. -/
def ofBytes (bs : List UInt8) : ℕ := bs.foldl (fun k b => k * 256 + b.toNat) 0

/-- The last `n` big-endian bytes of a number. -/
def toBytes : ℕ → ℕ → List UInt8
  | 0, _ => []
  | n + 1, k => toBytes n (k / 256) ++ [UInt8.ofNat k]

@[simp] theorem toBytes_length (n k : ℕ) : (toBytes n k).length = n := by
  induction n generalizing k with
  | zero => rfl
  | succ n ih => simp [toBytes, ih]

@[simp] theorem ofBytes_nil : ofBytes [] = 0 := rfl

theorem ofBytes_snoc (bs : List UInt8) (b : UInt8) :
    ofBytes (bs ++ [b]) = ofBytes bs * 256 + b.toNat := by
  simp [ofBytes, List.foldl_append]

theorem ofBytes_lt (bs : List UInt8) : ofBytes bs < 256 ^ bs.length := by
  induction bs using List.reverseRecOn with
  | nil => simp
  | append_singleton bs b ih =>
    rw [ofBytes_snoc, List.length_append, List.length_singleton, Nat.pow_succ]
    have := b.toNat_lt
    omega

theorem ofBytes_toBytes {n k : ℕ} (h : k < 256 ^ n) : ofBytes (toBytes n k) = k := by
  induction n generalizing k with
  | zero => simp only [Nat.pow_zero, Nat.lt_one_iff] at h; subst h; rfl
  | succ n ih =>
    rw [Nat.pow_succ] at h
    rw [toBytes, ofBytes_snoc, ih (Nat.div_lt_of_lt_mul (by omega)), UInt8.toNat_ofNat']
    omega

theorem toBytes_ofBytes (bs : List UInt8) : toBytes bs.length (ofBytes bs) = bs := by
  induction bs using List.reverseRecOn with
  | nil => rfl
  | append_singleton bs b ih =>
    have hb := b.toNat_lt
    rw [List.length_append, List.length_singleton, toBytes, ofBytes_snoc]
    rw [show (ofBytes bs * 256 + b.toNat) / 256 = ofBytes bs by omega, ih]
    congr 2
    apply UInt8.toNat_inj.1
    rw [UInt8.toNat_ofNat']; omega

/-- The bytes of a number are those of the number shifted. -/
theorem toBytes_get {n i k : ℕ} (hi : i < n) :
    (toBytes n k)[i]? = some (UInt8.ofNat (k >>> (8 * (n - 1 - i)))) := by
  induction n generalizing k with
  | zero => exact absurd hi (Nat.not_lt_zero i)
  | succ n ih =>
    rw [toBytes]
    rcases Nat.lt_succ_iff_lt_or_eq.1 hi with hlt | rfl
    · rw [List.getElem?_append_left (by rwa [toBytes_length]), ih hlt]
      rw [show k / 256 = k >>> 8 from (Nat.shiftRight_eq_div_pow k 8).symm, ← Nat.shiftRight_add]
      congr 4
      omega
    · rw [List.getElem?_append_right (by rw [toBytes_length]), toBytes_length, Nat.sub_self,
        Nat.add_sub_cancel, Nat.sub_self]
      rfl

/-- Two numbers of as many bytes differ in no others. -/
theorem xor_lt {n j k : ℕ} (hj : j < 256 ^ n) (hk : k < 256 ^ n) : j ^^^ k < 256 ^ n := by
  rw [show (256 : ℕ) = 2 ^ 8 from rfl, ← pow_mul] at hj hk ⊢
  exact Nat.xor_lt_two_pow hj hk

/-! ## What is at an offset -/

/-- The bytes of `chunk` from the offset `i` on begin with `bs`. -/
def At (chunk : List UInt8) (i : ℕ) (bs : List UInt8) : Prop := bs <+: chunk.drop i

instance (chunk : List UInt8) (i : ℕ) (bs : List UInt8) : Decidable (At chunk i bs) :=
  inferInstanceAs (Decidable (_ <+: _))

variable {chunk : List UInt8} {i : ℕ} {bs cs : List UInt8}

theorem at_append_iff : At chunk i (bs ++ cs) ↔ At chunk i bs ∧ At chunk (i + bs.length) cs := by
  unfold At
  rw [← List.drop_drop]
  constructor
  · rintro ⟨t, ht⟩
    rw [← ht, List.append_assoc]
    exact ⟨⟨_, rfl⟩, by rw [List.drop_left]; exact ⟨t, rfl⟩⟩
  · rintro ⟨⟨t, ht⟩, u, hu⟩
    rw [← ht, List.drop_left] at hu
    exact ⟨u, by rw [← ht, ← hu, List.append_assoc]⟩

theorem At.mid (pre bs post : List UInt8) : At (pre ++ (bs ++ post)) pre.length bs := by
  unfold At; rw [List.drop_left]; exact ⟨post, rfl⟩

theorem At.self (bs : List UInt8) : At bs 0 bs := List.prefix_refl bs

theorem At.take (h : At chunk i bs) : (chunk.drop i).take bs.length = bs :=
  (List.prefix_iff_eq_take.1 h).symm

theorem At.le (h : At chunk i bs) (hbs : bs ≠ []) : i + bs.length ≤ chunk.length := by
  have hlen := h.length_le
  have hpos := List.length_pos_iff.2 hbs
  rw [List.length_drop] at hlen
  omega

/-- What a longer string has at an offset it has from a prefix. -/
theorem At.mono {post : List UInt8} (h : At chunk i bs) : At (chunk ++ post) i bs := by
  unfold At
  rcases Nat.lt_or_ge chunk.length i with hi | hi
  · have hnil : bs = [] := by
      rw [At, List.drop_of_length_le hi.le] at h
      exact List.prefix_nil.1 h
    rw [hnil]; exact List.nil_prefix
  · rw [List.drop_append_of_le_length hi]
    exact h.trans (List.prefix_append ..)

theorem At.of_take {n : ℕ} (h : i + n ≤ chunk.length) :
    At chunk i ((chunk.drop i).take n) ∧ ((chunk.drop i).take n).length = n :=
  ⟨List.take_prefix .., by rw [List.length_take, List.length_drop]; omega⟩

/-! ## string.pack -/

/-- `pack(">In", …)` of the number `k`, which is the argument `arg` -/
def packI (arg n k : ℕ) : Lua (List UInt8) :=
  if k < 256 ^ n then .ok (toBytes n k)
  else .error (.raised s!"bad argument #{arg} to 'pack' (unsigned overflow)")

/-- `pack(">sn", s)` -/
def packS (n : ℕ) (s : List UInt8) : Lua (List UInt8) :=
  if s.length < 256 ^ n then .ok (toBytes n s.length ++ s)
  else .error (.raised "bad argument #2 to 'pack' (string length does not fit in given size)")

theorem packI_ok {arg n k : ℕ} {bs : List UInt8} (h : packI arg n k = .ok bs) :
    k < 256 ^ n ∧ bs = toBytes n k := by
  unfold packI at h
  split at h
  · exact ⟨‹_›, (Except.ok.inj h).symm⟩
  · cases h

/-! ## string.unpack -/

/-- A position of a string of length `len`: a negative one counts from the end. -/
def posrelat (pos : ℤ) (len : ℕ) : ℤ :=
  if 0 ≤ pos then pos else if (len : ℤ) < -pos then 0 else len + pos + 1

/-- Positions after the first are counted from the beginning. -/
@[simp] theorem posrelat_succ (i len : ℕ) : posrelat (i + 1) len = i + 1 := if_pos (by omega)

variable (chunk)

/-- The offset at which `string.unpack` begins. -/
def unpackAt (pos : ℤ) : Lua ℕ :=
  let i := posrelat pos chunk.length - 1
  if 0 ≤ i ∧ i ≤ chunk.length then .ok i.toNat
  else .error (.raised "bad argument #3 to 'unpack' (initial position out of string)")

def tooShort : Stop := .raised "bad argument #2 to 'unpack' (data string too short)"

/-- `unpack(">In", chunk, pos)` -/
def unpackI (n : ℕ) (pos : ℤ) : Lua (ℕ × ℤ) := do
  let i ← unpackAt chunk pos
  if i + n ≤ chunk.length then .ok (ofBytes ((chunk.drop i).take n), i + n + 1)
  else .error tooShort

/-- `unpack(">sn", chunk, pos)` -/
def unpackS (n : ℕ) (pos : ℤ) : Lua (List UInt8 × ℤ) := do
  let (k, pos) ← unpackI chunk n pos
  let i ← unpackAt chunk pos
  if i + k ≤ chunk.length then .ok ((chunk.drop i).take k, i + k + 1)
  else .error tooShort

variable {chunk} {pos : ℤ} {n : ℕ}

theorem unpackAt_eq (h : posrelat pos chunk.length = i + 1) (hi : i ≤ chunk.length) :
    unpackAt chunk pos = .ok i := by
  unfold unpackAt
  simp only [h, add_sub_cancel_right]
  rw [if_pos ⟨Int.natCast_nonneg i, Int.ofNat_le.2 hi⟩, Int.toNat_natCast]

theorem unpackAt_ok {i : ℕ} (h : unpackAt chunk pos = .ok i) :
    posrelat pos chunk.length = i + 1 ∧ i ≤ chunk.length := by
  unfold unpackAt at h
  dsimp only at h
  split at h
  · rename_i hi
    obtain rfl := Except.ok.inj h
    omega
  · cases h

/-- **What `>In` reads** at the offset `i`. -/
theorem unpackI_at (h : posrelat pos chunk.length = i + 1) (hbs : At chunk i bs)
    (hn : bs.length = n) (hpos : 0 < n) : unpackI chunk n pos = .ok (ofBytes bs, i + n + 1) := by
  have hle : i + n ≤ chunk.length := by
    have := hbs.le (by rintro rfl; simp at hn; omega)
    omega
  rw [unpackI, unpackAt_eq h (by omega)]
  simp only [bind, Except.bind]
  rw [if_pos hle, ← hn, hbs.take]

/-- A number that is read has its bytes in the string. -/
theorem unpackI_ok {k : ℕ} {left : ℤ} (h : unpackI chunk n pos = .ok (k, left)) :
    ∃ (i : ℕ) (bs : List UInt8), posrelat pos chunk.length = i + 1 ∧ At chunk i bs ∧ bs.length = n ∧
      i + n ≤ chunk.length ∧ k = ofBytes bs ∧ left = (i + n : ℕ) + 1 := by
  obtain ⟨i, hat, h⟩ := bind_eq_ok.1 h
  split at h
  · rename_i hle
    obtain ⟨rfl, rfl⟩ := Prod.mk.inj (Except.ok.inj h)
    obtain ⟨h1, h2⟩ := At.of_take hle
    exact ⟨i, _, (unpackAt_ok hat).1, h1, h2, hle, rfl, by push_cast; ring⟩
  · cases h

/-- `>In` reads a number of `n` bytes. -/
theorem unpackI_toBytes {k : ℕ} (hk : k < 256 ^ n) (hn : 0 < n) (h : At chunk i (toBytes n k)) :
    unpackI chunk n (i + 1) = .ok (k, (i + n : ℕ) + 1) := by
  rw [unpackI_at (posrelat_succ i _) h (toBytes_length n k) hn, ofBytes_toBytes hk]
  push_cast; rfl

/-- Where there are `n` bytes, `>In` reads a number. -/
theorem unpackI_some (h : i + n ≤ chunk.length) :
    ∃ k, unpackI chunk n (i + 1) = .ok (k, (i + n : ℕ) + 1) := by
  refine ⟨ofBytes ((chunk.drop i).take n), ?_⟩
  rw [unpackI, unpackAt_eq (posrelat_succ i _) (by omega)]
  simp only [bind, Except.bind]
  rw [if_pos h]
  push_cast; rfl

/-- A number that is read at the offset `i` has its bytes there. -/
theorem unpackI_succ {k : ℕ} {left : ℤ} (h : unpackI chunk n (i + 1) = .ok (k, left)) :
    k < 256 ^ n ∧ At chunk i (toBytes n k) ∧ i + n ≤ chunk.length ∧ left = (i + n : ℕ) + 1 := by
  obtain ⟨j, bs, hp, hb, rfl, hle, rfl, rfl⟩ := unpackI_ok h
  rw [posrelat_succ] at hp
  obtain rfl : i = j := by omega
  exact ⟨ofBytes_lt bs, by rwa [toBytes_ofBytes], hle, rfl⟩

theorem unpackAt_ends : Ends (unpackAt chunk pos) := by
  unfold unpackAt
  dsimp only
  split
  · exact .ok _
  · exact .raised _

theorem unpackI_ends : Ends (unpackI chunk n pos) :=
  unpackAt_ends.bind fun i _ => by
    split
    · exact .ok _
    · exact .raised _

theorem unpackS_ends : Ends (unpackS chunk n pos) :=
  unpackI_ends.bind fun _ _ => unpackAt_ends.bind fun i _ => by
    split
    · exact .ok _
    · exact .raised _

/-- **What `>sn` reads** at the offset `i`. -/
theorem unpackS_at (h : posrelat pos chunk.length = i + 1) (hbs : At chunk i (bs ++ cs))
    (hn : bs.length = n) (hpos : 0 < n) (hcs : cs.length = ofBytes bs) :
    unpackS chunk n pos = .ok (cs, i + n + cs.length + 1) := by
  obtain ⟨hb, hc⟩ := at_append_iff.1 hbs
  have hle : i + n + cs.length ≤ chunk.length := by
    have := hbs.le (by rintro h0; simp at h0; simp [h0.1] at hn; omega)
    rw [List.length_append] at this
    omega
  rw [hn] at hc
  rw [unpackS, unpackI_at h hb hn hpos]
  simp only [bind, Except.bind]
  have hp := posrelat_succ (i + n) chunk.length
  push_cast at hp
  rw [unpackAt_eq (i := i + n) (by push_cast; exact hp) (by omega)]
  simp only
  rw [if_pos (by omega), ← hcs, hc.take]
  push_cast; rfl

/-- `>sn` reads a string with its length in `n` bytes before it. -/
theorem unpackS_toBytes (hs : cs.length < 256 ^ n) (hn : 0 < n)
    (h : At chunk i (toBytes n cs.length ++ cs)) :
    unpackS chunk n (i + 1) = .ok (cs, (i + n + cs.length : ℕ) + 1) := by
  rw [unpackS_at (posrelat_succ i _) h (toBytes_length _ _) hn (ofBytes_toBytes hs).symm]
  push_cast; rfl

theorem unpackS_ok {s : List UInt8} {left : ℤ} (h : unpackS chunk n pos = .ok (s, left)) :
    ∃ (i : ℕ) (bs : List UInt8), posrelat pos chunk.length = i + 1 ∧ At chunk i (bs ++ s) ∧
      bs.length = n ∧ i + n + s.length ≤ chunk.length ∧ s.length = ofBytes bs ∧
      left = (i + n + s.length : ℕ) + 1 := by
  obtain ⟨⟨k, left'⟩, hI, h⟩ := bind_eq_ok.1 h
  obtain ⟨i, bs, hp, hb, hn, hle, rfl, rfl⟩ := unpackI_ok hI
  obtain ⟨j, hj, h⟩ := bind_eq_ok.1 h
  rw [unpackAt_eq (posrelat_succ (i + n) _) hle] at hj
  obtain rfl := Except.ok.inj hj
  split at h
  · rename_i hle'
    obtain ⟨rfl, rfl⟩ := Prod.mk.inj (Except.ok.inj h)
    obtain ⟨h1, h2⟩ := At.of_take hle'
    refine ⟨i, bs, hp, at_append_iff.2 ⟨hb, hn ▸ h1⟩, hn, by omega, h2, ?_⟩
    rw [h2]; push_cast; ring
  · cases h

/-- A string that is read at the offset `i` is there, with its length before it. -/
theorem unpackS_succ {s : List UInt8} {left : ℤ} (h : unpackS chunk n (i + 1) = .ok (s, left)) :
    s.length < 256 ^ n ∧ At chunk i (toBytes n s.length ++ s) ∧
      i + n + s.length ≤ chunk.length ∧ left = (i + n + s.length : ℕ) + 1 := by
  obtain ⟨j, bs, hp, hb, rfl, hle, hs, rfl⟩ := unpackS_ok h
  rw [posrelat_succ] at hp
  obtain rfl : i = j := by omega
  rw [hs]
  exact ⟨ofBytes_lt bs, by rwa [toBytes_ofBytes], hs ▸ hle, hs ▸ rfl⟩

end Levent.Lib
