/-
  `lua-bson.c`: the bytes that `bson.decode` reads for a value of each type.

  Where memory is the same in these bytes, the value is the same.
-/
import Levent.Bson.Readers

namespace Levent.Bson

open Lib

/-! ## The bytes of a value -/

/-- The bytes of a value of a type that always takes the same. -/
def fixedSize : UInt8 → Option ℕ
  | 1 | 9 | 17 | 18 => some 8
  | 8 => some 1
  | 7 => some 12
  | 16 => some 4
  | 255 | 127 | 10 => some 0
  | _ => none

/-- What these bytes are read as. -/
def fixedValue (bt : UInt8) (b : Bytes) : Value :=
  match bt with
  | 1 => .real (ofLe b)
  | 8 => .bool (b.headD 0 ≠ 0)
  | 9 => object 9 (leBytes 4 (unsigned 4 ((signed 8 (ofLe b)).tdiv 1000)))
  | 16 => .int (signed 4 (ofLe b))
  | 18 => .int (signed 8 (ofLe b))
  | bt => object bt b

/-- The value `v` of the type `bt` is in the first bytes of `t`, as many as the last number. -/
inductive Reads (mem : Mem) (elems : Reader → Bool → Read Fields) (t : Reader) : UInt8 → Value → ℕ → Prop
  | fixed {bt : UInt8} {k : ℕ} (hk : fixedSize bt = some k) (h : (k : ℤ) ≤ t.size) :
    Reads mem elems t bt (fixedValue bt (slice mem t.ptr k)) k
  | string {n : ℕ} (hn : signed 4 (ofLe (slice mem t.ptr 4)) = n + 1) (h : (n + 5 : ℤ) ≤ t.size) :
    Reads mem elems t 2 (.str (slice mem (t.ptr + 4) n)) (n + 5)
  | dict {bt : UInt8} {n : ℕ} {fs : Fields} (hbt : bt = 3 ∨ bt = 4)
    (hn : signed 4 (ofLe (slice mem t.ptr 4)) = n) (h5 : 5 ≤ n) (h : (n : ℤ) ≤ t.size)
    (hend : mem (t.ptr + n - 1) = 0) (hfs : (elems ⟨t.ptr + 4, n - 5⟩ (bt = 4)).result = .ok fs) :
    Reads mem elems t bt (.table fs) n
  | binary {n : ℕ} (hn : signed 4 (ofLe (slice mem t.ptr 4)) = n) (h : (n + 5 : ℤ) ≤ t.size) :
    Reads mem elems t 5 (object 5 (slice mem (t.ptr + 4) (n + 1))) (n + 5)
  | regex {r1 r2 : Bytes} (h1 : 0 ∉ r1) (h2 : 0 ∉ r2) (hr : Holds mem t.ptr (r1 ++ 0 :: r2 ++ [0]))
    (h : ((r1 ++ 0 :: r2 ++ [0]).length : ℤ) ≤ t.size) :
    Reads mem elems t 11 (object 11 (r1 ++ 0 :: r2 ++ [0])) (r1 ++ 0 :: r2 ++ [0]).length
  | raw {bt : UInt8} {c : ℤ} {n : ℕ} (hc : counted bt = some c)
    (hn : signed 4 (ofLe (slice mem t.ptr 4)) + c = n) (h4 : 4 ≤ t.size) (h : (n : ℤ) ≤ t.size) :
    Reads mem elems t bt (object bt (slice mem t.ptr n)) n

variable {mem mem' : Mem} {elems elems' : Reader → Bool → Read Fields} {t t' : Reader} {bt : UInt8}
  {v : Value} {k m fuel : ℕ} {hi : ℤ}

theorem Reads.le (h : Reads mem elems t bt v m) : (m : ℤ) ≤ t.size := by
  cases h with
  | string _ h => exact_mod_cast h
  | binary _ h => exact_mod_cast h
  | _ => assumption

theorem Reads.four_le (h : Reads mem elems t bt v m) (hc : counted bt ≠ none) : 4 ≤ t.size := by
  cases h with
  | fixed hk _ =>
    unfold fixedSize at hk
    split at hk
    all_goals first | exact (hc rfl).elim | cases hk
  | string => exact (hc rfl).elim
  | dict hbt =>
    rcases hbt with rfl | rfl <;> exact (hc rfl).elim
  | binary => exact (hc rfl).elim
  | regex => exact (hc rfl).elim
  | raw _ _ h4 _ => exact h4

theorem Reads.length_eq {c : ℤ} (h : Reads mem elems t bt v m) (hc : counted bt = some c) :
    signed 4 (ofLe (slice mem t.ptr 4)) + c = m := by
  cases h with
  | fixed hk _ =>
    unfold fixedSize at hk
    split at hk
    all_goals first | cases hc | cases hk
  | dict hbt =>
    rcases hbt with rfl | rfl <;> cases hc
  | raw hc' hn _ _ =>
    cases hc.symm.trans hc'
    exact hn
  | _ => cases hc

/-- A value of `k` bytes is read, in two steps. -/
theorem fixed_map_ok {α : Type} {f : Bytes → α} {g : α → Value} (ht : t.size ≤ INT_MAX) :
    ((readFixed mem t k >>= fun r => pure (f r.1, r.2)) >>= fun r => pure (g r.1, r.2) :
      Read (Value × Reader)).result = .ok (v, t') ↔
      (k : ℤ) ≤ t.size ∧ v = g (f (slice mem t.ptr k)) ∧ t' = t.drop k := by
  rw [Traced.result_bind_ok]
  constructor
  · rintro ⟨⟨a, r⟩, ha, h⟩
    obtain ⟨h1, -, rfl, rfl⟩ := readFixed_map_ok.1 ha
    cases h
    exact ⟨h1, rfl, rfl⟩
  · rintro ⟨h1, rfl, rfl⟩
    exact ⟨_, readFixed_map_ok.2 ⟨h1, by omega, rfl, rfl⟩, rfl⟩

theorem timestamp_ok (ht : t.size ≤ INT_MAX) : (unpackValue mem elems 17 t).result = .ok (v, t') ↔
    8 ≤ t.size ∧ v = object 17 (slice mem t.ptr 8) ∧ t' = t.drop 8 := by
  have hslice : slice mem t.ptr 8 = slice mem t.ptr 4 ++ slice mem (t.ptr + 4) 4 := slice_add mem t.ptr 4 4
  have hdrop : (t.drop 4).drop 4 = t.drop 8 := Reader.drop_drop t 4 4
  rw [hslice, ← hdrop]
  constructor
  · intro h
    obtain ⟨⟨inc, t1⟩, h1, h⟩ := Traced.result_bind_ok.1 h
    obtain ⟨-, -, hinc, ht1⟩ := readFixed_ok.1 h1
    obtain ⟨⟨ts, t2⟩, h2, h⟩ := Traced.result_bind_ok.1 h
    obtain ⟨h4, -, hts, ht2⟩ := readFixed_ok.1 h2
    cases h
    subst hinc hts ht1 ht2
    rw [Reader.drop_size] at h4
    push_cast at h4
    exact ⟨by omega, rfl, rfl⟩
  · rintro ⟨h8, rfl, rfl⟩
    have h1 : (readFixed mem t 4).result = .ok (slice mem t.ptr 4, t.drop 4) :=
      readFixed_ok.2 ⟨by push_cast; omega, by push_cast; omega, rfl, rfl⟩
    have h2 : (readFixed mem (t.drop 4) 4).result = .ok (slice mem (t.ptr + 4) 4, (t.drop 4).drop 4) := by
      refine readFixed_ok.2 ⟨?_, ?_, rfl, rfl⟩ <;> rw [Reader.drop_size] <;> push_cast <;> omega
    exact Traced.result_bind_ok.2 ⟨_, h1, Traced.result_bind_ok.2 ⟨_, h2, rfl⟩⟩

theorem empty_ok {w : Value} (h0 : 0 ≤ t.size) :
    (pure (w, t) : Read (Value × Reader)).result = .ok (v, t') ↔
      ((0 : ℕ) : ℤ) ≤ t.size ∧ v = w ∧ t' = t.drop (0 : ℕ) := by
  rw [Traced.result_pure, Except.ok.injEq, Prod.mk.injEq, eq_comm, @eq_comm _ t, Nat.cast_zero,
    Reader.drop_zero]
  exact ⟨fun h => ⟨h0, h⟩, fun h => h.2⟩

theorem fixed_ok (hk : fixedSize bt = some k) (h0 : 0 ≤ t.size) (ht : t.size ≤ INT_MAX) :
    (unpackValue mem elems bt t).result = .ok (v, t') ↔
      (k : ℤ) ≤ t.size ∧ v = fixedValue bt (slice mem t.ptr k) ∧ t' = t.drop k := by
  unfold fixedSize at hk
  split at hk
  · cases hk
    exact fixed_map_ok (f := ofLe) (g := Value.real) ht
  · cases hk
    exact fixed_map_ok (f := fun b => signed 8 (ofLe b))
      (g := fun date => object 9 (leBytes 4 (unsigned 4 (date.tdiv 1000)))) ht
  · cases hk
    exact timestamp_ok ht
  · cases hk
    exact fixed_map_ok (f := fun b => signed 8 (ofLe b)) (g := Value.int) ht
  · cases hk
    exact fixed_map_ok (f := fun b => b.headD 0) (g := fun b => Value.bool (b ≠ 0)) ht
  · -- an object id
    cases hk
    refine (readFixed_map_ok (f := object 7)).trans ⟨fun h => ⟨h.1, h.2.2⟩, fun h => ⟨h.1, ?_, h.2⟩⟩
    omega
  · cases hk
    exact fixed_map_ok (f := fun b => signed 4 (ofLe b)) (g := Value.int) ht
  · cases hk
    exact empty_ok h0
  · cases hk
    exact empty_ok h0
  · cases hk
    exact empty_ok h0
  · cases hk

theorem unpackValue_two {x p : ℤ} {t1 t2 : Reader} {s : Bytes} (hx : 0 < x)
    (h1 : (readInt32 mem t).result = .ok (x, t1)) (h2 : (readLength .string t1 x).result = .ok (p, t2))
    (h3 : (pushBytes mem 0 p (x - 1)).result = .ok s) :
    (unpackValue mem elems 2 t).result = .ok (.str s, t2) := by
  refine Traced.result_bind_ok.2 ⟨_, h1, ?_⟩
  dsimp only
  split
  · omega
  · exact Traced.result_bind_ok.2 ⟨_, h2, Traced.result_bind_ok.2 ⟨_, h3, rfl⟩⟩

theorem string_ok (ht : t.size ≤ INT_MAX) : (unpackValue mem elems 2 t).result = .ok (v, t') ↔
    ∃ n : ℕ, signed 4 (ofLe (slice mem t.ptr 4)) = n + 1 ∧ (n + 5 : ℤ) ≤ t.size ∧
      v = .str (slice mem (t.ptr + 4) n) ∧ t' = t.drop (n + 5 : ℕ) := by
  have hdrop : ∀ sz, (t.drop 4).drop (sz + Kind.string.adjust) = t.drop (sz - 1 + 5) := by
    intro sz
    rw [Reader.drop_drop, Kind.adjust]
    ring_nf
  constructor
  · intro h
    obtain ⟨⟨sz, t1⟩, h1, h⟩ := Traced.result_bind_ok.1 h
    obtain ⟨-, -, hsz, rfl⟩ := readInt32_ok.1 h1
    dsimp only at h
    split at h
    · cases h
    · rename_i hpos
      obtain ⟨⟨p, t2⟩, h2, h⟩ := Traced.result_bind_ok.1 h
      obtain ⟨-, hle, -, -, hp, rfl⟩ := readLength_ok.1 h2
      obtain ⟨s, h3, h⟩ := Traced.result_bind_ok.1 h
      obtain ⟨h0, hs⟩ := pushBytes_ok.1 h3
      cases h
      simp only [Reader.drop_size, Kind.adjust] at hle
      refine ⟨(sz - 1).toNat, by omega, by omega, ?_, ?_⟩
      · rw [hs, hp]
        rfl
      · rw [hdrop, Nat.cast_add, Int.toNat_of_nonneg h0]
        rfl
  · rintro ⟨n, hn, hle, rfl, rfl⟩
    have hmax : (5 : ℤ) < INT_MAX := by decide
    have h1 : (readInt32 mem t).result = .ok (n + 1, t.drop 4) :=
      readInt32_ok.2 ⟨by omega, by omega, hn.symm, rfl⟩
    have h2 : (readLength .string (t.drop 4) (n + 1)).result = .ok (t.ptr + 4, t.drop (n + 5 : ℕ)) := by
      refine readLength_ok.2 ⟨?_, ?_, ?_, ?_, rfl, ?_⟩
      iterate 4
        simp only [Kind.adjust, Reader.drop_size]
        omega
      rw [hdrop, add_sub_cancel_right]
      rfl
    have h3 : (pushBytes mem 0 (t.ptr + 4) ((n + 1 : ℤ) - 1)).result = .ok (slice mem (t.ptr + 4) n) := by
      rw [add_sub_cancel_right]
      exact pushBytes_ok.2 ⟨Int.natCast_nonneg n, rfl⟩
    exact unpackValue_two (by omega) h1 h2 h3

theorem binary_ok (ht : t.size ≤ INT_MAX) : (unpackValue mem elems 5 t).result = .ok (v, t') ↔
    ∃ n : ℕ, signed 4 (ofLe (slice mem t.ptr 4)) = n ∧ (n + 5 : ℤ) ≤ t.size ∧
      v = object 5 (slice mem (t.ptr + 4) (n + 1)) ∧ t' = t.drop (n + 5 : ℕ) := by
  have hdrop : ∀ sz, ((t.drop 4).drop 1).drop (sz + Kind.binary.adjust) = t.drop (sz + 5) := by
    intro sz
    rw [Reader.drop_drop, Reader.drop_drop, Kind.adjust]
    ring_nf
  have hptr : ((t.drop 4).drop 1).ptr = t.ptr + 4 + 1 := rfl
  have hsub : ∀ n, slice mem (t.ptr + 4) (n + 1) =
      (slice mem (t.drop 4).ptr 1).headD 0 :: slice mem (t.ptr + 4 + 1) n := by
    intro n
    rw [slice_one, slice_succ]
    rfl
  constructor
  · intro h
    obtain ⟨⟨sz, t1⟩, h1, h⟩ := Traced.result_bind_ok.1 h
    obtain ⟨-, -, hsz, rfl⟩ := readInt32_ok.1 h1
    obtain ⟨⟨subtype, t2⟩, h2, h⟩ := Traced.result_bind_ok.1 h
    obtain ⟨-, -, rfl, rfl⟩ := readByte_ok.1 h2
    obtain ⟨⟨p, t3⟩, h3, h⟩ := Traced.result_bind_ok.1 h
    obtain ⟨-, hle, -, -, hp, rfl⟩ := readLength_ok.1 h3
    obtain ⟨s, h4, h⟩ := Traced.result_bind_ok.1 h
    obtain ⟨h0, hs⟩ := pushBytes_ok.1 h4
    cases h
    simp only [Reader.drop_size, Kind.adjust] at hle
    refine ⟨sz.toNat, by omega, by omega, ?_, ?_⟩
    · rw [hsub, hs, hp, hptr]
    · rw [hdrop, Nat.cast_add, Int.toNat_of_nonneg h0]
      rfl
  · rintro ⟨n, hn, hle, rfl, rfl⟩
    have hmax : (5 : ℤ) < INT_MAX := by decide
    have h1 : (readInt32 mem t).result = .ok ((n : ℤ), t.drop 4) :=
      readInt32_ok.2 ⟨by omega, by omega, hn.symm, rfl⟩
    have h2 : (readByte mem (t.drop 4)).result = .ok (_, (t.drop 4).drop 1) :=
      readByte_ok.2 ⟨by rw [Reader.drop_size]; omega, by rw [Reader.drop_size]; omega, rfl, rfl⟩
    have h3 : (readLength .binary ((t.drop 4).drop 1) n).result =
        .ok (t.ptr + 4 + 1, t.drop (n + 5 : ℕ)) := by
      refine readLength_ok.2 ⟨?_, ?_, ?_, ?_, rfl, ?_⟩
      iterate 4
        simp only [Kind.adjust, Reader.drop_size]
        omega
      rw [hdrop]
      rfl
    have h4 : (pushBytes mem 3 (t.ptr + 4 + 1) n).result = .ok (slice mem (t.ptr + 4 + 1) n) :=
      pushBytes_ok.2 ⟨Int.natCast_nonneg n, rfl⟩
    rw [hsub]
    exact Traced.result_bind_ok.2 ⟨_, h1, Traced.result_bind_ok.2 ⟨_, h2, Traced.result_bind_ok.2 ⟨_, h3,
      Traced.result_bind_ok.2 ⟨_, h4, rfl⟩⟩⟩⟩

theorem regex_ok (ht : t.size ≤ INT_MAX) : (unpackValue mem elems 11 t).result = .ok (v, t') ↔
    ∃ r1 r2 : Bytes, 0 ∉ r1 ∧ 0 ∉ r2 ∧ Holds mem t.ptr (r1 ++ 0 :: r2 ++ [0]) ∧
      ((r1 ++ 0 :: r2 ++ [0]).length : ℤ) ≤ t.size ∧ v = object 11 (r1 ++ 0 :: r2 ++ [0]) ∧
      t' = t.drop (r1 ++ 0 :: r2 ++ [0]).length := by
  have hsplit : ∀ r1 r2 : Bytes, r1 ++ 0 :: r2 ++ [0] = (r1 ++ [0]) ++ (r2 ++ [0]) := by simp
  have hlen : ∀ r : Bytes, ((r ++ [0]).length : ℤ) = r.length + 1 := by simp
  have hdrop : ∀ r1 r2 : Bytes, (t.drop (r1.length + 1)).drop (r2.length + 1) =
      t.drop (r1 ++ 0 :: r2 ++ [0]).length := by
    intro r1 r2
    rw [Reader.drop_drop, hsplit, List.length_append, Nat.cast_add, hlen, hlen]
  constructor
  · intro h
    obtain ⟨⟨r1, t1⟩, h1, h⟩ := Traced.result_bind_ok.1 h
    obtain ⟨hz1, hr1, hle1, -, rfl⟩ := readCString_ok.1 h1
    obtain ⟨⟨r2, t2⟩, h2, h⟩ := Traced.result_bind_ok.1 h
    obtain ⟨hz2, hr2, hle2, -, rfl⟩ := readCString_ok.1 h2
    cases h
    rw [Reader.drop_size] at hle2
    refine ⟨r1, r2, hz1, hz2, ?_, ?_, rfl, hdrop r1 r2⟩
    · rw [hsplit, holds_append, hlen]
      exact ⟨hr1, hr2⟩
    · rw [hsplit, List.length_append, Nat.cast_add, hlen, hlen]
      omega
  · rintro ⟨r1, r2, hz1, hz2, hr, hle, rfl, rfl⟩
    rw [hsplit, holds_append, hlen] at hr
    rw [hsplit, List.length_append, Nat.cast_add, hlen, hlen] at hle
    have h1 : (readCString mem t).result = .ok (r1, t.drop (r1.length + 1)) :=
      readCString_ok.2 ⟨hz1, hr.1, by omega, by omega, rfl⟩
    have h2 : (readCString mem (t.drop (r1.length + 1))).result =
        .ok (r2, (t.drop (r1.length + 1)).drop (r2.length + 1)) := by
      refine readCString_ok.2 ⟨hz2, hr.2, ?_, ?_, rfl⟩ <;> rw [Reader.drop_size] <;> omega
    rw [← hdrop]
    exact Traced.result_bind_ok.2 ⟨_, h1, Traced.result_bind_ok.2 ⟨_, h2, rfl⟩⟩

theorem dict_ok {array : Bool} (helems : ∀ t array fs, (elems t array).result = .ok fs → 0 ≤ t.size)
    (ht : t.size ≤ INT_MAX) : (unpackDict mem elems t array).result = .ok (v, t') ↔
    ∃ (n : ℕ) (fs : Fields), signed 4 (ofLe (slice mem t.ptr 4)) = n ∧ 5 ≤ n ∧ (n : ℤ) ≤ t.size ∧
      mem (t.ptr + n - 1) = 0 ∧ (elems ⟨t.ptr + 4, n - 5⟩ array).result = .ok fs ∧ v = .table fs ∧
      t' = t.drop n := by
  rw [unpackDict_ok]
  constructor
  · rintro ⟨fs, sz, rfl, hsz, h4, -, -, -, hle, -, hend, hfs, rfl⟩
    have h0 : 0 ≤ sz - 5 := helems _ _ _ hfs
    lift sz to ℕ using by omega
    exact ⟨sz, fs, hsz.symm, by omega, hle, hend, hfs, rfl, rfl⟩
  · rintro ⟨n, fs, hn, h5, hle, hend, hfs, rfl, rfl⟩
    have hmax : (5 : ℤ) < INT_MAX := by decide
    exact ⟨fs, n, rfl, hn.symm, by omega, by omega, by omega, by omega, hle, by omega, hend, hfs, rfl⟩

/-- The types of which a value is read. -/
theorem type_cases (h : (unpackValue mem elems bt t).result = .ok (v, t')) :
    (∃ k, fixedSize bt = some k) ∨ bt = 2 ∨ (bt = 3 ∨ bt = 4) ∨ bt = 5 ∨ bt = 11 ∨
      ∃ c, counted bt = some c := by
  unfold unpackValue at h
  split at h
  all_goals first | exact Or.inl ⟨_, rfl⟩ | cases h | simp
  all_goals exact Or.inr ⟨_, rfl⟩

theorem reads_iff (helems : ∀ t array fs, (elems t array).result = .ok fs → 0 ≤ t.size) (h0 : 0 ≤ t.size)
    (ht : t.size ≤ INT_MAX) : (unpackValue mem elems bt t).result = .ok (v, t') ↔
    ∃ m : ℕ, Reads mem elems t bt v m ∧ t' = t.drop m := by
  constructor
  · intro h
    rcases type_cases h with ⟨k, hk⟩ | rfl | hbt | rfl | rfl | ⟨c, hc⟩
    · obtain ⟨hle, rfl, rfl⟩ := (fixed_ok hk h0 ht).1 h
      exact ⟨k, .fixed hk hle, rfl⟩
    · obtain ⟨n, hn, hle, rfl, rfl⟩ := (string_ok ht).1 h
      exact ⟨_, .string hn hle, rfl⟩
    · have h' : (unpackDict mem elems t (bt = 4)).result = .ok (v, t') := by
        rcases hbt with rfl | rfl <;> exact h
      obtain ⟨n, fs, hn, h5, hle, hend, hfs, rfl, rfl⟩ := (dict_ok helems ht).1 h'
      exact ⟨n, .dict hbt hn h5 hle hend hfs, rfl⟩
    · obtain ⟨n, hn, hle, rfl, rfl⟩ := (binary_ok ht).1 h
      exact ⟨_, .binary hn hle, rfl⟩
    · obtain ⟨r1, r2, hz1, hz2, hr, hle, rfl, rfl⟩ := (regex_ok ht).1 h
      exact ⟨_, .regex hz1 hz2 hr hle, rfl⟩
    · obtain ⟨n, hn, h4, hle, rfl, rfl⟩ := (counted_ok hc ht).1 h
      exact ⟨n, .raw hc hn.symm h4 hle, rfl⟩
  · rintro ⟨m, h, rfl⟩
    cases h with
    | fixed hk hle => exact (fixed_ok hk h0 ht).2 ⟨hle, rfl, rfl⟩
    | string hn hle => exact (string_ok ht).2 ⟨_, hn, hle, rfl, rfl⟩
    | dict hbt hn h5 hle hend hfs =>
      have h' := (dict_ok helems ht).2 ⟨_, _, hn, h5, hle, hend, hfs, rfl, rfl⟩
      rcases hbt with rfl | rfl <;> exact h'
    | binary hn hle => exact (binary_ok ht).2 ⟨_, hn, hle, rfl, rfl⟩
    | regex hz1 hz2 hr hle => exact (regex_ok ht).2 ⟨_, _, hz1, hz2, hr, hle, rfl, rfl⟩
    | raw hc hn h4 hle => exact (counted_ok hc ht).2 ⟨_, hn.symm, h4, hle, rfl, rfl⟩

theorem field_type (hk : fixedSize bt = some k) (hpos : 0 < k) :
    bt = 1 ∨ bt = 9 ∨ bt = 17 ∨ bt = 18 ∨ bt = 8 ∨ bt = 7 ∨ bt = 16 := by
  unfold fixedSize at hk
  split at hk
  all_goals first | (simp; done) | cases hk
  all_goals exact absurd hpos (lt_irrefl 0)

theorem Reads.size_eq (h : Reads mem elems t bt v m) (hk : fixedSize bt = some k) : m = k := by
  cases h with
  | fixed hk' _ => exact Option.some.inj (hk'.symm.trans hk)
  | dict hbt => rcases hbt with rfl | rfl <;> cases hk
  | raw hc _ _ _ =>
    unfold counted at hc
    split at hc
    all_goals first | cases hk | cases hc
  | _ => cases hk

theorem Reads.type_ne (h : Reads mem elems t bt v m) : bt ≠ 0 ∧ bt ≠ 240 ∧ bt ≠ 252 := by
  cases h with
  | fixed hk _ =>
    unfold fixedSize at hk
    split at hk
    all_goals first | decide | cases hk
  | dict hbt => rcases hbt with rfl | rfl <;> decide
  | raw hc _ _ _ =>
    unfold counted at hc
    split at hc
    all_goals first | decide | cases hc
  | _ => decide

/-! ## The same bytes -/

/-- A value is read from memory that is the same up to `hi`.  The length of a counted type is
    read also where the value takes less than its four bytes. -/
theorem Reads.congr (h : Reads mem elems t bt v m) (ha : Agree mem mem' t.ptr hi) (hm : t.ptr + m ≤ hi)
    (h4 : counted bt ≠ none → t.ptr + 4 ≤ hi)
    (helems : ∀ t' array fs, t.ptr ≤ t'.ptr → t'.ptr + t'.size ≤ hi → t'.size ≤ t.size →
      (elems t' array).result = .ok fs → (elems' t' array).result = .ok fs) :
    Reads mem' elems' t bt v m := by
  cases h with
  | fixed hk hle =>
    rw [← ha.slice le_rfl hm]
    exact .fixed hk hle
  | string hn hle =>
    push_cast at hm
    rw [← ha.slice (p := t.ptr + 4) (by omega) (by omega)]
    rw [← ha.slice (p := t.ptr) (n := 4) le_rfl (by push_cast; omega)] at hn
    exact .string hn hle
  | dict hbt hn h5 hle hend hfs =>
    rw [← ha.slice (p := t.ptr) (n := 4) le_rfl (by push_cast; omega)] at hn
    rw [← ha _ (by omega) (by omega)] at hend
    exact .dict hbt hn h5 hle hend (helems _ _ _ (by dsimp only; omega) (by dsimp only; omega)
      (by dsimp only; omega) hfs)
  | binary hn hle =>
    push_cast at hm
    rw [← ha.slice (p := t.ptr + 4) (by omega) (by push_cast; omega)]
    rw [← ha.slice (p := t.ptr) (n := 4) le_rfl (by push_cast; omega)] at hn
    exact .binary hn hle
  | regex hz1 hz2 hr hle => exact .regex hz1 hz2 (ha.holds le_rfl hm hr) hle
  | raw hc hn hsize hle =>
    have h4 := h4 (by rw [hc]; exact Option.some_ne_none _)
    rw [← ha.slice (p := t.ptr) (n := 4) le_rfl (by push_cast; omega)] at hn
    rw [← ha.slice le_rfl hm]
    exact .raw hc hn hsize hle

theorem elemsOf_size {array : Bool} {fs : Fields} (h : (elemsOf mem fuel t array).result = .ok fs) :
    0 ≤ t.size := by
  unfold elemsOf at h
  cases fuel with
  | zero => cases h
  | succ fuel =>
    unfold unpackElems at h
    split at h
    · omega
    · obtain ⟨⟨b, r⟩, hb, -⟩ := Traced.result_bind_ok.1 h
      have h1 := (readByte_ok.1 hb).1
      omega

/-- The elements are read from memory that is the same. -/
theorem unpackElems_congr : ∀ {fuel : ℕ} {t : Reader} {array : Bool} {fs fs' : Fields}, t.size ≤ INT_MAX →
    Agree mem mem' t.ptr (t.ptr + t.size) → (unpackElems mem fuel t array fs).result = .ok fs' →
    (unpackElems mem' fuel t array fs).result = .ok fs' := by
  intro fuel
  induction fuel with
  | zero =>
    intro t array fs fs' _ _ h
    cases h
  | succ fuel ih =>
    intro t array fs fs' ht ha h
    rw [unpackElems_ok ht] at h ⊢
    rcases h with h | ⟨h0, key, v, t', hz, hkey, hle, hv, h⟩
    · exact Or.inl h
    · have hsize : (t.drop (key.length + 2)).size ≤ INT_MAX := by
        rw [Reader.drop_size]
        omega
      have hsize0 : 0 ≤ (t.drop (key.length + 2)).size := by
        rw [Reader.drop_size]
        omega
      obtain ⟨m, hm, rfl⟩ := (reads_iff (fun _ _ _ => elemsOf_size) hsize0 hsize).1 hv
      have hmle := hm.le
      simp only [Reader.drop_size] at hmle hsize
      refine Or.inr ⟨h0, key, v, _, hz, ?_, hle, ?_, ih ?_ ?_ h⟩
      · refine ha.holds (by omega) ?_ hkey
        rw [List.length_append, List.length_singleton]
        push_cast
        omega
      · rw [ha t.ptr le_rfl (by omega)]
        refine (reads_iff (fun _ _ _ => elemsOf_size) hsize0 hsize).2 ⟨m, hm.congr
          (ha.mono (by rw [Reader.drop_ptr]; omega) (le_refl (t.ptr + t.size))) ?_ ?_ ?_, rfl⟩
        · rw [Reader.drop_ptr]
          omega
        · intro hc
          have := hm.four_le hc
          rw [Reader.drop_size] at this
          rw [Reader.drop_ptr]
          omega
        · intro t' array fs h1 h2 h3 h4
          rw [Reader.drop_ptr] at h1
          rw [Reader.drop_size] at h3
          exact ih (by omega) (ha.mono (by omega) h2) h4
      · simp only [Reader.drop_size]
        omega
      · refine ha.mono ?_ ?_ <;> simp only [Reader.drop_ptr, Reader.drop_size] <;> omega

end Levent.Bson
