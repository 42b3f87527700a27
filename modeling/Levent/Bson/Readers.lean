/-
  What the readers of `lua-bson.c` have read when they succeed, up to the loop over the
  elements of a document.
-/
import Levent.Bson.Bounds

namespace Levent.Bson

open Lib

/-! ## Readers that succeed -/

variable {mem : Mem} {br r t t' : Reader} {x y : ℤ} {k : ℕ}

theorem cint_ok : (cint x).result = .ok y ↔ -INT_MAX - 1 ≤ x ∧ x ≤ INT_MAX ∧ y = x := by
  rcases em (-INT_MAX - 1 ≤ x ∧ x ≤ INT_MAX) with h | h
  · rw [cint, if_pos h, Traced.result_pure, Except.ok.injEq, eq_comm]
    simp [h]
  · rw [cint, if_neg h]
    constructor
    · intro h'
      cases h'
    · rintro ⟨h0, h1, -⟩
      exact (h ⟨h0, h1⟩).elim

theorem advance_ok : (br.advance x).result = .ok r ↔
    -INT_MAX - 1 ≤ br.size - x ∧ br.size - x ≤ INT_MAX ∧ r = br.drop x := by
  unfold Reader.advance
  rw [Traced.result_bind_ok]
  constructor
  · rintro ⟨z, hz, h⟩
    obtain ⟨h0, h1, rfl⟩ := cint_ok.1 hz
    cases h
    exact ⟨h0, h1, rfl⟩
  · rintro ⟨h0, h1, rfl⟩
    exact ⟨_, cint_ok.2 ⟨h0, h1, rfl⟩, rfl⟩

theorem checkReader_ok {u : Unit} : (checkReader br x).result = .ok u ↔ x ≤ br.size := by
  unfold checkReader
  split
  · rename_i h
    constructor
    · intro h'
      cases h'
    · intro h'
      omega
  · rename_i h
    exact iff_of_true rfl (by omega)

theorem load_ok {p : ℤ} {s : Bytes} : (load mem p k).result = .ok s ↔ s = slice mem p k := by
  constructor
  · intro h
    cases h
    rfl
  · rintro rfl
    rfl

theorem readFixed_ok {b : Bytes} : (readFixed mem br k).result = .ok (b, r) ↔
    (k : ℤ) ≤ br.size ∧ br.size - k ≤ INT_MAX ∧ b = slice mem br.ptr k ∧ r = br.drop k := by
  have h0 : (0 : ℤ) ≤ INT_MAX := by decide
  unfold readFixed
  rw [Traced.result_bind_ok]
  constructor
  · rintro ⟨u, hu, h⟩
    have hk := checkReader_ok.1 hu
    obtain ⟨b', hb, h⟩ := Traced.result_bind_ok.1 h
    obtain rfl := load_ok.1 hb
    obtain ⟨r', hr, h⟩ := Traced.result_bind_ok.1 h
    obtain ⟨-, h1, rfl⟩ := advance_ok.1 hr
    cases h
    exact ⟨hk, h1, rfl, rfl⟩
  · rintro ⟨hk, h1, rfl, rfl⟩
    refine ⟨(), checkReader_ok.2 hk, Traced.result_bind_ok.2 ⟨_, load_ok.2 rfl, ?_⟩⟩
    exact Traced.result_bind_ok.2 ⟨_, advance_ok.2 ⟨by omega, h1, rfl⟩, rfl⟩

/-- A value of `k` bytes is read. -/
theorem readFixed_map_ok {α : Type} {f : Bytes → α} {a : α} :
    (readFixed mem br k >>= fun r => pure (f r.1, r.2) : Read (α × Reader)).result = .ok (a, r) ↔
      (k : ℤ) ≤ br.size ∧ br.size - k ≤ INT_MAX ∧ a = f (slice mem br.ptr k) ∧ r = br.drop k := by
  rw [Traced.result_bind_ok]
  constructor
  · rintro ⟨⟨b, r'⟩, hb, h⟩
    obtain ⟨h1, h2, rfl, rfl⟩ := readFixed_ok.1 hb
    cases h
    exact ⟨h1, h2, rfl, rfl⟩
  · rintro ⟨h1, h2, rfl, rfl⟩
    exact ⟨_, readFixed_ok.2 ⟨h1, h2, rfl, rfl⟩, rfl⟩

theorem readByte_ok {b : UInt8} : (readByte mem br).result = .ok (b, r) ↔
    1 ≤ br.size ∧ br.size - 1 ≤ INT_MAX ∧ b = (slice mem br.ptr 1).headD 0 ∧ r = br.drop 1 :=
  readFixed_map_ok (k := 1) (f := fun b => b.headD 0)

theorem readInt32_ok : (readInt32 mem br).result = .ok (x, r) ↔
    4 ≤ br.size ∧ br.size - 4 ≤ INT_MAX ∧ x = signed 4 (ofLe (slice mem br.ptr 4)) ∧ r = br.drop 4 :=
  readFixed_map_ok (k := 4) (f := fun b => signed 4 (ofLe b))

theorem readBytes_ok : (readBytes br x).result = .ok (y, r) ↔
    x ≤ br.size ∧ br.size - x ≤ INT_MAX ∧ y = br.ptr ∧ r = br.drop x := by
  have h0 : (0 : ℤ) ≤ INT_MAX := by decide
  unfold readBytes
  rw [Traced.result_bind_ok]
  constructor
  · rintro ⟨u, hu, h⟩
    have hk := checkReader_ok.1 hu
    obtain ⟨r', hr, h⟩ := Traced.result_bind_ok.1 h
    obtain ⟨-, h1, rfl⟩ := advance_ok.1 hr
    cases h
    exact ⟨hk, h1, rfl, rfl⟩
  · rintro ⟨hk, h1, rfl, rfl⟩
    exact ⟨(), checkReader_ok.2 hk, Traced.result_bind_ok.2 ⟨_, advance_ok.2 ⟨by omega, h1, rfl⟩, rfl⟩⟩

theorem readLength_ok {kind : Kind} {sz : ℤ} : (readLength kind br sz).result = .ok (y, r) ↔
    -INT_MAX - 1 ≤ sz + kind.adjust ∧ sz + kind.adjust ≤ br.size ∧ sz + kind.adjust ≤ INT_MAX ∧
      br.size - (sz + kind.adjust) ≤ INT_MAX ∧ y = br.ptr ∧ r = br.drop (sz + kind.adjust) := by
  unfold readLength
  rw [Traced.result_bind_ok]
  constructor
  · rintro ⟨u, -, h⟩
    obtain ⟨z, hz, h⟩ := Traced.result_bind_ok.1 h
    obtain ⟨h0, h1, rfl⟩ := cint_ok.1 hz
    obtain ⟨h2, h3, rfl, rfl⟩ := readBytes_ok.1 h
    exact ⟨h0, h2, h1, h3, rfl, rfl⟩
  · rintro ⟨h0, h2, h1, h3, rfl, rfl⟩
    refine ⟨(), rfl, Traced.result_bind_ok.2 ⟨_, cint_ok.2 ⟨h0, h1, rfl⟩, ?_⟩⟩
    exact readBytes_ok.2 ⟨h2, h3, rfl, rfl⟩

theorem pushBytes_ok {used : ℕ} {p sz : ℤ} {s : Bytes} :
    (pushBytes mem used p sz).result = .ok s ↔ 0 ≤ sz ∧ s = slice mem p sz.toNat := by
  unfold pushBytes
  split
  · rename_i h
    constructor
    · intro h'
      cases h'
    · rintro ⟨h', -⟩
      omega
  · rename_i h
    rw [load_ok]
    simp only [show 0 ≤ sz by omega, true_and]

theorem makeObject_ok {p sz : ℤ} {type : UInt8} {v : Value} :
    (makeObject mem type p sz).result = .ok v ↔ 0 ≤ sz ∧ v = object type (slice mem p sz.toNat) := by
  unfold makeObject
  rw [Traced.result_bind_ok]
  constructor
  · rintro ⟨s, hs, h⟩
    obtain ⟨h0, rfl⟩ := pushBytes_ok.1 hs
    cases h
    exact ⟨h0, rfl⟩
  · rintro ⟨h0, rfl⟩
    exact ⟨_, pushBytes_ok.2 ⟨h0, rfl⟩, rfl⟩

theorem cstringLen_ok {p : ℤ} {i n j : ℕ} : (cstringLen mem p i n).result = .ok j ↔
    i ≤ j ∧ j < i + n ∧ mem (p + j) = 0 ∧ ∀ l, i ≤ l → l < j → mem (p + l) ≠ 0 := by
  induction n generalizing i with
  | zero =>
    constructor
    · intro h
      cases h
    · rintro ⟨h1, h2, -⟩
      omega
  | succ n ih =>
    unfold cstringLen
    rw [Traced.result_bind_ok]
    constructor
    · rintro ⟨b, hb, h⟩
      obtain rfl := load_ok.1 hb
      rw [slice_one] at h
      split at h
      · rename_i h0
        cases h
        refine ⟨le_rfl, by omega, List.head_eq_of_cons_eq h0, fun l h1 h2 => by omega⟩
      · rename_i h0
        obtain ⟨h1, h2, h3, h4⟩ := ih.1 h
        refine ⟨by omega, by omega, h3, fun l hl hlj => ?_⟩
        rcases Nat.eq_or_lt_of_le hl with rfl | hl
        · intro hz
          exact h0 (congrArg (fun b => [b]) hz)
        · exact h4 l hl hlj
    · rintro ⟨h1, h2, h3, h4⟩
      refine ⟨_, load_ok.2 rfl, ?_⟩
      rw [slice_one]
      rcases Nat.eq_or_lt_of_le h1 with rfl | hlt
      · rw [h3, if_pos rfl]
        rfl
      · rw [if_neg]
        · exact ih.2 ⟨hlt, by omega, h3, fun l hl => h4 l (by omega)⟩
        · intro h0
          exact h4 i le_rfl hlt (List.head_eq_of_cons_eq h0)

theorem zero_notMem_slice {p : ℤ} {j : ℕ} : 0 ∉ slice mem p j ↔ ∀ l, l < j → mem (p + l) ≠ 0 := by
  simp only [slice, List.mem_map, List.mem_range, not_exists, not_and]

theorem readCString_ok {s : Bytes} : (readCString mem br).result = .ok (s, r) ↔
    0 ∉ s ∧ Holds mem br.ptr (s ++ [0]) ∧ (s.length : ℤ) + 1 ≤ br.size ∧
      br.size - (s.length + 1) ≤ INT_MAX ∧ r = br.drop (s.length + 1) := by
  have h0 : (0 : ℤ) ≤ INT_MAX := by decide
  unfold readCString
  split
  · rename_i hneg
    constructor
    · intro h
      cases h
    · rintro ⟨-, -, h, -⟩
      omega
  · rename_i hneg
    rw [Traced.result_bind_ok]
    constructor
    · rintro ⟨j, hj, h⟩
      obtain ⟨-, hlt, hz, hnz⟩ := cstringLen_ok.1 hj
      obtain ⟨r', hr, h⟩ := Traced.result_bind_ok.1 h
      obtain ⟨-, h1, rfl⟩ := advance_ok.1 hr
      cases h
      rw [slice_length]
      refine ⟨zero_notMem_slice.2 fun l => hnz l l.zero_le, ?_, by omega, h1, rfl⟩
      refine holds_append.2 ⟨holds_slice, holds_cons.2 ⟨?_, Holds.nil⟩⟩
      rwa [slice_length]
    · rintro ⟨hs, hh, h1, h2, rfl⟩
      obtain ⟨hh, hz⟩ := holds_append.1 hh
      refine ⟨s.length, cstringLen_ok.2 ⟨Nat.zero_le _, by omega, (holds_cons.1 hz).1, ?_⟩, ?_⟩
      · intro l _ hl
        rw [← hh.slice, zero_notMem_slice] at hs
        exact hs l hl
      · refine Traced.result_bind_ok.2 ⟨_, advance_ok.2 ⟨by omega, h2, rfl⟩, ?_⟩
        rw [hh.slice]
        rfl

/-! ## Values that succeed -/

theorem unpackDict_ok {elems : Reader → Bool → Read Fields} {array : Bool} {v : Value} :
    (unpackDict mem elems br array).result = .ok (v, r) ↔ ∃ fs sz, v = .table fs ∧
      sz = signed 4 (ofLe (slice mem br.ptr 4)) ∧ 4 ≤ br.size ∧ br.size - 4 ≤ INT_MAX ∧
      -INT_MAX - 1 ≤ sz - 5 ∧ sz - 5 ≤ INT_MAX ∧ sz ≤ br.size ∧ br.size - sz + 1 ≤ INT_MAX ∧
      mem (br.ptr + sz - 1) = 0 ∧ (elems ⟨br.ptr + 4, sz - 5⟩ array).result = .ok fs ∧ r = br.drop sz := by
  have hdrop : ∀ sz, ((br.drop 4).drop (sz + Kind.document.adjust)).drop 1 = br.drop sz := by
    intro sz
    simp only [Reader.drop_drop, Kind.adjust]
    ring_nf
  have hend : ∀ sz, ((br.drop 4).drop (sz + Kind.document.adjust)).ptr = br.ptr + sz - 1 := by
    intro sz
    simp only [Reader.drop_ptr, Kind.adjust]
    ring
  unfold unpackDict
  rw [Traced.result_bind_ok]
  constructor
  · rintro ⟨⟨sz, t⟩, hsz, h⟩
    obtain ⟨h1, h2, rfl, rfl⟩ := readInt32_ok.1 hsz
    obtain ⟨⟨p, t⟩, hp, h⟩ := Traced.result_bind_ok.1 h
    obtain ⟨h3, h4, h5, h6, rfl, rfl⟩ := readLength_ok.1 hp
    obtain ⟨⟨e, t⟩, he, h⟩ := Traced.result_bind_ok.1 h
    obtain ⟨h7, h8, rfl, rfl⟩ := readByte_ok.1 he
    dsimp only at h
    rw [hend, hdrop, slice_one] at h
    split at h
    · cases h
    · rename_i hz
      obtain ⟨fs, hfs, h⟩ := Traced.result_bind_ok.1 h
      cases h
      simp only [Kind.adjust, Reader.drop_size] at h3 h4 h5 h6 h7
      exact ⟨fs, _, rfl, rfl, h1, h2, by omega, by omega, by omega, by omega, not_not.1 hz, hfs, rfl⟩
  · rintro ⟨fs, sz, rfl, hsz, h1, h2, h3, h4, h5, h6, hz, hfs, rfl⟩
    refine ⟨_, readInt32_ok.2 ⟨h1, h2, hsz, rfl⟩, Traced.result_bind_ok.2 ⟨_, readLength_ok.2
      ⟨?_, ?_, ?_, ?_, rfl, rfl⟩, Traced.result_bind_ok.2 ⟨_, readByte_ok.2 ⟨?_, ?_, rfl, rfl⟩, ?_⟩⟩⟩
    iterate 6
      simp only [Kind.adjust, Reader.drop_size]
      omega
    dsimp only
    rw [hend, hdrop, slice_one, List.headD_cons, if_neg (not_not.2 hz)]
    exact Traced.result_bind_ok.2 ⟨fs, hfs, rfl⟩

theorem tail_length {s : Bytes} {p : ℤ} {n : ℕ} (h : s = slice mem p n) : s.length = n := by
  rw [h, slice_length]

/-- How much longer than the number they begin with the bytes of a type are, for the types
    that are kept with their length. -/
def counted : UInt8 → Option ℤ
  | 12 => some 16
  | 13 | 14 => some 4
  | 15 => some 0
  | _ => none

theorem rawObject_ok {type : UInt8} {p : ℤ} {v : Value} (hx : x ≤ INT_MAX) :
    (cint x >>= fun z => makeObject mem type p z >>= fun v => pure (v, t) : Read (Value × Reader)).result =
      .ok (v, t') ↔ 0 ≤ x ∧ v = object type (slice mem p x.toNat) ∧ t' = t := by
  rw [Traced.result_bind_ok]
  constructor
  · rintro ⟨z, hz, h⟩
    obtain ⟨-, -, rfl⟩ := cint_ok.1 hz
    obtain ⟨w, hw, h⟩ := Traced.result_bind_ok.1 h
    obtain ⟨h0, rfl⟩ := makeObject_ok.1 hw
    cases h
    exact ⟨h0, rfl, rfl⟩
  · rintro ⟨h0, rfl, rfl⟩
    have h2 : (0 : ℤ) ≤ INT_MAX := by decide
    exact ⟨_, cint_ok.2 ⟨by omega, hx, rfl⟩, Traced.result_bind_ok.2 ⟨_, makeObject_ok.2 ⟨h0, rfl⟩, rfl⟩⟩

/-- An element that is kept with its length, where `K` makes the object. -/
theorem readRaw_ok (kind : Kind) {c : ℤ} {bt : UInt8} {v : Value} {K : ℤ → Reader → Read (Value × Reader)}
    (hc : kind.adjust + 4 = c) (ht : t.size ≤ INT_MAX)
    (hK : ∀ sz r, sz + c ≤ INT_MAX → ((K sz r).result = .ok (v, t') ↔
      0 ≤ sz + c ∧ v = object bt (slice mem t.ptr (sz + c).toNat) ∧ t' = r)) :
    (readInt32 mem t >>= fun a => readLength kind a.2 a.1 >>= fun b => K a.1 b.2).result = .ok (v, t') ↔
      ∃ n : ℕ, n = signed 4 (ofLe (slice mem t.ptr 4)) + c ∧ 4 ≤ t.size ∧ n ≤ t.size ∧
        v = object bt (slice mem t.ptr n) ∧ t' = t.drop n := by
  have hdrop : ∀ sz, (t.drop 4).drop (sz + kind.adjust) = t.drop (sz + c) := by
    intro sz
    rw [Reader.drop_drop, ← hc]
    ring_nf
  rw [Traced.result_bind_ok]
  constructor
  · rintro ⟨⟨sz, t1⟩, hsz, h⟩
    obtain ⟨h4, -, hsz', rfl⟩ := readInt32_ok.1 hsz
    obtain ⟨⟨p, t2⟩, hp, h⟩ := Traced.result_bind_ok.1 h
    obtain ⟨-, hle, -, -, -, rfl⟩ := readLength_ok.1 hp
    dsimp only [Reader.drop_size] at hle h
    rw [hdrop] at h
    obtain ⟨h0, rfl, rfl⟩ := (hK sz _ (by omega)).1 h
    refine ⟨(sz + c).toNat, ?_, h4, by omega, rfl, ?_⟩
    · rw [Int.toNat_of_nonneg h0, hsz']
    · rw [Int.toNat_of_nonneg h0]
  · rintro ⟨n, hn, h4, hle, rfl, rfl⟩
    refine ⟨_, readInt32_ok.2 ⟨h4, by omega, rfl, rfl⟩, Traced.result_bind_ok.2 ⟨_, readLength_ok.2
      ⟨?_, ?_, ?_, ?_, rfl, rfl⟩, ?_⟩⟩
    iterate 4
      have h0 : (4 : ℤ) < INT_MAX := by decide
      dsimp only [Reader.drop_size]
      omega
    dsimp only
    rw [hdrop]
    refine (hK _ _ (by omega)).2 ⟨by omega, ?_, ?_⟩
    · rw [← hn, Int.toNat_natCast]
    · rw [← hn]

/-- A type that is kept with its length takes the bytes that it makes. -/
theorem counted_ok {elems : Reader → Bool → Read Fields} {bt : UInt8} {c : ℤ} {v : Value}
    (hc : counted bt = some c) (ht : t.size ≤ INT_MAX) :
    (unpackValue mem elems bt t).result = .ok (v, t') ↔
      ∃ n : ℕ, n = signed 4 (ofLe (slice mem t.ptr 4)) + c ∧ 4 ≤ t.size ∧ n ≤ t.size ∧
        v = object bt (slice mem t.ptr n) ∧ t' = t.drop n := by
  unfold counted at hc
  split at hc
  · cases hc
    exact readRaw_ok .dbpointer (K := fun sz r => cint (sz + 16) >>= fun z =>
      makeObject mem 12 t.ptr z >>= fun v => pure (v, r)) rfl ht fun sz r hx => rawObject_ok hx
  · cases hc
    exact readRaw_ok .code (K := fun sz r => cint (sz + 4) >>= fun z =>
      makeObject mem 13 t.ptr z >>= fun v => pure (v, r)) rfl ht fun sz r hx => rawObject_ok hx
  · cases hc
    exact readRaw_ok .code (K := fun sz r => cint (sz + 4) >>= fun z =>
      makeObject mem 14 t.ptr z >>= fun v => pure (v, r)) rfl ht fun sz r hx => rawObject_ok hx
  · cases hc
    refine readRaw_ok .codews (K := fun sz r => makeObject mem 15 t.ptr sz >>= fun v =>
      pure (v, r)) rfl ht fun sz r _ => ?_
    rw [Traced.result_bind_ok, add_zero]
    constructor
    · rintro ⟨w, hw, h⟩
      obtain ⟨h0, rfl⟩ := makeObject_ok.1 hw
      cases h
      exact ⟨h0, rfl, rfl⟩
    · rintro ⟨h0, rfl, rfl⟩
      exact ⟨_, makeObject_ok.2 ⟨h0, rfl⟩, rfl⟩
  · cases hc

/-! ## Documents that succeed -/

variable {fs fs' : Fields} {array : Bool} {fuel : ℕ}

/-- The loop over the elements. -/
def elemsOf (mem : Mem) (fuel : ℕ) (t : Reader) (array : Bool) : Read Fields := unpackElems mem fuel t array .nil

theorem unpackElems_ok (ht : t.size ≤ INT_MAX) : (unpackElems mem (fuel + 1) t array fs).result = .ok fs' ↔
    t.size = 0 ∧ fs' = fs ∨ t.size ≠ 0 ∧ ∃ key v t', 0 ∉ key ∧ Holds mem (t.ptr + 1) (key ++ [0]) ∧
      (key.length : ℤ) + 2 ≤ t.size ∧
      (unpackValue mem (elemsOf mem fuel) (mem t.ptr) (t.drop (key.length + 2))).result = .ok (v, t') ∧
      (unpackElems mem fuel t' array (fs.set (elementKey array key) v)).result = .ok fs' := by
  have hdrop : ∀ key : Bytes, (t.drop 1).drop (key.length + 1) = t.drop (key.length + 2) := by
    intro key
    rw [Reader.drop_drop]
    ring_nf
  rw [unpackElems]
  split
  · rename_i h0
    constructor
    · intro h
      cases h
      exact Or.inl ⟨h0, rfl⟩
    · rintro (⟨-, rfl⟩ | ⟨h, -⟩)
      · rfl
      · exact (h h0).elim
  · rename_i h0
    rw [Traced.result_bind_ok]
    constructor
    · rintro ⟨⟨bt, t1⟩, hbt, h⟩
      obtain ⟨-, -, hb, rfl⟩ := readByte_ok.1 hbt
      obtain ⟨⟨key, t2⟩, hkey, h⟩ := Traced.result_bind_ok.1 h
      obtain ⟨hz, hk, hle, -, rfl⟩ := readCString_ok.1 hkey
      obtain ⟨⟨v, t3⟩, hv, h⟩ := Traced.result_bind_ok.1 h
      rw [hb, slice_one, List.headD_cons, hdrop] at hv
      rw [Reader.drop_size] at hle
      exact Or.inr ⟨h0, key, v, t3, hz, hk, by omega, hv, h⟩
    · rintro (⟨h, -⟩ | ⟨-, key, v, t', hz, hk, hle, hv, h⟩)
      · exact (h0 h).elim
      · refine ⟨_, readByte_ok.2 ⟨by omega, by omega, rfl, rfl⟩, Traced.result_bind_ok.2 ⟨_,
          readCString_ok.2 ⟨hz, hk, ?_, ?_, rfl⟩, Traced.result_bind_ok.2 ⟨(v, t'), ?_, h⟩⟩⟩
        · rw [Reader.drop_size]
          omega
        · rw [Reader.drop_size]
          omega
        · rw [slice_one, List.headD_cons, hdrop]
          exact hv

end Levent.Bson
