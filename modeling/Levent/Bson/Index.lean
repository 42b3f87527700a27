/-
  `lua-bson.c`: `makeindex` of a block.

  The index has the type and the offset of each field: an element of a type that always
  takes the same bytes.
-/
import Levent.Bson.Elements

namespace Levent.Bson

open Lib

/-! ## The index -/

def BSON_TYPE_SHIFT : ℕ := 5

section
variable (mem : Mem)

/-- The cases of `lmakeindex`: `field_size`, and the reader after what is skipped. -/
def skipValue (bt : UInt8) (br : Reader) : Read (ℕ × Reader) :=
  match bt with
  | 18 | 17 | 9 | 1 => pure (8, br)
  | 8 => pure (1, br)
  | 13 | 14 | 2 => do
    let (sz, br) ← readInt32 mem br
    let (_, br) ← readBytes br sz
    pure (0, br)
  | 15 | 4 | 3 => do
    let (sz, br) ← readInt32 mem br
    let (_, br) ← readBytes br (← cint (sz - 4))
    pure (0, br)
  | 5 => do
    let (sz, br) ← readInt32 mem br
    let (_, br) ← readBytes br (← cint (sz + 1))
    pure (0, br)
  | 7 => pure (12, br)
  | 255 | 127 | 10 => pure (0, br)
  | 11 => do
    let (_, br) ← readCString mem br
    let (_, br) ← readCString mem br
    pure (0, br)
  | 16 => pure (4, br)
  | 12 => do
    let (sz, br) ← readInt32 mem br
    let (_, br) ← readBytes br (← cint (sz + 12))
    pure (0, br)
  | bt => .stop (.error s!"Invalid bson type : {bt.toNat}")

/-- `bt | (int)(br.ptr - start) << BSON_TYPE_SHIFT`.  To shift a number below 0, or into the
    sign, is undefined. -/
def fieldId (bt : UInt8) (off : ℤ) : Read ℤ := do
  if off < 0 then .stop .undefined
  let x ← cint (off * 2 ^ BSON_TYPE_SHIFT)
  pure (bt.toNat ||| x.toNat : ℕ)

/-- The loop of `lmakeindex` over the elements in `br`. -/
def indexElems : ℕ → Reader → Fields → Read Fields
  | 0, _, _ => .stop .unfinished
  | fuel + 1, br, index =>
    if br.size = 0 then pure index
    else do
      let (bt, br) ← readByte mem br
      let (key, br) ← readCString mem br
      let (size, br) ← skipValue mem bt br
      if size > 0 then
        let id ← fieldId bt br.ptr
        let (_, br) ← readBytes br size
        indexElems fuel br (index.set (.str key) (.int id))
      else indexElems fuel br index

/-- `lmakeindex`: the table that is kept with the block. -/
def lmakeindex (fuel : ℕ) : Read Fields := do
  let b ← load mem 0 4
  let size ← cint (signed 4 (ofLe b) - 5)
  indexElems mem fuel ⟨4, size⟩ .nil

end

variable {mem : Mem} {elems : Reader → Bool → Read Fields} {t : Reader} {bt : UInt8} {v : Value}
  {m fuel : ℕ}

/-! ## What `makeindex` skips -/

/-- The bytes after a length are skipped. -/
theorem readBytes_rest {x : ℤ} (ht : t.size ≤ INT_MAX) (hx : 4 + x = m) (hm : (m : ℤ) ≤ t.size) :
    (readBytes (t.drop 4) x).result = .ok ((t.drop 4).ptr, t.drop m) := by
  refine readBytes_ok.2 ⟨?_, ?_, rfl, ?_⟩
  · rw [Reader.drop_size]
    omega
  · rw [Reader.drop_size]
    omega
  · rw [Reader.drop_drop, hx]

theorem skip_length {x : ℤ} {f : ℤ → Read ℤ} (ht : t.size ≤ INT_MAX) (h4 : 4 ≤ t.size)
    (hf : (f (signed 4 (ofLe (slice mem t.ptr 4)))).result = .ok x) (hx : 4 + x = m)
    (hm : (m : ℤ) ≤ t.size) :
    (readInt32 mem t >>= fun a => f a.1 >>= fun z => readBytes a.2 z >>= fun b => pure (0, b.2) :
      Read (ℕ × Reader)).result = .ok (0, t.drop m) :=
  Traced.result_bind_ok.2 ⟨_, readInt32_ok.2 ⟨h4, by omega, rfl, rfl⟩, Traced.result_bind_ok.2 ⟨x, hf,
    Traced.result_bind_ok.2 ⟨_, readBytes_rest ht hx hm, rfl⟩⟩⟩

/-- `makeindex` finds the same bytes for a value as `bson.decode`; those of a field it leaves
    to its loop. -/
theorem Reads.skip (h : Reads mem elems t bt v m) (ht : t.size ≤ INT_MAX) :
    (skipValue mem bt t).result = .ok (if fixedSize bt = none then (0, t.drop m) else (m, t)) := by
  have hmax : (20 : ℤ) < INT_MAX := by decide
  cases h with
  | fixed hk hle =>
    unfold fixedSize at hk
    split at hk
    all_goals first | cases hk; rfl | cases hk
  | string hn hle =>
    have hpure : (pure (signed 4 (ofLe (slice mem t.ptr 4))) : Read ℤ).result = .ok (_ + 1) :=
      congrArg Except.ok hn
    exact skip_length (f := pure) ht (by omega) hpure (by push_cast; ring) (by exact_mod_cast hle)
  | dict hbt hn h5 hle hend hfs =>
    have hsub : (cint (signed 4 (ofLe (slice mem t.ptr 4)) - 4)).result = .ok (m - 4) :=
      cint_ok.2 ⟨by omega, by omega, by omega⟩
    have hskip := skip_length (f := fun sz => cint (sz - 4)) ht (by omega) hsub (by ring) hle
    rcases hbt with rfl | rfl <;> exact hskip
  | @binary n hn hle =>
    have hadd : (cint (signed 4 (ofLe (slice mem t.ptr 4)) + 1)).result = .ok (n + 1) :=
      cint_ok.2 ⟨by omega, by omega, by omega⟩
    exact skip_length (f := fun sz => cint (sz + 1)) ht (by omega) hadd (by push_cast; ring)
      (by exact_mod_cast hle)
  | @regex r1 r2 hz1 hz2 hr hle =>
    have hv : (unpackValue mem elems 11 t).result =
        .ok (object 11 (r1 ++ 0 :: r2 ++ [0]), t.drop (r1 ++ 0 :: r2 ++ [0]).length) :=
      (regex_ok ht).2 ⟨r1, r2, hz1, hz2, hr, hle, rfl, rfl⟩
    obtain ⟨⟨s1, t1⟩, h1, hv⟩ := Traced.result_bind_ok.1 hv
    obtain ⟨⟨s2, t2⟩, h2, hv⟩ := Traced.result_bind_ok.1 hv
    have ht2 : t2 = t.drop (r1 ++ 0 :: r2 ++ [0]).length := (Prod.mk.inj (Except.ok.inj hv)).2
    rw [← ht2]
    exact Traced.result_bind_ok.2 ⟨_, h1, Traced.result_bind_ok.2 ⟨_, h2, rfl⟩⟩
  | raw hc hn hsize hle =>
    have hint : ∀ x, 4 + x = (m : ℤ) → (cint x).result = .ok (m - 4) := by
      intro x hx
      exact cint_ok.2 ⟨by omega, by omega, by omega⟩
    have hpure : ∀ x, 4 + x = (m : ℤ) → (pure x : Read ℤ).result = .ok (m - 4) := by
      intro x hx
      rw [Traced.result_pure, ← hx, add_sub_cancel_left]
    unfold counted at hc
    split at hc
    · cases hc
      exact skip_length (f := fun sz => cint (sz + 12)) ht hsize (hint _ (by omega)) (by ring) hle
    · cases hc
      exact skip_length (f := pure) ht hsize (hpure _ (by omega)) (by ring) hle
    · cases hc
      exact skip_length (f := pure) ht hsize (hpure _ (by omega)) (by ring) hle
    · cases hc
      exact skip_length (f := fun sz => cint (sz - 4)) ht hsize (hint _ (by omega)) (by ring) hle
    · cases hc

/-! ## The index of the elements -/

variable {e : Element} {es : List Element}

/-- What the index has for a field. -/
def Element.id (e : Element) : ℤ := (e.type.toNat ||| (e.ptr * 2 ^ BSON_TYPE_SHIFT).toNat : ℕ)

/-- The index with the fields among the elements. -/
def indexOf (es : List Element) (index : Fields) : Fields :=
  es.foldl (fun index e => if e.isField then index.set (.str e.key) (.int e.id) else index) index

/-- `int` is wide enough for the offsets of the fields, shifted. -/
def Element.Shifts (e : Element) : Prop :=
  e.isField → 0 ≤ e.ptr ∧ e.ptr * 2 ^ BSON_TYPE_SHIFT ≤ INT_MAX

theorem fieldId_ok {off id : ℤ} : (fieldId bt off).result = .ok id ↔
    (0 ≤ off ∧ off * 2 ^ BSON_TYPE_SHIFT ≤ INT_MAX) ∧
      id = (bt.toNat ||| (off * 2 ^ BSON_TYPE_SHIFT).toNat : ℕ) := by
  have hmax : (0 : ℤ) ≤ INT_MAX := by decide
  unfold fieldId
  split
  · rename_i hneg
    constructor
    · intro h
      cases h
    · rintro ⟨⟨h, -⟩, -⟩
      omega
  · rename_i hneg
    have hpos : 0 ≤ off * 2 ^ BSON_TYPE_SHIFT := Int.mul_nonneg (by omega) (by decide)
    rw [Traced.result_bind_ok]
    constructor
    · rintro ⟨x, hx, h⟩
      obtain ⟨-, hle, rfl⟩ := cint_ok.1 hx
      cases h
      exact ⟨⟨by omega, hle⟩, rfl⟩
    · rintro ⟨⟨-, hle⟩, rfl⟩
      exact ⟨_, cint_ok.2 ⟨by omega, hle, rfl⟩, rfl⟩

theorem Reads.field (h : Reads mem elems t bt v m) (ht : t.size ≤ INT_MAX) :
    ∃ r, (skipValue mem bt t).result = .ok r ∧
      (0 < r.1 ∧ (fixedSize bt).any (0 < ·) = true ∧ r = (m, t) ∨
        r.1 = 0 ∧ (fixedSize bt).any (0 < ·) = false ∧ r.2 = t.drop m) := by
  refine ⟨_, h.skip ht, ?_⟩
  cases hk : fixedSize bt with
  | none => simp
  | some k =>
    obtain rfl := h.size_eq hk
    rcases Nat.eq_zero_or_pos m with rfl | hpos
    · simp [Reader.drop_zero]
    · simp [hpos]

/-- One round of `makeindex`. -/
theorem indexElems_cons {index index' : Fields} (hhead : e.Heads mem t)
    (hv : Reads mem elems (t.drop e.head) e.type e.value e.size) (ht : t.size ≤ INT_MAX) :
    (indexElems mem (fuel + 1) t index).result = .ok index' ↔ e.Shifts ∧
      (indexElems mem fuel ((t.drop e.head).drop e.size)
        (if e.isField then index.set (.str e.key) (.int e.id) else index)).result = .ok index' := by
  have hhd : e.head = e.key.length + 2 := rfl
  have hfits := hhead.fits
  have hle := hv.le
  rw [Reader.drop_size] at hle
  obtain ⟨⟨size, r⟩, hskip, hr⟩ := hv.field (by rw [Reader.drop_size]; omega)
  rw [indexElems, if_neg (by omega), (Traced.bind_ok (hhead.readByte ht)).1]
  dsimp only
  rw [(Traced.bind_ok (hhead.readCString ht)).1]
  dsimp only
  rw [(Traced.bind_ok hskip).1]
  dsimp only at hr ⊢
  rcases hr with ⟨hpos, hf, hr⟩ | ⟨h0, hf, hr⟩
  · obtain ⟨rfl, rfl⟩ := Prod.mk.inj hr
    have hfield : e.isField = true := hf
    have hptr : (t.drop e.head).ptr = e.ptr := hhead.ptr.symm
    have hbytes : (readBytes (t.drop e.head) e.size).result = .ok (_, (t.drop e.head).drop e.size) :=
      readBytes_ok.2 ⟨by rw [Reader.drop_size]; omega, by rw [Reader.drop_size]; omega, rfl, rfl⟩
    rw [if_pos hpos, if_pos hfield, Traced.result_bind_ok, hptr]
    constructor
    · rintro ⟨id, hid, h⟩
      obtain ⟨hshift, rfl⟩ := fieldId_ok.1 hid
      rw [(Traced.bind_ok hbytes).1] at h
      exact ⟨fun _ => hshift, h⟩
    · rintro ⟨hshift, h⟩
      refine ⟨e.id, fieldId_ok.2 ⟨hshift hfield, rfl⟩, ?_⟩
      rw [(Traced.bind_ok hbytes).1]
      exact h
  · have hfield : e.isField = false := hf
    rw [if_neg (by omega), hfield, hr]
    simp [Element.Shifts, hfield]

theorem indexElems_iff {index index' : Fields} {fuel' : ℕ} (h : Elements mem fuel t es)
    (ht : t.size ≤ INT_MAX) : (indexElems mem fuel' t index).result = .ok index' ↔
      es.length < fuel' ∧ (∀ e ∈ es, e.Shifts) ∧ index' = indexOf es index := by
  induction h generalizing fuel' index with
  | @nil _ t h0 =>
    cases fuel' with
    | zero =>
      constructor
      · intro h
        cases h
      · rintro ⟨h, -⟩
        exact absurd h (Nat.not_lt_zero _)
    | succ fuel' =>
      rw [indexElems, if_pos h0, Traced.result_pure, Except.ok.injEq, eq_comm]
      simp [indexOf]
  | @cons _ t e es hhead hv _ ih =>
    have hhd : e.head = e.key.length + 2 := rfl
    cases fuel' with
    | zero =>
      constructor
      · intro h
        cases h
      · rintro ⟨h, -⟩
        exact absurd h (Nat.not_lt_zero _)
    | succ fuel' =>
      rw [indexElems_cons hhead hv ht, ih (by simp only [Reader.drop_size]; omega), List.length_cons,
        Nat.add_lt_add_iff_right, List.forall_mem_cons, and_left_comm, and_assoc]
      rfl

/-- In the index it has the last field with it. -/
theorem get_indexOf (k : Key) (es : List Element) :
    (indexOf es .nil).get k = (lastWith (fun e => e.isField && Key.str e.key = k) es).map (.int ·.id) := by
  induction es using List.reverseRecOn with
  | nil => rfl
  | append_singleton es e ih =>
    have hstep : indexOf (es ++ [e]) .nil =
        if e.isField then (indexOf es .nil).set (.str e.key) (.int e.id) else indexOf es .nil := by
      rw [indexOf, List.foldl_append]
      rfl
    rw [hstep, lastWith_concat]
    cases hf : e.isField with
    | false => simpa using ih
    | true =>
      rw [if_pos rfl, Fields.get_set, ih]
      by_cases hk : Key.str e.key = k <;> simp [hk]

theorem Element.type_lt (hf : e.isField = true) : e.type.toNat < 2 ^ 5 := by
  obtain ⟨k, hk, hpos⟩ := Element.isField_iff.1 hf
  rcases field_type hk hpos with h | h | h | h | h | h | h <;> rw [h] <;> decide

/-- The type and the offset of a field are what its number in the index is made of. -/
theorem Element.id_eq (hf : e.isField = true) (h0 : 0 ≤ e.ptr) : e.id = 32 * e.ptr + e.type.toNat := by
  have hlt := Element.type_lt hf
  lift e.ptr to ℕ using h0 with p hp
  rw [Element.id, ← hp, BSON_TYPE_SHIFT]
  have htoNat : ((p : ℤ) * 2 ^ 5).toNat = 2 ^ 5 * p := by omega
  rw [htoNat, Nat.or_comm, ← Nat.two_pow_add_eq_or_of_lt hlt p]
  push_cast
  ring

theorem lmakeindex_iff {n fuel' : ℕ} {index : Fields} (h : Document mem fuel n es) :
    (lmakeindex mem fuel').result = .ok index ↔
      es.length < fuel' ∧ (∀ e ∈ es, e.Shifts) ∧ index = indexOf es .nil := by
  have h5 := h.five
  have hint := h.int
  have hsub : (cint (signed 4 (ofLe (slice mem 0 4)) - 5)).result = .ok (n - 5) := by
    rw [h.length]
    exact cint_ok.2 ⟨by omega, by omega, rfl⟩
  rw [lmakeindex, (Traced.bind_ok (load_ok.2 rfl)).1, (Traced.bind_ok hsub).1]
  exact indexElems_iff h.elements (by dsimp only; omega)

end Levent.Bson
