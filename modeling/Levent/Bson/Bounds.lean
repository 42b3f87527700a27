/-
  `bson.decode` of a block and the memory around it: what is read, how the sizes of
  the readers change, and when decoding ends.
-/
import Levent.Bson.Decode
import Mathlib.Tactic.Linarith

namespace Levent.Bson

open Lib (Mem Traced slice ofLe signed signed_range ofLe_lt slice_length block)

/-! ## Good events -/

/-- In a block of `n` bytes. -/
def Ev.Good (n : ℕ) : Ev → Prop
  | .read p k => 0 ≤ p ∧ p + k ≤ n
  | .resized old new => new ≤ old
  | .declared _ _ => True
  | .overflow => False

/-- A length with which the reader goes forward. -/
def Ev.Fits : Ev → Prop
  | .declared k sz => 0 ≤ sz + k.adjust ∧ sz + k.adjust ≤ INT_MAX
  | _ => True

/-- All reads are inside the block, no reader grows, and decoding ends with a table or
    an error. -/
def Inside (n : ℕ) (x : Read Value) : Prop :=
  (∀ o ∈ x.trace, o.Good n) ∧ ((∃ fs, x.result = .ok (.table fs)) ∨ ∃ msg, x.result = .error (.error msg))

/-- An error is raised. -/
def Stop.Raised (e : Stop) : Prop := ∃ msg, e = .error msg

/-! ## Readers -/

/-- The reader is for a part of the block. -/
structure Reader.In (n : ℕ) (br : Reader) : Prop where
  ptr : 0 ≤ br.ptr
  size : 0 ≤ br.size
  fits : br.ptr + br.size ≤ n

/-- `br` without its first `m` bytes. -/
def Reader.drop (br : Reader) (m : ℤ) : Reader := ⟨br.ptr + m, br.size - m⟩

@[simp] theorem Reader.drop_ptr (br : Reader) (m : ℤ) : (br.drop m).ptr = br.ptr + m := rfl
@[simp] theorem Reader.drop_size (br : Reader) (m : ℤ) : (br.drop m).size = br.size - m := rfl

/-- `r` is what is left of `br`. -/
def Reader.Rest (br r : Reader) : Prop := ∃ m, 0 ≤ m ∧ m ≤ br.size ∧ r = br.drop m

variable {n : ℕ} {br r t : Reader}

theorem Reader.drop_drop (br : Reader) (m k : ℤ) : (br.drop m).drop k = br.drop (m + k) := by
  simp only [Reader.drop, Reader.mk.injEq]
  omega

theorem Reader.drop_zero (br : Reader) : br.drop 0 = br := by
  simp only [Reader.drop, add_zero, sub_zero]

theorem Reader.In.drop {m : ℤ} (h : br.In n) (h0 : 0 ≤ m) (h1 : m ≤ br.size) : (br.drop m).In n := by
  obtain ⟨hp, -, hf⟩ := h
  refine ⟨?_, ?_, ?_⟩ <;> simp only [Reader.drop_ptr, Reader.drop_size] <;> omega

theorem Reader.rest_drop {m : ℤ} (h0 : 0 ≤ m) (h1 : m ≤ br.size) : br.Rest (br.drop m) := ⟨m, h0, h1, rfl⟩

theorem Reader.In.rest (h : br.In n) (hr : br.Rest r) : r.In n := by
  obtain ⟨m, h0, h1, rfl⟩ := hr
  exact h.drop h0 h1

theorem Reader.Rest.trans (h : br.Rest t) (h' : t.Rest r) : br.Rest r := by
  obtain ⟨m, h0, h1, rfl⟩ := h
  obtain ⟨k, h2, h3, rfl⟩ := h'
  rw [Reader.drop_size] at h3
  exact ⟨m + k, by omega, by omega, Reader.drop_drop br m k⟩

theorem Reader.Rest.size_le (h : br.Rest r) : r.size ≤ br.size := by
  obtain ⟨m, h0, -, rfl⟩ := h
  rw [Reader.drop_size]
  omega

theorem Reader.In.refl (h : br.In n) : br.Rest br :=
  ⟨0, le_rfl, h.size, (Reader.drop_zero br).symm⟩

/-! ## Sound computations

  What follows is used with the lengths as the condition and the events as what is
  shown, and the other way around. -/

/-- Inside a block of `n` bytes the reads and the sizes that shrink meet `G`. -/
structure Block (n : ℕ) (G : Ev → Prop) : Prop where
  int : (n : ℤ) ≤ INT_MAX
  read : ∀ (p : ℤ) (k : ℕ), 0 ≤ p → p + k ≤ n → G (.read p k)
  resized : ∀ old new, new ≤ old → G (.resized old new)

/-- Also, where `C` holds of what is recorded, a declared length moves the reader forward. -/
structure Rules (n : ℕ) (C G : Ev → Prop) : Prop extends Block n G where
  length : ∀ k br sz, br.In n → (readLength k br sz).Sound C G
    (fun r => 0 ≤ sz + k.adjust ∧ sz + k.adjust ≤ br.size ∧ r = (br.ptr, br.drop (sz + k.adjust)))
    Stop.Raised

theorem cint_eq {x : ℤ} (h0 : -INT_MAX - 1 ≤ x) (h1 : x ≤ INT_MAX) : cint x = pure x := if_pos ⟨h0, h1⟩

variable {C G : Ev → Prop} {mem : Mem}

section
variable (H : Block n G) (h : br.In n)
include H h

theorem Reader.In.size_le : br.size ≤ INT_MAX := by
  have h1 := H.int
  obtain ⟨hp, -, hf⟩ := h
  omega

theorem advance_sound {m : ℤ} (h0 : 0 ≤ m) (h1 : m ≤ br.size) :
    (br.advance m).Sound C G (· = br.drop m) Stop.Raised := by
  have h2 := h.size_le H
  have h3 : (0 : ℤ) ≤ INT_MAX := by decide
  unfold Reader.advance
  rw [cint_eq (by omega) (by omega)]
  refine Traced.Sound.bind (Traced.Sound.pure (Q := (· = br.size - m)) rfl) ?_
  rintro _ rfl
  refine Traced.Sound.bind (Q := fun _ => True) (Traced.Sound.note ?_) fun _ _ => Traced.Sound.pure rfl
  intro _
  exact ⟨H.resized _ _ (by omega), trivial⟩

omit H h in
theorem checkReader_sound (sz : ℤ) :
    (checkReader br sz).Sound C G (fun _ => sz ≤ br.size) Stop.Raised := by
  unfold checkReader
  split
  · exact Traced.Sound.stop ⟨_, rfl⟩
  · exact Traced.Sound.pure (by omega)

omit h in
theorem load_sound {p : ℤ} {k : ℕ} (h0 : 0 ≤ p) (h1 : p + k ≤ n) :
    (load mem p k).Sound C G (· = slice mem p k) Stop.Raised := by
  refine Traced.Sound.bind (Q := fun _ => True) (Traced.Sound.note ?_) fun _ _ => Traced.Sound.pure rfl
  intro _
  exact ⟨H.read p k h0 h1, trivial⟩

theorem readFixed_sound (k : ℕ) :
    (readFixed mem br k).Sound C G (fun r => (k : ℤ) ≤ br.size ∧ r = (slice mem br.ptr k, br.drop k))
      Stop.Raised := by
  unfold readFixed
  refine Traced.Sound.bind (checkReader_sound k) fun _ hk => ?_
  have hf := h.fits
  refine Traced.Sound.bind (load_sound H h.ptr (by omega)) ?_
  rintro _ rfl
  refine Traced.Sound.bind (advance_sound H h (by omega) hk) ?_
  rintro _ rfl
  exact Traced.Sound.pure ⟨hk, rfl⟩

/-- A value of `k` bytes is read. -/
theorem readFixed_map {α : Type} (k : ℕ) (f : Bytes → α) :
    (readFixed mem br k >>= fun r => pure (f r.1, r.2)).Sound C G
      (fun r => (k : ℤ) ≤ br.size ∧ r = (f (slice mem br.ptr k), br.drop k)) Stop.Raised := by
  refine Traced.Sound.bind (readFixed_sound H h k) ?_
  rintro _ ⟨hk, rfl⟩
  exact Traced.Sound.pure ⟨hk, rfl⟩

theorem readByte_sound : (readByte mem br).Sound C G
    (fun r => 1 ≤ br.size ∧ r = ((slice mem br.ptr 1).headD 0, br.drop 1)) Stop.Raised :=
  readFixed_map H h 1 fun b => b.headD 0

theorem readInt32_sound : (readInt32 mem br).Sound C G
    (fun r => 4 ≤ br.size ∧ r = (signed 4 (ofLe (slice mem br.ptr 4)), br.drop 4)) Stop.Raised :=
  readFixed_map H h 4 fun b => signed 4 (ofLe b)

theorem readInt64_sound : (readInt64 mem br).Sound C G
    (fun r => 8 ≤ br.size ∧ r = (signed 8 (ofLe (slice mem br.ptr 8)), br.drop 8)) Stop.Raised :=
  readFixed_map H h 8 fun b => signed 8 (ofLe b)

theorem readDouble_sound : (readDouble mem br).Sound C G
    (fun r => 8 ≤ br.size ∧ r = (ofLe (slice mem br.ptr 8), br.drop 8)) Stop.Raised :=
  readFixed_map H h 8 ofLe

theorem readBytes_sound {sz : ℤ} (h0 : 0 ≤ sz) :
    (readBytes br sz).Sound C G (fun r => sz ≤ br.size ∧ r = (br.ptr, br.drop sz)) Stop.Raised := by
  refine Traced.Sound.bind (checkReader_sound sz) fun _ hsz => ?_
  refine Traced.Sound.bind (advance_sound H h h0 hsz) ?_
  rintro _ rfl
  exact Traced.Sound.pure ⟨hsz, rfl⟩

theorem readLength_sound {k : Kind} {sz : ℤ} (hd : G (.declared k sz)) (hf : (Ev.declared k sz).Fits) :
    (readLength k br sz).Sound C G
      (fun r => 0 ≤ sz + k.adjust ∧ sz + k.adjust ≤ br.size ∧ r = (br.ptr, br.drop (sz + k.adjust)))
      Stop.Raised := by
  obtain ⟨h0, h1⟩ := hf
  have h2 : (0 : ℤ) ≤ INT_MAX := by decide
  unfold readLength
  rw [cint_eq (by omega) h1]
  refine Traced.Sound.bind (Q := fun _ => True) (Traced.Sound.note fun _ => ⟨hd, trivial⟩) fun _ _ => ?_
  refine Traced.Sound.bind (Traced.Sound.pure (Q := (· = sz + k.adjust)) rfl) ?_
  rintro _ rfl
  exact (readBytes_sound H h h0).mono fun r hr => ⟨h0, hr⟩

theorem cstringLen_sound {i k : ℕ} (hk : (i + k : ℕ) ≤ br.size) :
    (cstringLen mem br.ptr i k).Sound C G (fun j => j < i + k) Stop.Raised := by
  induction k generalizing i with
  | zero => exact Traced.Sound.stop ⟨_, rfl⟩
  | succ k ih =>
    obtain ⟨hp, -, hf⟩ := h
    unfold cstringLen
    refine Traced.Sound.bind (load_sound H (by omega) (by push_cast at hk ⊢; omega)) fun b _ => ?_
    split
    · exact Traced.Sound.pure (by omega)
    · exact (ih (by omega)).mono fun j hj => by omega

theorem readCString_sound :
    (readCString mem br).Sound C G (fun r => br.Rest r.2 ∧ r.2.size < br.size) Stop.Raised := by
  have hs := h.size
  unfold readCString
  rw [if_neg (by omega)]
  refine Traced.Sound.bind (cstringLen_sound H h (k := br.size.toNat) (by omega)) fun j hj => ?_
  have hj' : (j : ℤ) + 1 ≤ br.size := by omega
  refine Traced.Sound.bind (advance_sound H h (by omega) hj') ?_
  rintro _ rfl
  refine Traced.Sound.pure ⟨⟨_, by omega, hj', rfl⟩, ?_⟩
  rw [Reader.drop_size]
  omega

omit h in
theorem pushBytes_sound {used : ℕ} {p sz : ℤ} (h0 : 0 ≤ p) (h1 : p + sz ≤ n) :
    (pushBytes mem used p sz).Sound C G (fun _ => True) Stop.Raised := by
  unfold pushBytes
  split
  · exact Traced.Sound.stop ⟨_, rfl⟩
  · exact (load_sound H h0 (by omega)).mono fun _ _ => trivial

omit h in
theorem makeObject_sound {type : UInt8} {p sz : ℤ} (h0 : 0 ≤ p) (h1 : p + sz ≤ n) :
    (makeObject mem type p sz).Sound C G (fun _ => True) Stop.Raised :=
  Traced.Sound.bind (pushBytes_sound H h0 h1) fun _ _ => Traced.Sound.pure trivial

/-- The object of `sz` bytes from the length on. -/
theorem rawObject_sound {type : UInt8} {sz : ℤ} (h1 : 0 ≤ sz) (h2 : sz ≤ br.size) (t : Reader) :
    (cint sz >>= fun z => makeObject mem type br.ptr z >>= fun v => pure (v, t) : Read (Value × Reader)).Sound
      C G (fun r => r.2 = t) Stop.Raised := by
  have hs := h.size_le H
  have h3 : (0 : ℤ) ≤ INT_MAX := by decide
  have hf := h.fits
  rw [cint_eq (by omega) (by omega)]
  refine Traced.Sound.bind (Traced.Sound.pure (Q := (· = sz)) rfl) ?_
  rintro _ rfl
  exact Traced.Sound.bind (makeObject_sound H h.ptr (by omega)) fun _ _ => Traced.Sound.pure rfl

end

/-! ## Documents -/

/-- An element that is kept with its length in front. -/
theorem readRaw_sound (H : Rules n C G) (h : br.In n) (k : Kind) {K : ℤ → Reader → Read (Value × Reader)}
    (hK : ∀ sz t, 0 ≤ sz + k.adjust → sz + k.adjust ≤ br.size - 4 →
      (K sz t).Sound C G (fun r => r.2 = t) Stop.Raised) :
    (readInt32 mem br >>= fun a => readLength k a.2 a.1 >>= fun b => K a.1 b.2).Sound C G
      (fun r => br.Rest r.2) Stop.Raised := by
  refine Traced.Sound.bind (readInt32_sound H.toBlock h) ?_
  rintro _ ⟨h4, rfl⟩
  refine Traced.Sound.bind (H.length _ _ _ (h.drop (by omega) h4)) ?_
  rintro _ ⟨h0, h1, rfl⟩
  refine (hK _ _ h0 h1).mono fun r hr => ?_
  rw [hr]
  exact (Reader.rest_drop (by omega) h4).trans (Reader.rest_drop h0 h1)

section
variable (H : Rules n C G) {elems : Reader → Bool → Read Fields} {size : ℤ}
  (helems : ∀ t array, t.In n → t.size < size →
    (elems t array).Sound C G (fun _ => True) Stop.Raised)
include H helems

theorem unpackDict_sound (h : br.In n) (hsize : br.size ≤ size) (array : Bool) :
    (unpackDict mem elems br array).Sound C G (fun r => (∃ fs, r.1 = .table fs) ∧ br.Rest r.2)
      Stop.Raised := by
  unfold unpackDict
  refine Traced.Sound.bind (readInt32_sound H.toBlock h) ?_
  rintro _ ⟨h4, rfl⟩
  have hd := h.drop (by omega) h4
  refine Traced.Sound.bind (H.length _ _ _ hd) ?_
  rintro _ ⟨h0, h1, rfl⟩
  have hd' := hd.drop h0 h1
  refine Traced.Sound.bind (readByte_sound H.toBlock hd') ?_
  rintro _ ⟨h2, rfl⟩
  simp only [Kind.adjust, Reader.drop_size] at h0 h1 h2
  set sz := signed 4 (ofLe (slice mem br.ptr 4))
  dsimp only
  split
  · exact Traced.Sound.stop_bind ⟨_, rfl⟩
  · have hin : (⟨br.ptr + 4, sz - 5⟩ : Reader).In n := by
      have hp := h.ptr
      have hf := h.fits
      refine ⟨?_, ?_, ?_⟩ <;> dsimp only <;> omega
    refine Traced.Sound.bind (helems _ _ hin (by dsimp only; omega)) fun fs _ => ?_
    refine Traced.Sound.pure ⟨⟨fs, rfl⟩, sz, by omega, by omega, ?_⟩
    simp only [Reader.drop_drop, Kind.adjust]
    ring_nf

theorem unpackValue_sound (h : t.In n) (hsize : t.size ≤ size) (bt : UInt8) :
    (unpackValue mem elems bt t).Sound C G (fun r => t.Rest r.2) Stop.Raised := by
  have hp := h.ptr
  have hf := h.fits
  unfold unpackValue
  split
  · -- a double
    refine Traced.Sound.bind (readDouble_sound H.toBlock h) ?_
    rintro _ ⟨hk, rfl⟩
    exact Traced.Sound.pure (Reader.rest_drop (by omega) hk)
  · -- a boolean
    refine Traced.Sound.bind (readByte_sound H.toBlock h) ?_
    rintro _ ⟨hk, rfl⟩
    exact Traced.Sound.pure (Reader.rest_drop (by omega) hk)
  · -- a string
    refine Traced.Sound.bind (readInt32_sound H.toBlock h) ?_
    rintro _ ⟨h4, rfl⟩
    dsimp only
    split
    · exact Traced.Sound.stop_bind ⟨_, rfl⟩
    · have hd := h.drop (by omega) h4
      refine Traced.Sound.bind (H.length _ _ _ hd) ?_
      rintro _ ⟨h0, h1, rfl⟩
      refine Traced.Sound.bind (pushBytes_sound H.toBlock hd.ptr ?_) fun _ _ => ?_
      · simp only [Kind.adjust, Reader.drop_size, Reader.drop_ptr] at h0 h1 ⊢
        omega
      · exact Traced.Sound.pure ((Reader.rest_drop (by omega) h4).trans (Reader.rest_drop h0 h1))
  · exact (unpackDict_sound H helems h hsize false).mono fun _ hr => hr.2
  · exact (unpackDict_sound H helems h hsize true).mono fun _ hr => hr.2
  · -- a binary
    refine Traced.Sound.bind (readInt32_sound H.toBlock h) ?_
    rintro _ ⟨h4, rfl⟩
    have hd := h.drop (by omega) h4
    refine Traced.Sound.bind (readByte_sound H.toBlock hd) ?_
    rintro _ ⟨h5, rfl⟩
    have hd' := hd.drop (by omega) h5
    refine Traced.Sound.bind (H.length _ _ _ hd') ?_
    rintro _ ⟨h0, h1, rfl⟩
    refine Traced.Sound.bind (pushBytes_sound H.toBlock hd'.ptr ?_) fun _ _ => ?_
    · simp only [Kind.adjust, Reader.drop_size, Reader.drop_ptr] at h0 h1 ⊢
      omega
    · exact Traced.Sound.pure (((Reader.rest_drop (by omega) h4).trans
        (Reader.rest_drop (by omega) h5)).trans (Reader.rest_drop h0 h1))
  · -- an object id
    refine Traced.Sound.bind (readFixed_sound H.toBlock h 12) ?_
    rintro _ ⟨hk, rfl⟩
    exact Traced.Sound.pure (Reader.rest_drop (by omega) hk)
  · -- a date
    refine Traced.Sound.bind (readInt64_sound H.toBlock h) ?_
    rintro _ ⟨hk, rfl⟩
    exact Traced.Sound.pure (Reader.rest_drop (by omega) hk)
  · exact Traced.Sound.pure h.refl
  · exact Traced.Sound.pure h.refl
  · exact Traced.Sound.pure h.refl
  · -- a regular expression
    refine Traced.Sound.bind (readCString_sound H.toBlock h) ?_
    rintro ⟨r1, t1⟩ ⟨hr1, -⟩
    refine Traced.Sound.bind (readCString_sound H.toBlock (h.rest hr1)) ?_
    rintro ⟨r2, t2⟩ ⟨hr2, -⟩
    exact Traced.Sound.pure (hr1.trans hr2)
  · -- an integer of 32 bits
    refine Traced.Sound.bind (readInt32_sound H.toBlock h) ?_
    rintro _ ⟨hk, rfl⟩
    exact Traced.Sound.pure (Reader.rest_drop (by omega) hk)
  · -- a timestamp
    refine Traced.Sound.bind (readFixed_sound H.toBlock h 4) ?_
    rintro _ ⟨h4, rfl⟩
    refine Traced.Sound.bind (readFixed_sound H.toBlock (h.drop (by omega) h4) 4) ?_
    rintro _ ⟨h8, rfl⟩
    exact Traced.Sound.pure ((Reader.rest_drop (by omega) h4).trans (Reader.rest_drop (by omega) h8))
  · -- an integer of 64 bits
    refine Traced.Sound.bind (readInt64_sound H.toBlock h) ?_
    rintro _ ⟨hk, rfl⟩
    exact Traced.Sound.pure (Reader.rest_drop (by omega) hk)
  · -- a pointer into another collection
    refine readRaw_sound H h .dbpointer
      (K := fun sz t' => cint (sz + 16) >>= fun z => makeObject mem 12 t.ptr z >>= fun v => pure (v, t'))
      fun sz t' h0 h1 => ?_
    simp only [Kind.adjust] at h0 h1
    exact rawObject_sound H.toBlock h (by omega) (by omega) t'
  · -- code
    refine readRaw_sound H h .code
      (K := fun sz t' => cint (sz + 4) >>= fun z => makeObject mem 13 t.ptr z >>= fun v => pure (v, t'))
      fun sz t' h0 h1 => ?_
    simp only [Kind.adjust] at h0 h1
    exact rawObject_sound H.toBlock h (by omega) (by omega) t'
  · -- a symbol
    refine readRaw_sound H h .code
      (K := fun sz t' => cint (sz + 4) >>= fun z => makeObject mem 14 t.ptr z >>= fun v => pure (v, t'))
      fun sz t' h0 h1 => ?_
    simp only [Kind.adjust] at h0 h1
    exact rawObject_sound H.toBlock h (by omega) (by omega) t'
  · -- code with a scope
    refine readRaw_sound H h .codews
      (K := fun sz t' => makeObject mem 15 t.ptr sz >>= fun v => pure (v, t')) fun sz t' h0 h1 => ?_
    simp only [Kind.adjust] at h0 h1
    exact Traced.Sound.bind (makeObject_sound H.toBlock hp (by omega)) fun _ _ => Traced.Sound.pure rfl
  · exact Traced.Sound.stop ⟨_, rfl⟩

end

/-- The loop ends before its fuel, and so do the loops for the documents inside. -/
theorem unpackElems_sound (H : Rules n C G) (fuel : ℕ) : ∀ (t : Reader) (array : Bool) (fs : Fields),
    t.In n → t.size < fuel →
    (unpackElems mem fuel t array fs).Sound C G (fun _ => True) Stop.Raised := by
  induction fuel with
  | zero =>
    intro t array fs h hsize
    have := h.size
    omega
  | succ fuel ih =>
    intro t array fs h hsize
    unfold unpackElems
    split
    · exact Traced.Sound.pure trivial
    · refine Traced.Sound.bind (readByte_sound H.toBlock h) ?_
      rintro _ ⟨h1, rfl⟩
      have hd := h.drop (by omega) h1
      refine Traced.Sound.bind (readCString_sound H.toBlock hd) ?_
      rintro ⟨key, t2⟩ ⟨h2, h3⟩
      dsimp only [Reader.drop_size] at h2 h3 ⊢
      have helems : ∀ (t : Reader) (array : Bool), t.In n → t.size < fuel →
          (unpackElems mem fuel t array .nil).Sound C G (fun _ => True) Stop.Raised :=
        fun t array => ih t array .nil
      refine Traced.Sound.bind (unpackValue_sound H helems (hd.rest h2) (by push_cast at hsize; omega) _) ?_
      rintro ⟨v, t3⟩ h4
      have h5 : t3.size ≤ t2.size := h4.size_le
      exact ih t3 array _ ((hd.rest h2).rest h4) (by push_cast at hsize; omega)

/-! ## Both directions -/

/-- Lengths that fit keep the readers inside. -/
theorem rules_fits (hn : (n : ℤ) ≤ INT_MAX) : Rules n Ev.Fits (Ev.Good n) := by
  have H : Block n (Ev.Good n) := ⟨hn, fun _ _ h0 h1 => ⟨h0, h1⟩, fun _ _ h => h⟩
  refine ⟨H, fun k br sz h hC => ?_⟩
  have hf : (Ev.declared k sz).Fits := hC _ List.mem_cons_self
  exact readLength_sound H h trivial hf hC

theorem cint_or (x : ℤ) :
    -INT_MAX - 1 ≤ x ∧ x ≤ INT_MAX ∧ cint x = pure x ∨ Ev.overflow ∈ (cint x).trace := by
  by_cases h : -INT_MAX - 1 ≤ x ∧ x ≤ INT_MAX
  · exact Or.inl ⟨h.1, h.2, if_pos h⟩
  · refine Or.inr ?_
    rw [cint, if_neg h]
    exact List.mem_cons_self

theorem advance_forward {m : ℤ} (hC : ∀ o ∈ (br.advance m).trace, o.Good n) : 0 ≤ m := by
  unfold Reader.advance at hC
  rcases cint_or (br.size - m) with ⟨-, -, h⟩ | h
  · rw [h] at hC
    have hr : br.size - m ≤ br.size := hC (.resized _ _) List.mem_cons_self
    omega
  · exact (hC _ (Traced.mem_bind_left h)).elim

/-- A length that does not fit makes the reader grow, or overflows. -/
theorem readLength_fits {k : Kind} {sz : ℤ} (h : br.In n)
    (hC : ∀ o ∈ (readLength k br sz).trace, o.Good n) : (Ev.declared k sz).Fits := by
  have hs := h.size
  have hC1 : ∀ o ∈ (cint (sz + k.adjust) >>= readBytes br).trace, o.Good n :=
    fun o ho => hC o (Traced.mem_bind_right rfl ho)
  rcases cint_or (sz + k.adjust) with ⟨-, h1, h2⟩ | h2
  · refine ⟨?_, h1⟩
    by_contra hneg
    have hcheck : checkReader br (sz + k.adjust) = pure () := if_neg (by omega)
    have hC2 : ∀ o ∈ (br.advance (sz + k.adjust)).trace, o.Good n := by
      intro o ho
      refine hC1 o ?_
      rw [h2]
      refine Traced.mem_bind_right rfl ?_
      unfold readBytes
      rw [hcheck]
      exact Traced.mem_bind_right rfl (Traced.mem_bind_left ho)
    exact hneg (advance_forward hC2)
  · exact (hC1 _ (Traced.mem_bind_left h2)).elim

/-- Readers that stay inside are given lengths that fit. -/
theorem rules_good (hn : (n : ℤ) ≤ INT_MAX) : Rules n (Ev.Good n) Ev.Fits := by
  have H : Block n Ev.Fits := ⟨hn, fun _ _ _ _ => trivial, fun _ _ _ => trivial⟩
  refine ⟨H, fun k br sz h hC => ?_⟩
  have hf := readLength_fits h hC
  exact readLength_sound H h hf hf hC

/-! ## Decoding -/

theorem ldecode_sound {mem : Mem} {n fuel : ℕ} (H : Rules n C G) (hn : 4 ≤ n)
    (hlen : signed 4 (ofLe (slice mem 0 4)) = n) (hfuel : n ≤ fuel) :
    (ldecode mem fuel).Sound C G (fun v => ∃ fs, v = .table fs) Stop.Raised := by
  unfold ldecode
  refine Traced.Sound.bind (load_sound H.toBlock le_rfl (by push_cast; omega)) ?_
  rintro _ rfl
  rw [hlen]
  have hin : (⟨0, n⟩ : Reader).In n := ⟨le_rfl, by simp, by simp⟩
  have helems : ∀ (t : Reader) (array : Bool), t.In n → t.size < (n : ℤ) →
      (unpackElems mem fuel t array .nil).Sound C G (fun _ => True) Stop.Raised :=
    fun t array ht hsize => unpackElems_sound H fuel t array .nil ht (by omega)
  exact Traced.Sound.bind (unpackDict_sound H helems hin le_rfl false) fun _ hr => Traced.Sound.pure hr.1

theorem length_le (mem : Mem) (p : ℤ) : signed 4 (ofLe (slice mem p 4)) ≤ INT_MAX := by
  have hr := (signed_range (ofLe_lt (slice mem p 4))).2
  rw [slice_length] at hr
  simp only [INT_MAX]
  omega

/-- Decoding a block whose length is in its first bytes stays inside and ends, if and only if
    every length on its way fits: a document has at least 5 bytes, a binary, code and a symbol
    at least 0, code with a scope at least 4, a pointer into another collection at least
    -12, and none is so long that `int` overflows. -/
theorem decode_inside_iff (mem : Mem) {n fuel : ℕ} (hn : 4 ≤ n)
    (hlen : signed 4 (ofLe (slice mem 0 4)) = n) (hfuel : n ≤ fuel) :
    Inside n (ldecode mem fuel) ↔ ∀ o ∈ (ldecode mem fuel).trace, o.Fits := by
  have hint : (n : ℤ) ≤ INT_MAX := by
    rw [← hlen]
    exact length_le mem 0
  constructor
  · rintro ⟨hgood, -⟩
    exact (ldecode_sound (rules_good hint) hn hlen hfuel hgood).1
  · intro hfits
    obtain ⟨h1, h2, h3⟩ := ldecode_sound (rules_fits hint) hn hlen hfuel hfits
    refine ⟨h1, ?_⟩
    cases hr : (ldecode mem fuel).result with
    | ok v =>
      obtain ⟨fs, rfl⟩ := h2 v hr
      exact Or.inl ⟨fs, rfl⟩
    | error e =>
      obtain ⟨msg, rfl⟩ := h3 e hr
      exact Or.inr ⟨msg, rfl⟩

/-- The document without elements. -/
theorem decode_inside_iff_empty :
    Inside 5 (ldecode (block [5, 0, 0, 0, 0]) 5) ↔
      ∀ o ∈ (ldecode (block [5, 0, 0, 0, 0]) 5).trace, o.Fits :=
  decode_inside_iff _ (by decide) (by decide) le_rfl

/-- The document in `a` declares -100 bytes: its last byte is looked for before the block. -/
theorem decode_not_inside : ¬ ∀ (mem : Mem) (n fuel : ℕ), 4 ≤ n →
    signed 4 (ofLe (slice mem 0 4)) = n → n ≤ fuel → Inside n (ldecode mem fuel) := by
  intro h
  have hin := h (block [12, 0, 0, 0, 3, 97, 0, 156, 255, 255, 255, 0]) 12 12 (by decide) (by decide) le_rfl
  have hread : (0 : ℤ) ≤ -94 ∧ _ := hin.1 (.read (-94) 1) (by decide)
  exact absurd hread.1 (by decide)

end Levent.Bson
