/-
  A document is decoded alike wherever it is in memory: `bson.decode` is given a pointer,
  and `append_one` copies a document into another one.
-/
import Levent.Bson.Elements

namespace Levent.Bson

open Lib

/-- The memory as it is seen from the address `d`. -/
def fromAddress (mem : Mem) (d : ℤ) : Mem := fun p => mem (d + p)

/-- The reader of the memory that is seen so is this one in the whole memory. -/
def Reader.seen (t : Reader) (d : ℤ) : Reader := ⟨d + t.ptr, t.size⟩

variable {mem : Mem} {d p : ℤ} {m fuel : ℕ} {bs rest : Bytes} {t : Reader} {bt : UInt8} {v : Value}
  {elems elems' : Reader → Bool → Read Fields}

theorem slice_fromAddress (mem : Mem) (d p : ℤ) (n : ℕ) : slice (fromAddress mem d) p n = slice mem (d + p) n := by
  simp only [slice, fromAddress, add_assoc]

theorem holds_fromAddress : Holds (fromAddress mem d) p bs ↔ Holds mem (d + p) bs := by
  rw [Holds, Holds, slice_fromAddress]

theorem Reader.seen_drop (t : Reader) (d k : ℤ) : (t.seen d).drop k = (t.drop k).seen d := by
  rw [Reader.drop, Reader.seen, Reader.drop, Reader.seen, add_assoc]

/-- A value is read in the whole memory as from the address on. -/
theorem Reads.seen (h : Reads (fromAddress mem d) elems t bt v m)
    (helems : ∀ t' array fs, t'.size ≤ t.size → (elems t' array).result = .ok fs →
      (elems' (t'.seen d) array).result = .ok fs) : Reads mem elems' (t.seen d) bt v m := by
  cases h with
  | fixed hk hle =>
    rw [slice_fromAddress]
    exact .fixed (t := t.seen d) hk hle
  | string hn hle =>
    rw [slice_fromAddress] at hn ⊢
    rw [← add_assoc]
    exact .string (t := t.seen d) hn hle
  | dict hbt hn h5 hle hend hfs =>
    rw [slice_fromAddress] at hn
    rw [fromAddress, ← add_sub_assoc, ← add_assoc] at hend
    have hfs := helems _ _ _ (by dsimp only; omega) hfs
    rw [Reader.seen, ← add_assoc] at hfs
    exact .dict (t := t.seen d) hbt hn h5 hle hend hfs
  | binary hn hle =>
    rw [slice_fromAddress] at hn ⊢
    rw [← add_assoc]
    exact .binary (t := t.seen d) hn hle
  | regex h1 h2 hr hle => exact .regex (t := t.seen d) h1 h2 (holds_fromAddress.1 hr) hle
  | raw hc hn h4 hle =>
    rw [slice_fromAddress] at hn ⊢
    exact .raw (t := t.seen d) hc hn h4 hle

/-- So are the elements of a document, also where the loop may go on for longer. -/
theorem unpackElems_seen : ∀ {fuel fuel' : ℕ} {t : Reader} {array : Bool} {fs fs' : Fields}, fuel ≤ fuel' →
    t.size ≤ INT_MAX → (unpackElems (fromAddress mem d) fuel t array fs).result = .ok fs' →
    (unpackElems mem fuel' (t.seen d) array fs).result = .ok fs' := by
  intro fuel
  induction fuel with
  | zero =>
    intro fuel' t array fs fs' _ _ h
    cases h
  | succ fuel ih =>
    intro fuel' t array fs fs' hle ht h
    obtain ⟨fuel', rfl⟩ := Nat.exists_eq_succ_of_ne_zero (Nat.ne_zero_of_lt hle)
    have hle := Nat.le_of_succ_le_succ hle
    rw [unpackElems_ok (t := t.seen d) ht]
    rcases (unpackElems_ok ht).1 h with h0 | ⟨h0, key, v, t', hz, hkey, hfits, hv, h⟩
    · exact Or.inl h0
    · have hsize : (t.drop (key.length + 2)).size ≤ INT_MAX := by
        rw [Reader.drop_size]
        omega
      have hsize0 : 0 ≤ (t.drop (key.length + 2)).size := by
        rw [Reader.drop_size]
        omega
      obtain ⟨m, hm, rfl⟩ := (reads_iff (fun _ _ _ => elemsOf_size) hsize0 hsize).1 hv
      rw [holds_fromAddress, ← add_assoc] at hkey
      have hseen : Reads mem (elemsOf mem fuel') ((t.drop (key.length + 2)).seen d) (mem (d + t.ptr)) v m :=
        hm.seen fun t' array fs h1 h2 => ih hle (h1.trans hsize) h2
      refine Or.inr ⟨h0, key, v, ((t.drop (key.length + 2)).seen d).drop m, hz, hkey, hfits, ?_, ?_⟩
      · rw [Reader.seen_drop]
        exact (reads_iff (t := (t.drop _).seen d) (fun _ _ _ => elemsOf_size) hsize0 hsize).2 ⟨m, hseen, rfl⟩
      · rw [Reader.seen_drop]
        refine ih hle ?_ h
        have hmle := hm.le
        rw [Reader.drop_size]
        omega

/-! ## Documents -/

/-- What a document on its own is decoded as, if it is. -/
def docValue (doc : Bytes) : Option Value := (ldecode (block doc) doc.length).result.toOption

theorem docValue_eq : docValue bs = some v ↔ (ldecode (block bs) bs.length).result = .ok v := by
  unfold docValue
  cases (ldecode (block bs) bs.length).result <;> simp [Except.toOption]

/-- **A document is decoded where it is** as on its own. -/
theorem unpackDict_docValue (hv : docValue bs = some v) (h5 : 5 ≤ bs.length)
    (hlen : signed 4 (ofLe (bs.take 4)) = bs.length) (h : t.At mem (bs ++ rest)) (hf : bs.length ≤ fuel) :
    (unpackDict mem (elemsOf mem fuel) t false).result = .ok (v, t.drop bs.length) := by
  have hle := h.le
  have hint := h.int
  obtain ⟨n, es, hd, rfl⟩ := ldecode_iff.1 (docValue_eq.1 hv)
  have hself : (⟨0, bs.length⟩ : Reader).At (block bs) bs := ⟨holds_block bs, rfl, by dsimp only; omega⟩
  obtain rfl : n = bs.length := by
    have hn := hd.length
    rw [hself.take (n := 4) (by omega), hlen] at hn
    exact_mod_cast hn.symm
  have hhere : Holds (fromAddress mem t.ptr) 0 bs := by
    rw [holds_fromAddress, add_zero]
    exact (holds_append.1 h.holds).1
  have hagree := (holds_block bs).agree hhere
  rw [zero_add] at hagree
  have hsize : (⟨4, bs.length - 5⟩ : Reader).size ≤ INT_MAX := by
    dsimp only
    omega
  have helems : (unpackElems mem fuel (Reader.seen ⟨4, bs.length - 5⟩ t.ptr) false .nil).result =
      .ok (valuesOf es .nil) := by
    refine unpackElems_seen hf hsize ((unpackElems_iff hsize).2 ⟨es, ?_, rfl⟩)
    exact hd.elements.congr hsize (hagree.mono (by dsimp only; omega) (by dsimp only; omega))
  refine (dict_ok (fun _ _ _ => elemsOf_size) hint).2 ⟨bs.length, _, ?_, h5, hle, ?_, helems, rfl, rfl⟩
  · rw [h.take (n := 4) (by rw [List.length_append]; omega), List.take_append_of_le_length (by omega), hlen]
  · have hlast := hagree (bs.length - 1) (by omega) (by omega)
    rw [hd.last, fromAddress, ← add_sub_assoc] at hlast
    exact hlast

end Levent.Bson
