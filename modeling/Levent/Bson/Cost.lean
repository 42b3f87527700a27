/-
  A value takes at least the bytes it needs.
-/
import Levent.Bson.Reads

namespace Levent.Bson

open Lib

/-! ## The least bytes for a value -/

/-- For a string the bytes after the key of an element. -/
def stringNeed : Bytes → ℕ
  | 0 :: subt :: p =>
    match subt with
    | 5 | 9 => p.length + 4
    | 7 | 10 | 11 | 12 | 13 | 14 | 15 | 17 | 127 | 255 => p.length
    | _ => p.length + 7
  | s => s.length + 5

def Key.need : Key → ℕ
  | .int _ => 2
  | .str s => s.length + 2

mutual
def Value.need : Value → ℕ
  | .real _ => 8
  | .int n => if -2 ^ 31 ≤ n ∧ n ≤ 2 ^ 31 - 1 then 4 else 8
  | .bool _ => 1
  | .str s => stringNeed s
  | .table fs => fs.need + 5

def Fields.need : Fields → ℕ
  | .nil => 0
  | .cons k v fs => k.need + v.need + fs.need
end

theorem Key.two_le (k : Key) : 2 ≤ k.need := by
  cases k <;> simp [Key.need]

theorem elementKey_need (array : Bool) (key : Bytes) : (elementKey array key).need ≤ key.length + 2 := by
  unfold elementKey
  split <;> simp [Key.need]

theorem stringNeed_le (s : Bytes) : stringNeed s ≤ s.length + 5 := by
  unfold stringNeed
  split
  · split <;> simp only [List.length_cons] <;> omega
  · exact le_rfl

theorem Fields.get_set (k k' : Key) (v : Value) :
    ∀ fs : Fields, (fs.set k v).get k' = if k = k' then some v else fs.get k'
  | .nil => rfl
  | .cons k1 v1 fs => by
    have ih := Fields.get_set k k' v fs
    by_cases h1 : k1 = k
    · subst h1
      simp only [Fields.set, if_true, Fields.get]
      split <;> rfl
    · simp only [Fields.set, if_neg h1, Fields.get, ih]
      by_cases h2 : k1 = k'
      · rw [if_pos h2, if_pos h2, if_neg]
        rintro rfl
        exact h1 h2
      · rw [if_neg h2, if_neg h2]

theorem Fields.need_set (k : Key) (v : Value) :
    ∀ fs : Fields, (fs.set k v).need ≤ fs.need + (k.need + v.need)
  | .nil => by simp [Fields.set, Fields.need]
  | .cons k1 v1 fs => by
    have ih := Fields.need_set k v fs
    by_cases h1 : k1 = k
    · simp only [Fields.set, if_pos h1, Fields.need]
      omega
    · simp only [Fields.set, if_neg h1, Fields.need]
      omega

/-- A field that is there is replaced. -/
theorem Fields.need_set_some {k : Key} {v0 : Value} (v : Value) :
    ∀ {fs : Fields}, fs.get k = some v0 → (fs.set k v).need + 2 ≤ fs.need + (k.need + v.need)
  | .cons k1 v1 fs, h => by
    have h2 := k.two_le
    by_cases h1 : k1 = k
    · subst h1
      simp only [Fields.set, if_true, Fields.need]
      omega
    · simp only [Fields.get, if_neg h1] at h
      have ih := Fields.need_set_some v h
      simp only [Fields.set, if_neg h1, Fields.need]
      omega

/-! ## Values that are read -/

variable {mem : Mem} {t : Reader} {elems : Reader → Bool → Read Fields} {bt : UInt8} {v : Value} {k m : ℕ}

theorem int32_need (k : ℕ) (h : k < 256 ^ 4) : (Value.int (signed 4 k)).need = 4 := by
  have hr := signed_range h
  exact if_pos (by omega)

theorem int_need (n : ℤ) : (Value.int n).need ≤ 8 := by
  unfold Value.need
  split <;> omega

theorem fixedValue_need {s : Bytes} (hk : fixedSize bt = some k) (hs : s.length = k) :
    (fixedValue bt s).need ≤ k := by
  unfold fixedSize at hk
  split at hk
  · cases hk
    exact le_rfl
  · cases hk
    show (leBytes 4 _).length + 4 ≤ 8
    rw [leBytes_length]
  · cases hk
    exact hs.le
  · cases hk
    exact int_need _
  · cases hk
    exact le_rfl
  · cases hk
    exact hs.le
  · cases hk
    have hlt := ofLe_lt s
    rw [hs] at hlt
    exact (int32_need _ hlt).le
  · cases hk
    exact hs.le
  · cases hk
    exact hs.le
  · cases hk
    exact hs.le
  · cases hk

theorem counted_need {c : ℤ} (hc : counted bt = some c) (s : Bytes) : (object bt s).need = s.length := by
  unfold counted at hc
  split at hc
  all_goals first | rfl | cases hc

/-- A value takes at least the bytes it needs. -/
theorem Reads.need_le (h : Reads mem elems t bt v m) (ht : t.size ≤ INT_MAX)
    (helems : ∀ t array fs, t.size ≤ INT_MAX → (elems t array).result = .ok fs → (fs.need : ℤ) ≤ t.size) :
    v.need ≤ m := by
  cases h with
  | fixed hk hle => exact fixedValue_need hk (slice_length ..)
  | @string n hn hle =>
    have hneed := stringNeed_le (slice mem (t.ptr + 4) n)
    rwa [slice_length] at hneed
  | dict hbt hn h5 hle hend hfs =>
    have hneed := helems _ _ _ (by dsimp only; omega) hfs
    simp only [Value.need] at hneed ⊢
    omega
  | @binary n hn hle =>
    show (slice mem (t.ptr + 4) (n + 1)).length + 4 ≤ n + 5
    rw [slice_length]
  | regex => exact le_rfl
  | raw hc hn h4 hle => rw [counted_need hc, slice_length]

theorem unpackValue_cost {t' : Reader} {fuel : ℕ} (helems : ∀ t array fs, t.size ≤ INT_MAX →
    (elemsOf mem fuel t array).result = .ok fs → (fs.need : ℤ) ≤ t.size) (h0 : 0 ≤ t.size)
    (ht : t.size ≤ INT_MAX) (h : (unpackValue mem (elemsOf mem fuel) bt t).result = .ok (v, t')) :
    v.need + t'.size ≤ t.size := by
  obtain ⟨m, hm, rfl⟩ := (reads_iff (fun _ _ _ => elemsOf_size) h0 ht).1 h
  have hneed := hm.need_le ht helems
  rw [Reader.drop_size]
  omega

/-! ## Documents -/

variable {fs fs' : Fields} {array : Bool} {fuel : ℕ}

/-- No key has a NUL in it. -/
def Fields.Clean (fs : Fields) : Prop := ∀ s, fs.get (.str s) ≠ none → 0 ∉ s

/-- What is in `fs` and in what is left of the document is enough for `fs'`, and a field
    that `fs'` has another value for has cost two bytes at least. -/
structure Grows (fs fs' : Fields) (size : ℤ) : Prop where
  need : (fs'.need : ℤ) ≤ fs.need + size
  kept : ∀ k v, fs.get k = some v → fs'.get k = some v ∨ (fs'.need : ℤ) + 2 ≤ fs.need + size
  clean : fs.Clean → fs'.Clean

theorem Grows.set {k : Key} {v : Value} {key : Bytes} {size size' : ℤ} (hkey : 0 ∉ key)
    (hk : k.need ≤ key.length + 2) (hclean : ∀ s, k = .str s → s = key)
    (hv : v.need + size' ≤ size - (key.length + 2)) (h : Grows (fs.set k v) fs' size') : Grows fs fs' size := by
  have h1 := fs.need_set k v
  obtain ⟨h2, h3, h4⟩ := h
  refine ⟨by omega, ?_, ?_⟩
  · intro k' v' hget
    by_cases hkk : k = k'
    · subst hkk
      have h5 := Fields.need_set_some v hget
      exact Or.inr (by omega)
    · rcases h3 k' v' (by rw [Fields.get_set, if_neg hkk, hget]) with h6 | h6
      · exact Or.inl h6
      · exact Or.inr (by omega)
  · intro hfs
    refine h4 fun s hs => ?_
    rw [Fields.get_set] at hs
    split at hs
    · rename_i hks
      rw [hclean s hks]
      exact hkey
    · exact hfs s hs

theorem elementKey_str {key s : Bytes} (h : elementKey array key = .str s) : s = key := by
  unfold elementKey at h
  split at h
  · cases h
  · cases h
    rfl

theorem unpackElems_grows : ∀ {fuel : ℕ} {t : Reader} {array : Bool} {fs fs' : Fields}, t.size ≤ INT_MAX →
    (unpackElems mem fuel t array fs).result = .ok fs' → Grows fs fs' t.size := by
  intro fuel
  induction fuel with
  | zero =>
    intro t array fs fs' _ h
    cases h
  | succ fuel ih =>
    intro t array fs fs' ht h
    rcases (unpackElems_ok ht).1 h with ⟨h0, rfl⟩ | ⟨-, key, v, t', hz, -, hle, hv, h⟩
    · exact ⟨by omega, fun k v hk => Or.inl hk, id⟩
    · have helems : ∀ t array fs, t.size ≤ INT_MAX → (elemsOf mem fuel t array).result = .ok fs →
          (fs.need : ℤ) ≤ t.size := by
        intro t array fs ht h
        have := (ih ht h).need
        simpa [Fields.need] using this
      have hcost := unpackValue_cost helems (by rw [Reader.drop_size]; omega)
        (by rw [Reader.drop_size]; omega) hv
      rw [Reader.drop_size] at hcost
      refine Grows.set hz (elementKey_need array key) (fun s => elementKey_str) ?_ (ih ?_ h)
      · omega
      · omega

theorem elemsOf_need (t : Reader) (array : Bool) (fs : Fields) (ht : t.size ≤ INT_MAX)
    (h : (elemsOf mem fuel t array).result = .ok fs) : (fs.need : ℤ) ≤ t.size := by
  have := (unpackElems_grows ht h).need
  simpa [Fields.need] using this

end Levent.Bson
