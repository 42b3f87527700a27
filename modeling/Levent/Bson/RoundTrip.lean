/-
  `bson.decode` of what `bson.encode` has written.

  For a table whose strings and keys are written in full, decoding is followed
  field by field.  For another table it cannot make up for the field that is not
  read back: every byte is taken by a field that the table needs.
-/
import Levent.Bson.Encode
import Levent.Bson.Cost

namespace Levent.Bson

open Lib

/-! ## Equality -/

mutual
/-- The value is equal to the item, with the fields of a table in any order. -/
def Item.Is : Item → Value → Prop
  | .int n, .int z => z = n.toInt
  | .bool b, .bool b' => b' = b
  | .str s, .str s' => s' = s
  | .dict d, .table fs => d.Within fs ∧ ∀ k, fs.get k ≠ none → ∃ key ∈ d.keys, k = .str key
  | _, _ => False

/-- The fields are there, with equal values. -/
def Dict.Within : Dict → Fields → Prop
  | .nil, _ => True
  | .cons key v d, fs => (∃ w, fs.get (.str key) = some w ∧ v.Is w) ∧ d.Within fs
end

/-! ## Tables that are read back -/

/-- The number in the first four bytes is that of the bytes in `p` without `c`. -/
def Counted (c : ℤ) (p rest : Bytes) : Prop :=
  4 ≤ (p ++ rest).length ∧ signed 4 (ofLe ((p ++ rest).take 4)) + c = p.length

/-- A string that is written as an element of another type is what this element is read
    as, with the bytes `rest` behind it. -/
def stringExact (rest : Bytes) : Bytes → Prop
  | 0 :: subt :: p =>
    match subt with
    | 5 => p ≠ []
    | 10 | 127 | 255 => p = []
    | 11 => ∃ r1 r2, 0 ∉ r1 ∧ 0 ∉ r2 ∧ p = r1 ++ 0 :: r2 ++ [0]
    | 12 => Counted 16 p rest
    | 13 | 14 => Counted 4 p rest
    | 15 => Counted 0 p rest
    | _ => True
  | _ => True

mutual
def Item.Plain (rest : Bytes) : Item → Prop
  | .str s => stringExact rest s
  | .dict d => d.Plain
  | _ => True

/-- No key has a NUL in it, and all strings are exact. -/
def Dict.Plain : Dict → Prop
  | .nil => True
  | .cons key v d => 0 ∉ key ∧ v.Plain d.body ∧ d.Plain
end

/-! ## The bytes that are needed -/

theorem splitNul_length {s r1 r2 : Bytes} (h : splitNul s = some (r1, r2)) : s = r1 ++ 0 :: r2 := by
  unfold splitNul at h
  split at h
  · cases h
  · rename_i b r hr
    cases h
    have hb : b = 0 := by
      have := List.head?_dropWhile_not (· ≠ (0 : UInt8)) s.reverse
      rw [hr] at this
      simpa using this
    have hs := List.takeWhile_append_dropWhile (p := fun x : UInt8 => decide (x ≠ 0)) (l := s.reverse)
    rw [hr, hb] at hs
    have := congrArg List.reverse hs
    simpa using this.symm

theorem splitNul_append {r1 r2 : Bytes} (h : 0 ∉ r2) : splitNul (r1 ++ 0 :: r2) = some (r1, r2) := by
  have hall : ∀ b ∈ r2.reverse, decide (b ≠ (0 : UInt8)) = true := by
    intro b hb
    refine decide_eq_true ?_
    rintro rfl
    exact h (List.mem_reverse.1 hb)
  have hr : (r1 ++ 0 :: r2).reverse = r2.reverse ++ 0 :: r1.reverse := by simp
  unfold splitNul
  rw [hr, List.dropWhile_append_of_pos hall, List.takeWhile_append_of_pos hall,
    List.dropWhile_cons_of_neg (by simp), List.takeWhile_cons_of_neg (by simp), List.append_nil]
  simp

theorem stringPayload_need {s c : Bytes} (h : stringPayload s = some c) : c.length ≤ stringNeed s := by
  unfold stringPayload at h
  split at h
  · rename_i subt p
    split at h
    · cases h
      simp only [stringNeed, List.length_append, leBytes_length]
      omega
    · split at h
      · cases h
      · cases h
        exact le_rfl
    · cases h
      exact le_rfl
    · cases h
      exact le_rfl
    · cases h
      exact le_rfl
    · cases h
      exact le_rfl
    · split at h
      · cases h
      · cases h
        simp only [stringNeed, leBytes_length]
        omega
    · split at h
      · cases h
      · cases h
        exact le_rfl
    · -- a regular expression
      obtain ⟨⟨r1, r2⟩, hs, hc⟩ := Option.map_eq_some_iff.1 h
      have hl := congrArg List.length (splitNul_length hs)
      cases hc
      simp only [List.length_dropLast, List.length_append, List.length_cons] at hl
      simp only [stringNeed, List.length_append, List.length_cons, List.length_nil]
      omega
    · cases h
      exact Nat.zero_le _
    · cases h
      exact Nat.zero_le _
    · cases h
      exact Nat.zero_le _
    · cases h
  · rename_i hs
    cases h
    have hneed : stringNeed s = s.length + 5 := by
      unfold stringNeed
      split
      · exact (hs _ _ rfl).elim
      · rfl
    rw [hneed]
    simp only [List.length_append, leBytes_length, List.length_cons, List.length_nil]
    omega

mutual
theorem Item.payload_need : ∀ v : Item, v.Accepted → v.payload.length ≤ v.value.need
  | .int n, _ => by
    simp only [Item.payload, Item.value, Value.need, is32bit, decide_eq_true_eq]
    split <;> simp
  | .bool b, _ => le_rfl
  | .str s, h => by
    obtain ⟨c, hc⟩ := Option.isSome_iff_exists.1 h
    rw [Item.payload, hc]
    exact stringPayload_need hc
  | .dict d, h => by
    have hd := Dict.body_need d h
    simp only [Item.payload, document, Item.value, Value.need, List.length_append, leBytes_length,
      List.length_cons, List.length_nil]
    omega

theorem Dict.body_need : ∀ d : Dict, d.Accepted → d.body.length ≤ d.fields.need
  | .nil, _ => le_rfl
  | .cons key v d, h => by
    have hv := Item.payload_need v h.1
    have hd := Dict.body_need d h.2
    simp only [Dict.body, Dict.fields, Fields.need, Key.need, List.length_append, List.length_cons]
    omega
end

/-- The fields without the one of the key. -/
def Fields.erase (k : Key) : Fields → Fields
  | .nil => .nil
  | .cons k' v fs => if k' = k then fs.erase k else .cons k' v (fs.erase k)

theorem Fields.get_erase {k k' : Key} (h : k ≠ k') : ∀ fs : Fields, (fs.erase k).get k' = fs.get k'
  | .nil => rfl
  | .cons k1 v fs => by
    have ih := Fields.get_erase h fs
    by_cases h1 : k1 = k
    · subst h1
      simp only [Fields.erase, if_true, Fields.get, if_neg h, ih]
    · simp only [Fields.erase, if_neg h1, Fields.get, ih]

theorem Fields.need_erase_le (k : Key) : ∀ fs : Fields, (fs.erase k).need ≤ fs.need
  | .nil => le_rfl
  | .cons k1 v fs => by
    have ih := Fields.need_erase_le k fs
    simp only [Fields.erase]
    split <;> simp only [Fields.need] <;> omega

theorem Fields.need_erase {k : Key} {v : Value} :
    ∀ {fs : Fields}, fs.get k = some v → (fs.erase k).need + (k.need + v.need) ≤ fs.need
  | .cons k1 v1 fs, h => by
    by_cases h1 : k1 = k
    · subst h1
      simp only [Fields.get, if_true, Option.some.injEq] at h
      subst h
      have := Fields.need_erase_le k1 fs
      simp only [Fields.erase, if_true, Fields.need]
      omega
    · simp only [Fields.get, if_neg h1] at h
      have ih := Fields.need_erase h
      simp only [Fields.erase, if_neg h1, Fields.need]
      omega

theorem Dict.within_erase {key : Bytes} : ∀ {d : Dict} {fs : Fields}, key ∉ d.keys → d.Within fs →
    d.Within (fs.erase (.str key))
  | .nil, _, _, _ => trivial
  | .cons key' v d, fs, hk, ⟨⟨w, hw, hv⟩, hd⟩ => by
    simp only [Dict.keys, List.mem_cons, not_or] at hk
    refine ⟨⟨w, ?_, hv⟩, Dict.within_erase hk.2 hd⟩
    rw [Fields.get_erase, hw]
    intro h
    exact hk.1 (Key.str.inj h)

mutual
/-- An equal value needs no fewer bytes. -/
theorem Item.need_le : ∀ {v : Item} {w : Value}, v.Distinct → v.Is w → v.value.need ≤ w.need
  | .int n, .int z, _, h => by
    cases h
    exact le_rfl
  | .bool b, .bool b', _, _ => le_rfl
  | .str s, .str s', _, h => by
    cases h
    exact le_rfl
  | .dict d, .table fs, hd, h => Nat.add_le_add_right (Dict.need_le hd h.1) 5

theorem Dict.need_le : ∀ {d : Dict} {fs : Fields}, d.Distinct → d.Within fs → d.fields.need ≤ fs.need
  | .nil, _, _, _ => Nat.zero_le _
  | .cons key v d, fs, ⟨hk, hv, hd⟩, ⟨⟨w, hw, hvw⟩, h⟩ => by
    have h1 := Item.need_le hv hvw
    have h2 := Dict.need_le hd (Dict.within_erase hk h)
    have h3 := Fields.need_erase hw
    simp only [Dict.fields, Fields.need]
    omega
end

/-! ## Reading what was written -/

/-- The reader is for the bytes `bs`. -/
structure Reader.At (mem : Mem) (bs : Bytes) (t : Reader) : Prop where
  holds : Holds mem t.ptr bs
  size : t.size = bs.length
  int : t.size ≤ INT_MAX

variable {mem : Mem} {t t' : Reader} {bs cs rest : Bytes} {elems : Reader → Bool → Read Fields}

theorem Reader.At.drop (h : t.At mem (bs ++ cs)) : (t.drop bs.length).At mem cs := by
  obtain ⟨hh, hs, hi⟩ := h
  rw [List.length_append] at hs
  push_cast at hs
  refine ⟨(holds_append.1 hh).2, ?_, ?_⟩ <;> rw [Reader.drop_size] <;> omega

/-- The first bytes. -/
theorem Reader.At.slice {n : ℕ} (h : t.At mem (bs ++ cs)) (hn : bs.length = n) : slice mem t.ptr n = bs := by
  have := (holds_append.1 h.holds).1.slice
  rwa [hn] at this

theorem Reader.At.le (h : t.At mem (bs ++ cs)) : (bs.length : ℤ) ≤ t.size := by
  have hs := h.size
  rw [List.length_append] at hs
  push_cast at hs
  omega

/-- The number in the first bytes. -/
theorem Reader.At.signed {n : ℕ} {x : ℤ} (h : t.At mem (leBytes n (unsigned n x) ++ cs)) (h0 : -256 ^ n ≤ 2 * x)
    (h1 : 2 * x < 256 ^ n) : Lib.signed n (ofLe (Lib.slice mem t.ptr n)) = x := by
  rw [h.slice (leBytes_length _ _), ofLe_leBytes (unsigned_lt n x), signed_unsigned h0 h1]

theorem unpackValue_fixed {bt : UInt8} {p : Bytes} (hk : fixedSize bt = some p.length)
    (h : t.At mem (p ++ rest)) :
    (unpackValue mem elems bt t).result = .ok (fixedValue bt p, t.drop p.length) := by
  have hsize := h.size
  refine (fixed_ok hk (by omega) h.int).2 ⟨h.le, ?_, rfl⟩
  rw [h.slice rfl]

theorem unpackValue_int {n : Int64} (h : t.At mem ((Item.int n).payload ++ rest)) :
    (unpackValue mem elems (Item.int n).type t).result =
      .ok (.int n.toInt, t.drop (Item.int n).payload.length) := by
  simp only [Item.type, Item.payload] at h ⊢
  split
  · rename_i h32
    rw [if_pos h32] at h
    simp only [is32bit, decide_eq_true_eq] at h32
    rw [unpackValue_fixed (by rw [leBytes_length]; rfl) h]
    show Except.ok (Value.int (signed 4 (ofLe (leBytes 4 (unsigned 4 n.toInt)))), _) = _
    rw [ofLe_leBytes (unsigned_lt 4 _), signed_unsigned (by omega) (by omega)]
  · rename_i h32
    rw [if_neg h32] at h
    have h0 := n.le_toInt
    have h1 := n.toInt_lt
    rw [unpackValue_fixed (by rw [leBytes_length]; rfl) h]
    show Except.ok (Value.int (signed 8 (ofLe (leBytes 8 (unsigned 8 n.toInt)))), _) = _
    rw [ofLe_leBytes (unsigned_lt 8 _), signed_unsigned (by omega) (by omega)]

theorem unpackValue_bool {b : Bool} (h : t.At mem ((Item.bool b).payload ++ rest)) :
    (unpackValue mem elems (Item.bool b).type t).result =
      .ok (.bool b, t.drop (Item.bool b).payload.length) := by
  rw [Item.type, unpackValue_fixed rfl h]
  cases b <;> rfl

/-! ## Strings -/

theorem object_inj {bt : UInt8} {p q : Bytes} (h : object bt p = object bt q) : p = q :=
  List.tail_eq_of_cons_eq (List.tail_eq_of_cons_eq (Value.str.inj h))

theorem Reader.At.take {n : ℕ} (h : t.At mem bs) (hn : n ≤ bs.length) : Lib.slice mem t.ptr n = bs.take n := by
  have h' : t.At mem (bs.take n ++ bs.drop n) := by rwa [List.take_append_drop]
  exact h'.slice (List.length_take_of_le hn)

/-- A type that is kept with its length is read back where the length is right. -/
theorem unpackValue_counted {bt : UInt8} {c : ℤ} {p : Bytes} (hc : counted bt = some c)
    (h : t.At mem (p ++ rest)) :
    (unpackValue mem elems bt t).result = .ok (object bt p, t') ↔
      Counted c p rest ∧ t' = t.drop p.length := by
  rw [counted_ok hc h.int]
  have hsize := h.size
  constructor
  · rintro ⟨n, hn, h4, -, hp, rfl⟩
    have hp := object_inj hp
    have hlen := tail_length hp
    subst hlen
    refine ⟨⟨by omega, ?_⟩, rfl⟩
    rw [← h.take (by omega), hn]
  · rintro ⟨⟨h4, hsz⟩, rfl⟩
    refine ⟨p.length, ?_, by omega, h.le, ?_, rfl⟩
    · rw [h.take h4, hsz]
    · rw [h.slice rfl]

theorem unpackValue_str {s : Bytes}
    (h : t.At mem (leBytes 4 (unsigned 4 (s.length + 1)) ++ s ++ [0] ++ rest)) :
    (unpackValue mem elems 2 t).result =
      .ok (.str s, t.drop (leBytes 4 (unsigned 4 (s.length + 1)) ++ s ++ [0]).length) := by
  have hint := h.int
  have hle := h.le
  have hmax : INT_MAX = 2 ^ 31 - 1 := rfl
  have hlen : (leBytes 4 (unsigned 4 (s.length + 1)) ++ s ++ [0]).length = s.length + 5 := by
    simp only [List.length_append, leBytes_length, List.length_singleton]
    omega
  rw [hlen] at hle ⊢
  push_cast at hle
  rw [List.append_assoc, List.append_assoc] at h
  have ht := h.drop
  rw [leBytes_length] at ht
  have hs : slice mem (t.ptr + 4) s.length = s := ht.slice rfl
  refine (string_ok hint).2 ⟨s.length, h.signed (by omega) (by omega), hle, ?_, rfl⟩
  rw [hs]

/-- A binary has a subtype. -/
theorem unpackValue_binary {subtype : UInt8} {p : Bytes}
    (h : t.At mem (leBytes 4 (unsigned 4 p.length) ++ subtype :: p ++ rest)) :
    (unpackValue mem elems 5 t).result = .ok (object 5 (subtype :: p),
      t.drop (leBytes 4 (unsigned 4 p.length) ++ subtype :: p).length) := by
  have hint := h.int
  have hle := h.le
  have hmax : INT_MAX = 2 ^ 31 - 1 := rfl
  have hlen : (leBytes 4 (unsigned 4 p.length) ++ subtype :: p).length = p.length + 5 := by
    rw [List.length_append, leBytes_length, List.length_cons]
    omega
  rw [hlen] at hle ⊢
  push_cast at hle
  rw [List.append_assoc] at h
  have ht := h.drop
  rw [leBytes_length] at ht
  have hs : slice mem (t.ptr + 4) (p.length + 1) = subtype :: p := ht.slice rfl
  refine (binary_ok hint).2 ⟨p.length, h.signed (by omega) (by omega), hle, ?_, rfl⟩
  rw [hs]

theorem fixedValue_date {p : Bytes} (hl : p.length = 4) :
    fixedValue 9 (leBytes 8 (unsigned 8 (ofLe p * 1000))) = object 9 p := by
  have hlt := ofLe_lt p
  have hle := leBytes_ofLe p
  rw [hl] at hlt hle
  have hdiv : ((ofLe p : ℤ) * 1000).tdiv 1000 = ofLe p := Int.mul_tdiv_cancel _ (by decide)
  rw [fixedValue, ofLe_leBytes (unsigned_lt 8 _), signed_unsigned (by omega) (by omega), hdiv,
    unsigned_natCast hlt, hle]

theorem unpackValue_regex {r1 r2 : Bytes} (h1 : 0 ∉ r1) (h2 : 0 ∉ r2)
    (h : t.At mem (r1 ++ 0 :: r2 ++ [0] ++ rest)) :
    (unpackValue mem elems 11 t).result =
      .ok (object 11 (r1 ++ 0 :: r2 ++ [0]), t.drop (r1 ++ 0 :: r2 ++ [0]).length) :=
  (regex_ok h.int).2 ⟨r1, r2, h1, h2, (holds_append.1 h.holds).1, h.le, rfl, rfl⟩

theorem unpackValue_empty {bt : UInt8} (hbt : bt = 255 ∨ bt = 127 ∨ bt = 10) :
    (unpackValue mem elems bt t).result = .ok (object bt [], t) := by
  rcases hbt with rfl | rfl | rfl <;> rfl

/-- A string is read back where it is exact. -/
theorem unpackValue_exact {s c : Bytes} (hc : stringPayload s = some c) (h : t.At mem (c ++ rest))
    (hs : stringExact rest s) :
    (unpackValue mem elems (stringType s) t).result = .ok (.str s, t.drop c.length) := by
  unfold stringPayload at hc
  split at hc
  · rename_i subt p
    split at hc
    · cases hc
      cases p with
      | nil => exact (hs rfl).elim
      | cons subtype p =>
        have hx : ((subtype :: p).length : ℤ) - 1 = p.length := by simp
        rw [hx] at h ⊢
        exact unpackValue_binary h
    · -- an object id
      split at hc
      · cases hc
      · rename_i hl
        obtain rfl : p = c := Option.some.inj hc
        exact unpackValue_fixed (by rw [not_not.1 hl]; rfl) h
    · cases hc
      exact (unpackValue_counted rfl h).2 ⟨hs, rfl⟩
    · cases hc
      exact (unpackValue_counted rfl h).2 ⟨hs, rfl⟩
    · cases hc
      exact (unpackValue_counted rfl h).2 ⟨hs, rfl⟩
    · cases hc
      exact (unpackValue_counted rfl h).2 ⟨hs, rfl⟩
    · split at hc
      · cases hc
      · rename_i hl
        cases hc
        have hk : fixedSize 9 = some (leBytes 8 (unsigned 8 (ofLe p * 1000))).length := by
          rw [leBytes_length]
          rfl
        rw [show stringType (0 :: 9 :: p) = 9 from rfl, unpackValue_fixed hk h, fixedValue_date (not_not.1 hl)]
        rfl
    · split at hc
      · cases hc
      · rename_i hl
        obtain rfl : p = c := Option.some.inj hc
        exact unpackValue_fixed (by rw [not_not.1 hl]; rfl) h
    · obtain ⟨r1, r2, h1, h2, rfl⟩ := hs
      have hdrop : (r1 ++ 0 :: r2 ++ [0]).dropLast = r1 ++ 0 :: r2 := List.dropLast_concat
      rw [hdrop, splitNul_append h2] at hc
      cases hc
      exact unpackValue_regex h1 h2 h
    · cases hc
      obtain rfl : p = [] := hs
      exact unpackValue_fixed rfl h
    · cases hc
      obtain rfl : p = [] := hs
      exact unpackValue_fixed rfl h
    · cases hc
      obtain rfl : p = [] := hs
      exact unpackValue_fixed rfl h
    · cases hc
  · rename_i hs'
    cases hc
    have htype : stringType s = 2 := by
      unfold stringType
      split
      · exact (hs' _ _ rfl).elim
      · rfl
    rw [htype]
    exact unpackValue_str h

/-- A binary without a subtype has the length -1. -/
theorem unpackValue_binary_nil {v : Value} (h : t.At mem (leBytes 4 (unsigned 4 (-1)) ++ rest)) :
    (unpackValue mem elems 5 t).result ≠ .ok (v, t') := by
  intro hr
  obtain ⟨n, hn, -⟩ := (binary_ok h.int).1 hr
  rw [h.signed (by omega) (by omega)] at hn
  omega

/-- What is read as a regular expression. -/
theorem unpackValue_regex_ok {p : Bytes} (ht : t.size ≤ INT_MAX)
    (hr : (unpackValue mem elems 11 t).result = .ok (object 11 p, t')) :
    ∃ r1 r2, 0 ∉ r1 ∧ 0 ∉ r2 ∧ p = r1 ++ 0 :: r2 ++ [0] := by
  obtain ⟨r1, r2, h1, h2, -, -, hp, -⟩ := (regex_ok ht).1 hr
  exact ⟨r1, r2, h1, h2, object_inj hp⟩

theorem exact_of_unpack {s c : Bytes} (hc : stringPayload s = some c) (h : t.At mem (c ++ rest))
    (hr : (unpackValue mem elems (stringType s) t).result = .ok (.str s, t')) : stringExact rest s := by
  unfold stringPayload at hc
  split at hc
  · rename_i subt p
    split at hc
    · cases hc
      rintro rfl
      exact unpackValue_binary_nil h hr
    · trivial
    · cases hc
      exact ((unpackValue_counted rfl h).1 hr).1
    · cases hc
      exact ((unpackValue_counted rfl h).1 hr).1
    · cases hc
      exact ((unpackValue_counted rfl h).1 hr).1
    · cases hc
      exact ((unpackValue_counted rfl h).1 hr).1
    · trivial
    · trivial
    · exact unpackValue_regex_ok h.int hr
    · rw [show stringType (0 :: 127 :: p) = 127 from rfl, unpackValue_empty (Or.inr (Or.inl rfl))] at hr
      exact (object_inj (Prod.mk.inj (Except.ok.inj hr)).1).symm
    · rw [show stringType (0 :: 255 :: p) = 255 from rfl, unpackValue_empty (Or.inl rfl)] at hr
      exact (object_inj (Prod.mk.inj (Except.ok.inj hr)).1).symm
    · rw [show stringType (0 :: 10 :: p) = 10 from rfl, unpackValue_empty (Or.inr (Or.inr rfl))] at hr
      exact (object_inj (Prod.mk.inj (Except.ok.inj hr)).1).symm
    · cases hc
  · rename_i hs
    unfold stringExact
    split
    · exact (hs _ _ rfl).elim
    · trivial

/-! ## Documents -/

theorem document_length (body : Bytes) : (document body).length = body.length + 5 := by
  simp only [document, List.length_append, leBytes_length, List.length_singleton]
  omega

theorem document_at {body : Bytes} (h : t.At mem (document body ++ rest)) :
    (⟨t.ptr + 4, body.length⟩ : Reader).At mem body := by
  have hle := h.le
  have hint := h.int
  rw [document_length] at hle
  push_cast at hle
  have hh := (holds_append.1 (holds_append.1 (holds_append.1 h.holds).1).1).2
  rw [leBytes_length] at hh
  exact ⟨hh, rfl, by dsimp only; omega⟩

theorem document_size {body : Bytes} (h : t.At mem (document body ++ rest)) :
    signed 4 (ofLe (slice mem t.ptr 4)) = body.length + 5 := by
  have hle := h.le
  have hint := h.int
  have hmax : INT_MAX = 2 ^ 31 - 1 := rfl
  rw [document_length] at hle
  push_cast at hle
  have h' : t.At mem (leBytes 4 (unsigned 4 (body.length + 5)) ++ (body ++ [0] ++ rest)) := by
    simpa [document] using h
  exact h'.signed (by omega) (by omega)

theorem document_end {body : Bytes} (h : t.At mem (document body ++ rest)) :
    mem (t.ptr + (body.length + 5) - 1) = 0 := by
  have hh := (holds_append.1 (holds_append.1 h.holds).1).2
  rw [List.length_append, leBytes_length] at hh
  rw [← (holds_cons.1 hh).1]
  congr 1
  push_cast
  ring

/-- A document is read, and its elements. -/
theorem unpackDict_at {body : Bytes} {v : Value} {array : Bool} (h : t.At mem (document body ++ rest)) :
    (unpackDict mem elems t array).result = .ok (v, t') ↔ ∃ fs, v = .table fs ∧
      (elems ⟨t.ptr + 4, body.length⟩ array).result = .ok fs ∧ t' = t.drop (document body).length := by
  have hle := h.le
  have hint := h.int
  have hmax : INT_MAX = 2 ^ 31 - 1 := rfl
  rw [document_length] at hle ⊢
  push_cast at hle ⊢
  have hinner : (body.length + 5 : ℤ) - 5 = body.length := by ring
  rw [unpackDict_ok]
  constructor
  · rintro ⟨fs, sz, rfl, hsz, -, -, -, -, -, -, -, hfs, rfl⟩
    rw [document_size h] at hsz
    subst hsz
    rw [hinner] at hfs
    exact ⟨fs, rfl, hfs, rfl⟩
  · rintro ⟨fs, rfl, hfs, rfl⟩
    refine ⟨fs, body.length + 5, rfl, (document_size h).symm, by omega, by omega, by omega, by omega, by omega,
      by omega, document_end h, ?_, rfl⟩
    rwa [hinner]

/-! ## Elements -/

/-- More bytes than there are leave one more round. -/
theorem Reader.At.fuel_succ {fuel : ℕ} (h : t.At mem bs) (hf : t.size < fuel) : ∃ n, fuel = n + 1 := by
  have hsize := h.size
  exact Nat.exists_eq_succ_of_ne_zero (by omega)

/-- An element at the reader: its type, its key, and its value with what follows. -/
theorem Reader.At.element {ty : UInt8} {key p : Bytes} (h : t.At mem (ty :: key ++ 0 :: p ++ rest)) :
    mem t.ptr = ty ∧ Holds mem (t.ptr + 1) (key ++ [0]) ∧ (key.length : ℤ) + 2 ≤ t.size ∧
      (t.drop (key.length + 2)).At mem (p ++ rest) := by
  have h' : t.At mem ((ty :: (key ++ [0])) ++ (p ++ rest)) := by simpa using h
  have hle := h'.le
  have hd := h'.drop
  obtain ⟨h1, h2⟩ := holds_cons.1 (holds_append.1 h'.holds).1
  simp only [List.length_cons, List.length_append, List.length_nil] at hle hd
  push_cast at hle hd
  rw [add_assoc, one_add_one_eq_two] at hd
  exact ⟨h1, h2, by omega, hd⟩

theorem cstring_unique {p : ℤ} {a b : Bytes} (ha : 0 ∉ a) (hb : 0 ∉ b) (h1 : Holds mem p (a ++ [0]))
    (h2 : Holds mem p (b ++ [0])) : a = b := by
  induction a generalizing p b with
  | nil =>
    cases b with
    | nil => rfl
    | cons y b =>
      have h0 := (holds_cons.1 h1).1
      rw [(holds_cons.1 h2).1] at h0
      exact (hb (by simp [h0])).elim
  | cons x a ih =>
    cases b with
    | nil =>
      have h0 := (holds_cons.1 h2).1
      rw [(holds_cons.1 h1).1] at h0
      exact (ha (by simp [h0])).elim
    | cons y b =>
      obtain ⟨hx, h1⟩ := holds_cons.1 h1
      obtain ⟨hy, h2⟩ := holds_cons.1 h2
      rw [List.mem_cons, not_or] at ha hb
      rw [ih ha.2 hb.2 h1 h2, ← hx, hy]

def Fields.append : Fields → Fields → Fields
  | .nil, gs => gs
  | .cons k v fs, gs => .cons k v (fs.append gs)

theorem Fields.set_append {k : Key} {v : Value} {gs : Fields} :
    ∀ {fs : Fields}, fs.get k = none → (fs.set k v).append gs = fs.append (.cons k v gs)
  | .nil, _ => rfl
  | .cons k1 v1 fs, h => by
    by_cases h1 : k1 = k
    · simp only [Fields.get, if_pos h1] at h
      cases h
    · simp only [Fields.get, if_neg h1] at h
      simp only [Fields.set, if_neg h1, Fields.append, Fields.set_append h]

theorem Fields.append_nil : ∀ fs : Fields, fs.append .nil = fs
  | .nil => rfl
  | .cons k v fs => by rw [Fields.append, Fields.append_nil fs]

/-! ## Plain tables are read back -/

mutual
theorem Item.value_plain : ∀ (v : Item) {fuel : ℕ} {t : Reader} {rest : Bytes}, v.Accepted → v.Distinct →
    v.Plain rest → t.At mem (v.payload ++ rest) → t.size ≤ fuel →
    (unpackValue mem (elemsOf mem fuel) v.type t).result = .ok (v.value, t.drop v.payload.length)
  | .int _, _, _, _, _, _, _, h, _ => unpackValue_int h
  | .bool _, _, _, _, _, _, _, h, _ => unpackValue_bool h
  | .str s, fuel, t, rest, ha, _, hp, h, _ => by
    obtain ⟨c, hc⟩ := Option.isSome_iff_exists.1 ha
    rw [Item.payload, hc] at h ⊢
    exact unpackValue_exact hc h hp
  | .dict d, fuel, t, rest, ha, hd, hp, h, hf => by
    have h' : t.At mem (document d.body ++ rest) := h
    have hle := h'.le
    rw [document_length] at hle
    refine (unpackDict_at h').2 ⟨d.fields, rfl, ?_, rfl⟩
    exact Dict.elems_plain d ha hd hp (document_at h') (by push_cast at hle; dsimp only; omega) fun _ _ => rfl

theorem Dict.elems_plain : ∀ (d : Dict) {fuel : ℕ} {t : Reader} {fs : Fields}, d.Accepted → d.Distinct →
    d.Plain → t.At mem d.body → t.size < fuel → (∀ key ∈ d.keys, fs.get (.str key) = none) →
    (unpackElems mem fuel t false fs).result = .ok (fs.append d.fields)
  | .nil, fuel, t, fs, _, _, _, h, hf, _ => by
    obtain ⟨fuel, rfl⟩ := h.fuel_succ hf
    rw [(unpackElems_ok h.int).2 (Or.inl ⟨h.size, rfl⟩)]
    exact congrArg Except.ok (Fields.append_nil fs).symm
  | .cons key v d, fuel, t, fs, ha, hd, hp, h, hf, hnew => by
    obtain ⟨fuel, rfl⟩ := h.fuel_succ hf
    obtain ⟨hav, had⟩ := ha
    obtain ⟨hk, hdv, hdd⟩ := hd
    obtain ⟨hz, hpv, hpd⟩ := hp
    obtain ⟨hty, hkey, hle, hp⟩ := Reader.At.element h
    have hv : (unpackValue mem (elemsOf mem fuel) v.type _).result = .ok (v.value, _) :=
      Item.value_plain v hav hdv hpv hp (by rw [Reader.drop_size]; push_cast at hf; omega)
    have hd := hp.drop
    rw [← hty] at hv
    refine (unpackElems_ok h.int).2 (Or.inr ⟨by omega, key, v.value, _, hz, hkey, hle, hv, ?_⟩)
    have hget : fs.get (.str key) = none := hnew key List.mem_cons_self
    refine (Dict.elems_plain d had hdd hpd hd ?_ ?_).trans (congrArg Except.ok (Fields.set_append hget))
    · rw [Reader.drop_size, Reader.drop_size]
      push_cast at hf
      omega
    · intro key' hk'
      show (fs.set (.str key) v.value).get (.str key') = none
      rw [Fields.get_set, if_neg]
      · exact hnew key' (List.mem_cons_of_mem _ hk')
      · intro heq
        rw [Key.str.inj heq] at hk
        exact hk hk'
end

/-! ## Other tables are not read back -/

theorem Fields.Clean.set {fs : Fields} {key : Bytes} {v : Value} (h : fs.Clean) (hz : 0 ∉ key) :
    (fs.set (.str key) v).Clean := by
  intro s hs
  rw [Fields.get_set] at hs
  split at hs
  · rename_i heq
    rwa [← Key.str.inj heq]
  · exact h s hs

mutual
/-- A value that is read as one that is equal is plain. -/
theorem Item.plain_of_value : ∀ (v : Item) {fuel : ℕ} {t t' : Reader} {rest : Bytes} {w : Value}, v.Accepted →
    v.Distinct → t.At mem (v.payload ++ rest) → t.size ≤ fuel →
    (unpackValue mem (elemsOf mem fuel) v.type t).result = .ok (w, t') → v.Is w → v.Plain rest
  | .int _, _, _, _, _, _, _, _, _, _, _, _ => trivial
  | .bool _, _, _, _, _, _, _, _, _, _, _, _ => trivial
  | .str s, fuel, t, t', rest, w, ha, _, h, _, hr, hw => by
    cases w with
    | str s' =>
      obtain ⟨c, hc⟩ := Option.isSome_iff_exists.1 ha
      obtain rfl : s' = s := hw
      rw [Item.payload, hc] at h
      exact exact_of_unpack hc h hr
    | _ => cases hw
  | .dict d, fuel, t, t', rest, w, ha, hd, h, hf, hr, hw => by
    have h' : t.At mem (document d.body ++ rest) := h
    have hle := h'.le
    rw [document_length] at hle
    obtain ⟨fs', rfl, hfs, -⟩ := (unpackDict_at h').1 hr
    refine Dict.plain_of_elems d ha hd (document_at h') (by push_cast at hle; dsimp only; omega) hfs ?_ ?_ hw.1
    · have h1 := Dict.body_need d ha
      have h2 := Dict.need_le hd hw.1
      simp only [Fields.need]
      omega
    · intro s hs
      exact (hs rfl).elim

theorem Dict.plain_of_elems : ∀ (d : Dict) {fuel : ℕ} {t : Reader} {fs fs' : Fields}, d.Accepted → d.Distinct →
    t.At mem d.body → t.size < fuel → (unpackElems mem fuel t false fs).result = .ok fs' →
    fs.need + t.size ≤ fs'.need → fs.Clean → d.Within fs' → d.Plain
  | .nil, _, _, _, _, _, _, _, _, _, _, _, _ => trivial
  | .cons key v d, fuel, t, fs, fs', ha, hd, h, hf, hr, hneed, hclean, hin => by
    obtain ⟨fuel, rfl⟩ := h.fuel_succ hf
    obtain ⟨hav, had⟩ := ha
    obtain ⟨hk, hdv, hdd⟩ := hd
    obtain ⟨hty, hkey, hle, hp⟩ := Reader.At.element h
    obtain ⟨⟨w', hget, hw⟩, hin⟩ := hin
    have hz : 0 ∉ key := ((unpackElems_grows h.int hr).clean hclean) key (by rw [hget]; simp)
    rcases (unpackElems_ok h.int).1 hr with ⟨h0, -⟩ | ⟨-, key', w, t', hz', hkey', -, hv, hr⟩
    · omega
    · obtain rfl := cstring_unique hz' hz hkey' hkey
      have hint := h.int
      have hft : (t.drop (key'.length + 2)).size ≤ fuel := by
        rw [Reader.drop_size]
        push_cast at hf
        omega
      -- what the element takes, and what is left for the others
      have hcost := unpackValue_cost elemsOf_need (by rw [Reader.drop_size]; omega)
        (by rw [Reader.drop_size]; omega) hv
      rw [Reader.drop_size] at hcost
      have hset := fs.need_set (.str key') w
      simp only [Key.need] at hset
      have hrest := unpackElems_grows (by omega) hr
      have hfirst : fs'.get (.str key') = some w := by
        refine (hrest.kept (.str key') w ?_).resolve_right ?_
        · show (fs.set (.str key') w).get _ = _
          rw [Fields.get_set, if_pos rfl]
        · show ¬ (fs'.need : ℤ) + 2 ≤ (fs.set (.str key') w).need + t'.size
          omega
      rw [hfirst] at hget
      cases hget
      rw [hty] at hv
      have hplain := Item.plain_of_value v hav hdv hp hft hv hw
      rw [Item.value_plain v hav hdv hplain hp hft] at hv
      cases hv
      refine ⟨hz, hplain, Dict.plain_of_elems d had hdd hp.drop ?_ hr ?_ (hclean.set hz) hin⟩
      · rw [Reader.drop_size]
        push_cast at hf
        rw [Reader.drop_size]
        omega
      · show ((fs.set (.str key') v.value).need : ℤ) + _ ≤ _
        omega
end

/-! ## Encoding, then decoding -/

/-- The block of an encoded table. -/
theorem encode_at {d : Dict} (he : encode d = .ok bs) (hm : Holds mem 0 bs) :
    signed 4 (ofLe (slice mem 0 4)) = bs.length ∧
      (⟨0, bs.length⟩ : Reader).At mem ((Item.dict d).payload ++ []) := by
  obtain ⟨-, rfl, hlen⟩ := encode_ok he
  have hat : (⟨0, (document d.body).length⟩ : Reader).At mem (document d.body ++ []) := by
    rw [List.append_nil]
    exact ⟨hm, rfl, hlen⟩
  refine ⟨?_, hat⟩
  rw [document_size hat, document_length]
  push_cast
  rfl

theorem ldecode_ok {fuel n : ℕ} {w : Value} (hn : signed 4 (ofLe (slice mem 0 4)) = n) :
    (ldecode mem fuel).result = .ok w ↔
      ∃ t', (unpackValue mem (elemsOf mem fuel) 3 ⟨0, n⟩).result = .ok (w, t') := by
  unfold ldecode
  rw [Traced.result_bind_ok]
  constructor
  · rintro ⟨b, hb, h⟩
    obtain rfl := load_ok.1 hb
    rw [hn] at h
    obtain ⟨⟨v, t'⟩, hv, h⟩ := Traced.result_bind_ok.1 h
    cases h
    exact ⟨t', hv⟩
  · rintro ⟨t', h⟩
    refine ⟨_, load_ok.2 rfl, ?_⟩
    rw [hn]
    exact Traced.result_bind_ok.2 ⟨(w, t'), h, rfl⟩

/-- A table that is read back as an equal one is plain. -/
theorem plain_of_decode {d : Dict} {fuel : ℕ} {w : Value} (hd : d.Distinct) (he : encode d = .ok bs)
    (hm : Holds mem 0 bs) (hf : bs.length ≤ fuel) (hr : (ldecode mem fuel).result = .ok w)
    (hw : (Item.dict d).Is w) : d.Plain := by
  obtain ⟨hn, hat⟩ := encode_at he hm
  obtain ⟨t', hr⟩ := (ldecode_ok hn).1 hr
  exact Item.plain_of_value (.dict d) (encode_ok he).1 hd hat (by dsimp only; omega) hr hw

/-- A plain table is read back, with its fields in the order they were written in. -/
theorem decode_of_plain {d : Dict} {fuel : ℕ} (hd : d.Distinct) (he : encode d = .ok bs)
    (hm : Holds mem 0 bs) (hf : bs.length ≤ fuel) (hp : d.Plain) :
    (ldecode mem fuel).result = .ok (.table d.fields) := by
  obtain ⟨hn, hat⟩ := encode_at he hm
  exact (ldecode_ok hn).2 ⟨_, Item.value_plain (.dict d) (encode_ok he).1 hd hp hat (by dsimp only; omega)⟩

theorem Dict.get_fields : ∀ (d : Dict) {k : Key}, d.fields.get k ≠ none → ∃ key ∈ d.keys, k = .str key
  | .nil, _, h => (h rfl).elim
  | .cons key v d, k, h => by
    by_cases hk : Key.str key = k
    · exact ⟨key, List.mem_cons_self, hk.symm⟩
    · simp only [Dict.fields, Fields.get, if_neg hk] at h
      obtain ⟨key', hmem, rfl⟩ := Dict.get_fields d h
      exact ⟨key', List.mem_cons_of_mem _ hmem, rfl⟩

theorem Dict.within_cons {key : Bytes} {w : Value} {fs : Fields} : ∀ {d : Dict}, key ∉ d.keys → d.Within fs →
    d.Within (.cons (.str key) w fs)
  | .nil, _, _ => trivial
  | .cons key' v d, hk, ⟨⟨w', hw', hv⟩, hd⟩ => by
    simp only [Dict.keys, List.mem_cons, not_or] at hk
    refine ⟨⟨w', ?_, hv⟩, Dict.within_cons hk.2 hd⟩
    rw [Fields.get, if_neg, hw']
    intro heq
    exact hk.1 (Key.str.inj heq)

mutual
theorem Item.is_value : ∀ v : Item, v.Distinct → v.Is v.value
  | .int _, _ => rfl
  | .bool _, _ => rfl
  | .str _, _ => rfl
  | .dict d, hd => ⟨Dict.within_fields d hd, fun _ => Dict.get_fields d⟩

theorem Dict.within_fields : ∀ d : Dict, d.Distinct → d.Within d.fields
  | .nil, _ => trivial
  | .cons _ v d, ⟨hk, hv, hd⟩ =>
    ⟨⟨v.value, if_pos rfl, Item.is_value v hv⟩, Dict.within_cons hk (Dict.within_fields d hd)⟩
end

/-- What `bson.encode` has accepted is read back as an equal table if and only if no key
    has a NUL in it and every string that begins with a NUL and a type is what the element
    of this type is read as. -/
theorem encode_faithful_iff {d : Dict} {fuel : ℕ} (hd : d.Distinct) (he : encode d = .ok bs)
    (hm : Holds mem 0 bs) (hf : bs.length ≤ fuel) :
    (∃ w, (ldecode mem fuel).result = .ok w ∧ (Item.dict d).Is w) ↔ d.Plain := by
  constructor
  · rintro ⟨w, hr, hw⟩
    exact plain_of_decode hd he hm hf hr hw
  · intro hp
    exact ⟨_, decode_of_plain hd he hm hf hp, Item.is_value (.dict d) hd⟩

/-- An integer under a key. -/
theorem encode_faithful_iff_int :
    (∃ w, (ldecode (block [12, 0, 0, 0, 16, 97, 0, 7, 0, 0, 0, 0]) 12).result = .ok w ∧
      (Item.dict (.cons [97] (.int 7) .nil)).Is w) ↔ (Dict.cons [97] (.int 7) .nil).Plain :=
  encode_faithful_iff ⟨List.not_mem_nil, trivial, trivial⟩ rfl (holds_block _) le_rfl

/-- What follows a NUL and the type of null is not written. -/
theorem encode_not_faithful : ¬ ∀ (d : Dict) (bs : Bytes) (mem : Mem) (fuel : ℕ), d.Distinct →
    encode d = .ok bs → Holds mem 0 bs → bs.length ≤ fuel →
    ∃ w, (ldecode mem fuel).result = .ok w ∧ (Item.dict d).Is w := by
  intro h
  have hd : (Dict.cons [97] (.str [0, 10, 120]) .nil).Distinct := ⟨List.not_mem_nil, trivial, trivial⟩
  have he : encode (.cons [97] (.str [0, 10, 120]) .nil) = .ok [8, 0, 0, 0, 10, 97, 0, 0] := rfl
  obtain ⟨w, hr, hw⟩ := h _ _ (block [8, 0, 0, 0, 10, 97, 0, 0]) 8 hd he (holds_block _) le_rfl
  have hp := plain_of_decode hd he (holds_block _) le_rfl hr hw
  exact List.cons_ne_nil _ _ hp.2.1

end Levent.Bson
