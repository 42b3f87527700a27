/-
  `lua-bson.c`: `bson.decode` of what `bson.encode` has made of any Lua table.

  A table comes back with the values of its fields in the order of `lua_next`.  An array
  has integer keys again; the numbers among the keys of a document have become strings,
  and of two keys with one text the last one counts.
-/
import Levent.Bson.Tables
import Levent.Bson.Place
import Mathlib.Data.List.TakeWhile

namespace Levent.Bson

open Lib

/-! ## The text of a number -/

theorem digit_toNat {n : ℕ} {c : Char} (h : c ∈ Nat.toDigits 10 n) :
    (UInt8.ofNat c.toNat).toNat = c.toNat ∧ 48 ≤ c.toNat ∧ c.toNat ≤ 57 := by
  have hdigit : c.isDigit := Nat.isDigit_of_mem_toDigits (by decide) (by decide) h
  have hrange : 48 ≤ c.toNat ∧ c.toNat ≤ 57 := by
    simp only [Char.isDigit, Bool.and_eq_true, decide_eq_true_eq] at hdigit
    exact hdigit
  refine ⟨?_, hrange⟩
  rw [UInt8.toNat_ofNat', Nat.mod_eq_of_lt (by omega)]

theorem digits_range {n : ℕ} {b : UInt8} (h : b ∈ digits n) : 48 ≤ b ∧ b ≤ 57 := by
  obtain ⟨c, hc, rfl⟩ := List.mem_map.1 h
  obtain ⟨hbyte, hrange⟩ := digit_toNat hc
  rw [UInt8.le_iff_toNat_le, UInt8.le_iff_toNat_le, hbyte]
  exact hrange

theorem foldl_digits (n : ℕ) : (digits n).foldl (fun n b => n * 10 + (b.toNat - 48)) 0 = n := by
  have hof := Nat.ofDigitChars_toDigits (n := n) (by decide : 1 < 10) le_rfl
  rw [Nat.ofDigitChars_eq_foldl] at hof
  rw [digits, List.foldl_map]
  refine Eq.trans (List.foldl_ext _ _ 0 fun k c hc => ?_) hof
  rw [(digit_toNat hc).1, Nat.mul_comm]
  rfl

/-- The text of a number is read as the number. -/
theorem strtol_digits {n : ℕ} (h : n < 2 ^ 63) : strtol (digits n) = n := by
  have hne : digits n ≠ [] := by
    rw [digits, Ne, List.map_eq_nil_iff]
    exact Nat.toDigits_ne_nil
  have hall : (digits n).takeWhile (fun b => decide (48 ≤ b ∧ b ≤ 57)) = digits n :=
    List.takeWhile_eq_self_iff.2 fun b hb => decide_eq_true (digits_range hb)
  have hfold := foldl_digits n
  have hmem : ∀ b ∈ digits n, 48 ≤ b ∧ b ≤ 57 := fun b hb => digits_range hb
  generalize digits n = s at hne hall hfold hmem
  cases s with
  | nil => exact (hne rfl).elim
  | cons b s =>
    have hb := (hmem b List.mem_cons_self).1
    have hspace : (b :: s).dropWhile (fun b => decide (b = 32 ∨ 9 ≤ b ∧ b ≤ 13)) = b :: s := by
      refine List.dropWhile_cons_of_neg ?_
      rw [decide_eq_true_eq]
      rintro (rfl | ⟨-, hle⟩)
      · exact absurd hb (by decide)
      · exact absurd (UInt8.le_trans hb hle) (by decide)
    unfold strtol
    dsimp only
    rw [hspace]
    split
    · rename_i heq
      cases heq
      exact absurd hb (by decide)
    · rename_i heq
      cases heq
      exact absurd hb (by decide)
    · rw [hall, hfold]
      omega

/-! ## Keys -/

variable (tostring : UInt64 → Bytes)

/-- The key that a field has when it is read back. -/
def LuaKey.back (isarray : Bool) (k : LuaKey) : Key :=
  if isarray then .int (signed 4 (unsigned 4 k.tointeger)) else .str ((k.tolstring tostring).getD [])

theorem elementKey_elementName {isarray : Bool} {k : LuaKey} {name : Bytes}
    (h : elementName tostring isarray k = .ok name) : elementKey isarray name = k.back tostring isarray := by
  unfold elementName at h
  unfold LuaKey.back elementKey
  cases isarray with
  | true =>
    have hnum : ∀ z : ℤ, bsonNumstr (unsigned 4 (z - 1)) = name →
        Key.int (signed 4 (unsigned 4 (strtol name + 1))) = .int (signed 4 (unsigned 4 z)) := by
      rintro z rfl
      have hlt := unsigned_lt 4 (z - 1)
      rw [bsonNumstr_eq, strtol_digits (by omega)]
      have hmod : unsigned 4 (unsigned 4 (z - 1) + 1) = unsigned 4 z := by
        unfold unsigned
        omega
      rw [hmod]
    simp only [if_true] at h ⊢
    split at h
    · exact hnum _ (Except.ok.inj h)
    · exact hnum _ (Except.ok.inj h)
    · cases h
  | false =>
    simp only [Bool.false_eq_true, if_false] at h ⊢
    split at h
    · rename_i key hkey
      cases h
      rw [hkey]
      rfl
    · cases h

/-! ## What is written -/

/-- `isarray` of `append_table`, where it raises no error. -/
def takenForArray (len : ℕ) (keys : List LuaKey) : Bool := (isArray len keys).toOption.getD false

def LuaValue.type : LuaValue → UInt8
  | .int n => (Item.int n).type
  | .real _ => 1
  | .bool _ => 8
  | .str s => stringType s
  | .userdata _ => 3
  | .table len t => if takenForArray len t.keys then 4 else 3
  | .other _ => 0

mutual
/-- The bytes of an element after its key. -/
def LuaValue.payload : LuaValue → Bytes
  | .int n => (Item.int n).payload
  | .real bits => leBytes 8 bits.toNat
  | .bool v => (Item.bool v).payload
  | .str s => (stringPayload s).getD []
  | .userdata doc => doc
  | .table len t => document (t.body (takenForArray len t.keys))
  | .other _ => []

/-- The elements of a table. -/
def Entries.body (isarray : Bool) : Entries → Bytes
  | .nil => []
  | .cons k v t =>
    v.type :: (elementName tostring isarray k).toOption.getD [] ++ 0 :: v.payload ++ t.body isarray
end

mutual
/-- All strings, documents and keys are accepted. -/
def LuaValue.Accepted : LuaValue → Prop
  | .str s => (stringPayload s).isSome
  | .userdata doc => signed 4 (ofLe (doc.take 4)) = doc.length
  | .table len t => t.Accepted (takenForArray len t.keys)
  | .other _ => False
  | _ => True

def Entries.Accepted (isarray : Bool) : Entries → Prop
  | .nil => True
  | .cons k v t => (∃ name, elementName tostring isarray k = .ok name) ∧ v.Accepted ∧ t.Accepted isarray
end

variable {tostring} {b b' : Buf} {key : Bytes} {depth : ℕ}

mutual
theorem LuaValue.append_payload : ∀ (v : LuaValue) {b b' : Buf} {key : Bytes} {depth : ℕ},
    v.append tostring b key depth = .ok b' →
    v.Accepted tostring ∧ b'.bytes = b.bytes ++ (v.type :: key ++ 0 :: v.payload tostring)
  | .int _, _, _, _, _, h => ⟨trivial, appendNumber_ok h⟩
  | .real _, _, _, _, _, h => by
    obtain ⟨b1, h1, h⟩ := Lib.bind_eq_ok.1 h
    exact ⟨trivial, bytes_of_appendKey h1 (put_ok h)⟩
  | .bool _, _, _, _, _, h => by
    obtain ⟨b1, h1, h⟩ := Lib.bind_eq_ok.1 h
    exact ⟨trivial, bytes_of_appendKey h1 (put_ok h)⟩
  | .str s, _, _, _, _, h => by
    obtain ⟨c, hc, hb⟩ := appendString_ok h
    refine ⟨Option.isSome_of_eq_some hc, ?_⟩
    rw [hb, LuaValue.payload, hc]
    rfl
  | .userdata _, _, _, _, _, h => by
    obtain ⟨b1, h1, h⟩ := Lib.bind_eq_ok.1 h
    split at h
    · rename_i hdoc
      exact ⟨hdoc, bytes_of_appendKey h1 (put_ok h)⟩
    · cases h
  | .table len t, _, _, _, _, h => by
    obtain ⟨isarray, harray, h⟩ := Lib.bind_eq_ok.1 h
    have htaken : takenForArray len t.keys = isarray := by
      rw [takenForArray, harray]
      rfl
    obtain ⟨b1, h1, h⟩ := Lib.bind_eq_ok.1 h
    obtain ⟨_, ⟨ht, rfl⟩, hb⟩ := packDict_ok
      (P := fun c => t.Accepted tostring isarray ∧ c = t.body tostring isarray)
      (fun _ _ h2 => ⟨_, ⟨(Entries.pack_body t h2).1, rfl⟩, (Entries.pack_body t h2).2⟩) h
    simp only [LuaValue.Accepted, LuaValue.type, LuaValue.payload, htaken]
    exact ⟨ht, bytes_of_appendKey h1 hb⟩
  | .other _, _, _, _, _, h => by cases h

theorem Entries.pack_body : ∀ (t : Entries) {b b' : Buf} {isarray : Bool} {depth : ℕ},
    t.pack tostring b isarray depth = .ok b' →
    t.Accepted tostring isarray ∧ b'.bytes = b.bytes ++ t.body tostring isarray
  | .nil, _, _, _, _, h => by
    cases h
    exact ⟨trivial, (List.append_nil _).symm⟩
  | .cons k v t, _, _, isarray, _, h => by
    obtain ⟨name, hname, h⟩ := Lib.bind_eq_ok.1 h
    obtain ⟨b1, h1, h⟩ := Lib.bind_eq_ok.1 h
    obtain ⟨hv, hb1⟩ := LuaValue.append_payload v h1
    obtain ⟨ht, hb⟩ := Entries.pack_body t h
    refine ⟨⟨⟨name, hname⟩, hv, ht⟩, ?_⟩
    rw [hb, hb1, Entries.body, hname]
    simp [Except.toOption]
end

/-! ## What is read back -/

variable (tostring)

mutual
/-- What a value is read back as. -/
def LuaValue.back : LuaValue → Option Value
  | .int n => some (.int n.toInt)
  | .real bits => some (.real bits.toNat)
  | .bool b => some (.bool b)
  | .str s => some (.str s)
  | .userdata doc => docValue doc
  | .table len t => (t.back (takenForArray len t.keys) .nil).map .table
  | .other _ => none

/-- The fields that those of a table are set as, one after another. -/
def Entries.back (isarray : Bool) (fs : Fields) : Entries → Option Fields
  | .nil => some fs
  | .cons k v t => do
    let w ← v.back
    t.back isarray (fs.set (k.back tostring isarray) w)
end

mutual
/-- The strings are exact, with the bytes `rest` behind the value; the documents can be decoded. -/
def LuaValue.Plain (rest : Bytes) : LuaValue → Prop
  | .str s => stringExact rest s
  | .userdata doc => 5 ≤ doc.length ∧ (docValue doc).isSome
  | .table len t => t.Plain (takenForArray len t.keys)
  | _ => True

/-- No key of a document has a NUL in it. -/
def Entries.Plain (isarray : Bool) : Entries → Prop
  | .nil => True
  | .cons k v t => 0 ∉ (elementName tostring isarray k).toOption.getD [] ∧
    v.Plain (t.body tostring isarray) ∧ t.Plain isarray
end

variable {tostring} {mem : Mem} {t t' : Reader} {rest bs : Bytes} {fuel : ℕ}

theorem unpackValue_real {bits : UInt64} (h : t.At mem (leBytes 8 bits.toNat ++ rest)) :
    (unpackValue mem (elemsOf mem fuel) 1 t).result = .ok (.real bits.toNat, t.drop (leBytes 8 bits.toNat).length) := by
  rw [unpackValue_fixed (by rw [leBytes_length]; rfl) h]
  show Except.ok (Value.real (ofLe (leBytes 8 bits.toNat)), _) = _
  rw [ofLe_leBytes bits.toNat_lt]

mutual
/-- A value that is plain is read back. -/
theorem LuaValue.unpack_back : ∀ (v : LuaValue) {fuel : ℕ} {t : Reader} {rest : Bytes}, v.Accepted tostring →
    v.Plain tostring rest → t.At mem (v.payload tostring ++ rest) → t.size ≤ fuel →
    ∃ w, v.back tostring = some w ∧
      (unpackValue mem (elemsOf mem fuel) v.type t).result = .ok (w, t.drop (v.payload tostring).length)
  | .int _, _, _, _, _, _, h, _ => ⟨_, rfl, unpackValue_int h⟩
  | .real _, _, _, _, _, _, h, _ => ⟨_, rfl, unpackValue_real h⟩
  | .bool _, _, _, _, _, _, h, _ => ⟨_, rfl, unpackValue_bool h⟩
  | .str s, _, _, _, ha, hp, h, _ => by
    obtain ⟨c, hc⟩ := Option.isSome_iff_exists.1 ha
    rw [LuaValue.payload, hc] at h ⊢
    exact ⟨_, rfl, unpackValue_exact hc h hp⟩
  | .userdata doc, fuel, t, rest, ha, hp, h, hf => by
    obtain ⟨h5, hv⟩ := hp
    obtain ⟨w, hw⟩ := Option.isSome_iff_exists.1 hv
    have hle : (doc.length : ℤ) ≤ t.size := h.le
    have hdoc : doc.length ≤ fuel := by omega
    exact ⟨w, hw, unpackDict_docValue hw h5 ha (h : t.At mem (doc ++ rest)) hdoc⟩
  | .table len l, fuel, t, rest, ha, hp, h, hf => by
    have h' : t.At mem (document (l.body tostring (takenForArray len l.keys)) ++ rest) := h
    have hle := h'.le
    rw [document_length] at hle
    push_cast at hle
    obtain ⟨fs, hfs, hr⟩ : ∃ fs, l.back tostring (takenForArray len l.keys) .nil = some fs ∧
        (elemsOf mem fuel _ (takenForArray len l.keys)).result = .ok fs :=
      Entries.unpack_back l ha hp (document_at h') (by dsimp only; omega)
    refine ⟨.table fs, by rw [LuaValue.back, hfs]; rfl, ?_⟩
    have hdict := (unpackDict_at h').2 ⟨fs, rfl, hr, rfl⟩
    rw [LuaValue.type, LuaValue.payload]
    generalize takenForArray len l.keys = isarray at hdict ⊢
    cases isarray <;> exact hdict

theorem Entries.unpack_back : ∀ (l : Entries) {fuel : ℕ} {t : Reader} {isarray : Bool} {fs : Fields},
    l.Accepted tostring isarray → l.Plain tostring isarray → t.At mem (l.body tostring isarray) → t.size < fuel →
    ∃ fs', l.back tostring isarray fs = some fs' ∧ (unpackElems mem fuel t isarray fs).result = .ok fs'
  | .nil, fuel, t, isarray, fs, _, _, h, hf => by
    obtain ⟨fuel, rfl⟩ := h.fuel_succ hf
    exact ⟨fs, rfl, (unpackElems_ok h.int).2 (Or.inl ⟨h.size, rfl⟩)⟩
  | .cons k v l, fuel, t, isarray, fs, ha, hp, h, hf => by
    obtain ⟨fuel, rfl⟩ := h.fuel_succ hf
    obtain ⟨⟨name, hname⟩, hav, hal⟩ := ha
    have hget : (elementName tostring isarray k).toOption.getD [] = name := by
      rw [hname]
      rfl
    rw [Entries.Plain, hget] at hp
    rw [Entries.body, hget] at h
    push_cast at hf
    obtain ⟨hz, hpv, hpl⟩ := hp
    obtain ⟨hty, hkey, hle, hat⟩ := Reader.At.element h
    have hsize : (t.drop (name.length + 2)).size ≤ fuel := by
      rw [Reader.drop_size]
      omega
    obtain ⟨w, hw, hv⟩ := LuaValue.unpack_back v hav hpv hat hsize
    have hrest : ((t.drop (name.length + 2)).drop (v.payload tostring).length).size < fuel := by
      rw [Reader.drop_size, Reader.drop_size]
      omega
    obtain ⟨fs', hfs, hl⟩ : ∃ fs', l.back tostring isarray (fs.set (k.back tostring isarray) w) = some fs' ∧ _ :=
      Entries.unpack_back l hal hpl hat.drop hrest
    refine ⟨fs', by rw [Entries.back, hw]; exact hfs, ?_⟩
    rw [← elementKey_elementName tostring hname] at hl
    rw [← hty] at hv
    exact (unpackElems_ok h.int).2 (Or.inr ⟨by omega, name, w, _, hz, hkey, hle, hv, hl⟩)
end

/-! ## Encoding, then decoding -/

/-- The block of an encoded document. -/
theorem document_block {body : Bytes} (hm : Holds mem 0 (document body))
    (hint : ((document body).length : ℤ) ≤ INT_MAX) :
    signed 4 (ofLe (slice mem 0 4)) = (document body).length ∧
      (⟨0, (document body).length⟩ : Reader).At mem (document body ++ []) := by
  have hat : (⟨0, (document body).length⟩ : Reader).At mem (document body ++ []) := by
    rw [List.append_nil]
    exact ⟨hm, rfl, hint⟩
  refine ⟨?_, hat⟩
  rw [document_size hat, document_length]
  push_cast
  rfl

theorem lencode_ok {l : Entries} (h : lencode tostring l = .ok bs) :
    l.Accepted tostring false ∧ bs = document (l.body tostring false) ∧ (bs.length : ℤ) ≤ INT_MAX := by
  obtain ⟨b, hb, h⟩ := Lib.bind_eq_ok.1 h
  cases h
  obtain ⟨_, ⟨hl, rfl⟩, hbytes⟩ := packDict_ok
    (P := fun c => l.Accepted tostring false ∧ c = l.body tostring false)
    (fun _ _ h2 => ⟨_, ⟨(Entries.pack_body l h2).1, rfl⟩, (Entries.pack_body l h2).2⟩) hb
  have h1 := b.fits
  have h2 := b.int
  exact ⟨hl, hbytes, by omega⟩

/-- The value of the last field that is read back under `key`. -/
def Entries.last (tostring : UInt64 → Bytes) (isarray : Bool) (key : Key) : Entries → Option LuaValue
  | .nil => none
  | .cons k v t => (t.last tostring isarray key).orElse fun _ =>
    if k.back tostring isarray = key then some v else none

/-- Under each key there is the value of the last field with it. -/
theorem Entries.get_back {isarray : Bool} {key : Key} : ∀ {l : Entries} {fs fs' : Fields},
    l.back tostring isarray fs = some fs' →
    fs'.get key = (l.last tostring isarray key).elim (fs.get key) fun v => v.back tostring
  | .nil, _, _, h => by
    cases h
    rfl
  | .cons k v l, fs, fs', h => by
    obtain ⟨w, hw, h⟩ := Option.bind_eq_some_iff.1 h
    rw [Entries.get_back h, Entries.last]
    cases l.last tostring isarray key with
    | some v' => rfl
    | none =>
      rw [Option.elim_none, Fields.get_set]
      by_cases hk : k.back tostring isarray = key
      · rw [if_pos hk, if_pos hk]
        exact hw.symm
      · rw [if_neg hk, if_neg hk]
        rfl

/-- What `bson.encode` has made of a table is decoded. -/
theorem ldecode_lencode {l : Entries} (he : lencode tostring l = .ok bs) (hm : Holds mem 0 bs)
    (hf : bs.length ≤ fuel) (hp : l.Plain tostring false) :
    ∃ fs, l.back tostring false .nil = some fs ∧ (ldecode mem fuel).result = .ok (.table fs) := by
  obtain ⟨ha, rfl, hint⟩ := lencode_ok he
  obtain ⟨hn, hat⟩ := document_block hm hint
  have hlen := document_length (l.body tostring false)
  obtain ⟨fs, hfs, hr⟩ : ∃ fs, l.back tostring false .nil = some fs ∧ (elemsOf mem fuel _ false).result = .ok fs :=
    Entries.unpack_back l ha hp (document_at hat) (by dsimp only; omega)
  have hdict := (unpackDict_at hat).2 ⟨fs, rfl, hr, rfl⟩
  exact ⟨fs, hfs, (ldecode_ok hn).2 ⟨_, hdict⟩⟩

/-- The value of a key is that of its last entry. -/
theorem get_of_back {l : Entries} {fs : Fields} (h : l.back tostring false .nil = some fs) (key : Key) :
    fs.get key = (l.last tostring false key).bind fun v => v.back tostring := by
  rw [Entries.get_back h]
  cases l.last tostring false key <;> rfl

/-- **What `bson.encode` has made of a table is read back**: arrays within arrays and documents,
    doubles and embedded documents with every value as it was. -/
theorem lencode_back {l : Entries} (he : lencode tostring l = .ok bs) (hm : Holds mem 0 bs)
    (hf : bs.length ≤ fuel) (hp : l.Plain tostring false) :
    ∃ fs, l.back tostring false .nil = some fs ∧ (ldecode mem fuel).result = .ok (.table fs) ∧
      ∀ key, fs.get key = (l.last tostring false key).bind fun v => v.back tostring := by
  obtain ⟨fs, hfs, hr⟩ := ldecode_lencode he hm hf hp
  exact ⟨fs, hfs, hr, get_of_back hfs⟩

/-- `{a = {5}}` -/
def nested : Entries := .cons (.str [97]) (.table 1 (.cons (.int 1) (.int 5) .nil)) .nil

def nestedBlock : Bytes := [20, 0, 0, 0, 4, 97, 0, 12, 0, 0, 0, 16, 48, 0, 5, 0, 0, 0, 0, 0]

theorem lencode_nested : lencode (fun _ => []) nested = .ok nestedBlock := by decide +kernel

theorem plain_nested : nested.Plain (fun _ => []) false := by
  refine ⟨by decide, ⟨by decide +kernel, trivial, trivial⟩, trivial⟩

theorem lencode_back_nested :
    ∃ fs, nested.back (fun _ => []) false .nil = some fs ∧
      (ldecode (block nestedBlock) 20).result = .ok (.table fs) ∧
      ∀ key, fs.get key = (nested.last (fun _ => []) false key).bind fun v => v.back fun _ => [] :=
  lencode_back lencode_nested (holds_block _) le_rfl plain_nested

end Levent.Bson
