/-
  `lua-bson.c`: `bson.encode` of Lua tables, and which of them `append_table` takes for
  arrays.

  A table is the list of its entries in the order of `lua_next`.  It is taken for an array
  if nothing follows the key `lua_rawlen` in this order.
-/
import Levent.Bson.Encode
import Mathlib.Data.List.Perm.Basic

namespace Levent.Bson

open Lib

/-! ## Lua values -/

inductive LuaKey where
  | int (n : ℤ)
  -- a number that is no integer
  | real (bits : UInt64)
  | str (s : Bytes)
  | other (typename : String)
  deriving DecidableEq

-- a table has its `lua_rawlen`
mutual
inductive LuaValue where
  | int (n : Int64)
  | real (bits : UInt64)
  | bool (b : Bool)
  | str (s : Bytes)
  | userdata (doc : Bytes)
  | table (len : ℕ) (t : Entries)
  | other (typename : String)

inductive Entries where
  | nil
  | cons (k : LuaKey) (v : LuaValue) (t : Entries)
end

def Entries.keys : Entries → List LuaKey
  | .nil => []
  | .cons k _ t => k :: t.keys

def LuaKey.typename : LuaKey → String
  | .int _ | .real _ => "number"
  | .str _ => "string"
  | .other t => t

/-! ## Keys -/

def MAX_NUMBER : ℕ := 1024

/-- The digits of a number, as `sprintf` writes them. -/
def digits (n : ℕ) : Bytes := (Nat.toDigits 10 n).map fun c => UInt8.ofNat c.toNat

/-- `bson_numstr`: the texts of the numbers below `MAX_NUMBER` are made once. -/
def bsonNumstr (i : ℕ) : Bytes :=
  if i < MAX_NUMBER then (List.range MAX_NUMBER).map digits |>.getD i [] else digits i

/-- `lua_tointeger` of a key -/
def LuaKey.tointeger : LuaKey → ℤ
  | .int n => n
  | _ => 0

-- the text of a number that is no integer is Lua's
variable (tostring : UInt64 → Bytes)

/-- `lua_tolstring` of a key -/
def LuaKey.tolstring : LuaKey → Option Bytes
  | .int n => some (if n < 0 then 45 :: digits n.natAbs else digits n.natAbs)
  | .real bits => some (tostring bits)
  | .str s => some s
  | .other _ => none

/-- The key that the loop of `pack_dict` gives to `append_one`. -/
def elementName (isarray : Bool) (k : LuaKey) : Write Bytes :=
  if isarray then
    match k with
    | .int _ | .real _ => .ok (bsonNumstr (unsigned 4 (k.tointeger - 1)))
    | k => .error (.error s!"Invalid array key type : {k.typename}")
  else
    match k.tolstring tostring with
    | some key => .ok key
    | none => .error (.error s!"Invalid key type : {k.typename}")

/-- `lua_next`: the key after `k`, if there is one. -/
def luaNext (k : LuaKey) : List LuaKey → Write (Option LuaKey)
  | [] => .error (.error "invalid key to 'next'")
  | k' :: ks => if k' = k then .ok ks.head? else luaNext k ks

/-! ## Encoding -/

/-- The part of `append_one` for userdata: a block, with its length first. -/
def appendUserdata (b : Buf) (key doc : Bytes) : Write Buf := do
  let b ← appendKey b 3 key
  if signed 4 (ofLe (doc.take 4)) = doc.length then b.put doc else .error .undefined

/-- `isarray` of `append_table` -/
def isArray (len : ℕ) (keys : List LuaKey) : Write Bool :=
  if len > 0 then do
    let next ← luaNext (.int len) keys
    pure next.isNone
  else pure false

/-- `append_table`, with the loop of `pack_dict` as `fields`. -/
def appendTable (fields : Buf → Bool → Write Buf) (len : ℕ) (keys : List LuaKey) (b : Buf) (key : Bytes)
    (depth : ℕ) : Write Buf := do
  let isarray ← isArray len keys
  let b ← appendKey b (if isarray then 4 else 3) key
  packDict (fun b => fields b isarray) b depth

mutual
/-- `append_one` -/
def LuaValue.append (b : Buf) (key : Bytes) (depth : ℕ) : LuaValue → Write Buf
  | .int n => appendNumber b key n
  | .real bits => do
    let b ← appendKey b 1 key
    b.put (leBytes 8 bits.toNat)
  | .userdata doc => appendUserdata b key doc
  | .str s => appendString b key s
  | .table len t =>
    appendTable (fun b isarray => t.pack b isarray (depth + 1)) len t.keys b key (depth + 1)
  | .bool v => do
    let b ← appendKey b 8 key
    writeByte b (if v then 1 else 0)
  | .other typename => .error (.error s!"Invalid value type : {typename}")

/-- The loop of `pack_dict`. -/
def Entries.pack (b : Buf) (isarray : Bool) (depth : ℕ) : Entries → Write Buf
  | .nil => pure b
  | .cons k v t => do
    let key ← elementName tostring isarray k
    let b ← v.append b key depth
    t.pack b isarray depth
end

/-- `lencode` -/
def lencode (t : Entries) : Write Bytes := do
  let b ← packDict (fun b => t.pack tostring b false 0) .create 0
  pure b.bytes

/-! ## String-keyed tables -/

mutual
/-- A value of a string-keyed table. -/
def Item.lua : Item → LuaValue
  | .int n => .int n
  | .bool b => .bool b
  | .str s => .str s
  | .dict d => .table 0 d.lua

def Dict.lua : Dict → Entries
  | .nil => .nil
  | .cons key v d => .cons (.str key) v.lua d.lua
end

mutual
theorem Item.append_lua : ∀ (v : Item) (b : Buf) (key : Bytes) (depth : ℕ),
    v.lua.append tostring b key depth = appendOne b key depth v
  | .int _, _, _, _ => rfl
  | .bool _, _, _, _ => rfl
  | .str _, _, _, _ => rfl
  | .dict d, b, key, depth => by
    have hpack : (fun b => d.lua.pack tostring b false (depth + 1)) =
        fun b => packFields b (depth + 1) d := funext fun b => Dict.pack_lua d b (depth + 1)
    show (appendKey b 3 key >>= fun b =>
      packDict (fun b => d.lua.pack tostring b false (depth + 1)) b (depth + 1)) = _
    rw [hpack]
    rfl

theorem Dict.pack_lua : ∀ (d : Dict) (b : Buf) (depth : ℕ),
    d.lua.pack tostring b false depth = packFields b depth d
  | .nil, _, _ => rfl
  | .cons key v d, b, depth => by
    show (v.lua.append tostring b key depth >>= fun b => d.lua.pack tostring b false depth) = _
    rw [Item.append_lua v b key depth, packFields]
    exact congrArg _ (funext fun b => Dict.pack_lua d b depth)
end

/-- Of a string-keyed table the encodings are the same. -/
theorem lencode_lua (d : Dict) : lencode tostring d.lua = encode d := by
  unfold lencode encode
  rw [show (fun b => d.lua.pack tostring b false 0) = fun b => packFields b 0 d from
    funext fun b => Dict.pack_lua tostring d b 0]

/-! ## What is appended -/

variable {tostring} {b b' : Buf} {key : Bytes} {depth : ℕ}

theorem bytes_of_appendKey {b1 : Buf} {type : UInt8} {c : Bytes} (h1 : appendKey b type key = .ok b1)
    (h : b'.bytes = b1.bytes ++ c) : b'.bytes = b.bytes ++ (type :: key ++ 0 :: c) := by
  rw [h, appendKey_ok h1]
  simp

mutual
/-- An element is its type, its key and its value. -/
theorem LuaValue.append_ok : ∀ (v : LuaValue) {b b' : Buf} {key : Bytes} {depth : ℕ},
    v.append tostring b key depth = .ok b' → ∃ type c, b'.bytes = b.bytes ++ (type :: key ++ 0 :: c)
  | .int n, _, _, _, _, h => ⟨_, _, appendNumber_ok h⟩
  | .real _, _, _, _, _, h => by
    obtain ⟨b1, h1, h⟩ := Lib.bind_eq_ok.1 h
    exact ⟨_, _, bytes_of_appendKey h1 (put_ok h)⟩
  | .userdata _, _, _, _, _, h => by
    obtain ⟨b1, h1, h⟩ := Lib.bind_eq_ok.1 h
    split at h
    · exact ⟨_, _, bytes_of_appendKey h1 (put_ok h)⟩
    · cases h
  | .str _, _, _, _, _, h => by
    obtain ⟨c, -, hb⟩ := appendString_ok h
    exact ⟨_, _, hb⟩
  | .table _ t, _, _, _, _, h => by
    obtain ⟨isarray, -, h⟩ := Lib.bind_eq_ok.1 h
    obtain ⟨b1, h1, h⟩ := Lib.bind_eq_ok.1 h
    obtain ⟨body, -, hb⟩ := packDict_ok (P := fun _ => True)
      (fun _ _ h2 => (Entries.pack_ok t h2).imp fun _ hc => ⟨trivial, hc⟩) h
    exact ⟨_, _, bytes_of_appendKey h1 hb⟩
  | .bool _, _, _, _, _, h => by
    obtain ⟨b1, h1, h⟩ := Lib.bind_eq_ok.1 h
    exact ⟨_, _, bytes_of_appendKey h1 (put_ok h)⟩
  | .other _, _, _, _, _, h => by cases h

theorem Entries.pack_ok : ∀ (t : Entries) {b b' : Buf} {isarray : Bool} {depth : ℕ},
    t.pack tostring b isarray depth = .ok b' → ∃ c, b'.bytes = b.bytes ++ c
  | .nil, _, _, _, _, h => by
    cases h
    exact ⟨[], (List.append_nil _).symm⟩
  | .cons _ v t, _, _, _, _, h => by
    obtain ⟨name, -, h⟩ := Lib.bind_eq_ok.1 h
    obtain ⟨b1, h1, h⟩ := Lib.bind_eq_ok.1 h
    obtain ⟨type, c1, hc1⟩ := LuaValue.append_ok v h1
    obtain ⟨c2, hc2⟩ := Entries.pack_ok t h
    exact ⟨_, by rw [hc2, hc1, List.append_assoc]⟩
end

/-! ## Arrays and documents -/

variable (tostring) in
/-- The elements with the names and the values `es`. -/
def packElems (b : Buf) (depth : ℕ) : List (Bytes × LuaValue) → Write Buf
  | [] => pure b
  | (name, v) :: es => do
    let b ← v.append tostring b name depth
    packElems b depth es

variable (tostring) in
/-- An array (4) or a document (3) with these elements. -/
def appendElems (type : UInt8) (es : List (Bytes × LuaValue)) (b : Buf) (key : Bytes) (depth : ℕ) :
    Write Buf := do
  let b ← appendKey b type key
  packDict (fun b => packElems tostring b depth es) b depth

/-- The elements of an array: the value under `i` is element `i - 1`. -/
def Entries.arrayElems : Entries → List (Bytes × LuaValue)
  | .nil => []
  | .cons k v t => (digits (k.tointeger - 1).toNat, v) :: t.arrayElems

variable (tostring) in
/-- The elements of a document, if all keys are strings or numbers. -/
def Entries.documentElems : Entries → Option (List (Bytes × LuaValue))
  | .nil => some []
  | .cons k v t => do
    let key ← k.tolstring tostring
    let es ← t.documentElems
    pure ((key, v) :: es)

variable {es : List (Bytes × LuaValue)} {type : UInt8} {t : Entries}

theorem packElems_ok (h : packElems tostring b depth es = .ok b') :
    ∃ c, b'.bytes = b.bytes ++ c ∧ 2 * es.length ≤ c.length := by
  induction es generalizing b with
  | nil =>
    cases h
    exact ⟨[], (List.append_nil _).symm, le_rfl⟩
  | cons e es ih =>
    obtain ⟨b1, h1, h⟩ := Lib.bind_eq_ok.1 h
    obtain ⟨type, c1, hc1⟩ := LuaValue.append_ok e.2 h1
    obtain ⟨c2, hc2, hlen⟩ := ih h
    refine ⟨type :: e.1 ++ 0 :: c1 ++ c2, by rw [hc2, hc1, List.append_assoc], ?_⟩
    simp only [List.length_append, List.length_cons]
    omega

/-- There are no more elements than `int` counts bytes. -/
theorem appendElems_ok (h : appendElems tostring type es b key depth = .ok b') :
    (∃ c, b'.bytes = b.bytes ++ type :: c) ∧ (es.length : ℤ) ≤ INT_MAX := by
  obtain ⟨b1, h1, h⟩ := Lib.bind_eq_ok.1 h
  obtain ⟨body, hlen, hb⟩ := packDict_ok (P := fun c => 2 * es.length ≤ c.length)
    (fun _ _ h2 => (packElems_ok h2).imp fun _ hc => ⟨hc.2, hc.1⟩) h
  refine ⟨⟨_, bytes_of_appendKey h1 hb⟩, ?_⟩
  have hfits := b'.fits
  have hint := b'.int
  rw [hb, List.length_append, document, List.length_append, List.length_append] at hfits
  omega

theorem bsonNumstr_eq (i : ℕ) : bsonNumstr i = digits i := by
  unfold bsonNumstr
  split
  · rename_i h
    simp [List.getD_eq_getElem?_getD, List.getElem?_range h]
  · rfl

theorem Entries.length_arrayElems : ∀ t : Entries, t.arrayElems.length = t.keys.length
  | .nil => rfl
  | .cons _ _ t => congrArg (· + 1) t.length_arrayElems

/-- The names in an array. -/
theorem Entries.pack_array : ∀ {t : Entries} {b : Buf},
    (∀ k ∈ t.keys, ∃ i : ℕ, k = .int (i + 1) ∧ i < 2 ^ 32) →
    t.pack tostring b true depth = packElems tostring b depth t.arrayElems
  | .nil, _, _ => rfl
  | .cons k v t, b, h => by
    rw [Entries.keys, List.forall_mem_cons] at h
    obtain ⟨⟨i, rfl, hi⟩, ht⟩ := h
    have hname : elementName tostring true (.int (i + 1)) =
        .ok (digits (LuaKey.tointeger (.int (i + 1)) - 1).toNat) := by
      have hcast : LuaKey.tointeger (.int (i + 1)) - 1 = (i : ℤ) := add_sub_cancel_right ..
      show Except.ok (bsonNumstr (unsigned 4 (LuaKey.tointeger (.int (i + 1)) - 1))) = _
      rw [hcast, unsigned_natCast hi, bsonNumstr_eq]
      rfl
    rw [Entries.pack, hname, Entries.arrayElems, packElems]
    exact congrArg _ (funext fun b => Entries.pack_array ht)

/-- The names in a document. -/
theorem Entries.pack_document : ∀ {t : Entries} {es : List (Bytes × LuaValue)} {b : Buf},
    t.documentElems tostring = some es → t.pack tostring b false depth = packElems tostring b depth es
  | .nil, _, _, h => by
    cases h
    rfl
  | .cons k v t, es, b, h => by
    obtain ⟨name, hname, h⟩ := Option.bind_eq_some_iff.1 h
    obtain ⟨es', hes, h⟩ := Option.bind_eq_some_iff.1 h
    cases h
    have hok : elementName tostring false k = .ok name := by
      unfold elementName
      rw [if_neg Bool.false_ne_true, hname]
    rw [Entries.pack, hok, packElems]
    exact congrArg _ (funext fun b => Entries.pack_document hes)

/-- An array has no string key. -/
theorem Entries.no_string : ∀ {t : Entries} {b b' : Buf}, t.pack tostring b true depth = .ok b' →
    ∀ s, LuaKey.str s ∉ t.keys
  | .nil, _, _, _, _ => List.not_mem_nil
  | .cons k v t, b, b', h, s => by
    obtain ⟨name, hname, h⟩ := Lib.bind_eq_ok.1 h
    obtain ⟨b1, -, h⟩ := Lib.bind_eq_ok.1 h
    rw [Entries.keys, List.mem_cons, not_or]
    refine ⟨?_, Entries.no_string h s⟩
    rintro rfl
    cases hname

/-! ## Which tables are arrays -/

/-- The entries of a table and its `lua_rawlen`, which is a border. -/
structure LuaTable where
  entries : Entries
  len : ℕ
  nodup : entries.keys.Nodup
  border : (len = 0 ∨ LuaKey.int len ∈ entries.keys) ∧ LuaKey.int (len + 1) ∉ entries.keys

namespace LuaTable

/-- The keys are 1 to `n`, in some order. -/
def IsSequence (T : LuaTable) : Prop :=
  ∃ n, 0 < n ∧ T.entries.keys.Perm ((List.range n).map fun i : ℕ => .int (i + 1))

def HasString (T : LuaTable) : Prop := ∃ s, LuaKey.str s ∈ T.entries.keys

/-- The last entry of the table is that of its length. -/
def LenLast (T : LuaTable) : Prop := 0 < T.len ∧ T.entries.keys.getLast? = some (.int T.len)

instance (T : LuaTable) : Decidable T.LenLast := inferInstanceAs (Decidable (_ ∧ _))

variable (tostring) in
/-- `append_table` -/
def append (T : LuaTable) : Buf → Bytes → ℕ → Write Buf := fun b key depth =>
  appendTable (fun b isarray => T.entries.pack tostring b isarray depth) T.len T.entries.keys b key depth

end LuaTable

theorem luaNext_ok {k : LuaKey} : ∀ {keys : List LuaKey}, keys.Nodup → k ∈ keys →
    ∃ next, luaNext k keys = .ok next ∧ (next = none ↔ keys.getLast? = some k)
  | k' :: ks, hn, hmem => by
    obtain ⟨hnot, hn⟩ := List.nodup_cons.1 hn
    by_cases hk : k' = k
    · subst hk
      refine ⟨ks.head?, if_pos rfl, ?_⟩
      cases ks with
      | nil => simp
      | cons k1 ks =>
        rw [List.getLast?_cons_cons]
        refine iff_of_false (Option.some_ne_none _) fun hlast => hnot (List.mem_of_getLast? hlast)
    · obtain ⟨next, hnext, hiff⟩ := luaNext_ok hn ((List.mem_cons.1 hmem).resolve_left (Ne.symm hk))
      refine ⟨next, (if_neg hk).trans hnext, hiff.trans ?_⟩
      cases ks with
      | nil => exact absurd hmem (by simpa using Ne.symm hk)
      | cons k1 ks => rw [List.getLast?_cons_cons]

namespace LuaTable

/-- A table is taken for an array where its last entry is that of its length. -/
theorem isArray_eq (T : LuaTable) : isArray T.len T.entries.keys = .ok (decide T.LenLast) := by
  unfold isArray
  split
  · rename_i hpos
    obtain ⟨next, hnext, hiff⟩ := luaNext_ok T.nodup (T.border.1.resolve_left (Nat.pos_iff_ne_zero.1 hpos))
    rw [hnext]
    refine congrArg Except.ok ?_
    rw [Bool.eq_iff_iff, Option.isNone_iff_eq_none, decide_eq_true_iff, hiff]
    exact (and_iff_right hpos).symm
  · rename_i hpos
    exact congrArg Except.ok (decide_eq_false fun h => hpos h.1).symm

variable {T : LuaTable}

theorem append_of_last (h : T.LenLast) : T.append tostring b key depth = (do
    let b ← appendKey b 4 key
    packDict (fun b => T.entries.pack tostring b true depth) b depth) := by
  rw [append, appendTable, T.isArray_eq, decide_eq_true h]
  rfl

theorem append_of_not_last (h : ¬ T.LenLast) : T.append tostring b key depth = (do
    let b ← appendKey b 3 key
    packDict (fun b => T.entries.pack tostring b false depth) b depth) := by
  rw [append, appendTable, T.isArray_eq, decide_eq_false h]
  rfl

/-- What is taken for an array has no string key. -/
theorem append_ok_of_last (h : T.LenLast) (happ : T.append tostring b key depth = .ok b') :
    ¬ T.HasString := by
  rw [append_of_last h] at happ
  obtain ⟨b1, -, happ⟩ := Lib.bind_eq_ok.1 happ
  obtain ⟨-, hno, -⟩ := packDict_ok (P := fun _ => ¬ T.HasString) (fun _ _ h2 =>
    (Entries.pack_ok T.entries h2).imp fun _ hc => ⟨fun ⟨s, hs⟩ => Entries.no_string h2 s hs, hc⟩) happ
  exact hno

/-- What is not is of type 3. -/
theorem append_ok_of_not_last (h : ¬ T.LenLast) (happ : T.append tostring b key depth = .ok b') :
    ∃ c, b'.bytes = b.bytes ++ 3 :: c := by
  rw [append_of_not_last h] at happ
  obtain ⟨b1, h1, happ⟩ := Lib.bind_eq_ok.1 happ
  obtain ⟨body, -, hb⟩ := packDict_ok (P := fun _ => True) (fun _ _ h2 =>
    (Entries.pack_ok T.entries h2).imp fun _ hc => ⟨trivial, hc⟩) happ
  exact ⟨_, bytes_of_appendKey h1 hb⟩

/-- The elements of what is not taken for an array are those of a document. -/
theorem append_document (h : ¬ T.LenLast) (hes : T.entries.documentElems tostring = some es) :
    T.append tostring b key depth = appendElems tostring 3 es b key depth := by
  have hpack : (fun b => T.entries.pack tostring b false depth) = fun b => packElems tostring b depth es :=
    funext fun b => Entries.pack_document hes
  rw [append_of_not_last h, hpack]
  rfl

/-- Those of a sequence that is are those of an array. -/
theorem append_array (h : T.LenLast) (hseq : T.IsSequence)
    (hes : (T.entries.arrayElems.length : ℤ) ≤ INT_MAX) :
    T.append tostring b key depth = appendElems tostring 4 T.entries.arrayElems b key depth := by
  obtain ⟨n, -, hperm⟩ := hseq
  have hn : (n : ℤ) ≤ INT_MAX := by
    rwa [Entries.length_arrayElems, hperm.length_eq, List.length_map, List.length_range] at hes
  have hkeys : ∀ k ∈ T.entries.keys, ∃ i : ℕ, k = .int (i + 1) ∧ i < 2 ^ 32 := by
    intro k hk
    obtain ⟨i, hi, rfl⟩ := List.mem_map.1 (hperm.mem_iff.1 hk)
    have hlt := List.mem_range.1 hi
    simp only [INT_MAX] at hn
    exact ⟨i, rfl, by omega⟩
  have hpack : (fun b => T.entries.pack tostring b true depth) =
      fun b => packElems tostring b depth T.entries.arrayElems := funext fun b => Entries.pack_array hkeys
  rw [append_of_last h, hpack]
  rfl

variable (tostring) in
/-- The table is encoded as what it is: a sequence as an array whose element `i - 1` is its `i`th
    value, and a table with a string key as a document. -/
structure Recognised (T : LuaTable) (b : Buf) (key : Bytes) (depth : ℕ) : Prop where
  array : T.IsSequence → ∃ b', appendElems tostring 4 T.entries.arrayElems b key depth = .ok b' ∧
    T.append tostring b key depth = .ok b'
  document : T.HasString → ∃ es b', T.entries.documentElems tostring = some es ∧
    appendElems tostring 3 es b key depth = .ok b' ∧ T.append tostring b key depth = .ok b'

variable (tostring) in
/-- Its elements can be encoded, and the last entry of a sequence, but not of a table with a string
    key, is that of its length. -/
structure Ordered (T : LuaTable) (b : Buf) (key : Bytes) (depth : ℕ) : Prop where
  array : T.IsSequence →
    (∃ b', appendElems tostring 4 T.entries.arrayElems b key depth = .ok b') ∧ T.LenLast
  document : T.HasString → (∃ es b', T.entries.documentElems tostring = some es ∧
    appendElems tostring 3 es b key depth = .ok b') ∧ ¬ T.LenLast

/-- A table is encoded as what it is if and only if its elements can be encoded and `lua_next` ends
    with the key that is its length for a sequence, and with another key for a table with a string
    key. -/
theorem recognised_iff (T : LuaTable) (b : Buf) (key : Bytes) (depth : ℕ) :
    T.Recognised tostring b key depth ↔ T.Ordered tostring b key depth := by
  constructor
  · rintro ⟨harray, hdocument⟩
    refine ⟨fun hseq => ?_, fun hstr => ?_⟩
    · obtain ⟨b', hes, happ⟩ := harray hseq
      refine ⟨⟨b', hes⟩, ?_⟩
      by_contra hlast
      obtain ⟨c3, h3⟩ := append_ok_of_not_last hlast happ
      obtain ⟨⟨c4, h4⟩, -⟩ := appendElems_ok hes
      have htype := List.head_eq_of_cons_eq (List.append_cancel_left (h3.symm.trans h4))
      exact absurd htype (by decide)
    · obtain ⟨es, b', hes, hb', happ⟩ := hdocument hstr
      exact ⟨⟨es, b', hes, hb'⟩, fun hlast => append_ok_of_last hlast happ hstr⟩
  · rintro ⟨harray, hdocument⟩
    refine ⟨fun hseq => ?_, fun hstr => ?_⟩
    · obtain ⟨⟨b', hes⟩, hlast⟩ := harray hseq
      exact ⟨b', hes, (append_array hlast hseq (appendElems_ok hes).2).trans hes⟩
    · obtain ⟨⟨es, b', hes, hb'⟩, hlast⟩ := hdocument hstr
      exact ⟨es, b', hes, hb', (append_document hlast hes).trans hb'⟩

/-- `{[1] = "x", [2] = "y"}`: the two entries are in a hash, with 2 first. -/
def hashed : LuaTable where
  entries := .cons (.int 2) (.str [121]) (.cons (.int 1) (.str [120]) .nil)
  len := 2
  nodup := by decide
  border := by decide

/-- It is taken for a document. -/
theorem not_recognised_hashed : ¬ ∀ (tostring : UInt64 → Bytes) (T : LuaTable) (b : Buf) (key : Bytes)
    (depth : ℕ), (T.IsSequence → ∃ b', appendElems tostring 4 T.entries.arrayElems b key depth = .ok b') →
    (T.HasString → ∃ es b', T.entries.documentElems tostring = some es ∧
      appendElems tostring 3 es b key depth = .ok b') → T.Recognised tostring b key depth := by
  intro h
  have hseq : hashed.IsSequence := ⟨2, by decide, List.Perm.swap _ _ _⟩
  have hstr : ¬ hashed.HasString := by
    rintro ⟨s, hs⟩
    simp [hashed, Entries.keys] at hs
  have hbytes : (do
      let b ← appendElems (fun _ => []) 4 hashed.entries.arrayElems .create [97] 1
      pure b.bytes : Write Bytes) =
      .ok [4, 97, 0, 23, 0, 0, 0, 2, 49, 0, 2, 0, 0, 0, 121, 0, 2, 48, 0, 2, 0, 0, 0, 120, 0, 0] := by
    decide +kernel
  obtain ⟨b4, h4, -⟩ := Lib.bind_eq_ok.1 hbytes
  have hr := h (fun _ => []) hashed .create [97] 1 (fun _ => ⟨b4, h4⟩) (fun h => (hstr h).elim)
  obtain ⟨b', hes, happ⟩ := hr.array hseq
  obtain ⟨c3, h3⟩ := append_ok_of_not_last (by decide) happ
  obtain ⟨⟨c4, h4⟩, -⟩ := appendElems_ok hes
  have htype := List.head_eq_of_cons_eq (List.append_cancel_left (h3.symm.trans h4))
  exact absurd htype (by decide)

end LuaTable

end Levent.Bson
