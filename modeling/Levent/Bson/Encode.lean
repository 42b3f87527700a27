/-
  `lua-bson.c`: `bson.encode` of string-keyed tables, and the bytes it writes.

  A string that begins with a NUL and the type of an element is written as an
  element of this type.
-/
import Levent.Bson.Decode

namespace Levent.Bson

open Lib (leBytes ofLe unsigned overwrite overwrite_length overwrite_append)

/-! ## Tables -/

-- the fields of a table in the order of `lua_next`
mutual
inductive Item where
  | int (n : Int64)
  | bool (b : Bool)
  | str (s : Bytes)
  | dict (d : Dict)

inductive Dict where
  | nil
  | cons (key : Bytes) (v : Item) (d : Dict)
end

def Dict.keys : Dict → List Bytes
  | .nil => []
  | .cons key _ d => key :: d.keys

mutual
/-- No table has a key twice. -/
def Item.Distinct : Item → Prop
  | .dict d => d.Distinct
  | _ => True

def Dict.Distinct : Dict → Prop
  | .nil => True
  | .cons key v d => key ∉ d.keys ∧ v.Distinct ∧ d.Distinct
end

mutual
def Item.value : Item → Value
  | .int n => .int n.toInt
  | .bool b => .bool b
  | .str s => .str s
  | .dict d => .table d.fields

def Dict.fields : Dict → Fields
  | .nil => .nil
  | .cons key v d => .cons (.str key) v.value d.fields
end

/-! ## The buffer -/

abbrev Write := Except Stop

def DEFAULT_CAP : ℕ := 64
def MAX_DEPTH : ℕ := 128

/-- `struct bson` -/
structure Buf where
  bytes : Bytes
  cap : ℕ
  fits : bytes.length ≤ cap
  int : (cap : ℤ) ≤ INT_MAX

/-- The loop of `bson_reserve`: it ends after 31 rounds, when `cap` overflows. -/
def growCap (need : ℕ) : ℕ → ℕ → Write {cap : ℕ // need ≤ cap ∧ (cap : ℤ) ≤ INT_MAX}
  | 0, _ => .error .unfinished
  | k + 1, cap =>
    if h : ((2 * cap : ℕ) : ℤ) ≤ INT_MAX then
      if h' : 2 * cap ≤ need then growCap need k (2 * cap)
      else .ok ⟨2 * cap, Nat.le_of_not_le h', h⟩
    else .error .undefined

/-- `bson_reserve`.  (A `sz` that is no `int` is cut off, and the copy that follows goes
    past the buffer.) -/
def Buf.reserve (b : Buf) (sz : ℕ) : Write {cap : ℕ // b.bytes.length + sz ≤ cap ∧ (cap : ℤ) ≤ INT_MAX} :=
  if h : b.bytes.length + sz ≤ b.cap then .ok ⟨b.cap, h, b.int⟩
  else growCap (b.bytes.length + sz) 31 b.cap

/-- `bson_create` -/
def Buf.create : Buf := ⟨[], DEFAULT_CAP, Nat.zero_le _, by decide⟩

/-- `bson_reserve` and a copy -/
def Buf.put (b : Buf) (bs : Bytes) : Write Buf := do
  let cap ← b.reserve bs.length
  pure ⟨b.bytes ++ bs, cap, List.length_append.trans_le cap.2.1, cap.2.2⟩

/-- `write_byte` -/
def writeByte (b : Buf) (v : UInt8) : Write Buf := b.put [v]

/-- `write_int32` -/
def writeInt32 (b : Buf) (v : ℤ) : Write Buf := b.put (leBytes 4 (unsigned 4 v))

/-- `write_int64` -/
def writeInt64 (b : Buf) (v : ℤ) : Write Buf := b.put (leBytes 8 (unsigned 8 v))

/-- `write_string` -/
def writeString (b : Buf) (s : Bytes) : Write Buf := b.put (s ++ [0])

/-- `reserve_length` -/
def reserveLength (b : Buf) : Write (ℕ × Buf) := do
  let b' ← b.put [0, 0, 0, 0]
  pure (b.bytes.length, b')

/-- `write_length` -/
def writeLength (b : Buf) (v : ℤ) (off : ℕ) : Buf :=
  { b with
    bytes := overwrite off (leBytes 4 (unsigned 4 v)) b.bytes
    fits := (overwrite_length ..).trans_le b.fits }

/-! ## Elements -/

/-- `append_key` -/
def appendKey (b : Buf) (type : UInt8) (key : Bytes) : Write Buf := do
  let b ← writeByte b type
  writeString b key

/-- `is_32bit` -/
def is32bit (v : ℤ) : Bool := -2 ^ 31 ≤ v ∧ v ≤ 2 ^ 31 - 1

/-- `append_number` of an integer -/
def appendNumber (b : Buf) (key : Bytes) (n : Int64) : Write Buf := do
  if is32bit n.toInt then
    let b ← appendKey b 16 key
    writeInt32 b n.toInt
  else
    let b ← appendKey b 18 key
    writeInt64 b n.toInt

/-- `write_binary`: the first byte is the subtype. -/
def writeBinary (b : Buf) (p : Bytes) : Write Buf := do
  let (length, b) ← reserveLength b
  let b ← b.put p
  pure (writeLength b (p.length - 1) length)

/-- What is before and after the last NUL. -/
def splitNul (s : Bytes) : Option (Bytes × Bytes) :=
  match s.reverse.dropWhile (· ≠ 0) with
  | [] => none
  | _ :: r => some (r.reverse, (s.reverse.takeWhile (· ≠ 0)).reverse)

/-- The bytes before the first NUL as a text of one character for each. -/
def cstring (s : Bytes) : String :=
  String.ofList ((s.takeWhile (· ≠ 0)).map fun b => Char.ofNat b.toNat)

/-- The part of `append_one` for strings.  In a regular expression the last byte is left
    out; without a NUL before it the length of a copy is below 0, which is undefined. -/
def appendString (b : Buf) (key s : Bytes) : Write Buf :=
  match s with
  | 0 :: subt :: p => do
    let b ← appendKey b subt key
    match subt with
    | 5 => writeBinary b p
    | 7 => if p.length ≠ 12 then .error (.error s!"Invalid object id {cstring p}") else b.put p
    | 13 | 12 | 14 | 15 => b.put p
    | 9 => if p.length ≠ 4 then .error (.error "Invalid date") else writeInt64 b (ofLe p * 1000)
    | 17 =>
      if p.length ≠ 8 then .error (.error "Invalid timestamp")
      else do
        let b ← b.put (p.take 4)
        b.put (p.drop 4)
    | 11 =>
      match splitNul p.dropLast with
      | none => .error .undefined
      | some (r1, r2) => do
        let b ← writeString b r1
        writeString b r2
    | 127 | 255 | 10 => pure b
    | subt => .error (.error s!"Invalid subtype {subt.toNat}")
  | s => do
    let b ← appendKey b 2 key
    let (off, b) ← reserveLength b
    let b ← writeString b s
    pure (writeLength b (s.length + 1) off)

/-- `pack_dict`, with its loop as `fields`.  A string-keyed table has no border but 0, it
    is never an array. -/
def packDict (fields : Buf → Write Buf) (b : Buf) (depth : ℕ) : Write Buf := do
  if depth > MAX_DEPTH then .error (.error "Too depth while encoding bson")
  let (length, b) ← reserveLength b
  let b ← fields b
  let b ← writeByte b 0
  pure (writeLength b ((b.bytes.length : ℤ) - length) length)

mutual
/-- `append_one` -/
def appendOne (b : Buf) (key : Bytes) (depth : ℕ) : Item → Write Buf
  | .int n => appendNumber b key n
  | .str s => appendString b key s
  | .dict d => do
    let b ← appendKey b 3 key
    packDict (fun b => packFields b (depth + 1) d) b (depth + 1)
  | .bool v => do
    let b ← appendKey b 8 key
    writeByte b (if v then 1 else 0)

/-- The loop of `pack_dict`. -/
def packFields (b : Buf) (depth : ℕ) : Dict → Write Buf
  | .nil => pure b
  | .cons key v d => do
    let b ← appendOne b key depth v
    packFields b depth d
end

/-- `lencode` -/
def encode (d : Dict) : Write Bytes := do
  let b ← packDict (fun b => packFields b 0 d) .create 0
  pure b.bytes

/-! ## What is written -/

/-- The type a string is written with. -/
def stringType : Bytes → UInt8
  | 0 :: subt :: _ => subt
  | _ => 2

/-- The bytes of a string after its key, if it is accepted. -/
def stringPayload : Bytes → Option Bytes
  | 0 :: subt :: p =>
    match subt with
    | 5 => some (leBytes 4 (unsigned 4 (p.length - 1)) ++ p)
    | 7 => if p.length ≠ 12 then none else some p
    | 13 | 12 | 14 | 15 => some p
    | 9 => if p.length ≠ 4 then none else some (leBytes 8 (unsigned 8 (ofLe p * 1000)))
    | 17 => if p.length ≠ 8 then none else some p
    | 11 => (splitNul p.dropLast).map fun r => r.1 ++ 0 :: r.2 ++ [0]
    | 127 | 255 | 10 => some []
    | _ => none
  | s => some (leBytes 4 (unsigned 4 (s.length + 1)) ++ s ++ [0])

/-- A document with the elements `body`. -/
def document (body : Bytes) : Bytes := leBytes 4 (unsigned 4 (body.length + 5)) ++ body ++ [0]

def Item.type : Item → UInt8
  | .int n => if is32bit n.toInt then 16 else 18
  | .bool _ => 8
  | .str s => stringType s
  | .dict _ => 3

mutual
def Item.payload : Item → Bytes
  | .int n => if is32bit n.toInt then leBytes 4 (unsigned 4 n.toInt) else leBytes 8 (unsigned 8 n.toInt)
  | .bool v => [if v then 1 else 0]
  | .str s => (stringPayload s).getD []
  | .dict d => document d.body

/-- The elements of a table. -/
def Dict.body : Dict → Bytes
  | .nil => []
  | .cons key v d => v.type :: key ++ 0 :: v.payload ++ d.body
end

mutual
/-- All strings are accepted. -/
def Item.Accepted : Item → Prop
  | .str s => (stringPayload s).isSome
  | .dict d => d.Accepted
  | _ => True

def Dict.Accepted : Dict → Prop
  | .nil => True
  | .cons _ v d => v.Accepted ∧ d.Accepted
end

variable {b b' : Buf} {key : Bytes}

theorem put_ok {bs : Bytes} (h : b.put bs = .ok b') : b'.bytes = b.bytes ++ bs := by
  obtain ⟨cap, -, h⟩ := Lib.bind_eq_ok.1 h
  cases h
  rfl

theorem reserveLength_ok {off : ℕ} (h : reserveLength b = .ok (off, b')) :
    off = b.bytes.length ∧ b'.bytes = b.bytes ++ [0, 0, 0, 0] := by
  obtain ⟨b1, h1, h⟩ := Lib.bind_eq_ok.1 h
  cases h
  exact ⟨rfl, put_ok h1⟩

theorem writeLength_bytes {a o c : Bytes} (h : b.bytes = a ++ o ++ c) (ho : o.length = 4) (v : ℤ) :
    (writeLength b v a.length).bytes = a ++ leBytes 4 (unsigned 4 v) ++ c := by
  have := overwrite_append (a := a) (b := c) (ho.trans (Lib.leBytes_length 4 (unsigned 4 v)).symm)
  rw [← h] at this
  exact this

theorem appendKey_ok {type : UInt8} (h : appendKey b type key = .ok b') :
    b'.bytes = b.bytes ++ (type :: key ++ [0]) := by
  obtain ⟨b1, h1, h⟩ := Lib.bind_eq_ok.1 h
  rw [put_ok h, put_ok h1]
  simp

theorem appendNumber_ok {n : Int64} (h : appendNumber b key n = .ok b') :
    b'.bytes = b.bytes ++ ((Item.int n).type :: key ++ 0 :: (Item.int n).payload) := by
  unfold appendNumber at h
  simp only [Item.type, Item.payload]
  split at h
  · rename_i h32
    obtain ⟨b1, h1, h⟩ := Lib.bind_eq_ok.1 h
    rw [if_pos h32, if_pos h32, put_ok h, appendKey_ok h1]
    simp
  · rename_i h32
    obtain ⟨b1, h1, h⟩ := Lib.bind_eq_ok.1 h
    rw [if_neg h32, if_neg h32, put_ok h, appendKey_ok h1]
    simp

theorem writeBinary_ok {p : Bytes} (h : writeBinary b p = .ok b') :
    b'.bytes = b.bytes ++ (leBytes 4 (unsigned 4 (p.length - 1)) ++ p) := by
  obtain ⟨⟨off, b1⟩, h1, h⟩ := Lib.bind_eq_ok.1 h
  obtain ⟨rfl, hb1⟩ := reserveLength_ok h1
  obtain ⟨b2, h2, h⟩ := Lib.bind_eq_ok.1 h
  cases h
  rw [writeLength_bytes (o := [0, 0, 0, 0]) (c := p) (by rw [put_ok h2, hb1]) rfl]
  simp

theorem appendString_ok {s : Bytes} (h : appendString b key s = .ok b') :
    ∃ c, stringPayload s = some c ∧ b'.bytes = b.bytes ++ (stringType s :: key ++ 0 :: c) := by
  unfold appendString at h
  split at h
  · rename_i subt p
    obtain ⟨b1, h1, h⟩ := Lib.bind_eq_ok.1 h
    have hkey : ∀ c, b'.bytes = b1.bytes ++ c → b'.bytes = b.bytes ++ (subt :: key ++ 0 :: c) := by
      intro c hc
      rw [hc, appendKey_ok h1]
      simp
    split at h
    · exact ⟨_, rfl, hkey _ (writeBinary_ok h)⟩
    · split at h
      · cases h
      · rename_i hlen
        exact ⟨p, if_neg hlen, hkey _ (put_ok h)⟩
    · exact ⟨p, rfl, hkey _ (put_ok h)⟩
    · exact ⟨p, rfl, hkey _ (put_ok h)⟩
    · exact ⟨p, rfl, hkey _ (put_ok h)⟩
    · exact ⟨p, rfl, hkey _ (put_ok h)⟩
    · split at h
      · cases h
      · rename_i hlen
        exact ⟨_, if_neg hlen, hkey _ (put_ok h)⟩
    · split at h
      · cases h
      · rename_i hlen
        obtain ⟨b2, h2, h⟩ := Lib.bind_eq_ok.1 h
        refine ⟨p, if_neg hlen, hkey _ ?_⟩
        rw [put_ok h, put_ok h2, List.append_assoc, List.take_append_drop]
    · split at h
      · cases h
      · rename_i r1 r2 hs
        obtain ⟨b2, h2, h⟩ := Lib.bind_eq_ok.1 h
        refine ⟨r1 ++ 0 :: r2 ++ [0], congrArg (Option.map _) hs, hkey _ ?_⟩
        rw [put_ok h, put_ok h2]
        simp
    · cases h
      exact ⟨[], rfl, hkey _ (List.append_nil _).symm⟩
    · cases h
      exact ⟨[], rfl, hkey _ (List.append_nil _).symm⟩
    · cases h
      exact ⟨[], rfl, hkey _ (List.append_nil _).symm⟩
    · cases h
  · rename_i hs
    obtain ⟨b1, h1, h⟩ := Lib.bind_eq_ok.1 h
    obtain ⟨⟨off, b2⟩, h2, h⟩ := Lib.bind_eq_ok.1 h
    obtain ⟨rfl, hb2⟩ := reserveLength_ok h2
    obtain ⟨b3, h3, h⟩ := Lib.bind_eq_ok.1 h
    cases h
    have htype : stringType s = 2 := by
      unfold stringType
      split
      · exact (hs _ _ rfl).elim
      · rfl
    have hpay : stringPayload s = some (leBytes 4 (unsigned 4 (s.length + 1)) ++ s ++ [0]) := by
      unfold stringPayload
      split
      · exact (hs _ _ rfl).elim
      · rfl
    refine ⟨_, hpay, ?_⟩
    rw [writeLength_bytes (o := [0, 0, 0, 0]) (c := s ++ [0]) (by rw [put_ok h3, hb2]) rfl,
      appendKey_ok h1, htype]
    simp

theorem packDict_ok {fields : Buf → Write Buf} {depth : ℕ} {P : Bytes → Prop}
    (hfields : ∀ b1 b2, fields b1 = .ok b2 → ∃ body, P body ∧ b2.bytes = b1.bytes ++ body)
    (h : packDict fields b depth = .ok b') : ∃ body, P body ∧ b'.bytes = b.bytes ++ document body := by
  unfold packDict at h
  split at h
  · cases h
  · obtain ⟨⟨off, b1⟩, h1, h⟩ := Lib.bind_eq_ok.1 h
    obtain ⟨rfl, hb1⟩ := reserveLength_ok h1
    obtain ⟨b2, h2, h⟩ := Lib.bind_eq_ok.1 h
    obtain ⟨body, hP, hb2⟩ := hfields _ _ h2
    obtain ⟨b3, h3, h⟩ := Lib.bind_eq_ok.1 h
    cases h
    have hb3 : b3.bytes = b.bytes ++ [0, 0, 0, 0] ++ (body ++ [0]) := by
      rw [put_ok h3, hb2, hb1, List.append_assoc (b.bytes ++ _)]
    have hlen : (b3.bytes.length : ℤ) - b.bytes.length = body.length + 5 := by
      rw [hb3]
      simp only [List.length_append, List.length_cons, List.length_nil]
      push_cast
      ring
    refine ⟨body, hP, ?_⟩
    rw [writeLength_bytes hb3 rfl, hlen]
    simp only [document, List.append_assoc]

mutual
theorem appendOne_ok : ∀ (v : Item) {b b' : Buf} {key : Bytes} {depth : ℕ}, appendOne b key depth v = .ok b' →
    v.Accepted ∧ b'.bytes = b.bytes ++ (v.type :: key ++ 0 :: v.payload)
  | .int _, _, _, _, _, h => ⟨trivial, appendNumber_ok h⟩
  | .bool v, _, _, _, _, h => by
    obtain ⟨b1, h1, h⟩ := Lib.bind_eq_ok.1 h
    refine ⟨trivial, ?_⟩
    rw [put_ok h, appendKey_ok h1]
    simp [Item.type, Item.payload]
  | .str s, _, _, _, _, h => by
    obtain ⟨c, hc, hb⟩ := appendString_ok h
    refine ⟨Option.isSome_of_eq_some hc, ?_⟩
    rw [hb, Item.payload, hc]
    rfl
  | .dict d, _, _, _, _, h => by
    obtain ⟨b1, h1, h⟩ := Lib.bind_eq_ok.1 h
    obtain ⟨_, ⟨hd, rfl⟩, hb⟩ := packDict_ok (P := fun c => d.Accepted ∧ c = d.body)
      (fun _ _ h2 => ⟨_, ⟨(packFields_ok d h2).1, rfl⟩, (packFields_ok d h2).2⟩) h
    refine ⟨hd, ?_⟩
    rw [hb, appendKey_ok h1]
    simp [Item.type, Item.payload]

theorem packFields_ok : ∀ (d : Dict) {b b' : Buf} {depth : ℕ}, packFields b depth d = .ok b' →
    d.Accepted ∧ b'.bytes = b.bytes ++ d.body
  | .nil, _, _, _, h => by
    cases h
    exact ⟨trivial, (List.append_nil _).symm⟩
  | .cons key v d, _, _, _, h => by
    obtain ⟨b1, h1, h⟩ := Lib.bind_eq_ok.1 h
    obtain ⟨ha, hb⟩ := appendOne_ok v h1
    obtain ⟨ha', hb'⟩ := packFields_ok d h
    refine ⟨⟨ha, ha'⟩, ?_⟩
    rw [hb', hb, Dict.body]
    simp
end

/-- What is written when a table is accepted. -/
theorem encode_ok {d : Dict} {bs : Bytes} (h : encode d = .ok bs) :
    d.Accepted ∧ bs = document d.body ∧ (bs.length : ℤ) ≤ INT_MAX := by
  obtain ⟨b, hb, h⟩ := Lib.bind_eq_ok.1 h
  cases h
  obtain ⟨_, ⟨hd, rfl⟩, hbytes⟩ := packDict_ok (P := fun c => d.Accepted ∧ c = d.body)
    (fun _ _ h2 => ⟨_, ⟨(packFields_ok d h2).1, rfl⟩, (packFields_ok d h2).2⟩) hb
  have h1 := b.fits
  have h2 := b.int
  exact ⟨hd, hbytes, by omega⟩

end Levent.Bson
