/-
  `lua-bson.c`: the values it makes and reads, and `bson.decode` of a block of
  memory.

  A reader is a pointer and the number of bytes that are left for it.  The reads
  of the memory, the changes of a reader's size and the lengths that move a
  reader are recorded.  The host is little-endian; where the arithmetic of `int`
  overflows, C leaves the rest undefined.
-/
import Levent.Lib.Memory

namespace Levent.Bson

open Lib (Mem Traced slice ofLe leBytes signed unsigned)

abbrev Bytes := List UInt8

/-! ## Values -/

inductive Key where
  | int (n : ℤ)
  | str (s : Bytes)
  deriving DecidableEq

-- Lua values; of a double the 64 bits are kept
mutual
inductive Value where
  | real (bits : ℕ)
  | int (n : ℤ)
  | bool (b : Bool)
  | str (s : Bytes)
  | table (fs : Fields)

/-- The fields of a table, in the order they were set in. -/
inductive Fields where
  | nil
  | cons (k : Key) (v : Value) (fs : Fields)
end

/-- `lua_rawget` -/
def Fields.get (k : Key) : Fields → Option Value
  | .nil => none
  | .cons k' v fs => if k' = k then some v else fs.get k

/-- `lua_rawset` -/
def Fields.set (k : Key) (v : Value) : Fields → Fields
  | .nil => .cons k v .nil
  | .cons k' v' fs => if k' = k then .cons k v fs else .cons k' v' (fs.set k v)

/-- The tables and strings of a value of another type, with a NUL and the type first. -/
def object (type : UInt8) (s : Bytes) : Value := .str (0 :: type :: s)

/-! ## What is recorded -/

/-- The elements whose length moves the reader. -/
inductive Kind where
  | document | string | binary | code | dbpointer | codews
  deriving DecidableEq

/-- What is added to the length for the call of `read_bytes`. -/
def Kind.adjust : Kind → ℤ
  | .document => -5
  | .string | .binary | .code => 0
  | .dbpointer => 12
  | .codews => -4

inductive Ev where
  /-- the bytes from `p` on are read -/
  | read (p : ℤ) (n : ℕ)
  /-- the size of a reader changes -/
  | resized (old new : ℤ)
  /-- an element declares the length `sz`, with which `read_bytes` is to be called -/
  | declared (k : Kind) (sz : ℤ)
  /-- arithmetic of `int` overflows -/
  | overflow
  deriving DecidableEq

/-- `luaL_error`, or undefined behaviour; `unfinished` is a loop or a recursion that is
    still going on. -/
inductive Stop where
  | error (msg : String)
  | undefined
  | unfinished
  deriving DecidableEq

abbrev Read := Traced Stop Ev

def INT_MAX : ℤ := 2 ^ 31 - 1

/-- Arithmetic of `int`. -/
def cint (x : ℤ) : Read ℤ :=
  if -INT_MAX - 1 ≤ x ∧ x ≤ INT_MAX then pure x
  else do
    .note .overflow
    .stop .undefined

/-! ## Readers -/

structure Reader where
  ptr : ℤ
  size : ℤ
  deriving DecidableEq

variable (mem : Mem)

/-- Memory is read. -/
def load (p : ℤ) (n : ℕ) : Read Bytes := do
  .note (.read p n)
  pure (slice mem p n)

/-- `check_reader` -/
def checkReader (br : Reader) (sz : ℤ) : Read Unit :=
  if br.size < sz then .stop (.error s!"Invalid bson block ({br.size}:{sz})") else pure ()

/-- `br->ptr += sz; br->size -= sz` -/
def Reader.advance (br : Reader) (sz : ℤ) : Read Reader := do
  let size ← cint (br.size - sz)
  .note (.resized br.size size)
  pure ⟨br.ptr + sz, size⟩

/-- The first `n` bytes of a reader. -/
def readFixed (br : Reader) (n : ℕ) : Read (Bytes × Reader) := do
  checkReader br n
  let b ← load mem br.ptr n
  let br ← br.advance n
  pure (b, br)

/-- `read_byte` -/
def readByte (br : Reader) : Read (UInt8 × Reader) := do
  let (b, br) ← readFixed mem br 1
  pure (b.headD 0, br)

/-- `read_int32` -/
def readInt32 (br : Reader) : Read (ℤ × Reader) := do
  let (b, br) ← readFixed mem br 4
  pure (signed 4 (ofLe b), br)

/-- `read_int64` -/
def readInt64 (br : Reader) : Read (ℤ × Reader) := do
  let (b, br) ← readFixed mem br 8
  pure (signed 8 (ofLe b), br)

/-- `read_double` -/
def readDouble (br : Reader) : Read (ℕ × Reader) := do
  let (b, br) ← readFixed mem br 8
  pure (ofLe b, br)

/-- `read_bytes`: the pointer to `sz` bytes, which may be negative. -/
def readBytes (br : Reader) (sz : ℤ) : Read (ℤ × Reader) := do
  checkReader br sz
  let br' ← br.advance sz
  pure (br.ptr, br')

/-- The loop of `read_cstring`: it stops at the end of the reader, or at a NUL. -/
def cstringLen (p : ℤ) : ℕ → ℕ → Read ℕ
  | _, 0 => .stop (.error "Invalid bson block : cstring")
  | i, n + 1 => do
    let b ← load mem (p + i) 1
    if b = [0] then pure i else cstringLen p (i + 1) n

/-- `read_cstring`: the bytes before the NUL.  (With a size below 0 the loop would go on
    until a NUL comes.) -/
def readCString (br : Reader) : Read (Bytes × Reader) := do
  if br.size < 0 then .stop .undefined
  let i ← cstringLen mem br.ptr 0 br.size.toNat
  let br' ← br.advance (i + 1)
  pure (slice mem br.ptr i, br')

/-- `sz` bytes are added to a string buffer that has `used` of them.  As a `size_t` a
    negative number is more than there can be. -/
def pushBytes (used : ℕ) (p sz : ℤ) : Read Bytes :=
  if sz < 0 then .stop (.error (if 0 ≤ used + sz then "buffer too large" else "not enough memory"))
  else load mem p sz.toNat

/-- `make_object` -/
def makeObject (type : UInt8) (p sz : ℤ) : Read Value := do
  let s ← pushBytes mem 2 p sz
  pure (object type s)

/-! ## Documents -/

/-- White space, a sign and digits, as `strtol` takes them; the value is cut off at the
    bounds of `long`. -/
def strtol (key : Bytes) : ℤ :=
  let isSpace (b : UInt8) : Bool := b = 32 ∨ 9 ≤ b ∧ b ≤ 13
  let s := key.dropWhile isSpace
  let digits (s : Bytes) : ℕ :=
    (s.takeWhile fun b => 48 ≤ b ∧ b ≤ 57).foldl (fun n b => n * 10 + (b.toNat - 48)) 0
  match s with
  | 43 :: s => min (digits s) (2 ^ 63 - 1)
  | 45 :: s => max (-(digits s : ℤ)) (-2 ^ 63)
  | s => min (digits s) (2 ^ 63 - 1)

/-- The key of an element: in an array `strtol(key, NULL, 10) + 1` as an `int`. -/
def elementKey (array : Bool) (key : Bytes) : Key :=
  if array then .int (signed 4 (unsigned 4 (strtol key + 1))) else .str key

/-- `read_bytes` of the length that an element declares. -/
def readLength (k : Kind) (br : Reader) (sz : ℤ) : Read (ℤ × Reader) := do
  .note (.declared k sz)
  let n ← cint (sz + k.adjust)
  readBytes br n

/-- `unpack_dict`, with its loop as `elems`. -/
def unpackDict (elems : Reader → Bool → Read Fields) (br : Reader) (array : Bool) : Read (Value × Reader) := do
  let (sz, br) ← readInt32 mem br
  let (bytes, br) ← readLength .document br sz
  let (e, br) ← readByte mem br
  if e ≠ 0 then .stop (.error "Invalid document end")
  let fs ← elems ⟨bytes, sz - 5⟩ array
  pure (.table fs, br)

/-- The value of an element of the type `bt`: the cases of `unpack_dict`. -/
def unpackValue (elems : Reader → Bool → Read Fields) (bt : UInt8) (t : Reader) : Read (Value × Reader) :=
  match bt with
  | 1 => do
    let (d, t) ← readDouble mem t
    pure (.real d, t)
  | 8 => do
    let (b, t) ← readByte mem t
    pure (.bool (b ≠ 0), t)
  | 2 => do
    let (sz, t) ← readInt32 mem t
    if sz ≤ 0 then .stop (.error s!"Invalid bson string , length = {sz}")
    let (p, t) ← readLength .string t sz
    let s ← pushBytes mem 0 p (sz - 1)
    pure (.str s, t)
  | 3 => unpackDict mem elems t false
  | 4 => unpackDict mem elems t true
  | 5 => do
    let (sz, t) ← readInt32 mem t
    let (subtype, t) ← readByte mem t
    let (p, t) ← readLength .binary t sz
    let s ← pushBytes mem 3 p sz
    pure (object 5 (subtype :: s), t)
  | 7 => do
    let (b, t) ← readFixed mem t 12
    pure (object 7 b, t)
  | 9 => do
    let (date, t) ← readInt64 mem t
    pure (object 9 (leBytes 4 (unsigned 4 (date.tdiv 1000))), t)
  | 255 | 127 | 10 => pure (object bt [], t)
  | 11 => do
    let (r1, t) ← readCString mem t
    let (r2, t) ← readCString mem t
    pure (object 11 (r1 ++ 0 :: r2 ++ [0]), t)
  | 16 => do
    let (n, t) ← readInt32 mem t
    pure (.int n, t)
  | 17 => do
    let (inc, t) ← readFixed mem t 4
    let (ts, t) ← readFixed mem t 4
    pure (object 17 (inc ++ ts), t)
  | 18 => do
    let (n, t) ← readInt64 mem t
    pure (.int n, t)
  | 12 => do
    let p := t.ptr
    let (sz, t) ← readInt32 mem t
    let (_, t) ← readLength .dbpointer t sz
    let v ← makeObject mem 12 p (← cint (sz + 16))
    pure (v, t)
  | 13 | 14 => do
    let p := t.ptr
    let (sz, t) ← readInt32 mem t
    let (_, t) ← readLength .code t sz
    let v ← makeObject mem bt p (← cint (sz + 4))
    pure (v, t)
  | 15 => do
    let p := t.ptr
    let (sz, t) ← readInt32 mem t
    let (_, t) ← readLength .codews t sz
    let v ← makeObject mem 15 p sz
    pure (v, t)
  | bt => .stop (.error s!"Invalid bson type : {bt.toNat}")

/-- The loop of `unpack_dict` over the elements in `t`. -/
def unpackElems : ℕ → Reader → Bool → Fields → Read Fields
  | 0, _, _, _ => .stop .unfinished
  | fuel + 1, t, array, fs =>
    if t.size = 0 then pure fs
    else do
      let (bt, t) ← readByte mem t
      let (key, t) ← readCString mem t
      let (v, t) ← unpackValue mem (fun t array => unpackElems fuel t array .nil) bt t
      unpackElems fuel t array (fs.set (elementKey array key) v)

/-- `ldecode`: the length of the block is in the block. -/
def ldecode (fuel : ℕ) : Read Value := do
  let b ← load mem 0 4
  let (v, _) ← unpackDict mem (fun t array => unpackElems mem fuel t array .nil)
    ⟨0, signed 4 (ofLe b)⟩ false
  pure v

end Levent.Bson
