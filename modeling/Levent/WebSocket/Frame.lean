/-
  The frames of `http/websocket.lua`: `write` splits a message into frames and
  masks them, `read` takes one frame from a connection, whose payload it reads
  in stages.

  A frame on the wire (`Frame.Encodes`) may have its length in any of the three
  forms that hold it, and any mask or none.
-/
import Levent.Stream
import Mathlib.Data.Nat.Bitwise

namespace Levent.WebSocket

open Lib (Lua toBytes ofBytes packI unpackI)

def CONTINUATION : ℕ := 0x0
def TEXT : ℕ := 0x1
def BINARY : ℕ := 0x2
def CLOSE : ℕ := 0x8
def PING : ℕ := 0x9
def PONG : ℕ := 0xA

theorem TEXT_lt : TEXT < 16 := by decide

def MAX_FRAME_BINLEN : ℕ := 16
def MAX_FRAME_SIZE : ℕ := 1 <<< MAX_FRAME_BINLEN
def MAX_BUFFER_LENGTH : ℕ := 1 <<< 8

/-! ## Buffers -/

/-- A table of strings, with the indices from 1. -/
abbrev Table := ℕ → Option (List UInt8)

/-- `table.concat(t, "", 1, n)` -/
def tconcat (t : Table) : ℕ → Lua (List UInt8)
  | 0 => .ok []
  | n + 1 => do
    let s ← tconcat t n
    match t (n + 1) with
    | some x => .ok (s ++ x)
    | none => .error (.raised s!"invalid value (at index {n + 1}) in table for 'concat'")

/-- `push_string(t, s, n)`, with the table as it is then. -/
def pushString (t : Table) (s : Option (List UInt8)) (n : ℕ) : Lua (Table × ℕ) :=
  if n < MAX_BUFFER_LENGTH then .ok (Function.update t (n + 1) s, n + 1)
  else do
    let first ← tconcat t n
    .ok (Function.update (Function.update t 1 (some first)) 2 s, 2)

/-! ## Masks -/

/-- What `apply_mask` makes of a part of at most four bytes: a shorter one has
    the upper bytes of the mask. -/
def maskPart (part : List UInt8) (mask : ℕ) : List UInt8 :=
  toBytes part.length (ofBytes part ^^^ (mask >>> ((4 - part.length) <<< 3)))

/-- `apply_mask` -/
def applyMask (str : List UInt8) (mask : ℕ) : List UInt8 :=
  match str with
  | [] => []
  | a :: b :: c :: d :: str => maskPart [a, b, c, d] mask ++ applyMask str mask
  | part => maskPart part mask

/-! ## Reading -/

/-- The stages of `get_payload`: `k` times `MAX_FRAME_SIZE` bytes. -/
def readStages : ℕ → Table → ℕ → Conn → Lua (Table × ℕ × Conn)
  | 0, t, n, conn => .ok (t, n, conn)
  | k + 1, t, n, conn => do
    let (r, conn) ← readFull conn MAX_FRAME_SIZE
    let (t, n) ← pushString t r.reply n
    readStages k t n conn

/-- `get_payload`, its first result. -/
def getPayload (conn : Conn) (length : ℕ) : Lua (Option (List UInt8) × Conn) := do
  let stage := length >>> MAX_FRAME_BINLEN
  if 0 < stage then
    let (t, n, conn) ← readStages stage (fun _ => none) 0 conn
    let length := length &&& (MAX_FRAME_SIZE - 1)
    if 0 < length then
      let (r, conn) ← readFull conn length
      let (t, n) ← pushString t r.reply n
      .ok (some (← tconcat t n), conn)
    else .ok (some (← tconcat t n), conn)
  else
    let (r, conn) ← readFull conn length
    .ok (r.reply, conn)

/-- The length that `read` makes of the seven bits in the header. -/
def readLength (conn : Conn) (length : ℕ) : Lua (ℕ × Conn) := do
  if length = 126 then
    let (r, conn) ← readFull conn 2
    let (length, _) ← unpackI (← r.unpackArg) 2 1
    .ok (length, conn)
  else if length = 127 then
    let (r, conn) ← readFull conn 8
    let (length, _) ← unpackI (← r.unpackArg) 8 1
    .ok (length, conn)
  else .ok (length, conn)

/-- The payload that `read` returns, unmasked if `mask`. -/
def readPayload (conn : Conn) (mask : Bool) (length : ℕ) : Lua (Option (List UInt8) × Conn) := do
  if mask then
    let (r, conn) ← readFull conn 4
    let (mask, _) ← unpackI (← r.unpackArg) 4 1
    let (payload, conn) ← getPayload conn length
    match payload with
    | none => .error (.raised "bad argument #1 to 'gsub' (string expected, got nil)")
    | some payload => .ok (some (applyMask payload mask), conn)
  else getPayload conn length

/-- `read`: `fin, opcode, payload` -/
def read (conn : Conn) : Lua ((Bool × ℕ × Option (List UInt8)) × Conn) := do
  let (r, conn) ← readFull conn 2
  let header ← r.unpackArg
  let (finOp, pos) ← unpackI header 1 1
  let (maskLen, _) ← unpackI header 1 pos
  let fin := decide (finOp &&& 0x80 ≠ 0)
  let opcode := finOp &&& 0x0F
  let mask := decide (maskLen &&& 0x80 ≠ 0)
  let (length, conn) ← readLength conn (maskLen &&& 0x7F)
  let (payload, conn) ← readPayload conn mask length
  .ok ((fin, opcode, payload), conn)

/-! ## Writing -/

/-- The mask, if there is one, and the payload with it. -/
def maskedBytes (payload : List UInt8) : Option UInt32 → List UInt8
  | none => payload
  | some mask => toBytes 4 mask.toNat ++ applyMask payload mask.toNat

/-- The string that `write` sends for a payload that it does not split, with the
    random number `mask` if frames are masked. -/
def writeFrame (opcode : ℕ) (payload : List UInt8) (mask : Option UInt32) (notFin : Bool) :
    Lua (List UInt8) := do
  let length := payload.length
  let head := (if notFin then 0x0000 else 0x8000) ||| (opcode <<< 8) |||
    (if mask.isSome then 0x0080 else 0x0000)
  let head ←
    if length < 126 then packI 2 2 (head ||| length)
    else if length < 1 <<< 16 then
      .ok ((← packI 2 2 (head ||| 126)) ++ (← packI 3 2 length))
    else .ok ((← packI 2 2 (head ||| 127)) ++ (← packI 3 8 length))
  .ok (head ++ maskedBytes payload mask)

/-- The frames that are never split. -/
def isControl (opcode : ℕ) : Bool := opcode = CLOSE || opcode = PING || opcode = PONG

/-- The numbers that `write` masks its frames with: `rand i` for the `i`-th. -/
def maskOf (mask : Bool) (rand : ℕ → UInt32) (i : ℕ) : Option UInt32 :=
  if mask then some (rand i) else none

/-- `write`: the strings that it gives to `conn:sendall`, one after another. -/
def write (opcode : ℕ) (payload : List UInt8) (mask : Bool) (rand : ℕ → UInt32) :
    Lua (List (List UInt8)) :=
  let length := payload.length
  if MAX_BUFFER_LENGTH < length ∧ ¬ isControl opcode then
    -- for l = 1, length, MAX_BUFFER_LENGTH
    (List.range ((length + MAX_BUFFER_LENGTH - 1) / MAX_BUFFER_LENGTH)).mapM fun i =>
      let l := i * MAX_BUFFER_LENGTH + 1
      let r := l + MAX_BUFFER_LENGTH - 1
      writeFrame (if l = 1 then opcode else 0x0) ((payload.drop (l - 1)).take MAX_BUFFER_LENGTH)
        (maskOf mask rand i) (decide (r < length))
  else do
    .ok [← writeFrame opcode payload (maskOf mask rand 0) false]

/-! ## Frames on the wire -/

/-- A frame; an opcode has four bits, and a length 64. -/
structure Frame where
  fin : Bool
  opcode : ℕ
  payload : List UInt8
  opcode_lt : opcode < 16
  length_lt : payload.length < 2 ^ 64

/-- The seven bits and the bytes that give the length `n`. -/
inductive LengthEnc (n : ℕ) : ℕ → List UInt8 → Prop where
  | short (h : n < 126) : LengthEnc n n []
  | two (h : n < 2 ^ 16) : LengthEnc n 126 (toBytes 2 n)
  | eight (h : n < 2 ^ 64) : LengthEnc n 127 (toBytes 8 n)

/-- The bit 7 of a byte, and the others. -/
def flagged (flag : Bool) (bits : ℕ) : ℕ := (if flag then 0x80 else 0) + bits

/-- `bs` are the bytes of a frame. -/
def Frame.Encodes (f : Frame) (bs : List UInt8) : Prop :=
  ∃ mask len ext, LengthEnc f.payload.length len ext ∧
    bs = toBytes 1 (flagged f.fin f.opcode) ++ (toBytes 1 (flagged mask.isSome len) ++
      (ext ++ maskedBytes f.payload mask))

/-! ## Masks -/

variable {conn : Conn} {bs rest part : List UInt8} {mask n : ℕ} {t : Table}

theorem maskPart_length : (maskPart part mask).length = part.length := Lib.toBytes_length _ _

theorem applyMask_four (a b c d : UInt8) (str : List UInt8) :
    applyMask (a :: b :: c :: d :: str) mask = maskPart [a, b, c, d] mask ++ applyMask str mask := rfl

/-- The upper bytes of a mask are in the range of a part. -/
theorem maskBits_lt (hpart : part.length ≤ 4) (hmask : mask < 2 ^ 32) :
    mask >>> ((4 - part.length) <<< 3) < 256 ^ part.length := by
  rw [Nat.shiftRight_eq_div_pow, Nat.shiftLeft_eq, Nat.div_lt_iff_lt_mul (Nat.two_pow_pos _)]
  refine hmask.trans_le ?_
  rw [show (256 : ℕ) = 2 ^ 8 from rfl, ← pow_mul, ← pow_add]
  exact Nat.pow_le_pow_right (by decide) (by omega)

theorem maskedPart_lt (hpart : part.length ≤ 4) (hmask : mask < 2 ^ 32) :
    ofBytes part ^^^ (mask >>> ((4 - part.length) <<< 3)) < 256 ^ part.length :=
  Lib.xor_lt (Lib.ofBytes_lt part) (maskBits_lt hpart hmask)

theorem maskPart_maskPart (hpart : part.length ≤ 4) (hmask : mask < 2 ^ 32) :
    maskPart (maskPart part mask) mask = part := by
  have hof : ofBytes (maskPart part mask) = _ := Lib.ofBytes_toBytes (maskedPart_lt hpart hmask)
  rw [maskPart, maskPart_length, hof, Nat.xor_assoc, Nat.xor_self, Nat.xor_zero, Lib.toBytes_ofBytes]

theorem applyMask_short (h : bs.length < 4) : applyMask bs mask = maskPart bs mask := by
  match bs, h with
  | [], _ => rfl
  | [_], _ => rfl
  | [_, _], _ => rfl
  | [_, _, _], _ => rfl

theorem applyMask_append (h : part.length = 4) (str : List UInt8) :
    applyMask (part ++ str) mask = maskPart part mask ++ applyMask str mask := by
  match part, h with
  | [a, b, c, d], _ => rfl

theorem applyMask_applyMask_short (hmask : mask < 2 ^ 32) (h : bs.length < 4) :
    applyMask (applyMask bs mask) mask = bs := by
  rw [applyMask_short h, applyMask_short (by rw [maskPart_length]; exact h),
    maskPart_maskPart h.le hmask]

/-- **A mask is taken off by applying it again.** -/
theorem applyMask_applyMask (hmask : mask < 2 ^ 32) (str : List UInt8) :
    applyMask (applyMask str mask) mask = str := by
  match str with
  | a :: b :: c :: d :: str =>
    rw [applyMask_four, applyMask_append (by rw [maskPart_length]; rfl),
      maskPart_maskPart (by simp) hmask, applyMask_applyMask hmask str]
    rfl
  | [] => rfl
  | [a] | [a, b] | [a, b, c] => exact applyMask_applyMask_short hmask (by simp)

theorem applyMask_length (str : List UInt8) : (applyMask str mask).length = str.length := by
  match str with
  | a :: b :: c :: d :: str =>
    simp only [applyMask_four, List.length_append, maskPart_length, applyMask_length str,
      List.length_cons, List.length_nil]
    omega
  | [] => rfl
  | [a] | [a, b] | [a, b, c] => rw [applyMask_short (by simp), maskPart_length]

/-! ## Buffers -/

theorem tconcat_congr {t t' : Table} (h : ∀ i, i < n → t (i + 1) = t' (i + 1)) :
    tconcat t n = tconcat t' n := by
  induction n with
  | zero => rfl
  | succ n ih => rw [tconcat, tconcat, ih fun i hi => h i (by omega), h n (Nat.lt_succ_self n)]

/-- **`push_string` appends**, also when it first makes one string of all. -/
theorem pushString_ok (h : tconcat t n = .ok bs) (s : List UInt8) :
    ∃ t' n', pushString t (some s) n = .ok (t', n') ∧ tconcat t' n' = .ok (bs ++ s) := by
  rw [pushString]
  split
  · refine ⟨_, _, rfl, ?_⟩
    have hcongr : tconcat (Function.update t (n + 1) (some s)) n = tconcat t n :=
      tconcat_congr fun i hi => Function.update_of_ne (by omega) _ _
    rw [tconcat, hcongr, h, Function.update_self]
    rfl
  · rw [h]
    exact ⟨_, _, rfl, rfl⟩

/-! ## Reading a frame -/

theorem readStages_holds {k : ℕ} (hlen : part.length = k * MAX_FRAME_SIZE)
    (h : conn.Holds (part ++ rest)) (ht : tconcat t n = .ok bs) :
    ∃ t' n' conn', readStages k t n conn = .ok (t', n', conn') ∧
      tconcat t' n' = .ok (bs ++ part) ∧ conn'.Holds rest ∧ conn'.ending = conn.ending := by
  induction k generalizing part t n bs conn with
  | zero =>
    obtain rfl : part = [] := List.length_eq_zero_iff.1 (by omega)
    exact ⟨t, n, conn, rfl, by rw [ht, List.append_nil], h, rfl⟩
  | succ k ih =>
    have hsize : (part.take MAX_FRAME_SIZE).length = MAX_FRAME_SIZE := by
      rw [List.length_take, hlen, Nat.succ_mul]
      omega
    rw [← List.take_append_drop MAX_FRAME_SIZE part, List.append_assoc] at h
    obtain ⟨conn₁, hread, h₁, hend₁⟩ := readFull_holds h
    obtain ⟨t₁, n₁, hpush, ht₁⟩ := pushString_ok ht (part.take MAX_FRAME_SIZE)
    have hlen₁ : (part.drop MAX_FRAME_SIZE).length = k * MAX_FRAME_SIZE := by
      rw [List.length_drop, hlen, Nat.succ_mul]
      omega
    obtain ⟨t', n', conn', hstages, ht', h', hend'⟩ := ih hlen₁ h₁ ht₁
    refine ⟨t', n', conn', ?_, ?_, h', hend'.trans hend₁⟩
    · rw [hsize] at hread
      rw [readStages, hread]
      simp only [bind, Except.bind, ReadFull.reply]
      rw [hpush]
      exact hstages
    · rw [ht', List.append_assoc, List.take_append_drop]

theorem stages_eq (length : ℕ) : length >>> MAX_FRAME_BINLEN = length / MAX_FRAME_SIZE :=
  Nat.shiftRight_eq_div_pow _ _

theorem rest_eq (length : ℕ) : length &&& (MAX_FRAME_SIZE - 1) = length % MAX_FRAME_SIZE :=
  Nat.and_two_pow_sub_one_eq_mod _ MAX_FRAME_BINLEN

/-- **`get_payload` reads the payload**, in stages if it is long. -/
theorem getPayload_holds (payload : List UInt8) (h : conn.Holds (payload ++ rest)) :
    ∃ conn', getPayload conn payload.length = .ok (some payload, conn') ∧ conn'.Holds rest ∧
      conn'.ending = conn.ending := by
  rw [getPayload]
  simp only [stages_eq, rest_eq]
  split
  · -- the stages read `part`, and what is left is shorter than a stage
    rename_i hpos
    have hdiv := Nat.div_add_mod' payload.length MAX_FRAME_SIZE
    generalize payload.length / MAX_FRAME_SIZE = k at *
    have hlen : (payload.take (k * MAX_FRAME_SIZE)).length = k * MAX_FRAME_SIZE := by
      rw [List.length_take]
      omega
    have hlen' : (payload.drop (k * MAX_FRAME_SIZE)).length = payload.length % MAX_FRAME_SIZE := by
      rw [List.length_drop]
      omega
    rw [← List.take_append_drop (k * MAX_FRAME_SIZE) payload, List.append_assoc] at h
    have ht : tconcat (fun _ => none) 0 = .ok [] := rfl
    obtain ⟨t, n, conn₁, hstages, ht₁, h₁, hend₁⟩ := readStages_holds hlen h ht
    rw [hstages]
    simp only [bind, Except.bind]
    split
    · obtain ⟨conn', hread, h', hend'⟩ := readFull_holds h₁
      obtain ⟨t', n', hpush, ht'⟩ := pushString_ok ht₁ (payload.drop (k * MAX_FRAME_SIZE))
      refine ⟨conn', ?_, h', hend'.trans hend₁⟩
      rw [← hlen', hread]
      simp only [ReadFull.reply]
      rw [hpush]
      simp only
      rw [ht', List.nil_append, List.take_append_drop]
    · have hnil : payload.drop (k * MAX_FRAME_SIZE) = [] := List.length_eq_zero_iff.1 (by omega)
      rw [hnil, List.nil_append] at h₁
      refine ⟨conn₁, ?_, h₁, hend₁⟩
      rw [ht₁, List.nil_append, ← List.append_nil (payload.take _), ← hnil, List.take_append_drop]
  · obtain ⟨conn', hread, h', hend'⟩ := readFull_holds h
    exact ⟨conn', by rw [hread]; rfl, h', hend'⟩

/-- A number of `k` bytes is read. -/
theorem unpackI_full {k v : ℕ} (hk : 0 < k) (hv : v < 256 ^ k) (bs : List UInt8) :
    unpackI (toBytes k v ++ bs) k 1 = .ok (v, (k : ℤ) + 1) := by
  have h := Lib.unpackI_toBytes hv hk (Lib.At.mid [] (toBytes k v) bs)
  simpa using h

theorem readNumber_holds {k v : ℕ} (hk : 0 < k) (hv : v < 256 ^ k)
    (h : conn.Holds (toBytes k v ++ rest)) :
    ∃ conn', readFull conn k = .ok (.full (toBytes k v), conn') ∧
      unpackI (toBytes k v) k 1 = .ok (v, (k : ℤ) + 1) ∧ conn'.Holds rest ∧
      conn'.ending = conn.ending := by
  obtain ⟨conn', hread, h', hend'⟩ := readFull_holds h
  have hunpack := unpackI_full hk hv []
  rw [List.append_nil] at hunpack
  rw [Lib.toBytes_length] at hread
  exact ⟨conn', hread, hunpack, h', hend'⟩

theorem readLength_holds {len : ℕ} {ext : List UInt8} (hlen : LengthEnc n len ext)
    (h : conn.Holds (ext ++ rest)) :
    ∃ conn', readLength conn len = .ok (n, conn') ∧ conn'.Holds rest ∧
      conn'.ending = conn.ending := by
  cases hlen with
  | short hn =>
    refine ⟨conn, ?_, h, rfl⟩
    rw [readLength, if_neg (by omega), if_neg (by omega)]
  | two hn =>
    obtain ⟨conn', hread, hunpack, h', hend'⟩ := readNumber_holds Nat.two_pos hn h
    refine ⟨conn', ?_, h', hend'⟩
    rw [readLength, if_pos rfl, hread]
    simp only [bind, Except.bind, ReadFull.unpackArg]
    rw [hunpack]
  | eight hn =>
    obtain ⟨conn', hread, hunpack, h', hend'⟩ := readNumber_holds (k := 8) (by decide) hn h
    refine ⟨conn', ?_, h', hend'⟩
    rw [readLength, if_neg (by decide), if_pos rfl, hread]
    simp only [bind, Except.bind, ReadFull.unpackArg]
    rw [hunpack]

theorem readPayload_holds {payload : List UInt8} {mask : Option UInt32}
    (h : conn.Holds (maskedBytes payload mask ++ rest)) :
    ∃ conn', readPayload conn mask.isSome payload.length = .ok (some payload, conn') ∧
      conn'.Holds rest ∧ conn'.ending = conn.ending := by
  cases mask with
  | none => exact getPayload_holds payload h
  | some mask =>
    rw [maskedBytes, List.append_assoc] at h
    obtain ⟨conn₁, hread, hunpack, h₁, hend₁⟩ :=
      readNumber_holds (k := 4) (by decide) mask.toNat_lt h
    obtain ⟨conn', hget, h', hend'⟩ := getPayload_holds _ h₁
    refine ⟨conn', ?_, h', hend'.trans hend₁⟩
    rw [applyMask_length] at hget
    rw [readPayload, if_pos Option.isSome_some, hread]
    simp only [bind, Except.bind, ReadFull.unpackArg]
    rw [hunpack]
    simp only
    rw [hget]
    simp only
    rw [applyMask_applyMask mask.toNat_lt]

/-- The flag and the bits of the first byte, and of the second one. -/
theorem flagged_opcode (flag : Bool) {k : ℕ} (h : k < 16) :
    flagged flag k < 256 ∧ decide (flagged flag k &&& 0x80 ≠ 0) = flag ∧ flagged flag k &&& 0x0F = k := by
  revert flag
  revert k
  decide

theorem flagged_length (flag : Bool) {k : ℕ} (h : k < 128) :
    flagged flag k < 256 ∧ decide (flagged flag k &&& 0x80 ≠ 0) = flag ∧ flagged flag k &&& 0x7F = k := by
  revert flag
  revert k
  decide

theorem LengthEnc.lt {len : ℕ} {ext : List UInt8} (h : LengthEnc n len ext) : len < 128 := by
  cases h <;> omega

/-- The two bytes that `read` begins with. -/
theorem read_header {f : Frame} {mask : Option UInt32} {len : ℕ} (hlen : len < 128)
    (h : conn.Holds (toBytes 1 (flagged f.fin f.opcode) ++ (toBytes 1 (flagged mask.isSome len) ++ bs))) :
    ∃ conn', read conn = (do
        let (length, conn) ← readLength conn' len
        let (payload, conn) ← readPayload conn mask.isSome length
        .ok ((f.fin, f.opcode, payload), conn)) ∧ conn'.Holds bs ∧ conn'.ending = conn.ending := by
  obtain ⟨hlt, hfin, hopcode⟩ := flagged_opcode f.fin f.opcode_lt
  obtain ⟨hlt', hmask, hlength⟩ := flagged_length mask.isSome hlen
  rw [← List.append_assoc] at h
  obtain ⟨conn₁, hread, h₁, hend₁⟩ := readFull_holds h
  have hunpack := unpackI_full Nat.one_pos hlt (toBytes 1 (flagged mask.isSome len))
  have hunpack' := Lib.unpackI_toBytes hlt' Nat.one_pos
    (Lib.At.mid (toBytes 1 (flagged f.fin f.opcode)) (toBytes 1 (flagged mask.isSome len)) [])
  rw [List.length_append, Lib.toBytes_length, Lib.toBytes_length] at hread
  rw [List.append_nil, Lib.toBytes_length] at hunpack'
  refine ⟨conn₁, ?_, h₁, hend₁⟩
  rw [read, hread]
  simp only [bind, Except.bind, ReadFull.unpackArg]
  rw [hunpack]
  simp only
  rw [hunpack']
  simp only
  rw [hmask, hlength, hfin, hopcode]

/-- **`read` reads a frame**, however it is encoded and cut. -/
theorem read_holds {f : Frame} (hf : f.Encodes bs) (h : conn.Holds (bs ++ rest)) :
    ∃ conn', read conn = .ok ((f.fin, f.opcode, some f.payload), conn') ∧ conn'.Holds rest ∧
      conn'.ending = conn.ending := by
  obtain ⟨mask, len, ext, hlen, rfl⟩ := hf
  simp only [List.append_assoc] at h
  obtain ⟨conn₁, hread, h₁, hend₁⟩ := read_header hlen.lt h
  obtain ⟨conn₂, hlength, h₂, hend₂⟩ := readLength_holds hlen h₁
  obtain ⟨conn₃, hpayload, h₃, hend₃⟩ := readPayload_holds h₂
  refine ⟨conn₃, ?_, h₃, hend₃.trans (hend₂.trans hend₁)⟩
  rw [hread, hlength]
  simp only [bind, Except.bind]
  rw [hpayload]

/-! ## Writing a frame -/

theorem head_opcode (fin : Bool) {opcode : ℕ} (h : opcode < 16) :
    (if fin then 0x8000 else 0x0000) ||| (opcode <<< 8) = flagged fin opcode <<< 8 := by
  revert fin
  revert opcode
  decide

theorem head_length (mask : Bool) {len : ℕ} (h : len < 128) :
    (if mask then 0x0080 else 0x0000) ||| len = flagged mask len := by
  revert mask
  revert len
  decide

/-- The two bytes of the header. -/
theorem packI_head {opcode len : ℕ} (fin mask : Bool) (hop : opcode < 16) (hlen : len < 128) :
    packI 2 2 ((if fin then 0x8000 else 0x0000) ||| (opcode <<< 8) |||
        (if mask then 0x0080 else 0x0000) ||| len) =
      .ok (toBytes 1 (flagged fin opcode) ++ toBytes 1 (flagged mask len)) := by
  have hx := (flagged_opcode fin hop).1
  have hy := (flagged_length mask hlen).1
  rw [Nat.or_assoc, head_opcode fin hop, head_length mask hlen,
    ← Nat.shiftLeft_add_eq_or_of_lt (i := 8) hy, Nat.shiftLeft_eq]
  generalize flagged fin opcode = x at *
  generalize flagged mask len = y at *
  rw [packI, if_pos (by omega)]
  have hdiv : (x * 2 ^ 8 + y) / 256 = x := by omega
  have hlow : UInt8.ofNat (x * 2 ^ 8 + y) = UInt8.ofNat y := by
    apply UInt8.toNat_inj.1
    rw [UInt8.toNat_ofNat', UInt8.toNat_ofNat']
    omega
  rw [toBytes, hdiv, hlow]
  rfl

/-- **`write` encodes a frame** that it does not split. -/
theorem writeFrame_encodes (f : Frame) (mask : Option UInt32) :
    ∃ bs, writeFrame f.opcode f.payload mask (!f.fin) = .ok bs ∧ f.Encodes bs := by
  have hfin : (if (!f.fin) = true then 0x0000 else 0x8000) = if f.fin then 0x8000 else 0x0000 := by
    cases f.fin <;> rfl
  -- the header, for each form of the length
  have henc : ∀ len ext, LengthEnc f.payload.length len ext → f.Encodes
      (toBytes 1 (flagged f.fin f.opcode) ++ toBytes 1 (flagged mask.isSome len) ++ ext ++
        maskedBytes f.payload mask) := by
    intro len ext h
    exact ⟨mask, len, ext, h, by simp only [List.append_assoc]⟩
  rw [writeFrame]
  simp only [hfin]
  by_cases h₁ : f.payload.length < 126
  · refine ⟨_, ?_, henc _ _ (.short h₁)⟩
    rw [if_pos h₁, packI_head _ _ f.opcode_lt (by omega)]
    simp only [bind, Except.bind, List.append_nil]
  · rw [if_neg h₁]
    by_cases h₂ : f.payload.length < 1 <<< 16
    · refine ⟨_, ?_, henc _ _ (.two h₂)⟩
      rw [if_pos h₂, packI_head _ _ f.opcode_lt (by decide)]
      simp only [bind, Except.bind]
      rw [packI, if_pos (show f.payload.length < 256 ^ 2 from h₂)]
    · refine ⟨_, ?_, henc _ _ (.eight f.length_lt)⟩
      rw [if_neg h₂, packI_head _ _ f.opcode_lt (by decide)]
      simp only [bind, Except.bind]
      rw [packI, if_pos (show f.payload.length < 256 ^ 8 from f.length_lt)]

/-! ## Writing a message -/

/-- A message that is sent: a string of Lua has a length of 63 bits. -/
structure Message where
  opcode : ℕ
  payload : List UInt8
  opcode_lt : opcode < 16
  length_lt : payload.length < 2 ^ 63

/-- The payload of the `i`-th frame of a split message. -/
def piece (payload : List UInt8) (i : ℕ) : List UInt8 :=
  (payload.drop (i * MAX_BUFFER_LENGTH)).take MAX_BUFFER_LENGTH

theorem piece_length_lt (payload : List UInt8) (i : ℕ) : (piece payload i).length < 2 ^ 64 :=
  (List.length_take_le _ _).trans_lt (by decide)

/-- The number of frames of a split message. -/
def pieces (length : ℕ) : ℕ := (length + MAX_BUFFER_LENGTH - 1) / MAX_BUFFER_LENGTH

theorem lt_pieces_iff {i length : ℕ} : i < pieces length ↔ i * MAX_BUFFER_LENGTH < length := by
  change i < (length + 256 - 1) / 256 ↔ i * 256 < length
  omega

/-- The `i`-th frame of a split message. -/
def Message.frame (m : Message) (i : ℕ) : Frame where
  fin := decide (m.payload.length ≤ (i + 1) * MAX_BUFFER_LENGTH)
  opcode := if i = 0 then m.opcode else CONTINUATION
  payload := piece m.payload i
  opcode_lt := by
    split
    · exact m.opcode_lt
    · decide
  length_lt := piece_length_lt m.payload i

/-- The one frame of a message that is not split. -/
def Message.whole (m : Message) : Frame :=
  ⟨true, m.opcode, m.payload, m.opcode_lt, m.length_lt.trans (by decide)⟩

/-- The frames of a message. -/
def Message.frames (m : Message) : List Frame :=
  if MAX_BUFFER_LENGTH < m.payload.length ∧ ¬ isControl m.opcode then
    (List.range (pieces m.payload.length)).map m.frame
  else [m.whole]

/-- The strings `bss` are the frames `fs`, one by one. -/
abbrev Encoded (fs : List Frame) (bss : List (List UInt8)) : Prop := List.Forall₂ Frame.Encodes fs bss

theorem mapM_encodes {α : Type} {l : List α} {w : α → Lua (List UInt8)} {g : α → Frame}
    (h : ∀ x ∈ l, ∃ bs, w x = .ok bs ∧ (g x).Encodes bs) :
    ∃ bss, l.mapM w = .ok bss ∧ Encoded (l.map g) bss := by
  induction l with
  | nil => exact ⟨[], rfl, .nil⟩
  | cons x l ih =>
    obtain ⟨bs, hx, henc⟩ := h x List.mem_cons_self
    obtain ⟨bss, hl, hencs⟩ := ih fun y hy => h y (List.mem_cons_of_mem _ hy)
    refine ⟨bs :: bss, ?_, .cons henc hencs⟩
    rw [List.mapM_cons, hx]
    simp only [bind, Except.bind]
    rw [hl]
    rfl

/-- **`write` sends the frames of the message**, whatever the masks. -/
theorem write_encodes (m : Message) (mask : Bool) (rand : ℕ → UInt32) :
    ∃ bss, write m.opcode m.payload mask rand = .ok bss ∧ Encoded m.frames bss := by
  rw [write, Message.frames]
  simp only
  split
  · refine mapM_encodes fun i _ => ?_
    obtain ⟨bs, hw, henc⟩ := writeFrame_encodes (m.frame i) (maskOf mask rand i)
    refine ⟨bs, ?_, henc⟩
    rw [← hw]
    have hfirst : (i * MAX_BUFFER_LENGTH + 1 = 1) = (i = 0) := by
      simp [MAX_BUFFER_LENGTH]
    have hlast : i * MAX_BUFFER_LENGTH + 1 + MAX_BUFFER_LENGTH - 1 = (i + 1) * MAX_BUFFER_LENGTH := by
      rw [Nat.succ_mul]
      omega
    simp only [Message.frame, hfirst, hlast, Nat.add_sub_cancel, piece, CONTINUATION]
    congr 1
    rw [← decide_not]
    exact decide_eq_decide.2 Nat.not_le.symm
  · obtain ⟨bs, hw, henc⟩ := writeFrame_encodes m.whole (maskOf mask rand 0)
    refine ⟨[bs], ?_, .cons henc .nil⟩
    have hw' : writeFrame m.opcode m.payload (maskOf mask rand 0) false = .ok bs := hw
    rw [hw']
    rfl

end Levent.WebSocket
