/-
  What `http/websocket.lua` does to the bytes of a payload: `push_string` puts it
  into a buffer, `apply_mask` masks it byte by byte, and the payload of a CLOSE is
  made and read by `encode_close_msg` and `decode_close_msg`.
-/
import Levent.WebSocket.Receive

namespace Levent.WebSocket

open Lib (Lua toBytes ofBytes packI unpackI)

/-! ## Buffers -/

/-- `push_string` of some strings, one after another. -/
def pushStrings (t : Table) (n : ℕ) : List (List UInt8) → Lua (Table × ℕ)
  | [] => .ok (t, n)
  | s :: ss => do
    let (t, n) ← pushString t (some s) n
    pushStrings t n ss

variable {t t' : Table} {n n' : ℕ} {bs part : List UInt8}

theorem pushString_le {s : Option (List UInt8)} (h : pushString t s n = .ok (t', n')) :
    n' ≤ MAX_BUFFER_LENGTH := by
  rw [pushString] at h
  split at h
  · rename_i hlt
    cases h
    exact hlt
  · obtain ⟨first, -, h⟩ := Lib.bind_eq_ok.1 h
    cases h
    decide

/-- A buffer that holds `bs` holds what is pushed after it, and stays within its
    bound, whatever else is in the table. -/
theorem pushStrings_ok (h : tconcat t n = .ok bs) (hn : n ≤ MAX_BUFFER_LENGTH)
    (ss : List (List UInt8)) :
    ∃ t' n', pushStrings t n ss = .ok (t', n') ∧ tconcat t' n' = .ok (bs ++ ss.flatten) ∧
      n' ≤ MAX_BUFFER_LENGTH := by
  induction ss generalizing t n bs with
  | nil => exact ⟨t, n, rfl, by rw [h, List.flatten_nil, List.append_nil], hn⟩
  | cons s ss ih =>
    obtain ⟨t₁, n₁, hpush, h₁⟩ := pushString_ok h s
    obtain ⟨t', n', hss, h', hn'⟩ := ih h₁ (pushString_le hpush)
    refine ⟨t', n', ?_, ?_, hn'⟩
    · rw [pushStrings, hpush]
      exact hss
    · rw [h', List.flatten_cons, List.append_assoc]

/-- **`push_string` keeps the text**: from any table, what the first `k` strings
    leave in the buffer is their concatenation. -/
theorem pushStrings_keeps (t : Table) (ss : List (List UInt8)) (k : ℕ) :
    ∃ t' n', pushStrings t 0 (ss.take k) = .ok (t', n') ∧
      tconcat t' n' = .ok (ss.take k).flatten ∧ n' ≤ MAX_BUFFER_LENGTH :=
  pushStrings_ok rfl (Nat.zero_le _) (ss.take k)

/-! ## Masks -/

/-- What the function in `apply_mask` makes of a part, with the checks of
    `string.unpack` and `string.pack`. -/
def packPart (part : List UInt8) (mask : ℕ) : Lua (List UInt8) := do
  let n := part.length
  let m := mask >>> ((4 - n) <<< 3)
  let (k, _) ← unpackI part n 1
  packI 2 n (k ^^^ m)

/-- `apply_mask`, with these checks; the pattern takes four bytes as long as there
    are four. -/
def packMask (str : List UInt8) (mask : ℕ) : Lua (List UInt8) :=
  match str with
  | [] => .ok []
  | a :: b :: c :: d :: str => do
    let part ← packPart [a, b, c, d] mask
    .ok (part ++ (← packMask str mask))
  | part => packPart part mask

/-- The byte of a mask for the byte `i` of a string. -/
def maskByte (mask i : ℕ) : UInt8 := (toBytes 4 mask).getD (i % 4) 0

section
variable {mask : ℕ}

theorem maskByte_eq {i : ℕ} (hi : i < 4) :
    maskByte mask i = UInt8.ofNat (mask >>> (8 * (3 - i))) := by
  rw [maskByte, Nat.mod_eq_of_lt hi, List.getD_eq_getElem?_getD, Lib.toBytes_get hi]
  rfl

theorem maskByte_add (i : ℕ) : maskByte mask (i + 4) = maskByte mask i := by
  rw [maskByte, maskByte, Nat.add_mod_right]

/-- A part is masked byte by byte. -/
theorem maskPart_get (hpart : part.length ≤ 4) (i : ℕ) :
    (maskPart part mask)[i]? = part[i]?.map (· ^^^ maskByte mask i) := by
  rcases Nat.lt_or_ge i part.length with hi | hi
  · have hbyte : some part[i] = some (UInt8.ofNat (ofBytes part >>> (8 * (part.length - 1 - i)))) := by
      rw [← Lib.toBytes_get hi, Lib.toBytes_ofBytes, List.getElem?_eq_getElem hi]
    have hshift : mask >>> ((4 - part.length) <<< 3) >>> (8 * (part.length - 1 - i)) =
        mask >>> (8 * (3 - i)) := by
      rw [← Nat.shiftRight_add, Nat.shiftLeft_eq]
      congr 1
      omega
    rw [maskPart, Lib.toBytes_get hi, List.getElem?_eq_getElem hi, Option.map_some,
      maskByte_eq (by omega), Option.some.inj hbyte, Nat.shiftRight_xor_distrib, hshift,
      UInt8.ofNat_xor]
  · rw [List.getElem?_eq_none (by rwa [maskPart_length]), List.getElem?_eq_none hi]
    rfl

/-- **`apply_mask` masks byte by byte.** -/
theorem applyMask_get (str : List UInt8) (i : ℕ) :
    (applyMask str mask)[i]? = str[i]?.map (· ^^^ maskByte mask i) := by
  match str with
  | a :: b :: c :: d :: str =>
    rw [applyMask_four]
    have hlen : (maskPart [a, b, c, d] mask).length = 4 := maskPart_length
    rcases Nat.lt_or_ge i 4 with hi | hi
    · rw [List.getElem?_append_left (by omega), maskPart_get (by simp)]
      match i, hi with
      | 0, _ | 1, _ | 2, _ | 3, _ => rfl
    · obtain ⟨i, rfl⟩ := Nat.exists_eq_add_of_le' hi
      rw [List.getElem?_append_right (by omega), hlen, Nat.add_sub_cancel, applyMask_get str i,
        maskByte_add]
      rfl
  | [] => rfl
  | [a] | [a, b] | [a, b, c] =>
    rw [applyMask_short (by simp), maskPart_get (by simp)]

/-- `string.pack` has no range error. -/
theorem packPart_ok (hpos : 0 < part.length) (hpart : part.length ≤ 4) (hmask : mask < 2 ^ 32) :
    packPart part mask = .ok (maskPart part mask) := by
  have hat : Lib.At part 0 part := Lib.At.self part
  have hunpack := Lib.unpackI_at (Lib.posrelat_succ 0 part.length) hat rfl hpos
  rw [packPart, show (1 : ℤ) = ((0 : ℕ) : ℤ) + 1 from rfl, hunpack]
  exact if_pos (maskedPart_lt hpart hmask)

theorem packMask_ok (hmask : mask < 2 ^ 32) (str : List UInt8) :
    packMask str mask = .ok (applyMask str mask) := by
  match str with
  | a :: b :: c :: d :: str =>
    rw [packMask, packPart_ok (by simp) (by simp) hmask, packMask_ok hmask str]
    rfl
  | [] => rfl
  | [a] | [a, b] | [a, b, c] =>
    rw [applyMask_short (by simp)]
    exact packPart_ok (by simp) (by simp) hmask

end

/-- **`apply_mask` is the masking of bytes**, raises nothing, and undoes itself. -/
theorem packMask_bytes (str : List UInt8) (mask : UInt32) :
    ∃ bs, packMask str mask.toNat = .ok bs ∧ bs.length = str.length ∧
      (∀ i, bs[i]? = str[i]?.map (· ^^^ maskByte mask.toNat i)) ∧
      packMask bs mask.toNat = .ok str := by
  have hmask : mask.toNat < 2 ^ 32 := mask.toNat_lt
  refine ⟨applyMask str mask.toNat, packMask_ok hmask str, applyMask_length str,
    applyMask_get str, ?_⟩
  rw [packMask_ok hmask, applyMask_applyMask hmask]

/-! ## The payload of a CLOSE -/

/-- The arguments of `on_close` convey the code and the reason of a CLOSE; no
    reason, or an empty one, is to be nil or empty. -/
def Conveys (code : ℕ) (reason : Option (List UInt8)) (args : List CloseArg) : Prop :=
  args[0]? = some (.int code) ∧
    if reason.getD [] = [] then args[1]? = none ∨ args[1]? = some (.str [])
    else args[1]? = some (.str (reason.getD []))

instance (code : ℕ) (reason : Option (List UInt8)) (args : List CloseArg) :
    Decidable (Conveys code reason args) := by
  unfold Conveys
  infer_instance

/-- What `decode_close_msg` makes of the payload: `string.unpack` gives the position
    after all that it reads, too. -/
theorem decode_encode {code : ℕ} (hcode : code < 2 ^ 16) (reason : Option (List UInt8)) :
    ∃ payload, encodeCloseMsg code reason = .ok payload ∧
      decodeCloseMsg (some payload) = .ok (if reason.getD [] = [] then [.int code, .int 3]
        else [.int code, .str (reason.getD []), .int ((reason.getD []).length + 3)]) := by
  have hpack : packI 2 2 code = .ok (toBytes 2 code) := if_pos hcode
  refine ⟨toBytes 2 code ++ reason.getD [], by rw [encodeCloseMsg, hpack]; rfl, ?_⟩
  have hlen : (toBytes 2 code ++ reason.getD []).length = (reason.getD []).length + 2 := by
    rw [List.length_append, Lib.toBytes_length, Nat.add_comm]
  have hunpack := unpackI_full Nat.two_pos hcode (reason.getD [])
  rw [decodeCloseMsg, hlen]
  simp only [Nat.add_eq_zero_iff, OfNat.ofNat_ne_zero, and_false, if_false]
  split
  · -- the reason is what is after the code
    rename_i hlt
    have hne : reason.getD [] ≠ [] := by
      rintro h
      rw [h] at hlt
      exact absurd hlt (by decide)
    have hdrop : (toBytes 2 code ++ reason.getD []).drop 2 = reason.getD [] :=
      List.drop_left' (Lib.toBytes_length 2 code)
    rw [hunpack, if_neg hne, hdrop]
    simp only [bind, Except.bind]
    push_cast
    rfl
  · rename_i hge
    have hnil : reason.getD [] = [] := List.length_eq_zero_iff.1 (by omega)
    rw [hnil] at hunpack ⊢
    rw [List.length_nil, hunpack, if_pos rfl]
    rfl

/-- `run` on a CLOSE calls `on_close`, answers and closes the connection. -/
theorem dispatch_close {r : Reader} (hop : r.opened = true) {payload : List UInt8}
    {args : List CloseArg} (h : decodeCloseMsg (some payload) = .ok args) (fin : Bool) :
    ∃ r', r.dispatch fin CLOSE (some payload) = .ok (r', false) ∧
      r'.log = r.log ++ [.onClose args, .sent CLOSE (toBytes 2 CLOSE_GOING_AWAY), .closed] := by
  have hmsg : encodeCloseMsg CLOSE_GOING_AWAY none = .ok (toBytes 2 CLOSE_GOING_AWAY) := rfl
  rw [Reader.dispatch, if_pos rfl, h]
  simp only [bind, Except.bind]
  rw [Reader.close, Option.getD_some, hmsg]
  simp only [bind, Except.bind]
  rw [Reader.send, if_pos (show (r.emit _).opened = true from hop)]
  exact ⟨_, rfl, by simp [Reader.emit]⟩

/-- What `decode_close_msg` gives conveys the code and the reason if there is one;
    if there is none, `on_close` gets the position 3 instead. -/
theorem conveys_iff (code : ℕ) (reason : Option (List UInt8)) :
    Conveys code reason (if reason.getD [] = [] then [.int code, .int 3]
      else [.int code, .str (reason.getD []), .int ((reason.getD []).length + 3)]) ↔
    reason.getD [] ≠ [] := by
  rw [Conveys]
  split <;> simp_all

/-- **The payload of a CLOSE** conveys the code and the reason if and only if there
    is a reason that is not empty. -/
theorem close_conveys_iff (code : UInt16) (reason : Option (List UInt8)) :
    ∃ payload args, encodeCloseMsg code.toNat reason = .ok payload ∧
      decodeCloseMsg (some payload) = .ok args ∧
      (∀ (r : Reader) fin, r.opened = true → ∃ r',
        r.dispatch fin CLOSE (some payload) = .ok (r', false) ∧
        r'.log = r.log ++ [.onClose args, .sent CLOSE (toBytes 2 CLOSE_GOING_AWAY), .closed]) ∧
      (Conveys code.toNat reason args ↔ ∃ s, reason = some s ∧ s ≠ []) := by
  obtain ⟨payload, hencode, hdecode⟩ := decode_encode code.toNat_lt reason
  refine ⟨payload, _, hencode, hdecode, fun r fin hop => dispatch_close hop hdecode fin, ?_⟩
  rw [conveys_iff]
  cases reason <;> simp

/-- A CLOSE without a reason: `on_close` gets the reason 3. -/
theorem close_without_reason :
    encodeCloseMsg 1000 none = .ok [3, 232] ∧
      decodeCloseMsg (some [3, 232]) = .ok [.int 1000, .int 3] ∧
      ¬ Conveys 1000 none [.int 1000, .int 3] := by decide

end Levent.WebSocket
