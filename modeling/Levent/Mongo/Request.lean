/-
  Messages to and from mongod: `op_query`, `op_get_more` and `reply_length` of
  `lua-mongo.c`, and how the server takes the messages from the bytes it receives.

  A message begins with its length, its number and the number of the request that it
  answers.
-/
import Levent.Mongo.Reply
import Levent.Bson.Encode

namespace Levent.Mongo

open Lib (leBytes ofLe ofLe_leBytes signed unsigned unsigned_lt signed_unsigned)
open Bson (Bytes Stop)

def OP_QUERY : ℕ := 2004
def OP_GET_MORE : ℕ := 2005

/-- `write_int32` and `write_length` -/
def int32 (v : ℤ) : Bytes := leBytes 4 (unsigned 4 v)

/-- A message that is not an answer. -/
def message (id : ℤ) (opcode : ℕ) (body : Bytes) : Bytes :=
  int32 (16 + body.length) ++ (int32 id ++ (int32 0 ++ (int32 opcode ++ body)))

/-- `op_query`; a document is the bytes that it declares. -/
def opQuery (id flags : ℤ) (name : Bytes) (skip number : ℤ) (query : Bytes)
    (selector : Option Bytes) : Bytes :=
  message id OP_QUERY (int32 flags ++ name ++ [0] ++ int32 skip ++ int32 number ++
    query ++ selector.getD [])

/-- `op_get_more` -/
def opGetMore (id : ℤ) (name : Bytes) (number : ℤ) (cursor : Bytes) : Except Stop Bytes :=
  if cursor.length ≠ 8 then .error (.error "Invalid cursor id")
  else .ok (message id OP_GET_MORE (int32 0 ++ name ++ [0] ++ int32 number ++ cursor))

/-- `reply_length`: there is a zero after a string, and nothing that is known after it. -/
def replyLength (s : Bytes) : Except Stop ℤ :=
  let length := int32At (s ++ [0]) 0 - 4
  if 3 ≤ s.length ∧ -2 ^ 31 ≤ length then .ok length else .error .undefined

/-- The first message in the bytes that the server has received, if it is there whole, and
    the bytes after it. -/
def nextMessage (wire : Bytes) : Option (Bytes × Bytes) :=
  let n := int32At wire 0
  if 16 ≤ n ∧ n ≤ wire.length then some (wire.take n.toNat, wire.drop n.toNat) else none

/-- A reply that answers the request `m`. -/
def IsReply (m reply : Bytes) : Prop :=
  HEADER + 4 ≤ reply.length ∧ reply.length < 2 ^ 31 ∧ int32At reply 0 = reply.length ∧
    int32At reply 8 = int32At m 4

instance (m reply : Bytes) : Decidable (IsReply m reply) := by
  unfold IsReply
  infer_instance

/-! ## The numbers in a message -/

variable {id v : ℤ} {opcode : ℕ} {bs cs body m reply : Bytes}

@[simp] theorem int32_length (v : ℤ) : (int32 v).length = 4 := Lib.leBytes_length _ _

/-- A number is read where it is written. -/
theorem int32At_append (hlo : -2 ^ 31 ≤ v) (hhi : v < 2 ^ 31) {p : ℕ}
    (hp : bs.length = p) (cs : Bytes) :
    int32At (bs ++ (int32 v ++ cs)) p = v := by
  have htake : ((bs ++ (int32 v ++ cs)).drop p).take 4 = int32 v := by
    rw [List.drop_left' hp, List.take_left' (int32_length v)]
  rw [int32At, Int.toNat_natCast, htake, int32, ofLe_leBytes (unsigned_lt 4 v)]
  exact signed_unsigned (by omega) (by omega)

theorem int32At_drop (data : Bytes) (i p : ℕ) :
    int32At (data.drop i) p = int32At data (i + p : ℕ) := by
  rw [int32At, int32At, Int.toNat_natCast, Int.toNat_natCast, List.drop_drop]

theorem int32At_take (data : Bytes) {n p : ℕ} (h : p + 4 ≤ n) :
    int32At (data.take n) p = int32At data p := by
  rw [int32At, int32At, Int.toNat_natCast, List.drop_take, List.take_take, min_eq_left (by omega)]

theorem message_length (id : ℤ) (opcode : ℕ) (body : Bytes) :
    (message id opcode body).length = 16 + body.length := by
  simp only [message, List.length_append, int32_length]
  omega

theorem message_id (hlo : -2 ^ 31 ≤ id) (hhi : id < 2 ^ 31) (opcode : ℕ) (body : Bytes) :
    int32At (message id opcode body) 4 = id :=
  int32At_append hlo hhi (int32_length _) _

/-- The numbers of a message. -/
structure IsRequest (m : Bytes) (id : ℤ) : Prop where
  length : m.length < 2 ^ 31 → int32At m 0 = m.length
  id : int32At m 4 = id
  header : 16 ≤ m.length

theorem message_request (hlo : -2 ^ 31 ≤ id) (hhi : id < 2 ^ 31) (opcode : ℕ) (body : Bytes) :
    IsRequest (message id opcode body) id where
  length h := by
    rw [message_length] at h ⊢
    have hlen :
        int32At ([] ++
          (int32 (16 + body.length) ++ (int32 id ++ (int32 0 ++ (int32 opcode ++ body))))) (0 : ℕ) =
        16 + body.length := int32At_append (by omega) (by omega) rfl _
    rw [List.nil_append, Nat.cast_zero] at hlen
    rw [message, hlen]
    push_cast
    rfl
  id := message_id hlo hhi opcode body
  header := by
    rw [message_length]
    omega

/-- **The server takes the message** when it is alone in the bytes. -/
theorem nextMessage_request (h : IsRequest m id) (hlt : m.length < 2 ^ 31) :
    nextMessage m = some (m, []) := by
  have h16 := h.header
  rw [nextMessage]
  simp only [h.length hlt]
  rw [if_pos ⟨by omega, le_refl _⟩, Int.toNat_natCast, List.take_length, List.drop_length]

/-- The length of a reply without its first four bytes. -/
theorem replyLength_reply (h : IsReply m reply) :
    replyLength (reply.take 4) = .ok (reply.length - 4) := by
  obtain ⟨hlen, hlt, h0, -⟩ := h
  have h4 : 4 ≤ reply.length := (Nat.le_add_left 4 HEADER).trans hlen
  have hhead : int32At (reply.take 4 ++ [0]) (0 : ℕ) = int32At reply (0 : ℕ) := by
    have htake : (reply.take 4 ++ [0]).take 4 = reply.take 4 :=
      List.take_left' (by rw [List.length_take, min_eq_left h4])
    rw [← int32At_take (reply.take 4 ++ [0]) (n := 4) (by omega), htake,
      int32At_take reply (by omega)]
  rw [Nat.cast_zero] at hhead
  rw [replyLength]
  simp only [hhead, h0]
  rw [if_pos]
  rw [List.length_take, min_eq_left h4]
  omega

end Levent.Mongo
