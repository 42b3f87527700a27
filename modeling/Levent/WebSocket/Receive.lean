/-
  `run` of `http/websocket.lua`: it reads frames, puts the fragments of a message
  together and calls the handlers, with `ws:close`, `ws:pong` and `ws:error`.

  The handlers are those that return normally and do not close the connection.
  `log` records their calls and what `run` itself sends.

  An abstract receiver (`Assembly`) knows the opcode and the bytes of the open
  message only: `run` does what it does (`run_frames`), and it delivers the
  messages that the frames make up (`Assembles.feed`).
-/
import Levent.WebSocket.Frame
import Mathlib.Data.List.Forall2

namespace Levent.WebSocket

open Lib (Lua packI unpackI)

def CLOSE_NORMAL : ℕ := 1000
def CLOSE_GOING_AWAY : ℕ := 1001
def CLOSE_PROTOCOL_ERROR : ℕ := 1002

/-- The arguments of `on_close`. -/
inductive CloseArg where
  | int (k : ℤ)
  | str (s : List UInt8)
  deriving DecidableEq

/-- The calls of handlers, the messages that `run` sends, and `conn:close()`. -/
inductive Obs where
  | onMessage (opcode : ℕ) (message : List UInt8)
  | onPing (payload : Option (List UInt8))
  | onPong (payload : Option (List UInt8))
  | onClose (args : List CloseArg)
  | onError (code : ℕ)
  | sent (opcode : ℕ) (payload : List UInt8)
  | closed
  deriving DecidableEq

/-- A `ws` with its connection (`opened` if `self.conn` is not nil), and the
    locals of `run`. -/
structure Reader where
  conn : Conn
  opened : Bool
  log : List Obs
  t : Table
  n : ℕ
  firstOpcode : Option ℕ

/-- The state in which `run` begins. -/
def Reader.start (conn : Conn) : Reader := ⟨conn, true, [], fun _ => none, 0, none⟩

def Reader.emit (r : Reader) (o : Obs) : Reader := { r with log := r.log ++ [o] }

/-- `ws:send`; what `write` makes of the message is in `Frame`. -/
def Reader.send (r : Reader) (opcode : ℕ) : Option (List UInt8) → Lua Reader
  | none => .error (.raised "attempt to get length of a nil value (local 'payload')")
  | some payload =>
    if r.opened then .ok (r.emit (.sent opcode payload))
    else .error (.raised "attempt to index a nil value (local 'conn')")

/-- `encode_close_msg` -/
def encodeCloseMsg (code : ℕ) (reason : Option (List UInt8)) : Lua (List UInt8) := do
  .ok ((← packI 2 2 code) ++ reason.getD [])

/-- `decode_close_msg` -/
def decodeCloseMsg : Option (List UInt8) → Lua (List CloseArg)
  | none => .error (.raised "attempt to get length of a nil value (local 'payload')")
  | some payload => do
    let length := payload.length
    if length = 0 then .ok []
    else if 2 < length then
      let (code, _) ← unpackI payload 2 1
      .ok [.int code, .str (payload.drop 2), .int (length + 1)]
    else
      let (code, pos) ← unpackI payload length 1
      .ok [.int code, .int pos]

/-- `ws:close` -/
def Reader.close (r : Reader) (code : Option ℕ) (reason : Option (List UInt8)) : Lua Reader := do
  let closeMsg ← encodeCloseMsg (code.getD CLOSE_NORMAL) reason
  let r ← r.send CLOSE (some closeMsg)
  .ok { r.emit .closed with opened := false }

/-- `ws:pong` -/
def Reader.pong (r : Reader) (payload : Option (List UInt8)) : Lua Reader := r.send PONG payload

/-- `ws:error` -/
def Reader.error (r : Reader) (code : ℕ) : Lua Reader := (r.emit (.onError code)).close (some code) none

/-- A frame of a message, which is not refused. -/
def Reader.push (r : Reader) (fin : Bool) (payload : Option (List UInt8)) : Lua Reader := do
  let (t, n) ← pushString r.t payload r.n
  let r := { r with t, n }
  if fin then
    let message ← tconcat r.t r.n
    .ok { r.emit (.onMessage (r.firstOpcode.getD 0) message) with firstOpcode := none }
  else .ok r

/-- What `run` does with a frame, and whether it returns. -/
def Reader.dispatch (r : Reader) (fin : Bool) (opcode : ℕ) (payload : Option (List UInt8)) :
    Lua (Reader × Bool) := do
  if opcode = CLOSE then
    let args ← decodeCloseMsg payload
    let r ← (r.emit (.onClose args)).close (some CLOSE_GOING_AWAY) none
    .ok (r, false)
  else if opcode = PING then
    let r ← (r.emit (.onPing payload)).pong payload
    .ok (r, false)
  else if opcode = PONG then
    .ok (r.emit (.onPong payload), false)
  else if opcode = CONTINUATION then
    if r.firstOpcode = none then
      .ok (← r.error CLOSE_PROTOCOL_ERROR, true)
    else .ok (← r.push fin payload, false)
  else
    if r.firstOpcode.isSome then
      .ok (← r.error CLOSE_PROTOCOL_ERROR, true)
    else .ok (← { r with firstOpcode := some opcode, n := 0 }.push fin payload, false)

/-- A round of the loop of `run`. -/
def Reader.round (r : Reader) : Lua (Reader × Bool) := do
  if r.opened = false then .ok (r, true)
  else
    let ((fin, opcode, payload), conn) ← read r.conn
    { r with conn }.dispatch fin opcode payload

/-- `run`, for at most `n` rounds, and whether it has returned. -/
def Reader.run : ℕ → Reader → Lua (Reader × Bool)
  | 0, r => .ok (r, false)
  | n + 1, r => do
    let (r, done) ← r.round
    if done then .ok (r, true) else r.run n

/-! ## The abstract receiver -/

/-- The open message, if there is one: its opcode, and the bytes received of it. -/
abbrev Assembly := Option (ℕ × List UInt8)

/-- A frame that an assembly refuses: a continuation of no message, or a new
    message inside another one. -/
def Frame.Violates (f : Frame) (a : Assembly) : Prop :=
  ¬ isControl f.opcode ∧ (f.opcode = CONTINUATION ↔ a = none)

instance (f : Frame) (a : Assembly) : Decidable (f.Violates a) := by
  unfold Frame.Violates
  infer_instance

/-- What a frame makes the receiver do; `none` if it is refused. -/
def Assembly.next (a : Assembly) (f : Frame) : Option (List Obs × Assembly) :=
  if f.opcode = PING then some ([.onPing (some f.payload), .sent PONG f.payload], a)
  else if f.opcode = PONG then some ([.onPong (some f.payload)], a)
  else if f.Violates a then none
  else
    let m := a.getD (f.opcode, [])
    if f.fin then some ([.onMessage m.1 (m.2 ++ f.payload)], none)
    else some ([], some (m.1, m.2 ++ f.payload))

/-- What the frames make the receiver do, one after another. -/
def Assembly.feed : Assembly → List Frame → Option (List Obs × Assembly)
  | a, [] => some ([], a)
  | a, f :: fs => do
    let (os, a) ← a.next f
    let (os', a) ← a.feed fs
    some (os ++ os', a)

/-- The buffer of `run` holds the open message. -/
structure Reader.Holds (r : Reader) (a : Assembly) : Prop where
  opened : r.opened = true
  first : r.firstOpcode = a.map Prod.fst
  buffer : ∀ m, a = some m → tconcat r.t r.n = .ok m.2

variable {r r' : Reader} {a a' : Assembly} {f : Frame} {fs : List Frame} {bs rest : List UInt8}
  {bss : List (List UInt8)} {os os' : List Obs}

/-! ## One frame -/

/-- A fragment is appended to the message. -/
theorem push_ok {op : ℕ} (hop : r.opened = true) (hfirst : r.firstOpcode = some op)
    (hbuf : tconcat r.t r.n = .ok bs) (fin : Bool) (s : List UInt8) :
    ∃ r', r.push fin (some s) = .ok r' ∧ r'.conn = r.conn ∧
      r'.Holds (if fin then none else some (op, bs ++ s)) ∧
      r'.log = r.log ++ if fin then [.onMessage op (bs ++ s)] else [] := by
  obtain ⟨t', n', hpush, ht'⟩ := pushString_ok hbuf s
  rw [Reader.push, hpush]
  simp only [bind, Except.bind]
  cases fin with
  | true =>
    simp only [if_true, ht', hfirst]
    exact ⟨_, rfl, rfl, ⟨hop, rfl, nofun⟩, rfl⟩
  | false =>
    refine ⟨_, rfl, rfl, ⟨hop, hfirst, ?_⟩, (List.append_nil _).symm⟩
    rintro m ⟨⟩
    exact ht'

/-- A frame that is accepted. -/
theorem dispatch_next (h : r.Holds a) (hne : f.opcode ≠ CLOSE) (hnext : a.next f = some (os, a')) :
    ∃ r', r.dispatch f.fin f.opcode (some f.payload) = .ok (r', false) ∧ r'.conn = r.conn ∧
      r'.Holds a' ∧ r'.log = r.log ++ os := by
  rw [Assembly.next] at hnext
  rw [Reader.dispatch, if_neg hne]
  split at hnext
  · rename_i hop
    obtain ⟨rfl, rfl⟩ := Prod.mk.inj (Option.some.inj hnext)
    rw [if_pos hop, Reader.pong, Reader.send, if_pos (show (r.emit _).opened = true from h.opened)]
    exact ⟨_, rfl, rfl, ⟨h.opened, h.first, h.buffer⟩, by simp [Reader.emit]⟩
  · rename_i hping
    rw [if_neg hping]
    split at hnext
    · rename_i hop
      obtain ⟨rfl, rfl⟩ := Prod.mk.inj (Option.some.inj hnext)
      rw [if_pos hop]
      exact ⟨_, rfl, rfl, ⟨h.opened, h.first, h.buffer⟩, rfl⟩
    · rename_i hpong
      rw [if_neg hpong]
      split at hnext
      · cases hnext
      · rename_i hok
        have hdata : ¬ isControl f.opcode := by simp [isControl, hne, hping, hpong]
        cases a with
        | none =>
          -- the first frame of a message
          have hcont : f.opcode ≠ CONTINUATION := fun hc => hok ⟨hdata, iff_of_true hc rfl⟩
          have hfirst : r.firstOpcode = none := h.first
          have hempty : tconcat r.t 0 = .ok [] := rfl
          obtain ⟨r', hpush, hconn, hholds, hlog⟩ :=
            push_ok (r := { r with firstOpcode := some f.opcode, n := 0 }) h.opened rfl hempty
              f.fin f.payload
          rw [if_neg hcont, if_neg (by simp [hfirst]), hpush]
          refine ⟨r', rfl, hconn, ?_⟩
          cases hfin : f.fin <;> simp only [hfin, Option.getD] at hnext hholds hlog <;>
            cases hnext <;> exact ⟨hholds, hlog⟩
        | some m =>
          have hcont : f.opcode = CONTINUATION := by
            by_contra hc
            exact hok ⟨hdata, iff_of_false hc (by simp)⟩
          have hfirst : r.firstOpcode = some m.1 := h.first
          obtain ⟨r', hpush, hconn, hholds, hlog⟩ :=
            push_ok h.opened hfirst (h.buffer m rfl) f.fin f.payload
          rw [if_pos hcont, if_neg (by simp [hfirst]), hpush]
          refine ⟨r', rfl, hconn, ?_⟩
          cases hfin : f.fin <;> simp only [hfin, Option.getD] at hnext hholds hlog <;>
            cases hnext <;> exact ⟨hholds, hlog⟩

/-- What `run` does when it refuses a frame. -/
def refusal : List Obs := [.onError CLOSE_PROTOCOL_ERROR, .sent CLOSE [3, 234], .closed]

theorem error_ok (h : r.opened = true) :
    ∃ r', r.error CLOSE_PROTOCOL_ERROR = .ok r' ∧ r'.opened = false ∧ r'.log = r.log ++ refusal := by
  have hmsg : encodeCloseMsg ((some CLOSE_PROTOCOL_ERROR).getD CLOSE_NORMAL) none = .ok [3, 234] := by
    decide
  rw [Reader.error, Reader.close, hmsg]
  simp only [bind, Except.bind]
  rw [Reader.send, if_pos (show (r.emit _).opened = true from h)]
  exact ⟨_, rfl, rfl, by simp [Reader.emit, refusal]⟩

/-- A frame that is refused. -/
theorem dispatch_violates (h : r.Holds a) (hv : f.Violates a) :
    ∃ r', r.dispatch f.fin f.opcode (some f.payload) = .ok (r', true) ∧ r'.opened = false ∧
      r'.log = r.log ++ refusal := by
  obtain ⟨hdata, hiff⟩ := hv
  simp only [isControl, Bool.or_eq_true, decide_eq_true_eq, not_or] at hdata
  obtain ⟨r', herr, hclosed, hlog⟩ := error_ok h.opened
  rw [Reader.dispatch, if_neg hdata.1.1, if_neg hdata.1.2, if_neg hdata.2]
  by_cases hcont : f.opcode = CONTINUATION
  · have hfirst : r.firstOpcode = none := by rw [h.first, hiff.1 hcont]; rfl
    rw [if_pos hcont, if_pos hfirst, herr]
    exact ⟨r', rfl, hclosed, hlog⟩
  · have hfirst : r.firstOpcode.isSome := by
      rw [h.first]
      cases a with
      | none => exact absurd (hiff.2 rfl) hcont
      | some m => rfl
    rw [if_neg hcont, if_pos hfirst, herr]
    exact ⟨r', rfl, hclosed, hlog⟩

/-- **A round** reads a frame and does with it what the abstract receiver does. -/
theorem round_next (h : r.Holds a) (hf : f.Encodes bs) (hconn : r.conn.Holds (bs ++ rest))
    (hne : f.opcode ≠ CLOSE) (hnext : a.next f = some (os, a')) :
    ∃ r', r.round = .ok (r', false) ∧ r'.Holds a' ∧ r'.log = r.log ++ os ∧ r'.conn.Holds rest := by
  obtain ⟨conn', hread, hconn', -⟩ := read_holds hf hconn
  have h' : Reader.Holds { r with conn := conn' } a := ⟨h.opened, h.first, h.buffer⟩
  obtain ⟨r', hdis, hc, hholds, hlog⟩ := dispatch_next h' hne hnext
  refine ⟨r', ?_, hholds, hlog, by rw [hc]; exact hconn'⟩
  rw [Reader.round, if_neg (by simp [h.opened]), hread]
  exact hdis

theorem round_violates (h : r.Holds a) (hf : f.Encodes bs) (hconn : r.conn.Holds (bs ++ rest))
    (hv : f.Violates a) :
    ∃ r', r.round = .ok (r', true) ∧ r'.opened = false ∧ r'.log = r.log ++ refusal := by
  obtain ⟨conn', hread, hconn', -⟩ := read_holds hf hconn
  have h' : Reader.Holds { r with conn := conn' } a := ⟨h.opened, h.first, h.buffer⟩
  obtain ⟨r', hdis, hclosed, hlog⟩ := dispatch_violates h' hv
  refine ⟨r', ?_, hclosed, hlog⟩
  rw [Reader.round, if_neg (by simp [h.opened]), hread]
  exact hdis

/-! ## All frames -/

theorem run_succ {n : ℕ} (h : r.round = .ok (r', false)) : r.run (n + 1) = r'.run n := by
  rw [Reader.run, h]
  rfl

theorem feed_cons : a.feed (f :: fs) = some (os, a') ↔ ∃ os₁ os₂ a₁, a.next f = some (os₁, a₁) ∧
    Assembly.feed a₁ fs = some (os₂, a') ∧ os = os₁ ++ os₂ := by
  simp only [Assembly.feed, bind, Option.bind_eq_some_iff, Prod.exists]
  constructor
  · rintro ⟨os₁, a₁, h₁, os₂, a₂, h₂, heq⟩
    obtain ⟨rfl, rfl⟩ := Prod.mk.inj (Option.some.inj heq)
    exact ⟨os₁, os₂, a₁, h₁, h₂, rfl⟩
  · rintro ⟨os₁, os₂, a₁, h₁, h₂, rfl⟩
    exact ⟨os₁, a₁, h₁, os₂, a', h₂, rfl⟩

theorem feed_append {fs' : List Frame} : a.feed (fs ++ fs') = some (os, a') ↔ ∃ os₁ os₂ a₁,
    a.feed fs = some (os₁, a₁) ∧ Assembly.feed a₁ fs' = some (os₂, a') ∧ os = os₁ ++ os₂ := by
  induction fs generalizing a os with
  | nil =>
    constructor
    · intro h
      exact ⟨[], os, a, rfl, h, rfl⟩
    · rintro ⟨os₁, os₂, a₁, h₁, h₂, rfl⟩
      cases h₁
      exact h₂
  | cons f fs ih =>
    rw [List.cons_append, feed_cons]
    constructor
    · rintro ⟨os₁, os₂, a₁, h₁, h₂, rfl⟩
      obtain ⟨os₃, os₄, a₃, h₃, h₄, rfl⟩ := ih.1 h₂
      exact ⟨os₁ ++ os₃, os₄, a₃, feed_cons.2 ⟨os₁, os₃, a₁, h₁, h₃, rfl⟩, h₄, by simp⟩
    · rintro ⟨os₁, os₂, a₁, h₁, h₂, rfl⟩
      obtain ⟨os₃, os₄, a₃, h₃, h₄, rfl⟩ := feed_cons.1 h₁
      exact ⟨os₃, os₄ ++ os₂, a₃, h₃, ih.2 ⟨os₄, os₂, a₁, h₄, h₂, rfl⟩, by simp⟩

/-- **`run` does what the abstract receiver does**, frame by frame. -/
theorem run_frames (h : r.Holds a) (henc : Encoded fs bss) (hconn : r.conn.Holds (bss.flatten ++ rest))
    (hne : ∀ f ∈ fs, f.opcode ≠ CLOSE) (hfeed : a.feed fs = some (os, a')) :
    ∃ r' : Reader, (∀ k, r.run (fs.length + k) = r'.run k) ∧ r'.Holds a' ∧ r'.log = r.log ++ os ∧
      r'.conn.Holds rest := by
  induction henc generalizing r a os with
  | nil =>
    cases hfeed
    refine ⟨r, fun k => ?_, h, (List.append_nil _).symm, hconn⟩
    rw [List.length_nil, Nat.zero_add]
  | @cons f bs fs bss hf henc ih =>
    obtain ⟨os₁, os₂, a₁, hnext, hfeed₁, rfl⟩ := feed_cons.1 hfeed
    rw [List.flatten_cons, List.append_assoc] at hconn
    obtain ⟨r₁, hround, h₁, hlog₁, hconn₁⟩ := round_next h hf hconn (hne f List.mem_cons_self) hnext
    obtain ⟨r', hrun, h', hlog', hconn'⟩ := 
      ih h₁ hconn₁ (fun f hf => hne f (List.mem_cons_of_mem _ hf)) hfeed₁
    refine ⟨r', fun k => ?_, h', by rw [hlog', hlog₁, List.append_assoc], hconn'⟩
    rw [List.length_cons, Nat.succ_add, run_succ hround, hrun k]

theorem start_holds (conn : Conn) : (Reader.start conn).Holds none := ⟨rfl, rfl, nofun⟩

/-! ## Messages and their fragments -/

/-- A frame of a message. -/
def Frame.isData (f : Frame) : Bool := !isControl f.opcode

/-- The message `m` as far as the frames `l` carry it: the first has its opcode,
    the others are continuations. -/
structure Fragments (l : List Frame) (m : ℕ × List UInt8) : Prop where
  data : ∀ f ∈ l, f.isData
  first : (l.map Frame.opcode).head? = some m.1
  opcode : m.1 ≠ CONTINUATION
  others : ∀ f ∈ l.tail, f.opcode = CONTINUATION
  payload : m.2 = l.flatMap Frame.payload

/-- The frames of the message `m`, of which the last one has FIN. -/
def IsMessage (l : List Frame) (m : ℕ × List UInt8) : Prop :=
  Fragments l m ∧ ∃ l' f, l = l' ++ [f] ∧ f.fin = true ∧ ∀ f' ∈ l', f'.fin = false

/-- The frames, none of which has FIN, of an open message. -/
def IsOpen (l : List Frame) : Assembly → Prop
  | none => l = []
  | some m => Fragments l m ∧ ∀ f ∈ l, f.fin = false

/-- The data frames of `fs` are those of the messages `msgs`, one after another,
    and then those of an open message. -/
def Assembles (fs : List Frame) (msgs : List (ℕ × List UInt8)) (a : Assembly) : Prop :=
  ∃ ls l, fs.filter Frame.isData = ls.flatten ++ l ∧ List.Forall₂ IsMessage ls msgs ∧ IsOpen l a

variable {m : ℕ × List UInt8} {l : List Frame} {msgs : List (ℕ × List UInt8)}

theorem Frame.isData_iff : f.isData = true ↔ f.opcode ≠ CLOSE ∧ f.opcode ≠ PING ∧ f.opcode ≠ PONG := by
  simp [Frame.isData, isControl, and_assoc]

/-- A data frame that is not refused. -/
theorem next_data (hd : f.isData = true) (hv : ¬ f.Violates a) :
    a.next f = some (if f.fin then
      ([.onMessage (a.getD (f.opcode, [])).1 ((a.getD (f.opcode, [])).2 ++ f.payload)], none)
      else ([], some ((a.getD (f.opcode, [])).1, (a.getD (f.opcode, [])).2 ++ f.payload))) := by
  obtain ⟨-, hping, hpong⟩ := Frame.isData_iff.1 hd
  rw [Assembly.next, if_neg hping, if_neg hpong, if_neg hv]
  cases f.fin <;> rfl

theorem next_none : a.next f = none ↔ f.Violates a := by
  rw [Assembly.next]
  by_cases hping : f.opcode = PING
  · rw [if_pos hping]
    simp [Frame.Violates, isControl, hping]
  · by_cases hpong : f.opcode = PONG
    · rw [if_neg hping, if_pos hpong]
      simp [Frame.Violates, isControl, hpong]
    · rw [if_neg hping, if_neg hpong]
      by_cases hv : f.Violates a
      · rw [if_pos hv]
        exact iff_of_true rfl hv
      · rw [if_neg hv]
        refine iff_of_false ?_ hv
        cases f.fin <;> simp

/-- Continuations are appended to the open message. -/
theorem feed_others {m : ℕ × List UInt8} (hdata : ∀ f ∈ l, f.isData)
    (hcont : ∀ f ∈ l, f.opcode = CONTINUATION) (hfin : ∀ f ∈ l, f.fin = false) :
    Assembly.feed (some m) l = some ([], some (m.1, m.2 ++ l.flatMap Frame.payload)) := by
  induction l generalizing m with
  | nil => simp [Assembly.feed]
  | cons f l ih =>
    have hv : ¬ f.Violates (some m) := by
      rintro ⟨-, h⟩
      exact absurd (h.1 (hcont f List.mem_cons_self)) (by simp)
    have hnext := next_data (hdata f List.mem_cons_self) hv
    rw [hfin f List.mem_cons_self] at hnext
    have htail := ih (m := (m.1, m.2 ++ f.payload)) (fun f hf => hdata f (List.mem_cons_of_mem _ hf))
      (fun f hf => hcont f (List.mem_cons_of_mem _ hf)) (fun f hf => hfin f (List.mem_cons_of_mem _ hf))
    refine feed_cons.2 ⟨[], [], _, hnext, ?_, rfl⟩
    simpa using htail

/-- The frames of an open message. -/
theorem feed_open (h : Fragments l m) (hfin : ∀ f ∈ l, f.fin = false) :
    Assembly.feed none l = some ([], some m) := by
  cases l with
  | nil => cases h.first
  | cons f l =>
    have hop : f.opcode = m.1 := Option.some.inj h.first
    have hv : ¬ f.Violates none := by
      rintro ⟨-, hv⟩
      exact h.opcode (hop ▸ hv.2 rfl)
    have hnext := next_data (h.data f List.mem_cons_self) hv
    rw [hfin f List.mem_cons_self] at hnext
    refine feed_cons.2 ⟨[], [], _, hnext, ?_, rfl⟩
    rw [feed_others (fun f hf => h.data f (List.mem_cons_of_mem _ hf)) h.others
      (fun f hf => hfin f (List.mem_cons_of_mem _ hf))]
    have hm : (m.1, f.payload ++ l.flatMap Frame.payload) = m := Prod.ext rfl h.payload.symm
    simp [hop, hm]

/-- **The frames of a message** make the receiver deliver it. -/
theorem feed_message (h : IsMessage l m) :
    Assembly.feed none l = some ([.onMessage m.1 m.2], none) := by
  obtain ⟨hl, l', f, rfl, hlast, hfin⟩ := h
  have hdata : f.isData := hl.data f (by simp)
  cases l' with
  | nil =>
    have hop : f.opcode = m.1 := Option.some.inj hl.first
    have hv : ¬ f.Violates none := by
      rintro ⟨-, hv⟩
      exact hl.opcode (hop ▸ hv.2 rfl)
    have hnext := next_data hdata hv
    rw [hlast] at hnext
    refine feed_cons.2 ⟨_, [], _, hnext, rfl, ?_⟩
    simp [hop, hl.payload]
  | cons f₀ l' =>
    have hopen : Fragments (f₀ :: l') (m.1, (f₀ :: l').flatMap Frame.payload) :=
      ⟨fun f hf => hl.data f (List.mem_append_left _ hf), hl.first, hl.opcode,
        fun f hf => hl.others f (List.mem_append_left _ hf), rfl⟩
    have hcont : f.opcode = CONTINUATION := hl.others f (by simp)
    have hv : ¬ f.Violates (some (m.1, (f₀ :: l').flatMap Frame.payload)) := by
      rintro ⟨-, hv⟩
      exact absurd (hv.1 hcont) (by simp)
    have hnext := next_data hdata hv
    rw [hlast] at hnext
    refine feed_append.2 ⟨[], _, _, feed_open hopen hfin, feed_cons.2 ⟨_, [], _, hnext, rfl, rfl⟩, ?_⟩
    simp [hl.payload]

/-! ## What the frames deliver -/

/-- The message that a record delivers. -/
def Obs.message? : Obs → Option (ℕ × List UInt8)
  | .onMessage opcode message => some (opcode, message)
  | _ => none

/-- The messages delivered. -/
def messages (os : List Obs) : List (ℕ × List UInt8) := os.filterMap Obs.message?

/-- The other records. -/
def others (os : List Obs) : List Obs := os.filter fun o => o.message?.isNone

/-- What answers a control frame: the call of its handler, and a PONG for a PING. -/
def Frame.answers (f : Frame) : List Obs :=
  if f.opcode = PING then [.onPing (some f.payload), .sent PONG f.payload]
  else if f.opcode = PONG then [.onPong (some f.payload)]
  else []

@[simp] theorem messages_append (os os' : List Obs) :
    messages (os ++ os') = messages os ++ messages os' := List.filterMap_append

@[simp] theorem others_append (os os' : List Obs) : others (os ++ os') = others os ++ others os' :=
  List.filter_append ..

theorem next_others (hnext : a.next f = some (os, a')) : others os = f.answers := by
  rw [Assembly.next] at hnext
  rw [Frame.answers]
  split at hnext
  · rw [if_pos ‹_›]
    cases hnext
    rfl
  · rw [if_neg ‹_›]
    split at hnext
    · rw [if_pos ‹_›]
      cases hnext
      rfl
    · rw [if_neg ‹_›]
      split at hnext
      · cases hnext
      · split at hnext <;> cases hnext <;> rfl

/-- Every PING and PONG is answered, in order. -/
theorem feed_answers (h : a.feed fs = some (os, a')) : others os = fs.flatMap Frame.answers := by
  induction fs generalizing a os with
  | nil => cases h; rfl
  | cons f fs ih =>
    obtain ⟨os₁, os₂, a₁, hnext, hfeed, rfl⟩ := feed_cons.1 h
    rw [others_append, next_others hnext, ih hfeed, List.flatMap_cons]

/-- A PING or PONG leaves the open message alone. -/
theorem next_control (hne : f.opcode ≠ CLOSE) (hd : f.isData = false) :
    ∃ os, a.next f = some (os, a) ∧ messages os = [] := by
  have hop : f.opcode = PING ∨ f.opcode = PONG := by
    by_contra h
    rw [not_or] at h
    simp [Frame.isData_iff.2 ⟨hne, h.1, h.2⟩] at hd
  rw [Assembly.next]
  by_cases hping : f.opcode = PING
  · exact ⟨_, if_pos hping, rfl⟩
  · rw [if_neg hping, if_pos (hop.resolve_left hping)]
    exact ⟨_, rfl, rfl⟩

/-- What is delivered depends on the data frames only. -/
theorem feed_of_data (hne : ∀ f ∈ fs, f.opcode ≠ CLOSE)
    (h : a.feed (fs.filter Frame.isData) = some (os, a')) :
    ∃ os', a.feed fs = some (os', a') ∧ messages os' = messages os := by
  induction fs generalizing a os with
  | nil => exact ⟨os, h, rfl⟩
  | cons f fs ih =>
    have hne' : ∀ f ∈ fs, f.opcode ≠ CLOSE := fun f hf => hne f (List.mem_cons_of_mem _ hf)
    by_cases hd : f.isData = true
    · rw [List.filter_cons_of_pos hd] at h
      obtain ⟨os₁, os₂, a₁, hnext, hfeed, rfl⟩ := feed_cons.1 h
      obtain ⟨os', hfeed', hmsgs⟩ := ih hne' hfeed
      exact ⟨os₁ ++ os', feed_cons.2 ⟨os₁, os', a₁, hnext, hfeed', rfl⟩, by simp [hmsgs]⟩
    · rw [List.filter_cons_of_neg hd] at h
      obtain ⟨os₁, hnext, hmsgs₁⟩ := next_control (a := a) (hne f List.mem_cons_self)
        (Bool.not_eq_true _ ▸ hd)
      obtain ⟨os', hfeed', hmsgs⟩ := ih hne' h
      exact ⟨os₁ ++ os', feed_cons.2 ⟨os₁, os', a, hnext, hfeed', rfl⟩, by simp [hmsgs₁, hmsgs]⟩

/-- The frames of messages, one after another. -/
theorem feed_messages {ls : List (List Frame)} (h : List.Forall₂ IsMessage ls msgs) :
    Assembly.feed none ls.flatten = some (msgs.map fun m => .onMessage m.1 m.2, none) := by
  induction h with
  | nil => rfl
  | cons hm _ ih => exact feed_append.2 ⟨_, _, _, feed_message hm, ih, rfl⟩

/-- **Frames that make up messages** are all accepted, and deliver these. -/
theorem Assembles.feed (h : Assembles fs msgs a) (hne : ∀ f ∈ fs, f.opcode ≠ CLOSE) :
    ∃ os, Assembly.feed none fs = some (os, a) ∧ messages os = msgs := by
  obtain ⟨ls, l, hdata, hls, hl⟩ := h
  have hopen : Assembly.feed none l = some ([], a) := by
    cases a with
    | none =>
      obtain rfl : l = [] := hl
      rfl
    | some m => exact feed_open hl.1 hl.2
  have hfeed := feed_append.2 ⟨_, _, _, feed_messages hls, hopen, rfl⟩
  rw [← hdata] at hfeed
  obtain ⟨os, hos, hmsgs⟩ := feed_of_data hne hfeed
  refine ⟨os, hos, ?_⟩
  rw [hmsgs, List.append_nil, messages, List.filterMap_map]
  exact List.filterMap_some

/-- One more fragment of the open message. -/
theorem Fragments.snoc (h : Fragments l m) (hd : f.isData) (hcont : f.opcode = CONTINUATION) :
    Fragments (l ++ [f]) (m.1, m.2 ++ f.payload) where
  data := by
    intro f' hf'
    rcases List.mem_append.1 hf' with hf' | hf'
    · exact h.data f' hf'
    · exact List.mem_singleton.1 hf' ▸ hd
  first := by
    have h1 := h.first
    cases l with
    | nil => cases h1
    | cons f₀ l => exact h1
  opcode := h.opcode
  others := by
    have h1 := h.first
    have h2 := h.others
    cases l with
    | nil => cases h1
    | cons f₀ l =>
      intro f' hf'
      rcases List.mem_append.1 hf' with hf' | hf'
      · exact h2 f' hf'
      · exact List.mem_singleton.1 hf' ▸ hcont
  payload := by simp [h.payload]

theorem Fragments.single (hd : f.isData) (hcont : f.opcode ≠ CONTINUATION) :
    Fragments [f] (f.opcode, f.payload) where
  data := by simpa using hd
  first := rfl
  opcode := hcont
  others := nofun
  payload := by simp

/-- The message that a data frame belongs to, if it is accepted. -/
theorem fragments_next (hl : IsOpen l a) (hd : f.isData) (hv : ¬ f.Violates a) :
    Fragments (l ++ [f]) ((a.getD (f.opcode, [])).1, (a.getD (f.opcode, [])).2 ++ f.payload) ∧
      ∀ f' ∈ l, f'.fin = false := by
  have hc : ¬ isControl f.opcode := by simpa [Frame.isData] using hd
  cases a with
  | none =>
    obtain rfl : l = [] := hl
    exact ⟨Fragments.single hd fun h => hv ⟨hc, iff_of_true h rfl⟩, nofun⟩
  | some m =>
    have hcont : f.opcode = CONTINUATION := by
      by_contra h
      exact hv ⟨hc, iff_of_false h (by simp)⟩
    exact ⟨hl.1.snoc hd hcont, hl.2⟩

/-- **Frames that are all accepted** make up the messages that they deliver. -/
theorem assembles_of_feed (hne : ∀ f ∈ fs, f.opcode ≠ CLOSE)
    (h : Assembly.feed none fs = some (os, a)) : Assembles fs (messages os) a := by
  induction fs using List.reverseRecOn generalizing os a with
  | nil =>
    cases h
    exact ⟨[], [], rfl, .nil, rfl⟩
  | append_singleton fs f ih =>
    obtain ⟨os₁, os₂, a₁, hfeed, hlast, rfl⟩ := feed_append.1 h
    obtain ⟨os₂, os₃, a₂, hnext, hnil, rfl⟩ := feed_cons.1 hlast
    cases hnil
    obtain ⟨ls, l, hdata, hls, hl⟩ := ih (fun f hf => hne f (List.mem_append_left _ hf)) hfeed
    rw [List.append_nil, messages_append]
    by_cases hd : f.isData = true
    · have hv : ¬ f.Violates a₁ := by
        rw [← next_none, hnext]
        simp
      obtain ⟨hfrag, hfin⟩ := fragments_next hl hd hv
      rw [next_data hd hv] at hnext
      have hfilter : (fs ++ [f]).filter Frame.isData = ls.flatten ++ (l ++ [f]) := by
        rw [List.filter_append, List.filter_cons_of_pos hd, hdata, List.append_assoc]
        rfl
      cases hend : f.fin with
      | true =>
        rw [hend] at hnext
        cases hnext
        refine ⟨ls ++ [l ++ [f]], [], by simp [hfilter], ?_, rfl⟩
        exact List.rel_append hls (List.Forall₂.cons ⟨hfrag, l, f, rfl, hend, hfin⟩ .nil)
      | false =>
        rw [hend] at hnext
        cases hnext
        refine ⟨ls, l ++ [f], hfilter, by simpa [messages] using hls, hfrag, ?_⟩
        intro f' hf'
        rcases List.mem_append.1 hf' with hf' | hf'
        · exact hfin f' hf'
        · exact List.mem_singleton.1 hf' ▸ hend
    · have hd' : f.isData = false := Bool.not_eq_true _ ▸ hd
      obtain ⟨os', hnext', hmsgs⟩ := next_control (a := a₁) (hne f (by simp)) hd'
      rw [hnext] at hnext'
      cases hnext'
      refine ⟨ls, l, ?_, by rw [hmsgs, List.append_nil]; exact hls, hl⟩
      rw [List.filter_append, List.filter_cons_of_neg hd, List.filter_nil, List.append_nil, hdata]

/-- Either all frames are accepted, or there is a first one that is refused. -/
theorem feed_total (a : Assembly) (fs : List Frame) : (∃ os a', a.feed fs = some (os, a')) ∨
    ∃ pre f post os a', fs = pre ++ f :: post ∧ a.feed pre = some (os, a') ∧ f.Violates a' := by
  induction fs generalizing a with
  | nil => exact Or.inl ⟨[], a, rfl⟩
  | cons f fs ih =>
    cases hnext : a.next f with
    | none => exact Or.inr ⟨[], f, fs, [], a, rfl, rfl, next_none.1 hnext⟩
    | some r =>
      obtain ⟨os₁, a₁⟩ := r
      rcases ih a₁ with ⟨os, a', h⟩ | ⟨pre, f', post, os, a', rfl, h, hv⟩
      · exact Or.inl ⟨_, _, feed_cons.2 ⟨_, _, _, hnext, h, rfl⟩⟩
      · exact Or.inr ⟨f :: pre, f', post, _, a', rfl, feed_cons.2 ⟨_, _, _, hnext, h, rfl⟩, hv⟩

/-! ## Runs of the receiver -/

variable {conn : Conn} {pre post : List Frame}

theorem Encoded.split {fs' : List Frame} (h : Encoded (fs ++ fs') bss) :
    ∃ bss₁ bss₂, bss = bss₁ ++ bss₂ ∧ Encoded fs bss₁ ∧ Encoded fs' bss₂ := by
  induction fs generalizing bss with
  | nil => exact ⟨[], bss, rfl, .nil, h⟩
  | cons f fs ih =>
    cases h with
    | cons hf h =>
      obtain ⟨bss₁, bss₂, rfl, h₁, h₂⟩ := ih h
      exact ⟨_ :: bss₁, bss₂, rfl, .cons hf h₁, h₂⟩

/-- `run` on frames that are all accepted. -/
theorem run_accepts (hne : ∀ f ∈ fs, f.opcode ≠ CLOSE) (henc : Encoded fs bss)
    (hconn : conn.Holds (bss.flatten ++ rest)) (h : Assembles fs msgs a) :
    ∃ r' : Reader, (∀ k, (Reader.start conn).run (fs.length + k) = r'.run k) ∧ r'.Holds a ∧
      messages r'.log = msgs ∧ others r'.log = fs.flatMap Frame.answers ∧ r'.conn.Holds rest := by
  obtain ⟨os, hfeed, hmsgs⟩ := h.feed hne
  obtain ⟨r', hrun, hr', hlog, hconn'⟩ := run_frames (start_holds conn) henc hconn hne hfeed
  have hlog' : r'.log = os := hlog
  exact ⟨r', hrun, hr', hlog' ▸ hmsgs, hlog' ▸ feed_answers hfeed, hconn'⟩

/-- `run` on frames of which the one after `pre` is refused. -/
theorem run_refuses (hne : ∀ g ∈ pre ++ f :: post, g.opcode ≠ CLOSE)
    (henc : Encoded (pre ++ f :: post) bss) (hconn : conn.Holds (bss.flatten ++ rest))
    (h : Assembles pre msgs a) (hv : f.Violates a) :
    ∃ r' log, (Reader.start conn).run (pre.length + 1) = .ok (r', true) ∧ r'.opened = false ∧
      r'.log = log ++ refusal ∧ messages log = msgs ∧ others log = pre.flatMap Frame.answers := by
  obtain ⟨bss₁, bss', rfl, h₁, h₂⟩ := henc.split
  obtain ⟨bs, bss₂, hf, -, rfl⟩ := List.forall₂_cons_left_iff.1 h₂
  rw [List.flatten_append, List.flatten_cons, List.append_assoc, List.append_assoc] at hconn
  obtain ⟨r₁, hrun, hr₁, hmsgs, hothers, hconn₁⟩ :=
    run_accepts (fun g hg => hne g (List.mem_append_left _ hg)) h₁ hconn h
  obtain ⟨r', hround, hclosed, hlog⟩ := round_violates hr₁ hf hconn₁ hv
  refine ⟨r', r₁.log, ?_, hclosed, hlog, hmsgs, hothers⟩
  rw [hrun, Reader.run, hround]
  rfl

/-- **`run` assembles messages.**  On frames of messages, with PING and PONG
    frames anywhere, it calls `on_message` once for every message that is
    complete, answers the control frames, and goes on; on a continuation of no
    message, or a new message inside another, it reports a protocol error, sends
    a CLOSE and ends. -/
theorem run_receives
    (hops : ∀ f ∈ fs, f.opcode ∈ [CONTINUATION, TEXT, BINARY, PING, PONG])
    (henc : Encoded fs bss) (hconn : conn.Holds (bss.flatten ++ rest)) :
    (∀ msgs a, Assembles fs msgs a →
      ∃ r', (Reader.start conn).run fs.length = .ok (r', false) ∧ r'.opened = true ∧
        messages r'.log = msgs ∧ others r'.log = fs.flatMap Frame.answers ∧ r'.conn.Holds rest) ∧
    (∀ pre f post msgs a, fs = pre ++ f :: post → Assembles pre msgs a → f.Violates a →
      ∃ r' log, (Reader.start conn).run (pre.length + 1) = .ok (r', true) ∧ r'.opened = false ∧
        r'.log = log ++ refusal ∧ messages log = msgs ∧ others log = pre.flatMap Frame.answers) ∧
    ((∃ msgs a, Assembles fs msgs a) ∨
      ∃ pre f post msgs a, fs = pre ++ f :: post ∧ Assembles pre msgs a ∧ f.Violates a) := by
  have hne : ∀ f ∈ fs, f.opcode ≠ CLOSE := by
    intro f hf h
    have := hops f hf
    rw [h] at this
    revert this
    decide
  refine ⟨?_, ?_, ?_⟩
  · intro msgs a h
    obtain ⟨r', hrun, hr', hmsgs, hothers, hconn'⟩ := run_accepts hne henc hconn h
    exact ⟨r', hrun 0, hr'.opened, hmsgs, hothers, hconn'⟩
  · intro pre f post msgs a hfs h hv
    rw [hfs] at hne henc
    exact run_refuses hne henc hconn h hv
  · rcases feed_total none fs with ⟨os, a, h⟩ | ⟨pre, f, post, os, a, rfl, h, hv⟩
    · exact Or.inl ⟨_, a, assembles_of_feed hne h⟩
    · refine Or.inr ⟨pre, f, post, messages os, a, rfl, ?_, hv⟩
      exact assembles_of_feed (fun f hf => hne f (List.mem_append_left _ hf)) h

/-- A text in two fragments, with a ping between them. -/
theorem run_receives_fragments :
    ∃ r, (Reader.start ⟨[[0x01, 1, 72, 0x89], [0, 0x80], [1, 105]], .closed⟩).run 3 = .ok (r, false) ∧
      messages r.log = [(TEXT, [72, 105])] ∧ others r.log = [.onPing (some []), .sent PONG []] := by
  let f₁ : Frame := ⟨false, TEXT, [72], by decide, by decide⟩
  let f₂ : Frame := ⟨true, PING, [], by decide, by decide⟩
  let f₃ : Frame := ⟨true, CONTINUATION, [105], by decide, by decide⟩
  have henc : Encoded [f₁, f₂, f₃] [[0x01, 1, 72], [0x89, 0], [0x80, 1, 105]] :=
    .cons ⟨none, _, _, .short (by decide), by decide⟩ (.cons ⟨none, _, _, .short (by decide), by decide⟩
      (.cons ⟨none, _, _, .short (by decide), by decide⟩ .nil))
  have hmsgs : Assembles [f₁, f₂, f₃] [(TEXT, [72, 105])] none := by
    refine ⟨[[f₁, f₃]], [], rfl, .cons ⟨⟨?_, rfl, by decide, ?_, rfl⟩, [f₁], f₃, rfl, rfl, ?_⟩ .nil, rfl⟩
    · simp [f₁, f₃]
      decide
    · simp [f₃]
    · simp [f₁]
  have hconn : Conn.Holds ⟨[[0x01, 1, 72, 0x89], [0, 0x80], [1, 105]], .closed⟩
      ([[0x01, 1, 72], [0x89, 0], [0x80, 1, 105]].flatten ++ []) := ⟨by decide, by decide⟩
  obtain ⟨r, hrun, -, hm, ho, -⟩ :=
    (run_receives (by simp [f₁, f₂, f₃]) henc hconn).1 _ _ hmsgs
  exact ⟨r, hrun, hm, ho⟩

end Levent.WebSocket
