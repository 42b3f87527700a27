/-
  Coroutines that send on one connection: `ws:send`, `ws:close` and `write` of
  `http/websocket.lua`, `Socket:sendall`, `Socket:_send` and `_wait` of
  `socket.lua`, and the write watcher that they all wait for.

  A coroutine gives up control inside `_wait` only.  What a call has to do is kept
  in its `Job`; the numbers of the calls and `returned` are records, and nothing
  that is computed depends on them.
-/
import Levent.WebSocket.Receive
import Levent.Runtime.State
import Levent.Lib.Run
import Mathlib.Data.List.Chain

namespace Levent.WebSocket

open Lib (Lua Along run packI)

/-! ## The senders -/

/-- The call number `id` of `ws:send`, and the strings that `write` gives to
    `conn:sendall`. -/
structure Send where
  id : ℕ
  opcode : ℕ
  payload : List UInt8
  strs : List (List UInt8)
  deriving DecidableEq

/-- A string of a call, which is a frame. -/
abbrev FrameId := Send × ℕ

def FrameId.str (x : FrameId) : List UInt8 := x.1.strs.getD x.2 []

/-- The locals of a call: `conn:sendall` is called with the `index`-th string, of
    which `sent` bytes are out; `ws:close` closes the connection afterwards. -/
structure Job where
  call : Send
  index : ℕ
  sent : ℕ
  closes : Bool
  deriving DecidableEq

def Job.frame (j : Job) : FrameId := (j.call, j.index)

/-- A `ws` (`opened` if `self.conn` is not nil) and its socket; `cb` is the
    coroutine that the write watcher wakes, `cur` the one that runs in a call. -/
structure Senders where
  mask : Bool
  timeout : Option ℤ
  opened : Bool
  cb : Option Co
  cur : Option Co
  job : Co → Option Job
  calls : ℕ
  returned : List Send
  wire : List UInt8

def Senders.init (mask : Bool) (timeout : Option ℤ) : Senders :=
  ⟨mask, timeout, true, none, none, fun _ => none, 0, [], []⟩

namespace Senders

variable (s : Senders)

def setJob (c : Co) (j : Option Job) : Senders := { s with job := Function.update s.job c j }

/-- `ws:send` in `c`, which may be that of `ws:close`; it raises if `self.conn` is
    nil, and if `write` does. -/
def send (c : Co) (opcode : ℕ) (payload : List UInt8) (rand : ℕ → UInt32) (closes : Bool) : Senders :=
  if s.opened then
    match write opcode payload s.mask rand with
    | .ok strs =>
      { s.setJob c (some ⟨⟨s.calls, opcode, payload, strs⟩, 0, 0, closes⟩) with
        calls := s.calls + 1
        cur := some c }
    | .error _ => s
  else s

/-- `conn:sendall` has returned, with what it sent and maybe an error: `write` goes
    on with the next string, at the end `ws:send` returns. -/
def returns (c : Co) (j : Job) : Senders :=
  if j.index + 1 < j.call.strs.length then
    s.setJob c (some { j with index := j.index + 1, sent := 0 })
  else
    { s.setJob c none with
      cur := none
      returned := s.returned ++ [j.call]
      opened := s.opened && !j.closes }

/-- `Socket:_need_block` -/
def _needBlock (err : Errno) : Bool :=
  s.timeout ≠ some 0 && (err = .EWOULDBLOCK || err = .EAGAIN)

/-- `_wait`, whose errors are caught: the assertion of `Watcher:start` fails if the
    watcher has a callback. -/
def _wait (c : Co) (j : Job) : Senders :=
  match s.cb with
  | none => { s with cb := some c, cur := none }
  | some _ => s.returns c j

/-- The kernel takes `n` bytes: the loop of `Socket:sendall`. -/
def accepted (c : Co) (j : Job) (n : ℕ) : Senders :=
  let data := j.frame.str
  let s := { s with wire := s.wire ++ (data.drop j.sent).take n }
  if j.sent + n < data.length then s.setJob c (some { j with sent := j.sent + n })
  else s.returns c j

/-- The kernel takes none: `Socket:_send`. -/
def refused (c : Co) (j : Job) (err : Errno) : Senders :=
  if s._needBlock err then s._wait c j else s.returns c j

end Senders

/-- A call begins in a coroutine; the answer of the kernel to the one that runs:
    some of the bytes, or an error; the write watcher fires; an exception is
    thrown at the one that waits: its timeout expires, it is killed, or
    `Socket:close` cancels the wait. -/
inductive Act where
  | send (c : Co) (opcode : ℕ) (payload : List UInt8) (rand : ℕ → UInt32)
  | close (c : Co) (code : Option ℕ) (reason : Option (List UInt8)) (rand : ℕ → UInt32)
  | sys (r : Except Errno ℕ)
  | wake
  | throw

/-- One step; `none` if the action is not possible. -/
def Senders.step (s : Senders) (a : Act) : Option Senders :=
  match a, s.cur, s.cb with
  | .send c opcode payload rand, none, _ =>
    if (s.job c).isNone then some (s.send c opcode payload rand false) else none
  | .close c code reason rand, none, _ =>
    if (s.job c).isNone then
      match encodeCloseMsg (code.getD CLOSE_NORMAL) reason with
      | .ok closeMsg => some (s.send c CLOSE closeMsg rand true)
      | .error _ => some s
    else none
  | .sys r, some c, _ =>
    match s.job c, r with
    | some j, .ok n =>
      -- the kernel takes one byte at least, and none for a closed socket
      if s.opened ∧ 0 < n ∧ j.sent + n ≤ j.frame.str.length then some (s.accepted c j n) else none
    | some j, .error err => if s.opened ∨ err = .EBADF then some (s.refused c j err) else none
    | none, _ => none
  | .wake, none, some c => some { s with cb := none, cur := some c }
  | .throw, none, some c =>
    (s.job c).map fun j => { s with cb := none, cur := some c }.returns c j
  | _, _, _ => none

/-! ## Frames that are written -/

/-- The frames of a call are data frames. -/
def Send.data (m : Send) : Bool := !isControl m.opcode

/-- The strings are the frames of the message. -/
def Send.Written (m : Send) : Prop :=
  ∀ msg : Message, msg.opcode = m.opcode → msg.payload = m.payload → Encoded msg.frames m.strs

/-- `y` may come after `x` among the data frames: it is the next frame of the same
    message, or the first one of another after the last one of the message. -/
def FrameId.Follows (x y : FrameId) : Prop :=
  y = (x.1, x.2 + 1) ∨ x.2 + 1 = x.1.strs.length ∧ y.2 = 0

def dataFrames (xs : List FrameId) : List FrameId := xs.filter fun x => x.1.data

/-- Frames of messages, each at most once, and no data frame of a message between
    two of another one. -/
structure InOrder (xs : List FrameId) : Prop where
  frame : ∀ x ∈ xs, x.1.Written ∧ x.2 < x.1.strs.length
  once : xs.Nodup
  first : ∀ x ∈ (dataFrames xs).head?, x.2 = 0
  chain : (dataFrames xs).IsChain FrameId.Follows

/-- The frames `ws` are on the wire, and after them the beginning of the one of
    `part`, if any. -/
structure Senders.OnWire (s : Senders) (ws : List FrameId) (part : Option (FrameId × ℕ)) : Prop where
  wire : s.wire = (ws.map FrameId.str).flatten ++ (part.map fun y => y.1.str.take y.2).getD []
  order : InOrder (ws ++ (part.map Prod.fst).toList)
  whole : ∀ m ∈ s.returned, ∀ i < m.strs.length, (m, i) ∈ ws

/-- **What concurrent senders promise**: there are whole frames on the wire, and
    part of one more at most; no data frame of one message is between two of
    another, and the frames of a call that has returned are among them. -/
def Senders.Sound (s : Senders) : Prop := ∃ ws part, s.OnWire ws part

/-- The number of frames that the call of `j` has begun to send. -/
def Job.begun (j : Job) : ℕ := if 0 < j.sent then j.index + 1 else j.index

/-- The bytes of `c` do not get between those of another sender: no other frame is
    on the wire in part, and for a data frame no other message. -/
def Senders.Alone (s : Senders) (c : Co) (j : Job) : Prop :=
  ∀ c' j', c' ≠ c → s.job c' = some j' →
    j'.sent = 0 ∧ (j.call.data → j'.call.data → j'.begun = 0)

/-- The condition on a step: bytes are taken from a sender that is alone; when no
    bytes are taken, the sender may wait and nobody else does; no wait ends with
    an exception. -/
def Senders.Clear (s : Senders) : Act → Prop
  | .sys (.ok _) => ∀ c j, s.cur = some c → s.job c = some j → s.Alone c j
  | .sys (.error err) => s._needBlock err ∧ s.cb = none
  | .throw => False
  | .send .. | .close .. | .wake => True

/-! ## The strings of a call -/

variable {s s' : Senders} {c c' : Co} {j j' : Job} {m m' : Send} {xs ws : List FrameId} {i b n : ℕ}
  {strs : List (List UInt8)} {opcode : ℕ} {payload : List UInt8} {mask : Bool} {rand : ℕ → UInt32}
  {a : Act} {as : List Act}

theorem writeFrame_ne_nil {mask : Option UInt32} {notFin : Bool} {bs : List UInt8}
    (h : writeFrame opcode payload mask notFin = .ok bs) : bs ≠ [] := by
  have hpack : ∀ {k : ℕ} {l r : List UInt8}, packI 2 2 k = .ok l → l ++ r ≠ [] := by
    intro k l r hl
    obtain ⟨-, rfl⟩ := Lib.packI_ok hl
    exact List.append_ne_nil_of_left_ne_nil
      (List.ne_nil_of_length_pos (by rw [Lib.toBytes_length]; decide)) r
  rw [writeFrame] at h
  simp only at h
  split at h
  · obtain ⟨head, hhead, h⟩ := Lib.bind_eq_ok.1 h
    obtain rfl := Except.ok.inj h
    exact hpack hhead
  · split at h
    all_goals
      obtain ⟨l, hl, h⟩ := Lib.bind_eq_ok.1 h
      obtain ⟨l', -, h⟩ := Lib.bind_eq_ok.1 h
      obtain ⟨head, hhead, h⟩ := Lib.bind_eq_ok.1 h
      obtain rfl := Except.ok.inj hhead
      obtain rfl := Except.ok.inj h
      rw [List.append_assoc]
      exact hpack hl

theorem mapM_ok {α : Type} {w : α → Lua (List UInt8)} {l : List α} (h : l.mapM w = .ok strs) :
    strs.length = l.length ∧ ∀ bs ∈ strs, ∃ x, w x = .ok bs := by
  induction l generalizing strs with
  | nil =>
    obtain rfl := Except.ok.inj h
    exact ⟨rfl, nofun⟩
  | cons x l ih =>
    rw [List.mapM_cons] at h
    obtain ⟨bs, hx, h⟩ := Lib.bind_eq_ok.1 h
    obtain ⟨bss, hl, h⟩ := Lib.bind_eq_ok.1 h
    obtain rfl := Except.ok.inj h
    obtain ⟨hlen, hall⟩ := ih hl
    refine ⟨congrArg (· + 1) hlen, fun bs' hbs' => ?_⟩
    rcases List.mem_cons.1 hbs' with rfl | hbs'
    · exact ⟨x, hx⟩
    · exact hall bs' hbs'

/-- `write` gives `conn:sendall` a string at least, and no empty one. -/
theorem write_strs (h : write opcode payload mask rand = .ok strs) :
    strs ≠ [] ∧ ∀ bs ∈ strs, bs ≠ [] := by
  rw [write] at h
  simp only at h
  split at h
  · rename_i hlong
    obtain ⟨hlen, hall⟩ := mapM_ok h
    constructor
    · rintro rfl
      rw [List.length_range, List.length_nil] at hlen
      have hpos : 0 < pieces payload.length := lt_pieces_iff.2 (by omega)
      exact absurd hlen hpos.ne
    · intro bs hbs
      obtain ⟨i, hi⟩ := hall bs hbs
      exact writeFrame_ne_nil hi
  · obtain ⟨bs, hbs, h⟩ := Lib.bind_eq_ok.1 h
    obtain rfl := Except.ok.inj h
    refine ⟨List.cons_ne_nil _ _, fun x hx => ?_⟩
    obtain rfl := List.mem_singleton.1 hx
    exact writeFrame_ne_nil hbs

theorem written (h : write opcode payload mask rand = .ok strs) (id : ℕ) :
    Send.Written ⟨id, opcode, payload, strs⟩ := by
  rintro msg rfl rfl
  obtain ⟨bss, hw, henc⟩ := write_encodes msg mask rand
  rw [h] at hw
  cases hw
  exact henc

/-! ## The order of the frames -/

/-- Of the frames of `m`, the first `b` are in `xs`; no other data frame comes after
    them if they are data frames. -/
structure Begun (xs : List FrameId) (m : Send) (b : ℕ) : Prop where
  mem : ∀ i, (m, i) ∈ xs ↔ i < b
  last : m.data → 0 < b → (dataFrames xs).getLast? = some (m, b - 1)

theorem dataFrames_data (xs : List FrameId) (hd : m.data = true) :
    dataFrames (xs ++ [(m, i)]) = dataFrames xs ++ [(m, i)] := by
  simp [dataFrames, hd]

theorem dataFrames_control (xs : List FrameId) (hd : m.data = false) :
    dataFrames (xs ++ [(m, i)]) = dataFrames xs := by
  simp [dataFrames, hd]

/-- **A frame begins**: the next one of its message, or the first one when no other
    message has begun and not ended. -/
theorem InOrder.begin (h : InOrder xs) (hb : Begun xs m i) (hm : m.Written) (hi : i < m.strs.length)
    (hd : m.data → i = 0 → ∀ x ∈ (dataFrames xs).getLast?, x.2 + 1 = x.1.strs.length) :
    InOrder (xs ++ [(m, i)]) ∧ Begun (xs ++ [(m, i)]) m (i + 1) := by
  have hnew : (m, i) ∉ xs := fun hx => absurd ((hb.mem i).1 hx) (Nat.lt_irrefl i)
  have hfollows : m.data → ∀ x ∈ (dataFrames xs).getLast?, FrameId.Follows x (m, i) := by
    intro hdata x hx
    rcases Nat.eq_zero_or_pos i with rfl | hpos
    · exact Or.inr ⟨hd hdata rfl x hx, rfl⟩
    · rw [hb.last hdata hpos] at hx
      obtain rfl := Option.some.inj hx
      exact Or.inl (by rw [Nat.sub_add_cancel hpos])
  have hzero : m.data → dataFrames xs = [] → i = 0 := by
    intro hdata hnil
    by_contra hi
    have hlast := hb.last hdata (Nat.pos_of_ne_zero hi)
    rw [hnil] at hlast
    cases hlast
  refine ⟨⟨?_, ?_, ?_, ?_⟩, ?_, ?_⟩
  · intro x hx
    rcases List.mem_append.1 hx with hx | hx
    · exact h.frame x hx
    · obtain rfl := List.mem_singleton.1 hx
      exact ⟨hm, hi⟩
  · exact List.nodup_append.2 ⟨h.once, List.nodup_singleton _, by
      rintro x hx y hy rfl
      obtain rfl := List.mem_singleton.1 hy
      exact hnew hx⟩
  · cases hdata : m.data with
    | false => rw [dataFrames_control xs hdata]; exact h.first
    | true =>
      rw [dataFrames_data xs hdata]
      intro x hx
      cases hxs : dataFrames xs with
      | nil =>
        rw [hxs] at hx
        obtain rfl := Option.some.inj hx
        exact hzero hdata hxs
      | cons y ys =>
        rw [hxs] at hx
        exact h.first x (by rw [hxs]; exact hx)
  · cases hdata : m.data with
    | false => rw [dataFrames_control xs hdata]; exact h.chain
    | true =>
      rw [dataFrames_data xs hdata]
      refine h.chain.append (List.isChain_singleton _) fun x hx y hy => ?_
      obtain rfl := Option.some.inj hy
      exact hfollows hdata x hx
  · intro i'
    rw [List.mem_append, List.mem_singleton, hb.mem, Nat.lt_succ_iff_lt_or_eq]
    simp
  · intro hdata _
    rw [dataFrames_data xs hdata, List.getLast?_concat, Nat.add_sub_cancel]

/-- The frames of another message, when one of `m` begins. -/
theorem Begun.other (hb : Begun xs m' b) (hne : m' ≠ m) (hd : m.data → m'.data → b = 0) :
    Begun (xs ++ [(m, i)]) m' b := by
  constructor
  · intro i'
    rw [List.mem_append, List.mem_singleton, hb.mem]
    simp [hne]
  · intro hdata hpos
    cases hm : m.data with
    | false => rw [dataFrames_control xs hm]; exact hb.last hdata hpos
    | true => exact absurd (hd hm hdata) hpos.ne'

/-! ## The invariant -/

/-- The call `m` has begun, and has not returned. -/
structure Senders.Open (s : Senders) (m : Send) : Prop where
  known : m.id < s.calls
  fresh : m ∉ s.returned
  written : m.Written
  ne_nil : ∀ bs ∈ m.strs, bs ≠ []

/-- What is known of a call that is going on, when the frames `xs` have begun. -/
structure Senders.Calls (s : Senders) (xs : List FrameId) (j : Job) : Prop where
  call : s.Open j.call
  index : j.index < j.call.strs.length
  sent : j.sent < j.frame.str.length
  begun : Begun xs j.call j.begun

/-- The bytes of the frames `xs` are on the wire, those of the last one up to what
    its call has sent. -/
def Senders.Wire (s : Senders) (xs : List FrameId) : Prop :=
  (s.wire = (xs.map FrameId.str).flatten ∧ ∀ c j, s.job c = some j → j.sent = 0) ∨
    ∃ c j ws, s.job c = some j ∧ 0 < j.sent ∧ xs = ws ++ [j.frame] ∧
      s.wire = (ws.map FrameId.str).flatten ++ j.frame.str.take j.sent ∧
      ∀ c' j', c' ≠ c → s.job c' = some j' → j'.sent = 0

/-- The invariant: the frames `xs` have begun, in this order. -/
structure Senders.Inv (s : Senders) (xs : List FrameId) : Prop where
  order : InOrder xs
  known : ∀ x ∈ xs, x.1.id < s.calls
  jobs : ∀ c j, s.job c = some j → s.Calls xs j
  inj : ∀ c c' j j', s.job c = some j → s.job c' = some j' → j.call = j'.call → c = c'
  complete : ∀ x ∈ (dataFrames xs).getLast?, x.2 + 1 = x.1.strs.length ∨
    ∃ c j, s.job c = some j ∧ j.call = x.1
  returned : ∀ m ∈ s.returned, m.id < s.calls ∧ ∀ i < m.strs.length, (m, i) ∈ xs
  wire : s.Wire xs

theorem Senders.Inv.sound (h : s.Inv xs) : s.Sound := by
  rcases h.wire with ⟨hw, -⟩ | ⟨c, j, ws, hj, -, rfl, hw, -⟩
  · exact ⟨xs, none, by rw [hw]; exact (List.append_nil _).symm,
      by rw [Option.map_none, Option.toList_none, List.append_nil]; exact h.order,
      fun m hm => (h.returned m hm).2⟩
  · refine ⟨ws, some (j.frame, j.sent), hw, h.order, fun m hm i hi => ?_⟩
    rcases List.mem_append.1 ((h.returned m hm).2 i hi) with hx | hx
    · exact hx
    · cases List.mem_singleton.1 hx
      exact absurd hm (h.jobs c j hj).call.fresh

/-- The frame of `j` is being sent by `c`: after the frames `ws`, as far as it has
    been sent. -/
structure Senders.Sending (s : Senders) (c : Co) (j : Job) (ws : List FrameId) : Prop where
  job : s.job c = some j
  call : s.Open j.call
  wire : s.wire = (ws.map FrameId.str).flatten ++ j.frame.str.take j.sent
  order : InOrder (ws ++ [j.frame])
  known : ∀ x ∈ ws ++ [j.frame], x.1.id < s.calls
  begun : Begun (ws ++ [j.frame]) j.call (j.index + 1)
  others : ∀ c' j', c' ≠ c → s.job c' = some j' → j'.sent = 0 ∧ s.Calls (ws ++ [j.frame]) j'
  inj : ∀ c c' j j', s.job c = some j → s.job c' = some j' → j.call = j'.call → c = c'
  complete : ∀ x ∈ (dataFrames (ws ++ [j.frame])).getLast?, x.2 + 1 = x.1.strs.length ∨
    ∃ c j, s.job c = some j ∧ j.call = x.1
  returned : ∀ m ∈ s.returned, m.id < s.calls ∧ ∀ i < m.strs.length, (m, i) ∈ ws ++ [j.frame]

/-- **The bytes of a sender that is alone** go on with its frame, or begin it. -/
theorem Senders.Inv.sending (h : s.Inv xs) (hj : s.job c = some j) (ha : s.Alone c j) :
    ∃ ws, s.Sending c j ws := by
  have hcall := h.jobs c j hj
  have hne : ∀ c' j', c' ≠ c → s.job c' = some j' → j'.call ≠ j.call := by
    intro c' j' hc hj' heq
    exact hc (h.inj c' c j' j hj' hj heq)
  rcases Nat.eq_zero_or_pos j.sent with hsent | hsent
  · -- the frame begins
    have hbegun : j.begun = j.index := if_neg (by omega)
    have hb : Begun xs j.call j.index := hbegun ▸ hcall.begun
    have hd : j.call.data → j.index = 0 → ∀ x ∈ (dataFrames xs).getLast?, x.2 + 1 = x.1.strs.length := by
      intro hdata h0 x hx
      refine (h.complete x hx).resolve_right ?_
      rintro ⟨c', j', hj', hx'⟩
      have hmem := List.mem_filter.1 (List.mem_of_getLast? hx)
      have hlt : x.2 < j'.begun := ((h.jobs c' j' hj').begun.mem x.2).1 (by rw [hx']; exact hmem.1)
      by_cases hc : c' = c
      · subst hc
        cases hj.symm.trans hj'
        omega
      · rw [(ha c' j' hc hj').2 hdata (by rw [hx']; exact hmem.2)] at hlt
        omega
    obtain ⟨horder, hb'⟩ := h.order.begin hb hcall.call.written hcall.index hd
    refine ⟨xs, hj, hcall.call, ?_, horder, ?_, hb', ?_, h.inj, ?_, ?_⟩
    · rcases h.wire with ⟨hw, -⟩ | ⟨c', j', ws, hj', hpos, -⟩
      · rw [hw, hsent, List.take_zero, List.append_nil]
      · by_cases hc : c' = c
        · subst hc
          cases hj.symm.trans hj'
          omega
        · exact absurd (ha c' j' hc hj').1 hpos.ne'
    · intro x hx
      rcases List.mem_append.1 hx with hx | hx
      · exact h.known x hx
      · obtain rfl := List.mem_singleton.1 hx
        exact hcall.call.known
    · intro c' j' hc hj'
      obtain ⟨h0, hdata⟩ := ha c' j' hc hj'
      exact ⟨h0, { h.jobs c' j' hj' with begun := (h.jobs c' j' hj').begun.other (hne c' j' hc hj') hdata }⟩
    · intro x hx
      cases hdata : j.call.data with
      | false =>
        rw [Job.frame, dataFrames_control xs hdata] at hx
        exact h.complete x hx
      | true =>
        rw [Job.frame, dataFrames_data xs hdata, List.getLast?_concat] at hx
        obtain rfl := Option.some.inj hx
        exact Or.inr ⟨c, j, hj, rfl⟩
    · intro m hm
      exact ⟨(h.returned m hm).1, fun i hi => List.mem_append_left _ ((h.returned m hm).2 i hi)⟩
  · -- the frame has begun
    have hbegun : j.begun = j.index + 1 := if_pos hsent
    rcases h.wire with ⟨-, h0⟩ | ⟨c', j', ws, hj', hpos, rfl, hw, hothers⟩
    · exact absurd (h0 c j hj) hsent.ne'
    · by_cases hc : c' = c
      · subst hc
        cases hj.symm.trans hj'
        refine ⟨ws, hj, hcall.call, hw, h.order, h.known, hbegun ▸ hcall.begun, ?_, h.inj, h.complete,
          h.returned⟩
        intro c j hc hj
        exact ⟨hothers c j hc hj, h.jobs c j hj⟩
      · exact absurd (ha c' j' hc hj').1 hpos.ne'

theorem job_update {o : Option Job} (h : s'.job = Function.update s.job c o) {k : Job} :
    s'.job c' = some k ↔ c' = c ∧ o = some k ∨ c' ≠ c ∧ s.job c' = some k := by
  by_cases hc : c' = c
  · subst hc
    simp [h]
  · simp [h, hc]

theorem Senders.Open.mono (h : s.Open m) (hcalls : s.calls ≤ s'.calls) (hret : m ∉ s'.returned) :
    s'.Open m := ⟨h.known.trans_le hcalls, hret, h.written, h.ne_nil⟩

/-- The call of the frame goes on: the frame is sent in part, or it is the turn of
    the next one. -/
theorem Senders.Sending.goes (h : s.Sending c j ws) (hcall : j'.call = j.call)
    (hbegun : j'.begun = j.index + 1) (hindex : j'.index < j'.call.strs.length)
    (hsent : j'.sent < j'.frame.str.length) (hjob : s'.job = Function.update s.job c (some j'))
    (hcalls : s'.calls = s.calls) (hret : s'.returned = s.returned) (hwire : s'.Wire (ws ++ [j.frame])) :
    s'.Inv (ws ++ [j.frame]) := by
  have hopen : ∀ {m}, s.Open m → s'.Open m := fun hm => hm.mono hcalls.ge (hret ▸ hm.fresh)
  refine ⟨h.order, hcalls ▸ h.known, ?_, ?_, ?_, ?_, hwire⟩
  · intro c' k hk
    rcases (job_update hjob).1 hk with ⟨-, hk⟩ | ⟨hc, hk⟩
    · obtain rfl := Option.some.inj hk
      exact ⟨hcall ▸ hopen h.call, hindex, hsent, by rw [hcall, hbegun]; exact h.begun⟩
    · obtain ⟨-, hcalls'⟩ := h.others c' k hc hk
      exact { hcalls' with call := hopen hcalls'.call }
  · intro c₁ c₂ k₁ k₂ hk₁ hk₂ heq
    rcases (job_update hjob).1 hk₁ with ⟨rfl, hk₁⟩ | ⟨hc₁, hk₁⟩
    · rcases (job_update hjob).1 hk₂ with ⟨rfl, -⟩ | ⟨hc₂, hk₂⟩
      · rfl
      · obtain rfl := Option.some.inj hk₁
        exact h.inj _ _ _ _ h.job hk₂ (hcall.symm.trans heq)
    · rcases (job_update hjob).1 hk₂ with ⟨rfl, hk₂⟩ | ⟨hc₂, hk₂⟩
      · obtain rfl := Option.some.inj hk₂
        exact h.inj _ _ _ _ hk₁ h.job (heq.trans hcall)
      · exact h.inj _ _ _ _ hk₁ hk₂ heq
  · intro x hx
    refine (h.complete x hx).imp_right ?_
    rintro ⟨c', k, hk, hkx⟩
    by_cases hc : c' = c
    · subst hc
      cases h.job.symm.trans hk
      exact ⟨c', j', (job_update hjob).2 (Or.inl ⟨rfl, rfl⟩), hcall.trans hkx⟩
    · exact ⟨c', k, (job_update hjob).2 (Or.inr ⟨hc, hk⟩), hkx⟩
  · rw [hcalls, hret]
    exact h.returned

/-- The call of the frame returns. -/
theorem Senders.Sending.ends (h : s.Sending c j ws) (hindex : j.index + 1 = j.call.strs.length)
    (hjob : s'.job = Function.update s.job c none) (hcalls : s'.calls = s.calls)
    (hret : s'.returned = s.returned ++ [j.call]) (hwire : s'.Wire (ws ++ [j.frame])) :
    s'.Inv (ws ++ [j.frame]) := by
  have hother : ∀ {c' k}, s'.job c' = some k → c' ≠ c ∧ s.job c' = some k := by
    intro c' k hk
    rcases (job_update hjob).1 hk with ⟨-, hk⟩ | hk
    · cases hk
    · exact hk
  refine ⟨h.order, hcalls ▸ h.known, ?_, ?_, ?_, ?_, hwire⟩
  · intro c' k hk
    obtain ⟨hc, hk⟩ := hother hk
    obtain ⟨-, hcalls'⟩ := h.others c' k hc hk
    have hne : k.call ≠ j.call := fun heq => hc (h.inj _ _ _ _ hk h.job heq)
    refine { hcalls' with call := hcalls'.call.mono hcalls.ge ?_ }
    rw [hret, List.mem_append, List.mem_singleton]
    rintro (hm | hm)
    · exact hcalls'.call.fresh hm
    · exact hne hm
  · intro c₁ c₂ k₁ k₂ hk₁ hk₂ heq
    exact h.inj _ _ _ _ (hother hk₁).2 (hother hk₂).2 heq
  · intro x hx
    rcases h.complete x hx with hlast | ⟨c', k, hk, hkx⟩
    · exact Or.inl hlast
    · by_cases hc : c' = c
      · -- the last data frame is that of the call
        subst hc
        cases h.job.symm.trans hk
        have hdata : j.call.data := by
          rw [hkx]
          exact (List.mem_filter.1 (List.mem_of_getLast? hx)).2
        rw [h.begun.last hdata (Nat.succ_pos _)] at hx
        obtain rfl := Option.some.inj hx
        exact Or.inl hindex
      · exact Or.inr ⟨c', k, (job_update hjob).2 (Or.inr ⟨hc, hk⟩), hkx⟩
  · intro m hm
    rw [hret, List.mem_append, List.mem_singleton] at hm
    rw [hcalls]
    rcases hm with hm | rfl
    · exact h.returned m hm
    · exact ⟨h.call.known, fun i hi => (h.begun.mem i).2 (by omega)⟩

/-! ## Steps -/

theorem str_pos (hne : ∀ bs ∈ m.strs, bs ≠ []) (hi : i < m.strs.length) :
    0 < (FrameId.str (m, i)).length := by
  rw [FrameId.str, List.getD_eq_getElem _ _ hi]
  exact List.length_pos_of_ne_nil (hne _ (List.getElem_mem hi))

theorem Senders.Inv.accepted (h : s.Inv xs) (hj : s.job c = some j) (ha : s.Alone c j) (hn : 0 < n)
    (hle : j.sent + n ≤ j.frame.str.length) : ∃ xs, (s.accepted c j n).Inv xs := by
  obtain ⟨ws, hs⟩ := h.sending hj ha
  have hindex := (h.jobs c j hj).index
  have hwire : s.wire ++ (j.frame.str.drop j.sent).take n =
      (ws.map FrameId.str).flatten ++ j.frame.str.take (j.sent + n) := by
    rw [hs.wire, List.append_assoc, ← List.take_add]
  rw [Senders.accepted]
  split
  · rename_i hlt
    refine ⟨ws ++ [j.frame], hs.goes ?_ ?_ ?_ ?_ rfl rfl rfl ?_⟩
    · rfl
    · exact if_pos (by omega : 0 < j.sent + n)
    · exact hindex
    · exact hlt
    · refine Or.inr ⟨c, _, ws, Function.update_self .., ?_, rfl, hwire, ?_⟩
      · exact Nat.add_pos_right _ hn
      · intro c' j' hc hj'
        rcases (job_update rfl).1 hj' with ⟨hc', -⟩ | ⟨-, hj'⟩
        · exact absurd hc' hc
        · exact (hs.others c' j' hc hj').1
  · -- the frame is out
    rename_i hge
    have hall : s.wire ++ (j.frame.str.drop j.sent).take n =
        ((ws ++ [j.frame]).map FrameId.str).flatten := by
      rw [hwire, List.take_of_length_le (by omega)]
      simp
    rw [Senders.returns]
    split
    · rename_i hnext
      refine ⟨ws ++ [j.frame], hs.goes ?_ ?_ ?_ ?_ rfl rfl rfl (Or.inl ⟨hall, ?_⟩)⟩
      · rfl
      · rfl
      · exact hnext
      · exact str_pos hs.call.ne_nil hnext
      · intro c' j' hj'
        rcases (job_update rfl).1 hj' with ⟨-, hj'⟩ | ⟨hc, hj'⟩
        · cases hj'
          rfl
        · exact (hs.others c' j' hc hj').1
    · rename_i hlast
      refine ⟨ws ++ [j.frame], hs.ends (by omega) rfl rfl rfl (Or.inl ⟨hall, ?_⟩)⟩
      intro c' j' hj'
      rcases (job_update rfl).1 hj' with ⟨-, hj'⟩ | ⟨hc, hj'⟩
      · cases hj'
      · exact (hs.others c' j' hc hj').1

/-- A call begins. -/
theorem Senders.Inv.send (h : s.Inv xs) (hc : s.job c = none) (closes : Bool) :
    (s.send c opcode payload rand closes).Inv xs := by
  rw [Senders.send]
  split
  · split
    · rename_i strs hw
      obtain ⟨hpos, hne⟩ := write_strs hw
      have hpos := List.length_pos_of_ne_nil hpos
      have hjob : (s.setJob c (some ⟨⟨s.calls, opcode, payload, strs⟩, 0, 0, closes⟩)).job =
        Function.update s.job c (some ⟨⟨s.calls, opcode, payload, strs⟩, 0, 0, closes⟩) := rfl
      refine ⟨h.order, ?_, ?_, ?_, ?_, ?_, ?_⟩
      · intro x hx
        exact Nat.lt_succ_of_lt (h.known x hx)
      · intro c' j' hj'
        rcases (job_update hjob).1 hj' with ⟨-, hj'⟩ | ⟨hc', hj'⟩
        · obtain rfl := Option.some.inj hj'
          refine ⟨⟨Nat.lt_succ_self _, ?_, written hw _, hne⟩, hpos, str_pos hne hpos, ?_, nofun⟩
          · intro hm
            exact absurd (h.returned _ hm).1 (Nat.lt_irrefl _)
          · intro i
            refine iff_of_false ?_ (Nat.not_lt_zero i)
            intro hx
            exact absurd (h.known _ hx) (Nat.lt_irrefl _)
        · have hcalls := h.jobs c' j' hj'
          exact { hcalls with call := hcalls.call.mono (Nat.le_succ _) hcalls.call.fresh }
      · -- its number is new
        have hnew : ∀ c' j', s.job c' = some j' → j'.call.id ≠ s.calls := fun c' j' hj' =>
          (h.jobs c' j' hj').call.known.ne
        intro c₁ c₂ j₁ j₂ hj₁ hj₂ heq
        rcases (job_update hjob).1 hj₁ with ⟨rfl, hn₁⟩ | ⟨hc₁, hn₁⟩
        · rcases (job_update hjob).1 hj₂ with ⟨rfl, -⟩ | ⟨hc₂, hn₂⟩
          · rfl
          · obtain rfl := Option.some.inj hn₁
            exact absurd (congrArg Send.id heq).symm (hnew c₂ j₂ hn₂)
        · rcases (job_update hjob).1 hj₂ with ⟨rfl, hn₂⟩ | ⟨hc₂, hn₂⟩
          · obtain rfl := Option.some.inj hn₂
            exact absurd (congrArg Send.id heq) (hnew c₁ j₁ hn₁)
          · exact h.inj _ _ _ _ hn₁ hn₂ heq
      · intro x hx
        refine (h.complete x hx).imp_right ?_
        rintro ⟨c', j', hj', hx'⟩
        have hc' : c' ≠ c := by
          rintro rfl
          rw [hc] at hj'
          cases hj'
        exact ⟨c', j', (job_update hjob).2 (Or.inr ⟨hc', hj'⟩), hx'⟩
      · intro m hm
        exact ⟨Nat.lt_succ_of_lt (h.returned m hm).1, (h.returned m hm).2⟩
      · rcases h.wire with ⟨hwire, h0⟩ | ⟨c', j', ws, hj', hpos, hxs, hwire, hothers⟩
        · refine Or.inl ⟨hwire, fun c' j' hj' => ?_⟩
          rcases (job_update hjob).1 hj' with ⟨-, hj'⟩ | ⟨-, hj'⟩
          · obtain rfl := Option.some.inj hj'
            rfl
          · exact h0 c' j' hj'
        · have hc' : c' ≠ c := by
            rintro rfl
            rw [hc] at hj'
            cases hj'
          refine Or.inr ⟨c', j', ws, (job_update hjob).2 (Or.inr ⟨hc', hj'⟩), hpos, hxs, hwire, ?_⟩
          intro c₁ j₁ hc₁ hj₁
          rcases (job_update hjob).1 hj₁ with ⟨-, hj₁⟩ | ⟨-, hj₁⟩
          · obtain rfl := Option.some.inj hj₁
            rfl
          · exact hothers c₁ j₁ hc₁ hj₁
    · exact h
  · exact h

theorem Senders.Inv.switch (h : s.Inv xs) (cb cur : Option Co) : { s with cb, cur }.Inv xs := by
  refine ⟨h.order, h.known, ?_, h.inj, h.complete, h.returned, h.wire⟩
  intro c j hj
  have hcalls := h.jobs c j hj
  exact { hcalls with call := hcalls.call.mono le_rfl hcalls.call.fresh }

/-- What a step can do. -/
inductive Senders.Steps (s : Senders) : Act → Senders → Prop
  | send (c : Co) (opcode : ℕ) (payload : List UInt8) (rand : ℕ → UInt32) :
      s.cur = none → s.job c = none →
      Steps s (.send c opcode payload rand) (s.send c opcode payload rand false)
  | close (c : Co) (code : Option ℕ) (reason : Option (List UInt8)) (rand : ℕ → UInt32)
      (closeMsg : List UInt8) : s.cur = none → s.job c = none →
      Steps s (.close c code reason rand) (s.send c CLOSE closeMsg rand true)
  | raises (c : Co) (code : Option ℕ) (reason : Option (List UInt8)) (rand : ℕ → UInt32) :
      Steps s (.close c code reason rand) s
  | accepted (c : Co) (j : Job) (n : ℕ) : s.cur = some c → s.job c = some j → 0 < n →
      j.sent + n ≤ j.frame.str.length → Steps s (.sys (.ok n)) (s.accepted c j n)
  | refused (c : Co) (j : Job) (err : Errno) : s.cur = some c → s.job c = some j →
      Steps s (.sys (.error err)) (s.refused c j err)
  | wake (c : Co) : s.cur = none → s.cb = some c → Steps s .wake { s with cb := none, cur := some c }
  | throw (c : Co) (j : Job) : s.cur = none → s.cb = some c → s.job c = some j →
      Steps s .throw ({ s with cb := none, cur := some c }.returns c j)

theorem step_steps (h : s.step a = some s') : s.Steps a s' := by
  unfold Senders.step at h
  split at h
  · rename_i c opcode payload rand hcur
    split at h
    · rename_i hc
      cases h
      exact .send c opcode payload rand hcur (Option.isNone_iff_eq_none.1 hc)
    · cases h
  · rename_i c code reason rand hcur
    split at h
    · rename_i hc
      split at h
      · cases h
        exact .close c code reason rand _ hcur (Option.isNone_iff_eq_none.1 hc)
      · cases h
        exact .raises c code reason rand
    · cases h
  · rename_i r c hcur
    split at h
    · rename_i j n hj
      split at h
      · rename_i hok
        cases h
        exact .accepted c j n hcur hj hok.2.1 hok.2.2
      · cases h
    · rename_i j err hj
      split at h
      · cases h
        exact .refused c j err hcur hj
      · cases h
    · cases h
  · rename_i c hcur hcb
    cases h
    exact .wake c hcur hcb
  · rename_i c hcur hcb
    obtain ⟨j, hj, rfl⟩ := Option.map_eq_some_iff.1 h
    exact .throw c j hcur hcb hj
  · cases h

/-- **One step** of the senders. -/
theorem Senders.Inv.next (h : s.Inv xs) (hc : s.Clear a) (hstep : s.step a = some s') :
    ∃ xs, s'.Inv xs := by
  cases step_steps hstep with
  | send c opcode payload rand hcur hj => exact ⟨xs, h.send hj false⟩
  | close c code reason rand closeMsg hcur hj => exact ⟨xs, h.send hj true⟩
  | raises => exact ⟨xs, h⟩
  | accepted c j n hcur hj hn hle => exact h.accepted hj (hc c j hcur hj) hn hle
  | refused c j err hcur hj =>
    obtain ⟨hblock, hcb⟩ := hc
    rw [Senders.refused, if_pos hblock, Senders._wait, hcb]
    exact ⟨xs, h.switch (some c) none⟩
  | wake c hcur hcb => exact ⟨xs, h.switch none (some c)⟩
  | throw => exact absurd hc id

/-! ## Runs -/

theorem Senders.init_inv (mask : Bool) (timeout : Option ℤ) : (Senders.init mask timeout).Inv [] where
  order := ⟨nofun, List.nodup_nil, nofun, List.isChain_nil⟩
  known := nofun
  jobs := nofun
  inj := nofun
  complete := nofun
  returned := nofun
  wire := Or.inl ⟨rfl, nofun⟩

/-- **Concurrent senders**, in the runs that are clear. -/
theorem send_sound {t : Senders} {timeout : Option ℤ}
    (hrun : run Senders.step (Senders.init mask timeout) as = some t)
    (hA : Along Senders.step Senders.Clear (Senders.init mask timeout) as) : t.Sound := by
  obtain ⟨xs, h⟩ := Lib.run_inv (I := fun s : Senders => ∃ xs, s.Inv xs)
    (fun _ _ _ h hc hstep => h.elim fun _ h => h.next hc hstep)
    ⟨[], Senders.init_inv mask timeout⟩ hA hrun
  exact h.sound

/-! ## One call at a time -/

/-- A call begins only when no other one is going on, and no `conn:sendall` fails. -/
def Senders.InTurn (s : Senders) : Act → Prop
  | .send .. | .close .. => s.cb = none
  | .sys (.error err) => s._needBlock err
  | .throw => False
  | .sys (.ok _) | .wake => True

/-- One call is going on at most. -/
structure Senders.Solo (s : Senders) : Prop where
  one : s.cur = none ∨ s.cb = none
  job : ∀ c, s.job c ≠ none → s.cur = some c ∨ s.cb = some c

theorem Senders.Solo.cb (h : s.Solo) (hcur : s.cur = some c) : s.cb = none :=
  h.one.resolve_left (by rw [hcur]; simp)

/-- The others have no call. -/
theorem Senders.Solo.others (h : s.Solo) (hcur : s.cur = some c) (hc : c' ≠ c) : s.job c' = none := by
  by_contra hj
  rcases h.job c' hj with hc' | hc'
  · exact hc (Option.some.inj (hc'.symm.trans hcur))
  · rw [h.cb hcur] at hc'
    cases hc'

/-- Only `c` may have a call. -/
theorem solo_of {o : Option Job} (hjob : s'.job = Function.update s.job c o)
    (hothers : ∀ c', c' ≠ c → s.job c' = none) (hone : s'.cur = none ∨ s'.cb = none)
    (hc : o = none ∨ s'.cur = some c ∨ s'.cb = some c) : s'.Solo := by
  refine ⟨hone, fun c' hj => ?_⟩
  by_cases hcc : c' = c
  · subst hcc
    rw [hjob, Function.update_self] at hj
    exact hc.resolve_left hj
  · rw [hjob, Function.update_of_ne hcc] at hj
    exact absurd (hothers c' hcc) hj

theorem Senders.Solo.returns (h : s.Solo) (hcur : s.cur = some c) : (s.returns c j).Solo := by
  have hothers : ∀ c', c' ≠ c → s.job c' = none := fun c' hc => h.others hcur hc
  rw [Senders.returns]
  split
  · exact solo_of rfl hothers h.one (Or.inr (Or.inl hcur))
  · exact solo_of rfl hothers (Or.inl rfl) (Or.inl rfl)

theorem Senders.Solo.send (h : s.Solo) (hcur : s.cur = none) (hcb : s.cb = none) (closes : Bool) :
    (s.send c opcode payload rand closes).Solo := by
  have hothers : ∀ c', c' ≠ c → s.job c' = none := by
    intro c' _
    by_contra hj
    have hc := h.job c' hj
    rw [hcur, hcb] at hc
    rcases hc with hc | hc <;> cases hc
  rw [Senders.send]
  split
  · split
    · exact solo_of rfl hothers (Or.inr hcb) (Or.inr (Or.inl rfl))
    · exact h
  · exact h

theorem Senders.Solo.next (h : s.Solo) (hc : s.InTurn a) (hstep : s.step a = some s') : s'.Solo := by
  cases step_steps hstep with
  | send c opcode payload rand hcur hj => exact h.send hcur hc false
  | close c code reason rand closeMsg hcur hj => exact h.send hcur hc true
  | raises => exact h
  | accepted c j n hcur hj hn hle =>
    rw [Senders.accepted]
    split
    · exact solo_of rfl (fun c' hc => h.others hcur hc) h.one (Or.inr (Or.inl hcur))
    · have h' : ({ s with wire := s.wire ++ (j.frame.str.drop j.sent).take n } : Senders).Solo :=
        ⟨h.one, h.job⟩
      exact h'.returns hcur
  | refused c j err hcur hj =>
    have hblock : s._needBlock err = true := hc
    rw [Senders.refused, if_pos hblock, Senders._wait, h.cb hcur]
    exact solo_of (Function.update_eq_self c s.job).symm (fun c' hc => h.others hcur hc) (Or.inl rfl)
      (Or.inr (Or.inr rfl))
  | wake c hcur hcb =>
    refine solo_of (Function.update_eq_self c s.job).symm (fun c' hc => ?_) (Or.inr rfl)
      (Or.inr (Or.inl rfl))
    by_contra hj
    rcases h.job c' hj with hc' | hc'
    · rw [hcur] at hc'
      cases hc'
    · exact hc (Option.some.inj (hc'.symm.trans hcb))
  | throw => exact absurd hc id

theorem Senders.InTurn.clear (hc : s.InTurn a) (h : s.Solo) (hstep : s.step a = some s') :
    s.Clear a := by
  cases step_steps hstep with
  | send | close | raises | wake => trivial
  | accepted c j n hcur hj =>
    intro c₁ j₁ hcur₁ hj₁ c' j' hne hj'
    rw [h.others hcur₁ hne] at hj'
    cases hj'
  | refused c j err hcur hj => exact ⟨hc, h.cb hcur⟩
  | throw => exact hc

/-- **Calls in turn** do no harm to each other. -/
theorem send_inTurn {t : Senders} {timeout : Option ℤ}
    (hrun : run Senders.step (Senders.init mask timeout) as = some t)
    (hA : Along Senders.step Senders.InTurn (Senders.init mask timeout) as) :
    Along Senders.step Senders.Clear (Senders.init mask timeout) as :=
  Along.of_inv (I := Senders.Solo) (fun _ _ _ h hc hstep => ⟨h.next hc hstep, hc.clear h hstep⟩)
    ⟨Or.inl rfl, fun _ h => absurd rfl h⟩ hA hrun

/-- A text is sent with a pong before it, in the time that its sender waits. -/
def pongBetween : List Act :=
  [.send 1 TEXT [72, 105] fun _ => 0, .sys (.error .EAGAIN), .send 2 PONG [3] fun _ => 0, .sys (.ok 3),
    .wake, .sys (.ok 1), .sys (.error .EAGAIN), .wake, .sys (.ok 3)]

theorem send_sound_pongBetween :
    ∃ t, run Senders.step (Senders.init false none) pongBetween = some t ∧
      t.wire = [0x8A, 1, 3, 0x81, 2, 72, 105] ∧ t.returned.length = 2 ∧ t.Sound := by
  have h : run Senders.step (Senders.init false none) pongBetween = some _ := rfl
  refine ⟨_, h, by decide, by decide, send_sound h ?_⟩
  refine .cons trivial rfl (.cons ⟨rfl, rfl⟩ rfl (.cons trivial rfl (.cons ?_ rfl (.cons trivial rfl
    (.cons ?_ rfl (.cons ⟨rfl, rfl⟩ rfl (.cons trivial rfl (.cons ?_ rfl trivial))))))))
  · intro c j hc hj c' j' hne hj'
    cases hc
    cases hj
    match c' with
    | 0 => cases hj'
    | 1 => cases hj'; exact ⟨rfl, fun _ _ => rfl⟩
    | 2 => exact absurd rfl hne
    | c + 3 => cases hj'
  all_goals
    intro c j hc hj c' j' hne hj'
    cases hc
    cases hj
    match c' with
    | 0 => cases hj'
    | 1 => exact absurd rfl hne
    | 2 => cases hj'
    | c + 3 => cases hj'

/-- Two texts are sent while the buffer of the kernel is full. -/
def bufferFull : List Act :=
  [.send 1 TEXT [72, 105] fun _ => 0, .sys (.error .EAGAIN), .send 2 TEXT [79, 75] fun _ => 0,
    .sys (.error .EAGAIN)]

/-- The second one has returned, and nothing of it is sent. -/
theorem send_not_sound :
    ∃ t, run Senders.step (Senders.init false none) bufferFull = some t ∧ t.opened = true ∧
      t.wire = [] ∧ t.returned.length = 1 ∧ ¬ t.Sound := by
  have h : run Senders.step (Senders.init false none) bufferFull = some _ := rfl
  refine ⟨_, h, rfl, rfl, by decide, ?_⟩
  rintro ⟨ws, part, hwire, horder, hwhole⟩
  have hmem := hwhole _ List.mem_cons_self 0 (by decide)
  have hnil := (List.append_eq_nil_iff.1 hwire.symm).1
  have hstr := List.flatten_eq_nil_iff.1 hnil _ (List.mem_map_of_mem hmem)
  exact absurd hstr (by decide)

end Levent.WebSocket
