/-
  The calls a task can make: the waiting methods of `lock.lua` and
  `queue.lua`, `levent.lua` with the pool of `coroutines.lua`, and the loops of
  `socket.lua` around the system calls.
-/
import Levent.Runtime.Hub

namespace Levent

variable (s : State)

/-! ## Locks -/

/-- `Event:wait` -/
def Event.wait (c : Co) (e : EventId) (sec : Option ℤ) : State :=
  if (s.event e).flag then finish s c (Event.results [.bool true] e)
  else
    let (w, s) := Hub.waiter s
    let s := s.link (.event e) w
    let (t, s) := Timeout.startNew s c sec
    Waiter.get s c w (.eventWait e t)

/-- `AsyncResult:get` -/
def AsyncResult.get (c : Co) (a : AsyncId) (sec : Option ℤ) : State :=
  if (s.async a).exception = .bool false then
    let (t, s) := Timeout.startNew s c sec
    let (w, s) := Hub.waiter s
    let s := s.link (.async a) w
    Waiter.get s c w (.asyncGet a t)
  else finish s c (s.async a).outcome

/-- `Semaphore:wait`, in `Semaphore:acquire` if `acquire`. -/
def Semaphore.wait (c : Co) (x : SemId) (sec : Option ℤ) (acquire : Bool) : State :=
  let s := s.emit (.semCall x c (s.sem x).counter)
  if 0 < (s.sem x).counter then Semaphore.passed s c x none acquire
  else
    let (w, s) := Hub.waiter s
    let s := s.link (.sem x) w
    let (t, s) := Timeout.startNew s c sec
    -- the call is `xpcall(waiter.get, waiter)`: its handler is the waiter, which
    -- is no function, and `xpcall` raises before it calls anything
    finish (s.emit (.semRaised x t)) c
      (.error (.str "bad argument #2 to 'xpcall' (function expected, got Waiter)"))

/-! ## Queue -/

/-- `Queue.new`, with the `cond:set()` of `Queue:_init` -/
def Queue.new (maxsize : Option ℤ) : State :=
  let q := s.nextQueue
  Event.set { s.setQueue q (Queue._init maxsize) with nextQueue := q + 1 } (.cond q)

/-- `Queue:put` -/
def Queue.put (c : Co) (q : QueueId) (item : Value) (sec : Option ℤ) : State :=
  if (s.queue q).hasRoom then Queue.putItem s c q item
  else
    let (w, s) := Hub.waiter s
    let s := s.link (.put q) w
    let (t, s) := Timeout.startNew s c sec
    Waiter.get s c w (.queuePut q item t)

/-- `Queue:get` -/
def Queue.get (c : Co) (q : QueueId) (sec : Option ℤ) : State :=
  if 0 < (s.queue q).length then Queue.getItem s c q
  else
    let (w, s) := Hub.waiter s
    let s := s.link (.get q) w
    let (t, s) := Timeout.startNew s c sec
    Waiter.get s c w (.queueGet q t)

/-! ## Tasks -/

/-- `co_raw_create` -/
def Coroutines.coRawCreate : State :=
  let co := s.total + 1
  { s.setMode co .pooled with total := co, pool := s.pool ++ [co] }

/-- `co_create`: the last coroutine of the pool gets the function of the task `f`. -/
def Coroutines.coCreate (f : TaskId) : Co × State :=
  let s := if s.pool = [] then Coroutines.coRawCreate s else s
  let co := s.pool.getLastD 0
  let s := { s with pool := s.pool.dropLast }
  (co, if s.mode co = .pooled then s.setMode co (.ready (some f)) else coResume s co [])

/-- `coroutines.check` -/
def Coroutines.check (count : ℕ) : State :=
  Coroutines.coRawCreate^[count - s.pool.length] s

/-- `levent.spawn` -/
def spawn (c : Co) (args : List Value) : State :=
  let f := s.nextTask
  let (co, s) := Coroutines.coCreate s f
  let s := { s with nextTask := f + 1, handle := Function.update s.handle f co }
  finish (Loop.runCallback s (.resume co args)) c (.ok [.thread co])

/-- `levent.kill` -/
def kill (co : Co) (target : Option TaskId) : State :=
  Loop.runCallback s (.throw co .kill target)

/-- `levent.sleep`: the timer is new, whatever the seconds. -/
def sleep (c : Co) : State :=
  let x := .sleep s.nextSleep
  Hub.wait { s with nextSleep := s.nextSleep + 1 } c x .sleep

/-! ## Sockets -/

/-- `socket.socket` -/
def Socket.new (c : Co) : State :=
  let i := s.nextSock
  finish { s.setSock i ⟨none, false⟩ with nextSock := i + 1 } c (.ok [.sock i])

/-- `Socket:_need_block` -/
def Socket._needBlock (i : SockId) (err : Errno) : Bool :=
  (s.sock i).timeout ≠ some 0 && (err = .EWOULDBLOCK || err = .EAGAIN)

/-- `_wait` -/
def Socket._wait (c : Co) (i : SockId) (f : SockCall) : State :=
  let sec := (s.sock i).timeout
  if Timeout.hasTimer sec then
    let (t, s) := Timeout.startNew s c sec
    Hub.wait s c (f.watcher i) (.sock i f (some t))
  else Hub.wait s c (f.watcher i) (.sock i f none)

/-- A method is called: `Socket:sendall` comes to its first `send` if there is data
    to send. -/
def Socket.start (c : Co) (i : SockId) (f : SockCall) : State :=
  match f with
  | .sendall _ total =>
    if 0 < total then Socket.call s c i (.sendall 0 total) else finish s c (.ok [.int 0])
  | f => Socket.call s c i f

/-- What the kernel answers: the value of the call, or an error. -/
inductive SysResult where
  | ok (v : Value)
  | err (e : Errno)
  deriving DecidableEq

/-- The number of bytes a `send` reports. -/
def Value.count : Value → ℕ
  | .int n => n.toNat
  | _ => 0

/-- The system call of `f` succeeds. -/
def Socket.answered (c : Co) (i : SockId) (v : Value) (f : SockCall) : State :=
  match f with
  | .accept => Socket.new s c
  | .connect => finish s c (.ok [.bool true])
  | .sendall sent total =>
    if sent + v.count < total then Socket.call s c i (.sendall (sent + v.count) total)
    else finish s c (.ok [.int (sent + v.count : ℕ)])
  | _ => finish s c (.ok [v])

/-- The system call of `f` fails with `e`. -/
def Socket.refused (c : Co) (i : SockId) (e : Errno) (f : SockCall) : State :=
  match f with
  | .accept =>
    if Socket._needBlock s i e then Socket._wait s c i f
    else finish s c (.ok [.nil, .strerror e])
  | .connect =>
    if e = .EISCONN then finish s c (.ok [.bool true])
    else if (s.sock i).timeout = some 0 ∨ ¬ (e = .EINPROGRESS ∨ e = .EWOULDBLOCK ∨ e = .EALREADY) then
      finish s c (.ok [.bool false, .errno e])
    else Socket._wait s c i f
  | f =>
    if Socket._needBlock s i e then Socket._wait s c i f
    else finish s c (.ok (f.failed (.errno e)))

/-- The loop of `f` in `c` has the kernel's answer. -/
def Socket.step (c : Co) (i : SockId) (f : SockCall) (r : SysResult) : State :=
  let s := s.setMode c .running
  match r with
  | .ok v => Socket.answered s c i v f
  | .err e => Socket.refused s c i e f

/-- `Socket:close` -/
def Socket.close (i : SockId) : State :=
  if (s.sock i).closed then s
  else
    let s := Loop.runCallback s (.cancelWait (.read i) none)
    let s := Loop.runCallback s (.cancelWait (.write i) none)
    s.setSock i { s.sock i with closed := true }

/-! ## Timeouts -/

/-- `timeout.run` up to the call of its function. -/
def Timeout.run (c : Co) (sec : Option ℤ) : State :=
  let (t, s) := Timeout.startNew s c sec
  s.setStack c (.timeoutRun t :: s.stack c)

end Levent
