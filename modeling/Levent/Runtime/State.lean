/-
  The state of a levent process: its coroutines, the hub, the loop and the
  synchronization objects, as the modules of `levent/` keep them.

  A coroutine only gives up control inside `waiter.get`, so the state is seen
  at the points between two library calls.  A suspended coroutine is described
  by the library call it is in (`Call`, with the locals of that call) and the
  protected calls of its task around it (`Frame`).

  `log` and the task numbers are not part of the program: they record what has
  happened, and nothing the program computes depends on them.
-/
import Mathlib.Data.Finset.Basic
import Mathlib.Logic.Function.Basic
import Mathlib.Data.Int.Basic

namespace Levent

/-! ## Names -/

/-- A coroutine; `0` is the main coroutine (`hub.co`). -/
abbrev Co := ℕ
abbrev WaiterId := ℕ
abbrev TimeoutId := ℕ
/-- One call of `levent.spawn`. -/
abbrev TaskId := ℕ
abbrev AsyncId := ℕ
abbrev SemId := ℕ
abbrev QueueId := ℕ
abbrev SockId := ℕ

/-- An event made by `lock.event()`, or the `cond` of a queue. -/
inductive EventId where
  | user (n : ℕ)
  | cond (q : QueueId)
  deriving DecidableEq

/-- A libev watcher: the timer of a `Timeout`, the timer of one `levent.sleep`,
    the two io watchers of a socket. -/
inductive WatcherId where
  | timeout (t : TimeoutId)
  | sleep (n : ℕ)
  | read (i : SockId)
  | write (i : SockId)
  deriving DecidableEq

/-- Where waiters are kept: the `links` of a lock, the `putters` and `getters`
    of a queue.  Each has its own notification callback. -/
inductive Sync where
  | event (e : EventId)
  | async (a : AsyncId)
  | sem (x : SemId)
  | put (q : QueueId)
  | get (q : QueueId)
  deriving DecidableEq

/-! ## Values -/

/-- Instances of `BaseException` and its subclasses. -/
inductive Exn where
  | base (n : ℕ)
  | cancelWait
  | kill
  | timeout (t : TimeoutId)
  deriving DecidableEq

inductive Errno where
  | EAGAIN | EWOULDBLOCK | EINPROGRESS | EALREADY | EISCONN | EBADF
  | other (n : ℕ)
  deriving DecidableEq

/-- Lua values; the texts of error messages are kept without positions and tracebacks.
    `errnoText` is an errno as a text. -/
inductive Value where
  | nil
  | bool (b : Bool)
  | int (n : ℤ)
  | str (s : String)
  | exn (e : Exn)
  | thread (c : Co)
  | userdata (n : ℕ)
  | waiter (w : WaiterId)
  | watcher (x : WatcherId)
  | sock (i : SockId)
  | errno (e : Errno)
  | strerror (e : Errno)
  | errnoText (e : Errno)
  deriving DecidableEq

/-- What a condition of Lua takes for true. -/
def Value.truthy : Value → Bool
  | .nil | .bool false => false
  | _ => true

/-- `exceptions.is_exception` -/
def isException : Value → Bool
  | .exn _ => true
  | _ => false

def assertionFailed : Value := .str "assertion failed!"

/-- `debug.traceback`, with which most protected calls handle the error: a number becomes a
    text, nil and a coroutine (whose traceback it is then) leave nothing but a traceback, and
    every other value is passed on. -/
def traceback : Value → Value
  | .int n => .str (toString n)
  | .errno e => .errnoText e
  | .nil | .thread _ => .str "stack traceback:"
  | v => v

@[simp] theorem traceback_exn (e : Exn) : traceback (.exn e) = .exn e := rfl

@[simp] theorem traceback_eq_exn {v : Value} {e : Exn} : traceback v = .exn e ↔ v = .exn e := by
  cases v <;> simp [traceback]

theorem traceback_truthy {v : Value} (h : v.truthy = true) : (traceback v).truthy = true := by
  cases v with
  | bool b => exact h
  | _ => rfl

/-- What a call gives back: its results, or the error it raises. -/
abbrev Outcome := Except Value (List Value)

/-! ## Coroutines -/

/-- A call on a socket that is waiting for the kernel. -/
inductive SockCall where
  | accept | connect | recv | recvfrom | send | sendto
  | sendall (sent total : ℕ)
  deriving DecidableEq

/-- The caller of `Hub:wait`: `levent.sleep`, or `_wait` of a socket with its timer. -/
inductive HubCaller where
  | sleep
  | sock (i : SockId) (f : SockCall) (t : Option TimeoutId)
  deriving DecidableEq

/-- The library call that calls `waiter.get`, with its locals: `get` is the
    task's own `waiter:get()`. -/
inductive Call where
  | get
  | eventWait (e : EventId) (t : TimeoutId)
  | asyncGet (a : AsyncId) (t : TimeoutId)
  | semWait (x : SemId) (t : TimeoutId) (acquire : Bool)
  | queuePut (q : QueueId) (item : Value) (t : TimeoutId)
  | queueGet (q : QueueId) (t : TimeoutId)
  | hubWait (x : WatcherId) (uuid : ℕ) (k : HubCaller)
  deriving DecidableEq

/-- Where the waiter of a call is registered. -/
def Call.sync : Call → Option Sync
  | .eventWait e _ => some (.event e)
  | .asyncGet a _ => some (.async a)
  | .semWait x _ _ => some (.sem x)
  | .queuePut q _ _ => some (.put q)
  | .queueGet q _ => some (.get q)
  | .get | .hubWait .. => none

/-- A protected call around the code a task is executing: its own `pcall`, or
    `timeout.run` with its timeout. -/
inductive Frame where
  | pcall
  | timeoutRun (t : TimeoutId)
  deriving DecidableEq

/-- The state of a coroutine of the pool.  `pooled` is suspended where its next
    resume brings the next function, `ready f` in `f(coroutine.yield())`; `sys`
    is inside a socket call at the system call; `blocked` inside `w:get()`. -/
inductive Mode where
  | unused
  | pooled
  | ready (f : Option TaskId)
  | running
  | sys (i : SockId) (f : SockCall)
  | blocked (w : WaiterId) (k : Call)
  | dead
  deriving DecidableEq

/-- What the main coroutine executes: nothing between two callbacks, the code
    of a user's callback, or the loop of a notification. -/
inductive Main where
  | idle
  | user
  | notify (y : Sync)
  deriving DecidableEq

/-! ## Objects -/

/-- `Waiter`; `exception` is `false` until the waiter is settled. -/
structure Waiter where
  co : Option Co
  value : Value
  exception : Value
  deriving DecidableEq

/-- `Waiter:_init` -/
def Waiter._init : Waiter := ⟨none, .nil, .bool false⟩

/-- How `Waiter:get` ends once the waiter's coroutine runs again. -/
def Waiter.result (o : Waiter) : Except Value Value :=
  if o.exception = .nil then .ok o.value else .error o.exception

/-- The function a watcher calls: a waiter with its uuid, or `hub.throw`. -/
inductive WatcherCb where
  | wake (w : WaiterId) (uuid : ℕ)
  | throw (c : Co) (e : Exn)
  deriving DecidableEq

structure Watcher where
  cb : Option WatcherCb
  active : Bool
  deriving DecidableEq

structure Event where
  links : Finset WaiterId
  todo : Finset WaiterId
  flag : Bool
  notifier : Bool

/-- `Event:_init` -/
def Event._init : Event := ⟨∅, ∅, false, false⟩

structure AsyncResult where
  links : Finset WaiterId
  value : Value
  exception : Value

/-- `AsyncResult:_init` -/
def AsyncResult._init : AsyncResult := ⟨∅, .nil, .bool false⟩

structure Semaphore where
  counter : ℤ
  notifier : Bool
  links : Finset WaiterId

/-- `Semaphore:_init` -/
def Semaphore._init (value : ℤ) : Semaphore := ⟨value, false, ∅⟩

/-- `Queue`, holding non-nil items; its `cond` is the event `EventId.cond`. -/
structure Queue where
  maxsize : Option ℕ
  items : List Value
  length : ℕ
  getters : Finset WaiterId
  putters : Finset WaiterId
  isInPutUnlock : Bool
  isInGetUnlock : Bool

/-- `Queue:_init`: a `maxsize` that is not positive is dropped. -/
def Queue._init (maxsize : Option ℤ) : Queue where
  maxsize := match maxsize with
    | none => none
    | some n => if n ≤ 0 then none else some n.toNat
  items := []
  length := 0
  getters := ∅
  putters := ∅
  isInPutUnlock := false
  isInGetUnlock := false

structure Sock where
  timeout : Option ℤ
  closed : Bool

/-- The callbacks queued by `Loop:run_callback`.  `throw` is that of
    `levent.kill`, with the task the handle was returned for. -/
inductive Callback where
  | notify (y : Sync)
  | throw (c : Co) (e : Exn) (target : Option TaskId)
  | resume (c : Co) (args : List Value)
  | cancelWait (x : WatcherId) (err : Option Exn)
  | user
  deriving DecidableEq

/-! ## What is recorded -/

inductive Obs where
  /-- a library call, or a protected call, gives `vs` back to the code of `c` -/
  | ret (c : Co) (vs : List Value)
  /-- `w:get()` is called in `c`, and ends -/
  | getCall (w : WaiterId) (c : Co)
  | getDone (w : WaiterId) (r : Except Value Value)
  /-- a `switch` or `throw` of `w` gets past the assertions on its state -/
  | settled (w : WaiterId) (value exception : Value)
  /-- `set()` with the waiters of that moment; `w:switch(true)` is called in a
      notification, and stops it with an error -/
  | eventSet (e : EventId) (links : Finset WaiterId)
  | notified (y : Sync) (w : WaiterId)
  | aborted (y : Sync)
  /-- `_put` and `_get` of a queue; calls of `put` and `get` that return -/
  | inserted (q : QueueId) (item : Value)
  | removed (q : QueueId) (item : Value)
  | assertGet (q : QueueId)
  | putDone (q : QueueId) (item : Value)
  | gotItem (q : QueueId) (item : Value)
  /-- calls of a semaphore, and their ends: `counter` is what they find, `t` the
      timeout they have started -/
  | semCall (x : SemId) (c : Co) (counter : ℤ)
  | semTrue (x : SemId) (counter : ℤ) (t : Option TimeoutId)
  | semFalse (x : SemId) (v : Value) (t : TimeoutId)
  | semRaised (x : SemId) (t : TimeoutId)
  | acquired (x : SemId)
  | released (x : SemId)
  /-- tasks: started with arguments, finished, thrown at by a `kill` for `target` -/
  | started (f : Option TaskId) (args : List Value)
  | finished (f : TaskId)
  | failed (f : TaskId) (v : Value)
  | killed (target : Option TaskId) (victim : TaskId)
  deriving DecidableEq

/-! ## The state -/

structure State where
  mode : Co → Mode
  stack : Co → List Frame
  /-- the coroutine the main coroutine has resumed, if it has not yielded yet -/
  cur : Option Co
  main : Main
  /-- `coroutine_pool` and `total` of `coroutines.lua` -/
  pool : List Co
  total : ℕ
  /-- the task a coroutine executes, the coroutine `spawn` returned for a task -/
  task : Co → TaskId
  handle : TaskId → Co
  nextTask : ℕ
  /-- `hub.waiters`.  Its values are weak: the entry that a failed wait leaves for the
      main coroutine is kept here, while a collection of garbage may drop it. -/
  waiters : Co → Option WaiterId
  waiter : WaiterId → Waiter
  nextWaiter : ℕ
  seconds : TimeoutId → Option ℤ
  nextTimeout : ℕ
  nextSleep : ℕ
  nextUuid : ℕ
  watcher : WatcherId → Watcher
  callbacks : List Callback
  event : EventId → Event
  async : AsyncId → AsyncResult
  sem : SemId → Semaphore
  queue : QueueId → Queue
  nextQueue : ℕ
  sock : SockId → Sock
  nextSock : ℕ
  log : List Obs

namespace State

/-- The coroutine that is running (`coroutine.running()`). -/
def running (s : State) : Co := s.cur.getD 0

/-- Between two loop callbacks. -/
def Between (s : State) : Prop := s.main = .idle ∧ s.cur = none

instance (s : State) : Decidable s.Between := inferInstanceAs (Decidable (_ ∧ _))

/-- The coroutine whose own code runs next, if any. -/
def userTurn (s : State) : Option Co :=
  match s.cur with
  | some c => if s.mode c = .running then some c else none
  | none => if s.main = .user ∧ s.mode 0 = .running then some 0 else none

def emit (s : State) (o : Obs) : State := { s with log := s.log ++ [o] }

def setMode (s : State) (c : Co) (m : Mode) : State :=
  { s with mode := Function.update s.mode c m }

def setStack (s : State) (c : Co) (st : List Frame) : State :=
  { s with stack := Function.update s.stack c st }

def setWaiter (s : State) (w : WaiterId) (o : Waiter) : State :=
  { s with waiter := Function.update s.waiter w o }

def setWatcher (s : State) (x : WatcherId) (o : Watcher) : State :=
  { s with watcher := Function.update s.watcher x o }

def setEvent (s : State) (e : EventId) (o : Event) : State :=
  { s with event := Function.update s.event e o }

def setAsync (s : State) (a : AsyncId) (o : AsyncResult) : State :=
  { s with async := Function.update s.async a o }

def setSem (s : State) (x : SemId) (o : Semaphore) : State :=
  { s with sem := Function.update s.sem x o }

def setQueue (s : State) (q : QueueId) (o : Queue) : State :=
  { s with queue := Function.update s.queue q o }

def setSock (s : State) (i : SockId) (o : Sock) : State :=
  { s with sock := Function.update s.sock i o }

/-- The waiters registered at `y`. -/
def links (s : State) : Sync → Finset WaiterId
  | .event e => (s.event e).links
  | .async a => (s.async a).links
  | .sem x => (s.sem x).links
  | .put q => (s.queue q).putters
  | .get q => (s.queue q).getters

/-- Replace the waiters registered at `y`. -/
def setLinks (s : State) (L : Finset WaiterId) : Sync → State
  | .event e => s.setEvent e { s.event e with links := L }
  | .async a => s.setAsync a { s.async a with links := L }
  | .sem x => s.setSem x { s.sem x with links := L }
  | .put q => s.setQueue q { s.queue q with putters := L }
  | .get q => s.setQueue q { s.queue q with getters := L }

/-- `links[w] = true` -/
def link (s : State) (y : Sync) (w : WaiterId) : State := s.setLinks (insert w (s.links y)) y

/-- `links[w] = nil` -/
def unlink (s : State) (y : Sync) (w : WaiterId) : State := s.setLinks ((s.links y).erase w) y

end State

end Levent
