/-
  `hub.lua`: how a coroutine is suspended in `Waiter:get`, how `Waiter:_switch`
  resumes it, and what then runs in it up to its own code.
-/
import Levent.Runtime.Sync

namespace Levent

variable (s : State)

/-! ## Sockets -/

/-- The results of a call that fails with the error `v`. -/
def SockCall.failed (v : Value) : SockCall → List Value
  | .sendall sent _ => [.int sent, v]
  | _ => [.nil, v]

/-- The watcher a call waits for. -/
def SockCall.watcher (i : SockId) : SockCall → WatcherId
  | .accept | .recv | .recvfrom => .read i
  | .connect | .send | .sendto | .sendall .. => .write i

/-- A method of `self.cobj` is called: the kernel's answer comes later, that of
    `closed_socket` at once (it has no `connect`). -/
def Socket.call (c : Co) (i : SockId) (f : SockCall) : State :=
  if (s.sock i).closed then
    match f with
    | .connect => finish s c (.error (.str "attempt to call a nil value (method 'connect')"))
    | .accept => finish s c (.ok [.nil, .strerror .EBADF])
    | f => finish s c (.ok (f.failed (.errno .EBADF)))
  else s.setMode c (.sys i f)

/-- The loop of a call comes to the next system call.  `accept` and `connect`
    look at `self.cobj` again, the others keep it in a local. -/
def Socket.again (c : Co) (i : SockId) (f : SockCall) : State :=
  match f with
  | .accept | .connect => Socket.call s c i f
  | f => s.setMode c (.sys i f)

/-! ## After `waiter.get` -/

/-- The callers of `Hub:wait`: `_wait` of a socket catches the error. -/
def Hub.waitDone (c : Co) (k : HubCaller) (r : Except Value Unit) : State :=
  match k with
  | .sleep => finish s c (r.map fun _ => [])
  | .sock i f t =>
    let s := match t with
      | none => s
      | some t => Timeout.cancel s t
    match r with
    | .ok _ => Socket.again s c i f
    | .error v => finish s c (.ok (f.failed (traceback v)))

/-- `Hub:wait` after `waiter.get`. -/
def Hub.waited (c : Co) (x : WatcherId) (uuid : ℕ) (k : HubCaller) (r : Except Value Value) :
    State :=
  Hub.waitDone (Watcher.stop s x) c k <|
    match r with
    | .ok v => if v = .userdata uuid then .ok () else .error assertionFailed
    | .error v => .error (traceback v)

/-- What the call `k` does when its `waiter.get` has ended with `r`. -/
def afterGet (c : Co) (w : WaiterId) (k : Call) (r : Except Value Value) : State :=
  match k with
  | .get => finish s c (r.map fun v => [v])
  | .eventWait e t => Event.waited s c w e t r
  | .asyncGet a t => AsyncResult.got s c w a t r
  | .semWait x t acquire => Semaphore.waited s c w x t acquire r
  | .queuePut q item t => Queue.putWaited s c w q item t r
  | .queueGet q t => Queue.getWaited s c w q t r
  | .hubWait x uuid k => Hub.waited s c x uuid k r

/-! ## Waiter and Hub -/

/-- `hub:waiter()` -/
def Hub.waiter : WaiterId × State :=
  (s.nextWaiter, { s.setWaiter s.nextWaiter Waiter._init with nextWaiter := s.nextWaiter + 1 })

/-- `Waiter:get` ends in `c`. -/
def Waiter.done (c : Co) (w : WaiterId) (k : Call) (r : Except Value Value) : State :=
  afterGet (s.emit (.getDone w r)) c w k r

/-- `Hub:_yield`: an entry of `c` makes the assertion fail, and the main
    coroutine cannot yield; otherwise `c` is suspended. -/
def Hub._yield (c : Co) (w : WaiterId) (k : Call) : State :=
  if (s.waiters c).isSome then Waiter.done s c w k (.error (.thread c))
  else
    let s := { s with waiters := Function.update s.waiters c (some w) }
    if c = 0 then Waiter.done s c w k (.error (.str "attempt to yield from outside a coroutine"))
    else giveBack (s.setMode c (.blocked w k))

/-- `Waiter:get`, called by `k` in `c`. -/
def Waiter.get (c : Co) (w : WaiterId) (k : Call) : State :=
  let s := s.emit (.getCall w c)
  if (s.waiter w).exception = .bool false then
    Hub._yield (s.setWaiter w { s.waiter w with co := some c }) c w k
  else Waiter.done s c w k (s.waiter w).result

/-- The rest of `Hub:_yield` and `Waiter:get` in a coroutine that is resumed. -/
def Hub.yielded (c : Co) (w : WaiterId) (k : Call) : State :=
  let s := { s with waiters := Function.update s.waiters c none, cur := some c }
  Waiter.done (s.setMode c .running) c w k (s.waiter w).result

/-- `coroutine.resume(c, ...)`: what a coroutine does with it depends on where
    it is suspended.  One that is not suspended cannot be resumed. -/
def coResume (c : Co) (args : List Value) : State :=
  match s.mode c with
  | .pooled => s.setMode c (.ready none)
  | .ready none => s.setMode c .dead
  | .ready (some f) =>
    ({ s.setMode c .running with
        cur := some c, task := Function.update s.task c f }).emit (.started (some f) args)
  | .blocked w k => Hub.yielded s c w k
  | .unused | .running | .sys .. | .dead => s

/-- `Waiter:_switch`: the new state, and the error it raises if it does.
    `coroutine.resume` of the main coroutine fails. -/
def Waiter._switch (w : WaiterId) (value exception : Value) : State × Option Value :=
  if exception.truthy ∧ ¬ isException exception then (s, some exception)
  else if (s.waiter w).exception ≠ .bool false then (s, some assertionFailed)
  else
    let co := (s.waiter w).co
    let s := (s.setWaiter w ⟨co, value, exception⟩).emit (.settled w value exception)
    match co with
    | none => (s, none)
    | some c =>
      if s.running ≠ 0 then (s, some (.str "must be in hub.co"))
      else if c = 0 then (s, none)
      else (coResume s c [], none)

/-- `Waiter:switch` -/
def Waiter.switch (w : WaiterId) (value : Value) : State × Option Value :=
  Waiter._switch s w value .nil

/-- `Waiter:throw` -/
def Waiter.throw (w : WaiterId) (exception : Value) : State × Option Value :=
  Waiter._switch s w .nil exception

/-- `Hub:switch` -/
def Hub.switch (c : Co) (value : Value) : State × Option Value :=
  match s.waiters c with
  | none => (s, some (.thread c))
  | some w => Waiter.switch s w value

/-- `Hub:throw` -/
def Hub.throw (c : Co) (exception : Value) : State × Option Value :=
  match s.waiters c with
  | none => (s, some (.thread c))
  | some w => Waiter.throw s w exception

/-- `Hub:wait` in `c`, called by `k`: `watcher:start` is outside the protected
    call. -/
def Hub.wait (c : Co) (x : WatcherId) (k : HubCaller) : State :=
  let (w, s) := Hub.waiter s
  let uuid := s.nextUuid
  let s := { s with nextUuid := uuid + 1 }
  match Watcher.start s x (.wake w uuid) with
  | .error v => Hub.waitDone s c k (.error v)
  | .ok s => Waiter.get s c w (.hubWait x uuid k)

/-- `Hub:_cancel_wait`, for `err or cancel_wait_error` -/
def Hub._cancelWait (x : WatcherId) (err : Option Exn) : State × Option Value :=
  if Watcher.isActive s x then
    match (s.watcher x).cb with
    | some (.wake w _) => Waiter.throw s w (.exn (err.getD .cancelWait))
    | _ => (s, none)
  else (s, none)

end Levent
