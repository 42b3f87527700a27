/-
  `loop.lua` and `timeout.lua`: the callback queue, watchers, timeouts; and
  the ends of a library call: its results or its error go to the task's own
  code, through the protected calls around it.
-/
import Levent.Runtime.State

namespace Levent

variable (s : State)

/-! ## Loop -/

/-- `Loop:run_callback`: the callbacks run in the order they are queued. -/
def Loop.runCallback (cb : Callback) : State := { s with callbacks := s.callbacks ++ [cb] }

/-- `Watcher:start` asserts that the watcher has no function yet. -/
def Watcher.start (x : WatcherId) (cb : WatcherCb) : Except Value State :=
  if (s.watcher x).cb = none then .ok (s.setWatcher x ⟨some cb, true⟩)
  else .error (.watcher x)

/-- `Watcher:stop` -/
def Watcher.stop (x : WatcherId) : State := s.setWatcher x ⟨none, false⟩

/-- `Watcher:is_active` -/
def Watcher.isActive (x : WatcherId) : Bool := (s.watcher x).active

/-! ## Timeout -/

/-- `Timeout:_init` makes a timer only for a positive number of seconds (of
    which nothing but the sign is read). -/
def Timeout.hasTimer (sec : Option ℤ) : Bool :=
  match sec with
  | none => false
  | some n => 0 < n

/-- `Timeout.new` -/
def Timeout.new (sec : Option ℤ) : TimeoutId × State :=
  (s.nextTimeout, { s with
    seconds := Function.update s.seconds s.nextTimeout sec
    nextTimeout := s.nextTimeout + 1 })

/-- `Timeout:start` in the coroutine `c`: the timer will call
    `hub.throw(hub, c, self)`. -/
def Timeout.start (c : Co) (t : TimeoutId) : Except Value State :=
  if Timeout.hasTimer (s.seconds t) then
    Watcher.start s (.timeout t) (.throw c (.timeout t))
  else .ok s

/-- `Timeout:cancel` -/
def Timeout.cancel (t : TimeoutId) : State :=
  if Timeout.hasTimer (s.seconds t) then Watcher.stop s (.timeout t) else s

/-- `timeout.start_new`: the timer is new, so that its `start` succeeds. -/
def Timeout.startNew (c : Co) (sec : Option ℤ) : TimeoutId × State :=
  let (t, s) := Timeout.new s sec
  (t, match Timeout.start s c t with
    | .ok s' => s'
    | .error _ => s)

/-! ## The end of a call -/

/-- The coroutine yields or ends, and the main coroutine goes on. -/
def giveBack : State := { s with cur := none }

/-- An error leaves the function of a task, which `coroutines.create` calls protected and
    raises it again: its coroutine is dead, and does not go back to the pool.  In the main
    coroutine it ends the callback. -/
def fail (c : Co) (v : Value) : State :=
  if c = 0 then { s.setStack 0 [] with main := .idle }
  else giveBack (((s.setMode c .dead).setStack c []).emit (.failed (s.task c) (traceback v)))

/-- How an error `v` unwinds the protected calls `st`: the timeouts that are
    canceled on the way, and the frames left with the results of the call that
    stops it, or the error that none of them stops. -/
def unwind (v : Value) : List Frame → List TimeoutId × Except Value (List Frame × List Value)
  | [] => ([], .error v)
  | .pcall :: st => ([], .ok (st, [.bool false, v]))
  | .timeoutRun t :: st =>
    let v := traceback v
    if v = .exn (.timeout t) then ([t], .ok (st, [.bool false, v]))
    else ((t :: (unwind v st).1), (unwind v st).2)

/-- `error(v)` in `c`. -/
def raise (c : Co) (v : Value) : State :=
  let u := unwind v (s.stack c)
  let s := u.1.foldl Timeout.cancel s
  match u.2 with
  | .error v => fail s c v
  | .ok (st, vs) => ((s.setMode c .running).setStack c st).emit (.ret c vs)

/-- A library call ends in `c`. -/
def finish (c : Co) : Outcome → State
  | .ok vs => (s.setMode c .running).emit (.ret c vs)
  | .error v => raise s c v

/-- The function of the innermost protected call, or of the task, returns `vs`;
    `timeout.run` cancels its timeout. -/
def returns (c : Co) (vs : List Value) : State :=
  match s.stack c with
  | .pcall :: st => (s.setStack c st).emit (.ret c (.bool true :: vs))
  | .timeoutRun t :: st =>
    ((Timeout.cancel s t).setStack c st).emit (.ret c (.bool true :: vs))
  | [] =>
    if c = 0 then { s with main := .idle }
    else giveBack { (s.setMode c .pooled).emit (.finished (s.task c)) with pool := s.pool ++ [c] }

end Levent
