/-
  `lock.lua` and `queue.lua`: the methods that do not wait, and what the
  waiting ones do once `waiter.get` has returned or raised.
-/
import Levent.Runtime.Loop

namespace Levent

variable (s : State)

/-! ## Event -/

/-- `Event:set` -/
def Event.set (e : EventId) : State :=
  let o := s.event e
  let s := (s.setEvent e { o with flag := true, todo := o.todo ∪ o.links, notifier := true }).emit
    (.eventSet e o.links)
  if o.notifier then s else Loop.runCallback s (.notify (.event e))

/-- `Event:clear` -/
def Event.clear (e : EventId) : State := s.setEvent e { s.event e with flag := false }

/-- What the caller of `Event:wait` sees of its results: `Queue:join`, the
    caller on a `cond`, drops them. -/
def Event.results (vs : List Value) : EventId → Outcome
  | .user _ => .ok vs
  | .cond _ => .ok []

/-- `Event:wait` after `waiter.get`. -/
def Event.waited (c : Co) (w : WaiterId) (e : EventId) (t : TimeoutId) (r : Except Value Value) :
    State :=
  let s := Timeout.cancel (s.unlink (.event e) w) t
  match r with
  | .error v => finish s c (Event.results [.bool false, traceback v] e)
  | .ok _ => finish s c (Event.results [.bool (s.event e).flag] e)

/-! ## AsyncResult -/

/-- `AsyncResult:_set` -/
def AsyncResult._set (a : AsyncId) (val exception : Value) : Except Value State :=
  if (s.async a).exception = .bool false then
    .ok (Loop.runCallback
      (s.setAsync a { s.async a with value := val, exception := exception }) (.notify (.async a)))
  else .error (.str "repeated set result")

/-- `AsyncResult:set` -/
def AsyncResult.set (a : AsyncId) (val : Value) : Except Value State :=
  AsyncResult._set s a val .nil

/-- `AsyncResult:set_exception` -/
def AsyncResult.setException (a : AsyncId) (exception : Value) : Except Value State :=
  if isException exception then AsyncResult._set s a .nil exception else .error exception

/-- The end of `AsyncResult:get`. -/
def AsyncResult.outcome (o : AsyncResult) : Outcome :=
  if o.exception.truthy then .error o.exception else .ok [o.value]

/-- `AsyncResult:get` after `waiter.get`. -/
def AsyncResult.got (c : Co) (w : WaiterId) (a : AsyncId) (t : TimeoutId)
    (r : Except Value Value) : State :=
  let s := Timeout.cancel (s.unlink (.async a) w) t
  match r with
  | .error v => finish s c (.error (traceback v))
  | .ok _ => finish s c (s.async a).outcome

/-! ## Semaphore -/

/-- `Semaphore:release` -/
def Semaphore.release (x : SemId) : State :=
  let o := s.sem x
  let s := (s.setSem x { o with counter := o.counter + 1 }).emit (.released x)
  if !o.notifier && decide o.links.Nonempty then
    Loop.runCallback (s.setSem x { s.sem x with notifier := true }) (.notify (.sem x))
  else s

/-- `Semaphore:acquire` and `Semaphore:wait` when the latter has returned true. -/
def Semaphore.passed (c : Co) (x : SemId) (t : Option TimeoutId) (acquire : Bool) : State :=
  let s := s.emit (.semTrue x (s.sem x).counter t)
  if acquire then
    finish ((s.setSem x { s.sem x with counter := (s.sem x).counter - 1 }).emit (.acquired x)) c
      (.ok [.bool true])
  else finish s c (.ok [.bool true])

/-- `Semaphore:wait` (in `Semaphore:acquire`, if so) after its protected call. -/
def Semaphore.waited (c : Co) (w : WaiterId) (x : SemId) (t : TimeoutId) (acquire : Bool)
    (r : Except Value Value) : State :=
  let s := Timeout.cancel (s.unlink (.sem x) w) t
  match r with
  | .error v =>
    finish (s.emit (.semFalse x v t)) c (.ok (if acquire then [.bool false] else [.bool false, v]))
  | .ok _ =>
    if 0 < (s.sem x).counter then Semaphore.passed s c x (some t) acquire
    else finish (s.emit (.semRaised x t)) c (.error (.int (s.sem x).counter))

/-! ## Queue -/

/-- `Queue:is_full` -/
def Queue.isFull (o : Queue) : Bool :=
  match o.maxsize with
  | none => false
  | some n => n == o.items.length

/-- The test of `Queue:put` for a free slot. -/
def Queue.hasRoom (o : Queue) : Bool := o.maxsize.all fun n => decide (o.length < n)

/-- `Queue:_get` -/
def Queue._get (q : QueueId) : Except Value (Value × State) :=
  let o := s.queue q
  if 0 < o.length then
    let item := o.items.headD .nil
    let armed : Bool := !o.isInPutUnlock && decide o.putters.Nonempty
    let s := (s.setQueue q { o with
      items := o.items.tail
      length := o.length - 1
      isInPutUnlock := o.isInPutUnlock || armed }).emit (.removed q item)
    .ok (item, if armed then Loop.runCallback s (.notify (.put q)) else s)
  else .error assertionFailed

/-- `Queue:_put`: the item goes to `items[length]`, `length` being counted up first. -/
def Queue._put (q : QueueId) (item : Value) : State :=
  let o := s.queue q
  let armed : Bool := !o.isInGetUnlock && decide o.getters.Nonempty
  let s := (s.setQueue q { o with
    items := o.items.take o.length ++ item :: o.items.drop (o.length + 1)
    length := o.length + 1
    isInGetUnlock := o.isInGetUnlock || armed }).emit (.inserted q item)
  let s := Event.clear s (.cond q)
  if armed then Loop.runCallback s (.notify (.get q)) else s

/-- `Queue:put` when there is room. -/
def Queue.putItem (c : Co) (q : QueueId) (item : Value) : State :=
  finish ((Queue._put s q item).emit (.putDone q item)) c (.ok [])

/-- `Queue:get` when there is an item. -/
def Queue.getItem (c : Co) (q : QueueId) : State :=
  match Queue._get s q with
  | .ok (item, s) => finish (s.emit (.gotItem q item)) c (.ok [item])
  | .error v => finish (s.emit (.assertGet q)) c (.error v)

/-- `Queue:put` after `waiter.get`. -/
def Queue.putWaited (c : Co) (w : WaiterId) (q : QueueId) (item : Value) (t : TimeoutId)
    (r : Except Value Value) : State :=
  let s := Timeout.cancel (s.unlink (.put q) w) t
  match r with
  | .error v => finish s c (.error (traceback v))
  | .ok _ => Queue.putItem s c q item

/-- `Queue:get` after `waiter.get`. -/
def Queue.getWaited (c : Co) (w : WaiterId) (q : QueueId) (t : TimeoutId)
    (r : Except Value Value) : State :=
  let s := Timeout.cancel (s.unlink (.get q) w) t
  match r with
  | .error v => finish s c (.error (traceback v))
  | .ok _ => Queue.getItem s c q

end Levent
