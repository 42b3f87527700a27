/-
  One step of a levent process: the loop starts a callback or fires a watcher,
  a notification loop goes round once, a task's own code makes a call, the
  kernel answers a system call.  `next` of a Lua table may give any of its
  keys, so that the waiter it gives is part of the action.

  Timers and callbacks may come in any order here, also in those the loop never
  produces (a timer between two callbacks of one round).
-/
import Levent.Runtime.Calls
import Levent.Lib.Run

namespace Levent

/-! ## Actions -/

/-- What the code of a task, or of a callback in the main coroutine, can do.
    `returns` ends the innermost protected call or the function itself. -/
inductive Op where
  | eventSet (e : EventId)
  | eventClear (e : EventId)
  | eventWait (e : EventId) (sec : Option ℤ)
  | asyncSet (a : AsyncId) (v : Value)
  | asyncSetException (a : AsyncId) (v : Value)
  | asyncGet (a : AsyncId) (sec : Option ℤ)
  | semRelease (x : SemId)
  | semWait (x : SemId) (sec : Option ℤ) (acquire : Bool)
  | queuePut (q : QueueId) (item : Value) (sec : Option ℤ)
  | queueGet (q : QueueId) (sec : Option ℤ)
  | queueJoin (q : QueueId) (sec : Option ℤ)
  | sleep
  | socket
  | socketSetTimeout (i : SockId) (sec : Option ℤ)
  | socketCall (i : SockId) (f : SockCall)
  | socketClose (i : SockId)
  | spawn (args : List Value)
  | kill (co : Co) (target : Option TaskId)
  | check (count : ℕ)
  | runCallback
  | timeoutStartNew (sec : Option ℤ)
  | timeoutCancel (t : TimeoutId)
  | timeoutRun (sec : Option ℤ)
  | pcall
  | returns (vs : List Value)
  | error (v : Value)
  | waiter
  | waiterGet (w : WaiterId)
  | waiterSwitch (w : WaiterId) (v : Value)
  | waiterThrow (w : WaiterId) (exception : Value)
  | hubSwitch (co : Co) (v : Value)
  | hubThrow (co : Co) (exception : Value)

/-- Operations on waiters the code handles itself; those of the library make
    their own waiters and show them to nobody. -/
def Op.Raw : Op → Prop
  | .waiter | .waiterGet _ | .waiterSwitch .. | .waiterThrow .. | .hubSwitch .. | .hubThrow .. => True
  | _ => False

instance : DecidablePred Op.Raw := fun o => by
  cases o <;> first | exact isTrue trivial | exact isFalse id

inductive Act where
  | callback
  | fire (x : WatcherId)
  | enter
  | next (w : Option WaiterId)
  | op (o : Op)
  | sys (r : SysResult)

/-- The action is no operation on a waiter by hand. -/
def Act.Raw : Act → Prop
  | .op o => o.Raw
  | _ => False

instance : DecidablePred Act.Raw
  | .op o => inferInstanceAs (Decidable o.Raw)
  | .callback | .fire _ | .enter | .next _ | .sys _ => isFalse id

variable (s : State)

/-! ## Callbacks -/

/-- A timer fires once: it is not active any more. -/
def Loop.expire (x : WatcherId) : State :=
  match x with
  | .timeout _ | .sleep _ => s.setWatcher x { s.watcher x with active := false }
  | .read _ | .write _ => s

/-- `Loop:callback` for a watcher that is active -/
def Loop.fire (x : WatcherId) : State :=
  match (s.watcher x).cb with
  | some (.wake w uuid) => (Waiter._switch (Loop.expire s x) w (.userdata uuid) .nil).1
  | some (.throw c e) => (Hub.throw (Loop.expire s x) c (.exn e)).1
  | none => Loop.expire s x

/-- A queued callback begins; what it raises is only printed. -/
def Loop.begin : Callback → State
  | .notify y => { s with main := .notify y }
  | .throw c e target =>
    match Hub.throw (s.emit (.killed target (s.task c))) c (.exn e) with
    | (s', none) => s'
    | (_, some _) => (Hub.throw s c (.exn e)).1
  | .resume c args => coResume s c args
  | .cancelWait x err => (Hub._cancelWait s x err).1
  | .user => { s with main := .user }

/-! ## Notification loops -/

/-- `waiter:switch(true)` in a notification loop: what it raises ends the
    callback. -/
def wake (y : Sync) (w : WaiterId) : State :=
  match Waiter.switch (s.emit (.notified y w)) w (.bool true) with
  | (s', none) => s'
  | (s', some _) => { s' with main := .idle }.emit (.aborted y)

/-- The end of the callback of `y`. -/
def endNotify : Sync → State
  | .event e => { s.setEvent e { s.event e with notifier := false } with main := .idle }
  | .async _ | .sem _ => { s with main := .idle }
  | .put q => { s.setQueue q { s.queue q with isInPutUnlock := false } with main := .idle }
  | .get q => { s.setQueue q { s.queue q with isInGetUnlock := false } with main := .idle }

/-- One round of the loop over the waiters `L`, of which `next` gives `w`. -/
def nextOf (y : Sync) (L : Finset WaiterId) (w : Option WaiterId) (go : WaiterId → State) :
    Option State :=
  match w with
  | none => if L = ∅ then some (endNotify s y) else none
  | some w => if w ∈ L then some (go w) else none

/-- One round of `Event:_notify` -/
def Event._notify (e : EventId) (w : Option WaiterId) : Option State :=
  nextOf s (.event e) (s.event e).todo w fun w =>
    wake (s.setEvent e { s.event e with todo := (s.event e).todo.erase w }) (.event e) w

/-- One round of `AsyncResult:_notify` -/
def AsyncResult._notify (a : AsyncId) (w : Option WaiterId) : Option State :=
  nextOf s (.async a) (s.async a).links w (wake s (.async a))

/-- One round of `Semaphore:_notify` -/
def Semaphore._notify (x : SemId) (w : Option WaiterId) : Option State :=
  if (s.sem x).counter ≤ 0 then
    if w = none then some (endNotify s (.sem x)) else none
  else nextOf s (.sem x) (s.sem x).links w (wake s (.sem x))

/-- One round of `Queue:_put_unlock` -/
def Queue._putUnlock (q : QueueId) (w : Option WaiterId) : Option State :=
  if Queue.isFull (s.queue q) then
    if w = none then some (endNotify s (.put q)) else none
  else nextOf s (.put q) (s.queue q).putters w (wake s (.put q))

/-- One round of `Queue:_get_unlock` -/
def Queue._getUnlock (q : QueueId) (w : Option WaiterId) : Option State :=
  if (s.queue q).length = 0 then
    if w = none then some (endNotify (Event.set s (.cond q)) (.get q)) else none
  else nextOf s (.get q) (s.queue q).getters w (wake s (.get q))

/-- One round of the callback of `y`. -/
def Sync.notify (y : Sync) (w : Option WaiterId) : Option State :=
  match y with
  | .event e => Event._notify s e w
  | .async a => AsyncResult._notify s a w
  | .sem x => Semaphore._notify s x w
  | .put q => Queue._putUnlock s q w
  | .get q => Queue._getUnlock s q w

/-! ## Calls -/

/-- A call that gives nothing back, or raises. -/
def plain (c : Co) (r : Except Value State) : State :=
  match r with
  | .ok s => finish s c (.ok [])
  | .error v => finish s c (.error v)

/-- A call of a method of `Waiter` or `Hub` that may switch to another coroutine. -/
def switching (c : Co) (r : State × Option Value) : State :=
  match r with
  | (s, none) => s
  | (s, some v) => finish s c (.error v)

/-- The call `o` in the coroutine `c`. -/
def Op.exec (c : Co) : Op → Option State
  | .eventSet e => some (plain s c (.ok (Event.set s e)))
  | .eventClear e => some (plain s c (.ok (Event.clear s e)))
  | .eventWait (.user n) sec => some (Event.wait s c (.user n) sec)
  | .eventWait (.cond _) _ => none
  | .asyncSet a v => some (plain s c (AsyncResult.set s a v))
  | .asyncSetException a v => some (plain s c (AsyncResult.setException s a v))
  | .asyncGet a sec => some (AsyncResult.get s c a sec)
  | .semRelease x => some (plain s c (.ok (Semaphore.release s x)))
  | .semWait x sec acquire => some (Semaphore.wait s c x sec acquire)
  | .queuePut q item sec =>
    if q < s.nextQueue ∧ item ≠ .nil then some (Queue.put s c q item sec) else none
  | .queueGet q sec => if q < s.nextQueue then some (Queue.get s c q sec) else none
  | .queueJoin q sec => if q < s.nextQueue then some (Event.wait s c (.cond q) sec) else none
  | .sleep => some (Levent.sleep s c)
  | .socket => some (Socket.new s c)
  | .socketSetTimeout i sec => some (plain s c (.ok (s.setSock i { s.sock i with timeout := sec })))
  | .socketCall i f => some (Socket.start s c i f)
  | .socketClose i => some (plain s c (.ok (Socket.close s i)))
  | .spawn args => some (Levent.spawn s c args)
  | .kill co target =>
    if target.all (fun f => f < s.nextTask ∧ s.handle f = co) then
      some (plain s c (.ok (Levent.kill s co target)))
    else none
  | .check count => some (plain s c (.ok (Coroutines.check s count)))
  | .runCallback => some (plain s c (.ok (Loop.runCallback s .user)))
  | .timeoutStartNew sec => some (plain s c (.ok (Timeout.startNew s c sec).2))
  | .timeoutCancel t => some (plain s c (.ok (Timeout.cancel s t)))
  | .timeoutRun sec => some (Timeout.run s c sec)
  | .pcall => some (s.setStack c (.pcall :: s.stack c))
  | .returns vs => some (Levent.returns s c vs)
  | .error v => some (finish s c (.error v))
  | .waiter => some (finish (Hub.waiter s).2 c (.ok [.waiter (Hub.waiter s).1]))
  | .waiterGet w => if w < s.nextWaiter then some (Waiter.get s c w .get) else none
  | .waiterSwitch w v =>
    if w < s.nextWaiter then some (switching c (Waiter.switch s w v)) else none
  | .waiterThrow w e =>
    if w < s.nextWaiter then some (switching c (Waiter.throw s w e)) else none
  | .hubSwitch co v => some (switching c (Hub.switch s co v))
  | .hubThrow co e => some (switching c (Hub.throw s co e))

/-! ## Steps -/

/-- One step; `none` if the action is not possible. -/
def step (a : Act) : Option State :=
  match a with
  | .callback =>
    if s.Between then
      match s.callbacks with
      | [] => none
      | cb :: cbs => some (Loop.begin { s with callbacks := cbs } cb)
    else none
  | .fire x => if s.Between ∧ Watcher.isActive s x then some (Loop.fire s x) else none
  | .enter => if s.Between then some { s with main := .user } else none
  | .next w =>
    match s.main, s.cur with
    | .notify y, none => y.notify s w
    | _, _ => none
  | .op o =>
    match s.userTurn with
    | some c => o.exec s c
    | none => none
  | .sys r =>
    match s.mode s.running with
    | .sys i f => some (Socket.step s s.running i f r)
    | _ => none

/-- A fresh process: its semaphores have the initial values `value`. -/
def State.fresh (value : SemId → ℕ) : State where
  mode c := if c = 0 then .running else .unused
  stack _ := []
  cur := none
  main := .idle
  pool := []
  total := 0
  task _ := 0
  handle _ := 0
  nextTask := 0
  waiters _ := none
  waiter _ := Waiter._init
  nextWaiter := 0
  seconds _ := none
  nextTimeout := 0
  nextSleep := 0
  nextUuid := 0
  watcher _ := ⟨none, false⟩
  callbacks := []
  event _ := Event._init
  async _ := AsyncResult._init
  sem x := Semaphore._init (value x)
  queue _ := Queue._init none
  nextQueue := 0
  sock _ := ⟨none, false⟩
  nextSock := 0
  log := []

/-- A process with the queues of `maxsizes` made, before its first task. -/
def State.init (value : SemId → ℕ) (maxsizes : List (Option ℤ)) : State :=
  maxsizes.foldl Queue.new (State.fresh value)

end Levent
