/-
  What a step can do to the state, said once: every step is a sequence of
  `Micro` steps, each of which changes one thing (a coroutine is suspended, a
  waiter is settled and its coroutine resumed, an item is put, …) and carries
  what is known when it happens.  Invariants are proved of `Micro` steps only.

  Between its registration and its removal the waiter of a call that is being
  executed is in `links` though no coroutine is suspended for it: `Pend` names
  it.
-/
import Levent.Runtime.Step
import Mathlib.Logic.Relation

namespace Levent

/-! ## The parts of the state no invariant is about -/

structure Env where
  stack : Co → List Frame
  seconds : TimeoutId → Option ℤ
  nextTimeout : ℕ
  nextSleep : ℕ
  nextUuid : ℕ
  watcher : WatcherId → Watcher
  sock : SockId → Sock
  nextSock : ℕ

def State.env (s : State) : Env :=
  ⟨s.stack, s.seconds, s.nextTimeout, s.nextSleep, s.nextUuid, s.watcher, s.sock, s.nextSock⟩

def State.withEnv (s : State) (E : Env) : State :=
  { s with
    stack := E.stack, seconds := E.seconds, nextTimeout := E.nextTimeout
    nextSleep := E.nextSleep, nextUuid := E.nextUuid, watcher := E.watcher
    sock := E.sock, nextSock := E.nextSock }

/-- `s'` differs from `s` in these parts only; its watchers wake no other
    waiters than those of `s`, and `new`, and throw what those of `s` throw, or
    a timeout at the end of its timer. -/
structure State.EnvStep (s : State) (new : Option WaiterId) (s' : State) : Prop where
  eq : s' = s.withEnv s'.env
  wake : ∀ {x w u}, (s'.watcher x).cb = some (.wake w u) →
    (∃ x u, (s.watcher x).cb = some (.wake w u)) ∨ new = some w
  throw : ∀ {x c e}, (s'.watcher x).cb = some (.throw c e) →
    (s.watcher x).cb = some (.throw c e) ∨ ∃ t, x = .timeout t ∧ e = .timeout t

/-! ## Micro steps -/

/-- A coroutine in this mode has been resumed and has not yielded since. -/
def Mode.Active : Mode → Prop
  | .running | .sys .. => True
  | _ => False

/-- The code of `c` runs: a task the main coroutine has resumed, or the main
    coroutine in a callback of the user. -/
def State.Turn (s : State) (c : Co) : Prop :=
  s.mode c = .running ∧ ((c ≠ 0 ∧ s.cur = some c) ∨ (c = 0 ∧ s.cur = none ∧ s.main = .user))

/-- A callback that is neither a notification nor the start of a task. -/
def Callback.Plain : Callback → Prop
  | .throw .. | .cancelWait .. | .user => True
  | .notify _ | .resume .. => False

/-- A kill for a task is at the coroutine `spawn` returned for it. -/
def State.Aims (s : State) (cb : Callback) : Prop :=
  ∀ c e f, cb = .throw c e (some f) → f < s.nextTask ∧ s.handle f = c

/-- What is recorded apart from the micro steps that have records of their own. -/
def Obs.Plain : Obs → Prop
  | .ret .. => True
  | _ => False

theorem Obs.Plain.eq_ret {o : Obs} (h : o.Plain) : ∃ c vs, o = .ret c vs := by
  cases o with
  | ret c vs => exact ⟨c, vs, rfl⟩
  | _ => exact h.elim

/-- How a call of the semaphore ends that has started a timeout. -/
def Obs.Waited (x : SemId) : Obs → Prop
  | .semTrue x' _ (some _) | .semFalse x' .. | .semRaised x' _ => x' = x
  | _ => False

theorem Obs.Waited.ends {x : SemId} {o : Obs} (h : o.Waited x) :
    (∃ counter t, o = .semTrue x counter (some t)) ∨ (∃ v t, o = .semFalse x v t) ∨
      ∃ t, o = .semRaised x t := by
  cases o with
  | semTrue x' counter t =>
    cases t with
    | none => exact h.elim
    | some t => cases h; exact .inl ⟨counter, t, rfl⟩
  | semFalse x' v t => cases h; exact .inr (.inl ⟨v, t, rfl⟩)
  | semRaised x' t => cases h; exact .inr (.inr ⟨t, rfl⟩)
  | _ => exact h.elim

/-- Nobody has waited on the waiter, and it is not settled. -/
def Waiter.New (o : Waiter) : Prop := o.co = none ∧ o.exception = .bool false

/-- Which micro steps are considered: `raw` allows those that only operations on
    waiters by hand lead to, `ok` restricts the waiters that are settled, `kill`
    the tasks a kill that finds its coroutine blocked is for, `begin` the
    notifications that run, `set` the results that are set. -/
structure Rules where
  raw : Prop
  ok : (EventId → Event) → WaiterId → Prop
  kill : List Obs → Option TaskId → Prop
  begin : Sync → Prop
  set : AsyncId → Value → Value → Prop

/-- The waiter in `links` of the call that is being executed. -/
abbrev Pend := Option (Sync × WaiterId)

/-- The waiter of the call `k`, as a pending one. -/
def Call.pend (k : Call) (w : WaiterId) : Pend := k.sync.map fun y => (y, w)

/-- The waiters the notification of `y` goes over. -/
def State.waiting (s : State) : Sync → Finset WaiterId
  | .event e => (s.event e).todo
  | y => s.links y

/-- The notification of `y` has come to `w`: that of an event takes it out of `todo`. -/
def State.take (s : State) (y : Sync) (w : WaiterId) : State :=
  match y with
  | .event e => s.setEvent e { s.event e with todo := (s.event e).todo.erase w }
  | _ => s

/-- The state in which `w` is settled by the notification of `y`, if by one. -/
def State.takes (s : State) (w : WaiterId) : Option Sync → State
  | none => s
  | some y => (s.take y w).emit (.notified y w)

/-- A notification that switches `w` with the value `v`. -/
def State.Notifies (s : State) (w : WaiterId) (v exception : Value) (y : Sync) : Prop :=
  s.main = .notify y ∧ w ∈ s.waiting y ∧ v = .bool true ∧ exception = .nil

/-- `c` is suspended in `w:get()` of the call `k`. -/
def State.block (s : State) (c : Co) (w : WaiterId) (k : Call) : State :=
  { (s.emit (.getCall w c)).setWaiter w { s.waiter w with co := some c } with
    waiters := Function.update s.waiters c (some w)
    mode := Function.update s.mode c (.blocked w k)
    cur := none }

/-- `w:get()` fails in the main coroutine. -/
def State.mainGet (s : State) (w : WaiterId) (v : Value) : State :=
  { ((s.emit (.getCall w 0)).setWaiter w { s.waiter w with co := some 0 }).emit
      (.getDone w (.error v)) with
    waiters := if (s.waiters 0).isSome then s.waiters
      else Function.update s.waiters 0 (some w) }

/-- A waiter is settled. -/
def State.settle (s : State) (w : WaiterId) (value exception : Value) : State :=
  (s.setWaiter w ⟨(s.waiter w).co, value, exception⟩).emit (.settled w value exception)

/-- `w` is settled and `c` resumed: `Hub:_yield` and `Waiter:get` end. -/
def State.resume (s : State) (c : Co) (w : WaiterId) (value exception : Value) : State :=
  { s.settle w value exception with
    waiters := Function.update s.waiters c none
    mode := Function.update s.mode c .running
    cur := some c }.emit (.getDone w (Waiter.result ⟨(s.waiter w).co, value, exception⟩))

/-- A waiter is made and registered at `y`. -/
def State.newLink (s : State) (y : Sync) : State := (Hub.waiter s).2.link y s.nextWaiter

/-- The pooled coroutine `co` gets the function of a new task, and is to be started. -/
def State.spawned (s : State) (co : Co) (args : List Value) : State :=
  Loop.runCallback
    { s.setMode co (.ready (some s.nextTask)) with
      pool := s.pool.dropLast, nextTask := s.nextTask + 1
      handle := Function.update s.handle s.nextTask co } (.resume co args)

variable (R : Rules)

inductive Micro : Pend → State → Pend → State → Prop
  | env (p s s') : s.EnvStep none s' → Micro p s p s'
  | emit (s o) : o.Plain → Micro none s none (s.emit o)
  -- the coroutine that runs
  | goOn (s c m) : s.Turn c → m.Active → Micro none s none (s.setMode c m)
  | answer (s c i f) : s.running = c → s.mode c = .sys i f →
      Micro none s none (s.setMode c .running)
  | returned (s c) : s.Turn c → c ≠ 0 →
      Micro none s none
        (giveBack { (s.setMode c .pooled).emit (.finished (s.task c)) with pool := s.pool ++ [c] })
  | failed (s c v) : s.Turn c → c ≠ 0 →
      Micro none s none (giveBack ((s.setMode c .dead).emit (.failed (s.task c) v)))
  | mainDone (s) : s.Turn 0 → Micro none s none { s with main := .idle }
  | enter (s) : s.Between → Micro none s none { s with main := .user }
  -- the callback queue
  | post (s cb) : cb.Plain → s.Aims cb → (∀ c e f, cb = .throw c e f → e = .kill) →
      Micro none s none (Loop.runCallback s cb)
  | pop (s cb cbs) : s.Between → cb.Plain → s.callbacks = cb :: cbs →
      Micro none s none { s with callbacks := cbs }
  | kill (s c e target cbs w) : s.Between → s.callbacks = .throw c e target :: cbs →
      s.waiters c = some w → R.kill s.log target →
      Micro none s none ({ s with callbacks := cbs }.emit (.killed target (s.task c)))
  | begin (s y cbs) : s.Between → s.callbacks = .notify y :: cbs → R.begin y →
      Micro none s none { s with callbacks := cbs, main := .notify y }
  | start (s c f args cbs) : s.Between → s.callbacks = .resume c args :: cbs →
      s.mode c = .ready (some f) →
      Micro none s none
        ({ s.setMode c .running with
            callbacks := cbs, cur := some c, task := Function.update s.task c f }.emit
          (.started (some f) args))
  | endNotify (s y) : s.main = .notify y → s.cur = none →
      (∀ q, y = .put q → (s.queue q).isFull ∨ (s.queue q).putters = ∅) →
      (∀ q, y = .get q → (s.queue q).length = 0 ∨ (s.queue q).getters = ∅) →
      (∀ e, y = .event e → (s.event e).todo = ∅) →
      (∀ a, y = .async a → (s.async a).links = ∅) →
      Micro none s none (endNotify s y)
  | abort (s y w) : s.main = .notify y → s.cur = none → w ∈ s.waiting y →
      (s.waiter w).exception ≠ .bool false →
      Micro none s none ({ s.takes w (some y) with main := .idle }.emit (.aborted y))
  -- tasks
  | rawCreate (s) : Micro none s none (Coroutines.coRawCreate s)
  | spawn (s co args) : s.pool.getLast? = some co → s.mode co = .pooled →
      Micro none s none (s.spawned co args)
  -- locks
  | eventSet (s e) : Micro none s none (Event.set s e)
  | eventClear (s e) : Micro none s none (Event.clear s e)
  | asyncSet (s a v e s') : AsyncResult._set s a v e = .ok s' → R.set a v e →
      Micro none s none s'
  | semRelease (s x) : Micro none s none (Semaphore.release s x)
  | semAcquire (s x) : 0 < (s.sem x).counter →
      Micro none s none
        ((s.setSem x { s.sem x with counter := (s.sem x).counter - 1 }).emit (.acquired x))
  | semPass (s x c) : 0 < (s.sem x).counter →
      Micro none s none
        ((s.emit (.semCall x c (s.sem x).counter)).emit (.semTrue x (s.sem x).counter none))
  | semRefuse (s x c t s') : ¬ 0 < (s.sem x).counter →
      ((s.emit (.semCall x c (s.sem x).counter)).newLink (.sem x)).EnvStep none s' →
      Micro none s none (s'.emit (.semRaised x t))
  | semWaited (s x w o s') : o.Waited x → (s.unlink (.sem x) w).EnvStep none s' →
      Micro (some (.sem x, w)) s none (s'.emit o)
  -- queues
  | put (s q item) : R.raw ∨ (s.queue q).hasRoom →
      Micro none s none ((Queue._put s q item).emit (.putDone q item))
  | get (s q item s') : Queue._get s q = .ok (item, s') →
      Micro none s none (s'.emit (.gotItem q item))
  | assertGet (s q) : R.raw → Micro none s none (s.emit (.assertGet q))
  -- waiters
  | waiter (s s') : (Hub.waiter s).2.EnvStep (some s.nextWaiter) s' → Micro none s none s'
  | link (s y) : (∀ x, y ≠ .sem x) → (∀ q, y = .put q → ¬ (s.queue q).hasRoom) →
      (∀ q, y = .get q → (s.queue q).length = 0) →
      (∀ a, y = .async a → (s.async a).exception = .bool false) →
      Micro none s (some (y, s.nextWaiter)) (s.newLink y)
  | unlink (s y w) : (∀ x, y ≠ .sem x) → Micro (some (y, w)) s none (s.unlink y w)
  | block (s c w k) : s.Turn c → c ≠ 0 → s.waiters c = none → w < s.nextWaiter →
      (s.waiter w).New → Micro (k.pend w) s none (s.block c w k)
  | mainGet (p s w v) : s.Turn 0 → (s.waiter w).New → w < s.nextWaiter →
      Micro p s p (s.mainGet w v)
  | settledGet (s w c) : (s.waiter w).exception ≠ .bool false → (∀ c, .getCall w c ∉ s.log) →
      Micro none s none ((s.emit (.getCall w c)).emit (.getDone w (s.waiter w).result))
  | settle (s w v e b) : (s.waiter w).exception = .bool false → (s.waiter w).co.getD 0 = 0 →
      w < s.nextWaiter → e ≠ .bool false → R.ok (s.takes w b).event w →
      (∀ y, b = some y → s.Notifies w v e y) → Micro none s none ((s.takes w b).settle w v e)
  | resume (s c w k v e b) : s.mode c = .blocked w k → s.cur = none → e ≠ .bool false →
      R.ok (s.takes w b).event w → (∀ y, b = some y → s.Notifies w v e y) →
      Micro none s (k.pend w) ((s.takes w b).resume c w v e)

/-- A sequence of micro steps. -/
def Micros (p : Pend) (s : State) (p' : Pend) (s' : State) : Prop :=
  Relation.ReflTransGen (fun a b : Pend × State => Micro R a.1 a.2 b.1 b.2) (p, s) (p', s')

variable {R}

theorem Micros.refl {p : Pend} {s : State} : Micros R p s p s := Relation.ReflTransGen.refl

theorem Micro.one {p p' : Pend} {s s' : State} (h : Micro R p s p' s') : Micros R p s p' s' :=
  Relation.ReflTransGen.single h

theorem Micros.trans {p p' p'' : Pend} {s s' s'' : State} (h1 : Micros R p s p' s')
    (h2 : Micros R p' s' p'' s'') : Micros R p s p'' s'' :=
  Relation.ReflTransGen.trans h1 h2

/-- **The invariant rule for micro steps.** -/
theorem Micros.inv {I : Pend → State → Prop}
    (hI : ∀ {p s p' s'}, Micro R p s p' s' → I p s → I p' s') {p p' : Pend} {s s' : State}
    (h : Micros R p s p' s') (h0 : I p s) : I p' s' := by
  unfold Micros at h
  generalize ha : (p, s) = a at h
  generalize hb : (p', s') = b at h
  induction h generalizing p' s' with
  | refl => subst ha; cases hb; exact h0
  | tail _ hm ih => subst hb; exact hI hm (ih rfl)

/-! ## What the partial operations do -/

theorem AsyncResult._set_ok {s s' : State} {a : AsyncId} {v e : Value} :
    AsyncResult._set s a v e = .ok s' ↔ (s.async a).exception = .bool false ∧
      s' = Loop.runCallback (s.setAsync a { s.async a with value := v, exception := e })
        (.notify (.async a)) := by
  unfold AsyncResult._set
  split <;> simp_all [eq_comm]

/-- The queue after `_get`, and whether it queues `_put_unlock`. -/
def Queue.removed (o : Queue) : Queue × Bool :=
  let armed : Bool := !o.isInPutUnlock && decide o.putters.Nonempty
  ({ o with
      items := o.items.tail, length := o.length - 1, isInPutUnlock := o.isInPutUnlock || armed },
    armed)

theorem Queue._get_ok {s s' : State} {q : QueueId} {item : Value} :
    Queue._get s q = .ok (item, s') ↔ 0 < (s.queue q).length ∧
      item = (s.queue q).items.headD .nil ∧
      s' = if (s.queue q).removed.2 then
          Loop.runCallback ((s.setQueue q (s.queue q).removed.1).emit (.removed q item))
            (.notify (.put q))
        else (s.setQueue q (s.queue q).removed.1).emit (.removed q item) := by
  unfold Queue._get Queue.removed
  dsimp only
  split
  · rename_i h
    simp only [Except.ok.injEq, Prod.mk.injEq, h, true_and]
    constructor
    · rintro ⟨rfl, rfl⟩; exact ⟨rfl, rfl⟩
    · rintro ⟨rfl, rfl⟩; exact ⟨rfl, rfl⟩
  · simp_all

/-! ## What the operations leave alone -/

/-- The coroutines the queued callbacks will start. -/
def resumed (cbs : List Callback) : List Co :=
  cbs.filterMap fun
    | .resume c _ => some c
    | _ => none

theorem resumed_append (l l' : List Callback) : resumed (l ++ l') = resumed l ++ resumed l' := by
  simp [resumed]

theorem resumed_plain {cb : Callback} (h : cb.Plain) (l : List Callback) :
    resumed (l ++ [cb]) = resumed l ∧ resumed (cb :: l) = resumed l := by
  cases cb <;> simp [resumed, Callback.Plain] at *

/-- At most a notification has been queued. -/
def Notified (l l' : List Callback) : Prop := l' = l ∨ ∃ y, l' = l ++ [.notify y]

theorem Notified.resumed {l l' : List Callback} (h : Notified l l') :
    resumed l' = Levent.resumed l := by
  rcases h with rfl | ⟨y, rfl⟩
  · rfl
  · simp [Levent.resumed]

theorem Notified.throw {l l' : List Callback} (h : Notified l l') {c : Co} {e : Exn}
    {target : Option TaskId} (hm : .throw c e target ∈ l') : .throw c e target ∈ l := by
  rcases h with rfl | ⟨y, rfl⟩
  · exact hm
  · simpa using hm

section
variable (s : State)

theorem State.EnvStep.frame {s s' : State} {new : Option WaiterId} (h : s.EnvStep new s') :
    ∃ E, s' = s.withEnv E := ⟨_, h.eq⟩

theorem Event.set_frame (e : EventId) :
    ∃ E C L, Event.set s e = { s with event := E, callbacks := C, log := L } ∧
      Notified s.callbacks C := by
  unfold Event.set; dsimp only
  split
  · exact ⟨_, _, _, rfl, Or.inl rfl⟩
  · exact ⟨_, _, _, rfl, Or.inr ⟨_, rfl⟩⟩

theorem AsyncResult._set_frame {a : AsyncId} {v e : Value} {s' : State}
    (h : AsyncResult._set s a v e = .ok s') :
    ∃ A C, s' = { s with async := A, callbacks := C } ∧ Notified s.callbacks C := by
  obtain ⟨-, rfl⟩ := AsyncResult._set_ok.1 h
  exact ⟨_, _, rfl, Or.inr ⟨_, rfl⟩⟩

theorem Semaphore.release_frame (x : SemId) :
    ∃ M C L, Semaphore.release s x = { s with sem := M, callbacks := C, log := L } ∧
      Notified s.callbacks C := by
  unfold Semaphore.release; dsimp only
  split
  · dsimp only [Loop.runCallback, State.setSem, State.emit]
    exact ⟨_, _, _, rfl, Or.inr ⟨_, rfl⟩⟩
  · exact ⟨_, _, _, rfl, Or.inl rfl⟩

theorem Queue._put_frame (q : QueueId) (item : Value) :
    ∃ Q E C L, Queue._put s q item =
      { s with queue := Q, event := E, callbacks := C, log := L } ∧
        Notified s.callbacks C := by
  unfold Queue._put; dsimp only
  split
  · dsimp only [Loop.runCallback, State.setQueue, Event.clear, State.emit]
    exact ⟨_, _, _, _, rfl, Or.inr ⟨_, rfl⟩⟩
  · exact ⟨_, _, _, _, rfl, Or.inl rfl⟩

theorem Queue._get_frame {q : QueueId} {item : Value} {s' : State}
    (h : Queue._get s q = .ok (item, s')) :
    ∃ Q C L, s' = { s with queue := Q, callbacks := C, log := L } ∧
      Notified s.callbacks C := by
  obtain ⟨-, -, rfl⟩ := Queue._get_ok.1 h
  split
  · exact ⟨_, _, _, rfl, Or.inr ⟨_, rfl⟩⟩
  · exact ⟨_, _, _, rfl, Or.inl rfl⟩

theorem State.setLinks_frame (L : Finset WaiterId) (y : Sync) :
    ∃ E A M Q, s.setLinks L y = { s with event := E, async := A, sem := M, queue := Q } := by
  cases y <;> exact ⟨_, _, _, _, rfl⟩

theorem State.newLink_frame (y : Sync) :
    ∃ E A M Q, s.newLink y =
      { (Hub.waiter s).2 with event := E, async := A, sem := M, queue := Q } :=
  State.setLinks_frame _ _ y

theorem State.take_frame (y : Sync) (w : WaiterId) :
    ∃ E, s.take y w = { s with event := E } := by
  cases y <;> exact ⟨_, rfl⟩

theorem State.takes_frame (w : WaiterId) (b : Option Sync) :
    ∃ E L, s.takes w b = { s with event := E, log := L } := by
  rcases b with _ | y
  · exact ⟨_, _, rfl⟩
  · obtain ⟨E, he⟩ := s.take_frame y w
    exact ⟨E, _, by rw [State.takes, he]; rfl⟩

theorem endNotify_frame (y : Sync) :
    ∃ E Q, endNotify s y = { s with event := E, queue := Q, main := .idle } := by
  cases y <;> exact ⟨_, _, rfl⟩

end

end Levent
