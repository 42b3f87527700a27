/-
  `coroutines.lua`: the pool of coroutines, called by the main coroutine and by
  the tasks themselves.

  A coroutine of the pool is given a function by one resume and the arguments of
  it by the next.  Where it waits for them depends on whether it has run a task
  before; a task may yield in between, and resume others.
-/
import Mathlib.Data.Finset.Card
import Mathlib.Data.List.TakeWhile
import Mathlib.Logic.Function.Basic
import Levent.Lib.Run

namespace Levent.Pool

open Lib (Along run)

/-! ## Values and coroutines -/

abbrev Co := ℕ
/-- One call of `coroutines.create`. -/
abbrev TaskId := ℕ
/-- A function of the user. -/
abbrev Func := ℕ

/-- Lua values; `task t f` is the function that `coroutines.create` makes around `f`. -/
inductive Value where
  | nil
  | int (n : ℤ)
  | func (f : Func)
  | task (t : TaskId) (f : Func)
  deriving DecidableEq

/-- Where a coroutine is: not started, at `local f = coroutine.yield()`, at the yield of
    `f(coroutine.yield())`, or in `f` itself, which runs or has resumed another one if
    `active`, and has yielded if not. -/
inductive Mode where
  | unused
  | fresh
  | next
  | ready (f : Value)
  | inside (f : Value) (active : Bool)
  | dead
  deriving DecidableEq

/-- What is recorded: a call of `coroutines.create` and the coroutine it returns, one of
    `resume`, the call of a task's function, and its end. -/
inductive Obs where
  | created (t : TaskId) (co : Co) (f : Func)
  | resumed (co : Co) (args : List Value)
  | called (t : TaskId) (f : Func) (args : List Value)
  | finished (t : TaskId)
  | failed (t : TaskId)
  deriving DecidableEq

/-- `coroutine_pool` and `total`, the coroutines that are active with the running one
    first, and the record. -/
structure State where
  mode : Co → Mode
  pool : List Co
  total : ℕ
  stack : List Co
  nextTask : ℕ
  log : List Obs

namespace State

def init : State := ⟨fun _ => .unused, [], 0, [], 0, []⟩

variable (s : State)

def emit (o : Obs) : State := { s with log := s.log ++ [o] }

def setMode (co : Co) (m : Mode) : State := { s with mode := Function.update s.mode co m }

/-- The function of a coroutine begins, or goes on. -/
def enter (co : Co) (f : Value) : State :=
  { s.setMode co (.inside f true) with stack := co :: s.stack }

/-- `coroutine.resume(co, ...)`: what it does depends on where `co` is.  The error it
    returns otherwise is ignored by `co_create`, and raised by `coroutines.resume`. -/
def coResume (co : Co) (args : List Value) : State :=
  match s.mode co with
  | .fresh | .next => s.setMode co (.ready (args.headD .nil))
  | .ready (.task t f) => (s.enter co (.task t f)).emit (.called t f args)
  | .ready (.func f) => s.enter co (.func f)
  | .ready _ => s.setMode co .dead
  | .inside f false => s.enter co f
  | .inside _ true | .unused | .dead => s

/-- `co_raw_create` -/
def coRawCreate : State :=
  { s.setMode s.total .fresh with total := s.total + 1, pool := s.pool ++ [s.total] }

/-- `co_create` -/
def coCreate (f : Value) : Co × State :=
  let s := if s.pool = [] then s.coRawCreate else s
  let co := s.pool.getLastD 0
  (co, coResume { s with pool := s.pool.dropLast } co [f])

/-- `coroutines.create` -/
def create (f : Func) : State :=
  let r := s.coCreate (.task s.nextTask f)
  { r.2 with nextTask := s.nextTask + 1 }.emit (.created s.nextTask r.1 f)

/-- `coroutines.resume` -/
def resume (co : Co) (args : List Value) : State := (s.emit (.resumed co args)).coResume co args

/-- `coroutines.check` -/
def check (count : ℤ) : State := coRawCreate^[(count - s.pool.length).toNat] s

/-- `coroutines.running` -/
def running : ℤ := s.total - s.pool.length

/-- What a coroutine records at the end of its function. -/
def record (o : TaskId → Obs) : Value → State
  | .task t _ => s.emit (o t)
  | _ => s

/-- The function of `co` returns: the coroutine goes back into the pool. -/
def done (co : Co) (f : Value) : State :=
  { (s.record .finished f).setMode co .next with pool := s.pool ++ [co] }

/-- It raises an error. -/
def fail (co : Co) (f : Value) : State := (s.record .failed f).setMode co .dead

end State

/-! ## Steps -/

/-- The code that is running makes a call, or the function of the running coroutine
    yields, returns or raises. -/
inductive Act where
  | create (f : Func)
  | resume (co : Co) (args : List Value)
  | check (count : ℤ)
  | yield
  | done
  | fail

/-- The running coroutine stops, with what `stop` makes of its function. -/
def State.stop (s : State) (stop : State → Co → Value → State) : Option State :=
  match s.stack with
  | [] => none
  | co :: st =>
    match s.mode co with
    | .inside f _ => some (stop { s with stack := st } co f)
    | _ => none

/-- One step.  Only coroutines that exist can be resumed. -/
def step (s : State) : Act → Option State
  | .create f => some (s.create f)
  | .resume co args => if co < s.total then some (s.resume co args) else none
  | .check count => some (s.check count)
  | .yield => s.stop fun s co f => s.setMode co (.inside f false)
  | .done => s.stop State.done
  | .fail => s.stop State.fail

/-! ## What is recorded of a task -/

def Obs.createdBy (t : TaskId) : Obs → Bool
  | .created t' _ _ => t' = t
  | _ => false

def Obs.resumedAt (co : Co) : Obs → Option (List Value)
  | .resumed co' args => if co' = co then some args else none
  | _ => none

def Obs.callOf (t : TaskId) : Obs → Option (Func × List Value)
  | .called t' f args => if t' = t then some (f, args) else none
  | _ => none

namespace State

variable (s : State)

/-- The calls of the function of `t`. -/
def calls (t : TaskId) : List (Func × List Value) := s.log.filterMap (Obs.callOf t)

/-- The arguments of the first `resume` of `co` after the creation of `t`. -/
def firstResume (t : TaskId) (co : Co) : Option (List Value) :=
  (s.log.dropWhile fun o => !o.createdBy t).findSome? (Obs.resumedAt co)

/-- The tasks that have not finished normally. -/
def unfinished : ℕ := ((Finset.range s.nextTask).filter fun t => .finished t ∉ s.log).card

end State

variable {s s' t : State} {co : Co} {m : Mode} {as : List Act}

theorem calls_append {os : List Obs} (h : s'.log = s.log ++ os) (t : TaskId) :
    s'.calls t = s.calls t ++ os.filterMap (Obs.callOf t) := by
  simp [State.calls, h]

/-- What is no call of a task does not change its calls. -/
theorem calls_eq {o : Obs} (h : s'.log = s.log ++ [o]) {t : TaskId} (ho : o.callOf t = none) :
    s'.calls t = s.calls t := by
  rw [calls_append h, List.filterMap_cons_none ho, List.filterMap_nil, List.append_nil]

theorem dropWhile_created {l : List Obs} {t : TaskId} {f : Func} (h : .created t co f ∈ l) (os : List Obs) :
    (l ++ os).dropWhile (fun o => !o.createdBy t) = l.dropWhile (fun o => !o.createdBy t) ++ os := by
  rw [List.dropWhile_append, if_neg]
  intro hnil
  have := List.dropWhile_eq_nil_iff.1 (List.isEmpty_iff.1 hnil) _ h
  simp [Obs.createdBy] at this

theorem firstResume_append {os : List Obs} (h : s'.log = s.log ++ os) {t : TaskId} {f : Func}
    (hc : .created t co f ∈ s.log) :
    s'.firstResume t co = (s.firstResume t co).or (os.findSome? (Obs.resumedAt co)) := by
  rw [State.firstResume, h, dropWhile_created hc, List.findSome?_append]
  rfl

/-- What is no resume of a coroutine does not change the first one. -/
theorem firstResume_eq {o : Obs} (h : s'.log = s.log ++ [o]) {t : TaskId} {f : Func}
    (hc : .created t co f ∈ s.log) (ho : o.resumedAt co = none) :
    s'.firstResume t co = s.firstResume t co := by
  rw [firstResume_append h hc, List.findSome?_singleton, ho, Option.or_none]

/-- A task that is created has not been resumed. -/
theorem firstResume_created {t : TaskId} {f : Func} (h : s'.log = s.log ++ [.created t co f])
    (hn : ∀ co f, .created t co f ∉ s.log) : s'.firstResume t co = none := by
  have hdrop : s.log.dropWhile (fun o => !o.createdBy t) = [] := by
    refine List.dropWhile_eq_nil_iff.2 fun o ho => ?_
    cases o with
    | created t' co f =>
      have : t' ≠ t := by
        rintro rfl
        exact hn co f ho
      simp [Obs.createdBy, this]
    | _ => rfl
  rw [State.firstResume, h, List.dropWhile_append, hdrop]
  simp [Obs.createdBy, Obs.resumedAt]

/-! ## Invariants -/

/-- The function a coroutine has been given. -/
def Mode.value : Mode → Option Value
  | .ready f | .inside f _ => some f
  | _ => none

/-- Where the coroutines are: those of the pool wait for a function, those of the stack
    are active. -/
structure State.Places (s : State) : Prop where
  nodup : s.pool.Nodup
  pool : ∀ co, co ∈ s.pool ↔ s.mode co = .fresh ∨ s.mode co = .next
  stackNodup : s.stack.Nodup
  stack : ∀ co, co ∈ s.stack ↔ ∃ f, s.mode co = .inside f true
  unused : ∀ co, s.mode co = .unused ↔ s.total ≤ co

/-- What the coroutines outside the pool do for the tasks. -/
structure State.Tasks (s : State) : Prop where
  made : ∀ t co f, .created t co f ∈ s.log → t < s.nextTask
  sole : ∀ t co co' f f', .created t co f ∈ s.log → .created t co' f' ∈ s.log → co = co' ∧ f = f'
  held : ∀ co v, (s.mode co).value = some v →
    ∃ t f, v = .task t f ∧ .created t co f ∈ s.log ∧ .finished t ∉ s.log
  task : ∀ t co f, .created t co f ∈ s.log → .finished t ∉ s.log →
    (s.mode co).value = some (.task t f) ∨ s.mode co = .dead
  waits : ∀ t co f, .created t co f ∈ s.log → s.mode co = .ready (.task t f) →
    s.firstResume t co = none ∧ s.calls t = []
  called : ∀ t co f, .created t co f ∈ s.log → s.mode co ≠ .ready (.task t f) →
    ∃ args, s.firstResume t co = some args ∧ s.calls t = [(f, args)]
  ended : ∀ t, .finished t ∈ s.log → t < s.nextTask
  uncalled : ∀ t, s.nextTask ≤ t → s.calls t = []

/-- A coroutine that does not wait for arguments goes elsewhere with its function, or
    dies. -/
theorem State.Tasks.setMode {c : Co} (h : s.Tasks) (hm : m.value = (s.mode c).value ∨ m = .dead)
    (hd : s.mode c ≠ .dead)
    (hr : ∀ v, s.mode c ≠ .ready v) (hr' : ∀ v, m ≠ .ready v)
    (hs : s'.mode = Function.update s.mode c m) (hl : s'.log = s.log)
    (hn : s'.nextTask = s.nextTask) : s'.Tasks where
  made t co' f hc := by
    rw [hn]
    exact h.made t co' f (hl ▸ hc)
  sole t co₁ co₂ f₁ f₂ h₁ h₂ := h.sole t co₁ co₂ f₁ f₂ (hl ▸ h₁) (hl ▸ h₂)
  held co' v hv := by
    rw [hl]
    refine h.held co' v ?_
    rw [hs] at hv
    by_cases hco : co' = c
    · subst hco
      rw [Function.update_self] at hv
      rcases hm with hm | rfl
      · exact hm ▸ hv
      · cases hv
    · rwa [Function.update_of_ne hco] at hv
  task t co' f hc hf := by
    rw [hl] at hc hf
    rw [hs]
    by_cases hco : co' = c
    · subst hco
      rw [Function.update_self]
      rcases hm with hm | rfl
      · rcases h.task t co' f hc hf with h1 | h1
        · exact .inl (hm.trans h1)
        · exact absurd h1 hd
      · exact .inr rfl
    · rw [Function.update_of_ne hco]
      exact h.task t co' f hc hf
  waits t co' f hc hw := by
    rw [hs] at hw
    by_cases hco : co' = c
    · subst hco
      rw [Function.update_self] at hw
      exact absurd hw (hr' _)
    · rw [Function.update_of_ne hco] at hw
      rw [State.firstResume, State.calls, hl]
      exact h.waits t co' f (hl ▸ hc) hw
  called t co' f hc hw := by
    rw [State.firstResume, State.calls, hl]
    refine h.called t co' f (hl ▸ hc) fun hw' => ?_
    by_cases hco : co' = c
    · subst hco
      exact hr _ hw'
    · rw [hs, Function.update_of_ne hco] at hw
      exact hw hw'
  ended t ht := by
    rw [hn]
    exact h.ended t (hl ▸ ht)
  uncalled t ht := by
    rw [State.calls, hl]
    exact h.uncalled t (hn ▸ ht)

/-- Nothing is recorded of a task but the error it has raised; a coroutine that waits
    for arguments is not resumed. -/
theorem State.Tasks.emit (h : s.Tasks) {o : Obs} (ho : ∀ t, o.createdBy t = false)
    (hf : ∀ t, o ≠ .finished t) (hc : ∀ t, o.callOf t = none)
    (hr : ∀ co args, o = .resumed co args → ∀ v, s.mode co ≠ .ready v) (hs : s'.mode = s.mode)
    (hl : s'.log = s.log ++ [o]) (hn : s'.nextTask = s.nextTask) : s'.Tasks := by
  have hcr : ∀ t co f, .created t co f ∈ s'.log ↔ .created t co f ∈ s.log := by
    intro t co f
    rw [hl, List.mem_append, List.mem_singleton]
    refine or_iff_left ?_
    rintro rfl
    simpa [Obs.createdBy] using ho t
  have hfin : ∀ t, .finished t ∈ s'.log ↔ .finished t ∈ s.log := by
    intro t
    rw [hl, List.mem_append, List.mem_singleton]
    exact or_iff_left fun h => hf t h.symm
  have hcalls : ∀ t, s'.calls t = s.calls t := fun t => calls_eq hl (hc t)
  refine ⟨?_, ?_, ?_, ?_, ?_, ?_, ?_, ?_⟩
  · simpa only [hcr, hn] using h.made
  · simpa only [hcr] using h.sole
  · simpa only [hcr, hfin, hs] using h.held
  · simpa only [hcr, hfin, hs] using h.task
  · intro t co f hc hw
    rw [hcr] at hc
    rw [hs] at hw
    obtain ⟨h1, h2⟩ := h.waits t co f hc hw
    have ho : o.resumedAt co = none := by
      cases o with
      | resumed co' args =>
        have : co' ≠ co := by
          rintro rfl
          exact hr co' args rfl _ hw
        simp [Obs.resumedAt, this]
      | _ => rfl
    exact ⟨(firstResume_eq hl hc ho).trans h1, (hcalls t).trans h2⟩
  · intro t co f hc hw
    rw [hcr] at hc
    rw [hs] at hw
    obtain ⟨args, h1, h2⟩ := h.called t co f hc hw
    refine ⟨args, ?_, (hcalls t).trans h2⟩
    rw [firstResume_append hl hc, h1, Option.some_or]
  · simpa only [hfin, hn] using h.ended
  · simpa only [hcalls, hn] using h.uncalled

/-- The coroutine of a task is resumed for the first time. -/
theorem State.Tasks.start (h : s.Tasks) {t : TaskId} {f : Func} (hm : s.mode co = .ready (.task t f))
    (args : List Value) (hs : s'.mode = Function.update s.mode co (.inside (.task t f) true))
    (hl : s'.log = s.log ++ [.resumed co args, .called t f args]) (hn : s'.nextTask = s.nextTask) :
    s'.Tasks := by
  obtain ⟨t₀, f₀, hv, hcreated, -⟩ := h.held co (.task t f) (by rw [hm]; rfl)
  cases hv
  have hcr : ∀ t co f, .created t co f ∈ s'.log ↔ .created t co f ∈ s.log := by
    intro t co f
    simp [hl]
  have hfin : ∀ t, .finished t ∈ s'.log ↔ .finished t ∈ s.log := by
    intro t
    simp [hl]
  have hvalue : ∀ co', (s'.mode co').value = (s.mode co').value := by
    intro co'
    rw [hs]
    by_cases hco : co' = co
    · subst hco
      rw [Function.update_self, hm]
      rfl
    · rw [Function.update_of_ne hco]
  have hcalls : ∀ t', t' ≠ t → s'.calls t' = s.calls t' := by
    intro t' ht
    rw [calls_append hl]
    simp [Obs.callOf, Ne.symm ht]
  have hfirst : ∀ t' co' f', .created t' co' f' ∈ s.log → co' ≠ co →
      s'.firstResume t' co' = s.firstResume t' co' := by
    intro t' co' f' hc hco
    rw [firstResume_append hl hc]
    simp [Obs.resumedAt, Ne.symm hco]
  -- another task of the same coroutine has been resumed before
  have hother : ∀ t' f', .created t' co f' ∈ s.log → t' ≠ t → s.mode co ≠ .ready (.task t' f') := by
    intro t' f' _ ht hm'
    rw [hm] at hm'
    cases hm'
    exact ht rfl
  refine ⟨?_, ?_, ?_, ?_, ?_, ?_, ?_, ?_⟩
  · simpa only [hcr, hn] using h.made
  · simpa only [hcr] using h.sole
  · simpa only [hcr, hfin, hvalue] using h.held
  · intro t' co' f' hc hf
    rw [hcr] at hc
    rw [hfin] at hf
    rw [hvalue]
    refine (h.task t' co' f' hc hf).imp_right fun hd => ?_
    have hco : co' ≠ co := by
      rintro rfl
      rw [hm] at hd
      cases hd
    rw [hs, Function.update_of_ne hco, hd]
  · intro t' co' f' hc hw
    rw [hcr] at hc
    have hco : co' ≠ co := by
      rintro rfl
      rw [hs, Function.update_self] at hw
      cases hw
    rw [hs, Function.update_of_ne hco] at hw
    have ht : t' ≠ t := by
      rintro rfl
      exact hco (h.sole t' co' co f' f hc hcreated).1
    rw [hcalls t' ht, hfirst t' co' f' hc hco]
    exact h.waits t' co' f' hc hw
  · intro t' co' f' hc hw
    rw [hcr] at hc
    by_cases ht : t' = t
    · subst ht
      obtain ⟨rfl, rfl⟩ := h.sole t' co' co f' f hc hcreated
      obtain ⟨h1, h2⟩ := h.waits t' co' f' hc hm
      refine ⟨args, ?_, ?_⟩
      · rw [firstResume_append hl hc, h1]
        simp [Obs.resumedAt]
      · rw [calls_append hl, h2]
        simp [Obs.callOf, List.filterMap_cons]
    · rw [hcalls t' ht]
      by_cases hco : co' = co
      · subst hco
        obtain ⟨args', h1, h2⟩ := h.called t' co' f' hc (hother t' f' hc ht)
        exact ⟨args', by rw [firstResume_append hl hc, h1, Option.some_or], h2⟩
      · rw [hfirst t' co' f' hc hco]
        rw [hs, Function.update_of_ne hco] at hw
        exact h.called t' co' f' hc hw
  · simpa only [hfin, hn] using h.ended
  · intro t' ht
    rw [hn] at ht
    rw [hcalls t' (h.made t co f hcreated |>.trans_le ht).ne']
    exact h.uncalled t' ht

/-- A coroutine of the pool gets the function of a new task. -/
theorem State.Tasks.create (h : s.Tasks) (hm : s.mode co = .fresh ∨ s.mode co = .next) (f : Func)
    (hs : s'.mode = Function.update s.mode co (.ready (.task s.nextTask f)))
    (hl : s'.log = s.log ++ [.created s.nextTask co f]) (hn : s'.nextTask = s.nextTask + 1) : s'.Tasks := by
  have hcr : ∀ t' co' f', .created t' co' f' ∈ s'.log ↔
      .created t' co' f' ∈ s.log ∨ t' = s.nextTask ∧ co' = co ∧ f' = f := by
    intro t' co' f'
    simp [hl]
  have hfin : ∀ t, .finished t ∈ s'.log ↔ .finished t ∈ s.log := by
    intro t
    simp [hl]
  have hcalls : ∀ t, s'.calls t = s.calls t := fun t => calls_eq hl rfl
  have hnew : ∀ co f, .created s.nextTask co f ∉ s.log := fun co f hc => lt_irrefl _ (h.made _ _ _ hc)
  have hfirst : ∀ t' co' f', .created t' co' f' ∈ s.log → s'.firstResume t' co' = s.firstResume t' co' :=
    fun t' co' f' hc => firstResume_eq hl hc rfl
  -- what `co` was given before is finished
  have hvalue : (s.mode co).value = none := by
    rcases hm with hm | hm <;> rw [hm] <;> rfl
  refine ⟨?_, ?_, ?_, ?_, ?_, ?_, ?_, ?_⟩
  · intro t' co' f' hc
    rw [hn]
    rcases (hcr t' co' f').1 hc with hc | ⟨rfl, -⟩
    · exact (h.made t' co' f' hc).trans (Nat.lt_succ_self _)
    · exact Nat.lt_succ_self _
  · intro t' co₁ co₂ f₁ f₂ h₁ h₂
    rcases (hcr t' co₁ f₁).1 h₁ with h₁ | ⟨rfl, rfl, rfl⟩
    · rcases (hcr t' co₂ f₂).1 h₂ with h₂ | ⟨rfl, -⟩
      · exact h.sole t' co₁ co₂ f₁ f₂ h₁ h₂
      · exact absurd h₁ (hnew co₁ f₁)
    · rcases (hcr _ co₂ f₂).1 h₂ with h₂ | ⟨-, rfl, rfl⟩
      · exact absurd h₂ (hnew co₂ f₂)
      · exact ⟨rfl, rfl⟩
  · intro co' v hv
    rw [hs] at hv
    by_cases hco : co' = co
    · subst hco
      rw [Function.update_self] at hv
      cases hv
      refine ⟨s.nextTask, f, rfl, (hcr _ _ _).2 (.inr ⟨rfl, rfl, rfl⟩), ?_⟩
      rw [hfin]
      exact fun hf => lt_irrefl _ (h.ended _ hf)
    · rw [Function.update_of_ne hco] at hv
      obtain ⟨t', f', rfl, hc, hf⟩ := h.held co' v hv
      exact ⟨t', f', rfl, (hcr _ _ _).2 (.inl hc), fun h' => hf ((hfin t').1 h')⟩
  · intro t' co' f' hc hf
    rw [hfin] at hf
    rw [hs]
    rcases (hcr t' co' f').1 hc with hc | ⟨rfl, rfl, rfl⟩
    · have hco : co' ≠ co := by
        rintro rfl
        rcases h.task t' co' f' hc hf with h1 | h1
        · rw [hvalue] at h1
          cases h1
        · rw [h1] at hm
          simp at hm
      rw [Function.update_of_ne hco]
      exact h.task t' co' f' hc hf
    · rw [Function.update_self]
      exact .inl rfl
  · intro t' co' f' hc hw
    rw [hcalls]
    rcases (hcr t' co' f').1 hc with hc | ⟨rfl, rfl, rfl⟩
    · have hco : co' ≠ co := by
        rintro rfl
        rw [hs, Function.update_self] at hw
        cases hw
        exact hnew _ _ hc
      rw [hs, Function.update_of_ne hco] at hw
      rw [hfirst t' co' f' hc]
      exact h.waits t' co' f' hc hw
    · exact ⟨firstResume_created hl hnew, h.uncalled _ le_rfl⟩
  · intro t' co' f' hc hw
    rw [hcalls]
    rcases (hcr t' co' f').1 hc with hc | ⟨rfl, rfl, rfl⟩
    · rw [hfirst t' co' f' hc]
      refine h.called t' co' f' hc fun hw' => ?_
      have hco : co' ≠ co := by
        rintro rfl
        rw [hw'] at hvalue
        cases hvalue
      rw [hs, Function.update_of_ne hco] at hw
      exact hw hw'
    · rw [hs, Function.update_self] at hw
      exact absurd rfl hw
  · intro t' ht
    rw [hn]
    exact (h.ended t' ((hfin t').1 ht)).trans (Nat.lt_succ_self _)
  · intro t' ht
    rw [hcalls]
    exact h.uncalled t' (by omega)

/-- The function of a task returns. -/
theorem State.Tasks.done (h : s.Tasks) {t : TaskId} {f : Func} {b : Bool}
    (hm : s.mode co = .inside (.task t f) b) (hs : s'.mode = Function.update s.mode co .next)
    (hl : s'.log = s.log ++ [.finished t]) (hn : s'.nextTask = s.nextTask) : s'.Tasks := by
  obtain ⟨t₀, f₀, hv, hcreated, -⟩ := h.held co (.task t f) (by rw [hm]; rfl)
  cases hv
  have hcr : ∀ t co f, .created t co f ∈ s'.log ↔ .created t co f ∈ s.log := by
    intro t co f
    simp [hl]
  have hfin : ∀ t', .finished t' ∈ s'.log ↔ .finished t' ∈ s.log ∨ t' = t := by
    intro t'
    simp [hl]
  have hcalls : ∀ t, s'.calls t = s.calls t := fun t => calls_eq hl rfl
  have hfirst : ∀ t' co' f', .created t' co' f' ∈ s.log → s'.firstResume t' co' = s.firstResume t' co' :=
    fun t' co' f' hc => firstResume_eq hl hc rfl
  refine ⟨?_, ?_, ?_, ?_, ?_, ?_, ?_, ?_⟩
  · simpa only [hcr, hn] using h.made
  · simpa only [hcr] using h.sole
  · intro co' v hv
    rw [hs] at hv
    have hco : co' ≠ co := by
      rintro rfl
      rw [Function.update_self] at hv
      cases hv
    rw [Function.update_of_ne hco] at hv
    obtain ⟨t', f', rfl, hc, hf⟩ := h.held co' v hv
    refine ⟨t', f', rfl, (hcr _ _ _).2 hc, fun h' => ?_⟩
    rcases (hfin t').1 h' with h' | rfl
    · exact hf h'
    · exact hco (h.sole t' co' co f' f hc hcreated).1
  · intro t' co' f' hc hf
    rw [hcr] at hc
    rw [hfin] at hf
    push Not at hf
    have hco : co' ≠ co := by
      rintro rfl
      rcases h.task t' co' f' hc hf.1 with h1 | h1
      · rw [hm] at h1
        cases h1
        exact hf.2 rfl
      · rw [hm] at h1
        cases h1
    rw [hs, Function.update_of_ne hco]
    exact h.task t' co' f' hc hf.1
  · intro t' co' f' hc hw
    rw [hcr] at hc
    have hco : co' ≠ co := by
      rintro rfl
      rw [hs, Function.update_self] at hw
      cases hw
    rw [hs, Function.update_of_ne hco] at hw
    rw [hcalls, hfirst t' co' f' hc]
    exact h.waits t' co' f' hc hw
  · intro t' co' f' hc hw
    rw [hcr] at hc
    rw [hcalls, hfirst t' co' f' hc]
    refine h.called t' co' f' hc fun hw' => ?_
    have hco : co' ≠ co := by
      rintro rfl
      rw [hm] at hw'
      cases hw'
    rw [hs, Function.update_of_ne hco] at hw
    exact hw hw'
  · intro t' ht
    rw [hn]
    rcases (hfin t').1 ht with ht | rfl
    · exact h.ended t' ht
    · exact h.made t' co f hcreated
  · simpa only [hcalls, hn] using h.uncalled

/-! ## The pool and the stack -/

theorem State.Places.coRawCreate (h : s.Places) : s.coRawCreate.Places := by
  have hu : s.mode s.total = .unused := (h.unused _).2 le_rfl
  have hmode : s.coRawCreate.mode = Function.update s.mode s.total .fresh := rfl
  refine ⟨?_, fun co => ?_, h.stackNodup, fun co => ?_, fun co => ?_⟩
  · refine List.nodup_append.2 ⟨h.nodup, List.nodup_singleton _, ?_⟩
    rintro co hco co' hco' rfl
    rw [List.mem_singleton.1 hco', h.pool, hu] at hco
    simp at hco
  · rw [hmode]
    by_cases hco : co = s.total
    · subst hco
      simp [State.coRawCreate]
    · rw [Function.update_of_ne hco, ← h.pool]
      simp [State.coRawCreate, hco]
  · rw [hmode]
    show co ∈ s.stack ↔ _
    rw [h.stack]
    by_cases hco : co = s.total
    · subst hco
      simp [hu]
    · rw [Function.update_of_ne hco]
  · rw [hmode]
    show _ ↔ s.total + 1 ≤ co
    by_cases hco : co = s.total
    · subst hco
      simp
    · rw [Function.update_of_ne hco, h.unused]
      exact ⟨fun hle => Nat.lt_of_le_of_ne hle (Ne.symm hco), Nat.le_of_succ_le⟩

/-- The last coroutine of the pool leaves it. -/
theorem State.Places.take (h : s.Places) (hlast : s.pool.getLast? = some co) {v : Value}
    (hm : s'.mode = Function.update s.mode co (.ready v)) (hp : s'.pool = s.pool.dropLast)
    (hst : s'.stack = s.stack) (ht : s'.total = s.total) : s'.Places := by
  have hsplit : s.pool = s.pool.dropLast ++ [co] := by
    obtain ⟨l, hl⟩ := List.getLast?_eq_some_iff.1 hlast
    rw [hl, List.dropLast_concat]
  have hnd : (s.pool.dropLast ++ [co]).Nodup := hsplit ▸ h.nodup
  have hmem : co ∈ s.pool := by
    rw [hsplit]
    simp
  have hold := (h.pool co).1 hmem
  refine ⟨?_, fun co' => ?_, hst ▸ h.stackNodup, fun co' => ?_, fun co' => ?_⟩
  · rw [hp]
    exact hnd.of_append_left
  · rw [hm, hp]
    by_cases hco : co' = co
    · subst hco
      have : co' ∉ s.pool.dropLast := fun hc => List.disjoint_of_nodup_append hnd hc (by simp)
      simp [this]
    · rw [Function.update_of_ne hco, ← h.pool]
      conv_rhs => rw [hsplit]
      simp [hco]
  · rw [hm, hst, h.stack]
    by_cases hco : co' = co
    · subst hco
      rcases hold with h1 | h1 <;> simp [h1]
    · rw [Function.update_of_ne hco]
  · rw [hm, ht, ← h.unused]
    by_cases hco : co' = co
    · subst hco
      rcases hold with h1 | h1 <;> simp [h1]
    · rw [Function.update_of_ne hco]

/-- A coroutine is resumed, and its function begins or goes on. -/
theorem State.Places.enter (h : s.Places) {f v : Value} (hco : s.mode co = .ready v ∨ s.mode co = .inside v false)
    (hm : s'.mode = Function.update s.mode co (.inside f true)) (hp : s'.pool = s.pool)
    (hst : s'.stack = co :: s.stack) (ht : s'.total = s.total) : s'.Places := by
  refine ⟨hp ▸ h.nodup, fun co' => ?_, ?_, fun co' => ?_, fun co' => ?_⟩
  · rw [hm, hp, h.pool]
    by_cases hc : co' = co
    · subst hc
      rcases hco with h1 | h1 <;> simp [h1]
    · rw [Function.update_of_ne hc]
  · rw [hst]
    refine List.nodup_cons.2 ⟨fun hc => ?_, h.stackNodup⟩
    obtain ⟨f', hf'⟩ := (h.stack co).1 hc
    rcases hco with h1 | h1 <;> simp [h1] at hf'
  · rw [hm, hst, List.mem_cons, h.stack]
    by_cases hc : co' = co
    · subst hc
      simp
    · rw [Function.update_of_ne hc, or_iff_right hc]
  · rw [hm, ht, ← h.unused]
    by_cases hc : co' = co
    · subst hc
      rcases hco with h1 | h1 <;> simp [h1]
    · rw [Function.update_of_ne hc]

/-- The running coroutine stops, and stays outside the pool, or goes back to it. -/
theorem State.Places.stop (h : s.Places) {st : List Co} (hst : s.stack = co :: st)
    (hm : s'.mode = Function.update s.mode co m) (hst' : s'.stack = st) (ht : s'.total = s.total)
    (hp : s'.pool = s.pool ∧ (m = .dead ∨ ∃ f, m = .inside f false) ∨
      s'.pool = s.pool ++ [co] ∧ m = .next) : s'.Places := by
  obtain ⟨f, hf⟩ := (h.stack co).1 (by simp [hst])
  have hnd : (co :: st).Nodup := hst ▸ h.stackNodup
  have hout : co ∉ s.pool := fun hc => by
    rcases (h.pool co).1 hc with h1 | h1 <;> simp [hf] at h1
  refine ⟨?_, fun co' => ?_, ?_, fun co' => ?_, fun co' => ?_⟩
  · rcases hp with ⟨hp, -⟩ | ⟨hp, -⟩
    · exact hp ▸ h.nodup
    · rw [hp]
      refine List.nodup_append.2 ⟨h.nodup, List.nodup_singleton _, ?_⟩
      rintro c hc c' hc' rfl
      rw [List.mem_singleton.1 hc'] at hc
      exact hout hc
  · rw [hm]
    by_cases hc : co' = co
    · subst hc
      rw [Function.update_self]
      rcases hp with ⟨hp, rfl | ⟨f, rfl⟩⟩ | ⟨hp, rfl⟩ <;> simp [hp, hout]
    · rw [Function.update_of_ne hc, ← h.pool]
      rcases hp with ⟨hp, -⟩ | ⟨hp, -⟩ <;> simp [hp, hc]
  · rw [hst']
    exact (List.nodup_cons.1 hnd).2
  · rw [hm, hst']
    by_cases hc : co' = co
    · subst hc
      rw [Function.update_self]
      refine iff_of_false (List.nodup_cons.1 hnd).1 ?_
      rcases hp with ⟨-, rfl | ⟨f, rfl⟩⟩ | ⟨-, rfl⟩ <;> simp
    · rw [Function.update_of_ne hc, ← h.stack, hst, List.mem_cons, or_iff_right hc]
  · rw [hm, ht, ← h.unused]
    by_cases hc : co' = co
    · subst hc
      rw [Function.update_self, hf]
      rcases hp with ⟨-, rfl | ⟨f, rfl⟩⟩ | ⟨-, rfl⟩ <;> simp
    · rw [Function.update_of_ne hc]

/-! ## Counting -/

theorem unfinished_eq (hn : s'.nextTask = s.nextTask) (hf : ∀ t, .finished t ∈ s'.log ↔ .finished t ∈ s.log) :
    s'.unfinished = s.unfinished := by
  simp only [State.unfinished, hn, hf]

theorem unfinished_created (hn : s'.nextTask = s.nextTask + 1)
    (hf : ∀ t, .finished t ∈ s'.log ↔ .finished t ∈ s.log) (hnew : .finished s.nextTask ∉ s.log) :
    s'.unfinished = s.unfinished + 1 := by
  simp only [State.unfinished, hn, hf, Finset.range_add_one, Finset.filter_insert, if_pos hnew]
  exact Finset.card_insert_of_notMem (by simp)

theorem unfinished_done {t : TaskId} (hn : s'.nextTask = s.nextTask) (hl : s'.log = s.log ++ [.finished t])
    (ht : t < s.nextTask) (hf : .finished t ∉ s.log) : s.unfinished = s'.unfinished + 1 := by
  have herase : (Finset.range s'.nextTask).filter (fun t => .finished t ∉ s'.log) =
      ((Finset.range s.nextTask).filter fun t => .finished t ∉ s.log).erase t := by
    ext t'
    simp only [hn, hl, Finset.mem_filter, Finset.mem_range, Finset.mem_erase, List.mem_append,
      List.mem_singleton, Obs.finished.injEq]
    tauto
  have hmem : t ∈ (Finset.range s.nextTask).filter fun t => .finished t ∉ s.log := by simp [ht, hf]
  rw [State.unfinished, State.unfinished, herase, Finset.card_erase_add_one hmem]

/-! ## Steps -/

structure State.Inv (s : State) : Prop where
  places : s.Places
  tasks : s.Tasks
  balance : s.total = s.pool.length + s.unfinished

theorem State.Inv.init : State.init.Inv where
  places := ⟨List.nodup_nil, by simp [State.init], List.nodup_nil, by simp [State.init], by simp [State.init]⟩
  tasks := by constructor <;> simp [State.init, Mode.value, State.calls]
  balance := rfl

theorem State.Inv.coRawCreate (h : s.Inv) : s.coRawCreate.Inv where
  places := h.places.coRawCreate
  tasks := by
    have hu : s.mode s.total = .unused := (h.places.unused _).2 le_rfl
    exact h.tasks.setMode (m := .fresh) (.inl (by rw [hu]; rfl)) (by simp [hu]) (by simp [hu]) (by simp) rfl rfl rfl
  balance := by
    have hb := h.balance
    have hlen : s.coRawCreate.pool.length = s.pool.length + 1 := by simp [State.coRawCreate]
    have htotal : s.coRawCreate.total = s.total + 1 := rfl
    have hun : s.coRawCreate.unfinished = s.unfinished := unfinished_eq rfl fun _ => Iff.rfl
    omega

theorem State.Inv.check (h : s.Inv) (n : ℕ) : (State.coRawCreate^[n] s).Inv := by
  induction n generalizing s with
  | zero => exact h
  | succ n ih => exact ih h.coRawCreate

/-- `coroutines.create` with a pool that is not empty. -/
theorem State.Inv.take (h : s.Inv) (hlast : s.pool.getLast? = some co) (f : Func)
    (hm : s'.mode = Function.update s.mode co (.ready (.task s.nextTask f))) (hp : s'.pool = s.pool.dropLast)
    (hst : s'.stack = s.stack) (ht : s'.total = s.total) (hn : s'.nextTask = s.nextTask + 1)
    (hl : s'.log = s.log ++ [.created s.nextTask co f]) : s'.Inv where
  places := h.places.take hlast hm hp hst ht
  tasks := h.tasks.create ((h.places.pool co).1 (List.mem_of_getLast? hlast)) f hm hl hn
  balance := by
    have hb := h.balance
    have hlen : s.pool.length = s'.pool.length + 1 := by
      obtain ⟨l, hl⟩ := List.getLast?_eq_some_iff.1 hlast
      rw [hp, hl]
      simp
    have hun : s'.unfinished = s.unfinished + 1 :=
      unfinished_created hn (by simp [hl]) fun hf => lt_irrefl _ (h.tasks.ended _ hf)
    omega

theorem State.Inv.create (h : s.Inv) (f : Func) : (s.create f).Inv := by
  -- the pool after `co_create` has made sure that it is not empty
  obtain ⟨s₀, h₀, hinv, hne, hn⟩ : ∃ s₀, s₀ = (if s.pool = [] then s.coRawCreate else s) ∧ s₀.Inv ∧
      s₀.pool ≠ [] ∧ s₀.nextTask = s.nextTask := by
    refine ⟨_, rfl, ?_⟩
    split
    · exact ⟨h.coRawCreate, by simp [State.coRawCreate], rfl⟩
    · rename_i hne
      exact ⟨h, hne, rfl⟩
  have hlast : s₀.pool.getLast? = some (s₀.pool.getLastD 0) := by
    rw [List.getLastD_eq_getLast?, List.getLast?_eq_some_getLast hne]
    rfl
  have hmode := (hinv.places.pool _).1 (List.mem_of_getLast? hlast)
  have hco : (s.coCreate (.task s.nextTask f)) = (s₀.pool.getLastD 0,
      State.setMode { s₀ with pool := s₀.pool.dropLast } (s₀.pool.getLastD 0) (.ready (.task s.nextTask f))) := by
    unfold State.coCreate; dsimp only
    rw [← h₀]
    unfold State.coResume; dsimp only
    rcases hmode with hmode | hmode <;> rw [hmode] <;> rfl
  unfold State.create
  rw [hco, ← hn]
  exact hinv.take hlast f rfl rfl rfl rfl rfl rfl

theorem State.Inv.emit (h : s.Inv) {o : Obs} (ho : ∀ t, o.createdBy t = false) (hf : ∀ t, o ≠ .finished t)
    (hc : ∀ t, o.callOf t = none) (hr : ∀ co args, o = .resumed co args → ∀ v, s.mode co ≠ .ready v) :
    (s.emit o).Inv where
  places := ⟨h.places.nodup, h.places.pool, h.places.stackNodup, h.places.stack, h.places.unused⟩
  tasks := h.tasks.emit ho hf hc hr rfl rfl rfl
  balance := by
    have hun : (s.emit o).unfinished = s.unfinished := by
      refine unfinished_eq rfl fun t => ?_
      rw [State.emit, List.mem_append, List.mem_singleton]
      exact or_iff_left fun h => hf t h.symm
    rw [hun]
    exact h.balance

/-- A coroutine outside the pool is resumed. -/
theorem State.Inv.resume (h : s.Inv) (hco : co ∉ s.pool) (args : List Value) : (s.resume co args).Inv := by
  rw [h.places.pool] at hco
  push Not at hco
  have hnote : (∀ v, s.mode co ≠ .ready v) → (s.emit (.resumed co args)).Inv := fun hr =>
    h.emit (fun _ => rfl) (by simp) (fun _ => rfl) (by rintro co' args' ⟨⟩; exact hr)
  have hmode : (s.emit (.resumed co args)).mode co = s.mode co := rfl
  unfold State.resume State.coResume
  rw [hmode]
  cases hm : s.mode co with
  | unused | dead => exact hnote (by simp [hm])
  | fresh => exact absurd hm hco.1
  | next => exact absurd hm hco.2
  | ready v =>
    obtain ⟨t, f, rfl, -, -⟩ := h.tasks.held co v (by rw [hm]; rfl)
    refine ⟨h.places.enter (.inl hm) rfl rfl rfl rfl, h.tasks.start hm args rfl ?_ rfl, ?_⟩
    · simp [State.emit, State.enter, State.setMode]
    · have hun : (((s.emit (.resumed co args)).enter co (.task t f)).emit (.called t f args)).unfinished =
          s.unfinished := by
        refine unfinished_eq rfl fun t => ?_
        simp [State.emit, State.enter, State.setMode]
      dsimp only
      rw [hun]
      exact h.balance
  | inside v b =>
    have h1 := hnote (by simp [hm])
    cases b with
    | true => exact h1
    | false =>
      refine ⟨h1.places.enter (v := v) (.inr hm) rfl rfl rfl rfl, ?_, h1.balance⟩
      refine h1.tasks.setMode (m := .inside v true) (c := co) (.inl ?_) ?_ ?_ (by simp) rfl rfl rfl
      · rw [hmode, hm]
        rfl
      · rw [hmode, hm]
        simp
      · rw [hmode, hm]
        simp

/-- The running coroutine stops. -/
theorem State.Inv.stop (h : s.Inv) {k : State → Co → Value → State} (hstep : s.stop k = some s')
    (hk : ∀ co st t f, s.stack = co :: st → s.mode co = .inside (.task t f) true →
      (k { s with stack := st } co (.task t f)).Inv) : s'.Inv := by
  unfold State.stop at hstep
  split at hstep
  · cases hstep
  · rename_i co st hst
    obtain ⟨v, hv⟩ := (h.places.stack co).1 (by simp [hst])
    obtain ⟨t, f, rfl, -, -⟩ := h.tasks.held co v (by rw [hv]; rfl)
    rw [hv] at hstep
    cases hstep
    exact hk co st t f hst hv

/-- The coroutine that is resumed is not in the pool. -/
def State.Out (s : State) : Act → Prop
  | .resume co _ => co ∉ s.pool
  | _ => True

instance (s : State) : DecidablePred s.Out
  | .resume co _ => inferInstanceAs (Decidable (co ∉ s.pool))
  | .create _ | .check _ | .yield | .done | .fail => isTrue trivial

theorem State.Inv.step (h : s.Inv) {a : Act} (ha : s.Out a) (hstep : step s a = some s') : s'.Inv := by
  cases a with
  | create f =>
    cases hstep
    exact h.create f
  | resume co args =>
    unfold Pool.step at hstep; dsimp only at hstep
    split at hstep
    · cases hstep
      exact h.resume ha args
    · cases hstep
  | check count =>
    cases hstep
    exact h.check _
  | yield =>
    refine h.stop (k := fun s co f => s.setMode co (.inside f false)) hstep fun co st t f hst hm =>
      ⟨?_, ?_, h.balance⟩
    · exact h.places.stop hst rfl rfl rfl (.inl ⟨rfl, .inr ⟨_, rfl⟩⟩)
    · exact h.tasks.setMode (c := co) (m := .inside (.task t f) false) (.inl (by rw [hm]; rfl))
        (by simp [hm]) (by simp [hm]) (by simp) rfl rfl rfl
  | done =>
    refine h.stop hstep fun co st t f hst hm => ?_
    obtain ⟨t₀, f₀, hv, hc, hf⟩ := h.tasks.held co (.task t f) (by rw [hm]; rfl)
    cases hv
    refine ⟨h.places.stop hst rfl rfl rfl (.inr ⟨rfl, rfl⟩), h.tasks.done hm rfl rfl rfl, ?_⟩
    have hb := h.balance
    have hun : s.unfinished = (State.done { s with stack := st } co (.task t f)).unfinished + 1 :=
      unfinished_done rfl rfl (h.tasks.made t co f hc) hf
    have hlen : (State.done { s with stack := st } co (.task t f)).pool.length = s.pool.length + 1 := by
      simp [State.done]
    have htotal : (State.done { s with stack := st } co (.task t f)).total = s.total := rfl
    omega
  | fail =>
    refine h.stop hstep fun co st t f hst hm => ?_
    have h1 := h.emit (o := .failed t) (fun _ => rfl) (by simp) (fun _ => rfl) (by simp)
    refine ⟨h1.places.stop hst rfl rfl rfl (.inl ⟨rfl, .inl rfl⟩), ?_, h1.balance⟩
    have hm' : (s.emit (.failed t)).mode co = .inside (.task t f) true := hm
    exact h1.tasks.setMode (c := co) (m := .dead) (.inr rfl) (by simp [hm']) (by simp [hm']) (by simp) rfl rfl rfl

/-- What the pool promises: it holds no coroutine twice, each of them waits for its next
    function, the coroutine of a task is not in it until the task has finished, the
    function of a task is called once, with the arguments of the first `resume`, and
    `running` counts the tasks that have not finished. -/
structure State.Sound (s : State) : Prop where
  nodup : s.pool.Nodup
  pooled : ∀ co ∈ s.pool, (s.mode co = .fresh ∨ s.mode co = .next) ∧
    ∀ f, s.coResume co [f] = s.setMode co (.ready f)
  out : ∀ t co f, .created t co f ∈ s.log → .finished t ∉ s.log → co ∉ s.pool
  calls : ∀ t co f, .created t co f ∈ s.log →
    s.calls t = ((s.firstResume t co).map fun args => (f, args)).toList
  balance : s.running = s.unfinished

theorem State.Inv.sound (h : s.Inv) : s.Sound where
  nodup := h.places.nodup
  pooled co hco := by
    have hmode := (h.places.pool co).1 hco
    refine ⟨hmode, fun f => ?_⟩
    unfold State.coResume
    rcases hmode with hmode | hmode <;> rw [hmode] <;> rfl
  out t co f hc hf hco := by
    rcases h.tasks.task t co f hc hf with h1 | h1 <;>
      rcases (h.places.pool co).1 hco with h2 | h2 <;> simp [h2, Mode.value] at h1
  calls t co f hc := by
    by_cases hw : s.mode co = .ready (.task t f)
    · obtain ⟨h1, h2⟩ := h.tasks.waits t co f hc hw
      rw [h1, h2]
      rfl
    · obtain ⟨args, h1, h2⟩ := h.tasks.called t co f hc hw
      rw [h1, h2]
      rfl
  balance := by
    have hb := h.balance
    unfold State.running
    omega

/-- **The pool is sound** in every run that resumes no coroutine of the pool. -/
theorem pool_sound (hrun : run step State.init as = some t) (hA : Along step State.Out State.init as) :
    t.Sound :=
  (Lib.run_inv (I := State.Inv) (fun _ _ _ h ha hstep => h.step ha hstep) .init hA hrun).sound

/-- A task that yields finishes; its coroutine runs a second one, which starts a third,
    and that one fails. -/
def reuse : List Act :=
  [.create 7, .resume 0 [.int 3], .yield, .resume 0 [], .done, .check 2, .create 8, .resume 1 [.int 4],
    .create 9, .resume 0 [.nil, .int 5], .fail, .done]

theorem pool_sound_reuse : ∃ t, run step State.init reuse = some t ∧ t.pool = [1] ∧ t.running = 1 ∧
    t.calls 2 = [(9, [.nil, .int 5])] ∧ t.Sound := by
  have h : run step State.init reuse = some _ := rfl
  exact ⟨_, h, by decide, by decide, by decide, pool_sound h (.of_check (by decide))⟩

/-- A coroutine is resumed again after its task has finished, with 5. -/
def stale : List Act := [.create 7, .resume 0 [], .done, .resume 0 [.int 5], .create 8, .resume 0 []]

/-- Then 5 is called with the function of the next task, which is never called. -/
theorem pool_not_sound : ∃ t, run step State.init stale = some t ∧ t.mode 0 = .dead ∧
    .created 1 0 8 ∈ t.log ∧ t.firstResume 1 0 = some [] ∧ t.calls 1 = [] ∧ ¬ t.Sound := by
  have h : run step State.init stale = some _ := rfl
  refine ⟨_, h, by decide, by decide, by decide, by decide, fun hs => ?_⟩
  have := hs.calls 1 0 8 (by decide)
  revert this
  decide

end Levent.Pool
