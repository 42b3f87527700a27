/-
  The callback queue of `loop.lua`: `Loop:run_callback`, and `Loop:_run_callback`
  that libev calls before it waits.

  A callback is described by what it does when it runs.  The loop is recorded
  (`seen`) whenever control is inside a callback: when it begins, and after each
  of its calls of `Loop:run_callback`.
-/
import Levent.Lib.Run
import Mathlib.Data.List.Induction

namespace Levent.Callbacks

/-- A function with its arguments: it calls `Loop:run_callback` for `calls`, one
    after another, and then raises an error (with its traceback) or returns. -/
inductive Callback where
  | mk (calls : List Callback) (raises : Option String)

def Callback.calls : Callback → List Callback
  | .mk calls _ => calls

def Callback.raises : Callback → Option String
  | .mk _ raises => raises

/-- `callbacks` is `self._callbacks`; `refs` and `unrefs` count the calls of
    `cobj:ref` and `cobj:unref`, and `errors` are the messages that
    `handle_error` prints.  `enqueued` and `started` are records: the callbacks
    given to `Loop:run_callback`, and those that have begun. -/
structure Loop where
  callbacks : List Callback
  refs : ℕ
  unrefs : ℕ
  errors : List String
  enqueued : List Callback
  started : List Callback

/-- `Loop:run_callback` -/
def Loop.runCallback (l : Loop) (func : Callback) : Loop :=
  { l with
    callbacks := l.callbacks ++ [func]
    refs := l.refs + 1
    enqueued := l.enqueued ++ [func] }

/-- `self.cobj:unref()` before the callback `cb`. -/
def Loop.unref (l : Loop) (cb : Callback) : Loop :=
  { l with unrefs := l.unrefs + 1, started := l.started ++ [cb] }

/-- `Loop:handle_error` -/
def Loop.handleError (l : Loop) (msg : String) : Loop := { l with errors := l.errors ++ [msg] }

/-- A loop, and how it was whenever control was inside a callback. -/
structure Trace where
  loop : Loop
  seen : List Loop

/-- Control is inside a callback. -/
def Trace.see (r : Trace) : Trace := { r with seen := r.seen ++ [r.loop] }

/-- A callback calls `Loop:run_callback`. -/
def Trace.runCallback (r : Trace) (func : Callback) : Trace :=
  { r with loop := r.loop.runCallback func }.see

/-- `cb()`: what `xpcall` of the callback does, and the message if it fails. -/
def Callback.xpcall (cb : Callback) (r : Trace) : Trace × Option String :=
  (cb.calls.foldl Trace.runCallback r.see, cb.raises)

/-- The body of the `for` loop. -/
def Trace.run (r : Trace) (cb : Callback) : Trace :=
  match cb.xpcall { r with loop := r.loop.unref cb } with
  | (r, none) => r
  | (r, some msg) => { r with loop := r.loop.handleError msg }

/-- `Loop:_run_callback`, for at most `n` rounds of its `while` loop. -/
def _runCallback : ℕ → Trace → Option Trace
  | 0, _ => none
  | n + 1, r =>
    if 0 < r.loop.callbacks.length then
      let callbacks := r.loop.callbacks
      _runCallback n (callbacks.foldl Trace.run { r with loop := { r.loop with callbacks := [] } })
    else some r

/-- A loop after `Loop:_init`. -/
def Trace.init : Trace := ⟨⟨[], 0, 0, [], [], []⟩, []⟩

/-- What happens outside the two functions: some code calls `Loop:run_callback`,
    or libev calls `Loop:_run_callback`. -/
inductive Act where
  | runCallback (func : Callback)
  | prepare

def step (n : ℕ) (r : Trace) : Act → Option Trace
  | .runCallback func => some { r with loop := r.loop.runCallback func }
  | .prepare => _runCallback n r

/-! ## The balance -/

/-- The references held, `refs - unrefs`, are as many as the callbacks enqueued
    and not yet started. -/
def Loop.Balanced (l : Loop) : Prop := l.refs + l.started.length = l.unrefs + l.enqueued.length

/-- The callbacks enqueued are, in this order, those started, those the `for`
    loop has `taken`, and those in the queue; the errors of the ones started are
    printed. -/
structure Trace.Sound (taken : List Callback) (r : Trace) : Prop where
  balanced : r.loop.Balanced
  inside : ∀ l ∈ r.seen, l.Balanced
  order : r.loop.enqueued = r.loop.started ++ (taken ++ r.loop.callbacks)
  errors : r.loop.errors = r.loop.started.filterMap Callback.raises

/-- From `r` to `r'` the callbacks `ran` are executed: they are started, their
    calls are enqueued in order, and their errors are printed. -/
structure Trace.Executes (r : Trace) (ran : List Callback) (r' : Trace) : Prop where
  started : r'.loop.started = r.loop.started ++ ran
  enqueued : r'.loop.enqueued = r.loop.enqueued ++ ran.flatMap Callback.calls
  errors : r'.loop.errors = r.loop.errors ++ ran.filterMap Callback.raises

variable {r r' r'' : Trace} {cbs ran ran' taken : List Callback} {cb : Callback}

theorem Trace.Executes.trans (h : r.Executes ran r') (h' : r'.Executes ran' r'') :
    r.Executes (ran ++ ran') r'' := by
  constructor
  · rw [h'.started, h.started, List.append_assoc]
  · rw [h'.enqueued, h.enqueued, List.flatMap_append, List.append_assoc]
  · rw [h'.errors, h.errors, List.filterMap_append, List.append_assoc]

theorem Loop.Balanced.runCallback {l : Loop} (h : l.Balanced) (func : Callback) :
    (l.runCallback func).Balanced := by
  simp only [Loop.Balanced, Loop.runCallback, List.length_append, List.length_singleton] at h ⊢
  omega

theorem Loop.Balanced.unref {l : Loop} (h : l.Balanced) (cb : Callback) : (l.unref cb).Balanced := by
  simp only [Loop.Balanced, Loop.unref, List.length_append, List.length_singleton] at h ⊢
  omega

/-! ## One callback -/

/-- The calls of a callback. -/
theorem foldl_runCallback (calls : List Callback) (r : Trace) :
    (calls.foldl Trace.runCallback r).loop = ⟨r.loop.callbacks ++ calls, r.loop.refs + calls.length,
      r.loop.unrefs, r.loop.errors, r.loop.enqueued ++ calls, r.loop.started⟩ := by
  induction calls generalizing r with
  | nil => simp
  | cons func calls ih =>
    rw [List.foldl_cons, ih]
    simp only [Trace.runCallback, Trace.see, Loop.runCallback, List.append_assoc,
      List.singleton_append, List.length_cons]
    rw [Nat.add_assoc, Nat.add_comm 1]

/-- What a callback does to the loop. -/
theorem run_loop (cb : Callback) (r : Trace) :
    (r.run cb).loop = ⟨r.loop.callbacks ++ cb.calls, r.loop.refs + cb.calls.length,
      r.loop.unrefs + 1, r.loop.errors ++ cb.raises.toList, r.loop.enqueued ++ cb.calls,
      r.loop.started ++ [cb]⟩ := by
  obtain ⟨calls, raises⟩ := cb
  cases raises with
  | none =>
    refine (foldl_runCallback calls _).trans ?_
    simp [Trace.see, Loop.unref, Callback.calls, Callback.raises]
  | some msg =>
    refine (congrArg (Loop.handleError · msg) (foldl_runCallback calls _)).trans ?_
    simp [Trace.see, Loop.unref, Loop.handleError, Callback.calls, Callback.raises]

theorem see_balanced (hl : r.loop.Balanced) (hs : ∀ l ∈ r.seen, l.Balanced) :
    ∀ l ∈ r.see.seen, l.Balanced := by
  intro l hm
  rcases List.mem_append.1 hm with hm | hm
  · exact hs l hm
  · rw [List.mem_singleton.1 hm]
    exact hl

/-- The balance holds after each call of a callback. -/
theorem foldl_runCallback_seen (calls : List Callback) (hl : r.loop.Balanced)
    (hs : ∀ l ∈ r.seen, l.Balanced) :
    ∀ l ∈ (calls.foldl Trace.runCallback r).seen, l.Balanced := by
  induction calls generalizing r with
  | nil => exact hs
  | cons func calls ih =>
    have hl' := hl.runCallback func
    exact ih hl' (see_balanced hl' hs)

/-- The balance holds whenever control is inside the callback. -/
theorem run_seen (cb : Callback) (hl : r.loop.Balanced) (hs : ∀ l ∈ r.seen, l.Balanced) :
    ∀ l ∈ (r.run cb).seen, l.Balanced := by
  obtain ⟨calls, raises⟩ := cb
  have hl' := hl.unref (.mk calls raises)
  have h := foldl_runCallback_seen (r := Trace.see ⟨_, r.seen⟩) calls hl' (see_balanced hl' hs)
  cases raises <;> exact h

/-- **One callback** is executed, and the `for` loop goes on whether it fails or
    not. -/
theorem Trace.Sound.run (h : r.Sound (cb :: taken)) :
    (r.run cb).Sound taken ∧ r.Executes [cb] (r.run cb) := by
  constructor
  · constructor
    · have hb := h.balanced
      simp only [Loop.Balanced, run_loop, List.length_append, List.length_singleton] at hb ⊢
      omega
    · exact run_seen cb h.balanced h.inside
    · simp [run_loop, h.order]
    · simp only [run_loop, h.errors, List.filterMap_append, List.filterMap_cons]
      cases cb.raises <;> rfl
  · constructor
    · simp [run_loop]
    · simp [run_loop]
    · rw [run_loop, List.filterMap_cons]
      cases cb.raises <;> rfl

/-! ## The drain -/

/-- **The `for` loop** executes the callbacks it has taken. -/
theorem Trace.Sound.batch (h : r.Sound cbs) :
    (cbs.foldl Trace.run r).Sound [] ∧ r.Executes cbs (cbs.foldl Trace.run r) := by
  induction cbs generalizing r with
  | nil => exact ⟨h, by simp, by simp, by simp⟩
  | cons cb cbs ih =>
    obtain ⟨h1, hcb⟩ := h.run
    obtain ⟨h2, hcbs⟩ := ih h1
    exact ⟨h2, hcb.trans hcbs⟩

/-- The `for` loop leaves what its callbacks have enqueued. -/
theorem foldl_run_callbacks (cbs : List Callback) (r : Trace) :
    (cbs.foldl Trace.run r).loop.callbacks = r.loop.callbacks ++ cbs.flatMap Callback.calls := by
  induction cbs generalizing r with
  | nil => simp
  | cons cb cbs ih => rw [List.foldl_cons, ih, run_loop, List.flatMap_cons, List.append_assoc]

theorem sizeOf_append (cbs cbs' : List Callback) :
    sizeOf (cbs ++ cbs') + 1 = sizeOf cbs + sizeOf cbs' := by
  induction cbs with
  | nil => simp; omega
  | cons cb cbs ih => simp only [List.cons_append, List.cons.sizeOf_spec]; omega

/-- The callbacks of one round, all in all, hold more than those of the next. -/
theorem sizeOf_calls (cbs : List Callback) :
    sizeOf (cbs.flatMap Callback.calls) + cbs.length ≤ sizeOf cbs := by
  induction cbs with
  | nil => simp
  | cons cb cbs ih =>
    obtain ⟨calls, raises⟩ := cb
    have h := sizeOf_append calls (cbs.flatMap Callback.calls)
    simp only [List.flatMap_cons, Callback.calls, List.cons.sizeOf_spec, Callback.mk.sizeOf_spec,
      List.length_cons] at h ⊢
    omega

/-- **The drain** executes the callbacks of the queue, those they enqueue, and so
    on, and leaves the queue empty. -/
theorem Trace.Sound.drain {n : ℕ} (h : r.Sound []) (hn : sizeOf r.loop.callbacks ≤ n) :
    ∃ ran r', _runCallback n r = some r' ∧ r'.Sound [] ∧ r.Executes ran r' ∧
      r'.loop.callbacks = [] := by
  induction n generalizing r with
  | zero => cases hc : r.loop.callbacks <;> simp [hc] at hn
  | succ n ih =>
    rw [_runCallback]
    split
    · rename_i hlen
      have hs : Trace.Sound r.loop.callbacks ⟨{ r.loop with callbacks := [] }, r.seen⟩ :=
        ⟨h.balanced, h.inside, by simpa using h.order, h.errors⟩
      obtain ⟨h1, hbatch⟩ := hs.batch
      have hsize := sizeOf_calls r.loop.callbacks
      obtain ⟨ran, r', hr', h2, hran, hempty⟩ := ih h1 (by rw [foldl_run_callbacks]; simp; omega)
      exact ⟨_, r', hr', h2, Trace.Executes.trans ⟨hbatch.1, hbatch.2, hbatch.3⟩ hran, hempty⟩
    · rename_i hlen
      have hempty : r.loop.callbacks = [] := List.length_eq_zero_iff.1 (by omega)
      exact ⟨[], r, rfl, h, ⟨by simp, by simp, by simp⟩, hempty⟩

/-- More rounds do not change the result. -/
theorem _runCallback_mono {n m : ℕ} (h : _runCallback n r = some r') (hnm : n ≤ m) :
    _runCallback m r = some r' := by
  induction n generalizing m r with
  | zero => cases h
  | succ n ih =>
    obtain ⟨m, rfl⟩ : ∃ k, m = k + 1 := ⟨m - 1, by omega⟩
    rw [_runCallback] at h ⊢
    split at h
    · rw [if_pos ‹_›]
      exact ih h (by omega)
    · rw [if_neg ‹_›]
      exact h

/-! ## Runs -/

/-- A run of calls of the two functions: with rounds enough it ends, in a sound
    state. -/
theorem run_sound (acts : List Act) :
    ∃ n₀ r, (∀ n, n₀ ≤ n → Lib.run (step n) Trace.init acts = some r) ∧ r.Sound [] := by
  induction acts using List.reverseRecOn with
  | nil => exact ⟨0, Trace.init, fun n _ => rfl, rfl, by simp [Trace.init], rfl, rfl⟩
  | append_singleton acts a ih =>
    obtain ⟨n₀, r, hrun, hs⟩ := ih
    cases a with
    | runCallback func =>
      refine ⟨n₀, ⟨r.loop.runCallback func, r.seen⟩, ?_, hs.balanced.runCallback func, hs.inside, ?_,
        hs.errors⟩
      · intro n hn
        exact Lib.run_snoc.2 ⟨r, hrun n hn, rfl⟩
      · simp [Loop.runCallback, hs.order]
    | prepare =>
      obtain ⟨ran, r', hr', hs', -, -⟩ := hs.drain (Nat.le_refl _)
      refine ⟨max n₀ (sizeOf r.loop.callbacks), r', ?_, hs'⟩
      intro n hn
      exact Lib.run_snoc.2 ⟨r, hrun n (by omega), _runCallback_mono hr' (by omega)⟩

/-- **The callback queue.**  However the two functions are called before, the
    next `Loop:_run_callback` returns: it has executed every callback enqueued
    exactly once in the order of the calls of `Loop:run_callback`, failing ones
    included, and the queue is empty.  The balance holds before and after, and
    whenever control is inside a callback. -/
theorem runCallback_exactly_once (acts : List Act) :
    ∃ n₀ r r' ran, (∀ n, n₀ ≤ n →
        Lib.run (step n) Trace.init acts = some r ∧ _runCallback n r = some r') ∧
      r.Executes ran r' ∧ r'.loop.started = r'.loop.enqueued ∧ r'.loop.callbacks = [] ∧
      r.loop.Balanced ∧ r'.loop.Balanced ∧ ∀ l ∈ r'.seen, l.Balanced := by
  obtain ⟨n₀, r, hrun, hs⟩ := run_sound acts
  obtain ⟨ran, r', hr', hs', hran, hempty⟩ := hs.drain (Nat.le_refl _)
  refine ⟨max n₀ (sizeOf r.loop.callbacks), r, r', ran, ?_, hran, ?_, hempty, hs.balanced,
    hs'.balanced, hs'.inside⟩
  · intro n hn
    exact ⟨hrun n (by omega), _runCallback_mono hr' (by omega)⟩
  · rw [hs'.order, hempty, List.append_nil, List.append_nil]

end Levent.Callbacks
