/-
  `levent.spawn` and `levent.kill`: the task that a coroutine of the pool
  executes, and the one a kill is for.
-/
import Levent.Runtime.Runs

namespace Levent

open Lib (Along run)

variable {R : Rules} {p p' : Pend} {s s' t : State} {value : SemId → ℕ}
  {maxsizes : List (Option ℤ)} {as : List Act} {c : Co} {f : TaskId}

/-! ## Owners -/

/-- A coroutine in this mode executes a task. -/
def Mode.Busy : Mode → Prop
  | .running | .sys .. | .blocked .. => True
  | _ => False

theorem Mode.Active.busy {m : Mode} (h : m.Active) : m.Busy := by
  cases m <;> simp [Mode.Active, Mode.Busy] at *

/-- The coroutine returned for the task `f` is that of `f`, until it finishes. -/
def State.Owned (s : State) (f : TaskId) : Prop :=
  .finished f ∈ s.log ∨ s.mode (s.handle f) = .dead ∨ s.mode (s.handle f) = .ready (some f) ∨
    ((s.mode (s.handle f)).Busy ∧ s.task (s.handle f) = f)

structure State.TaskInv (s : State) : Prop where
  handle : ∀ {f}, f < s.nextTask → s.handle f ≠ 0
  owned : ∀ {f}, f < s.nextTask → s.Owned f
  target : ∀ {c e f}, .throw c e (some f) ∈ s.callbacks → f < s.nextTask ∧ s.handle f = c
  killed : ∀ {f f'}, .killed (some f) f' ∈ s.log → f' = f

/-- Kills hit tasks that have not finished only. -/
def Rules.tasks : Rules :=
  { Rules.free with kill := fun L target => ∀ f, target = some f → .finished f ∉ L }

/-! ## One step -/

/-- What is recorded and queued is of no concern here. -/
structure State.TaskQuiet (s s' : State) : Prop where
  log : ∃ os, s'.log = s.log ++ os ∧ ∀ o ∈ os, ∀ f f', o ≠ .killed (some f) f'
  callbacks : ∀ {c e f}, .throw c e (some f) ∈ s'.callbacks → .throw c e (some f) ∈ s.callbacks

theorem State.TaskQuiet.of_log (os : List Obs) (hl : s'.log = s.log ++ os)
    (ho : ∀ o ∈ os, ∀ f f', o ≠ .killed (some f) f') (hc : s'.callbacks = s.callbacks) :
    s.TaskQuiet s' :=
  ⟨⟨os, hl, ho⟩, fun h => hc ▸ h⟩

theorem State.TaskQuiet.killed (h : s.TaskQuiet s') {f' : TaskId}
    (hk : .killed (some f) f' ∈ s'.log) : .killed (some f) f' ∈ s.log := by
  obtain ⟨os, hl, ho⟩ := h.log
  rw [hl] at hk
  exact (List.mem_append.1 hk).resolve_right fun hm => ho _ hm f f' rfl

theorem State.TaskQuiet.finished (h : s.TaskQuiet s') (hf : .finished f ∈ s.log) :
    .finished f ∈ s'.log := by
  obtain ⟨os, hl, -⟩ := h.log
  rw [hl]; exact List.mem_append_left _ hf

/-- Only the coroutine `c` changes. -/
theorem State.TaskInv.at (h : s.TaskInv) (hq : s.TaskQuiet s') (c : Co)
    (hn : s'.nextTask = s.nextTask) (hh : s'.handle = s.handle)
    (hm : ∀ c' ≠ c, s'.mode c' = s.mode c' ∧ s'.task c' = s.task c')
    (ho : ∀ {f}, s.handle f = c → s.Owned f → s'.Owned f) : s'.TaskInv where
  handle hf := by rw [hh]; exact h.handle (hn ▸ hf)
  target hk := by rw [hn, hh]; exact h.target (hq.callbacks hk)
  killed hk := h.killed (hq.killed hk)
  owned {f} hf := by
    have hown := h.owned (hn ▸ hf)
    by_cases hc : s.handle f = c
    · exact ho hc hown
    · obtain ⟨h1, h2⟩ := hm _ hc
      unfold State.Owned
      rw [hh, h1, h2]
      exact hown.imp_left hq.finished

theorem State.TaskInv.keep (h : s.TaskInv) (hq : s.TaskQuiet s') (hn : s'.nextTask = s.nextTask)
    (hh : s'.handle = s.handle) (hm : s'.mode = s.mode) (ht : s'.task = s.task) : s'.TaskInv :=
  h.at hq 0 hn hh (fun c' _ => by rw [hm, ht]; exact ⟨rfl, rfl⟩) fun _ ho => by
    unfold State.Owned
    rw [hh, hm, ht]
    exact ho.imp_left hq.finished

/-- A coroutine goes on with its task. -/
theorem State.Owned.busy (h : s.Owned f) (hc : s.handle f = c) (hb : (s.mode c).Busy)
    (hb' : (s'.mode c).Busy) (hh : s'.handle = s.handle) (ht : s'.task = s.task)
    (hq : s.TaskQuiet s') : s'.Owned f := by
  subst hc
  unfold State.Owned
  rw [hh, ht]
  rcases h with h | h | h | h
  · exact Or.inl (hq.finished h)
  · rw [h] at hb; exact absurd hb id
  · rw [h] at hb; exact absurd hb id
  · exact Or.inr (Or.inr (Or.inr ⟨hb', h.2⟩))

/-- The task of a coroutine that executes one. -/
theorem State.Owned.task_eq (h : s.Owned f) (hb : (s.mode (s.handle f)).Busy) :
    .finished f ∈ s.log ∨ s.task (s.handle f) = f := by
  rcases h with h | h | h | h
  · exact Or.inl h
  · rw [h] at hb; exact absurd hb id
  · rw [h] at hb; exact absurd hb id
  · exact Or.inr h.2

theorem State.TaskInv.busy (h : s.TaskInv) (hq : s.TaskQuiet s') {m : Mode}
    (hb : (s.mode c).Busy) (hb' : m.Busy) (hn : s'.nextTask = s.nextTask)
    (hh : s'.handle = s.handle) (hm : s'.mode = Function.update s.mode c m)
    (ht : s'.task = s.task) : s'.TaskInv := by
  refine h.at hq c hn hh (fun c' hc => ?_) fun hc ho => ?_
  · rw [hm, ht, Function.update_of_ne hc]; exact ⟨rfl, rfl⟩
  · refine ho.busy hc hb ?_ hh ht hq
    rw [hm, Function.update_self]; exact hb'

theorem State.TaskInv.returned (h : s.TaskInv) (ht : s.Turn c) : State.TaskInv
    (giveBack { (s.setMode c .pooled).emit (.finished (s.task c)) with pool := s.pool ++ [c] }) := by
  refine h.at (.of_log [.finished (s.task c)] rfl (by simp) rfl) c rfl rfl
    (fun c' hc => ⟨Function.update_of_ne hc _ _, rfl⟩) fun {f} hc ho => Or.inl ?_
  subst hc
  rcases ho.task_eq (by rw [ht.1]; trivial) with hf | hf
  · exact List.mem_append_left _ hf
  · exact List.mem_append_right _ (by simp [hf])

theorem State.TaskInv.failed (h : s.TaskInv) (v : Value) :
    (giveBack ((s.setMode c .dead).emit (.failed (s.task c) v))).TaskInv := by
  refine h.at (.of_log [.failed (s.task c) v] rfl (by simp) rfl) c rfl rfl
    (fun c' hc => ⟨Function.update_of_ne hc _ _, rfl⟩) fun {f} hc _ => Or.inr (Or.inl ?_)
  subst hc
  exact Function.update_self _ _ _

/-- The coroutine made ready for a task starts it. -/
theorem State.TaskInv.start (h : s.TaskInv) {args : List Value} {cbs : List Callback}
    (hq : s.callbacks = .resume c args :: cbs) (hc : s.mode c = .ready (some f)) : State.TaskInv
    ({ s.setMode c .running with
        callbacks := cbs, cur := some c, task := Function.update s.task c f }.emit
      (.started (some f) args)) := by
  have hquiet : s.TaskQuiet ({ s.setMode c .running with
      callbacks := cbs, cur := some c, task := Function.update s.task c f }.emit
      (.started (some f) args)) :=
    ⟨⟨_, rfl, by simp⟩, fun hm => by rw [hq]; exact List.mem_cons_of_mem _ hm⟩
  refine h.at hquiet c rfl rfl
    (fun c' hc => ⟨Function.update_of_ne hc _ _, Function.update_of_ne hc _ _⟩)
    fun {f'} hh ho => ?_
  subst hh
  rcases ho with ho | ho | ho | ho
  · exact Or.inl (hquiet.finished ho)
  · rw [hc] at ho; cases ho
  · rw [hc] at ho; cases ho
    refine Or.inr (Or.inr (Or.inr ⟨?_, Function.update_self _ _ _⟩))
    have hm : Function.update s.mode (s.handle f) .running (s.handle f) = .running :=
      Function.update_self _ _ _
    have hb : (Function.update s.mode (s.handle f) .running (s.handle f)).Busy := by
      rw [hm]; trivial
    exact hb
  · rw [hc] at ho; exact absurd ho.1 id

/-- A coroutine of the pool executes no task: those it was returned for have finished. -/
theorem State.TaskInv.spawned (h : s.TaskInv) (hh : s.HubInv) {args : List Value}
    (hc : s.mode c = .pooled) : (s.spawned c args).TaskInv := by
  have hc0 : c ≠ 0 := by
    rintro rfl
    rcases hh.mainMode with h0 | ⟨-, i, f, h0⟩ <;> rw [h0] at hc <;> cases hc
  have hne : ∀ {f}, f < s.nextTask → (s.spawned c args).handle f = s.handle f := fun hf =>
    Function.update_of_ne hf.ne _ _
  have hcase : ∀ {f}, f < (s.spawned c args).nextTask → f < s.nextTask ∨ f = s.nextTask :=
    fun hf => (Nat.lt_succ_iff_lt_or_eq).1 hf
  refine ⟨fun {f} hf => ?_, fun {f} hf => ?_, fun {c' e f} hm => ?_, h.killed⟩
  · rcases hcase hf with hf | rfl
    · rw [hne hf]; exact h.handle hf
    · simpa [State.spawned, Loop.runCallback] using hc0
  · rcases hcase hf with hf | rfl
    · have hold := h.owned hf
      unfold State.Owned
      rw [hne hf]
      by_cases hcc : s.handle f = c
      · refine Or.inl ?_
        rw [State.Owned, hcc, hc] at hold
        rcases hold with hold | hold | hold | hold
        · exact hold
        · cases hold
        · cases hold
        · exact absurd hold.1 id
      · have hm : (s.spawned c args).mode (s.handle f) = s.mode (s.handle f) :=
          Function.update_of_ne hcc _ _
        rw [hm]; exact hold
    · refine Or.inr (Or.inr (Or.inl ?_))
      simp [State.spawned, Loop.runCallback, State.setMode]
  · have hm' : .throw c' e (some f) ∈ s.callbacks := by
      simpa [State.spawned, Loop.runCallback, State.setMode] using hm
    obtain ⟨h1, h2⟩ := h.target hm'
    exact ⟨h1.trans (Nat.lt_succ_self _), (hne h1).trans h2⟩

/-- A kill that finds its coroutine blocked is delivered to the task it is for,
    if that task has not finished. -/
theorem State.TaskInv.kill (h : s.TaskInv) (hh : s.HubInv) {e : Exn} {target : Option TaskId}
    {cbs : List Callback} {w : WaiterId} (hq : s.callbacks = .throw c e target :: cbs)
    (hw : s.waiters c = some w) (hf : ∀ f, target = some f → .finished f ∉ s.log) :
    ({ s with callbacks := cbs }.emit (.killed target (s.task c))).TaskInv := by
  have hmem : ∀ {c' e' f}, .throw c' e' (some f) ∈ cbs → .throw c' e' (some f) ∈ s.callbacks :=
    fun hm => by rw [hq]; exact List.mem_cons_of_mem _ hm
  refine ⟨h.handle, fun hlt => ?_, fun hm => h.target (hmem hm), fun {f f'} hm => ?_⟩
  · exact (h.owned hlt).imp_left (List.mem_append_left _)
  · rcases List.mem_append.1 hm with hm | hm
    · exact h.killed hm
    simp only [List.mem_singleton, Obs.killed.injEq] at hm
    obtain ⟨rfl, rfl⟩ := hm
    obtain ⟨hlt, rfl⟩ := h.target (by rw [hq]; exact List.mem_cons_self)
    obtain ⟨k, hk⟩ := hh.entry (h.handle hlt) hw
    exact ((h.owned hlt).task_eq (by rw [hk]; trivial)).resolve_left (hf f rfl)

theorem State.TaskInv.micro (hm : Micro R p s p' s')
    (hR : ∀ L target, R.kill L target → ∀ f, target = some f → .finished f ∉ L)
    (hh : s.HubInv) (hp : s.PoolInv) (h : s.TaskInv) : s'.TaskInv := by
  have log : ∀ os : List Obs, (∀ o ∈ os, ∀ f f', o ≠ .killed (some f) f') →
      s'.log = s.log ++ os → s'.callbacks = s.callbacks → s'.nextTask = s.nextTask →
      s'.handle = s.handle → s'.mode = s.mode → s'.task = s.task → s'.TaskInv :=
    fun os ho hl hc => h.keep (.of_log os hl ho hc)
  have busy : ∀ (c : Co) (m : Mode) (os : List Obs), (s.mode c).Busy → m.Busy →
      (∀ o ∈ os, ∀ f f', o ≠ .killed (some f) f') → s'.log = s.log ++ os →
      s'.callbacks = s.callbacks → s'.nextTask = s.nextTask → s'.handle = s.handle →
      s'.mode = Function.update s.mode c m → s'.task = s.task → s'.TaskInv :=
    fun c m os hb hb' ho hl hc => h.busy (c := c) (.of_log os hl ho hc) hb hb'
  cases hm with
  | env _ _ _ he | waiter _ _ he => rw [he.eq]; exact { h with }
  | semPass _ x c =>
    exact log [.semCall x c (s.sem x).counter, .semTrue x (s.sem x).counter none] (by simp) (List.append_assoc _ _ _)
      rfl rfl rfl rfl rfl
  | semRefuse _ x c t s₁ _ h₁ =>
    obtain ⟨E, A, M, Q, he⟩ := (s.emit (.semCall x c (s.sem x).counter)).newLink_frame (.sem x)
    rw [h₁.eq, he] at log ⊢
    exact log [.semCall x c (s.sem x).counter, .semRaised x t] (by simp) (List.append_assoc _ _ _)
      rfl rfl rfl rfl rfl
  | semWaited _ x w o s₁ ho h₁ =>
    obtain ⟨E, A, M, Q, he⟩ := s.setLinks_frame ((s.links (.sem x)).erase w) (.sem x)
    rw [h₁.eq, State.unlink, he] at log ⊢
    have hkill : ∀ f f', o ≠ .killed (some f) f' := by
      rcases ho.ends with ⟨_, _, rfl⟩ | ⟨_, _, rfl⟩ | ⟨_, rfl⟩ <;> simp
    exact log [o] (by simpa using hkill) rfl rfl rfl rfl rfl rfl
  | link _ y =>
    obtain ⟨E, A, M, Q, he⟩ := s.newLink_frame y
    rw [he]; exact { h with }
  | unlink _ y w =>
    obtain ⟨E, A, M, Q, he⟩ := s.setLinks_frame ((s.links y).erase w) y
    rw [State.unlink, he]; exact { h with }
  | mainDone | enter | eventClear => exact { h with }
  | endNotify _ y =>
    obtain ⟨E, Q, he⟩ := endNotify_frame s y
    rw [he]; exact { h with }
  | emit _ o ho =>
    obtain ⟨c, vs, rfl⟩ := ho.eq_ret
    exact log [.ret c vs] (by simp) rfl rfl rfl rfl rfl rfl
  | assertGet | semAcquire => exact log [_] (by simp) rfl rfl rfl rfl rfl rfl
  | settledGet _ w c =>
    exact log [.getCall w c, .getDone w (s.waiter w).result] (by simp) (List.append_assoc _ _ _)
      rfl rfl rfl rfl rfl
  | mainGet _ _ w v =>
    exact log [.getCall w 0, .getDone w (.error v)] (by simp) (List.append_assoc _ _ _)
      rfl rfl rfl rfl rfl
  | goOn _ c m ht ha =>
    exact busy c m [] (by simp [ht.1, Mode.Busy]) ha.busy (by simp) (List.append_nil _).symm
      rfl rfl rfl rfl rfl
  | answer _ c i f _ hf =>
    exact busy c .running [] (by simp [hf, Mode.Busy]) trivial (by simp) (List.append_nil _).symm
      rfl rfl rfl rfl rfl
  | block _ c w k ht =>
    exact busy c (.blocked w k) [.getCall w c] (by simp [ht.1, Mode.Busy]) trivial (by simp)
      rfl rfl rfl rfl rfl rfl
  | resume _ c w k v x b hc =>
    have hl := s.resume_log c w v x b
    obtain ⟨E, L, he⟩ := s.takes_frame w b
    rw [he] at hl busy ⊢
    exact busy c .running _ (by simp [hc, Mode.Busy]) trivial (by simp [or_imp, forall_and]) hl rfl rfl rfl rfl rfl
  | settle _ w v x b =>
    have hl := s.settle_log w v x b
    obtain ⟨E, L, he⟩ := s.takes_frame w b
    rw [he] at hl log ⊢
    exact log _ (by simp [or_imp, forall_and]) hl rfl rfl rfl rfl rfl
  | abort _ y w =>
    have hl := s.abort_log w y
    obtain ⟨E, L, he⟩ := s.takes_frame w (some y)
    rw [he] at hl log ⊢
    exact log _ (by simp) hl rfl rfl rfl rfl rfl
  | returned _ c ht => exact h.returned ht
  | failed _ c v => exact h.failed v
  | start _ c f args cbs _ hq hc => exact h.start hq hc
  | rawCreate =>
    refine h.at (.of_log [] (List.append_nil _).symm (by simp) rfl) (s.total + 1) rfl rfl
      (fun c' hc => ⟨Function.update_of_ne hc _ _, rfl⟩) fun {f} hc ho => ?_
    -- a coroutine that does not exist is the handle of no task
    have hu : s.mode (s.total + 1) = .unused := hp.unused.2 (Nat.lt_succ_self _)
    rw [State.Owned, hc, hu] at ho
    rcases ho with ho | ho | ho | ho
    · exact Or.inl ho
    · cases ho
    · cases ho
    · exact absurd ho.1 id
  | spawn _ co args _ hc => exact h.spawned hh hc
  | post _ cb _ ha =>
    refine { h with target := fun hm => ?_ }
    rcases List.mem_append.1 hm with hm | hm
    · exact h.target hm
    · exact ha _ _ _ (List.mem_singleton.1 hm).symm
  | pop _ cb cbs _ _ hq | begin _ y cbs _ hq =>
    exact { h with target := fun hm => h.target (by rw [hq]; exact List.mem_cons_of_mem _ hm) }
  | kill _ c e target cbs w _ hq hw hk => exact h.kill hh hq hw (hR _ _ hk)
  | eventSet _ e =>
    have hl := Event.set_log s e
    obtain ⟨E, C, L, he, hC⟩ := Event.set_frame s e
    rw [he] at hl ⊢
    exact h.keep ⟨⟨_, hl, by simp⟩, hC.throw⟩ rfl rfl rfl rfl
  | asyncSet _ _ _ _ _ hs =>
    obtain ⟨A, C, rfl, hC⟩ := AsyncResult._set_frame s hs
    exact h.keep ⟨⟨[], (List.append_nil _).symm, by simp⟩, hC.throw⟩ rfl rfl rfl rfl
  | semRelease _ x =>
    have hl := Semaphore.release_log s x
    obtain ⟨M, C, L, he, hC⟩ := Semaphore.release_frame s x
    rw [he] at hl ⊢
    exact h.keep ⟨⟨_, hl, by simp⟩, hC.throw⟩ rfl rfl rfl rfl
  | put _ q item =>
    have hl := Queue._put_log s q item
    obtain ⟨Q, E, C, L, he, hC⟩ := Queue._put_frame s q item
    rw [he] at hl ⊢
    refine h.keep ⟨⟨[.inserted q item, .putDone q item], ?_, by simp⟩, hC.throw⟩ rfl rfl rfl rfl
    simp only at hl
    simp [State.emit, hl]
  | get _ q item s₁ hs =>
    have hl := Queue._get_log s hs
    obtain ⟨Q, C, L, rfl, hC⟩ := Queue._get_frame s hs
    refine h.keep ⟨⟨[.removed q item, .gotItem q item], ?_, by simp⟩, hC.throw⟩ rfl rfl rfl rfl
    simp only at hl
    simp [State.emit, hl]

theorem State.Initial.tasks (h : s.Initial value) : s.TaskInv := by
  have hlog := h.log
  have hcbs := h.callbacks
  obtain ⟨E, C, L, Q, n, hs⟩ := h.frame
  have hn : s.nextTask = 0 := by rw [hs]; rfl
  refine ⟨fun hf => ?_, fun hf => ?_, fun hm => ?_, fun hm => ?_⟩
  · rw [hn] at hf; exact absurd hf (Nat.not_lt_zero _)
  · rw [hn] at hf; exact absurd hf (Nat.not_lt_zero _)
  · obtain ⟨e, he⟩ := hcbs _ hm; cases he
  · obtain ⟨e, he⟩ := hlog _ hm; cases he

/-! ## Runs -/

/-- The step is no operation on a waiter by hand; and a kill that begins while
    its coroutine is blocked is for a task that has not finished. -/
def Timely (s : State) (a : Act) : Prop :=
  ¬ a.Raw ∧ match a, s.callbacks with
    | .callback, .throw c _ (some f) :: _ => (s.waiters c).isSome → .finished f ∉ s.log
    | _, _ => True

instance (s : State) (a : Act) : Decidable (Timely s a) := by
  unfold Timely
  split <;> infer_instance

theorem StepOk.tasks {a : Act} (ha : Timely s a) : StepOk Rules.tasks s a where
  notified _ _ _ _ _ := trivial
  watched _ _ _ _ _ := trivial
  injected _ _ := trivial
  begin _ _ _ _ := trivial
  ready := Or.inl trivial
  set _ _ _ _ _ _ := trivial
  raw o ho hr := by subst ho; exact absurd hr ha.1
  kill c e target cbs w hcb hq hw := by
    rintro f rfl
    obtain ⟨-, h⟩ := ha
    subst hcb
    rw [hq] at h
    exact h (by rw [hw]; rfl)

/-- **A kill hits the task it is for.** -/
theorem kill_hits_target (hrun : run step (State.init value maxsizes) as = some t)
    (hA : Along step Timely (State.init value maxsizes) as) (f f' : TaskId)
    (hk : .killed (some f) f' ∈ t.log) : f' = f := by
  have h0 := State.init_initial value maxsizes
  obtain ⟨-, h⟩ := run_micro_inv (R := Rules.tasks) (I := fun _ s => s.TaskInv)
    (fun hm hs h => h.micro hm (fun _ _ => id) hs.hub hs.pool) (fun _ _ ha => .tasks ha) h0.sound
    h0.tasks hrun hA
  exact h.killed hk

/-- A sleeping task is killed. -/
def killsSleeper : List Act :=
  [.enter, .op (.spawn []), .op (.returns []), .callback, .op .sleep,
    .enter, .op (.kill 1 (some 0)), .op (.returns []), .callback]

theorem kill_hits_target_killsSleeper :
    ∃ t, run step (State.init (fun _ => 0) []) killsSleeper = some t ∧
      .killed (some 0) 0 ∈ t.log ∧ .failed 0 (.exn .kill) ∈ t.log ∧
      ∀ f', .killed (some 0) f' ∈ t.log → f' = 0 := by
  have h : run step (State.init (fun _ => 0) []) killsSleeper = some _ := rfl
  exact ⟨_, h, by decide, by decide,
    fun f' => kill_hits_target h (.of_check (by decide)) 0 f'⟩

/-- A task has finished, and its coroutine sleeps in another one when the first
    is killed. -/
def killsReused : List Act :=
  [.enter, .op (.spawn []), .op (.returns []), .callback, .op (.returns []),
    .enter, .op (.spawn []), .op (.returns []), .callback, .op .sleep,
    .enter, .op (.kill 1 (some 0)), .op (.returns []), .callback]

theorem kill_hits_another :
    ∃ t, run step (State.init (fun _ => 0) []) killsReused = some t ∧
      (∀ a ∈ killsReused, ¬ a.Raw) ∧ t.handle 0 = 1 ∧ .finished 0 ∈ t.log ∧
      .killed (some 0) 1 ∈ t.log ∧ .failed 1 (.exn .kill) ∈ t.log := by
  have h : run step (State.init (fun _ => 0) []) killsReused = some _ := rfl
  exact ⟨_, h, by simp [killsReused, Act.Raw, Op.Raw], by decide, by decide, by decide, by decide⟩

end Levent
