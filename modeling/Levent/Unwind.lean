/-
  An exception that the hub throws at a suspended task: which calls let it
  unwind the task, and which turn it into a result.
-/
import Levent.Runtime.Runs

namespace Levent

open Lib (run)

variable {s s' t t' : State} {value : SemId → ℕ} {maxsizes : List (Option ℤ)} {as : List Act}
  {c : Co} {e : Exn} {w : WaiterId} {k : Call}

/-! ## Unwinding -/

/-- The exception unwinds the task of `c`: to the `timeout.run` whose timeout it
    is, which returns false and the timeout, or to the end of the task. -/
inductive State.Unwinds (s : State) (c : Co) (e : Exn) (s' : State) : Prop
  | caught (t inner outer) : e = .timeout t → s.stack c = inner ++ .timeoutRun t :: outer →
      .timeoutRun t ∉ inner → s'.mode c = .running → s'.cur = some c → s'.stack c = outer →
      (∃ l, s'.log = l ++ [.ret c [.bool false, .exn e]]) → Unwinds s c e s'
  | ended : e = .kill → s'.mode c = .dead → s'.cur = none →
      (∃ l, s'.log = l ++ [.failed (s.task c) (.exn e)]) → Unwinds s c e s'

/-- A kill passes every `timeout.run`. -/
theorem unwind_kill {st : List Frame} (hp : .pcall ∉ st) :
    (unwind (.exn .kill) st).2 = .error (.exn .kill) := by
  induction st with
  | nil => rfl
  | cons f st ih =>
    cases f with
    | pcall => exact absurd List.mem_cons_self hp
    | timeoutRun t =>
      rw [unwind, traceback_exn, if_neg (by simp)]
      exact ih fun hm => hp (List.mem_cons_of_mem _ hm)

/-- A timeout passes the `timeout.run`s inside its own. -/
theorem unwind_timeout {t : TimeoutId} {inner outer : List Frame} (hp : .pcall ∉ inner)
    (hi : .timeoutRun t ∉ inner) :
    (unwind (.exn (.timeout t)) (inner ++ .timeoutRun t :: outer)).2 =
      .ok (outer, [.bool false, .exn (.timeout t)]) := by
  induction inner with
  | nil => simp [unwind]
  | cons f st ih =>
    cases f with
    | pcall => exact absurd List.mem_cons_self hp
    | timeoutRun t' =>
      have ht : ¬ (Value.exn (.timeout t) = .exn (.timeout t')) := fun h => by
        cases h; exact hi List.mem_cons_self
      rw [List.cons_append, unwind, traceback_exn, if_neg ht]
      exact ih (fun hm => hp (List.mem_cons_of_mem _ hm)) fun hm => hi (List.mem_cons_of_mem _ hm)

/-- The first `timeout.run` of a timeout. -/
theorem exists_inner {t : TimeoutId} {st : List Frame} (h : .timeoutRun t ∈ st) :
    ∃ inner outer, st = inner ++ .timeoutRun t :: outer ∧ .timeoutRun t ∉ inner := by
  obtain ⟨inner, outer, hst, hi⟩ := List.eq_append_cons_of_mem h
  exact ⟨inner, outer, hst, hi⟩

/-! ## What the calls leave alone -/

/-- The coroutine is in the same protected calls of the same task. -/
structure State.Agrees (s : State) (c : Co) (s' : State) : Prop where
  stack : s'.stack c = s.stack c
  task : s'.task c = s.task c
  cur : s'.cur = s.cur

theorem State.Agrees.trans {s₁ : State} (h : s.Agrees c s₁) (h' : s₁.Agrees c s') :
    s.Agrees c s' :=
  ⟨h'.stack.trans h.stack, h'.task.trans h.task, h'.cur.trans h.cur⟩

theorem State.Unwinds.congr {s₁ : State} (hst : s₁.stack c = s.stack c)
    (ht : s₁.task c = s.task c) (hu : s₁.Unwinds c e s') : s.Unwinds c e s' := by
  cases hu with
  | caught t inner outer he hs hi hm hcur hst' hl =>
    exact .caught t inner outer he (hst.symm.trans hs) hi hm hcur hst' hl
  | ended he hm hcur hl => exact .ended he hm hcur (ht ▸ hl)

theorem State.unlink_agrees (s : State) (c : Co) (y : Sync) (w : WaiterId) :
    s.Agrees c (s.unlink y w) := by
  obtain ⟨E, A, M, Q, he⟩ := s.setLinks_frame ((s.links y).erase w) y
  rw [State.unlink, he]; exact ⟨rfl, rfl, rfl⟩

theorem Timeout.cancel_agrees (s : State) (c : Co) (t : TimeoutId) :
    s.Agrees c (Timeout.cancel s t) := by
  unfold Timeout.cancel
  split <;> exact ⟨rfl, rfl, rfl⟩

theorem Timeout.cancel_all_agrees (s : State) (c : Co) (ts : List TimeoutId) :
    s.Agrees c (ts.foldl Timeout.cancel s) := by
  induction ts generalizing s with
  | nil => exact ⟨rfl, rfl, rfl⟩
  | cons t ts ih => exact (Timeout.cancel_agrees s c t).trans (ih _)

theorem unlink_cancel_agrees (s : State) (c : Co) (y : Sync) (w : WaiterId) (t : TimeoutId) :
    s.Agrees c (Timeout.cancel (s.unlink y w) t) :=
  (s.unlink_agrees c y w).trans (Timeout.cancel_agrees _ c t)

/-! ## The end of the call -/

/-- The exceptions that are thrown at a task: kills, and the timeouts of the
    `timeout.run`s it is in. -/
def State.Foreign (s : State) (c : Co) (e : Exn) : Prop :=
  e = .kill ∨ ∃ t, e = .timeout t ∧ .timeoutRun t ∈ s.stack c

/-- An error that leaves a call unwinds the task. -/
theorem raise_unwinds (hc : c ≠ 0) (hcur : s.cur = some c) (hp : .pcall ∉ s.stack c)
    (he : s.Foreign c e) : s.Unwinds c e (raise s c (.exn e)) := by
  have ha := Timeout.cancel_all_agrees s c (unwind (.exn e) (s.stack c)).1
  unfold raise; dsimp only
  rcases he with rfl | ⟨t, rfl, ht⟩
  · rw [unwind_kill hp]
    dsimp only
    rw [fail, if_neg hc]
    exact .ended rfl (by simp [giveBack, State.emit, State.setStack, State.setMode]) rfl
      ⟨_, by rw [ha.task]; rfl⟩
  · obtain ⟨inner, outer, hst, hi⟩ := exists_inner ht
    rw [hst] at ha hp ⊢
    rw [unwind_timeout (fun hm => hp (List.mem_append_left _ hm)) hi]
    exact .caught t inner outer rfl hst hi (by simp [State.emit, State.setStack, State.setMode])
      (ha.cur.trans hcur) (by simp [State.emit, State.setStack, State.setMode]) ⟨_, rfl⟩

/-- A call that returns has not been unwound. -/
theorem finish_not_unwinds (vs : List Value) : ¬ s.Unwinds c e (finish s c (.ok vs)) := by
  intro hu
  cases hu with
  | caught t inner outer _ hst _ _ _ hst' =>
    have h : s.stack c = outer := hst'
    rw [hst] at h
    have := congrArg List.length h
    simp at this; omega
  | ended _ hm => simp [finish, State.emit, State.setMode] at hm

/-- A call that ends with the error unwinds the task, one that returns does not. -/
theorem finish_unwinds_iff (hc : c ≠ 0) (hcur : s.cur = some c) (hp : .pcall ∉ s.stack c)
    (he : s.Foreign c e) {s₁ : State} (ha : s.Agrees c s₁) {r : Outcome}
    (hr : r = .error (.exn e) ∨ ∃ vs, r = .ok vs) :
    s.Unwinds c e (finish s₁ c r) ↔ r = .error (.exn e) := by
  rcases hr with rfl | ⟨vs, rfl⟩
  · refine iff_of_true (.congr ha.stack ha.task (raise_unwinds hc (ha.cur.trans hcur) ?_ ?_)) rfl
    · rw [ha.stack]; exact hp
    · exact he.imp_right fun ⟨t, h1, h2⟩ => ⟨t, h1, ha.stack ▸ h2⟩
  · exact iff_of_false (fun hu => finish_not_unwinds vs (hu.congr ha.stack.symm ha.task.symm)) (by simp)

/-! ## The blocking calls -/

/-- The calls that turn every error of `waiter.get` into a result. -/
def Call.Swallows : Call → Prop
  | .eventWait .. | .semWait .. | .hubWait _ _ (.sock ..) => True
  | _ => False

instance : DecidablePred Call.Swallows := fun k => by
  unfold Call.Swallows
  split <;> infer_instance

theorem afterGet_unwinds_iff (hc : c ≠ 0) (hcur : s.cur = some c) (hp : .pcall ∉ s.stack c)
    (he : s.Foreign c e) (k : Call) :
    s.Unwinds c e (afterGet s c w k (.error (.exn e))) ↔ ¬ k.Swallows := by
  have main : ∀ {s₁ : State} {r : Outcome}, s.Agrees c s₁ →
      (r = .error (.exn e) ∨ ∃ vs, r = .ok vs) →
      (s.Unwinds c e (finish s₁ c r) ↔ r = .error (.exn e)) := fun ha hr =>
    finish_unwinds_iff hc hcur hp he ha hr
  have raises : ∀ {s₁ : State}, s.Agrees c s₁ →
      s.Unwinds c e (finish s₁ c (.error (.exn e))) := fun ha => (main ha (Or.inl rfl)).2 rfl
  have returns : ∀ {s₁ : State} {vs : List Value}, s.Agrees c s₁ →
      ¬ s.Unwinds c e (finish s₁ c (.ok vs)) := fun ha hu =>
    absurd ((main ha (Or.inr ⟨_, rfl⟩)).1 hu) (by simp)
  cases k with
  | get => exact iff_of_true (raises ⟨rfl, rfl, rfl⟩) id
  | asyncGet a t => exact iff_of_true (raises (unlink_cancel_agrees s c _ w t)) id
  | queuePut q item t => exact iff_of_true (raises (unlink_cancel_agrees s c _ w t)) id
  | queueGet q t => exact iff_of_true (raises (unlink_cancel_agrees s c _ w t)) id
  | eventWait e' t =>
    refine iff_of_false ?_ (not_not_intro trivial)
    cases e' <;> exact returns (unlink_cancel_agrees s c _ w t)
  | semWait x t acquire =>
    refine iff_of_false (returns ?_) (not_not_intro trivial)
    exact (unlink_cancel_agrees s c (.sem x) w t).trans ⟨rfl, rfl, rfl⟩
  | hubWait x u k =>
    cases k with
    | sleep => exact iff_of_true (raises ⟨rfl, rfl, rfl⟩) id
    | sock i f t =>
      refine iff_of_false (returns ?_) (not_not_intro trivial)
      have h1 : s.Agrees c (Watcher.stop s x) := ⟨rfl, rfl, rfl⟩
      cases t with
      | none => exact h1
      | some t => exact h1.trans (Timeout.cancel_agrees _ c t)

/-- `hub:throw` at a suspended coroutine. -/
theorem Hub.throw_blocked (hh : s.HubInv) (hcur : s.cur = none) (hc : s.mode c = .blocked w k) :
    Hub.throw s c (.exn e) =
      (afterGet (s.resume c w .nil (.exn e)) c w k (.error (.exn e)), none) := by
  obtain ⟨h1, h2, h3⟩ := hh.blocked hc
  unfold Hub.throw
  rw [h1]
  exact Waiter._switch_blocked hcur hc (hh.ne_zero hc) h2 h3 (by simp [isException])

theorem Hub.delivered_unwinds_iff (hh : s.HubInv) (hcur : s.cur = none)
    (hc : s.mode c = .blocked w k) (hp : .pcall ∉ s.stack c) (he : s.Foreign c e) :
    s.Unwinds c e (Hub.throw s c (.exn e)).1 ↔ ¬ k.Swallows := by
  rw [Hub.throw_blocked hh hcur hc]
  have h := afterGet_unwinds_iff (s := s.resume c w .nil (.exn e)) (w := w) (hh.ne_zero hc) rfl hp he k
  have hst : (s.resume c w .nil (.exn e)).stack c = s.stack c := rfl
  have ht : (s.resume c w .nil (.exn e)).task c = s.task c := rfl
  exact ⟨fun hu => h.1 (State.Unwinds.congr hst.symm ht.symm hu),
    fun hk => State.Unwinds.congr hst ht (h.2 hk)⟩

/-! ## Runs -/

/-- The step throws `e` at `c`: a timer fires, or a queued throw is run. -/
def State.Delivers (s : State) (a : Act) (c : Co) (e : Exn) : Prop :=
  (∃ x, a = .fire x ∧ (s.watcher x).cb = some (.throw c e)) ∨
    ∃ target cbs, a = .callback ∧ s.callbacks = .throw c e target :: cbs

/-- Such a step is a `hub:throw` in a state like the one before. -/
theorem State.Delivers.throws {a : Act} (h : s.Delivers a c e) (hs : s.Sound)
    (hc : s.mode c = .blocked w k) (hstep : step s a = some s') :
    ∃ s₁, s₁.HubInv ∧ s₁.cur = none ∧ s₁.mode = s.mode ∧ s₁.stack = s.stack ∧ s₁.task = s.task ∧
      s' = (Hub.throw s₁ c (.exn e)).1 := by
  unfold step at hstep
  rcases h with ⟨x, rfl, hx⟩ | ⟨target, cbs, rfl, hq⟩
  · dsimp only at hstep
    split at hstep
    · rename_i hb
      cases hstep
      have h1 := Loop.expire_env (s := s) x
      refine ⟨Loop.expire s x, ?_, ?_, ?_, ?_, ?_, ?_⟩
      · exact hs.hub.micro (R := Rules.free) (.env none s _ h1) hs.pool
      · rw [h1.eq]; exact hb.1.2
      · rw [h1.eq]; rfl
      · cases x <;> rfl
      · rw [h1.eq]; rfl
      · unfold Loop.fire; rw [hx]
    · cases hstep
  · dsimp only at hstep
    split at hstep
    · rename_i hb
      rw [hq] at hstep
      cases hstep
      have hh : State.HubInv ({ s with callbacks := cbs }.emit (.killed target (s.task c))) := hs.hub
      refine ⟨_, hh, hb.2, rfl, rfl, rfl, ?_⟩
      have h1 := Hub.throw_blocked (e := e) hh hb.2 (c := c) (w := w) (k := k) hc
      unfold Loop.begin; dsimp only
      have hemit : ({ s with callbacks := cbs } : State).task c = s.task c := rfl
      rw [hemit, h1]
    · cases hstep

/-- **What is thrown at a task unwinds it**, unless it waits for an event or
    for a socket. -/
theorem throw_unwinds_iff (hrun : run step (State.init value maxsizes) as = some t)
    (hA : ∀ a ∈ as, ¬ a.Raw) (hc : t.mode c = .blocked w k) (hp : .pcall ∉ t.stack c)
    (he : t.Foreign c e) {a : Act} (ha : t.Delivers a c e) (hstep : step t a = some t') :
    t.Unwinds c e t' ↔ ¬ k.Swallows := by
  have h0 := State.init_initial value maxsizes
  obtain ⟨hs, -⟩ := run_micro_inv (R := Rules.free) (C := Plain) (I := fun _ _ => True)
    (fun _ _ _ => trivial) (fun _ _ ha => .free ha) h0.sound trivial hrun (.of_forall fun _ => hA)
  obtain ⟨s₁, hh, hcur, hm, hst, ht, rfl⟩ := ha.throws hs hc hstep
  have hF : s₁.Foreign c e := he.imp_right fun ⟨i, h1, h2⟩ => ⟨i, h1, by rw [hst]; exact h2⟩
  have h := Hub.delivered_unwinds_iff hh hcur (hm ▸ hc) (by rw [hst]; exact hp) hF
  exact ⟨fun hu => h.1 (hu.congr (by rw [hst]) (by rw [ht])),
    fun hk => (h.2 hk).congr (by rw [hst]) (by rw [ht])⟩

/-- A task sleeps in two nested `timeout.run`s; the outer one expires. -/
def sleepsNested : List Act :=
  [.enter, .op (.spawn []), .op (.returns []), .callback, .op (.timeoutRun (some 1)),
    .op (.timeoutRun (some 2)), .op .sleep]

theorem throw_unwinds_sleepsNested :
    ∃ t t', run step (State.init (fun _ => 0) []) sleepsNested = some t ∧
      step t (.fire (.timeout 0)) = some t' ∧ t'.stack 1 = [] ∧
      (t.Unwinds 1 (.timeout 0) t' ↔ ¬ (Call.hubWait (.sleep 0) 0 .sleep).Swallows) := by
  have h : run step (State.init (fun _ => 0) []) sleepsNested = some _ := rfl
  exact ⟨_, _, h, rfl, by decide, throw_unwinds_iff h (by simp [sleepsNested, Act.Raw, Op.Raw])
    (k := .hubWait (.sleep 0) 0 .sleep) rfl (by decide) (Or.inr ⟨0, rfl, by decide⟩)
    (a := .fire (.timeout 0)) (Or.inl ⟨_, rfl, rfl⟩) rfl⟩

/-- A task waits for an event in a `timeout.run`. -/
def waitsNested : List Act :=
  [.enter, .op (.spawn []), .op (.returns []), .callback, .op (.timeoutRun (some 1)),
    .op (.eventWait (.user 0) none)]

/-- When the `timeout.run` expires, the wait returns false and its timeout: the
    task goes on inside it. -/
theorem throw_not_unwinds :
    ∃ t t', run step (State.init (fun _ => 0) []) waitsNested = some t ∧
      step t (.fire (.timeout 0)) = some t' ∧ (∀ a ∈ waitsNested, ¬ a.Raw) ∧
      t.mode 1 = .blocked 0 (.eventWait (.user 0) 1) ∧ t.stack 1 = [.timeoutRun 0] ∧
      t'.mode 1 = .running ∧ t'.stack 1 = [.timeoutRun 0] ∧
      .ret 1 [.bool false, .exn (.timeout 0)] ∈ t'.log ∧ ¬ t.Unwinds 1 (.timeout 0) t' := by
  have h : run step (State.init (fun _ => 0) []) waitsNested = some _ := rfl
  refine ⟨_, _, h, rfl, by simp [waitsNested, Act.Raw, Op.Raw], rfl, rfl, rfl, rfl, by decide,
    fun hu => ?_⟩
  cases hu with
  | caught t inner outer _ hst _ _ _ hst' =>
    have h1 : [Frame.timeoutRun 0] = inner ++ .timeoutRun t :: outer := hst
    have h2 : [Frame.timeoutRun 0] = outer := hst'
    rw [← h2] at h1
    exact absurd (congrArg List.length h1) (by simp)
  | ended _ hm => cases hm

end Levent
