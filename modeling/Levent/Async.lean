/-
  The results of tasks: an `AsyncResult` is set once, its getters return what it
  is set to, and none of them is left waiting.
-/
import Levent.Runtime.AsyncInv
import Levent.Unwind

namespace Levent

open Lib (Along run collect)

variable {R : Rules} {p p' : Pend} {s s' t : State} {value : SemId → ℕ} {maxsizes : List (Option ℤ)}
  {as : List Act} {a : AsyncId} {act : Act} {c : Co} {w : WaiterId} {k : Call}

/-! ## What is set -/

/-- What a step sets `a` to, if it is a `set` or `set_exception` of `a` that does
    not raise: the value and the exception. -/
def AsyncResult.sets (a : AsyncId) (s : State) : Act → Option (Value × Value)
  | .op o =>
    match o.sets s with
    | some (a', v, x) => if a' = a then some (v, x) else none
    | none => none
  | _ => none

/-- `a` is as the results set so far say, of which there is one at most. -/
def AsyncResult.Holds (s : State) (a : AsyncId) (sets : List (Value × Value)) : Prop :=
  (sets = [] ∧ (s.async a).exception = .bool false) ∨
    ∃ v x, sets = [(v, x)] ∧ (s.async a).value = v ∧ (s.async a).exception = x ∧
      (x = .nil ∨ v = .nil ∧ ∃ e, x = .exn e)

/-- What a `set` or a `set_exception` sets. -/
theorem Op.sets_ok {o : Op} {v x : Value} (h : o.sets s = some (a, v, x)) :
    (s.async a).exception = .bool false ∧
      ((o = .asyncSet a v ∧ x = .nil) ∨
        (o = .asyncSetException a x ∧ v = .nil ∧ ∃ e, x = .exn e)) := by
  cases o with
  | asyncSet a' v' =>
    simp only [Op.sets, AsyncResult.set, AsyncResult._set] at h
    split at h
    · rename_i hr
      cases h
      split at hr
      · exact ⟨‹_›, Or.inl ⟨rfl, rfl⟩⟩
      · cases hr
    · cases h
  | asyncSetException a' x' =>
    simp only [Op.sets, AsyncResult.setException, AsyncResult._set] at h
    split at h
    · rename_i hr
      cases h
      split at hr
      · rename_i hexn
        obtain ⟨e, rfl⟩ : ∃ e, x = .exn e := by
          cases x <;> simp [isException] at hexn ⊢
        split at hr
        · exact ⟨‹_›, Or.inr ⟨rfl, rfl, e, rfl⟩⟩
        · cases hr
      · cases hr
    · cases h
  | _ => cases h

/-! ## The ends of a call -/

theorem cancel_all_async (ts : List TimeoutId) : (ts.foldl Timeout.cancel s).async = s.async := by
  rw [(Timeout.cancel_all_env ts).eq]
  rfl

/-- The end of a call changes no `AsyncResult`. -/
theorem finish_async (s : State) (c : Co) (o : Outcome) : (finish s c o).async = s.async := by
  cases o with
  | ok vs => rfl
  | error v =>
    have h := cancel_all_async (s := s) (unwind v (s.stack c)).1
    simp only [finish, raise]
    split
    · rw [fail]
      split <;> exact h
    · exact h

/-- The call that `c` is in ends with the outcome `o`, in the protected calls
    that are around it in `s`. -/
def State.Ends (s : State) (c : Co) (o : Outcome) (s' : State) : Prop :=
  ∃ s₁, s₁.stack c = s.stack c ∧ s' = finish s₁ c o

/-- A `set` that raises leaves the result as it is. -/
theorem AsyncResult.set_again (hx : (s.async a).exception ≠ .bool false) {o : Op}
    (ho : (∃ v, o = .asyncSet a v) ∨ ∃ x, o = .asyncSetException a x) (h : o.exec s c = some s') :
    (∃ v, s.Ends c (.error v) s') ∧ s'.async a = s.async a := by
  have hset : ∀ v x, AsyncResult._set s a v x = .error (.str "repeated set result") := by
    intro v x
    rw [AsyncResult._set, if_neg hx]
  obtain ⟨v, hexec⟩ : ∃ v, o.exec s c = some (finish s c (.error v)) := by
    rcases ho with ⟨v, rfl⟩ | ⟨x, rfl⟩
    · exact ⟨_, by rw [Op.exec, AsyncResult.set, hset]; rfl⟩
    · by_cases hexn : isException x = true
      · exact ⟨_, by rw [Op.exec, AsyncResult.setException, if_pos hexn, hset]; rfl⟩
      · exact ⟨_, by rw [Op.exec, AsyncResult.setException, if_neg hexn]; rfl⟩
  rw [hexec] at h
  cases h
  exact ⟨⟨v, s, rfl, rfl⟩, by rw [finish_async]⟩

/-! ## Steps -/

/-- Micro steps that do not set `a`. -/
def Rules.keeps (a : AsyncId) : Rules :=
  { Rules.free with set := fun a' _ x => a' ≠ a ∧ x ≠ .bool false }

theorem Op.sets_ne {o : Op} {v x : Value} (h : o.sets s = some (a, v, x)) : x ≠ .bool false := by
  rcases (Op.sets_ok h).2 with ⟨-, rfl⟩ | ⟨-, -, e, rfl⟩
  · simp
  · simp

theorem StepOk.keeps (hraw : ¬ act.Raw) (hset : AsyncResult.sets a s act = none) :
    StepOk (Rules.keeps a) s act where
  notified _ _ _ _ _ := trivial
  watched _ _ _ _ _ := trivial
  injected _ _ := trivial
  kill _ _ _ _ _ _ _ _ := trivial
  begin _ _ _ _ := trivial
  ready := Or.inl trivial
  set o a' v x ho hs := by
    subst ho
    refine ⟨?_, Op.sets_ne hs⟩
    rintro rfl
    simp [AsyncResult.sets, hs] at hset
  raw o ho hr := by subst ho; exact absurd hr hraw

/-- A step that sets nothing leaves the result as it is. -/
theorem step_keeps (hs : s.Sound) (h : s.AsyncInv a none) (hraw : ¬ act.Raw)
    (hset : AsyncResult.sets a s act = none) (hstep : step s act = some s') :
    (s'.async a).value = (s.async a).value ∧ (s'.async a).exception = (s.async a).exception := by
  have hm := step_micros hs hstep (StepOk.keeps hraw hset)
  refine (hm.inv (I := fun p t => t.Sound ∧ t.AsyncInv a p ∧
    (t.async a).value = (s.async a).value ∧ (t.async a).exception = (s.async a).exception) ?_
    ⟨hs, h, rfl, rfl⟩).2.2
  rintro p t p' t' hmic ⟨ht, hi, hv, hx⟩
  refine ⟨ht.micro hmic, hi.micro hmic (fun _ _ _ hr => hr.2) ht, ?_⟩
  cases hmic.async_step (hi.live ht.hub) with
  | kept hk => exact ⟨hk.value.trans hv, hk.exception.trans hx⟩
  | set _ _ hr => exact absurd rfl hr.1
  | begun _ _ ha => rw [ha]; exact ⟨hv, hx⟩
  | ended _ _ ha => rw [ha]; exact ⟨hv, hx⟩

/-- A step that sets the result. -/
theorem step_sets {v x : Value} (hset : AsyncResult.sets a s act = some (v, x))
    (hstep : step s act = some s') : (s.async a).exception = .bool false ∧
      (s'.async a).value = v ∧ (s'.async a).exception = x ∧
      (x = .nil ∨ v = .nil ∧ ∃ e, x = .exn e) := by
  cases act with
  | op o =>
    simp only [AsyncResult.sets] at hset
    split at hset
    · rename_i a' v' x' hs
      split at hset
      · rename_i ha
        subst ha
        cases hset
        obtain ⟨hfalse, ho⟩ := Op.sets_ok hs
        refine ⟨hfalse, ?_⟩
        simp only [step] at hstep
        split at hstep
        · rename_i c _
          rcases ho with ⟨rfl, rfl⟩ | ⟨rfl, rfl, e, rfl⟩
          · simp only [Op.exec, AsyncResult.set, AsyncResult._set, if_pos hfalse, plain] at hstep
            cases hstep
            rw [finish_async]
            simp [Loop.runCallback, State.setAsync]
          · simp only [Op.exec, AsyncResult.setException, AsyncResult._set, isException, if_true,
              if_pos hfalse, plain] at hstep
            cases hstep
            rw [finish_async]
            simp [Loop.runCallback, State.setAsync]
        · cases hstep
      · cases hset
    · cases hset
  | _ => cases hset

/-- **One step**, with what it sets. -/
theorem AsyncResult.Holds.next {l : List (Value × Value)} (h : AsyncResult.Holds s a l) (hs : s.Sound)
    (hi : s.AsyncInv a none) (hraw : ¬ act.Raw) (hstep : step s act = some s') :
    AsyncResult.Holds s' a (l ++ (AsyncResult.sets a s act).toList) := by
  cases hset : AsyncResult.sets a s act with
  | none =>
    obtain ⟨hv, hx⟩ := step_keeps hs hi hraw hset hstep
    rw [Option.toList_none, List.append_nil, AsyncResult.Holds, hv, hx]
    exact h
  | some r =>
    obtain ⟨v, x⟩ := r
    obtain ⟨hfalse, hv, hx, hkind⟩ := step_sets hset hstep
    rcases h with ⟨rfl, -⟩ | ⟨v', x', rfl, -, hx', hkind'⟩
    · exact Or.inr ⟨v, x, rfl, hv, hx, hkind⟩
    · rw [hx'] at hfalse
      subst hfalse
      rcases hkind' with h | ⟨-, e, h⟩ <;> cases h

/-- Micro steps that do not settle the waiter `w`. -/
def Rules.spares (w : WaiterId) : Rules := { Rules.free with ok := fun _ w' => w' ≠ w }

/-- A suspended coroutine stays so unless its waiter is settled. -/
theorem Micro.blocked_stays (hm : Micro (Rules.spares w) p s p' s') (hs : s.Sound)
    (hc : s.mode c = .blocked w k) : s'.mode c = .blocked w k := by
  -- the mode of another coroutine changes
  have other : ∀ {c' : Co} {m : Mode}, (∀ w k, s.mode c' ≠ .blocked w k) →
      s'.mode = Function.update s.mode c' m → s'.mode c = .blocked w k := by
    intro c' m hb hmode
    exact update_mode_blocked hb hmode c w k hc
  cases hm with
  | env _ _ _ he => rw [he.eq]; exact hc
  | waiter _ _ he => rw [he.eq]; exact hc
  | semRefuse _ x c t s₁ _ h₁ =>
    obtain ⟨E, A, M, Q, he⟩ := (s.emit (.semCall x c (s.sem x).counter)).newLink_frame (.sem x)
    rw [h₁.eq, he]
    exact hc
  | semWaited _ x w o s₁ _ h₁ => rw [h₁.eq]; exact hc
  | emit | semPass | post | pop | kill | begin | mainDone | enter | assertGet | settledGet | semAcquire
  | eventClear | mainGet => exact hc
  | goOn _ c m ht => exact other (m := m) (by simp [ht.1]) rfl
  | answer _ c i f _ hf => exact other (m := .running) (by simp [hf]) rfl
  | returned _ c ht => exact other (m := .pooled) (by simp [ht.1]) rfl
  | failed _ c v ht => exact other (m := .dead) (by simp [ht.1]) rfl
  | block _ c' w' k' ht => exact other (m := .blocked w' k') (by simp [ht.1]) rfl
  | start _ c f args cbs _ _ hc => exact other (m := .running) (by simp [hc]) rfl
  | rawCreate =>
    have hu : s.mode (s.total + 1) = .unused := hs.pool.unused.2 (Nat.lt_succ_self _)
    exact other (m := .pooled) (by simp [hu]) rfl
  | spawn _ co args _ hp => exact other (m := .ready (some s.nextTask)) (by simp [hp]) rfl
  | endNotify _ y =>
    obtain ⟨E, Q, he⟩ := endNotify_frame s y
    rw [he]
    exact hc
  | abort _ y w =>
    obtain ⟨E, L, he⟩ := s.takes_frame w (some y)
    rw [he]
    exact hc
  | eventSet _ e =>
    obtain ⟨E, C, L, he, -⟩ := Event.set_frame s e
    rw [he]
    exact hc
  | asyncSet _ _ _ _ _ hs =>
    obtain ⟨A, C, rfl, -⟩ := AsyncResult._set_frame s hs
    exact hc
  | semRelease _ x =>
    obtain ⟨M, C, L, he, -⟩ := Semaphore.release_frame s x
    rw [he]
    exact hc
  | put _ q item =>
    obtain ⟨Q, E, C, L, he, -⟩ := Queue._put_frame s q item
    rw [he]
    exact hc
  | get _ q item _ hs =>
    obtain ⟨Q, C, L, rfl, -⟩ := Queue._get_frame s hs
    exact hc
  | link _ y =>
    obtain ⟨E, A, M, Q, he⟩ := s.newLink_frame y
    rw [he]
    exact hc
  | unlink _ y w =>
    obtain ⟨E, A, M, Q, he⟩ := s.setLinks_frame ((s.links y).erase w) y
    rw [State.unlink, he]
    exact hc
  | settle _ w v e b =>
    obtain ⟨E, L, he⟩ := s.takes_frame w b
    rw [he]
    exact hc
  | resume _ c' w' k' v e b hc' _ _ hok =>
    have hmode : ((s.takes w' b).resume c' w' v e).mode = Function.update s.mode c' .running := by
      obtain ⟨E, L, he⟩ := s.takes_frame w' b
      rw [he]
      rfl
    have hcc : c ≠ c' := by
      rintro rfl
      rw [hc] at hc'
      cases hc'
      exact hok rfl
    rw [hmode, Function.update_of_ne hcc]
    exact hc

theorem step_blocked_stays (hs : s.Sound) (hraw : ¬ act.Raw) (hr : s.rouses act ≠ some w)
    (hi : s.injects act ≠ some w) (hc : s.mode c = .blocked w k) (hstep : step s act = some s') :
    s'.mode c = .blocked w k := by
  have hok : StepOk (Rules.spares w) s act := by
    refine ⟨?_, ?_, ?_, fun _ _ _ _ _ _ _ _ => trivial, fun _ _ _ _ => trivial, Or.inl trivial,
      fun _ _ _ _ _ _ => trivial, fun o ho h => by subst ho; exact absurd h hraw⟩
    · rintro y w' rfl _ _ rfl
      exact hr rfl
    · rintro x w' u rfl hx rfl
      exact hr (by rw [State.rouses, hx])
    · rintro w' hw' rfl
      exact hi hw'
  refine ((step_micros hs hstep hok).inv (I := fun _ t => t.Sound ∧ t.mode c = .blocked w k) ?_
    ⟨hs, hc⟩).2
  rintro p t p' t' hm ⟨ht, hct⟩
  exact ⟨ht.micro hm, hm.blocked_stays ht hct⟩

/-! ## Getters -/

/-- `c` is suspended in a `get` of `a`. -/
def State.Getting (s : State) (a : AsyncId) (c : Co) : Prop :=
  ∃ w t, s.mode c = .blocked w (.asyncGet a t)

/-- A `get` of `a` in `c` ends in the step: one that has been suspended, or one
    that the step calls. -/
def State.GetEnds (s : State) (a : AsyncId) (act : Act) (c : Co) (s' : State) : Prop :=
  (s.Getting a c ∨ ∃ sec, act = .op (.asyncGet a sec) ∧ s.userTurn = some c) ∧ ¬ s'.Getting a c

/-- How a `get` in `c` may end in a step, if the results `sets` have been set:
    `timeout` and `kill` are thrown at `c` in this step, and the main coroutine
    gets the error of its attempt to wait. -/
inductive State.Gives (s : State) (act : Act) (c : Co) (sets : List (Value × Value)) : Outcome → Prop
  | value (v : Value) : sets = [(v, .nil)] → Gives s act c sets (.ok [v])
  | exception (e : Exn) : sets = [(.nil, .exn e)] → Gives s act c sets (.error (.exn e))
  | timeout (t : TimeoutId) : act = .fire (.timeout t) →
      (s.watcher (.timeout t)).cb = some (.throw c (.timeout t)) →
      Gives s act c sets (.error (.exn (.timeout t)))
  | kill (target : Option TaskId) (cbs : List Callback) : act = .callback → s.callbacks = .throw c .kill target :: cbs →
      Gives s act c sets (.error (.exn .kill))
  | main : c = 0 → sets = [] → Gives s act c sets (.error (traceback s.mainError))

/-- The end of a `get` whose `waiter.get` has ended. -/
theorem got_ends (s₁ : State) (hst : s₁.stack c = s.stack c) (t : TimeoutId) (r : Except Value Value) :
    s.Ends c (match r with
      | .error v => .error (traceback v)
      | .ok _ => (s₁.async a).outcome) (AsyncResult.got s₁ c w a t r) := by
  have hst' := (unlink_cancel_agrees s₁ c (.async a) w t).stack
  have hres : ((Timeout.cancel (s₁.unlink (.async a) w) t).async a).outcome = (s₁.async a).outcome := by
    obtain ⟨hv, hx⟩ := s₁.setLinks_async ((s₁.links (.async a)).erase w) (.async a) a
    rw [(Timeout.cancel_env (s := s₁.unlink (.async a) w) t).eq]
    show ((s₁.unlink (.async a) w).async a).outcome = _
    rw [AsyncResult.outcome, AsyncResult.outcome, State.unlink, hv, hx]
  refine ⟨Timeout.cancel (s₁.unlink (.async a) w) t, hst'.trans hst, ?_⟩
  cases r with
  | error v => rfl
  | ok v =>
    simp only [AsyncResult.got, ← hres]

/-- A `get` of a result that is set. -/
theorem AsyncResult.Holds.gives {l : List (Value × Value)} (h : AsyncResult.Holds s a l)
    (hx : (s.async a).exception ≠ .bool false) (s₁ : State) (act : Act) (c : Co) :
    s₁.Gives act c l (s.async a).outcome := by
  rcases h with ⟨-, hfalse⟩ | ⟨v, x, rfl, hv, hx, hkind⟩
  · exact absurd hfalse hx
  · rw [AsyncResult.outcome, hv, hx]
    rcases hkind with rfl | ⟨rfl, e, rfl⟩
    · exact .value v rfl
    · exact .exception e rfl

/-- The entry of a suspended coroutine is its own. -/
theorem State.HubInv.entry_inj (h : s.HubInv) (hc : s.mode c = .blocked w k) {c' : Co}
    (hw : s.waiters c' = some w) : c' = c := by
  by_cases h0 : c' = 0
  · subst h0
    have h1 := (h.blocked hc).2.1
    rw [h.mainEntry hw] at h1
    exact Option.some.inj h1
  · obtain ⟨k', hk⟩ := h.entry h0 hw
    exact (h.blocked_inj hk hc).1

/-- The waiter of a getter is in no other place. -/
theorem State.FreshInv.sole_async (h : s.FreshInv) (hw : w ∈ s.links (.async a)) {y : Sync}
    (hy : w ∈ s.waiting y) : y = .async a := by
  cases y with
  | event e => exact (h.todoSole hy hw).symm
  | async a' => exact h.sole (y := .async a') hy hw
  | sem x => exact h.sole (y := .sem x) hy hw
  | put q => exact h.sole (y := .put q) hy hw
  | get q => exact h.sole (y := .get q) hy hw

/-- A round of the notification of `a`: the getter that waits on `w` ends. -/
theorem wake_async (hs : s.Sound) (hcur : s.cur = none) {t : TimeoutId}
    (hc : s.mode c = .blocked w (.asyncGet a t)) : wake s (.async a) w =
      AsyncResult.got ((s.emit (.notified (.async a) w)).resume c w (.bool true) .nil) c w a t
        (.ok (.bool true)) := by
  obtain ⟨-, hco, hx⟩ := hs.hub.blocked hc
  have hsw := Waiter._switch_blocked (s := s.emit (.notified (.async a) w)) (v := .bool true)
    (e := .nil) hcur hc (hs.hub.ne_zero hc) hco hx (by simp [Value.truthy])
  have hsw' : Waiter.switch (s.emit (.notified (.async a) w)) w (.bool true) = _ := hsw
  rw [wake, hsw']
  rfl

/-- What a step throws at a getter. -/
theorem delivers_ends (hs : s.Sound) {e : Exn} (hd : s.Delivers act c e) {t : TimeoutId}
    (hc : s.mode c = .blocked w (.asyncGet a t)) (hstep : step s act = some s') :
    s.Ends c (.error (.exn e)) s' := by
  obtain ⟨s₁, hh, hcur, hm, hst, -, rfl⟩ := hd.throws hs hc hstep
  have hc₁ : s₁.mode c = .blocked w (.asyncGet a t) := by rw [hm]; exact hc
  have hstack : (s₁.resume c w .nil (.exn e)).stack c = s.stack c := by rw [← hst]; rfl
  rw [Hub.throw_blocked hh hcur hc₁]
  exact got_ends (w := w) (a := a) (s₁.resume c w .nil (.exn e)) hstack t (.error (.exn e))

/-- **A suspended `get` ends** with what is set, or what is thrown. -/
theorem getting_ends {l : List (Value × Value)} (hs : s.Sound) (hi : s.AsyncInv a none)
    (ht : s.ThrowInv) (hl : AsyncResult.Holds s a l) (hraw : ¬ act.Raw) (hstep : step s act = some s')
    (hget : s.Getting a c) (hend : ¬ s'.Getting a c) : ∃ o, s.Ends c o s' ∧ s.Gives act c l o := by
  obtain ⟨w, t, hc⟩ := hget
  have hw : w ∈ s.links (.async a) :=
    (hi.linked.linked (by simp)).2 (Or.inl ⟨c, _, hc, rfl⟩)
  by_cases hr : s.rouses act = some w
  · cases act with
    | next w' =>
      obtain rfl : w' = some w := hr
      obtain ⟨y, hmain, hcur, hn⟩ := step_next hstep
      rcases Sync.notify_cases hn with ⟨h0, -⟩ | ⟨v, hv, hmem, -, -, hs'⟩
      · cases h0
      · obtain rfl := Option.some.inj hv
        obtain rfl := hs.fresh.sole_async hw hmem
        have hset := hi.set (Or.inr hmain)
        have hwake := wake_async hs hcur hc
        rw [hs', show s.take (.async a) w = s from rfl, hwake]
        have hends : s.Ends c (s.async a).outcome _ :=
          got_ends (w := w) (a := a) ((s.emit (.notified (.async a) w)).resume c w (.bool true) .nil)
            rfl t (.ok (.bool true))
        exact ⟨_, hends, hl.gives hset s _ c⟩
    | fire x =>
      simp only [State.rouses] at hr
      split at hr
      · rename_i w' u hx
        obtain rfl := Option.some.inj hr
        exact absurd hw (hs.fresh.apart hx)
      · cases hr
    | callback | enter | op | sys => cases hr
  · by_cases hj : s.injects act = some w
    · cases act with
      | fire x =>
        simp only [State.injects] at hj
        split at hj
        · rename_i c' e hx
          obtain rfl := hs.hub.entry_inj hc hj
          obtain ⟨t', rfl, rfl⟩ := ht.watcher hx
          exact ⟨_, delivers_ends hs (Or.inl ⟨_, rfl, hx⟩) hc hstep, .timeout t' rfl hx⟩
        · cases hj
      | callback =>
        simp only [State.injects] at hj
        split at hj
        · rename_i c' e f cbs hq
          obtain rfl := hs.hub.entry_inj hc hj
          obtain rfl := ht.callback (by rw [hq]; exact List.mem_cons_self)
          exact ⟨_, delivers_ends hs (Or.inr ⟨f, cbs, rfl, hq⟩) hc hstep, .kill f cbs rfl hq⟩
        · split at hj
          · rename_i w' u hx
            obtain rfl := Option.some.inj hj
            exact absurd hw (hs.fresh.apart hx)
          · cases hj
        · cases hj
      | next | enter | op | sys => cases hj
    · exact absurd ⟨w, t, step_blocked_stays hs hraw hr hj hc hstep⟩ hend

theorem Timeout.startNew_stack (s : State) (c : Co) (sec : Option ℤ) :
    (Timeout.startNew s c sec).2.stack = s.stack := by
  simp only [Timeout.startNew, Timeout.start, Watcher.start]
  split
  · rename_i h
    split at h
    · split at h
      · cases h; rfl
      · cases h
    · cases h; rfl
  · rfl

/-- A `get` of a result that is not set suspends its coroutine, unless that is the
    main one. -/
theorem AsyncResult.get_waits (hs : s.Sound) (hturn : s.Turn c) {sec : Option ℤ}
    (hx : (s.async a).exception = .bool false) :
    (AsyncResult.get s c a sec).Getting a c ∨
      c = 0 ∧ s.Ends c (.error (traceback s.mainError)) (AsyncResult.get s c a sec) := by
  have hstack := Timeout.startNew_stack s c sec
  have henv := Timeout.startNew_env (s := s) c sec
  rw [AsyncResult.get, if_pos hx]
  generalize Timeout.startNew s c sec = r at hstack henv ⊢
  obtain ⟨t, s₀⟩ := r
  obtain ⟨hn, -, hws⟩ := s₀.newLink_new (.async a)
  obtain ⟨E, A, M, Q, he⟩ := s₀.newLink_frame (.async a)
  have hwaiters : (s₀.newLink (.async a)).waiters = s.waiters := by
    rw [hws, show s₀ = s.withEnv s₀.env from henv.eq]
    rfl
  show State.Getting (Waiter.get (s₀.newLink (.async a)) c s₀.nextWaiter (.asyncGet a t)) a c ∨
    c = 0 ∧ s.Ends c (.error (traceback s.mainError))
      (Waiter.get (s₀.newLink (.async a)) c s₀.nextWaiter (.asyncGet a t))
  by_cases hc : c = 0
  · subst hc
    have hv : (s₀.newLink (.async a)).mainError = s.mainError := by
      rw [State.mainError, State.mainError, hwaiters]
    rw [Waiter.get_main (.asyncGet a t) hn.2, hv]
    have hst : ((s₀.newLink (.async a)).mainGet s₀.nextWaiter s.mainError).stack 0 = s.stack 0 := by
      rw [he, ← hstack]
      rfl
    exact Or.inr ⟨rfl, got_ends (w := s₀.nextWaiter) (a := a)
      ((s₀.newLink (.async a)).mainGet s₀.nextWaiter s.mainError) hst t (.error s.mainError)⟩
  · have hentry : (s₀.newLink (.async a)).waiters c = none := by
      rw [hwaiters]
      exact hs.no_entry hturn hc
    rw [Waiter.get_task (.asyncGet a t) hn.2 hc hentry]
    exact Or.inl ⟨s₀.nextWaiter, t, by simp [State.block]⟩

/-- A `get` that the step calls ends. -/
theorem called_ends {l : List (Value × Value)} (hs : s.Sound) (hl : AsyncResult.Holds s a l)
    {sec : Option ℤ} (hc : s.userTurn = some c) (hstep : step s (.op (.asyncGet a sec)) = some s')
    (hend : ¬ s'.Getting a c) : ∃ o, s.Ends c o s' ∧ s.Gives (.op (.asyncGet a sec)) c l o := by
  simp only [step, hc, Op.exec] at hstep
  cases hstep
  by_cases hx : (s.async a).exception = .bool false
  · rcases AsyncResult.get_waits hs (hs.user_turn hc) hx with hw | ⟨h0, hv⟩
    · exact absurd hw hend
    · refine ⟨_, hv, .main h0 ?_⟩
      rcases hl with ⟨hnil, -⟩ | ⟨v', x', -, -, hx', hkind⟩
      · exact hnil
      · rw [hx'] at hx
        subst hx
        rcases hkind with h | ⟨-, e, h⟩ <;> cases h
  · rw [AsyncResult.get, if_neg hx]
    exact ⟨_, ⟨s, rfl, rfl⟩, hl.gives hx s _ c⟩

/-! ## Runs -/

/-- Micro steps whose results are set. -/
def Rules.setting : Rules := { Rules.free with set := fun _ _ x => x ≠ .bool false }

theorem StepOk.setting (hraw : ¬ act.Raw) : StepOk Rules.setting s act where
  notified _ _ _ _ _ := trivial
  watched _ _ _ _ _ := trivial
  injected _ _ := trivial
  kill _ _ _ _ _ _ _ _ := trivial
  begin _ _ _ _ := trivial
  ready := Or.inl trivial
  set _ _ _ _ _ hs := Op.sets_ne hs
  raw o ho hr := by subst ho; exact absurd hr hraw

/-- The states of the runs. -/
structure State.AsyncSound (s : State) (a : AsyncId) : Prop where
  sound : s.Sound
  async : s.AsyncInv a none
  throw : s.ThrowInv

theorem State.AsyncSound.next (h : s.AsyncSound a) (hraw : ¬ act.Raw) (hstep : step s act = some s') :
    s'.AsyncSound a := by
  have hm := step_micros h.sound hstep (StepOk.setting hraw)
  obtain ⟨h1, h2, h3⟩ := hm.inv (I := fun p t => t.Sound ∧ t.AsyncInv a p ∧ t.ThrowInv)
    (fun hmic ht => ⟨ht.1.micro hmic, ht.2.1.micro hmic (fun _ _ _ => id) ht.1, ht.2.2.micro hmic⟩)
    ⟨h.sound, h.async, h.throw⟩
  exact ⟨h1, h2, h3⟩

/-- A notification leaves no getter behind. -/
theorem notify_empties (h : s.AsyncSound a) (hraw : ¬ act.Raw) (hstep : step s act = some s')
    (hmain : s.main = .notify (.async a)) (hend : s'.main ≠ .notify (.async a)) :
    (s'.async a).links = ∅ := by
  have hm := step_micros h.sound hstep (StepOk.setting hraw)
  have hset := h.async.set (Or.inr hmain)
  refine ((hm.inv (I := fun p t => t.Sound ∧ t.AsyncInv a p ∧ (t.async a).exception ≠ .bool false ∧
    (t.main = .notify (.async a) ∨ (t.async a).links = ∅)) ?_
    ⟨h.sound, h.async, hset, Or.inl hmain⟩).2.2.2).resolve_left hend
  rintro p t p' t' hmic ⟨ht, hi, hx, hl⟩
  refine ⟨ht.micro hmic, hi.micro hmic (fun _ _ _ => id) ht, ?_⟩
  cases hmic.async_step (hi.live ht.hub) with
  | kept hk =>
    rw [hk.exception]
    refine ⟨hx, hl.imp hk.main.2 fun hl => ?_⟩
    have hsub := hk.links.resolve_right hx
    rw [hl] at hsub
    exact Finset.subset_empty.1 hsub
  | set _ _ _ hfalse => exact absurd hfalse hx
  | begun _ hmain ha => rw [ha]; exact ⟨hx, Or.inl hmain⟩
  | ended _ hlinks ha => rw [ha]; exact ⟨hx, Or.inr hlinks⟩

/-- A round of the notification: the getter it wakes leaves. -/
theorem notify_round (h : s.AsyncSound a) (hmain : s.main = .notify (.async a))
    (hstep : step s (.next (some w)) = some s') :
    w ∈ (s.async a).links ∧ (s'.async a).links = (s.async a).links.erase w := by
  obtain ⟨y, hmain', hcur, hn⟩ := step_next hstep
  obtain rfl : .async a = y := Main.notify.inj (hmain.symm.trans hmain')
  have hround : AsyncResult._notify s a (some w) = some s' := hn
  rcases nextOf_cases hround with ⟨h0, -⟩ | ⟨v, hv, hw, rfl⟩
  · cases h0
  · obtain rfl := Option.some.inj hv
    refine ⟨hw, ?_⟩
    rcases (h.async.linked.linked (y := .async a) (by simp)).1 hw with ⟨c, k, hc, hk⟩ | hp
    · cases k with
      | asyncGet a' t =>
        cases hk
        have hl := ((s.emit (.notified (.async a) w)).resume c w (.bool true) .nil).unlink_links
          (.async a) w (.async a)
        rw [if_pos rfl] at hl
        rw [wake_async h.sound hcur hc, AsyncResult.got, finish_async, (Timeout.cancel_env t).eq]
        exact hl
      | get | eventWait | semWait | queuePut | queueGet | hubWait => cases hk
    · cases hp

/-- **What an `AsyncResult` promises.**  `sets` are the results that have been
    set so far. -/
structure AsyncResult.Sound (s : State) (a : AsyncId) (sets : List (Value × Value)) : Prop where
  result : AsyncResult.Holds s a sets
  again : ∀ o c s', (s.async a).exception ≠ .bool false →
    ((∃ v, o = .asyncSet a v) ∨ ∃ x, o = .asyncSetException a x) → s.userTurn = some c →
    step s (.op o) = some s' → (∃ v, s.Ends c (.error v) s') ∧ s'.async a = s.async a
  gets : ∀ act c s', ¬ act.Raw → step s act = some s' → s.GetEnds a act c s' →
    ∃ o, s.Ends c o s' ∧ s.Gives act c sets o
  getters : ∀ w, w ∈ (s.async a).links ↔ ∃ c t, s.mode c = .blocked w (.asyncGet a t)
  queued : s.Between → (s.async a).exception ≠ .bool false → (s.async a).links.Nonempty →
    .notify (.async a) ∈ s.callbacks
  round : ∀ w s', s.main = .notify (.async a) → step s (.next (some w)) = some s' →
    w ∈ (s.async a).links ∧ (s'.async a).links = (s.async a).links.erase w
  emptied : ∀ act s', ¬ act.Raw → step s act = some s' → s.main = .notify (.async a) →
    s'.main ≠ .notify (.async a) → (s'.async a).links = ∅

theorem State.AsyncSound.promises {l : List (Value × Value)} (h : s.AsyncSound a)
    (hl : AsyncResult.Holds s a l) : AsyncResult.Sound s a l where
  result := hl
  again := by
    intro o c s' hx ho hc hstep
    simp only [step, hc] at hstep
    exact AsyncResult.set_again hx ho hstep
  gets := by
    rintro act c s' hraw hstep ⟨hget | ⟨sec, rfl, hc⟩, hend⟩
    · exact getting_ends h.sound h.async h.throw hl hraw hstep hget hend
    · exact called_ends h.sound hl hc hstep hend
  getters := by
    intro w
    have hlink := h.async.linked.linked (y := .async a) (w := w) (by simp)
    refine hlink.trans ?_
    constructor
    · rintro (⟨c, k, hc, hk⟩ | hp)
      cases k with
      | asyncGet a' t => cases hk; exact ⟨c, t, hc⟩
      | get | eventWait | semWait | queuePut | queueGet | hubWait => cases hk
      · cases hp
    · rintro ⟨c, t, hc⟩
      exact Or.inl ⟨c, _, hc, rfl⟩
  queued := by
    intro hb hx hne
    refine (h.async.asleep hx hne).resolve_right ?_
    rw [hb.1]
    simp
  round := fun _ _ hmain hstep => notify_round h hmain hstep
  emptied := fun _ _ hraw hstep hmain hend => notify_empties h hraw hstep hmain hend

/-- **An `AsyncResult` in all runs of the library.** -/
theorem asyncResult_sound (hrun : run step (State.init value maxsizes) as = some t)
    (hA : ∀ act ∈ as, ¬ act.Raw) (a : AsyncId) :
    AsyncResult.Sound t a (collect step (AsyncResult.sets a) (State.init value maxsizes) as) := by
  have h0 := State.init_initial value maxsizes
  have hasync : ((State.init value maxsizes).async a).exception = .bool false := by
    obtain ⟨E, C, L, Q, n, hs⟩ := h0.frame
    rw [hs]
    rfl
  obtain ⟨h, hl⟩ := Lib.run_collect_inv (f := AsyncResult.sets a) (C := Plain) (l := [])
    (I := fun l s => s.AsyncSound a ∧ AsyncResult.Holds s a l)
    (fun l s act s' h hraw hstep => ⟨h.1.next hraw hstep,
      h.2.next h.1.sound h.1.async hraw hstep⟩)
    ⟨⟨h0.sound, h0.async a, h0.throw⟩, Or.inl ⟨rfl, hasync⟩⟩ (.of_forall fun _ => hA) hrun
  exact h.promises hl

/-- Two tasks get a result, one with a timeout, before it is set; a third gets it
    afterwards. -/
def getsAround : List Act :=
  [.enter, .op (.spawn []), .op (.spawn []), .op (.returns []),
    .callback, .op (.asyncGet 0 none), .callback, .op (.asyncGet 0 (some 1)),
    .enter, .op (.asyncSet 0 (.str "done")), .op (.spawn []), .op (.returns []),
    .callback, .next (some 1), .op (.returns []), .next (some 0), .op (.returns []), .next none,
    .callback, .op (.asyncGet 0 none)]

theorem asyncResult_sound_getsAround :
    ∃ t, run step (State.init (fun _ => 0) []) getsAround = some t ∧ t.callbacks = [] ∧
      (∀ c ∈ [1, 2, 3], .ret c [.str "done"] ∈ t.log) ∧
      AsyncResult.Sound t 0 [(.str "done", .nil)] := by
  have h : run step (State.init (fun _ => 0) []) getsAround = some _ := rfl
  exact ⟨_, h, by decide, by decide,
    asyncResult_sound h (by simp [getsAround, Act.Raw, Op.Raw]) 0⟩

/-- The main coroutine gets a result that is not set, in a protected call. -/
def getsInMain : List Act := [.enter, .op .pcall]

/-- The `get` raises what `coroutine.yield` does, and no exception. -/
theorem asyncResult_not_sound :
    ∃ t t', run step (State.init (fun _ => 0) []) getsInMain = some t ∧
      step t (.op (.asyncGet 0 none)) = some t' ∧ t.GetEnds 0 (.op (.asyncGet 0 none)) 0 t' ∧
      collect step (AsyncResult.sets 0) (State.init (fun _ => 0) []) getsInMain = [] ∧
      .ret 0 [.bool false, .str "attempt to yield from outside a coroutine"] ∈ t'.log ∧
      ¬ ∃ o, t.Ends 0 o t' ∧ ((∃ v, o = .ok [v]) ∨ ∃ e, o = .error (.exn e)) := by
  have h : run step (State.init (fun _ => 0) []) getsInMain = some _ := rfl
  refine ⟨_, _, h, rfl, ⟨Or.inr ⟨none, rfl, rfl⟩, ?_⟩, rfl, by decide, ?_⟩
  · rintro ⟨w, t, hw⟩
    cases hw
  · rintro ⟨o, ⟨s₁, hst, he⟩, ho⟩
    have hst₁ : s₁.stack 0 = [.pcall] := hst
    have hlast := congrArg (fun s => s.log.getLast?) he
    rcases ho with ⟨v, rfl⟩ | ⟨e, rfl⟩
    · rw [show (finish s₁ 0 (.ok [v])).log = s₁.log ++ [.ret 0 [v]] from rfl,
        List.getLast?_concat] at hlast
      cases hlast
    · rw [show finish s₁ 0 (.error (.exn e)) = raise s₁ 0 (.exn e) from rfl, raise, hst₁] at hlast
      simp only [unwind, List.foldl_nil, State.emit, List.getLast?_concat] at hlast
      cases hlast

end Levent
