/-
  Every function of the model is a sequence of micro steps.
-/
import Levent.Runtime.Links

namespace Levent

variable {R : Rules} {p p' : Pend} {s s' : State} {c : Co}

/-! ## Timers, sockets and protected calls -/

theorem State.EnvStep.refl : s.EnvStep none s := ⟨rfl, fun h => Or.inl ⟨_, _, h⟩, Or.inl⟩

theorem State.EnvStep.trans {new : Option WaiterId} {t : State} (h1 : s.EnvStep new s')
    (h2 : s'.EnvStep none t) : s.EnvStep new t where
  eq := by rw [h2.eq, h1.eq]; rfl
  wake hc := by
    rcases h2.wake hc with ⟨x, u, hx⟩ | hx
    · exact h1.wake hx
    · cases hx
  throw hc := (h2.throw hc).elim h1.throw Or.inr

/-- A watcher gets another function. -/
theorem State.setWatcher_env (x : WatcherId) (o : Watcher) {new : Option WaiterId}
    (ho : ∀ w u, o.cb = some (.wake w u) → (s.watcher x).cb = some (.wake w u) ∨ new = some w)
    (ho' : ∀ c e, o.cb = some (.throw c e) →
      (s.watcher x).cb = some (.throw c e) ∨ ∃ t, x = .timeout t ∧ e = .timeout t) :
    s.EnvStep new (s.setWatcher x o) where
  eq := rfl
  wake {x' w u} hc := by
    by_cases hx : x' = x
    · subst hx
      simp only [State.setWatcher, Function.update_self] at hc
      exact (ho w u hc).imp_left fun h => ⟨x', u, h⟩
    · simp only [State.setWatcher, Function.update_of_ne hx] at hc
      exact Or.inl ⟨x', u, hc⟩
  throw {x' c e} hc := by
    by_cases hx : x' = x
    · subst hx
      simp only [State.setWatcher, Function.update_self] at hc
      exact ho' c e hc
    · simp only [State.setWatcher, Function.update_of_ne hx] at hc
      exact Or.inl hc

theorem State.setStack_env (st : List Frame) : s.EnvStep none (s.setStack c st) :=
  ⟨rfl, fun h => Or.inl ⟨_, _, h⟩, Or.inl⟩

theorem State.setSock_env (i : SockId) (o : Sock) : s.EnvStep none (s.setSock i o) :=
  ⟨rfl, fun h => Or.inl ⟨_, _, h⟩, Or.inl⟩

theorem Watcher.stop_env (x : WatcherId) : s.EnvStep none (Watcher.stop s x) :=
  State.setWatcher_env x _ (by simp) (by simp)

theorem Timeout.cancel_env (t : TimeoutId) : s.EnvStep none (Timeout.cancel s t) := by
  unfold Timeout.cancel
  split
  · exact Watcher.stop_env _
  · exact .refl

theorem Timeout.cancel_all_env (ts : List TimeoutId) :
    s.EnvStep none (ts.foldl Timeout.cancel s) := by
  induction ts generalizing s with
  | nil => exact .refl
  | cons t ts ih => exact (Timeout.cancel_env t).trans ih

theorem Timeout.start_env {t : TimeoutId} (h : Timeout.start s c t = .ok s') :
    s.EnvStep none s' := by
  unfold Timeout.start Watcher.start at h
  split at h
  · split at h
    · cases h; exact State.setWatcher_env _ _ (by simp) (by rintro _ _ ⟨⟩; exact Or.inr ⟨_, rfl, rfl⟩)
    · cases h
  · cases h; exact .refl

theorem Timeout.startNew_env (c : Co) (sec : Option ℤ) :
    s.EnvStep none (Timeout.startNew s c sec).2 := by
  have h0 : s.EnvStep none (Timeout.new s sec).2 := ⟨rfl, fun h => Or.inl ⟨_, _, h⟩, Or.inl⟩
  simp only [Timeout.startNew]
  split
  · rename_i h; exact h0.trans (Timeout.start_env h)
  · exact h0

theorem Micros.env (h : s.EnvStep none s') : Micros R p s p s' := (Micro.env p s s' h).one

theorem State.Turn.env {new : Option WaiterId} (ht : s.Turn c) (h : s.EnvStep new s') :
    s'.Turn c := by
  rw [h.eq]; exact ht

theorem State.Turn.set_running (ht : s.Turn c) : s.setMode c .running = s := by
  have : Function.update s.mode c .running = s.mode := by rw [← ht.1]; simp
  simp [State.setMode, this]

/-! ## The ends of a call -/

theorem fail_micros (ht : s.Turn c) (v : Value) : Micros R none s none (fail s c v) := by
  have h1 : s.EnvStep none (s.setStack c []) := State.setStack_env []
  unfold fail
  split
  · rename_i hc
    subst hc
    exact (Micros.env h1).trans (Micro.mainDone _ (ht.env h1)).one
  · rename_i hc
    exact (Micros.env h1).trans (Micro.failed (s.setStack c []) c (traceback v) (ht.env h1) hc).one

theorem raise_micros (ht : s.Turn c) (v : Value) : Micros R none s none (raise s c v) := by
  have h1 : s.EnvStep none ((unwind v (s.stack c)).1.foldl Timeout.cancel s) :=
    Timeout.cancel_all_env _
  have ht1 := ht.env h1
  unfold raise; dsimp only
  refine (Micros.env h1).trans ?_
  split
  · exact fail_micros ht1 _
  · rename_i st vs _
    rw [ht1.set_running]
    exact (Micros.env (State.setStack_env st)).trans (Micro.emit _ _ (by trivial)).one

theorem finish_micros (ht : s.Turn c) (r : Outcome) : Micros R none s none (finish s c r) := by
  cases r with
  | ok vs =>
    simp only [finish, ht.set_running]
    exact (Micro.emit _ _ (by trivial)).one
  | error v => exact raise_micros ht v

theorem returns_micros (ht : s.Turn c) (vs : List Value) :
    Micros R none s none (returns s c vs) := by
  unfold returns
  split
  · rename_i st _
    exact (Micros.env (State.setStack_env st)).trans (Micro.emit _ _ (by trivial)).one
  · rename_i t st _
    exact (Micros.env ((Timeout.cancel_env t).trans (State.setStack_env st))).trans
      (Micro.emit _ _ (by trivial)).one
  · split
    · rename_i hc
      subst hc
      exact (Micro.mainDone s ht).one
    · rename_i hc
      exact (Micro.returned s c ht hc).one

/-! ## After `waiter.get` -/

/-- The waiter of a call leaves `links`, and the timer of the call is stopped. -/
theorem unlink_cancel_micros {y : Sync} (hy : ∀ x, y ≠ .sem x) (w : WaiterId) (t : TimeoutId) :
    Micros R (some (y, w)) s none (Timeout.cancel (s.unlink y w) t) :=
  (Micro.unlink s y w hy).one.trans (Micros.env (Timeout.cancel_env t))

theorem unlink_cancel_turn (ht : s.Turn c) (y : Sync) (w : WaiterId) (t : TimeoutId) :
    (Timeout.cancel (s.unlink y w) t).Turn c := by
  refine State.Turn.env ?_ (Timeout.cancel_env t)
  obtain ⟨E, A, M, Q, he⟩ := s.setLinks_frame ((s.links y).erase w) y
  rw [State.unlink, he]; exact ht

/-- What a call that is woken relies on. -/
def Call.Ready (s : State) : Call → Prop
  | .queuePut q _ _ => (s.queue q).hasRoom
  | .queueGet q _ => 0 < (s.queue q).length
  | _ => True

theorem Call.Ready.congr {k : Call} (h : k.Ready s) (hq : s'.queue = s.queue) : k.Ready s' := by
  cases k with
  | queuePut q item t => simpa only [Call.Ready, hq] using h
  | queueGet q t => simpa only [Call.Ready, hq] using h
  | _ => trivial

theorem State.setLinks_room (L : Finset WaiterId) (y : Sync) (q : QueueId) :
    ((s.setLinks L y).queue q).hasRoom = (s.queue q).hasRoom ∧
      ((s.setLinks L y).queue q).length = (s.queue q).length := by
  cases y with
  | put q' =>
    exact ⟨update_keep (f := s.queue) (b := { s.queue q' with putters := L }) Queue.hasRoom rfl q,
      update_keep (f := s.queue) (b := { s.queue q' with putters := L }) Queue.length rfl q⟩
  | get q' =>
    exact ⟨update_keep (f := s.queue) (b := { s.queue q' with getters := L }) Queue.hasRoom rfl q,
      update_keep (f := s.queue) (b := { s.queue q' with getters := L }) Queue.length rfl q⟩
  | event | async | sem => exact ⟨rfl, rfl⟩

theorem Call.Ready.unlink_cancel {k : Call} (h : k.Ready s) (y : Sync) (w : WaiterId)
    (t : TimeoutId) : k.Ready (Timeout.cancel (s.unlink y w) t) := by
  have hq : ∀ q, ((Timeout.cancel (s.unlink y w) t).queue q).hasRoom = (s.queue q).hasRoom ∧
      ((Timeout.cancel (s.unlink y w) t).queue q).length = (s.queue q).length := fun q => by
    rw [(Timeout.cancel_env (s := s.unlink y w) t).eq]
    exact State.setLinks_room _ y q
  cases k with
  | queuePut q item t' => exact (hq q).1.trans h
  | queueGet q t' => exact h.trans_eq (hq q).2.symm
  | _ => trivial

theorem Event.waited_micros (ht : s.Turn c) (w : WaiterId) (e : EventId) (t : TimeoutId)
    (r : Except Value Value) :
    Micros R (some (.event e, w)) s none (Event.waited s c w e t r) := by
  refine (unlink_cancel_micros (y := .event e) (by simp) w t).trans ?_
  unfold Event.waited; dsimp only
  split <;> exact finish_micros (unlink_cancel_turn ht _ w t) _

theorem AsyncResult.got_micros (ht : s.Turn c) (w : WaiterId) (a : AsyncId) (t : TimeoutId)
    (r : Except Value Value) :
    Micros R (some (.async a, w)) s none (AsyncResult.got s c w a t r) := by
  refine (unlink_cancel_micros (y := .async a) (by simp) w t).trans ?_
  unfold AsyncResult.got; dsimp only
  split <;> exact finish_micros (unlink_cancel_turn ht _ w t) _

/-- `Semaphore:acquire` and `Semaphore:wait` end with true. -/
theorem Semaphore.acquired_micros (ht : s.Turn c) {x : SemId} (hx : 0 < (s.sem x).counter)
    (acquire : Bool) : Micros R none s none
      (if acquire then
        finish ((s.setSem x { s.sem x with counter := (s.sem x).counter - 1 }).emit (.acquired x)) c
          (.ok [.bool true])
      else finish s c (.ok [.bool true])) := by
  split
  · refine (Micro.semAcquire s x hx).one.trans (finish_micros ?_ _)
    exact ht
  · exact finish_micros ht _

theorem Semaphore.waited_micros (ht : s.Turn c) (w : WaiterId) (x : SemId) (t : TimeoutId)
    (acquire : Bool) (r : Except Value Value) :
    Micros R (some (.sem x, w)) s none (Semaphore.waited s c w x t acquire r) := by
  have ht1 := unlink_cancel_turn ht (.sem x) w t
  have hm : ∀ o : Obs, o.Waited x → Micros R (some (.sem x, w)) s none
      ((Timeout.cancel (s.unlink (.sem x) w) t).emit o) := fun o ho =>
    (Micro.semWaited s x w o _ ho (Timeout.cancel_env t)).one
  unfold Semaphore.waited; dsimp only
  split
  · rename_i v
    refine (hm (.semFalse x v t) rfl).trans (finish_micros ?_ _)
    exact ht1
  · split
    · rename_i hx
      refine (hm (.semTrue x _ (some t)) rfl).trans (Semaphore.acquired_micros ?_ ?_ acquire)
      · exact ht1
      · exact hx
    · refine (hm (.semRaised x t) rfl).trans (finish_micros ?_ _)
      exact ht1

theorem Queue.putItem_micros (ht : s.Turn c) {q : QueueId} (hr : R.raw ∨ (s.queue q).hasRoom)
    (item : Value) : Micros R none s none (Queue.putItem s c q item) := by
  refine (Micro.put s q item hr).one.trans (finish_micros ?_ _)
  obtain ⟨Q, E, C, L, he, -⟩ := Queue._put_frame s q item
  rw [he]; exact ht

theorem Queue.getItem_micros (ht : s.Turn c) {q : QueueId} (hr : R.raw ∨ 0 < (s.queue q).length) :
    Micros R none s none (Queue.getItem s c q) := by
  unfold Queue.getItem
  split
  · rename_i item s' hs
    refine (Micro.get s q item s' hs).one.trans (finish_micros ?_ _)
    obtain ⟨Q, C, L, rfl, -⟩ := Queue._get_frame s hs
    exact ht
  · rename_i v hs
    have hl : ¬ 0 < (s.queue q).length := by
      intro hl
      simp [Queue._get, hl] at hs
    exact (Micro.assertGet s q (hr.resolve_right hl)).one.trans (finish_micros (by exact ht) _)

theorem Queue.putWaited_micros (ht : s.Turn c) (w : WaiterId) (q : QueueId) (item : Value)
    (t : TimeoutId) (r : Except Value Value)
    (hr : R.raw ∨ ∀ v, r = .ok v → (s.queue q).hasRoom) :
    Micros R (some (.put q, w)) s none (Queue.putWaited s c w q item t r) := by
  have ht1 := unlink_cancel_turn ht (.put q) w t
  refine (unlink_cancel_micros (y := .put q) (by simp) w t).trans ?_
  unfold Queue.putWaited; dsimp only
  split
  · exact finish_micros ht1 _
  · rename_i v
    exact Queue.putItem_micros ht1
      (hr.imp_right fun h => Call.Ready.unlink_cancel (k := .queuePut q item t) (h v rfl) _ w t) item

theorem Queue.getWaited_micros (ht : s.Turn c) (w : WaiterId) (q : QueueId) (t : TimeoutId)
    (r : Except Value Value) (hr : R.raw ∨ ∀ v, r = .ok v → 0 < (s.queue q).length) :
    Micros R (some (.get q, w)) s none (Queue.getWaited s c w q t r) := by
  have ht1 := unlink_cancel_turn ht (.get q) w t
  refine (unlink_cancel_micros (y := .get q) (by simp) w t).trans ?_
  unfold Queue.getWaited; dsimp only
  split
  · exact finish_micros ht1 _
  · rename_i v
    exact Queue.getItem_micros ht1
      (hr.imp_right fun h => Call.Ready.unlink_cancel (k := .queueGet q t) (h v rfl) _ w t)

theorem Socket.call_micros (ht : s.Turn c) (i : SockId) (f : SockCall) :
    Micros R none s none (Socket.call s c i f) := by
  unfold Socket.call
  split
  · split <;> exact finish_micros ht _
  · exact (Micro.goOn s c _ ht (by trivial)).one

theorem Socket.again_micros (ht : s.Turn c) (i : SockId) (f : SockCall) :
    Micros R none s none (Socket.again s c i f) := by
  unfold Socket.again
  split
  · exact Socket.call_micros ht i _
  · exact Socket.call_micros ht i _
  · exact (Micro.goOn s c _ ht (by trivial)).one

theorem Hub.waitDone_micros (ht : s.Turn c) (k : HubCaller) (r : Except Value Unit) :
    Micros R none s none (Hub.waitDone s c k r) := by
  cases k with
  | sleep => exact finish_micros ht _
  | sock i f t =>
    cases t with
    | none =>
      cases r with
      | ok => exact Socket.again_micros ht i f
      | error v => exact finish_micros ht (.ok (f.failed (traceback v)))
    | some t =>
      have h1 : s.EnvStep none (Timeout.cancel s t) := Timeout.cancel_env t
      refine (Micros.env h1).trans ?_
      cases r with
      | ok => exact Socket.again_micros (ht.env h1) i f
      | error v => exact finish_micros (ht.env h1) (.ok (f.failed (traceback v)))

theorem Hub.waited_micros (ht : s.Turn c) (x : WatcherId) (u : ℕ) (k : HubCaller)
    (r : Except Value Value) : Micros R none s none (Hub.waited s c x u k r) :=
  (Micros.env (Watcher.stop_env x)).trans
    (Hub.waitDone_micros (ht.env (Watcher.stop_env x)) k _)

/-- What a call does after its `waiter.get`, for every call. -/
theorem afterGet_micros {k : Call} {w : WaiterId} {r : Except Value Value} (ht : s.Turn c)
    (hr : R.raw ∨ ∀ v, r = .ok v → k.Ready s) :
    Micros R (k.pend w) s none (afterGet s c w k r) := by
  cases k with
  | get => exact finish_micros ht _
  | eventWait e t => exact Event.waited_micros ht w e t r
  | asyncGet a t => exact AsyncResult.got_micros ht w a t r
  | semWait x t acquire => exact Semaphore.waited_micros ht w x t acquire r
  | queuePut q item t => exact Queue.putWaited_micros ht w q item t r hr
  | queueGet q t => exact Queue.getWaited_micros ht w q t r hr
  | hubWait x u k => exact Hub.waited_micros ht x u k r

end Levent
