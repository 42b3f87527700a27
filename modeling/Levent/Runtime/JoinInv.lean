/-
  The flag of a queue's `cond`, which `Queue:join` waits for, and the length of
  the queue: what the functions of the model do to them.

  Only `Queue:_put` clears the flag and only `Queue:_get_unlock` sets it, so that
  the last item may be taken while `_get_unlock` is queued or runs, but not by a
  `get` that finds the item there otherwise.
-/
import Levent.Runtime.SockInv

namespace Levent

variable {s s' s₁ : State} {p : Pend} {q : QueueId} {c : Co} {a : Act}

/-! ## The flag and the length -/

/-- A queue whose flag is set is empty, and its joiners are in `todo`; the flag of
    an empty queue is set, or will be by `_get_unlock`. -/
structure State.JoinInv (p : Pend) (s : State) (q : QueueId) : Prop where
  empty : (s.event (.cond q)).flag = true → (s.queue q).length = 0
  drained : (s.queue q).length = 0 →
    (s.event (.cond q)).flag = true ∨ (s.queue q).isInGetUnlock = true
  joined : (s.event (.cond q)).flag = true → ∀ w ∈ (s.event (.cond q)).links,
    w ∈ (s.event (.cond q)).todo ∨ p = some (.event (.cond q), w)

/-- The flag, the length and the mark of `_get_unlock` are the same, and there are
    no new joiners. -/
structure State.Calm (s : State) (q : QueueId) (s' : State) : Prop where
  flag : (s'.event (.cond q)).flag = (s.event (.cond q)).flag
  length : (s'.queue q).length = (s.queue q).length
  unlock : (s'.queue q).isInGetUnlock = (s.queue q).isInGetUnlock
  links : (s'.event (.cond q)).links ⊆ (s.event (.cond q)).links
  todo : (s.event (.cond q)).todo ⊆ (s'.event (.cond q)).todo

theorem State.Calm.of_eq (he : s'.event (.cond q) = s.event (.cond q)) (hq : s'.queue q = s.queue q) :
    s.Calm q s' := by
  refine ⟨by rw [he], by rw [hq], by rw [hq], ?_, ?_⟩
  · rw [he]
  · rw [he]

theorem State.Calm.refl : s.Calm q s := .of_eq rfl rfl

theorem State.Calm.trans (h : s.Calm q s') (h' : s'.Calm q s₁) : s.Calm q s₁ where
  flag := h'.flag.trans h.flag
  length := h'.length.trans h.length
  unlock := h'.unlock.trans h.unlock
  links := h'.links.trans h.links
  todo := h.todo.trans h'.todo

theorem State.JoinInv.calm (h : s.JoinInv p q) (hc : s.Calm q s') : s'.JoinInv p q where
  empty hf := by
    rw [hc.length]
    exact h.empty (hc.flag ▸ hf)
  drained hl := by
    rw [hc.flag, hc.unlock]
    exact h.drained (hc.length ▸ hl)
  joined hf w hw := (h.joined (hc.flag ▸ hf) w (hc.links hw)).imp_left fun ht => hc.todo ht

theorem State.EnvStep.calm {new : Option WaiterId} (h : s.EnvStep new s') : s.Calm q s' := by
  rw [h.eq]
  exact .of_eq rfl rfl

theorem State.emit_calm (o : Obs) : s.Calm q (s.emit o) := .of_eq rfl rfl

theorem State.setEvent_calm {e : EventId} {o : Event} (ho : e = .cond q →
    o.flag = (s.event e).flag ∧ o.links ⊆ (s.event e).links ∧ (s.event e).todo ⊆ o.todo) :
    s.Calm q (s.setEvent e o) := by
  by_cases he : e = .cond q
  · subst he
    obtain ⟨h1, h2, h3⟩ := ho rfl
    refine ⟨?_, rfl, rfl, ?_, ?_⟩
    · simpa [State.setEvent] using h1
    · simpa [State.setEvent] using h2
    · simpa [State.setEvent] using h3
  · exact .of_eq (Function.update_of_ne (Ne.symm he) _ _) rfl

theorem State.setQueue_calm {q' : QueueId} {o : Queue}
    (ho : q' = q → o.length = (s.queue q').length ∧ o.isInGetUnlock = (s.queue q').isInGetUnlock) :
    s.Calm q (s.setQueue q' o) := by
  by_cases hq : q' = q
  · subst hq
    obtain ⟨h1, h2⟩ := ho rfl
    refine ⟨rfl, ?_, ?_, subset_rfl, subset_rfl⟩
    · simpa [State.setQueue] using h1
    · simpa [State.setQueue] using h2
  · exact .of_eq rfl (Function.update_of_ne (Ne.symm hq) _ _)

theorem State.setLinks_calm {L : Finset WaiterId} {y : Sync}
    (hL : y = .event (.cond q) → L ⊆ (s.event (.cond q)).links) : s.Calm q (s.setLinks L y) := by
  cases y with
  | event e =>
    refine State.setEvent_calm ?_
    rintro rfl
    exact ⟨rfl, hL rfl, subset_rfl⟩
  | async | sem => exact .of_eq rfl rfl
  | put q' | get q' => exact State.setQueue_calm fun _ => ⟨rfl, rfl⟩

theorem State.newLink_calm {y : Sync} (hy : y ≠ .event (.cond q)) : s.Calm q (s.newLink y) := by
  have hw : s.Calm q (Hub.waiter s).2 := .of_eq rfl rfl
  exact hw.trans (State.setLinks_calm fun h => absurd h hy)

theorem State.unlink_calm (y : Sync) (w : WaiterId) : s.Calm q (s.unlink y w) := by
  refine State.setLinks_calm ?_
  rintro rfl
  exact Finset.erase_subset _ _

/-- A joiner is registered only where the flag is not set. -/
theorem State.JoinInv.of_unset (h : s.JoinInv p q) (hf : (s.event (.cond q)).flag = false) (p' : Pend) :
    s.JoinInv p' q :=
  ⟨h.empty, h.drained, fun h' => absurd h' (by simp [hf])⟩

theorem State.JoinInv.newLink (h : s.JoinInv none q) {y : Sync}
    (hf : y = .event (.cond q) → (s.event (.cond q)).flag = false) (p : Pend) :
    (s.newLink y).JoinInv p q := by
  by_cases hy : y = .event (.cond q)
  · subst hy
    have hflag : ((s.newLink (.event (.cond q))).event (.cond q)).flag = false := by
      simp only [State.newLink, State.link, State.setLinks, State.setEvent, Function.update_self]
      exact hf rfl
    refine ⟨fun h' => absurd h' (by simp [hflag]), fun h' => ?_, fun h' => absurd h' (by simp [hflag])⟩
    exact .inr ((h.drained h').resolve_left (by simp [hf rfl]))
  · have h1 := h.calm (State.newLink_calm hy)
    exact ⟨h1.empty, h1.drained, fun h' w hw => .inl ((h1.joined h' w hw).resolve_right (by simp))⟩

/-- The waiter of a call leaves its `links`. -/
theorem State.JoinInv.unlink {y : Sync} {w : WaiterId} (h : s.JoinInv (some (y, w)) q) :
    (s.unlink y w).JoinInv none q := by
  have h1 := h.calm (State.unlink_calm y w)
  refine ⟨h1.empty, h1.drained, fun hf w' hw' => .inl ((h1.joined hf w' hw').resolve_right ?_)⟩
  intro hp
  cases hp
  simp [State.unlink, State.setLinks, State.setEvent, State.links] at hw'

/-! ## Items -/

theorem Queue._put_join (h : s.JoinInv p q) (q' : QueueId) (item : Value) :
    (Queue._put s q' item).JoinInv p q := by
  have hev : (Queue._put s q' item).event = Function.update s.event (.cond q')
      { s.event (.cond q') with flag := false } := by
    unfold Queue._put; dsimp only
    split <;> rfl
  by_cases hq : q' = q
  · subst hq
    have hflag : ((Queue._put s q' item).event (.cond q')).flag = false := by
      rw [hev, Function.update_self]
    refine ⟨fun h' => absurd h' (by simp [hflag]), fun h' => ?_, fun h' => absurd h' (by simp [hflag])⟩
    simp [Queue._put_queue] at h'
  · refine h.calm (.of_eq ?_ ?_)
    · rw [hev, Function.update_of_ne (by simpa using Ne.symm hq)]
    · rw [Queue._put_queue, Function.update_of_ne (Ne.symm hq)]

/-- The last item is taken while `_get_unlock` is queued or runs. -/
theorem Queue._get_join (h : s.JoinInv p q) {q' : QueueId}
    (hq : q' = q → (s.queue q).length = 1 → (s.queue q).isInGetUnlock = true) {item : Value}
    (hg : Queue._get s q' = .ok (item, s')) : s'.JoinInv p q := by
  have hev : s'.event = s.event := by
    obtain ⟨Q, C, L, rfl, -⟩ := Queue._get_frame s hg
    rfl
  have hqu := Queue._get_queue hg
  by_cases hqq : q' = q
  · subst hqq
    have hpos := (Queue._get_ok.1 hg).1
    have hlen : (s'.queue q').length = (s.queue q').length - 1 := by
      rw [hqu, Function.update_self]
      rfl
    have hunlock : (s'.queue q').isInGetUnlock = (s.queue q').isInGetUnlock := by
      rw [hqu, Function.update_self]
      rfl
    have hset : (s'.event (.cond q')).flag ≠ true := by
      rw [hev]
      intro h'
      have := h.empty h'
      omega
    refine ⟨fun h' => absurd h' hset, fun h' => .inr ?_, fun h' => absurd h' hset⟩
    rw [hunlock]
    exact hq rfl (by omega)
  · exact h.calm (.of_eq (by rw [hev]) (by rw [hqu, Function.update_of_ne (Ne.symm hqq)]))

/-! ## The ends of a call -/

theorem fail_calm (v : Value) : s.Calm q (fail s c v) := by
  unfold fail
  split <;> exact .of_eq rfl rfl

theorem raise_calm (v : Value) : s.Calm q (raise s c v) := by
  have hcancel := (Timeout.cancel_all_env (s := s) (unwind v (s.stack c)).1).calm (q := q)
  unfold raise; dsimp only
  split
  · exact hcancel.trans (fail_calm _)
  · exact hcancel.trans (.of_eq rfl rfl)

theorem finish_calm (r : Outcome) : s.Calm q (finish s c r) := by
  cases r with
  | ok vs => exact .of_eq rfl rfl
  | error v => exact raise_calm v

theorem State.Calm.finish (h : s.Calm q s') (r : Outcome) : s.Calm q (finish s' c r) :=
  h.trans (finish_calm r)

theorem State.JoinInv.finish (h : s.JoinInv p q) (r : Outcome) : (finish s c r).JoinInv p q :=
  h.calm (finish_calm r)

theorem returns_calm (vs : List Value) : s.Calm q (returns s c vs) := by
  unfold returns
  split
  · exact .of_eq rfl rfl
  · exact (Timeout.cancel_env _).calm.trans (.of_eq rfl rfl)
  · split <;> exact .of_eq rfl rfl

/-! ## After `waiter.get` -/

theorem Semaphore.passed_calm (x : SemId) (t : Option TimeoutId) (acquire : Bool) :
    s.Calm q (Semaphore.passed s c x t acquire) := by
  have hset : ∀ {s : State} {o : Semaphore}, s.Calm q (s.setSem x o) := .of_eq rfl rfl
  unfold Semaphore.passed; dsimp only
  split
  · exact (((State.emit_calm _).trans hset).trans (State.emit_calm _)).finish _
  · exact (State.emit_calm _).finish _

theorem Queue.putItem_join (h : s.JoinInv p q) (q' : QueueId) (item : Value) :
    (Queue.putItem s c q' item).JoinInv p q :=
  ((Queue._put_join h q' item).calm (State.emit_calm (.putDone q' item))).finish _

theorem Queue.getItem_join (h : s.JoinInv p q) {q' : QueueId}
    (hq : q' = q → (s.queue q).length = 1 → (s.queue q).isInGetUnlock = true) :
    (Queue.getItem s c q').JoinInv p q := by
  unfold Queue.getItem
  split
  · rename_i item s₁ hg
    exact ((Queue._get_join h hq hg).calm (State.emit_calm _)).finish _
  · exact (h.calm (State.emit_calm _)).finish _

theorem Socket.call_calm (i : SockId) (f : SockCall) : s.Calm q (Socket.call s c i f) := by
  unfold Socket.call
  split
  · split <;> exact finish_calm _
  · exact .of_eq rfl rfl

theorem Socket.again_calm (i : SockId) (f : SockCall) : s.Calm q (Socket.again s c i f) := by
  unfold Socket.again
  split
  · exact Socket.call_calm i _
  · exact Socket.call_calm i _
  · exact .of_eq rfl rfl

theorem Hub.waitDone_calm (k : HubCaller) (r : Except Value Unit) :
    s.Calm q (Hub.waitDone s c k r) := by
  cases k with
  | sleep => exact finish_calm _
  | sock i f t =>
    unfold Hub.waitDone
    cases t with
    | none =>
      cases r with
      | ok => exact Socket.again_calm i f
      | error v => exact finish_calm _
    | some t =>
      have hcancel : s.Calm q (Timeout.cancel s t) := (Timeout.cancel_env t).calm
      cases r with
      | ok => exact hcancel.trans (Socket.again_calm i f)
      | error v => exact hcancel.finish _

/-- What a call does after its `waiter.get`: a `get` that has been woken takes an item
    while `_get_unlock` runs. -/
theorem afterGet_join {k : Call} {w : WaiterId} (h : s.JoinInv (k.pend w) q) {r : Except Value Value}
    (hk : ∀ t v, k = .queueGet q t → r = .ok v → (s.queue q).isInGetUnlock = true) :
    (afterGet s c w k r).JoinInv none q := by
  cases k with
  | get => exact h.finish _
  | eventWait e t =>
    refine ((h.unlink (y := .event e)).calm (Timeout.cancel_env t).calm).calm ?_
    unfold afterGet Event.waited
    cases r <;> exact finish_calm _
  | asyncGet a t =>
    refine ((h.unlink (y := .async a)).calm (Timeout.cancel_env t).calm).calm ?_
    unfold afterGet AsyncResult.got
    cases r <;> exact finish_calm _
  | semWait x t acquire =>
    refine ((h.unlink (y := .sem x)).calm (Timeout.cancel_env t).calm).calm ?_
    unfold afterGet Semaphore.waited; dsimp only
    split
    · exact (State.emit_calm _).finish _
    · split
      · exact Semaphore.passed_calm x _ acquire
      · exact (State.emit_calm _).finish _
  | queuePut q' item t =>
    have h' := (h.unlink (y := .put q')).calm (Timeout.cancel_env t).calm
    unfold afterGet Queue.putWaited
    cases r with
    | error v => exact h'.finish _
    | ok v => exact Queue.putItem_join h' q' item
  | queueGet q' t =>
    have hcalm : s.Calm q (Timeout.cancel (s.unlink (.get q') w) t) :=
      (State.unlink_calm (.get q') w).trans (Timeout.cancel_env t).calm
    have h' := (h.unlink (y := .get q')).calm (Timeout.cancel_env t).calm
    unfold afterGet Queue.getWaited
    cases r with
    | error v => exact h'.finish _
    | ok v =>
      refine Queue.getItem_join h' fun hq _ => ?_
      rw [hcalm.unlock]
      exact hk t v (by rw [hq]) rfl
  | hubWait x u k => exact State.JoinInv.calm h ((Watcher.stop_env x).calm.trans (Hub.waitDone_calm k _))

/-! ## The calls of a task -/

/-- A call waits. -/
theorem Waiter.get_join {k : Call} {w : WaiterId} (h : s.JoinInv (k.pend w) q)
    (hx : (s.waiter w).exception = .bool false) (he : c ≠ 0 → s.waiters c = none)
    (hf : k.sync = some (.event (.cond q)) → (s.event (.cond q)).flag = false) :
    (Waiter.get s c w k).JoinInv none q := by
  by_cases hc : c = 0
  · subst hc
    rw [Waiter.get_main k hx]
    have hmain : s.Calm q (s.mainGet w s.mainError) := .of_eq rfl rfl
    exact afterGet_join (h.calm hmain) fun _ _ _ hr => by cases hr
  · rw [Waiter.get_task k hx hc (he hc)]
    have hblock : s.Calm q (s.block c w k) := .of_eq rfl rfl
    refine State.JoinInv.calm ?_ hblock
    by_cases hk : k.sync = some (.event (.cond q))
    · exact h.of_unset (hf hk) none
    · refine ⟨h.empty, h.drained, fun h' w' hw' => .inl ((h.joined h' w' hw').resolve_right ?_)⟩
      exact fun hp => hk (Call.pend_eq.1 hp).1

/-- A call registers a waiter, starts its timer and waits. -/
theorem link_get_join {y : Sync} {k : Call} (h : s.JoinInv none q) (he : c ≠ 0 → s.waiters c = none)
    (hf : y = .event (.cond q) → (s.event (.cond q)).flag = false) (hk : k.sync = some y)
    (hstep : (s.newLink y).EnvStep none s') : (Waiter.get s' c s.nextWaiter k).JoinInv none q := by
  obtain ⟨hn, -, hws⟩ := s.newLink_new y
  have h1 := (h.newLink hf (k.pend s.nextWaiter)).calm hstep.calm
  refine Waiter.get_join h1 ?_ (fun hc => ?_) fun hk' => ?_
  · rw [hstep.eq]
    exact hn.2
  · rw [hstep.eq]
    show (s.newLink y).waiters c = none
    rw [hws]
    exact he hc
  · rw [hk] at hk'
    cases hk'
    rw [hstep.calm.flag]
    simp only [State.newLink, State.link, State.setLinks, State.setEvent, Function.update_self]
    exact hf rfl

theorem Event.wait_join (h : s.JoinInv none q) (he : c ≠ 0 → s.waiters c = none) (e : EventId)
    (sec : Option ℤ) : (Event.wait s c e sec).JoinInv none q := by
  unfold Event.wait
  split
  · exact h.finish _
  · rename_i hf
    refine link_get_join (y := .event e) h he ?_ rfl (Timeout.startNew_env c sec)
    rintro ⟨⟩
    simpa using hf

theorem AsyncResult.get_join (h : s.JoinInv none q) (he : c ≠ 0 → s.waiters c = none) (a : AsyncId)
    (sec : Option ℤ) : (AsyncResult.get s c a sec).JoinInv none q := by
  have henv : s.EnvStep none (Timeout.startNew s c sec).2 := Timeout.startNew_env c sec
  have he' : c ≠ 0 → (Timeout.startNew s c sec).2.waiters c = none := fun hc => by
    rw [henv.eq]
    exact he hc
  unfold AsyncResult.get
  split
  · exact link_get_join (y := .async a) (h.calm henv.calm) he' (by simp) rfl .refl
  · exact h.finish _

theorem Semaphore.wait_calm (x : SemId) (sec : Option ℤ) (acquire : Bool) :
    s.Calm q (Semaphore.wait s c x sec acquire) := by
  unfold Semaphore.wait
  refine (State.emit_calm (.semCall x c (s.sem x).counter)).trans ?_
  dsimp only
  split
  · exact Semaphore.passed_calm x none acquire
  · exact (((State.newLink_calm (y := .sem x) (by simp)).trans (Timeout.startNew_env c sec).calm).trans
      (State.emit_calm _)).finish _

theorem Queue.put_join (h : s.JoinInv none q) (he : c ≠ 0 → s.waiters c = none) (q' : QueueId)
    (item : Value) (sec : Option ℤ) : (Queue.put s c q' item sec).JoinInv none q := by
  unfold Queue.put
  split
  · exact Queue.putItem_join h q' item
  · exact link_get_join (y := .put q') h he (by simp) rfl (Timeout.startNew_env c sec)

theorem Queue.get_join (h : s.JoinInv none q) (he : c ≠ 0 → s.waiters c = none) {q' : QueueId}
    (hq : q' = q → (s.queue q).length = 1 → (s.queue q).isInGetUnlock = true) (sec : Option ℤ) :
    (Queue.get s c q' sec).JoinInv none q := by
  unfold Queue.get
  split
  · exact Queue.getItem_join h hq
  · exact link_get_join (y := .get q') h he (by simp) rfl (Timeout.startNew_env c sec)

theorem Hub.wait_join (h : s.JoinInv none q) (he : c ≠ 0 → s.waiters c = none) (x : WatcherId)
    (k : HubCaller) : (Hub.wait s c x k).JoinInv none q := by
  have hstart : s.Calm q (s.waitStart x) := .of_eq rfl rfl
  have hnew : s.Calm q s.waitNew := .of_eq rfl rfl
  rw [Hub.wait_eq]
  split
  · refine Waiter.get_join (k := .hubWait x s.nextUuid k) (h.calm hstart) State.waitStart_new.2
      (fun hc => ?_) (by simp [Call.sync])
    rw [State.waitStart_waiters]
    exact he hc
  · exact (h.calm hnew).calm (Hub.waitDone_calm k _)

theorem Socket.new_calm : s.Calm q (Socket.new s c) := by
  unfold Socket.new
  refine State.Calm.finish ?_ _
  exact .of_eq rfl rfl

theorem Socket.start_calm (i : SockId) (f : SockCall) : s.Calm q (Socket.start s c i f) := by
  unfold Socket.start
  split
  · split
    · exact Socket.call_calm i _
    · exact finish_calm _
  · exact Socket.call_calm i f

theorem Socket._wait_join (h : s.JoinInv none q) (he : c ≠ 0 → s.waiters c = none) (i : SockId)
    (f : SockCall) : (Socket._wait s c i f).JoinInv none q := by
  have henv : s.EnvStep none (Timeout.startNew s c (s.sock i).timeout).2 := Timeout.startNew_env c _
  have he' : c ≠ 0 → (Timeout.startNew s c (s.sock i).timeout).2.waiters c = none := fun hc => by
    rw [henv.eq]
    exact he hc
  unfold Socket._wait; dsimp only
  split
  · exact Hub.wait_join (h.calm henv.calm) he' _ _
  · exact Hub.wait_join h he _ _

theorem Socket.answered_calm (i : SockId) (v : Value) (f : SockCall) :
    s.Calm q (Socket.answered s c i v f) := by
  unfold Socket.answered
  split
  · exact Socket.new_calm
  · exact finish_calm _
  · split
    · exact Socket.call_calm i _
    · exact finish_calm _
  · exact finish_calm _

theorem Socket.refused_join (h : s.JoinInv none q) (he : c ≠ 0 → s.waiters c = none) (i : SockId)
    (e : Errno) (f : SockCall) : (Socket.refused s c i e f).JoinInv none q := by
  unfold Socket.refused
  split
  · split
    · exact Socket._wait_join h he i _
    · exact h.finish _
  · split
    · exact h.finish _
    · split
      · exact h.finish _
      · exact Socket._wait_join h he i _
  · split
    · exact Socket._wait_join h he i f
    · exact h.finish _

theorem Socket.step_join (h : s.JoinInv none q) (he : c ≠ 0 → s.waiters c = none) (i : SockId)
    (f : SockCall) (r : SysResult) : (Socket.step s c i f r).JoinInv none q := by
  have h1 : (s.setMode c .running).JoinInv none q := h.calm (.of_eq rfl rfl)
  unfold Socket.step; dsimp only
  cases r with
  | ok v => exact h1.calm (Socket.answered_calm i v f)
  | err e => exact Socket.refused_join h1 he i e f

theorem Socket.close_calm (i : SockId) : s.Calm q (Socket.close s i) := by
  unfold Socket.close; dsimp only
  split
  · exact .refl
  · exact .of_eq rfl rfl

theorem check_calm (n : ℕ) : s.Calm q (Coroutines.coRawCreate^[n] s) := by
  induction n generalizing s with
  | zero => exact .refl
  | succ n ih =>
    have h1 : s.Calm q (Coroutines.coRawCreate s) := .of_eq rfl rfl
    exact h1.trans ih

/-- A coroutine that is not suspended in a call is resumed. -/
theorem coResume_calm {co : Co} (hco : ∀ w k, s.mode co ≠ .blocked w k) (args : List Value) :
    s.Calm q (coResume s co args) := by
  unfold coResume
  split
  · exact .of_eq rfl rfl
  · exact .of_eq rfl rfl
  · exact .of_eq rfl rfl
  · rename_i w k hm
    exact absurd hm (hco w k)
  · exact .refl
  · exact .refl
  · exact .refl
  · exact .refl

theorem Coroutines.pool_last (hs : s.Sound) (hne : s.pool ≠ []) :
    s.mode (s.pool.getLastD 0) = .pooled := by
  rw [List.getLastD_eq_getLast?, List.getLast?_eq_some_getLast hne]
  exact hs.pool.pooled (List.getLast_mem hne)

theorem spawn_calm (hs : s.Sound) (args : List Value) : s.Calm q (spawn s c args) := by
  have hraw : s.Calm q (Coroutines.coRawCreate s) := .of_eq rfl rfl
  have hm : Micro Rules.free none s none (Coroutines.coRawCreate s) := .rawCreate s
  obtain ⟨s₀, h₀, hcalm, hlast⟩ : ∃ s₀, s₀ = (if s.pool = [] then Coroutines.coRawCreate s else s) ∧
      s.Calm q s₀ ∧ s₀.mode (s₀.pool.getLastD 0) = .pooled := by
    refine ⟨_, rfl, ?_⟩
    split
    · exact ⟨hraw, Coroutines.pool_last (hs.micro hm) (by simp [Coroutines.coRawCreate])⟩
    · rename_i hne
      exact ⟨.refl, Coroutines.pool_last hs hne⟩
  unfold spawn Coroutines.coCreate; dsimp only
  rw [← h₀, if_pos hlast]
  refine State.Calm.finish (hcalm.trans ?_) _
  exact .of_eq rfl rfl

/-! ## Events -/

theorem Event.set_calm {e : EventId} (he : e ≠ .cond q) : s.Calm q (Event.set s e) := by
  have hset : s.Calm q ((s.setEvent e { s.event e with
      flag := true, todo := (s.event e).todo ∪ (s.event e).links, notifier := true }).emit
      (.eventSet e (s.event e).links)) :=
    (State.setEvent_calm fun h => absurd h he).trans (State.emit_calm _)
  unfold Event.set; dsimp only
  split
  · exact hset
  · exact hset.trans (.of_eq rfl rfl)

/-- `cond:set()` of a queue that is empty: every joiner is in `todo`. -/
theorem Event.set_join (h : (s.queue q).length = 0) : (Event.set s (.cond q)).JoinInv none q ∧
    ((Event.set s (.cond q)).event (.cond q)).flag = true := by
  obtain ⟨E, C, L, he, -⟩ := Event.set_frame s (.cond q)
  have hq : (Event.set s (.cond q)).queue = s.queue := by rw [he]
  have hev : (Event.set s (.cond q)).event (.cond q) = { s.event (.cond q) with
      flag := true, todo := (s.event (.cond q)).todo ∪ (s.event (.cond q)).links, notifier := true } := by
    unfold Event.set; dsimp only
    split <;> exact Function.update_self _ _ _
  refine ⟨⟨fun _ => by rw [hq]; exact h, fun _ => .inl (by rw [hev]), fun _ w hw => .inl ?_⟩, by rw [hev]⟩
  rw [hev] at hw ⊢
  exact Finset.mem_union_right _ hw

theorem Event.clear_calm {e : EventId} (he : e ≠ .cond q) : s.Calm q (Event.clear s e) :=
  State.setEvent_calm fun h => absurd h he

theorem AsyncResult._set_calm {a : AsyncId} {v e : Value} (h : AsyncResult._set s a v e = .ok s') :
    s.Calm q s' := by
  obtain ⟨A, C, rfl, -⟩ := AsyncResult._set_frame s h
  exact .of_eq rfl rfl

theorem Semaphore.release_calm (x : SemId) : s.Calm q (Semaphore.release s x) := by
  obtain ⟨M, C, L, he, -⟩ := Semaphore.release_frame s x
  rw [he]
  exact .of_eq rfl rfl

/-- The end of a notification: that of `_get_unlock` comes when the flag is set or
    there are items left. -/
theorem endNotify_join (h : s.JoinInv p q) {y : Sync} (hy : y = .get q →
    (s.event (.cond q)).flag = true ∨ (s.queue q).length ≠ 0) : (endNotify s y).JoinInv p q := by
  by_cases hyq : y = .get q
  · subst hyq
    have hlen : ((endNotify s (.get q)).queue q).length = (s.queue q).length := by
      simp [endNotify, State.setQueue]
    have hev : (endNotify s (.get q)).event = s.event := rfl
    refine ⟨fun hf => ?_, fun hl => .inl ?_, fun hf => ?_⟩
    · rw [hlen]
      exact h.empty (hev ▸ hf)
    · rw [hev]
      exact (hy rfl).resolve_right fun hne => hne (hlen ▸ hl)
    · rw [hev] at hf ⊢
      exact h.joined hf
  · refine h.calm ?_
    have hidle : ∀ {s₁ : State}, s₁.Calm q { s₁ with main := .idle } := .of_eq rfl rfl
    cases y with
    | event e =>
      refine State.Calm.trans (State.setEvent_calm ?_) hidle
      rintro rfl
      exact ⟨rfl, subset_rfl, subset_rfl⟩
    | async | sem => exact hidle
    | put q' =>
      exact State.Calm.trans (State.setQueue_calm (o := { s.queue q' with isInPutUnlock := false })
        fun _ => ⟨rfl, rfl⟩) hidle
    | get q' =>
      refine State.Calm.trans (State.setQueue_calm ?_) hidle
      rintro rfl
      exact absurd rfl hyq

/-! ## Operations -/

/-- A `set` or `clear` of the `cond` of a queue, which only the queue calls. -/
def Act.OnCond : Act → Prop
  | .op (.eventSet (.cond _)) | .op (.eventClear (.cond _)) => True
  | _ => False

/-- A `get` that finds the last item of `q` does so while `_get_unlock` is queued or
    runs. -/
def State.Drains (q : QueueId) (s : State) : Act → Prop
  | .op (.queueGet q' _) => q' = q → (s.queue q).length = 1 → (s.queue q).isInGetUnlock = true
  | _ => True

instance : DecidablePred Act.OnCond := fun a => by
  unfold Act.OnCond
  split <;> infer_instance

instance : Decidable (s.Drains q a) := by
  unfold State.Drains
  split <;> infer_instance

theorem plain_join (h : s.JoinInv none q) {r : Except Value State} (hr : ∀ s', r = .ok s' → s.Calm q s') :
    (plain s c r).JoinInv none q := by
  unfold plain
  split
  · exact (h.calm (hr _ rfl)).finish _
  · exact h.finish _

theorem Op.exec_join (hs : s.Sound) (ht : s.Turn c) (h : s.JoinInv none q) {o : Op}
    (hstep : o.exec s c = some s') (hraw : ¬ o.Raw) (hcond : ¬ (Act.op o).OnCond) (hq : s.Drains q (.op o)) :
    s'.JoinInv none q := by
  have he : c ≠ 0 → s.waiters c = none := hs.no_entry ht
  have hplain : ∀ {s₁ : State}, s.Calm q s₁ → (plain s c (.ok s₁)).JoinInv none q := fun h1 =>
    plain_join h (by rintro _ ⟨⟩; exact h1)
  cases o with
  | eventSet e =>
    cases hstep
    cases e with
    | user n => exact hplain (Event.set_calm (by simp))
    | cond q' => exact absurd trivial hcond
  | eventClear e =>
    cases hstep
    cases e with
    | user n => exact hplain (Event.clear_calm (by simp))
    | cond q' => exact absurd trivial hcond
  | eventWait e sec =>
    cases e with
    | user n => cases hstep; exact Event.wait_join h he _ sec
    | cond q' => cases hstep
  | asyncSet a v =>
    cases hstep
    exact plain_join h fun _ hr => AsyncResult._set_calm hr
  | asyncSetException a v =>
    cases hstep
    refine plain_join h fun _ hr => ?_
    unfold AsyncResult.setException at hr
    split at hr
    · exact AsyncResult._set_calm hr
    · cases hr
  | asyncGet a sec => cases hstep; exact AsyncResult.get_join h he a sec
  | semRelease x => cases hstep; exact hplain (Semaphore.release_calm x)
  | semWait x sec acquire => cases hstep; exact h.calm (Semaphore.wait_calm x sec acquire)
  | queuePut q' item sec =>
    simp only [Op.exec] at hstep
    split at hstep
    · cases hstep; exact Queue.put_join h he q' item sec
    · cases hstep
  | queueGet q' sec =>
    simp only [Op.exec] at hstep
    split at hstep
    · cases hstep; exact Queue.get_join h he hq sec
    · cases hstep
  | queueJoin q' sec =>
    simp only [Op.exec] at hstep
    split at hstep
    · cases hstep; exact Event.wait_join h he _ sec
    · cases hstep
  | sleep =>
    cases hstep
    have hnext : s.Calm q { s with nextSleep := s.nextSleep + 1 } := .of_eq rfl rfl
    exact Hub.wait_join (h.calm hnext) he _ .sleep
  | socket => cases hstep; exact h.calm Socket.new_calm
  | socketSetTimeout i sec => cases hstep; exact hplain (.of_eq rfl rfl)
  | socketCall i f => cases hstep; exact h.calm (Socket.start_calm i f)
  | socketClose i => cases hstep; exact hplain (Socket.close_calm i)
  | spawn args => cases hstep; exact h.calm (spawn_calm hs args)
  | kill co target =>
    simp only [Op.exec] at hstep
    split at hstep
    · cases hstep; exact hplain (.of_eq rfl rfl)
    · cases hstep
  | check n => cases hstep; exact hplain (check_calm _)
  | runCallback => cases hstep; exact hplain (.of_eq rfl rfl)
  | timeoutStartNew sec => cases hstep; exact hplain (Timeout.startNew_env c sec).calm
  | timeoutCancel t => cases hstep; exact hplain (Timeout.cancel_env t).calm
  | timeoutRun sec =>
    cases hstep
    exact (h.calm (Timeout.startNew_env c sec).calm).calm (State.setStack_env _).calm
  | pcall => cases hstep; exact h.calm (State.setStack_env _).calm
  | returns vs => cases hstep; exact h.calm (returns_calm vs)
  | error v => cases hstep; exact h.finish _
  | waiter | waiterGet | waiterSwitch | waiterThrow | hubSwitch | hubThrow => exact absurd trivial hraw

/-! ## A waiter is settled -/

theorem State.JoinInv.pending (h : s.JoinInv none q) (w : WaiterId) :
    s.JoinInv (some (.event (.cond q), w)) q :=
  ⟨h.empty, h.drained, fun hf w' hw' => .inl ((h.joined hf w' hw').resolve_right (by simp))⟩

/-- The notification of `y` takes `w` out of `todo`. -/
theorem State.JoinInv.take (h : s.JoinInv none q) (y : Sync) (w : WaiterId) :
    (s.take y w).JoinInv (some (.event (.cond q), w)) q := by
  cases y with
  | event e =>
    by_cases he : e = .cond q
    · subst he
      have hev : (s.take (.event (.cond q)) w).event (.cond q) =
          { s.event (.cond q) with todo := (s.event (.cond q)).todo.erase w } := Function.update_self _ _ _
      refine ⟨?_, ?_, ?_⟩
      · rw [hev]
        exact h.empty
      · rw [hev]
        exact h.drained
      · rw [hev]
        intro hf w' hw'
        by_cases hww : w' = w
        · exact .inr (by rw [hww])
        · exact .inl (Finset.mem_erase.2 ⟨hww, (h.joined hf w' hw').resolve_right (by simp)⟩)
    · exact (h.pending w).calm (State.setEvent_calm fun h => absurd h he)
  | async | sem | put | get => exact h.pending w

/-- A waiter is switched, or thrown at: who waits in a `get` is switched while
    `_get_unlock` runs. -/
theorem Waiter._switch_join (hh : s.HubInv) (hl : s.LinkInv none) (hcur : s.cur = none) {w : WaiterId}
    {v e : Value} (he : ¬ (e.truthy ∧ ¬ isException e)) (h : s.JoinInv (some (.event (.cond q), w)) q)
    (hget : ∀ c t, s.mode c = .blocked w (.queueGet q t) → e = .nil →
      (s.queue q).isInGetUnlock = true) : (Waiter._switch s w v e).1.JoinInv none q := by
  have hlink : w ∈ (s.event (.cond q)).links → s.BlockedAt (.event (.cond q)) w := fun hw =>
    ((hl.linked (y := .event (.cond q)) (by simp)).1 hw).resolve_right (by simp)
  have hother : (s.event (.cond q)).flag = true → ∀ w' ∈ (s.event (.cond q)).links, w' ≠ w →
      w' ∈ (s.event (.cond q)).todo := fun hf w' hw' hne =>
    (h.joined hf w' hw').resolve_right (by simpa using Ne.symm hne)
  rcases Waiter._switch_cases (v := v) hh hcur w he with ⟨hn, h1⟩ | ⟨c, k, hk, h1⟩
  · have hnone : s.JoinInv none q := by
      refine ⟨h.empty, h.drained, fun hf w' hw' => .inl (hother hf w' hw' ?_)⟩
      rintro rfl
      obtain ⟨c, k, hc, -⟩ := hlink hw'
      exact hn c k hc
    rcases h1 with h1 | h1
    · rw [h1]
      exact hnone
    · rw [h1]
      exact hnone.calm (.of_eq rfl rfl)
  · rw [h1]
    have hpend : s.JoinInv (k.pend w) q := by
      refine ⟨h.empty, h.drained, fun hf w' hw' => ?_⟩
      by_cases hww : w' = w
      · subst hww
        obtain ⟨c', k', hc', hk'⟩ := hlink hw'
        obtain ⟨-, rfl⟩ := hh.blocked_inj hc' hk
        exact .inr (Call.pend_eq.2 ⟨hk', rfl⟩)
      · exact .inl (hother hf w' hw' hww)
    have hresume : s.Calm q (s.resume c w v e) := .of_eq rfl rfl
    refine afterGet_join (hpend.calm hresume) ?_
    rintro t v' rfl hr
    refine hget c t hk ?_
    unfold Waiter.result at hr
    split at hr
    · assumption
    · cases hr

theorem Hub.throw_join (hh : s.HubInv) (hl : s.LinkInv none) (hcur : s.cur = none)
    (h : s.JoinInv none q) (c : Co) (e : Exn) : (Hub.throw s c (.exn e)).1.JoinInv none q := by
  unfold Hub.throw
  split
  · exact h
  · rename_i w hw
    exact Waiter._switch_join hh hl hcur (by simp [isException]) (h.pending w) (by simp)

/-! ## Steps -/

theorem Loop.begin_join (hs : s.Sound) (hl : s.LinkInv none) (hb : s.Between) (h : s.JoinInv none q)
    {cb : Callback} {cbs : List Callback} (hq : s.callbacks = cb :: cbs) :
    (Loop.begin { s with callbacks := cbs } cb).JoinInv none q := by
  have hpop : s.Calm q { s with callbacks := cbs } := .of_eq rfl rfl
  have hh' : ({ s with callbacks := cbs } : State).HubInv := hs.hub
  have hl' : ({ s with callbacks := cbs } : State).LinkInv none :=
    hl.keep (fun _ _ => rfl) fun _ _ _ => Iff.rfl
  have hcur' : ({ s with callbacks := cbs } : State).cur = none := hb.2
  have hready : ∀ c args, cb = .resume c args →
      ∀ w k, ({ s with callbacks := cbs } : State).mode c ≠ .blocked w k := by
    rintro c args rfl w k hm
    obtain ⟨f, hf⟩ := hs.pool.ready (c := c) (by rw [hq]; simp [resumed])
    have hm' : s.mode c = .blocked w k := hm
    rw [hf] at hm'
    cases hm'
  have h' := h.calm hpop
  clear hpop
  generalize ({ s with callbacks := cbs } : State) = s₁ at hh' hl' hcur' hready h'
  cases cb with
  | notify y => exact h'.calm (.of_eq rfl rfl)
  | throw c e target =>
    unfold Loop.begin; dsimp only
    split
    · rename_i s₂ h1
      rw [show s₂ = (Hub.throw _ c (.exn e)).1 from (congrArg Prod.fst h1).symm]
      exact Hub.throw_join (s := s₁.emit _) hh' (hl'.keep (fun _ _ => rfl) fun _ _ _ => Iff.rfl) hcur'
        (h'.calm (State.emit_calm _)) c e
    · exact Hub.throw_join hh' hl' hcur' h' c e
  | resume c args => exact h'.calm (coResume_calm (hready c args rfl) args)
  | cancelWait x err =>
    unfold Loop.begin Hub._cancelWait; dsimp only
    split
    · split
      · rename_i w u hw
        exact Waiter._switch_join hh' hl' hcur' (by simp [isException]) (h'.pending w) (by simp)
      · exact h'
    · exact h'
  | user => exact h'.calm (.of_eq rfl rfl)

theorem Loop.fire_join (hs : s.Sound) (hl : s.LinkInv none) (hb : s.Between) (h : s.JoinInv none q)
    (x : WatcherId) : (Loop.fire s x).JoinInv none q := by
  have henv := Loop.expire_env (s := s) x
  have hlike := Loop.expire_like (s := s) x
  have hh : (Loop.expire s x).HubInv := hs.hub.micro (R := Rules.free) (.env none s _ henv) hs.pool
  have hl' : (Loop.expire s x).LinkInv none := by
    rw [henv.eq]
    exact hl.keep (fun _ _ => rfl) fun _ _ _ => Iff.rfl
  have hcur : (Loop.expire s x).cur = none := by
    rw [henv.eq]
    exact hb.2
  have h' := h.calm henv.calm
  unfold Loop.fire
  split
  · rename_i w u hw
    refine Waiter._switch_join hh hl' hcur (by simp [Value.truthy]) (h'.pending w) fun c t hc _ => ?_
    -- the waiter of a watcher is not that of a `get`
    rw [hlike.mode] at hc
    exact absurd ((hl.linked (y := .get q) (by simp)).2 (.inl ⟨c, _, hc, rfl⟩)) (hs.fresh.apart hw)
  · exact Hub.throw_join hh hl' hcur h' _ _
  · exact h'

/-- A waiter of a `get` is notified by `_get_unlock`. -/
theorem State.waiting_get (hs : s.Sound) (hl : s.LinkInv none) {y : Sync} {w : WaiterId}
    (hw : w ∈ s.waiting y) {t : TimeoutId} (hc : s.mode c = .blocked w (.queueGet q t)) : y = .get q := by
  have hmem : w ∈ s.links (.get q) := (hl.linked (by simp)).2 (.inl ⟨c, _, hc, rfl⟩)
  cases y with
  | event e => exact (hs.fresh.todoSole hw hmem).symm
  | async a => exact hs.fresh.sole (y := .async a) hw hmem
  | sem x => exact hs.fresh.sole (y := .sem x) hw hmem
  | put q' => exact hs.fresh.sole (y := .put q') hw hmem
  | get q' => exact hs.fresh.sole (y := .get q') hw hmem

theorem wake_join (hs : s.Sound) (hl : s.LinkInv none) (hcur : s.cur = none) (h : s.JoinInv none q)
    {y : Sync} {w : WaiterId} (hw : w ∈ s.waiting y)
    (hget : y = .get q → (s.queue q).isInGetUnlock = true) : (wake (s.take y w) y w).JoinInv none q := by
  obtain ⟨E, he⟩ := s.take_frame y w
  have hh : ((s.take y w).emit (.notified y w)).HubInv := by
    rw [he]
    exact hs.hub
  have hl' : ((s.take y w).emit (.notified y w)).LinkInv none :=
    hl.keep (fun y' _ => s.takes_links w (some y) y') fun c w' k => by
      rw [he]
      rfl
  have hcur' : ((s.take y w).emit (.notified y w)).cur = none := by
    rw [he]
    exact hcur
  have hswitch : (Waiter.switch ((s.take y w).emit (.notified y w)) w (.bool true)).1.JoinInv none q := by
    refine Waiter._switch_join hh hl' hcur' (by simp [Value.truthy])
      ((h.take y w).calm (State.emit_calm _)) fun c t hc _ => ?_
    have hc' : s.mode c = .blocked w (.queueGet q t) := by
      rw [he] at hc
      exact hc
    obtain rfl := State.waiting_get hs hl hw hc'
    exact hget rfl
  unfold wake
  split
  · rename_i s₁ h1
    rw [h1] at hswitch
    exact hswitch
  · rename_i s₁ v h1
    rw [h1] at hswitch
    have hidle : s₁.Calm q ({ s₁ with main := .idle }.emit (.aborted y)) := .of_eq rfl rfl
    exact hswitch.calm hidle

/-- One round of a notification: `_get_unlock` ends when the queue is empty, and sets the
    flag, or when nobody waits for the items. -/
theorem Sync.notify_join (hs : s.Sound) (hl : s.LinkInv none) (hg : (s.armed (.get q)).Inv)
    (hcur : s.cur = none) {y : Sync} (hmain : s.main = .notify y) (h : s.JoinInv none q)
    {w : Option WaiterId} (hstep : y.notify s w = some s') : s'.JoinInv none q := by
  have hwake : ∀ v, v ∈ s.waiting y → (wake (s.take y v) y v).JoinInv none q := by
    intro v hv
    refine wake_join hs hl hcur h hv ?_
    rintro rfl
    exact (State.flag_iff hg).2 (.inr hmain)
  by_cases hy : y = .get q
  · subst hy
    unfold Sync.notify Queue._getUnlock at hstep
    dsimp only at hstep
    split at hstep
    · rename_i hlen
      split at hstep
      · cases hstep
        obtain ⟨h1, hf⟩ := Event.set_join hlen
        exact endNotify_join h1 fun _ => .inl hf
      · cases hstep
    · rename_i hlen
      rcases nextOf_cases hstep with ⟨-, -, rfl⟩ | ⟨v, -, hv, rfl⟩
      · exact endNotify_join h fun _ => .inr hlen
      · exact hwake v hv
  · rcases Sync.notify_cases hstep with
      ⟨-, -, -, -, -, rfl | ⟨q', rfl, -, rfl⟩⟩ | ⟨v, -, hv, -, -, rfl⟩
    · exact endNotify_join h fun h' => absurd h' hy
    · have hq : EventId.cond q' ≠ .cond q := fun hq => hy (by cases hq; rfl)
      exact endNotify_join (h.calm (Event.set_calm hq)) fun h' => absurd h' hy
    · exact hwake v hv

/-- **The flag of `cond` and the length** go together at every step. -/
theorem step_join (hs : s.Sound) (hl : s.LinkInv none) (hg : (s.armed (.get q)).Inv)
    (h : s.JoinInv none q) (hraw : ¬ a.Raw) (hcond : ¬ a.OnCond) (hd : s.Drains q a)
    (hstep : step s a = some s') : s'.JoinInv none q := by
  unfold step at hstep
  cases a with
  | callback =>
    dsimp only at hstep
    split at hstep
    · rename_i hb
      split at hstep
      · cases hstep
      · rename_i cb cbs hq
        cases hstep
        exact Loop.begin_join hs hl hb h hq
    · cases hstep
  | fire x =>
    dsimp only at hstep
    split at hstep
    · rename_i hb
      cases hstep
      exact Loop.fire_join hs hl hb.1 h x
    · cases hstep
  | enter =>
    dsimp only at hstep
    split at hstep
    · cases hstep
      exact h.calm (.of_eq rfl rfl)
    · cases hstep
  | next w =>
    dsimp only at hstep
    split at hstep
    · rename_i y hmain hcur
      exact Sync.notify_join hs hl hg hcur hmain h hstep
    · cases hstep
  | op o =>
    dsimp only at hstep
    split at hstep
    · rename_i c hc
      exact Op.exec_join hs (hs.user_turn hc) h hstep hraw hcond hd
    · cases hstep
  | sys r =>
    dsimp only at hstep
    split at hstep
    · rename_i i f hf
      cases hstep
      have ht := hs.hub.sys_turn hf
      have hm : Micro Rules.free none s none (s.setMode s.running .running) := .answer s _ i f rfl hf
      exact Socket.step_join h ((hs.micro hm).no_entry ht) i f r
    · cases hstep

end Levent
