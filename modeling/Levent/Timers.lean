/-
  The timers of timeouts: a call that waits has its own, and none is left over
  when the call, or the `timeout.run` that has started it, ends.
-/
import Levent.Runtime.Code
import Levent.Runtime.TimerInv
import Levent.Spawning
import Levent.Unwind

namespace Levent

open Lib (run collect)

variable {s s' s₁ : State} {c d : Co} {t u : TimeoutId} {x : WatcherId} {w : WaiterId}
  {H H' : Co → TimeoutId → Prop} {K : TimeoutId → Prop} {o : Option TimeoutId}
  {value : SemId → ℕ} {maxsizes : List (Option ℤ)} {as : List Act}

/-! ## After `waiter.get` -/

theorem State.unlink_quiet (y : Sync) (w : WaiterId) : s.Quiet (s.unlink y w) := by
  obtain ⟨E, A, M, Q, he⟩ := s.setLinks_frame ((s.links y).erase w) y
  rw [State.unlink, he]
  exact .same rfl rfl rfl rfl rfl

theorem State.Flight.unlink_cancel (h : s.Flight H K c (some t)) (y : Sync) (w : WaiterId) :
    (Timeout.cancel (s.unlink y w) t).Flight H K c none :=
  (h.quiet (State.unlink_quiet y w)).cancel

theorem Semaphore.passed_timed (h : s.Flight H K c none) (x : SemId) (o : Option TimeoutId) (acquire : Bool) :
    (Semaphore.passed s c x o acquire).Timed H K := by
  unfold Semaphore.passed
  dsimp only
  split
  · refine finish_timed (h.quiet ?_) _
    exact .same rfl rfl rfl rfl rfl
  · refine finish_timed (h.quiet ?_) _
    exact .same rfl rfl rfl rfl rfl

theorem Queue.putItem_timed (h : s.Flight H K c none) (q : QueueId) (item : Value) :
    (Queue.putItem s c q item).Timed H K := by
  obtain ⟨E, Q, C, L, he, -⟩ := Queue._put_frame s q item
  unfold Queue.putItem
  rw [he]
  refine finish_timed (h.quiet ?_) _
  exact .same rfl rfl rfl rfl rfl

theorem Queue.getItem_timed (h : s.Flight H K c none) (q : QueueId) :
    (Queue.getItem s c q).Timed H K := by
  unfold Queue.getItem
  split
  · rename_i item s' hs
    obtain ⟨Q, C, L, rfl, -⟩ := Queue._get_frame s hs
    refine finish_timed (h.quiet ?_) _
    exact .same rfl rfl rfl rfl rfl
  · refine finish_timed (h.quiet ?_) _
    exact .same rfl rfl rfl rfl rfl

theorem Socket.call_timed (h : s.Flight H K c none) (i : SockId) (f : SockCall) :
    (Socket.call s c i f).Timed H K := by
  unfold Socket.call
  split
  · split <;> exact finish_timed h _
  · exact h.goes (m := .sys i f) (by simp [Mode.Out]) rfl (.same rfl rfl rfl rfl)

theorem Socket.again_timed (h : s.Flight H K c none) (i : SockId) (f : SockCall) :
    (Socket.again s c i f).Timed H K := by
  unfold Socket.again
  split
  · exact Socket.call_timed h i _
  · exact Socket.call_timed h i _
  · exact h.goes (m := .sys i f) (by simp [Mode.Out]) rfl (.same rfl rfl rfl rfl)

theorem Hub.waitDone_timed {k : HubCaller} (h : s.Flight H K c k.timeout) (r : Except Value Unit) :
    (Hub.waitDone s c k r).Timed H K := by
  cases k with
  | sleep => exact finish_timed h _
  | sock i f o =>
    unfold Hub.waitDone
    cases o with
    | none =>
      cases r with
      | ok => exact Socket.again_timed h i f
      | error v => exact finish_timed h _
    | some t =>
      cases r with
      | ok => exact Socket.again_timed h.cancel i f
      | error v => exact finish_timed h.cancel _

/-- What a call does after its `waiter.get`. -/
theorem afterGet_timed {k : Call} (h : s.Flight H K c k.timeout) (hk : k.Apart) (w : WaiterId)
    (r : Except Value Value) : (afterGet s c w k r).Timed H K := by
  cases k with
  | get => exact finish_timed h _
  | eventWait e t =>
    have hleft := h.unlink_cancel (.event e) w
    unfold afterGet Event.waited
    cases r <;> exact finish_timed hleft _
  | asyncGet a t =>
    have hleft := h.unlink_cancel (.async a) w
    unfold afterGet AsyncResult.got
    cases r <;> exact finish_timed hleft _
  | semWait x t acquire =>
    have hleft := h.unlink_cancel (.sem x) w
    unfold afterGet Semaphore.waited
    dsimp only
    split
    · refine finish_timed (hleft.quiet ?_) _
      exact .same rfl rfl rfl rfl rfl
    · split
      · exact Semaphore.passed_timed hleft x _ acquire
      · refine finish_timed (hleft.quiet ?_) _
        exact .same rfl rfl rfl rfl rfl
  | queuePut q item t =>
    have hleft := h.unlink_cancel (.put q) w
    unfold afterGet Queue.putWaited
    cases r with
    | error v => exact finish_timed hleft _
    | ok => exact Queue.putItem_timed hleft q item
  | queueGet q t =>
    have hleft := h.unlink_cancel (.get q) w
    unfold afterGet Queue.getWaited
    cases r with
    | error v => exact finish_timed hleft _
    | ok => exact Queue.getItem_timed hleft q
  | hubWait x u k =>
    exact Hub.waitDone_timed (h.quiet (State.setWatcher_quiet (fun t => hk x u k t rfl) _)) _

theorem Waiter.done_timed {k : Call} (h : s.Flight H K c k.timeout) (hk : k.Apart) (w : WaiterId)
    (r : Except Value Value) : (Waiter.done s c w k r).Timed H K := by
  refine afterGet_timed (h.quiet ?_) hk w r
  exact .same rfl rfl rfl rfl rfl

/-! ## `waiter.get` -/

/-- One coroutine begins or ends to wait. -/
theorem State.calls_update {m : Mode} (hmode : s'.mode = Function.update s.mode c m) :
    (fun d => (s'.mode d).timeout) = Function.update (fun d => (s.mode d).timeout) c m.timeout := by
  ext d : 1
  rw [hmode]
  by_cases hd : d = c
  · subst hd
    rw [Function.update_self, Function.update_self]
  · rw [Function.update_of_ne hd, Function.update_of_ne hd]

theorem State.armed_update {m : Mode} (h : ∀ d, d ≠ c → s.Armed K d (s.mode d).timeout)
    (hc : s.Armed K c m.timeout) (hmode : s'.mode = Function.update s.mode c m) (hq : s.Ticks s') (d : Co) :
    s'.Armed K d (s'.mode d).timeout := by
  rw [hmode]
  by_cases hd : d = c
  · subst hd
    rw [Function.update_self]
    exact hc.ticks hq
  · rw [Function.update_of_ne hd]
    exact (h d hd).ticks hq

theorem State.apart_update {m : Mode} (h : ∀ d w k, s.mode d = .blocked w k → k.Apart)
    (hm : ∀ w k, m = .blocked w k → k.Apart) (hmode : s'.mode = Function.update s.mode c m) :
    ∀ d w k, s'.mode d = .blocked w k → k.Apart := by
  intro d w k hd
  rw [hmode] at hd
  by_cases hdc : d = c
  · subst hdc
    rw [Function.update_self] at hd
    exact hm w k hd
  · rw [Function.update_of_ne hdc] at hd
    exact h d w k hd

/-- The coroutine is suspended in its call. -/
theorem State.Flight.block {k : Call} (h : s.Flight H K c k.timeout) (hon : s.Armed K c k.timeout)
    (hk : k.Apart) (hmode : s'.mode = Function.update s.mode c (.blocked w k)) (hq : s.Ticks s') :
    s'.Timed H K := by
  refine ⟨?_, State.armed_update (fun d _ => h.armed d) hon hmode hq, State.apart_update h.apart ?_ hmode⟩
  · rw [State.calls_update hmode]
    exact h.owned.ticks hq
  · intro w' k' hm
    cases hm
    exact hk

/-- It leaves `waiter.get`, and is to cancel its timeout. -/
theorem State.TimersOwned.leave {k : Call} (h : s.TimersOwned H fun d => (s.mode d).timeout)
    (harmed : ∀ d, d ≠ c → s.Armed K d (s.mode d).timeout)
    (hapart : ∀ d w k, s.mode d = .blocked w k → k.Apart) (hc : s.mode c = .blocked w k)
    (hmode : s'.mode = Function.update s.mode c .running) (hq : s.Ticks s') : s'.Flight H K c k.timeout := by
  have hself : (fun d => (s.mode d).timeout) c = k.timeout := by
    dsimp only
    rw [hc]
    rfl
  have hnone : s.Armed K c Mode.running.timeout := by
    intro t ht
    cases ht
  refine ⟨?_, State.armed_update harmed hnone hmode hq, State.apart_update hapart ?_ hmode, ?_⟩
  · rw [State.calls_update hmode, Function.update_idem, ← hself, Function.update_eq_self]
    exact h.ticks hq
  · intro w' k' hm
    cases hm
  · rw [hmode, Function.update_self]
    simp [Mode.Out]

theorem Waiter.get_timed {k : Call} (h : s.Flight H K c k.timeout) (hon : s.Armed K c k.timeout)
    (hk : k.Apart) (w : WaiterId) : (Waiter.get s c w k).Timed H K := by
  unfold Waiter.get Hub._yield
  dsimp only
  split
  · split
    · refine Waiter.done_timed (h.quiet ?_) hk w _
      exact .same rfl rfl rfl rfl rfl
    · split
      · refine Waiter.done_timed (h.quiet ?_) hk w _
        exact .same rfl rfl rfl rfl rfl
      · exact h.block hon hk rfl (.same rfl rfl rfl rfl)
  · refine Waiter.done_timed (h.quiet ?_) hk w _
    exact .same rfl rfl rfl rfl rfl

theorem State.newLink_quiet (y : Sync) : s.Quiet (s.newLink y) := by
  obtain ⟨E, A, M, Q, he⟩ := s.newLink_frame y
  rw [he]
  exact .same rfl rfl rfl rfl rfl

/-- A call registers a waiter, starts its timer and waits. -/
theorem link_get_timed (h : s.Flight H K c none) (y : Sync) (sec : Option ℤ) (w : WaiterId)
    {k : TimeoutId → Call} (hk : ∀ t, (k t).timeout = some t ∧ (k t).Apart) :
    (Waiter.get (Timeout.startNew (s.newLink y) c sec).2 c w
      (k (Timeout.startNew (s.newLink y) c sec).1)).Timed H K := by
  obtain ⟨hstart, hon⟩ := Timeout.startNew_flight (h.quiet (State.newLink_quiet y)) sec
  rw [← (hk _).1] at hstart hon
  exact Waiter.get_timed hstart hon (hk _).2 w

/-! ## Calls -/

theorem Event.wait_timed (h : s.Flight H K c none) (e : EventId) (sec : Option ℤ) :
    (Event.wait s c e sec).Timed H K := by
  unfold Event.wait
  split
  · exact finish_timed h _
  · exact link_get_timed h (.event e) sec s.nextWaiter (k := .eventWait e) fun _ => ⟨rfl, by simp [Call.Apart]⟩

theorem AsyncResult.get_timed (h : s.Flight H K c none) (a : AsyncId) (sec : Option ℤ) :
    (AsyncResult.get s c a sec).Timed H K := by
  unfold AsyncResult.get
  split
  · obtain ⟨hstart, hon⟩ := Timeout.startNew_flight h sec
    have hq := State.newLink_quiet (s := (Timeout.startNew s c sec).2) (.async a)
    exact Waiter.get_timed (k := .asyncGet a _) (hstart.quiet hq) (hon.ticks hq.toTicks) (by simp [Call.Apart]) _
  · exact finish_timed h _

theorem Semaphore.wait_timed (h : s.Flight H K c none) (x : SemId) (sec : Option ℤ) (acquire : Bool)
    (hH : ∀ d u, H d u → H' d u) (hnew : ¬ 0 < (s.sem x).counter → H' c s.nextTimeout) :
    (Semaphore.wait s c x sec acquire).Timed H' K := by
  have hemit : s.Quiet (s.emit (.semCall x c (s.sem x).counter)) := .same rfl rfl rfl rfl rfl
  unfold Semaphore.wait
  dsimp only
  split
  · exact (Semaphore.passed_timed (h.quiet hemit) x none acquire).mono hH
  · rename_i hcounter
    -- the timeout is not canceled when `xpcall` raises
    have hq := hemit.trans (State.newLink_quiet (.sem x))
    have hnext := hq.next
    obtain ⟨hstart, -⟩ := Timeout.startNew_flight (h.quiet hq) sec
    have hdrop := hstart.drop hH (by
      change H' c ((s.emit (.semCall x c (s.sem x).counter)).newLink (.sem x)).nextTimeout
      rw [hnext]
      exact hnew hcounter)
    refine finish_timed (hdrop.quiet ?_) _
    exact .same rfl rfl rfl rfl rfl

theorem Queue.put_timed (h : s.Flight H K c none) (q : QueueId) (item : Value) (sec : Option ℤ) :
    (Queue.put s c q item sec).Timed H K := by
  unfold Queue.put
  split
  · exact Queue.putItem_timed h q item
  · exact link_get_timed h (.put q) sec s.nextWaiter (k := .queuePut q item) fun _ => ⟨rfl, by simp [Call.Apart]⟩

theorem Queue.get_timed (h : s.Flight H K c none) (q : QueueId) (sec : Option ℤ) :
    (Queue.get s c q sec).Timed H K := by
  unfold Queue.get
  split
  · exact Queue.getItem_timed h q
  · exact link_get_timed h (.get q) sec s.nextWaiter (k := .queueGet q) fun _ => ⟨rfl, by simp [Call.Apart]⟩

theorem Hub.wait_timed {k : HubCaller} (h : s.Flight H K c k.timeout) (hon : s.Armed K c k.timeout)
    (hx : ∀ t, x ≠ .timeout t) : (Hub.wait s c x k).Timed H K := by
  have hnew : s.Quiet s.waitNew := .same rfl rfl rfl rfl rfl
  rw [Hub.wait_eq]
  split
  · have hstart : s.Quiet (s.waitStart x) := hnew.trans (State.setWatcher_quiet hx _)
    refine Waiter.get_timed (k := .hubWait x s.nextUuid k) (h.quiet hstart) (hon.ticks hstart.toTicks) ?_ _
    rintro y u k' t ⟨rfl, rfl, rfl⟩
    exact hx t
  · exact Hub.waitDone_timed (h.quiet hnew) _

theorem sleep_timed (h : s.Flight H K c none) : (sleep s c).Timed H K := by
  have hq : s.Quiet { s with nextSleep := s.nextSleep + 1 } := .same rfl rfl rfl rfl rfl
  exact Hub.wait_timed (k := .sleep) (h.quiet hq) (by simp [State.Armed, HubCaller.timeout]) (by simp)

theorem SockCall.watcher_ne (i : SockId) (f : SockCall) (t : TimeoutId) : f.watcher i ≠ .timeout t := by
  cases f <;> simp [SockCall.watcher]

theorem Socket._wait_timed (h : s.Flight H K c none) (i : SockId) (f : SockCall) :
    (Socket._wait s c i f).Timed H K := by
  unfold Socket._wait
  dsimp only
  split
  · obtain ⟨hstart, hon⟩ := Timeout.startNew_flight h (s.sock i).timeout
    exact Hub.wait_timed (k := .sock i f (some _)) hstart hon (SockCall.watcher_ne i f)
  · exact Hub.wait_timed (k := .sock i f none) h (by simp [State.Armed, HubCaller.timeout]) (SockCall.watcher_ne i f)

theorem Socket.new_timed (h : s.Flight H K c none) : (Socket.new s c).Timed H K := by
  unfold Socket.new
  refine finish_timed (h.quiet ?_) _
  exact .same rfl rfl rfl rfl rfl

theorem Socket.start_timed (h : s.Flight H K c none) (i : SockId) (f : SockCall) :
    (Socket.start s c i f).Timed H K := by
  unfold Socket.start
  split
  · split
    · exact Socket.call_timed h i _
    · exact finish_timed h _
  · exact Socket.call_timed h i _

theorem Socket.answered_timed (h : s.Flight H K c none) (i : SockId) (v : Value) (f : SockCall) :
    (Socket.answered s c i v f).Timed H K := by
  unfold Socket.answered
  split
  · exact Socket.new_timed h
  · exact finish_timed h _
  · split
    · exact Socket.call_timed h i _
    · exact finish_timed h _
  · exact finish_timed h _

theorem Socket.step_timed (h : s.Timed H K) {i : SockId} {f : SockCall} (hc : s.mode c = .sys i f)
    (r : SysResult) : (Socket.step s c i f r).Timed H K := by
  have hout : (s.mode c).Out := by simp [Mode.Out, hc]
  have hrun : (s.setMode c .running).Flight H K c none := by
    refine (h.flight hout).quiet (.update hout (m := .running) ?_ rfl (.same rfl rfl rfl rfl))
    simp [Mode.Out]
  unfold Socket.step
  dsimp only
  generalize s.setMode c .running = s₁ at hrun
  cases r with
  | ok v => exact Socket.answered_timed hrun i v f
  | err e =>
    dsimp only
    unfold Socket.refused
    split
    · split
      · exact Socket._wait_timed hrun i _
      · exact finish_timed hrun _
    · split
      · exact finish_timed hrun _
      · split
        · exact finish_timed hrun _
        · exact Socket._wait_timed hrun i _
    · split
      · exact Socket._wait_timed hrun i _
      · exact finish_timed hrun _

/-- The timeout goes over to the `timeout.run`. -/
theorem State.Flight.push (h : s.Flight H K c (some t)) :
    (s.setStack c (.timeoutRun t :: s.stack c)).Flight H K c none := by
  have hown : Function.update (fun d => (s.mode d).timeout) c (some t) c = some t := Function.update_self _ _ _
  have hmem : ∀ {d u}, .timeoutRun u ∈ (s.setStack c (.timeoutRun t :: s.stack c)).stack d ↔
      (d = c ∧ u = t) ∨ .timeoutRun u ∈ s.stack d := by
    intro d u
    by_cases hd : d = c
    · subst hd
      simp [State.setStack]
    · simp [State.setStack, hd]
  refine ⟨⟨h.owned.fresh, fun d u hd => h.owned.made d u (calls_back hd), fun d u hd => ?_,
    fun d d' u hd hd' => h.owned.alone d d' u (calls_back hd) (calls_back hd'), fun d d' u hd hrun => ?_,
    fun u hu => ?_⟩, h.armed, h.apart, h.out⟩
  · rcases hmem.1 hd with ⟨rfl, rfl⟩ | hd
    · exact h.owned.made d u hown
    · exact h.owned.runs d u hd
  · rcases hmem.1 hrun with ⟨rfl, rfl⟩ | hrun
    · exact (calls_none.1 hd).1 (h.owned.alone d d' u (calls_back hd) hown)
    · exact h.owned.apart d d' u (calls_back hd) hrun
  · obtain ⟨htimer, d, hring, howner⟩ := h.owned.active u hu
    refine ⟨htimer, d, hring, ?_⟩
    rcases howner with hd | hd | hd
    · rcases calls_some.1 hd with hd | hd
      · exact .inr (.inl (hmem.2 (.inl hd)))
      · exact .inl (calls_none.2 hd)
    · exact .inr (.inl (hmem.2 (.inr hd)))
    · exact .inr (.inr hd)

theorem Timeout.run_timed (h : s.Flight H K c none) (sec : Option ℤ) : (Timeout.run s c sec).Timed H K :=
  (Timeout.startNew_flight h sec).1.push.timed

/-! ## A coroutine is resumed -/

theorem coResume_timed (h : s.Timed H K) (c : Co) (args : List Value) : (coResume s c args).Timed H K := by
  unfold coResume
  split
  · rename_i hc
    exact (h.flight (by simp [Mode.Out, hc])).goes (m := .ready none) (by simp [Mode.Out]) rfl (.same rfl rfl rfl rfl)
  · rename_i hc
    exact (h.flight (by simp [Mode.Out, hc])).goes (m := .dead) (by simp [Mode.Out]) rfl (.same rfl rfl rfl rfl)
  · rename_i f hc
    exact (h.flight (by simp [Mode.Out, hc])).goes (m := .running) (by simp [Mode.Out]) rfl (.same rfl rfl rfl rfl)
  · rename_i w k hc
    have hleave : (({ s with waiters := Function.update s.waiters c none, cur := some c } : State).setMode c
        .running).Flight H K c k.timeout :=
      h.owned.leave (fun d _ => h.armed d) h.apart hc rfl (.same rfl rfl rfl rfl)
    exact Waiter.done_timed hleave (h.apart c w k hc) w _
  all_goals exact h

theorem Waiter._switch_timed (h : s.Timed H K) (w : WaiterId) (v e : Value) :
    (Waiter._switch s w v e).1.Timed H K := by
  have hset : ∀ o, ((s.setWaiter w o).emit (.settled w v e)).Timed H K := by
    intro o
    refine h.quiet ?_
    exact .same rfl rfl rfl rfl rfl
  unfold Waiter._switch
  split
  · exact h
  · split
    · exact h
    · dsimp only
      split
      · exact hset _
      · split
        · exact hset _
        · split
          · exact hset _
          · exact coResume_timed (hset _) _ _

theorem Hub.throw_timed (h : s.Timed H K) (c : Co) (e : Value) : (Hub.throw s c e).1.Timed H K := by
  unfold Hub.throw
  split
  · exact h
  · exact Waiter._switch_timed h _ _ _

/-! ## Callbacks -/

/-- A timer that has fired does not run any more, and the others run as before. -/
theorem State.TimersOwned.expire {p : Co → Option TimeoutId} (h : s.TimersOwned H p) (t : TimeoutId) :
    (Loop.expire s (.timeout t)).TimersOwned H p := by
  have hself : (Loop.expire s (.timeout t)).watcher (.timeout t) = ⟨(s.watcher (.timeout t)).cb, false⟩ :=
    Function.update_self _ _ _
  have hother : ∀ u, u ≠ t → (Loop.expire s (.timeout t)).watcher (.timeout u) = s.watcher (.timeout u) :=
    fun u hu => Function.update_of_ne (by simpa using hu) _ _
  refine ⟨fun u hu => ?_, h.made, h.runs, h.alone, h.apart, fun u hu => ?_⟩
  · have hfresh := h.fresh u hu
    by_cases hut : u = t
    · subst hut
      rw [hself, hfresh]
    · rw [hother u hut, hfresh]
  · have hut : u ≠ t := by
      rintro rfl
      rw [hself] at hu
      cases hu
    rw [hother u hut] at hu
    obtain ⟨htimer, c, hring, howner⟩ := h.active u hu
    exact ⟨htimer, c, (hother u hut).trans hring, howner⟩

theorem State.Armed.expire (h : s.Armed K c o) (ho : o = some t → K t) :
    (Loop.expire s (.timeout t)).Armed K c o := by
  intro u hu htimer
  by_cases hut : u = t
  · subst hut
    exact .inl (ho hu)
  · have hother : (Loop.expire s (.timeout t)).watcher (.timeout u) = s.watcher (.timeout u) :=
      Function.update_of_ne (by simpa using hut) _ _
    exact (h u hu htimer).imp_right hother.trans

/-- A timer fires, of which no call depends. -/
theorem Loop.expire_timed (h : s.Timed H K) (hx : ∀ t c, x = .timeout t → (s.mode c).timeout = some t → K t) :
    (Loop.expire s x).Timed H K := by
  cases x with
  | timeout t => exact ⟨h.owned.expire t, fun c => (h.armed c).expire (hx t c rfl), h.apart⟩
  | sleep n => exact h.quiet (State.setWatcher_quiet (by simp) _)
  | read | write => exact h

/-- The timeout of a call expires, and `hub:throw` ends the call. -/
theorem Loop.fire_call (hs : s.Sound) (h : s.Timed H K) (hcur : s.cur = none) (hring : s.Rings t c)
    (hcall : (s.mode c).timeout = some t) : (Loop.fire s (.timeout t)).Timed H K := by
  obtain ⟨w, k, hc⟩ : ∃ w k, s.mode c = .blocked w k := by
    cases hm : s.mode c with
    | blocked w k => exact ⟨w, k, rfl⟩
    | _ =>
      rw [hm] at hcall
      cases hcall
  have hc' : (Loop.expire s (.timeout t)).mode c = .blocked w k := hc
  have hhub : (Loop.expire s (.timeout t)).HubInv :=
    hs.hub.micro (R := Rules.free) (.env none s _ (Loop.expire_env _)) hs.pool
  have hleave : ((Loop.expire s (.timeout t)).resume c w .nil (.exn (.timeout t))).Flight H K c k.timeout := by
    refine (h.owned.expire t).leave (fun d hd => ?_) h.apart hc' rfl (.same rfl rfl rfl rfl)
    exact (h.armed d).expire fun hdt => absurd (h.owned.alone d c t hdt hcall) hd
  have hfire : Loop.fire s (.timeout t) = (Hub.throw (Loop.expire s (.timeout t)) c (.exn (.timeout t))).1 := by
    unfold Loop.fire
    rw [hring]
  rw [hfire, Hub.throw_blocked hhub hcur hc']
  exact afterGet_timed hleave (h.apart c w k hc) w _

theorem Loop.fire_timed (hs : s.Sound) (h : s.Timed H K) (hcur : s.cur = none)
    (hx : (s.watcher x).active = true) : (Loop.fire s x).Timed H K := by
  by_cases hcall : ∃ t c, x = .timeout t ∧ s.Rings t c ∧ (s.mode c).timeout = some t
  · obtain ⟨t, c, rfl, hring, hc⟩ := hcall
    exact Loop.fire_call hs h hcur hring hc
  · have hexpire : (Loop.expire s x).Timed H K := by
      refine Loop.expire_timed h fun t c hxt hc => ?_
      subst hxt
      have htimer := (h.owned.active t hx).1
      exact (h.armed c t hc htimer).resolve_right fun hring => hcall ⟨t, c, rfl, hring, hc⟩
    unfold Loop.fire
    split
    · exact Waiter._switch_timed hexpire _ _ _
    · exact Hub.throw_timed hexpire _ _
    · exact hexpire

theorem Loop.begin_timed (h : s.Timed H K) (cb : Callback) : (Loop.begin s cb).Timed H K := by
  cases cb with
  | notify y | user =>
    refine h.quiet ?_
    exact .same rfl rfl rfl rfl rfl
  | throw c e target =>
    have hemit : (s.emit (.killed target (s.task c))).Timed H K := by
      refine h.quiet ?_
      exact .same rfl rfl rfl rfl rfl
    have hthrow := Hub.throw_timed hemit c (.exn e)
    unfold Loop.begin
    dsimp only
    split
    · rename_i s' heq
      rwa [heq] at hthrow
    · exact Hub.throw_timed h c _
  | resume c args => exact coResume_timed h c args
  | cancelWait x err =>
    change (Hub._cancelWait s x err).1.Timed H K
    unfold Hub._cancelWait
    split
    · split
      · exact Waiter._switch_timed h _ _ _
      · exact h
    · exact h

theorem wake_timed (h : s.Timed H K) (y : Sync) (w : WaiterId) : (wake s y w).Timed H K := by
  have hemit : (s.emit (.notified y w)).Timed H K := by
    refine h.quiet ?_
    exact .same rfl rfl rfl rfl rfl
  have hswitch : (Waiter.switch (s.emit (.notified y w)) w (.bool true)).1.Timed H K :=
    Waiter._switch_timed hemit w (.bool true) .nil
  unfold wake
  split
  · rename_i s' heq
    rwa [heq] at hswitch
  · rename_i s' v heq
    rw [heq] at hswitch
    have hs' : s'.Timed H K := hswitch
    refine hs'.quiet ?_
    exact .same rfl rfl rfl rfl rfl

theorem Event.set_quiet (e : EventId) : s.Quiet (Event.set s e) := by
  obtain ⟨E, C, L, he, -⟩ := Event.set_frame s e
  rw [he]
  exact .same rfl rfl rfl rfl rfl

theorem Sync.notify_timed (h : s.Timed H K) {y : Sync} {w : Option WaiterId} (hn : y.notify s w = some s') :
    s'.Timed H K := by
  have hend : ∀ s : State, s.Quiet (endNotify s y) := by
    intro s
    obtain ⟨E, Q, he⟩ := endNotify_frame s y
    rw [he]
    exact .same rfl rfl rfl rfl rfl
  rcases Sync.notify_cases hn with ⟨-, -, -, -, -, rfl | ⟨q, rfl, -, rfl⟩⟩ | ⟨v, -, -, -, -, rfl⟩
  · exact h.quiet (hend s)
  · exact h.quiet ((Event.set_quiet _).trans (hend _))
  · obtain ⟨E, he⟩ := s.take_frame y v
    have htake : s.Quiet (s.take y v) := by
      rw [he]
      exact .same rfl rfl rfl rfl rfl
    exact wake_timed (h.quiet htake) y v

/-! ## One step -/

theorem coRawCreate_quiet (hs : s.Sound) : s.Quiet (Coroutines.coRawCreate s) := by
  have hunused : s.mode (s.total + 1) = .unused := hs.pool.unused.2 (Nat.lt_succ_self _)
  exact .update (c := s.total + 1) (m := .pooled) (by simp [Mode.Out, hunused]) (by simp [Mode.Out])
    rfl (.same rfl rfl rfl rfl)

theorem check_quiet (hs : s.Sound) (n : ℕ) : s.Quiet (Coroutines.coRawCreate^[n] s) := by
  induction n generalizing s with
  | zero => exact .refl
  | succ n ih =>
    have hm : Micro Rules.free none s none (Coroutines.coRawCreate s) := .rawCreate s
    exact (coRawCreate_quiet hs).trans (ih (hs.micro hm))

theorem spawn_timed (hs : s.Sound) (ht : s.Turn c) (h : s.Flight H K c none) (args : List Value) :
    (spawn s c args).Timed H K := by
  obtain ⟨s₀, co, hor, -, -, -, hco, -, hspawn⟩ := spawn_pooled hs ht args
  have hq : s.Quiet s₀ := by
    rcases hor with rfl | rfl
    · exact .refl
    · exact coRawCreate_quiet hs
  have hspawned : s₀.Quiet (s₀.spawned co args) :=
    .update (c := co) (m := .ready (some s₀.nextTask)) (by simp [Mode.Out, hco]) (by simp [Mode.Out])
      rfl (.same rfl rfl rfl rfl)
  rw [hspawn]
  exact finish_timed (h.quiet (hq.trans hspawned)) _

/-- The call leaves a timer to nobody: the code starts the timer itself, or `Semaphore:wait`
    raises before it can cancel it. -/
def Op.leaves (s : State) : Op → Bool
  | .timeoutStartNew _ => true
  | .semWait x _ _ => decide ((s.sem x).counter ≤ 0)
  | _ => false

theorem plain_timed (h : s₁.Flight H K c none) : (plain s c (.ok s₁)).Timed H K := finish_timed h (.ok [])

theorem set_timed {a : AsyncId} {v e : Value} {r : Except Value State} (h : s.Flight H K c none)
    (hr : ∀ s₁, r = .ok s₁ → AsyncResult._set s a v e = .ok s₁) : (plain s c r).Timed H K := by
  cases r with
  | error v => exact raise_timed h v
  | ok s₁ =>
    obtain ⟨o, C, rfl, -⟩ := AsyncResult._set_frame s (hr s₁ rfl)
    refine plain_timed (h.quiet ?_)
    exact .same rfl rfl rfl rfl rfl

theorem Op.exec_timed (hs : s.Sound) (ht : s.Turn c) (h : s.Timed H K) {o : Op}
    (hstep : o.exec s c = some s') (hraw : ¬ o.Raw) (hH : ∀ d u, H d u → H' d u)
    (hnew : o.leaves s = true → H' c s.nextTimeout) (hK : ∀ u, o = .timeoutCancel u → K u) :
    s'.Timed H' K := by
  have hc : s.Flight H K c none := h.flight (by simp [Mode.Out, ht.1])
  have hplain : ∀ {s₁ : State}, s.Quiet s₁ → (plain s c (.ok s₁)).Timed H' K := fun hq =>
    (plain_timed (hc.quiet hq)).mono hH
  cases o with
  | eventSet e =>
    cases hstep
    exact hplain (Event.set_quiet e)
  | eventWait e sec =>
    cases e with
    | user n =>
      cases hstep
      exact (Event.wait_timed hc _ sec).mono hH
    | cond q => cases hstep
  | asyncSet a v =>
    cases hstep
    exact (set_timed (a := a) (v := v) (e := .nil) hc fun _ hr => hr).mono hH
  | asyncSetException a v =>
    cases hstep
    refine (set_timed (a := a) (v := .nil) (e := v) hc fun s₁ hr => ?_).mono hH
    unfold AsyncResult.setException at hr
    split at hr
    · exact hr
    · cases hr
  | asyncGet a sec =>
    cases hstep
    exact (AsyncResult.get_timed hc a sec).mono hH
  | semRelease x =>
    cases hstep
    obtain ⟨M, C, L, he, -⟩ := Semaphore.release_frame s x
    refine hplain ?_
    rw [he]
    exact .same rfl rfl rfl rfl rfl
  | semWait x sec acquire =>
    cases hstep
    refine Semaphore.wait_timed hc x sec acquire hH fun hx => hnew ?_
    simpa [Op.leaves] using hx
  | queuePut q item sec =>
    simp only [Op.exec] at hstep
    split at hstep
    · cases hstep
      exact (Queue.put_timed hc q item sec).mono hH
    · cases hstep
  | queueGet q sec =>
    simp only [Op.exec] at hstep
    split at hstep
    · cases hstep
      exact (Queue.get_timed hc q sec).mono hH
    · cases hstep
  | queueJoin q sec =>
    simp only [Op.exec] at hstep
    split at hstep
    · cases hstep
      exact (Event.wait_timed hc _ sec).mono hH
    · cases hstep
  | sleep =>
    cases hstep
    exact (sleep_timed hc).mono hH
  | socket =>
    cases hstep
    exact (Socket.new_timed hc).mono hH
  | socketCall i f =>
    cases hstep
    exact (Socket.start_timed hc i f).mono hH
  | socketClose i =>
    cases hstep
    refine hplain ?_
    unfold Socket.close
    split
    · exact .refl
    · exact .same rfl rfl rfl rfl rfl
  | spawn args =>
    cases hstep
    exact (spawn_timed hs ht hc args).mono hH
  | kill co target =>
    simp only [Op.exec] at hstep
    split at hstep
    · cases hstep
      exact hplain (.same rfl rfl rfl rfl rfl)
    · cases hstep
  | check n =>
    cases hstep
    exact hplain (check_quiet hs _)
  | timeoutStartNew sec =>
    cases hstep
    obtain ⟨hstart, -⟩ := Timeout.startNew_flight hc sec
    exact plain_timed (hstart.drop hH (hnew rfl))
  | timeoutCancel u =>
    cases hstep
    exact (plain_timed (hc.cancel_other fun _ _ => hK u rfl)).mono hH
  | timeoutRun sec =>
    cases hstep
    exact (Timeout.run_timed hc sec).mono hH
  | pcall =>
    cases hstep
    have hleft := hc.setStack (.pcall :: s.stack c) (by simp) (by simp +contextual)
    exact hleft.timed.mono hH
  | returns vs =>
    cases hstep
    exact (returns_timed hc vs).mono hH
  | error v =>
    cases hstep
    exact (finish_timed hc _).mono hH
  | eventClear | socketSetTimeout | runCallback =>
    cases hstep
    exact hplain (.same rfl rfl rfl rfl rfl)
  | waiter | waiterGet | waiterSwitch | waiterThrow | hubSwitch | hubThrow => exact absurd trivial hraw

/-- The timer that the step leaves to nobody, and the coroutine it will throw at. -/
def leaves (s : State) : Act → Option (Co × TimeoutId)
  | .op o => if o.leaves s then s.userTurn.map fun c => (c, s.nextTimeout) else none
  | _ => none

/-- **One step**, and the timers. -/
theorem step_timed (hs : s.Sound) (h : s.Timed H K) {a : Act} (hstep : step s a = some s') (hraw : ¬ a.Raw)
    (hK : ∀ t, a = .op (.timeoutCancel t) → K t) :
    s'.Timed (fun c t => H c t ∨ leaves s a = some (c, t)) K := by
  have hH : ∀ c t, H c t → H c t ∨ leaves s a = some (c, t) := fun _ _ => .inl
  unfold step at hstep
  cases a with
  | callback =>
    dsimp only at hstep
    split at hstep
    · split at hstep
      · cases hstep
      · cases hstep
        refine (Loop.begin_timed (h.quiet ?_) _).mono hH
        exact .same rfl rfl rfl rfl rfl
    · cases hstep
  | fire x =>
    dsimp only at hstep
    split at hstep
    · rename_i hb
      cases hstep
      exact (Loop.fire_timed hs h hb.1.2 hb.2).mono hH
    · cases hstep
  | enter =>
    dsimp only at hstep
    split at hstep
    · cases hstep
      refine (h.quiet ?_).mono hH
      exact .same rfl rfl rfl rfl rfl
    · cases hstep
  | next w =>
    dsimp only at hstep
    split at hstep
    · exact (Sync.notify_timed h hstep).mono hH
    · cases hstep
  | op o =>
    dsimp only at hstep
    split at hstep
    · rename_i c hc
      refine Op.exec_timed hs (hs.user_turn hc) h hstep hraw hH (fun ho => .inr ?_) fun t ho => hK t (by rw [ho])
      rw [leaves, if_pos ho, hc]
      rfl
    · cases hstep
  | sys r =>
    dsimp only at hstep
    split at hstep
    · rename_i i f hc
      cases hstep
      exact (Socket.step_timed h hc r).mono hH
    · cases hstep

/-! ## Runs -/

theorem State.init_timed (value : SemId → ℕ) (maxsizes : List (Option ℤ)) (K : TimeoutId → Prop) :
    (State.init value maxsizes).Timed (fun _ _ => False) K := by
  obtain ⟨E, C, L, Q, n, hs⟩ := (State.init_initial value maxsizes).frame
  rw [hs]
  have hout : ∀ c, ((State.fresh value).mode c).Out := by
    intro c
    by_cases hc : c = 0 <;> simp [State.fresh, Mode.Out, hc]
  have hnone : ∀ c, ((State.fresh value).mode c).timeout = none := fun c => (hout c).timeout
  have hno : ∀ {c t}, ((State.fresh value).mode c).timeout ≠ some t := by
    intro c t hc
    rw [hnone] at hc
    cases hc
  refine ⟨⟨fun t _ => rfl, fun c t hc => absurd hc hno, fun c t hc => ?_, fun c d t hc => absurd hc hno,
    fun c d t hc => absurd hc hno, fun t ht => ?_⟩, fun c t hc => absurd hc hno, fun c w k hk => ?_⟩
  · cases hc
  · cases ht
  · exact absurd hk (hout c w k)

/-- **Timers end with their calls.**  In every run, a timer that runs will throw at a coroutine that is
    in the call or the `timeout.run` that has started it, except those that a step has left to nobody;
    and a call with a timeout has its timer running as long as it waits, unless the code cancels it. -/
theorem timers_in_scope (hrun : run step (State.init value maxsizes) as = some s) (hraw : ∀ a ∈ as, ¬ a.Raw) :
    (∀ t, Watcher.isActive s (.timeout t) = true → ∃ c, s.Rings t c ∧
      (s.InScope c t ∨ (c, t) ∈ collect step leaves (State.init value maxsizes) as)) ∧
      ∀ c t, (s.mode c).timeout = some t → Timeout.hasTimer (s.seconds t) = true →
        .op (.timeoutCancel t) ∈ as ∨ s.Rings t c := by
  have h0 := State.init_initial value maxsizes
  have h := Lib.run_collect_inv (f := leaves) (C := fun _ a => a ∈ as) (l := [])
    (I := fun l u => u.Sound ∧ u.Timed (fun c t => (c, t) ∈ l) fun t => Act.op (.timeoutCancel t) ∈ as) ?_
    ⟨h0.sound, (State.init_timed value maxsizes _).mono fun _ _ => False.elim⟩ (.of_forall fun _ _ => id) hrun
  · obtain ⟨-, htimed⟩ := h
    refine ⟨fun t ht => ?_, htimed.armed⟩
    obtain ⟨-, c, hring, howner⟩ := htimed.owned.active t ht
    exact ⟨c, hring, or_assoc.2 howner⟩
  rintro l u a u' ⟨hu, htimed⟩ ha hstep
  refine ⟨hu.micros (step_micros hu hstep (.free (hraw a ha))), ?_⟩
  refine (step_timed hu htimed hstep (hraw a ha) ?_).mono fun c t hct => List.mem_append.2 ?_
  · rintro t rfl
    exact ha
  · exact hct.imp_right Option.mem_toList.2

/-- A task waits for an item in a `timeout.run`, both with a timeout, and another for a semaphore. -/
def waitsInRun : List Act :=
  [.callback, .next none, .enter, .op (.spawn []), .op (.spawn []), .op (.returns []), .callback,
    .op (.timeoutRun (some 2)), .op (.queueGet 0 (some 1)), .callback, .op (.semWait 0 (some 3) false)]

theorem timers_in_scope_waitsInRun :
    ∃ s, run step (State.init (fun _ => 0) [none]) waitsInRun = some s ∧
      (∀ t, Watcher.isActive s (.timeout t) = true → ∃ c, s.Rings t c ∧
        (s.InScope c t ∨ (c, t) ∈ collect step leaves (State.init (fun _ => 0) [none]) waitsInRun)) ∧
      (∀ c t, (s.mode c).timeout = some t → Timeout.hasTimer (s.seconds t) = true →
        .op (.timeoutCancel t) ∈ waitsInRun ∨ s.Rings t c) ∧
      collect step leaves (State.init (fun _ => 0) [none]) waitsInRun = [(2, 2)] := by
  have h : run step (State.init (fun _ => 0) [none]) waitsInRun = some _ := rfl
  obtain ⟨h1, h2⟩ := timers_in_scope h (by simp [waitsInRun, Act.Raw, Op.Raw])
  exact ⟨_, h, h1, h2, rfl⟩

end Levent
