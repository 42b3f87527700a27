/-
  Every step of a process is a sequence of micro steps, so that the invariants
  of micro steps hold along its runs.
-/
import Levent.Runtime.Shape

namespace Levent

variable {R : Rules} {p p' : Pend} {s s' : State} {c : Co}

/-! ## Sound states -/

/-- The invariants every operation relies on. -/
structure State.Sound (s : State) : Prop where
  hub : s.HubInv
  pool : s.PoolInv
  fresh : s.FreshInv

theorem State.Sound.micro (hm : Micro R p s p' s') (h : s.Sound) : s'.Sound :=
  ⟨h.hub.micro hm h.pool, h.pool.micro hm h.hub, h.fresh.micro hm⟩

theorem State.Sound.micros (hm : Micros R p s p' s') (h : s.Sound) : s'.Sound :=
  hm.inv (I := fun _ s => s.Sound) State.Sound.micro h

/-- No waiter is left in `hub.waiters` for a task that runs. -/
theorem State.Sound.no_entry (h : s.Sound) (ht : s.Turn c) : c ≠ 0 → s.waiters c = none :=
  h.hub.turn_entry ht

/-! ## Waiting -/

/-- What `Hub:_yield` raises in the main coroutine: it cannot yield; the attempt leaves an
    entry, and while that is there the assertion fails, whose message is the coroutine. -/
def State.mainError (s : State) : Value :=
  if (s.waiters 0).isSome then .thread 0 else .str "attempt to yield from outside a coroutine"

theorem Waiter.get_main (k : Call) {w : WaiterId} (hx : (s.waiter w).exception = .bool false) :
    Waiter.get s 0 w k = afterGet (s.mainGet w s.mainError) 0 w k (.error s.mainError) := by
  unfold Waiter.get; dsimp only
  rw [if_pos (show ((s.emit _).waiter w).exception = _ from hx)]
  unfold Hub._yield Waiter.done
  split
  · rename_i h
    have h' : (s.waiters 0).isSome := h
    simp [State.mainError, State.mainGet, h']
    rfl
  · rename_i h
    have h' : ¬ (s.waiters 0).isSome := h
    simp [State.mainError, State.mainGet, h']
    rfl

theorem Waiter.get_task (k : Call) {w : WaiterId} (hx : (s.waiter w).exception = .bool false)
    (hc : c ≠ 0) (he : s.waiters c = none) : Waiter.get s c w k = s.block c w k := by
  unfold Waiter.get; dsimp only
  rw [if_pos (show ((s.emit _).waiter w).exception = _ from hx)]
  unfold Hub._yield
  rw [if_neg (by simp [State.setWaiter, State.emit, he])]
  simp only [hc, if_false]
  rfl

/-- A call waits on a waiter of its own. -/
theorem Waiter.get_micros {k : Call} {w : WaiterId} (ht : s.Turn c)
    (he : c ≠ 0 → s.waiters c = none) (hn : (s.waiter w).New) (hw : w < s.nextWaiter) :
    Micros R (k.pend w) s none (Waiter.get s c w k) := by
  by_cases hc : c = 0
  · subst hc
    rw [Waiter.get_main k hn.2]
    refine (Micro.mainGet _ s w s.mainError ht hn hw).one.trans (afterGet_micros ?_ (Or.inr (by simp)))
    exact ht
  · rw [Waiter.get_task k hn.2 hc (he hc)]
    exact (Micro.block s c w k ht hc (he hc) hw hn).one

/-- `w:get()` of a settled waiter. -/
theorem Waiter.get_settled_micros {w : WaiterId} (ht : s.Turn c)
    (hx : (s.waiter w).exception ≠ .bool false) (hg : ∀ c, .getCall w c ∉ s.log) :
    Micros R none s none (Waiter.get s c w .get) := by
  unfold Waiter.get; dsimp only
  rw [if_neg (show ¬ ((s.emit _).waiter w).exception = _ from hx)]
  refine (Micro.settledGet s w c hx hg).one.trans (finish_micros ?_ _)
  exact ht

theorem State.Turn.newLink (ht : s.Turn c) (y : Sync) : (s.newLink y).Turn c := by
  obtain ⟨E, A, M, Q, he⟩ := s.newLink_frame y
  rw [he]; exact ht

/-- The waiter made for a call is new, and the call has no other entry. -/
theorem State.newLink_new (y : Sync) :
    ((s.newLink y).waiter s.nextWaiter).New ∧ s.nextWaiter < (s.newLink y).nextWaiter ∧
      (s.newLink y).waiters = s.waiters := by
  obtain ⟨E, A, M, Q, he⟩ := s.newLink_frame y
  rw [he]
  exact ⟨by simp [Hub.waiter, State.setWaiter, Waiter.New, Waiter._init], Nat.lt_succ_self _, rfl⟩

/-- A call registers a waiter, starts its timer and waits. -/
theorem link_get_micros {y : Sync} {k : Call} (ht : s.Turn c) (he : c ≠ 0 → s.waiters c = none)
    (hy : ∀ x, y ≠ .sem x) (hput : ∀ q, y = .put q → ¬ (s.queue q).hasRoom)
    (hget : ∀ q, y = .get q → (s.queue q).length = 0)
    (hasync : ∀ a, y = .async a → (s.async a).exception = .bool false) (hk : k.sync = some y)
    (h : (s.newLink y).EnvStep none s') :
    Micros R none s none (Waiter.get s' c s.nextWaiter k) := by
  have h1 := (Micro.link (R := R) s y hy hput hget hasync).one
  obtain ⟨hn, hlt, hws⟩ := s.newLink_new y
  have hp : k.pend s.nextWaiter = some (y, s.nextWaiter) := Call.pend_eq.2 ⟨hk, rfl⟩
  have ht1 := (ht.newLink y).env h
  refine (h1.trans (Micros.env h)).trans (hp ▸ Waiter.get_micros ht1 (fun hc => ?_) ?_ ?_)
  · rw [h.eq]
    show (s.newLink y).waiters c = none
    rw [hws]; exact he hc
  · rw [h.eq]; exact hn
  · rw [h.eq]; exact hlt

theorem Event.wait_micros (hs : s.Sound) (ht : s.Turn c) (e : EventId) (sec : Option ℤ) :
    Micros R none s none (Event.wait s c e sec) := by
  unfold Event.wait
  split
  · exact finish_micros ht _
  · exact link_get_micros ht (hs.no_entry ht) (by simp) (by simp) (by simp) (by simp) rfl
      (Timeout.startNew_env c sec)

theorem AsyncResult.get_micros (hs : s.Sound) (ht : s.Turn c) (a : AsyncId) (sec : Option ℤ) :
    Micros R none s none (AsyncResult.get s c a sec) := by
  have h1 : s.EnvStep none (Timeout.startNew s c sec).2 := Timeout.startNew_env c sec
  unfold AsyncResult.get
  split
  · rename_i hx
    refine (Micros.env h1).trans ?_
    exact link_get_micros (y := .async a) (ht.env h1) ((hs.micros (Micros.env (R := R) (p := none) h1)).no_entry
      (ht.env h1)) (by simp) (by simp) (by simp) (by rintro a' ⟨⟩; rw [h1.eq]; exact hx) rfl .refl
  · exact finish_micros ht _

theorem Semaphore.wait_micros (ht : s.Turn c) (x : SemId) (sec : Option ℤ) (acquire : Bool) :
    Micros R none s none (Semaphore.wait s c x sec acquire) := by
  unfold Semaphore.wait; dsimp only
  split
  · rename_i hx
    refine (Micro.semPass s x c hx).one.trans (Semaphore.acquired_micros ?_ ?_ acquire)
    · exact ht
    · exact hx
  · rename_i hx
    have ht1 : (s.emit (.semCall x c (s.sem x).counter)).Turn c := ht
    have h1 : ((s.emit (.semCall x c (s.sem x).counter)).newLink (.sem x)).EnvStep none
        (Timeout.startNew ((s.emit (.semCall x c (s.sem x).counter)).newLink (.sem x)) c sec).2 :=
      Timeout.startNew_env c sec
    have ht2 := (ht1.newLink (.sem x)).env h1
    refine (Micro.semRefuse s x c _ _ hx h1).one.trans (finish_micros ?_ _)
    exact ht2

theorem Queue.put_micros (hs : s.Sound) (ht : s.Turn c) (q : QueueId) (item : Value)
    (sec : Option ℤ) : Micros R none s none (Queue.put s c q item sec) := by
  unfold Queue.put
  split
  · rename_i hr; exact Queue.putItem_micros ht (Or.inr hr) item
  · rename_i hr
    exact link_get_micros (y := .put q) ht (hs.no_entry ht) (by simp)
      (by rintro q' ⟨⟩; exact hr) (by simp) (by simp) rfl (Timeout.startNew_env c sec)

theorem Queue.get_micros (hs : s.Sound) (ht : s.Turn c) (q : QueueId) (sec : Option ℤ) :
    Micros R none s none (Queue.get s c q sec) := by
  unfold Queue.get
  split
  · rename_i hl; exact Queue.getItem_micros ht (Or.inr hl)
  · rename_i hl
    exact link_get_micros (y := .get q) ht (hs.no_entry ht) (by simp) (by simp)
      (by rintro q' ⟨⟩; exact Nat.eq_zero_of_not_pos hl) (by simp) rfl (Timeout.startNew_env c sec)

theorem Hub.wait_micros (hs : s.Sound) (ht : s.Turn c) (x : WatcherId) (k : HubCaller) :
    Micros R none s none (Hub.wait s c x k) := by
  have h1 : (Hub.waiter s).2.EnvStep (some s.nextWaiter)
      { (Hub.waiter s).2 with nextUuid := s.nextUuid + 1 } := ⟨rfl, fun h => Or.inl ⟨_, _, h⟩, Or.inl⟩
  unfold Hub.wait; dsimp only
  split
  · refine (Micro.waiter s _ h1).one.trans (Hub.waitDone_micros ?_ k _)
    exact ht
  · rename_i s2 hs2
    have h2 : (Hub.waiter s).2.EnvStep (some s.nextWaiter) s2 := by
      unfold Watcher.start at hs2
      split at hs2
      · cases hs2
        have hset : State.EnvStep _ (some s.nextWaiter) _ :=
          State.setWatcher_env (s := { (Hub.waiter s).2 with nextUuid := s.nextUuid + 1 }) x
            ⟨some (.wake s.nextWaiter s.nextUuid), true⟩ (by rintro w u ⟨⟩; exact Or.inr rfl) (by simp)
        exact ⟨rfl, hset.wake, hset.throw⟩
      · cases hs2
    refine (Micro.waiter s s2 h2).one.trans ?_
    refine Waiter.get_micros (k := .hubWait x s.nextUuid k) ?_ (fun hc => ?_) ?_ ?_
    · refine State.Turn.env ?_ h2; exact ht
    · rw [h2.eq]; exact hs.no_entry ht hc
    · rw [h2.eq]
      simp [State.withEnv, Hub.waiter, State.setWaiter, Waiter.New, Waiter._init]
    · rw [h2.eq]; exact Nat.lt_succ_self _

theorem sleep_micros (hs : s.Sound) (ht : s.Turn c) : Micros R none s none (sleep s c) := by
  have h1 : s.EnvStep none { s with nextSleep := s.nextSleep + 1 } :=
    ⟨rfl, fun h => Or.inl ⟨_, _, h⟩, Or.inl⟩
  have hm : Micros R none s none _ := Micros.env h1
  exact hm.trans (Hub.wait_micros (hs.micros hm) (ht.env h1) _ .sleep)

/-! ## Sockets -/

theorem Socket.new_micros (ht : s.Turn c) : Micros R none s none (Socket.new s c) := by
  have h1 : s.EnvStep none { s.setSock s.nextSock ⟨none, false⟩ with nextSock := s.nextSock + 1 } :=
    ⟨rfl, fun h => Or.inl ⟨_, _, h⟩, Or.inl⟩
  exact (Micros.env h1).trans (finish_micros (ht.env h1) (.ok [.sock s.nextSock]))

theorem Socket.start_micros (ht : s.Turn c) (i : SockId) (f : SockCall) :
    Micros R none s none (Socket.start s c i f) := by
  unfold Socket.start
  split
  · split
    · exact Socket.call_micros ht i _
    · exact finish_micros ht _
  · exact Socket.call_micros ht i _

theorem Socket._wait_micros (hs : s.Sound) (ht : s.Turn c) (i : SockId) (f : SockCall) :
    Micros R none s none (Socket._wait s c i f) := by
  unfold Socket._wait; dsimp only
  split
  · have h1 : s.EnvStep none (Timeout.startNew s c (s.sock i).timeout).2 :=
      Timeout.startNew_env c _
    have hm : Micros R none s none _ := Micros.env h1
    exact hm.trans (Hub.wait_micros (hs.micros hm) (ht.env h1) _ _)
  · exact Hub.wait_micros hs ht _ _

theorem Socket.answered_micros (ht : s.Turn c) (i : SockId) (v : Value) (f : SockCall) :
    Micros R none s none (Socket.answered s c i v f) := by
  unfold Socket.answered
  split
  · exact Socket.new_micros ht
  · exact finish_micros ht _
  · split
    · exact Socket.call_micros ht i _
    · exact finish_micros ht _
  · exact finish_micros ht _

theorem Socket.refused_micros (hs : s.Sound) (ht : s.Turn c) (i : SockId) (e : Errno)
    (f : SockCall) : Micros R none s none (Socket.refused s c i e f) := by
  unfold Socket.refused
  split
  · split
    · exact Socket._wait_micros hs ht i _
    · exact finish_micros ht _
  · split
    · exact finish_micros ht _
    · split
      · exact finish_micros ht _
      · exact Socket._wait_micros hs ht i _
  · split
    · exact Socket._wait_micros hs ht i _
    · exact finish_micros ht _

theorem State.HubInv.sys_turn (h : s.HubInv) {i : SockId} {f : SockCall}
    (hf : s.mode s.running = .sys i f) : (s.setMode s.running .running).Turn s.running := by
  refine ⟨by simp [State.setMode], ?_⟩
  unfold State.running at *
  cases hc : s.cur with
  | some c =>
    exact Or.inl ⟨(h.resumed hc).1, hc⟩
  | none =>
    rw [hc] at hf
    refine Or.inr ⟨rfl, hc, ?_⟩
    rcases h.mainMode with h0 | h0
    · rw [Option.getD_none, h0] at hf; cases hf
    · exact h0.1

theorem Socket.step_micros (hs : s.Sound) (i : SockId) (f : SockCall)
    (hf : s.mode s.running = .sys i f) (r : SysResult) :
    Micros R none s none (Socket.step s s.running i f r) := by
  have hm : Micros R none s none (s.setMode s.running .running) :=
    (Micro.answer s s.running i f rfl hf).one
  have ht := hs.hub.sys_turn hf
  refine hm.trans ?_
  cases r with
  | ok v => exact Socket.answered_micros ht i v f
  | err e => exact Socket.refused_micros (hs.micros hm) ht i e f

theorem Socket.close_micros (i : SockId) : Micros R none s none (Socket.close s i) := by
  unfold Socket.close; dsimp only
  split
  · exact .refl
  · exact ((Micro.post s _ (by trivial) (by simp [State.Aims]) (by simp)).one.trans
      (Micro.post _ _ (by trivial) (by simp [State.Aims]) (by simp)).one).trans
      (Micros.env (State.setSock_env i _))

/-! ## Tasks -/

theorem Coroutines.coRawCreate_turn (hs : s.Sound) (ht : s.Turn c) :
    (Coroutines.coRawCreate s).Turn c := by
  refine ⟨?_, ht.2⟩
  have hc : c ≠ s.total + 1 := by
    rintro rfl
    have hu : s.mode (s.total + 1) = .unused := hs.pool.unused.2 (Nat.lt_succ_self _)
    have h1 := ht.1
    rw [hu] at h1; cases h1
  simpa [Coroutines.coRawCreate, State.setMode, hc] using ht.1

theorem check_turn (hs : s.Sound) (ht : s.Turn c) (n : ℕ) :
    (Coroutines.coRawCreate^[n] s).Turn c := by
  induction n generalizing s with
  | zero => exact ht
  | succ n ih =>
    have hm : Micro ⟨True, fun _ _ => True, fun _ _ => True, fun _ => True, fun _ _ _ => True⟩ none s none
      (Coroutines.coRawCreate s) := .rawCreate s
    exact ih (hs.micro hm) (Coroutines.coRawCreate_turn hs ht)

theorem check_micros (n : ℕ) : Micros R none s none (Coroutines.coRawCreate^[n] s) := by
  induction n generalizing s with
  | zero => exact .refl
  | succ n ih => exact (Micro.rawCreate s).one.trans ih

theorem spawn_micros (hs : s.Sound) (ht : s.Turn c) (args : List Value) :
    Micros R none s none (spawn s c args) := by
  -- the pool after `co_create` has made sure that it is not empty
  obtain ⟨s₀, h₀, hm, hne, ht₀⟩ : ∃ s₀, s₀ = (if s.pool = [] then Coroutines.coRawCreate s else s) ∧
      Micros R none s none s₀ ∧ s₀.pool ≠ [] ∧ s₀.Turn c := by
    refine ⟨_, rfl, ?_, ?_, ?_⟩
    · split
      · exact (Micro.rawCreate s).one
      · exact .refl
    · split
      · simp [Coroutines.coRawCreate]
      · assumption
    · split
      · exact Coroutines.coRawCreate_turn hs ht
      · exact ht
  have hs₀ := hs.micros hm
  have hlast : s₀.pool.getLast? = some (s₀.pool.getLast hne) := List.getLast?_eq_some_getLast hne
  have hD : s₀.pool.getLastD 0 = s₀.pool.getLast hne := by
    rw [List.getLastD_eq_getLast?, hlast]; rfl
  have hco : s₀.mode (s₀.pool.getLast hne) = .pooled := hs₀.pool.pooled (List.getLast_mem hne)
  have hcc : c ≠ s₀.pool.getLast hne := by
    intro h; rw [← h, ht₀.1] at hco; cases hco
  have hf : s.nextTask = s₀.nextTask := by rw [h₀]; split <;> rfl
  refine hm.trans ((Micro.spawn s₀ _ args hlast hco).one.trans ?_)
  unfold spawn Coroutines.coCreate; dsimp only
  rw [← h₀, hD, if_pos hco, hf]
  refine finish_micros (s := s₀.spawned (s₀.pool.getLast hne) args) ⟨?_, ht₀.2⟩ _
  simpa [State.spawned, Loop.runCallback, State.setMode, hcc] using ht₀.1

/-! ## Settling a waiter -/

theorem Waiter._switch_settled {w : WaiterId} (v e : Value)
    (hx : (s.waiter w).exception ≠ .bool false) : ∃ err, Waiter._switch s w v e = (s, some err) := by
  unfold Waiter._switch
  by_cases h : e.truthy ∧ ¬ isException e
  · exact ⟨e, if_pos h⟩
  · exact ⟨_, (if_neg h).trans (if_pos hx)⟩

/-- `coroutine.resume` of a coroutine that has a function to run. -/
theorem coResume_ready {f : TaskId} (hc : s.mode c = .ready (some f)) (args : List Value) :
    coResume s c args = ({ s.setMode c .running with
      cur := some c, task := Function.update s.task c f }).emit (.started (some f) args) := by
  unfold coResume
  simp only [hc]

/-- `coroutine.resume` of a coroutine suspended in `w:get()`. -/
theorem coResume_blocked {w : WaiterId} {k : Call} (hc : s.mode c = .blocked w k) (v e : Value) :
    coResume (s.settle w v e) c [] =
      afterGet (s.resume c w v e) c w k (Waiter.result ⟨(s.waiter w).co, v, e⟩) := by
  have hm : (s.settle w v e).mode c = .blocked w k := hc
  have hw : (s.settle w v e).waiter w = ⟨(s.waiter w).co, v, e⟩ := by
    simp [State.settle, State.setWaiter, State.emit]
  unfold coResume
  simp only [hm, Hub.yielded, Waiter.done, State.setMode, hw]
  rfl

/-- A waiter is switched whose coroutine is suspended in its `get`. -/
theorem Waiter._switch_blocked {w : WaiterId} {k : Call} {v e : Value} (hcur : s.cur = none)
    (hc : s.mode c = .blocked w k) (h0 : c ≠ 0) (hco : (s.waiter w).co = some c)
    (hx : (s.waiter w).exception = .bool false) (hexn : ¬ (e.truthy ∧ ¬ isException e)) :
    Waiter._switch s w v e =
      (afterGet (s.resume c w v e) c w k (Waiter.result ⟨some c, v, e⟩), none) := by
  have hrun : ¬ (s.settle w v e).running ≠ 0 := by
    have : (s.settle w v e).running = s.running := rfl
    rw [this, State.running, hcur]; exact fun h => h rfl
  unfold Waiter._switch
  rw [if_neg hexn, if_neg fun h => h hx]
  simp only [hco]
  have h1 : (s.setWaiter w ⟨some c, v, e⟩).emit (.settled w v e) = s.settle w v e := by
    rw [State.settle, hco]
  rw [h1, if_neg hrun, if_neg h0, coResume_blocked hc, hco]

/-- A waiter that is not settled is switched from the main coroutine, by a
    notification if `b` says so. -/
theorem Waiter._switch_micros (hs : s.Sound) (hcur : s.cur = none) {w : WaiterId} {v e : Value}
    (hx : (s.waiter w).exception = .bool false) (he : e ≠ .bool false)
    (hexn : ¬ (e.truthy ∧ ¬ isException e)) (hw : w < s.nextWaiter) (b : Option Sync)
    (hb : ∀ y, b = some y → s.Notifies w v e y) (hok : R.ok (s.takes w b).event w)
    (hr : R.raw ∨ (e = .nil → ∀ c k, s.mode c = .blocked w k → k.Ready s)) :
    ∃ s', Waiter._switch (s.takes w b) w v e = (s', none) ∧ Micros R none s none s' := by
  obtain ⟨E, L, h1⟩ := s.takes_frame w b
  have hm1 : (s.takes w b).mode = s.mode := by rw [h1]
  have hw1 : (s.takes w b).waiter = s.waiter := by rw [h1]
  have hc1 : (s.takes w b).running = 0 := by rw [h1]; simp [State.running, hcur]
  have hq1 : (s.takes w b).queue = s.queue := by rw [h1]
  unfold Waiter._switch
  rw [if_neg hexn, if_neg (by rw [hw1]; exact fun h => h hx)]
  dsimp only
  have hsettle : (s.waiter w).co.getD 0 = 0 → Micros R none s none ((s.takes w b).settle w v e) :=
    fun h0 => (Micro.settle s w v e b hx h0 hw he hok hb).one
  split
  · rename_i hco
    refine ⟨_, rfl, hsettle ?_⟩
    rw [← hw1, hco]; rfl
  · rename_i c hco
    rw [hw1] at hco
    rw [if_neg (fun h => h (show State.running _ = 0 from hc1))]
    split
    · rename_i h0
      exact ⟨_, rfl, hsettle (by rw [hco, h0]; rfl)⟩
    · rename_i h0
      obtain ⟨k, hk⟩ := hs.hub.waiting h0 hco hx
      have hk1 : (s.takes w b).mode c = .blocked w k := by rw [hm1]; exact hk
      refine ⟨_, rfl, ?_⟩
      show Micros R none s none (coResume ((s.takes w b).settle w v e) c [])
      rw [coResume_blocked hk1, hw1]
      refine (Micro.resume s c w k v e b hk hcur he hok hb).one.trans (afterGet_micros ?_ ?_)
      · exact ⟨by simp [State.resume, State.emit], Or.inl ⟨h0, rfl⟩⟩
      · refine hr.imp_right fun h v' hv' => ?_
        have hnil : e = .nil := by
          by_contra hn
          simp [Waiter.result, hn] at hv'
        exact (h hnil c k hk).congr hq1

/-- `waiter:throw` of an exception, from the main coroutine. -/
theorem Waiter.throw_micros (hs : s.Sound) (hcur : s.cur = none) {w : WaiterId} (e : Exn)
    (hw : w < s.nextWaiter) (hok : R.ok s.event w) :
    Micros R none s none (Waiter.throw s w (.exn e)).1 := by
  by_cases hx : (s.waiter w).exception = .bool false
  · obtain ⟨s', h1, h2⟩ := Waiter._switch_micros (v := .nil) (e := .exn e) hs hcur hx (by simp)
      (by simp [isException]) hw none (by simp) hok (Or.inr (by simp))
    have h1' : Waiter.throw s w (.exn e) = (s', none) := h1
    rw [h1']; exact h2
  · obtain ⟨err, h1⟩ := Waiter._switch_settled .nil (.exn e) hx
    have h1' : Waiter.throw s w (.exn e) = (s, some err) := h1
    rw [h1']; exact .refl

/-- The waiter in `hub.waiters` has been made. -/
theorem State.Sound.entry_lt (h : s.Sound) {w : WaiterId} (hw : s.waiters c = some w) :
    w < s.nextWaiter := by
  refine h.hub.lt_next fun hi => ?_
  by_cases hc : c = 0
  · subst hc
    have := h.hub.mainEntry hw
    rw [hi] at this; cases this
  · obtain ⟨k, hk⟩ := h.hub.entry hc hw
    have := (h.hub.blocked hk).2.1
    rw [hi] at this; cases this

theorem Hub.throw_micros (hs : s.Sound) (hcur : s.cur = none) (c : Co) (e : Exn)
    (hok : ∀ w, s.waiters c = some w → R.ok s.event w) :
    Micros R none s none (Hub.throw s c (.exn e)).1 := by
  unfold Hub.throw
  split
  · exact .refl
  · rename_i w hw
    exact Waiter.throw_micros hs hcur e (hs.entry_lt hw) (hok w hw)

/-! ## Notifications -/

theorem wake_micros (hs : s.Sound) (hcur : s.cur = none) {y : Sync} (hmain : s.main = .notify y)
    {w : WaiterId} (hw : w ∈ s.waiting y) (hok : R.ok (s.takes w (some y)).event w)
    (hr : R.raw ∨ ∀ c k, s.mode c = .blocked w k → k.Ready s) :
    Micros R none s none (wake (s.take y w) y w) := by
  have hlt : w < s.nextWaiter := by
    cases y with
    | event e => exact hs.fresh.todo hw
    | async a => exact hs.fresh.links (y := .async a) hw
    | sem x => exact hs.fresh.links (y := .sem x) hw
    | put q => exact hs.fresh.links (y := .put q) hw
    | get q => exact hs.fresh.links (y := .get q) hw
  by_cases hx : (s.waiter w).exception = .bool false
  · obtain ⟨s', h1, h2⟩ := Waiter._switch_micros (v := .bool true) (e := .nil) hs hcur hx (by simp)
      (by simp [Value.truthy]) hlt (some y) (by rintro y' ⟨⟩; exact ⟨hmain, hw, rfl, rfl⟩) hok
      (hr.imp_right fun h _ => h)
    have h1' : Waiter.switch ((s.take y w).emit (.notified y w)) w (.bool true) = (s', none) := h1
    unfold wake
    rw [h1']; exact h2
  · obtain ⟨E, L, hf⟩ := s.takes_frame w (some y)
    obtain ⟨err, h1⟩ := Waiter._switch_settled (s := s.takes w (some y)) (.bool true) .nil
      (by rw [hf]; exact hx)
    have h1' : Waiter.switch ((s.take y w).emit (.notified y w)) w (.bool true) =
      (s.takes w (some y), some err) := h1
    unfold wake
    rw [h1']; exact (Micro.abort s y w hmain hcur hw hx).one

/-- What `nextOf` leaves of a round. -/
theorem nextOf_cases {y : Sync} {L : Finset WaiterId} {w : Option WaiterId} {go : WaiterId → State}
    (h : nextOf s y L w go = some s') :
    (w = none ∧ L = ∅ ∧ s' = endNotify s y) ∨ ∃ v, w = some v ∧ v ∈ L ∧ s' = go v := by
  unfold nextOf at h
  split at h
  · split at h
    · rename_i hL; cases h; exact Or.inl ⟨rfl, hL, rfl⟩
    · cases h
  · rename_i v
    split at h
    · rename_i hv; cases h; exact Or.inr ⟨v, rfl, hv, rfl⟩
    · cases h

/-- What one round of a notification does: it ends, or comes to a waiter. -/
theorem Sync.notify_cases {y : Sync} {w : Option WaiterId} (h : y.notify s w = some s') :
    (w = none ∧
      (∀ q, y = .put q → (s.queue q).isFull ∨ (s.queue q).putters = ∅) ∧
      (∀ q, y = .get q → (s.queue q).length = 0 ∨ (s.queue q).getters = ∅) ∧
      (∀ e, y = .event e → (s.event e).todo = ∅) ∧
      (∀ a, y = .async a → (s.async a).links = ∅) ∧
      (s' = endNotify s y ∨ ∃ q, y = .get q ∧ (s.queue q).length = 0 ∧
        s' = endNotify (Event.set s (.cond q)) y)) ∨
    ∃ v, w = some v ∧ v ∈ s.waiting y ∧ (∀ q, y = .put q → ¬ (s.queue q).isFull) ∧
      (∀ q, y = .get q → (s.queue q).length ≠ 0) ∧ s' = wake (s.take y v) y v := by
  cases y with
  | event e =>
    rcases nextOf_cases h with ⟨h1, h2, h3⟩ | ⟨v, h1, h2, h3⟩
    · exact Or.inl ⟨h1, by simp, by simp, by rintro e' ⟨⟩; exact h2, by simp, Or.inl h3⟩
    · exact Or.inr ⟨v, h1, h2, by simp, by simp, h3⟩
  | async a =>
    rcases nextOf_cases h with ⟨h1, h2, h3⟩ | ⟨v, h1, h2, h3⟩
    · exact Or.inl ⟨h1, by simp, by simp, by simp, by rintro a' ⟨⟩; exact h2, Or.inl h3⟩
    · exact Or.inr ⟨v, h1, h2, by simp, by simp, h3⟩
  | sem x =>
    unfold Sync.notify Semaphore._notify at h
    dsimp only at h
    split at h
    · split at h
      · rename_i hw; cases h; exact Or.inl ⟨hw, by simp, by simp, by simp, by simp, Or.inl rfl⟩
      · cases h
    · rcases nextOf_cases h with ⟨h1, -, h3⟩ | ⟨v, h1, h2, h3⟩
      · exact Or.inl ⟨h1, by simp, by simp, by simp, by simp, Or.inl h3⟩
      · exact Or.inr ⟨v, h1, h2, by simp, by simp, h3⟩
  | put q =>
    unfold Sync.notify Queue._putUnlock at h
    dsimp only at h
    split at h
    · rename_i hf
      split at h
      · rename_i hw
        cases h
        exact Or.inl ⟨hw, by rintro q' ⟨⟩; exact Or.inl hf, by simp, by simp, by simp, Or.inl rfl⟩
      · cases h
    · rename_i hf
      rcases nextOf_cases h with ⟨h1, h2, h3⟩ | ⟨v, h1, h2, h3⟩
      · exact Or.inl ⟨h1, by rintro q' ⟨⟩; exact Or.inr h2, by simp, by simp, by simp, Or.inl h3⟩
      · exact Or.inr ⟨v, h1, h2, by rintro q' ⟨⟩; exact hf, by simp, h3⟩
  | get q =>
    unfold Sync.notify Queue._getUnlock at h
    dsimp only at h
    split at h
    · rename_i hl
      split at h
      · rename_i hw
        cases h
        exact Or.inl ⟨hw, by simp, by rintro q' ⟨⟩; exact Or.inl hl, by simp, by simp,
          Or.inr ⟨q, rfl, hl, rfl⟩⟩
      · cases h
    · rename_i hl
      rcases nextOf_cases h with ⟨h1, h2, h3⟩ | ⟨v, h1, h2, h3⟩
      · exact Or.inl ⟨h1, by simp, by rintro q' ⟨⟩; exact Or.inr h2, by simp, by simp, Or.inl h3⟩
      · exact Or.inr ⟨v, h1, h2, by simp, by rintro q' ⟨⟩; exact hl, h3⟩

theorem Sync.notify_micros (hs : s.Sound) (hcur : s.cur = none) {y : Sync}
    (hmain : s.main = .notify y) {w : Option WaiterId} (h : y.notify s w = some s')
    (hok : ∀ v, w = some v → v ∈ s.waiting y → R.ok (s.takes v (some y)).event v)
    (hr : R.raw ∨ ∀ v c k, w = some v → s.mode c = .blocked v k → k.Ready s) :
    Micros R none s none s' := by
  rcases Sync.notify_cases h with ⟨-, hp, hg, he, ha, rfl | ⟨q, rfl, hl, rfl⟩⟩ | ⟨v, hv, hm, -, -, rfl⟩
  · exact (Micro.endNotify s y hmain hcur hp hg he ha).one
  · obtain ⟨E, C, L, hf, -⟩ := Event.set_frame s (.cond q)
    refine (Micro.eventSet s (.cond q)).one.trans (Micro.endNotify _ _ ?_ ?_ (by simp) ?_ (by simp)
      (by simp)).one
    · rw [hf]; exact hmain
    · rw [hf]; exact hcur
    · rintro q' ⟨⟩; rw [hf]; exact Or.inl hl
  · exact wake_micros hs hcur hmain hm (hok v hv hm) (hr.imp_right fun h' c k => h' v c k hv)

/-! ## Steps -/

/-- The waiter that a notification or the watcher of a `Hub:wait` switches. -/
def State.rouses (s : State) : Act → Option WaiterId
  | .next w => w
  | .fire x =>
    match (s.watcher x).cb with
    | some (.wake w _) => some w
    | _ => none
  | _ => none

/-- The waiter at which a timer, a kill or the close of a socket throws. -/
def State.injects (s : State) : Act → Option WaiterId
  | .fire x =>
    match (s.watcher x).cb with
    | some (.throw c _) => s.waiters c
    | _ => none
  | .callback =>
    match s.callbacks with
    | .throw c _ _ :: _ => s.waiters c
    | .cancelWait x _ :: _ =>
      match (s.watcher x).cb with
      | some (.wake w _) => some w
      | _ => none
    | _ => none
  | _ => none

/-- What a `set` or `set_exception` sets that does not raise: the result, its value
    and its exception. -/
def Op.sets (s : State) : Op → Option (AsyncId × Value × Value)
  | .asyncSet a v =>
    match AsyncResult.set s a v with
    | .ok _ => some (a, v, .nil)
    | .error _ => none
  | .asyncSetException a e =>
    match AsyncResult.setException s a e with
    | .ok _ => some (a, .nil, e)
    | .error _ => none
  | _ => none

/-- Operations on waiters by hand: `switch` and `throw` come from the main
    coroutine, and the exception thrown is not `false`. -/
def State.Handled (s : State) : Op → Prop
  | .waiterSwitch .. | .hubSwitch .. => s.cur = none
  | .waiterThrow _ e | .hubThrow _ e => s.cur = none ∧ e ≠ .bool false
  | .waiterGet w => (∀ c, .getCall w c ∉ s.log) ∧
      ((s.waiter w).exception = .bool false → (s.waiter w).co = none)
  | _ => True

/-- What the rules ask of a step. -/
structure StepOk (R : Rules) (s : State) (a : Act) : Prop where
  notified : ∀ y w, a = .next (some w) → s.main = .notify y → w ∈ s.waiting y →
    R.ok (s.takes w (some y)).event w
  watched : ∀ x w u, a = .fire x → (s.watcher x).cb = some (.wake w u) → R.ok s.event w
  injected : ∀ w, s.injects a = some w → R.ok s.event w
  kill : ∀ c e target cbs w, a = .callback → s.callbacks = .throw c e target :: cbs →
    s.waiters c = some w → R.kill s.log target
  begin : ∀ y cbs, a = .callback → s.callbacks = .notify y :: cbs → R.begin y
  ready : R.raw ∨ ∀ w c k, s.rouses a = some w → (step s a).isSome → s.mode c = .blocked w k →
    k.Ready s
  set : ∀ o x v e, a = .op o → o.sets s = some (x, v, e) → R.set x v e
  raw : ∀ o, a = .op o → o.Raw → R.raw ∧ (∀ E w, R.ok E w) ∧ s.Handled o

theorem State.Sound.user_turn (h : s.Sound) (ht : s.userTurn = some c) : s.Turn c := by
  unfold State.userTurn at ht
  split at ht
  · rename_i c' hc
    split at ht
    · rename_i hm; cases ht; exact ⟨hm, Or.inl ⟨(h.hub.resumed hc).1, hc⟩⟩
    · cases ht
  · rename_i hc
    split at ht
    · rename_i hm; cases ht; exact ⟨hm.2, Or.inr ⟨rfl, hc, hm.1⟩⟩
    · cases ht

theorem plain_micros (h : Micros R none s none s') (h' : s'.Turn c) :
    Micros R none s none (plain s c (.ok s')) :=
  h.trans (finish_micros h' (.ok []))

/-- A raw `switch` or `throw` in the main coroutine. -/
theorem raw_switch_micros (hs : s.Sound) (ht : s.Turn c) (hraw : R.raw)
    (hok : ∀ E w, R.ok E w) (hcur : s.cur = none) {w : WaiterId} (hw : w < s.nextWaiter)
    (v e : Value) (he : e ≠ .bool false) :
    Micros R none s none (switching c (Waiter._switch s w v e)) := by
  by_cases hx : (s.waiter w).exception = .bool false
  · by_cases hexn : e.truthy ∧ ¬ isException e
    · have h1 : Waiter._switch s w v e = (s, some e) := by unfold Waiter._switch; exact if_pos hexn
      rw [h1]; exact finish_micros ht (.error e)
    · obtain ⟨s', h1, h2⟩ := Waiter._switch_micros hs hcur hx he hexn hw none (by simp) (hok _ _)
        (Or.inl hraw)
      have h1' : Waiter._switch s w v e = (s', none) := h1
      rw [h1']; exact h2
  · obtain ⟨err, h1⟩ := Waiter._switch_settled v e hx
    rw [h1]; exact finish_micros ht (.error err)

theorem Op.exec_micros (hs : s.Sound) (ht : s.Turn c) {o : Op} (h : o.exec s c = some s')
    (hset : ∀ x v e, o.sets s = some (x, v, e) → R.set x v e)
    (hraw : o.Raw → R.raw ∧ (∀ E w, R.ok E w) ∧ s.Handled o) : Micros R none s none s' := by
  cases o with
  | eventSet e =>
    cases h
    obtain ⟨E, C, L, he, -⟩ := Event.set_frame s e
    exact plain_micros (Micro.eventSet s e).one (by rw [he]; exact ht)
  | eventClear e => cases h; exact plain_micros (Micro.eventClear s e).one ht
  | eventWait e sec =>
    cases e with
    | user n => cases h; exact Event.wait_micros hs ht _ sec
    | cond q => cases h
  | asyncSet a v =>
    cases h
    unfold plain
    split
    · rename_i s' hr
      refine (Micro.asyncSet s a v .nil s' hr (hset _ _ _ (by simp [Op.sets, hr]))).one.trans (finish_micros ?_ _)
      obtain ⟨A, C, rfl, -⟩ := AsyncResult._set_frame s hr
      exact ht
    · exact finish_micros ht _
  | asyncSetException a v =>
    cases h
    unfold plain
    split
    · rename_i s' hr
      have hv := hset a .nil v (by simp [Op.sets, hr])
      unfold AsyncResult.setException at hr
      split at hr
      · refine (Micro.asyncSet s a .nil v s' hr hv).one.trans (finish_micros ?_ _)
        obtain ⟨A, C, rfl, -⟩ := AsyncResult._set_frame s hr
        exact ht
      · cases hr
    · exact finish_micros ht _
  | asyncGet a sec => cases h; exact AsyncResult.get_micros hs ht a sec
  | semRelease x =>
    cases h
    obtain ⟨M, C, L, he, -⟩ := Semaphore.release_frame s x
    exact plain_micros (Micro.semRelease s x).one (by rw [he]; exact ht)
  | semWait x sec acquire => cases h; exact Semaphore.wait_micros ht x sec acquire
  | queuePut q item sec =>
    simp only [Op.exec] at h
    split at h
    · cases h; exact Queue.put_micros hs ht q item sec
    · cases h
  | queueGet q sec =>
    simp only [Op.exec] at h
    split at h
    · cases h; exact Queue.get_micros hs ht q sec
    · cases h
  | queueJoin q sec =>
    simp only [Op.exec] at h
    split at h
    · cases h; exact Event.wait_micros hs ht _ sec
    · cases h
  | sleep => cases h; exact sleep_micros hs ht
  | socket => cases h; exact Socket.new_micros ht
  | socketSetTimeout i sec =>
    cases h
    exact plain_micros (Micros.env (State.setSock_env i _)) (ht.env (State.setSock_env i _))
  | socketCall i f => cases h; exact Socket.start_micros ht i f
  | socketClose i =>
    cases h
    refine plain_micros (Socket.close_micros i) ?_
    unfold Socket.close; dsimp only
    split <;> exact ht
  | spawn args => cases h; exact spawn_micros hs ht args
  | kill co target =>
    simp only [Op.exec] at h
    split at h
    · rename_i hf
      cases h
      refine plain_micros (Micro.post s _ (by trivial) ?_ (by rintro _ _ _ ⟨⟩; rfl)).one ht
      rintro c' e f ⟨⟩
      simpa using hf
    · cases h
  | check n =>
    cases h
    have hm : Micros R none s none (Coroutines.check s n) := check_micros _
    exact hm.trans (finish_micros (s := Coroutines.check s n) (check_turn hs ht _) (.ok []))
  | runCallback =>
    cases h; exact plain_micros (Micro.post s _ (by trivial) (by simp [State.Aims]) (by simp)).one ht
  | timeoutStartNew sec =>
    cases h
    exact plain_micros (Micros.env (Timeout.startNew_env c sec)) (ht.env (Timeout.startNew_env c sec))
  | timeoutCancel t =>
    cases h
    exact plain_micros (Micros.env (Timeout.cancel_env t)) (ht.env (Timeout.cancel_env t))
  | timeoutRun sec =>
    cases h
    exact Micros.env ((Timeout.startNew_env c sec).trans (State.setStack_env _))
  | pcall => cases h; exact Micros.env (State.setStack_env _)
  | returns vs => cases h; exact returns_micros ht vs
  | error v => cases h; exact finish_micros ht _
  | waiter =>
    cases h
    refine (Micro.waiter s (Hub.waiter s).2 ⟨rfl, fun h => Or.inl ⟨_, _, h⟩, Or.inl⟩).one.trans
      (finish_micros ?_ _)
    exact ht
  | waiterGet w =>
    simp only [Op.exec] at h
    split at h
    · rename_i hw
      cases h
      obtain ⟨-, -, hg, hco⟩ := hraw trivial
      by_cases hx : (s.waiter w).exception = .bool false
      · exact Waiter.get_micros (k := .get) ht (hs.no_entry ht) ⟨hco hx, hx⟩ hw
      · exact Waiter.get_settled_micros ht hx hg
    · cases h
  | waiterSwitch w v =>
    simp only [Op.exec] at h
    split at h
    · rename_i hw
      cases h
      obtain ⟨h1, h2, h3⟩ := hraw trivial
      exact raw_switch_micros hs ht h1 h2 h3 hw v .nil (by simp)
    · cases h
  | waiterThrow w e =>
    simp only [Op.exec] at h
    split at h
    · rename_i hw
      cases h
      obtain ⟨h1, h2, h3, h4⟩ := hraw trivial
      exact raw_switch_micros hs ht h1 h2 h3 hw .nil e h4
    · cases h
  | hubSwitch co v =>
    cases h
    obtain ⟨h1, h2, h3⟩ := hraw trivial
    unfold Hub.switch
    split
    · exact finish_micros ht (.error (.thread co))
    · rename_i w hw
      exact raw_switch_micros hs ht h1 h2 h3 (hs.entry_lt hw) v .nil (by simp)
  | hubThrow co e =>
    cases h
    obtain ⟨h1, h2, h3, h4⟩ := hraw trivial
    unfold Hub.throw
    split
    · exact finish_micros ht (.error (.thread co))
    · rename_i w hw
      exact raw_switch_micros hs ht h1 h2 h3 (hs.entry_lt hw) .nil e h4

theorem Loop.begin_micros (hs : s.Sound) (hb : s.Between) {cb : Callback} {cbs : List Callback}
    (hq : s.callbacks = cb :: cbs) (hok : StepOk R s .callback) :
    Micros R none s none (Loop.begin { s with callbacks := cbs } cb) := by
  have hpop : cb.Plain → Micro R none s none { s with callbacks := cbs } := fun h =>
    .pop s cb cbs hb h hq
  cases cb with
  | notify y => exact (Micro.begin s y cbs hb hq (hok.begin y cbs rfl hq)).one
  | throw c e target =>
    have hinj : ∀ w, s.waiters c = some w → R.ok s.event w := fun w hw =>
      hok.injected w (by simp only [State.injects, hq]; exact hw)
    unfold Loop.begin; dsimp only
    split
    · rename_i s' h
      obtain ⟨w, hw⟩ : ∃ w, s.waiters c = some w := by
        by_contra hn
        have hn' : s.waiters c = none := Option.eq_none_iff_forall_not_mem.2 fun w hw => hn ⟨w, hw⟩
        simp [Hub.throw, State.emit, hn'] at h
      have hk := Micro.kill (R := R) s c e target cbs w hb hq hw (hok.kill c e target cbs w rfl hq hw)
      have ht := Hub.throw_micros (R := R) (hs.micro hk) hb.2 c e hinj
      rw [show s' = (Hub.throw _ c (.exn e)).1 from (congrArg Prod.fst h).symm]
      exact hk.one.trans ht
    · exact (hpop trivial).one.trans (Hub.throw_micros (hs.micro (hpop trivial)) hb.2 c e hinj)
  | resume c args =>
    obtain ⟨f, hf⟩ := hs.pool.ready (c := c) (by rw [hq]; simp [resumed])
    have hf' : ({ s with callbacks := cbs } : State).mode c = .ready (some f) := hf
    show Micros R none s none (coResume { s with callbacks := cbs } c args)
    rw [coResume_ready hf']
    exact (Micro.start s c f args cbs hb hq hf).one
  | cancelWait x err =>
    refine (hpop trivial).one.trans ?_
    have hs1 := hs.micro (hpop trivial)
    show Micros R none _ none (Hub._cancelWait { s with callbacks := cbs } x err).1
    unfold Hub._cancelWait
    split
    · split
      · rename_i w u hw
        refine Waiter.throw_micros hs1 hb.2 _ (hs1.fresh.wake hw) (hok.injected w ?_)
        have hw' : (s.watcher x).cb = some (.wake w u) := hw
        simp only [State.injects, hq, hw']
      · exact .refl
    · exact .refl
  | user => exact (hpop trivial).one.trans (Micro.enter { s with callbacks := cbs } hb).one

theorem Loop.expire_env (x : WatcherId) : s.EnvStep none (Loop.expire s x) := by
  cases x with
  | timeout | sleep => exact State.setWatcher_env _ _ (fun _ _ => Or.inl) fun _ _ => Or.inl
  | read | write => exact .refl

theorem Loop.fire_micros (hs : s.Sound) (hb : s.Between) {x : WatcherId}
    (hok : StepOk R s (.fire x)) (hen : (step s (.fire x)).isSome) :
    Micros R none s none (Loop.fire s x) := by
  have h1 := Loop.expire_env (s := s) x
  unfold Loop.fire
  generalize Loop.expire s x = s1 at h1 ⊢
  have hm : Micros R none s none s1 := Micros.env h1
  have hsd := hs.micros hm
  have hcur : s1.cur = none := by rw [h1.eq]; exact hb.2
  have hev : s1.event = s.event := by rw [h1.eq]; rfl
  split
  · rename_i w u hw
    by_cases hx : (s1.waiter w).exception = .bool false
    · have hlt : w < s1.nextWaiter := by rw [h1.eq]; exact hs.fresh.wake hw
      obtain ⟨s', h2, h3⟩ := Waiter._switch_micros (R := R) (v := .userdata u) (e := .nil) hsd hcur hx
        (by simp) (by simp [Value.truthy]) hlt none (by simp)
        (by rw [State.takes, hev]; exact hok.watched x w u rfl hw)
        (hok.ready.imp_right fun h _ c k hk => by
          have hk' : s.mode c = .blocked w k := by rw [h1.eq] at hk; exact hk
          refine (h w c k (by simp [State.rouses, hw]) hen hk').congr ?_
          rw [h1.eq]; rfl)
      have h2' : Waiter._switch s1 w (.userdata u) .nil = (s', none) := h2
      rw [h2']; exact hm.trans h3
    · obtain ⟨err, h2⟩ := Waiter._switch_settled (.userdata u) .nil hx
      rw [h2]; exact hm
  · rename_i c e hc
    refine hm.trans (Hub.throw_micros hsd hcur c e fun w hw => ?_)
    rw [hev]
    refine hok.injected w ?_
    rw [h1.eq] at hw
    simp only [State.injects, hc]; exact hw
  · exact hm

/-- **Every step is a sequence of micro steps.** -/
theorem step_micros (hs : s.Sound) {a : Act} (h : step s a = some s') (hok : StepOk R s a) :
    Micros R none s none s' := by
  have hen : (step s a).isSome := by rw [h]; rfl
  unfold step at h
  cases a with
  | callback =>
    dsimp only at h
    split at h
    · rename_i hb
      split at h
      · cases h
      · rename_i cb cbs hq
        cases h; exact Loop.begin_micros hs hb hq hok
    · cases h
  | fire x =>
    dsimp only at h
    split at h
    · rename_i hb
      cases h; exact Loop.fire_micros hs hb.1 hok hen
    · cases h
  | enter =>
    dsimp only at h
    split at h
    · rename_i hb
      cases h; exact (Micro.enter s hb).one
    · cases h
  | next w =>
    dsimp only at h
    split at h
    · rename_i y hmain hcur
      exact Sync.notify_micros hs hcur hmain h
        (fun v hv hm => hok.notified y v (by rw [hv]) hmain hm)
        (hok.ready.imp_right fun h' v c k hv => h' v c k hv hen)
    · cases h
  | op o =>
    dsimp only at h
    split at h
    · rename_i c hc
      exact Op.exec_micros hs (hs.user_turn hc) h (fun x v e => hok.set o x v e rfl) (hok.raw o rfl)
    · cases h
  | sys r =>
    dsimp only at h
    split at h
    · rename_i i f hf
      cases h; exact Socket.step_micros hs i f hf r
    · cases h

end Levent
