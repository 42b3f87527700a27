/-
  `Socket:close`: the calls that wait for the socket end, and return an error to
  their callers, but for a `connect` that a readiness event resumes before the
  callbacks of `close`.
-/
import Levent.Runtime.SockInv

namespace Levent

open Lib (run Along along_append)

variable {s s' s₁ t : State} {value : SemId → ℕ} {maxsizes : List (Option ℤ)} {as : List Act} {c : Co}

/-! ## Ends of a call -/

/-- The call `f` has returned a failure to its caller: nil, or how much has been sent
    of what there is, and an error. -/
structure State.Failed (s : State) (c : Co) (f : SockCall) (s' : State) : Prop where
  mode : s'.mode c = .running
  stack : s'.stack c = s.stack c
  ret : ∃ l v, v.truthy = true ∧ s'.log = l ++ [.ret c (f.failed v)]
  short : f.Short

/-- The calls on a closed socket go on to an end, or return a failure. -/
def State.Releases (s : State) (a : Act) : Prop :=
  ∀ s', step s a = some s' → ∀ c i f, (s.sock i).closed = true → s.InCall c i f →
    s'.InCall c i f ∨ s.Failed c f s'

/-- Once the callbacks of `close` have run, nobody waits for the socket. -/
def State.Released (s : State) : Prop :=
  ∀ i, (s.sock i).closed = true → .cancelWait (.read i) none ∉ s.callbacks →
    .cancelWait (.write i) none ∉ s.callbacks →
      (∀ c w x u k, x.sock = some i → s.mode c ≠ .blocked w (.hubWait x u k)) ∧
        (s.Between → ∀ c f, ¬ s.InCall c i f)

/-- A readiness event resumes a coroutine in `connect` on a closed socket. -/
def State.Reconnects (s : State) (a : Act) : Prop :=
  ∃ x w u c x' i t, a = .fire x ∧ (s.watcher x).cb = some (.wake w u) ∧
    s.mode c = .blocked w (.hubWait x' u (.sock i .connect t)) ∧ (s.sock i).closed = true

theorem State.Failed.of_finish {f : SockCall} (hf : f.Short) (hst : s₁.stack c = s.stack c) {v : Value}
    (hv : v.truthy = true) : s.Failed c f (finish s₁ c (.ok (f.failed v))) where
  mode := by simp [finish, State.emit, State.setMode]
  stack := hst
  ret := ⟨s₁.log, v, hv, rfl⟩
  short := hf

theorem Timeout.cancel_stack (t : TimeoutId) : (Timeout.cancel s t).stack = s.stack := by
  unfold Timeout.cancel
  split <;> rfl

theorem Timeout.cancel_sock (t : TimeoutId) : (Timeout.cancel s t).sock = s.sock := by
  unfold Timeout.cancel
  split <;> rfl

/-- A call that is resumed with an error returns it. -/
theorem Hub.waitDone_error {i : SockId} {f : SockCall} (hf : f.Short) (hst : s₁.stack c = s.stack c)
    (t : Option TimeoutId) {v : Value} (hv : v.truthy = true) :
    s.Failed c f (Hub.waitDone s₁ c (.sock i f t) (.error v)) := by
  cases t with
  | none => exact .of_finish hf hst (traceback_truthy hv)
  | some t => exact .of_finish hf ((congrFun (Timeout.cancel_stack t) c).trans hst) (traceback_truthy hv)

/-- A call that is resumed by its watcher finds the socket closed. -/
theorem Hub.waitDone_ok {i : SockId} {f : SockCall} (hf : f.Short) (hne : f ≠ .connect)
    (hst : s₁.stack c = s.stack c) (hi : (s₁.sock i).closed = true) (t : Option TimeoutId) :
    (Hub.waitDone s₁ c (.sock i f t) (.ok ())).InCall c i f ∨
      s.Failed c f (Hub.waitDone s₁ c (.sock i f t) (.ok ())) := by
  have hagain : ∀ s₂ : State, s₂.stack c = s.stack c → (s₂.sock i).closed = true →
      (Socket.again s₂ c i f).InCall c i f ∨ s.Failed c f (Socket.again s₂ c i f) := by
    intro s₂ hst₂ hi₂
    cases f with
    | accept =>
      right
      unfold Socket.again Socket.call
      rw [if_pos hi₂]
      exact .of_finish (f := .accept) (v := .strerror .EBADF) trivial hst₂ rfl
    | connect => exact absurd rfl hne
    | recv | recvfrom | send | sendto | sendall =>
      exact .inl (.inl (by simp [Socket.again, State.setMode]))
  cases t with
  | none => exact hagain _ hst hi
  | some t =>
    refine hagain (Timeout.cancel s₁ t) ((congrFun (Timeout.cancel_stack t) c).trans hst) ?_
    rw [Timeout.cancel_sock]
    exact hi

/-- A system call on a closed socket fails. -/
theorem Socket.step_closed {i : SockId} {f : SockCall} (hf : f.Short) (hne : f ≠ .connect) :
    s.Failed c f (Socket.step s c i f (.err .EBADF)) := by
  have hblock : ¬ Socket._needBlock (s.setMode c .running) i .EBADF = true := by
    simp [Socket._needBlock]
  have hst : (s.setMode c .running).stack c = s.stack c := rfl
  unfold Socket.step Socket.refused
  cases f with
  | connect => exact absurd rfl hne
  | accept =>
    simp only [if_neg hblock]
    exact .of_finish (f := .accept) (v := .strerror .EBADF) hf hst rfl
  | recv | recvfrom | send | sendto | sendall =>
    simp only [if_neg hblock]
    exact .of_finish (v := .errno .EBADF) hf hst rfl

/-- A coroutine whose mode stays, stays in its call. -/
theorem State.InCall.stays {i : SockId} {f : SockCall} (h : s.InCall c i f)
    (hm : s'.mode c = s.mode c ∨ (s.mode c).Idle) : s'.InCall c i f := by
  rcases hm with hm | hm
  · unfold State.InCall
    rw [hm]
    exact h
  · exact absurd h (State.not_inCall (.inr hm) i f)

/-- **The calls on a closed socket go on to an end, or return a failure.** -/
theorem State.Does.releases (hs : s.Sound) (hall : ∀ d, s.SockOk d) {a : Act} (hfd : s.ClosedFd a)
    (hr : ¬ s.Reconnects a) (h : s.Does a s') {i : SockId} {f : SockCall}
    (hi : (s.sock i).closed = true) (hin : s.InCall c i f) : s'.InCall c i f ∨ s.Failed c f s' := by
  cases h with
  | @code _ c' s₁ _ hl hok hcode hc =>
    have hcc : c ≠ c' := by
      rintro rfl
      exact hc i f hin
    refine .inl (hin.stays ?_)
    have := hcode.mode c hcc
    rw [hl.mode] at this
    exact this.imp_right And.left
  | @wake _ c' w k v e s₁ _ hl hok hsys hc he hv heq =>
    have hwaits := hl.waits ((hall c').waits hc)
    by_cases hcc : c = c'
    · subst hcc
      rcases hin with hin | ⟨w', x, u, t, hin⟩
      · rw [hc] at hin
        cases hin
      · rw [hc] at hin
        cases hin
        obtain ⟨-, hf, -, -⟩ := (hall c).wait w x u i f t hc
        have hst : (Watcher.stop (s₁.resume c w v e) x).stack c = s.stack c := by
          rw [← hl.stack]; rfl
        have hi₁ : ((Watcher.stop (s₁.resume c w v e) x).sock i).closed = true := by
          rw [← hi, ← hl.sock]; rfl
        rw [heq]
        unfold afterGet Hub.waited Waiter.result
        rcases he with rfl | he
        · simp only [if_true]
          by_cases hu : v = .userdata u
          · rw [if_pos hu]
            refine Hub.waitDone_ok hf (fun hf' => hr ?_) hst hi₁ t
            obtain ⟨x₀, hx₀, hcb⟩ := hv u rfl hu
            exact ⟨x₀, w, u, c, x, i, t, hx₀, hcb, hf' ▸ hc, hi⟩
          · rw [if_neg hu]
            exact .inr (Hub.waitDone_error hf hst t rfl)
        · have hne : e ≠ .nil := by
            rintro rfl
            cases he
          simp only [if_neg hne]
          exact .inr (Hub.waitDone_error hf hst t (traceback_truthy he))
    · refine .inl (hin.stays ?_)
      have := afterGet_mode hwaits v e (Waiter.result ⟨some c', v, e⟩) hcc
      rw [hl.mode, ← heq] at this
      exact this
  | @close i' c' ht =>
    have hcc : c ≠ c' := by
      rintro rfl
      exact State.not_inCall (.inl ht.1) i f hin
    refine .inl (hin.stays ?_)
    have hclose : (Socket.close s i').mode = s.mode := by
      unfold Socket.close; dsimp only
      split <;> rfl
    have := (finish_code (s := Socket.close s i') (c := c') (.ok [])).mode c hcc
    rw [hclose] at this
    exact this.imp_right And.left
  | @sys r i' f' hm =>
    by_cases hcc : c = s.running
    · subst hcc
      rcases hin with hin | ⟨w, x, u, t, hin⟩
      · rw [hm] at hin
        cases hin
        obtain ⟨hf, hne, -⟩ := (hall _).sys i f hm
        rw [State.ClosedFd.answer hfd hm hi]
        exact .inr (Socket.step_closed hf (hne hi))
      · rw [hm] at hin
        cases hin
    · exact .inl (hin.stays (((Socket.step_ok hs hall hm hfd).1.mode c hcc).imp_right And.left))

/-! ## The exception -/

/-- An error leaves at least one protected call, or the task. -/
theorem unwind_lt {v : Value} {st st' : List Frame} {vs : List Value}
    (h : (unwind v st).2 = .ok (st', vs)) : st'.length < st.length := by
  induction st generalizing v with
  | nil => cases h
  | cons f st ih =>
    cases f with
    | pcall =>
      simp only [unwind, Except.ok.injEq, Prod.mk.injEq] at h
      rw [← h.1]
      simp
    | timeoutRun t =>
      unfold unwind at h
      dsimp only at h
      split at h
      · simp only [Except.ok.injEq, Prod.mk.injEq] at h
        rw [← h.1]
        simp
      · exact (ih h).trans (Nat.lt_succ_self _)

/-- A call that raises returns nothing. -/
theorem raise_not_failed (hc : c ≠ 0) (hst : s₁.stack c = s.stack c) (v : Value) (i : SockId)
    (f : SockCall) : ¬ ((raise s₁ c v).InCall c i f ∨ s.Failed c f (raise s₁ c v)) := by
  unfold raise; dsimp only
  split
  · have hmode : ∀ {s₂ : State} {v : Value}, (fail s₂ c v).mode c = .dead := by
      intro s₂ v
      rw [fail, if_neg hc]
      exact Function.update_self _ _ _
    rintro (hin | hfail)
    · rcases hin with h | ⟨w, x, u, t, h⟩ <;> rw [hmode] at h <;> cases h
    · have := hfail.mode
      rw [hmode] at this
      cases this
  · rename_i st vs hu
    rintro (hin | hfail)
    · refine State.not_inCall (.inl ?_) i f hin
      exact Function.update_self _ _ _
    · have hlt := unwind_lt hu
      have hstack := hfail.stack
      simp only [State.emit, State.setStack, Function.update_self] at hstack
      rw [hst, hstack] at hlt
      exact lt_irrefl _ hlt

/-- `closed_socket` has no method `connect`. -/
theorem Hub.waited_connect {i : SockId} (hi : (s.sock i).closed = true) (w : WaiterId) (x : WatcherId)
    (u : ℕ) (t : Option TimeoutId) : ∃ s₁ v, s₁.stack = s.stack ∧
      afterGet s c w (.hubWait x u (.sock i .connect t)) (.ok (.userdata u)) = raise s₁ c v := by
  have hcall : ∀ {s₁ : State}, (s₁.sock i).closed = true → Socket.call s₁ c i .connect =
      raise s₁ c (.str "attempt to call a nil value (method 'connect')") := by
    intro s₁ h
    rw [Socket.call, if_pos h]
    rfl
  simp only [afterGet, Hub.waited, if_true, Hub.waitDone, Socket.again]
  cases t with
  | none => exact ⟨Watcher.stop s x, _, rfl, hcall hi⟩
  | some t =>
    refine ⟨Timeout.cancel (Watcher.stop s x) t, _, ?_, hcall ?_⟩
    · rw [Timeout.cancel_stack]
      rfl
    · rw [Timeout.cancel_sock]
      exact hi

/-- A `connect` that a readiness event resumes on a closed socket raises. -/
theorem State.Reconnects.not_releases (hs : s.Sound) {a : Act} (hr : s.Reconnects a) (h : step s a = some s') : ¬ s.Releases a := by
  obtain ⟨x, w, u, c, x', i, t, rfl, hw, hc, hi⟩ := hr
  intro hrel
  have hin := hrel s' h c i .connect hi (.inr ⟨w, x', u, t, hc⟩)
  unfold step at h; dsimp only at h
  split at h
  · rename_i hb
    cases h
    have hl : s.Like (Loop.expire s x) := Loop.expire_like x
    have henv := Loop.expire_env (s := s) x
    have hh : (Loop.expire s x).HubInv := hs.hub.micro (R := Rules.free) (.env none s _ henv) hs.pool
    have hcur : (Loop.expire s x).cur = none := by rw [henv.eq]; exact hb.1.2
    have hc' := hl.mode ▸ hc
    obtain ⟨-, hco, hx⟩ := hh.blocked hc'
    have hswitch := Waiter._switch_blocked (v := .userdata u) (e := .nil) hcur hc' (hh.ne_zero hc') hco hx
      (by simp [Value.truthy])
    simp only [Loop.fire, hw, hswitch] at hin
    have hi' : (((Loop.expire s x).resume c w (.userdata u) .nil).sock i).closed = true := by
      rw [← hi, ← hl.sock]
      rfl
    have hst : ((Loop.expire s x).resume c w (.userdata u) .nil).stack c = s.stack c := by
      rw [← hl.stack]
      rfl
    obtain ⟨s₂, v, hst₂, hraise⟩ := Hub.waited_connect (c := c) hi' w x' u t
    rw [show Waiter.result ⟨some c, .userdata u, .nil⟩ = .ok (.userdata u) from rfl, hraise] at hin
    exact raise_not_failed (hh.ne_zero hc') ((congrFun hst₂ c).trans hst) v i .connect hin
  · cases h

/-! ## Runs -/

/-- Once its callbacks have run, `close` has ended every wait. -/
theorem released (hs : s.Sound) (hall : ∀ d, s.SockOk d) : s.Released := by
  intro i hi hr hw
  have hwaits : ∀ c w x u k, x.sock = some i → s.mode c ≠ .blocked w (.hubWait x u k) := by
    intro c w x u k hx hc
    cases k with
    | sleep =>
      rw [(hall c).sleep w x u hc] at hx
      cases hx
    | sock i' f t =>
      obtain ⟨rfl, -, -, hcb⟩ := (hall c).wait w x u i' f t hc
      rw [f.watcher_sock] at hx
      cases hx
      have := hcb hi
      cases f <;> first | exact hr this | exact hw this
  refine ⟨hwaits, fun hb c f => ?_⟩
  have hmode : s.mode 0 = .running := HubInv.main_running hs.hub (by rw [hb.1]; simp)
  rintro (hc | ⟨w, x, u, t, hc⟩)
  · exact hs.hub.no_sys hb.2 hmode c i f hc
  · obtain ⟨rfl, -⟩ := (hall c).wait w x u i f t hc
    exact hwaits c w _ u _ (f.watcher_sock i) hc

/-- The invariants, and what the calls on sockets need. -/
structure State.Ready (s : State) : Prop where
  sound : s.Sound
  sock : ∀ d, s.SockOk d

theorem ready_init : (State.init value maxsizes).Ready where
  sound := (State.init_initial value maxsizes).sound
  sock d := by
    obtain ⟨E, C, L, Q, n, hs⟩ := (State.init_initial value maxsizes).frame
    refine Mode.Light.ok ?_
    rw [hs]
    by_cases hd : d = 0 <;> simp [State.fresh, hd, Mode.Light]

theorem ready_step (h : s.Ready) {a : Act} (ha : Plain s a) (hfd : s.ClosedFd a)
    (hstep : step s a = some s') : s'.Ready where
  sound := h.sound.micros (step_micros h.sound hstep (StepOk.free ha))
  sock d := step_sockOk h.sound h.sock ha hfd hstep d

theorem plain_of (hraw : ∀ a ∈ as, ¬ a.Raw) : Along step Plain s as :=
  .of_forall fun _ a ha => hraw a ha

theorem ready_run (hraw : ∀ a ∈ as, ¬ a.Raw)
    (hfd : Along step State.ClosedFd (State.init value maxsizes) as)
    (hrun : run step (State.init value maxsizes) as = some t) : t.Ready :=
  Lib.run_inv (fun _ _ _ h hC => ready_step h hC.1 hC.2) ready_init ((plain_of hraw).and hfd) hrun

/-- **`close` releases every blocked coroutine, with a failure of its call, exactly in
    the runs where no readiness event resumes a `connect` on a closed socket.** -/
theorem close_releases_iff (hraw : ∀ a ∈ as, ¬ a.Raw)
    (hfd : Along step State.ClosedFd (State.init value maxsizes) as)
    (hrun : run step (State.init value maxsizes) as = some t) :
    t.Released ∧ Along step State.Releases (State.init value maxsizes) as ↔
      Along step (fun s a => ¬ s.Reconnects a) (State.init value maxsizes) as := by
  have ht := ready_run hraw hfd hrun
  constructor
  · rintro ⟨-, hrel⟩
    refine Along.of_inv (I := State.Ready) ?_ ready_init (((plain_of hraw).and hfd).and hrel) hrun
    intro s a s' h hC hstep
    exact ⟨ready_step h hC.1.1 hC.1.2 hstep, fun hr => hr.not_releases h.sound hstep hC.2⟩
  · intro hno
    refine ⟨released ht.sound ht.sock, ?_⟩
    refine Along.of_inv (I := State.Ready) ?_ ready_init (((plain_of hraw).and hfd).and hno) hrun
    intro s a s' h hC hstep
    refine ⟨ready_step h hC.1.1 hC.1.2 hstep, fun s₁ hstep₁ c i f hi hin => ?_⟩
    exact (step_does h.sound hC.1.1 hstep₁).releases h.sound h.sock hC.1.2 hC.2 hi hin

/-- Two tasks: the one waits in `f` for a socket that the other closes. -/
def waitClosed (f : SockCall) (e : Errno) : List Act :=
  [.enter, .op (.spawn []), .op (.spawn []), .op (.returns []),
    .callback, .op .socket, .op (.socketCall 0 f), .sys (.err e),
    .callback, .op (.socketClose 0), .op (.returns [])]

/-- A `recv` is resumed by data before the callbacks of `close`. -/
def recvClosed : List Act :=
  waitClosed .recv .EAGAIN ++ [.fire (.read 0)] ++ [.sys (.err .EBADF), .op (.returns []), .callback, .callback]

/-- Who is resumed is in no `connect`. -/
theorem State.not_reconnects (hh : s.HubInv) {x : WatcherId} {w : WaiterId} {k : Call} {u : ℕ}
    (hc : s.mode c = .blocked w k) (hk : ∀ x u i t, k ≠ .hubWait x u (.sock i .connect t))
    (hw : (s.watcher x).cb = some (.wake w u)) : ¬ s.Reconnects (.fire x) := by
  rintro ⟨y, w', u', c', x', i, t, heq, hw', hc', -⟩
  cases heq
  rw [hw] at hw'
  cases hw'
  exact hk _ _ _ _ (hh.blocked_inj hc hc').2

theorem close_releases_recv :
    ∃ t, run step (State.init (fun _ => 0) []) recvClosed = some t ∧ t.Between ∧
      .ret 1 [.nil, .errno .EBADF] ∈ t.log ∧ t.Released := by
  have h : run step (State.init (fun _ => 0) []) recvClosed = some _ := rfl
  have hraw : ∀ a ∈ recvClosed, ¬ a.Raw := by simp [recvClosed, waitClosed, Act.Raw, Op.Raw]
  have hfd : Along step State.ClosedFd (State.init (fun _ => 0) []) recvClosed := .of_check (by decide)
  refine ⟨_, h, by decide, by decide, ((close_releases_iff hraw hfd h).2 ?_).1⟩
  have hfire : ∀ {s : State} {a : Act}, (∀ x, a ≠ .fire x) → ¬ s.Reconnects a := by
    rintro s a ha ⟨x, w, u, c, x', i, t, rfl, -⟩
    exact ha x rfl
  refine along_append.2 ⟨along_append.2 ⟨.of_forall fun s a ha => hfire ?_, fun m hm => ?_⟩, fun m hm =>
    .of_forall fun s a ha => hfire ?_⟩
  · rintro x rfl
    simp [waitClosed] at ha
  · have hm' : run step (State.init (fun _ => 0) []) (waitClosed .recv .EAGAIN) = some _ := rfl
    have hready := ready_run (by simp [waitClosed, Act.Raw, Op.Raw])
      (along_append.1 (along_append.1 hfd).1).1 hm'
    rw [hm'] at hm
    cases hm
    refine ⟨State.not_reconnects (c := 1) hready.sound.hub rfl (by simp) rfl, fun _ _ => trivial⟩
  · rintro x rfl
    simp at ha

/-- A `connect` is resumed before the callbacks of `close`. -/
def connectClosed : List Act := waitClosed .connect .EINPROGRESS ++ [.fire (.write 0)]

/-- Its task fails. -/
theorem close_not_releases :
    ∃ t, run step (State.init (fun _ => 0) []) connectClosed = some t ∧
      (∀ a ∈ connectClosed, ¬ a.Raw) ∧
      Along step State.ClosedFd (State.init (fun _ => 0) []) connectClosed ∧
      .failed 0 (.str "attempt to call a nil value (method 'connect')") ∈ t.log ∧
      ¬ Along step State.Releases (State.init (fun _ => 0) []) connectClosed := by
  have h : run step (State.init (fun _ => 0) []) connectClosed = some _ := rfl
  have hraw : ∀ a ∈ connectClosed, ¬ a.Raw := by simp [connectClosed, waitClosed, Act.Raw, Op.Raw]
  have hfd : Along step State.ClosedFd (State.init (fun _ => 0) []) connectClosed := .of_check (by decide)
  refine ⟨_, h, hraw, hfd, by decide, fun hrel => ?_⟩
  have hm : run step (State.init (fun _ => 0) []) (waitClosed .connect .EINPROGRESS) = some _ := rfl
  have hready := ready_run (by simp [waitClosed, Act.Raw, Op.Raw]) (along_append.1 hfd).1 hm
  refine State.Reconnects.not_releases hready.sound ?_ rfl ((along_append.1 hrel).2 _ hm).1
  exact ⟨.write 0, 0, 0, 1, .write 0, 0, none, rfl, rfl, rfl, rfl⟩

end Levent
