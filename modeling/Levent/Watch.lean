/-
  A watcher has one waiter: a call that comes to wait for the watcher that a coroutine
  waits for fails, and the coroutine is resumed as if nothing had happened.
-/
import Levent.Runtime.WatchInv

namespace Levent

open Lib (run)

variable {s s' t : State} {value : SemId → ℕ} {maxsizes : List (Option ℤ)}
  {as : List Act} {a c : Co} {w : WaiterId} {x : WatcherId} {u : ℕ} {i : SockId} {f : SockCall}

/-! ## The call that fails -/

/-- The call has to wait when the kernel answers `e`. -/
def Socket.Blocks (s : State) (i : SockId) (e : Errno) : SockCall → Prop
  | .connect => (s.sock i).timeout ≠ some 0 ∧ (e = .EINPROGRESS ∨ e = .EWOULDBLOCK ∨ e = .EALREADY)
  | _ => Socket._needBlock s i e = true

/-- The call `f` of `c` returns the error of `watcher:start` at once, and its timer is off. -/
structure State.Refused (s : State) (c : Co) (i : SockId) (f : SockCall) (s' : State) : Prop where
  running : s'.mode c = .running
  ret : s'.log = s.log ++ [.ret c (f.failed (.watcher (f.watcher i)))]
  timer : Timeout.hasTimer (s.sock i).timeout = true →
    s'.watcher (.timeout s.nextTimeout) = ⟨none, false⟩

/-- What `Hub:wait` of `a` has registered is as before. -/
structure State.Undisturbed (s : State) (a : Co) (x : WatcherId) (w : WaiterId)
    (s' : State) : Prop where
  mode : s'.mode a = s.mode a
  entry : s'.waiters a = s.waiters a
  waiter : s'.waiter w = s.waiter w
  watcher : s'.watcher x = s.watcher x

theorem Socket.refused_blocks {e : Errno} (h : Socket.Blocks s i e f) :
    Socket.refused s c i e f = Socket._wait s c i f := by
  cases f with
  | connect =>
    obtain ⟨ht, he⟩ := h
    have hne : e ≠ .EISCONN := by
      rintro rfl
      simp at he
    exact (if_neg hne).trans (if_neg (not_or.2 ⟨ht, not_not.2 he⟩))
  | _ => exact if_pos h

/-- The state in which a call that fails returns: its waiter is made, and its timer was
    started and is stopped. -/
structure State.WaitFailed (s : State) (i : SockId) (s' : State) : Prop where
  mode : s'.mode = s.mode
  entry : s'.waiters = s.waiters
  waiter : ∀ w, w < s.nextWaiter → s'.waiter w = s.waiter w
  watcher : ∀ y, y ≠ .timeout s.nextTimeout → s'.watcher y = s.watcher y
  timer : Timeout.hasTimer (s.sock i).timeout = true →
    s'.watcher (.timeout s.nextTimeout) = ⟨none, false⟩
  log : s'.log = s.log

theorem State.waitNew_failed (h : Timeout.hasTimer (s.sock i).timeout = false) :
    s.WaitFailed i s.waitNew where
  mode := rfl
  entry := rfl
  waiter w hw := Function.update_of_ne hw.ne _ _
  watcher _ _ := rfl
  timer ht := absurd (ht.symm.trans h) (by decide)
  log := rfl

theorem Timeout.startNew_eq (s : State) (c : Co) (sec : Option ℤ) :
    ∃ W, Timeout.startNew s c sec = (s.nextTimeout, { (Timeout.new s sec).2 with watcher := W }) ∧
      ∀ y, y ≠ .timeout s.nextTimeout → W y = s.watcher y := by
  have hsame : ∀ s₁, Timeout.start (Timeout.new s sec).2 c s.nextTimeout = .ok s₁ →
      ∃ W, s₁ = { (Timeout.new s sec).2 with watcher := W } ∧
        ∀ y, y ≠ .timeout s.nextTimeout → W y = s.watcher y := by
    intro s₁ h
    unfold Timeout.start Watcher.start at h
    split at h
    · split at h
      · cases h
        exact ⟨_, rfl, fun y hy => Function.update_of_ne hy _ _⟩
      · cases h
    · cases h
      exact ⟨_, rfl, fun _ _ => rfl⟩
  cases h : Timeout.start (Timeout.new s sec).2 c s.nextTimeout with
  | ok s₁ =>
    obtain ⟨W, rfl, hW⟩ := hsame s₁ h
    refine ⟨W, ?_, hW⟩
    unfold Timeout.startNew
    dsimp only [Timeout.new] at h ⊢
    rw [h]
  | error v =>
    refine ⟨s.watcher, ?_, fun _ _ => rfl⟩
    unfold Timeout.startNew
    dsimp only [Timeout.new] at h ⊢
    rw [h]

theorem Timeout.startNew_cancel_failed (c : Co) (h : Timeout.hasTimer (s.sock i).timeout = true) :
    s.WaitFailed i
      (Timeout.cancel (Timeout.startNew s c (s.sock i).timeout).2.waitNew s.nextTimeout) := by
  obtain ⟨W, heq, hW⟩ := Timeout.startNew_eq s c (s.sock i).timeout
  rw [heq]
  dsimp only [Timeout.new]
  unfold Timeout.cancel
  have hsec : ∀ s₁ : State,
      s₁.seconds = Function.update s.seconds s.nextTimeout (s.sock i).timeout →
      Timeout.hasTimer (s₁.waitNew.seconds s.nextTimeout) = true := by
    intro s₁ h₁
    change Timeout.hasTimer (s₁.seconds s.nextTimeout) = true
    rw [h₁, Function.update_self]
    exact h
  rw [if_pos (hsec _ rfl)]
  constructor
  · rfl
  · rfl
  · exact fun w hw => Function.update_of_ne hw.ne _ _
  · exact fun y hy => (Function.update_of_ne hy _ _).trans (hW y hy)
  · exact fun _ => Function.update_self _ _ _
  · rfl

/-- **A call that comes to wait** for a watcher that has a function fails. -/
theorem Socket._wait_taken (c : Co) (hx : (s.watcher (f.watcher i)).cb ≠ none) :
    ∃ s₁, s.WaitFailed i s₁ ∧
      Socket._wait s c i f = finish s₁ c (.ok (f.failed (.watcher (f.watcher i)))) := by
  unfold Socket._wait
  dsimp only
  cases ht : Timeout.hasTimer (s.sock i).timeout with
  | false =>
    refine ⟨s.waitNew, State.waitNew_failed ht, ?_⟩
    rw [if_neg (by decide), Hub.wait_eq, if_neg hx]
    rfl
  | true =>
    obtain ⟨W, heq, hW⟩ := Timeout.startNew_eq s c (s.sock i).timeout
    refine ⟨_, Timeout.startNew_cancel_failed c ht, ?_⟩
    have hx' : ((Timeout.startNew s c (s.sock i).timeout).2.watcher (f.watcher i)).cb ≠ none := by
      rw [heq]
      dsimp only
      rwa [hW]
      intro h
      have := f.watcher_sock i
      rw [h] at this
      cases this
    have ht₁ : (Timeout.startNew s c (s.sock i).timeout).1 = s.nextTimeout := by rw [heq]
    rw [if_pos rfl, ht₁, Hub.wait_eq, if_neg hx']
    rfl

/-! ## The coroutine that waits -/

/-- `waiter:get` of `w` has ended with `r`, and `a` goes on. -/
structure State.Resumed (s : State) (a : Co) (w : WaiterId) (r : Except Value Value) : Prop where
  done : .getDone w r ∈ s.log
  awake : ∀ w' k, s.mode a ≠ .blocked w' k

/-- `a` is resumed by a readiness event, a timeout or a cancel that comes next. -/
structure State.Resumable (s : State) (a : Co) (x : WatcherId) (w : WaiterId) (u : ℕ) : Prop where
  ready : ∃ t, step s (.fire x) = some t ∧ t.Resumed a w (.ok (.userdata u))
  timeout : ∀ y e, s.watcher y = ⟨some (.throw a e), true⟩ →
    ∃ t, step s (.fire y) = some t ∧ t.Resumed a w (.error (.exn e))
  cancel : ∀ err cbs, s.callbacks = .cancelWait x err :: cbs →
    ∃ t, step s .callback = some t ∧ t.Resumed a w (.error (.exn (err.getD .cancelWait)))

theorem finish_log (s : State) (c : Co) (r : Outcome) : ∃ os, (finish s c r).log = s.log ++ os := by
  cases r with
  | ok vs => exact ⟨_, rfl⟩
  | error v =>
    obtain ⟨E, hE⟩ := (Timeout.cancel_all_env (s := s) (unwind v (s.stack c)).1).frame
    unfold finish raise
    dsimp only
    rw [hE]
    split
    · unfold fail
      split
      · exact ⟨[], (List.append_nil _).symm⟩
      · exact ⟨_, rfl⟩
    · exact ⟨_, rfl⟩

theorem finish_awake (hc : c ≠ 0) (r : Outcome) (w : WaiterId) (k : Call) :
    (finish s c r).mode c ≠ .blocked w k := by
  cases r with
  | ok vs => simp [finish, State.emit, State.setMode]
  | error v =>
    unfold finish raise
    dsimp only
    split
    · rw [fail, if_neg hc]
      simp [giveBack, State.emit, State.setStack, State.setMode]
    · simp [State.emit, State.setStack, State.setMode]

/-- After `Hub:wait`, a coroutine goes on to its own code, or to the next system call. -/
theorem Hub.waitDone_resumed {r : Except Value Value} (hc : c ≠ 0)
    (hlog : .getDone w r ∈ s.log) (k : HubCaller) (r' : Except Value Unit) :
    (Hub.waitDone s c k r').Resumed c w r := by
  have hfin : ∀ {s₁ : State}, s₁.log = s.log → ∀ r', (finish s₁ c r').Resumed c w r := by
    intro s₁ h r'
    obtain ⟨os, hos⟩ := finish_log s₁ c r'
    refine ⟨?_, finish_awake hc r'⟩
    rw [hos, h]
    exact List.mem_append_left _ hlog
  have hagain : ∀ {s₁ : State}, s₁.log = s.log → ∀ i f, (Socket.again s₁ c i f).Resumed c w r := by
    intro s₁ h i f
    have hsys : (s₁.setMode c (.sys i f)).Resumed c w r := by
      refine ⟨?_, fun w' k => by simp [State.setMode]⟩
      change _ ∈ s₁.log
      rw [h]
      exact hlog
    have hcall : (Socket.call s₁ c i f).Resumed c w r := by
      unfold Socket.call
      split
      · split <;> exact hfin h _
      · exact hsys
    unfold Socket.again
    split
    · exact hcall
    · exact hcall
    · exact hsys
  have hcancel : ∀ t, (Timeout.cancel s t).log = s.log := by
    intro t
    obtain ⟨E, hE⟩ := (Timeout.cancel_env (s := s) t).frame
    rw [hE]
    rfl
  cases k with
  | sleep => exact hfin rfl _
  | sock i f t =>
    unfold Hub.waitDone
    cases t with
    | none =>
      cases r' with
      | ok => exact hagain rfl i f
      | error v => exact hfin rfl _
    | some t =>
      cases r' with
      | ok => exact hagain (hcancel t) i f
      | error v => exact hfin (hcancel t) _

/-- A waiter whose coroutine is in `Hub:wait` is switched. -/
theorem Waiter._switch_resumed {k : HubCaller} {v e : Value} (hs : s.HubInv) (hcur : s.cur = none)
    (ha : s.mode a = .blocked w (.hubWait x u k)) (he : ¬ (e.truthy ∧ ¬ isException e)) :
    (Waiter._switch s w v e).1.Resumed a w (Waiter.result ⟨some a, v, e⟩) ∧
      (Waiter._switch s w v e).2 = none := by
  obtain ⟨-, hco, hexc⟩ := hs.blocked ha
  have h0 := hs.ne_zero ha
  rw [Waiter._switch_blocked hcur ha h0 hco hexc he]
  refine ⟨Hub.waitDone_resumed h0 ?_ k _, rfl⟩
  change _ ∈ (s.resume a w v e).log
  rw [State.resume, hco]
  exact List.mem_append_right _ (List.mem_singleton_self _)

/-- A coroutine in `Hub:wait` is resumed. -/
theorem State.Resumable.of_watched {k : HubCaller} (hs : s.Sound) (hw : s.Watched) (hb : s.Between)
    (hx : x.sock.isSome) (ha : s.mode a = .blocked w (.hubWait x u k)) : s.Resumable a x w u := by
  have hreg : s.watcher x = ⟨some (.wake w u), true⟩ := hw.registered a x w u ⟨hx, k, ha⟩
  have hentry := (hs.hub.blocked ha).1
  have hexpire : ∀ y, (Loop.expire s y).HubInv ∧ (Loop.expire s y).cur = none ∧
      (Loop.expire s y).mode = s.mode ∧ (Loop.expire s y).waiters = s.waiters := by
    intro y
    have henv := Loop.expire_env (s := s) y
    refine ⟨hs.hub.micro (R := Rules.free) (.env none s _ henv) hs.pool, ?_, ?_, ?_⟩
    · rw [henv.eq]
      exact hb.2
    · rw [henv.eq]
      rfl
    · rw [henv.eq]
      rfl
  have hfire : ∀ y, (s.watcher y).active = true → step s (.fire y) = some (Loop.fire s y) := by
    intro y hy
    exact if_pos ⟨hb, hy⟩
  have hthrow : ∀ {s₁ : State} (e : Exn), s₁.HubInv → s₁.cur = none → s₁.mode a = s.mode a →
      (Waiter.throw s₁ w (.exn e)).1.Resumed a w (.error (.exn e)) := by
    intro s₁ e hh hcur hm
    exact (Waiter._switch_resumed hh hcur (hm.trans ha) (by simp [isException])).1
  refine ⟨⟨_, hfire x (by rw [hreg]), ?_⟩, fun y e hy => ⟨_, hfire y (by rw [hy]), ?_⟩,
    fun err cbs hcb => ?_⟩
  · obtain ⟨hh, hcur, hm, -⟩ := hexpire x
    unfold Loop.fire
    rw [hreg]
    exact (Waiter._switch_resumed hh hcur ((congrFun hm a).trans ha) (by simp [Value.truthy])).1
  · obtain ⟨hh, hcur, hm, hwaiters⟩ := hexpire y
    unfold Loop.fire
    rw [hy]
    dsimp only
    unfold Hub.throw
    rw [hwaiters, hentry]
    exact hthrow e hh hcur (congrFun hm a)
  · refine ⟨Loop.begin { s with callbacks := cbs } (.cancelWait x err), ?_, ?_⟩
    · unfold step
      dsimp only
      rw [if_pos hb, hcb]
    · change (Hub._cancelWait { s with callbacks := cbs } x err).1.Resumed _ _ _
      unfold Hub._cancelWait Watcher.isActive
      dsimp only
      rw [hreg]
      exact hthrow _ hs.hub hb.2 rfl

/-! ## Runs -/

theorem watched_run (hrun : run step (State.init value maxsizes) as = some s) : s.Watched :=
  Lib.run_inv (C := fun _ _ => True) (fun _ _ _ h _ hs => step_watched h hs) (.init value maxsizes)
    (.of_forall fun _ _ _ => trivial) hrun

theorem sound_run (hrun : run step (State.init value maxsizes) as = some s)
    (hraw : ∀ act ∈ as, ¬ act.Raw) : s.Sound :=
  Lib.run_inv (C := Plain) (fun _ _ _ h ha hs => h.micros (step_micros h hs (StepOk.free ha)))
    (State.init_initial value maxsizes).sound (.of_forall fun _ act hact => hraw act hact) hrun

/-- **A second wait fails at once, and leaves the first one as it is**; in the runs of the
    library's operations, the coroutine that waits is resumed by what comes next. -/
theorem second_wait_fails {k : HubCaller} {e : Errno}
    (hrun : run step (State.init value maxsizes) as = some s)
    (ha : s.mode a = .blocked w (.hubWait x u k)) (hc : s.mode s.running = .sys i f)
    (hx : f.watcher i = x) (he : Socket.Blocks s i e f) :
    ∃ s', step s (.sys (.err e)) = some s' ∧ s.Refused s.running i f s' ∧ s.Undisturbed a x w s' ∧
      s'.watcher x = ⟨some (.wake w u), true⟩ ∧
        ((∀ act ∈ as, ¬ act.Raw) → ∀ bs t, (∀ act ∈ bs, ¬ act.Raw) →
          run step s' bs = some t → t.Between → t.mode a = s.mode a → t.Resumable a x w u) := by
  have hsock : x.sock.isSome := by
    rw [← hx, f.watcher_sock]
    rfl
  have hwatched := watched_run hrun
  have hwaits : s.WaitsFor a x w u := ⟨hsock, k, ha⟩
  have hreg := hwatched.registered a x w u hwaits
  have hne : a ≠ s.running := by
    intro h
    rw [← h, ha] at hc
    cases hc
  have hstep : step s (.sys (.err e)) =
      some (Socket.refused (s.setMode s.running .running) s.running i e f) := by
    unfold step
    dsimp only
    rw [hc]
    rfl
  have hblocks : Socket.Blocks (s.setMode s.running .running) i e f := by
    cases f <;> exact he
  have htaken : ((s.setMode s.running .running).watcher (f.watcher i)).cb ≠ none := by
    change (s.watcher (f.watcher i)).cb ≠ none
    rw [hx, hreg]
    exact Option.some_ne_none _
  obtain ⟨s₁, hs₁, hwait⟩ := Socket._wait_taken s.running htaken
  rw [Socket.refused_blocks hblocks, hwait] at hstep
  have hwatch : s₁.watcher x = s.watcher x := by
    refine hs₁.watcher x ?_
    rintro rfl
    cases hsock
  refine ⟨_, hstep, ⟨?_, ?_, hs₁.timer⟩, ?_, ?_, fun hraw bs t hbs ht hb hm => ?_⟩
  · exact Function.update_self _ _ _
  · exact congrArg (· ++ _) hs₁.log
  · have hmode : (s₁.setMode s.running .running).mode a = s.mode a := by
      rw [State.setMode, hs₁.mode]
      exact (Function.update_of_ne hne _ _).trans (Function.update_of_ne hne _ _)
    refine ⟨hmode, congrFun hs₁.entry a, hs₁.waiter w (hwatched.made a x w u hwaits), hwatch⟩
  · exact hwatch.trans hreg
  · have hraw' : ∀ act ∈ as ++ .sys (.err e) :: bs, ¬ act.Raw := by
      intro act hact
      rcases List.mem_append.1 hact with hact | hact
      · exact hraw act hact
      · rcases List.mem_cons.1 hact with rfl | hact
        · exact fun h => h
        · exact hbs act hact
    have hrun' : run step (State.init value maxsizes) (as ++ .sys (.err e) :: bs) = some t :=
      Lib.run_append.2 ⟨s, hrun, Lib.run_cons.2 ⟨_, hstep, ht⟩⟩
    exact .of_watched (sound_run hrun' hraw') (watched_run hrun') hb hsock (hm.trans ha)

/-- Two tasks read from a socket that has a timeout. -/
def twoReaders : List Act :=
  [.enter, .op (.spawn []), .op (.spawn []), .op (.returns []),
    .callback, .op .socket, .op (.socketSetTimeout 0 (some 5)), .op (.socketCall 0 .recv),
    .sys (.err .EAGAIN), .callback, .op (.socketCall 0 .recv)]

theorem second_wait_fails_recv : ∃ s s', run step (State.init (fun _ => 0) []) twoReaders = some s ∧
    step s (.sys (.err .EAGAIN)) = some s' ∧ s.Refused 2 0 .recv s' ∧
      s.Undisturbed 1 (.read 0) 0 s' := by
  have hrun : run step (State.init (fun _ => 0) []) twoReaders = some _ := rfl
  obtain ⟨s', hstep, hrefused, hsame, -⟩ :=
    second_wait_fails (a := 1) (e := .EAGAIN) hrun rfl rfl rfl rfl
  exact ⟨_, s', hrun, hstep, hrefused, hsame⟩

end Levent
