/-
  The watchers of sockets: a coroutine that waits in `Hub:wait` for one has its waiter
  there, and no other coroutine waits for it.

  This holds however the code uses the waiters it handles itself, so that it is kept by
  every step, and not only by those of the library.
-/
import Levent.Runtime.Code

namespace Levent

variable {s s' s₁ : State} {c : Co} {x : WatcherId} {w : WaiterId} {u : ℕ}

/-! ## Who waits for a socket -/

/-- `c` is in `Hub:wait` for the watcher `x` of a socket. -/
def State.WaitsFor (s : State) (c : Co) (x : WatcherId) (w : WaiterId) (u : ℕ) : Prop :=
  x.sock.isSome ∧ ∃ k, s.mode c = .blocked w (.hubWait x u k)

structure State.Watched (s : State) : Prop where
  registered : ∀ c x w u, s.WaitsFor c x w u → s.watcher x = ⟨some (.wake w u), true⟩
  alone : ∀ c d x w u w' u', s.WaitsFor c x w u → s.WaitsFor d x w' u' → c = d
  made : ∀ c x w u, s.WaitsFor c x w u → w < s.nextWaiter

/-- Not in `Hub:wait` for a socket. -/
def Mode.Free (m : Mode) : Prop := ∀ w x u k, x.sock.isSome → m ≠ .blocked w (.hubWait x u k)

theorem Mode.Free.of_ne {m : Mode} (h : ∀ w k, m ≠ .blocked w k) : m.Free := fun w _ _ _ _ => h w _

theorem Mode.Free.blocked {k : Call} (h : k.Light) (w : WaiterId) : (Mode.blocked w k).Free := by
  intro w' x u k' hx heq
  cases heq
  rw [h.2] at hx
  cases hx

/-- Nobody has begun to wait for a socket, and the watchers of sockets are the same. -/
structure State.Still (s s' : State) : Prop where
  mode : ∀ c, s'.mode c = s.mode c ∨ (s'.mode c).Free
  watcher : ∀ x i, x.sock = some i → s'.watcher x = s.watcher x
  next : s.nextWaiter ≤ s'.nextWaiter

theorem State.Still.waitsFor (h : s.Still s') (hc : s'.WaitsFor c x w u) : s.WaitsFor c x w u := by
  obtain ⟨hx, k, hk⟩ := hc
  rcases h.mode c with hm | hm
  · exact ⟨hx, k, hm ▸ hk⟩
  · exact absurd hk (hm w x u k hx)

theorem State.Watched.still (hs : s.Watched) (h : s.Still s') : s'.Watched where
  registered c x w u hc := by
    obtain ⟨i, hi⟩ := Option.isSome_iff_exists.1 hc.1
    rw [h.watcher x i hi]
    exact hs.registered c x w u (h.waitsFor hc)
  alone c d x w u w' u' hc hd := hs.alone c d x w u w' u' (h.waitsFor hc) (h.waitsFor hd)
  made c x w u hc := (hs.made c x w u (h.waitsFor hc)).trans_le h.next

theorem State.Still.trans {s'' : State} (h : s.Still s') (h' : s'.Still s'') : s.Still s'' where
  mode c := by
    rcases h'.mode c with hm | hm
    · rw [hm]
      exact h.mode c
    · exact .inr hm
  watcher x i hx := (h'.watcher x i hx).trans (h.watcher x i hx)
  next := h.next.trans h'.next

theorem State.Still.same (hm : s'.mode = s.mode) (hw : s'.watcher = s.watcher)
    (hn : s'.nextWaiter = s.nextWaiter) : s.Still s' where
  mode c := .inl (by rw [hm])
  watcher x _ _ := by rw [hw]
  next := hn.ge

theorem State.Still.refl : s.Still s := .same rfl rfl rfl

/-- One coroutine goes on elsewhere. -/
theorem State.Still.update {m : Mode} (hm : m.Free) (hmode : s'.mode = Function.update s.mode c m)
    (hw : s'.watcher = s.watcher) (hn : s'.nextWaiter = s.nextWaiter) : s.Still s' where
  mode d := by
    rw [hmode]
    by_cases hd : d = c
    · subst hd
      rw [Function.update_self]
      exact .inr hm
    · exact .inl (Function.update_of_ne hd _ _)
  watcher x _ _ := by rw [hw]
  next := hn.ge

/-- A watcher that is not one of a socket. -/
theorem State.setWatcher_still (hx : x.sock = none) (o : Watcher) : s.Still (s.setWatcher x o) where
  mode _ := .inl rfl
  watcher x' i hx' := by
    refine Function.update_of_ne ?_ _ _
    rintro rfl
    rw [hx] at hx'
    cases hx'
  next := le_rfl

/-! ## The ends of a call -/

theorem Timeout.cancel_still (t : TimeoutId) : s.Still (Timeout.cancel s t) := by
  unfold Timeout.cancel
  split
  · exact State.setWatcher_still rfl _
  · exact .refl

theorem Timeout.cancel_all_still (ts : List TimeoutId) : s.Still (ts.foldl Timeout.cancel s) := by
  induction ts generalizing s with
  | nil => exact .refl
  | cons t ts ih => exact (Timeout.cancel_still t).trans ih

theorem Timeout.startNew_still (sec : Option ℤ) : s.Still (Timeout.startNew s c sec).2 := by
  have hnew : s.Still (Timeout.new s sec).2 := .same rfl rfl rfl
  simp only [Timeout.startNew]
  split
  · rename_i h
    refine hnew.trans ?_
    unfold Timeout.start Watcher.start at h
    split at h
    · split at h
      · cases h
        exact State.setWatcher_still rfl _
      · cases h
    · cases h
      exact .refl
  · exact hnew

theorem fail_still (v : Value) : s.Still (fail s c v) := by
  unfold fail
  split
  · exact .same rfl rfl rfl
  · exact .update (m := .dead) (.of_ne (by simp)) rfl rfl rfl

theorem finish_still (r : Outcome) : s.Still (finish s c r) := by
  have hrun : Mode.Free .running := .of_ne (by simp)
  cases r with
  | ok vs => exact .update hrun rfl rfl rfl
  | error v =>
    unfold finish raise
    dsimp only
    refine (Timeout.cancel_all_still (unwind v (s.stack c)).1).trans ?_
    split
    · exact fail_still _
    · exact .update hrun rfl rfl rfl

theorem State.Still.finish (h : s.Still s') (r : Outcome) :
    s.Still (finish s' c r) := h.trans (finish_still r)

theorem returns_still (vs : List Value) : s.Still (returns s c vs) := by
  unfold returns
  split
  · exact .same rfl rfl rfl
  · exact (Timeout.cancel_still _).trans (.same rfl rfl rfl)
  · split
    · exact .same rfl rfl rfl
    · exact .update (m := .pooled) (.of_ne (by simp)) rfl rfl rfl

/-! ## Methods that do not wait for a socket -/

theorem Event.set_still (e : EventId) : s.Still (Event.set s e) := by
  obtain ⟨E, C, L, he, -⟩ := Event.set_frame s e
  rw [he]
  exact .same rfl rfl rfl

theorem AsyncResult._set_still {a : AsyncId} {v e : Value}
    (h : AsyncResult._set s a v e = .ok s') : s.Still s' := by
  obtain ⟨A, C, rfl, -⟩ := AsyncResult._set_frame s h
  exact .same rfl rfl rfl

theorem unlink_cancel_still (y : Sync) (w : WaiterId) (t : TimeoutId) :
    s.Still (Timeout.cancel (s.unlink y w) t) := by
  obtain ⟨E, A, M, Q, he⟩ := s.setLinks_frame ((s.links y).erase w) y
  refine State.Still.trans ?_ (Timeout.cancel_still t)
  rw [State.unlink, he]
  exact .same rfl rfl rfl

theorem Semaphore.passed_still (x : SemId) (t : Option TimeoutId) (acquire : Bool) :
    s.Still (Semaphore.passed s c x t acquire) := by
  have hemit : ∀ o, s.Still (s.emit o) := fun _ => .same rfl rfl rfl
  unfold Semaphore.passed
  refine (hemit (.semTrue x (s.sem x).counter t)).trans ?_
  dsimp only
  split
  · refine State.Still.finish ?_ _
    exact .same rfl rfl rfl
  · exact finish_still _

theorem Queue.putItem_still (q : QueueId) (item : Value) : s.Still (Queue.putItem s c q item) := by
  obtain ⟨Q, E, C, L, he, -⟩ := Queue._put_frame s q item
  unfold Queue.putItem
  rw [he]
  refine State.Still.finish ?_ _
  exact .same rfl rfl rfl

theorem Queue.getItem_still (q : QueueId) : s.Still (Queue.getItem s c q) := by
  unfold Queue.getItem
  split
  · rename_i item s' hs
    obtain ⟨Q, C, L, rfl, -⟩ := Queue._get_frame s hs
    refine State.Still.finish ?_ _
    exact .same rfl rfl rfl
  · refine State.Still.finish ?_ _
    exact .same rfl rfl rfl

/-- What a call does after its `waiter.get`, if it has not waited for a socket. -/
theorem afterGet_still {k : Call} (hk : k.Light) (w : WaiterId) (r : Except Value Value) :
    s.Still (afterGet s c w k r) := by
  cases k with
  | get => exact finish_still _
  | eventWait e t =>
    refine (unlink_cancel_still (.event e) w t).trans ?_
    unfold afterGet Event.waited
    cases r <;> exact finish_still _
  | asyncGet a t =>
    refine (unlink_cancel_still (.async a) w t).trans ?_
    unfold afterGet AsyncResult.got
    cases r <;> exact finish_still _
  | semWait x t acquire =>
    refine (unlink_cancel_still (.sem x) w t).trans ?_
    unfold afterGet Semaphore.waited
    dsimp only
    split
    · refine State.Still.finish ?_ _
      exact .same rfl rfl rfl
    · split
      · exact Semaphore.passed_still x _ acquire
      · refine State.Still.finish ?_ _
        exact .same rfl rfl rfl
  | queuePut q item t =>
    refine (unlink_cancel_still (.put q) w t).trans ?_
    unfold afterGet Queue.putWaited
    cases r
    · exact finish_still _
    · exact Queue.putItem_still q item
  | queueGet q t =>
    refine (unlink_cancel_still (.get q) w t).trans ?_
    unfold afterGet Queue.getWaited
    cases r
    · exact finish_still _
    · exact Queue.getItem_still q
  | hubWait x u k =>
    obtain ⟨rfl, hx⟩ := hk
    exact (State.setWatcher_still hx _).trans (finish_still _)

theorem Waiter.get_still {k : Call} (hk : k.Light) (w : WaiterId) :
    s.Still (Waiter.get s c w k) := by
  have hdone : ∀ {s₁ : State} {r : Except Value Value}, s.Still s₁ →
      s.Still (Waiter.done s₁ c w k r) := by
    intro s₁ r h
    have hemit : s₁.Still (s₁.emit (.getDone w r)) := .same rfl rfl rfl
    exact (h.trans hemit).trans (afterGet_still hk w r)
  unfold Waiter.get Hub._yield
  dsimp only
  split
  · split
    · exact hdone (.same rfl rfl rfl)
    · split
      · exact hdone (.same rfl rfl rfl)
      · exact .update (Mode.Free.blocked hk w) rfl rfl rfl
  · exact hdone (.same rfl rfl rfl)

theorem State.newLink_still (y : Sync) : s.Still (s.newLink y) := by
  obtain ⟨E, A, M, Q, he⟩ := s.newLink_frame y
  rw [he]
  exact ⟨fun _ => .inl rfl, fun _ _ _ => rfl, Nat.le_succ _⟩

/-- A call registers a waiter, starts its timer and waits. -/
theorem link_get_still (y : Sync) (sec : Option ℤ) (w : WaiterId) {k : TimeoutId → Call}
    (hk : ∀ t, (k t).Light) : s.Still (Waiter.get (Timeout.startNew (s.newLink y) c sec).2 c w
      (k (Timeout.startNew (s.newLink y) c sec).1)) :=
  ((State.newLink_still y).trans (Timeout.startNew_still sec)).trans (Waiter.get_still (hk _) w)

theorem Event.wait_still (e : EventId) (sec : Option ℤ) : s.Still (Event.wait s c e sec) := by
  unfold Event.wait
  split
  · exact finish_still _
  · exact link_get_still (.event e) sec s.nextWaiter (k := .eventWait e) fun _ => trivial

theorem AsyncResult.get_still (a : AsyncId) (sec : Option ℤ) :
    s.Still (AsyncResult.get s c a sec) := by
  unfold AsyncResult.get
  split
  · exact ((Timeout.startNew_still sec).trans (State.newLink_still (.async a))).trans
      (Waiter.get_still (k := .asyncGet a _) trivial _)
  · exact finish_still _

theorem Semaphore.wait_still (x : SemId) (sec : Option ℤ) (acquire : Bool) :
    s.Still (Semaphore.wait s c x sec acquire) := by
  have hemit : ∀ {s : State} o, s.Still (s.emit o) := fun _ => .same rfl rfl rfl
  unfold Semaphore.wait
  refine (hemit (.semCall x c (s.sem x).counter)).trans ?_
  dsimp only
  split
  · exact Semaphore.passed_still x none acquire
  · exact (((State.newLink_still (.sem x)).trans (Timeout.startNew_still sec)).trans
      (hemit _)).finish _

theorem Queue.put_still (q : QueueId) (item : Value) (sec : Option ℤ) :
    s.Still (Queue.put s c q item sec) := by
  unfold Queue.put
  split
  · exact Queue.putItem_still q item
  · exact link_get_still (.put q) sec s.nextWaiter (k := .queuePut q item) fun _ => trivial

theorem Queue.get_still (q : QueueId) (sec : Option ℤ) : s.Still (Queue.get s c q sec) := by
  unfold Queue.get
  split
  · exact Queue.getItem_still q
  · exact link_get_still (.get q) sec s.nextWaiter (k := .queueGet q) fun _ => trivial

theorem check_still (n : ℕ) : s.Still (Coroutines.coRawCreate^[n] s) := by
  induction n generalizing s with
  | zero => exact .refl
  | succ n ih =>
    have hcreate : s.Still (Coroutines.coRawCreate s) :=
      .update (m := .pooled) (.of_ne (by simp)) rfl rfl rfl
    exact hcreate.trans ih

theorem Socket.call_still (i : SockId) (f : SockCall) : s.Still (Socket.call s c i f) := by
  unfold Socket.call
  split
  · split <;> exact finish_still _
  · exact .update (m := .sys i f) (.of_ne (by simp)) rfl rfl rfl

theorem Socket.again_still (i : SockId) (f : SockCall) : s.Still (Socket.again s c i f) := by
  unfold Socket.again
  split
  · exact Socket.call_still i _
  · exact Socket.call_still i _
  · exact .update (m := .sys i f) (.of_ne (by simp)) rfl rfl rfl

theorem Socket.start_still (i : SockId) (f : SockCall) : s.Still (Socket.start s c i f) := by
  unfold Socket.start
  split
  · split
    · exact Socket.call_still i _
    · exact finish_still _
  · exact Socket.call_still i _

theorem Socket.new_still : s.Still (Socket.new s c) := by
  unfold Socket.new
  refine State.Still.finish ?_ _
  exact .same rfl rfl rfl

theorem Socket.answered_still (i : SockId) (v : Value) (f : SockCall) :
    s.Still (Socket.answered s c i v f) := by
  unfold Socket.answered
  split
  · exact Socket.new_still
  · exact finish_still _
  · split
    · exact Socket.call_still i _
    · exact finish_still _
  · exact finish_still _

theorem Hub.waitDone_still (k : HubCaller) (r : Except Value Unit) :
    s.Still (Hub.waitDone s c k r) := by
  have hdone : ∀ {s₁ : State} (i : SockId) (f : SockCall), s.Still s₁ →
      s.Still (Socket.again s₁ c i f) ∧ ∀ r, s.Still (finish s₁ c r) :=
    fun i f h => ⟨h.trans (Socket.again_still i f), fun r => h.finish r⟩
  cases k with
  | sleep => exact finish_still _
  | sock i f t =>
    unfold Hub.waitDone
    cases t with
    | none =>
      cases r with
      | ok => exact (hdone i f .refl).1
      | error v => exact (hdone i f .refl).2 _
    | some t =>
      cases r with
      | ok => exact (hdone i f (Timeout.cancel_still t)).1
      | error v => exact (hdone i f (Timeout.cancel_still t)).2 _

/-! ## Hub:wait -/

/-- A watcher that nobody waits for can be started and stopped. -/
theorem State.Watched.setWatcher (hs : s.Watched)
    (hx : ∀ c w u, ¬ s.WaitsFor c x w u) (o : Watcher) :
    (s.setWatcher x o).Watched where
  registered c x' w u hc := by
    have hne : x' ≠ x := by
      rintro rfl
      exact hx c w u hc
    exact (Function.update_of_ne hne _ _).trans (hs.registered c x' w u hc)
  alone := hs.alone
  made := hs.made

/-- Nobody waits for a watcher without a function. -/
theorem State.Watched.not_waitsFor (hs : s.Watched) (hx : (s.watcher x).cb = none) (c : Co)
    (w : WaiterId) (u : ℕ) : ¬ s.WaitsFor c x w u := by
  intro hc
  rw [hs.registered c x w u hc] at hx
  cases hx

/-- A coroutine that leaves `Hub:wait` stops its watcher. -/
theorem State.Watched.leave {k : HubCaller} (hs : s.Watched)
    (hk : s.mode c = .blocked w (.hubWait x u k)) (hm : s'.mode = Function.update s.mode c .running)
    (hw : s'.watcher = s.watcher) (hn : s'.nextWaiter = s.nextWaiter) : (Watcher.stop s' x).Watched := by
  have hstill : s.Still s' := .update (.of_ne (by simp)) hm hw hn
  refine (hs.still hstill).setWatcher (fun d w' u' hd => ?_) _
  have hdc : d ≠ c := by
    rintro rfl
    obtain ⟨-, k', hk'⟩ := hd
    rw [hm, Function.update_self] at hk'
    cases hk'
  have hd' := hstill.waitsFor hd
  exact hdc (hs.alone d c x w' u' w u hd' ⟨hd'.1, k, hk⟩)

/-- The coroutine is suspended, and nobody else waits for the watcher. -/
theorem State.Watched.enter (hs : (s.waitStart x).Watched)
    (hx : ∀ d w u, ¬ s.waitNew.WaitsFor d x w u) (c : Co) (k : HubCaller) {W : WaiterId → Waiter}
    {V : Co → Option WaiterId} {L : List Obs} {C : Option Co} :
    ({ s.waitStart x with
        mode := Function.update (s.waitStart x).mode c
          (.blocked s.nextWaiter (.hubWait x s.nextUuid k))
        waiter := W, waiters := V, log := L, cur := C } : State).Watched := by
  generalize hs' : ({ s.waitStart x with
        mode := Function.update (s.waitStart x).mode c
          (.blocked s.nextWaiter (.hubWait x s.nextUuid k))
        waiter := W, waiters := V, log := L, cur := C } : State) = s'
  have hmode : s'.mode =
      Function.update (s.waitStart x).mode c (.blocked s.nextWaiter (.hubWait x s.nextUuid k)) := by
    rw [← hs']
  have hwatch : s'.watcher = (s.waitStart x).watcher := by
    rw [← hs']
  have hnext : s'.nextWaiter = (s.waitStart x).nextWaiter := by
    rw [← hs']
  have hself : ∀ {y w u}, s'.WaitsFor c y w u → y = x ∧ w = s.nextWaiter ∧ u = s.nextUuid := by
    rintro y w u ⟨-, k', hk'⟩
    rw [hmode, Function.update_self] at hk'
    cases hk'
    exact ⟨rfl, rfl, rfl⟩
  have hother :
      ∀ {d y w u}, d ≠ c → s'.WaitsFor d y w u → y ≠ x ∧ (s.waitStart x).WaitsFor d y w u := by
    rintro d y w u hd ⟨hy, k', hk'⟩
    rw [hmode, Function.update_of_ne hd] at hk'
    refine ⟨?_, hy, k', hk'⟩
    rintro rfl
    exact hx d w u ⟨hy, k', hk'⟩
  refine ⟨fun d y w u hd => ?_, fun d d' y w u w' u' hd hd' => ?_, fun d y w u hd => ?_⟩
  · rw [hwatch]
    by_cases hdc : d = c
    · subst hdc
      obtain ⟨rfl, rfl, rfl⟩ := hself hd
      exact Function.update_self _ _ _
    · exact hs.registered d y w u (hother hdc hd).2
  · by_cases hdc : d = c
    · subst hdc
      by_contra hne
      exact (hother (Ne.symm hne) hd').1 (hself hd).1
    · have hd1 := hother hdc hd
      by_cases hdc' : d' = c
      · subst hdc'
        exact absurd (hself hd').1 hd1.1
      · exact hs.alone d d' y w u w' u' hd1.2 (hother hdc' hd').2
  · rw [hnext]
    by_cases hdc : d = c
    · subst hdc
      obtain ⟨-, rfl, -⟩ := hself hd
      exact Nat.lt_succ_self _
    · exact hs.made d y w u (hother hdc hd).2

theorem Hub.wait_watched (hs : s.Watched) (c : Co) (x : WatcherId) (k : HubCaller) :
    (Hub.wait s c x k).Watched := by
  have hnew : s.Still s.waitNew := ⟨fun _ => .inl rfl, fun _ _ _ => rfl, Nat.le_succ _⟩
  rw [Hub.wait_eq]
  split
  · rename_i hx
    have hfree : ∀ d w u, ¬ s.waitNew.WaitsFor d x w u :=
      fun d w u hd => hs.not_waitsFor hx d w u (hnew.waitsFor hd)
    have hstart : (s.waitStart x).Watched := (hs.still hnew).setWatcher hfree _
    -- the call fails in `_yield`
    have hdone : ∀ {s₁ : State} {r : Except Value Value}, (s.waitStart x).Still s₁ →
        (Waiter.done s₁ c s.nextWaiter (.hubWait x s.nextUuid k) r).Watched := by
      intro s₁ r h
      have hs₁ : (Watcher.stop (s₁.emit (.getDone s.nextWaiter r)) x).Watched := by
        refine State.Watched.setWatcher ?_ ?_ _
        · exact (hstart.still h).still (.same rfl rfl rfl)
        · exact fun d w u hd => hfree d w u (h.waitsFor hd)
      exact hs₁.still (Hub.waitDone_still k _)
    unfold Waiter.get Hub._yield
    dsimp only
    split
    · split
      · exact hdone (.same rfl rfl rfl)
      · split
        · exact hdone (.same rfl rfl rfl)
        · exact hstart.enter hfree c k
    · exact hdone (.same rfl rfl rfl)
  · exact (hs.still hnew).still (Hub.waitDone_still k _)

/-! ## A coroutine is resumed -/

theorem coResume_watched (hs : s.Watched) (c : Co) (args : List Value) :
    (coResume s c args).Watched := by
  unfold coResume
  split
  · exact hs.still (.update (m := .ready none) (.of_ne (by simp)) rfl rfl rfl)
  · exact hs.still (.update (m := .dead) (.of_ne (by simp)) rfl rfl rfl)
  · exact hs.still (.update (m := .running) (.of_ne (by simp)) rfl rfl rfl)
  · rename_i w k hk
    have hrun :
        s.Still ((({ s with waiters := Function.update s.waiters c none, cur := some c } :
          State).setMode c .running).emit (.getDone w (s.waiter w).result)) :=
      .update (m := .running) (.of_ne (by simp)) rfl rfl rfl
    cases k with
    | hubWait x u k =>
      -- it leaves `Hub:wait`
      have hleave :
          (Watcher.stop ((({ s with waiters := Function.update s.waiters c none, cur := some c } :
            State).setMode c .running).emit (.getDone w (s.waiter w).result)) x).Watched :=
        hs.leave hk rfl rfl rfl
      exact hleave.still (Hub.waitDone_still k _)
    | get => exact (hs.still hrun).still (afterGet_still (k := .get) trivial w _)
    | eventWait e t =>
      exact (hs.still hrun).still (afterGet_still (k := .eventWait e t) trivial w _)
    | asyncGet a t => exact (hs.still hrun).still (afterGet_still (k := .asyncGet a t) trivial w _)
    | semWait x t acquire =>
      exact (hs.still hrun).still (afterGet_still (k := .semWait x t acquire) trivial w _)
    | queuePut q item t =>
      exact (hs.still hrun).still (afterGet_still (k := .queuePut q item t) trivial w _)
    | queueGet q t => exact (hs.still hrun).still (afterGet_still (k := .queueGet q t) trivial w _)
  all_goals exact hs

theorem Waiter._switch_watched (hs : s.Watched) (w : WaiterId) (v e : Value) :
    (Waiter._switch s w v e).1.Watched := by
  have hset : ∀ o, s.Still ((s.setWaiter w o).emit (.settled w v e)) := fun _ => .same rfl rfl rfl
  unfold Waiter._switch
  split
  · exact hs
  · split
    · exact hs
    · dsimp only
      split
      · exact hs.still (hset _)
      · split
        · exact hs.still (hset _)
        · split
          · exact hs.still (hset _)
          · exact coResume_watched (hs.still (hset _)) _ _

theorem Hub.throw_watched (hs : s.Watched) (c : Co) (e : Value) : (Hub.throw s c e).1.Watched := by
  unfold Hub.throw
  split
  · exact hs
  · exact Waiter._switch_watched hs _ _ _

theorem switching_watched {r : State × Option Value} (hr : r.1.Watched) :
    (switching c r).Watched := by
  obtain ⟨s, v⟩ := r
  cases v with
  | none => exact hr
  | some v =>
    have hfin : s.Still (finish s c (.error v)) := finish_still _
    exact State.Watched.still hr hfin

/-! ## Callbacks -/

theorem Loop.expire_still (x : WatcherId) : s.Still (Loop.expire s x) := by
  cases x with
  | timeout | sleep => exact State.setWatcher_still rfl _
  | read | write => exact .refl

theorem Loop.fire_watched (hs : s.Watched) (x : WatcherId) : (Loop.fire s x).Watched := by
  have hexpire := hs.still (Loop.expire_still x)
  unfold Loop.fire
  split
  · exact Waiter._switch_watched hexpire _ _ _
  · exact Hub.throw_watched hexpire _ _
  · exact hexpire

theorem Loop.begin_watched (hs : s.Watched) (cb : Callback) : (Loop.begin s cb).Watched := by
  have hsame : ∀ {s₁ : State}, s₁.mode = s.mode → s₁.watcher = s.watcher →
      s₁.nextWaiter = s.nextWaiter → s₁.Watched :=
    fun hm hw hn => hs.still (.same hm hw hn)
  cases cb with
  | notify y => exact hsame rfl rfl rfl
  | throw c e target =>
    have hthrow : ∀ {s₁ : State}, s₁.Watched → (Hub.throw s₁ c (.exn e)).1.Watched := fun h =>
      Hub.throw_watched h c _
    unfold Loop.begin
    dsimp only
    split
    · rename_i s' h
      rw [show s' = (Hub.throw _ c (.exn e)).1 from (congrArg Prod.fst h).symm]
      exact hthrow (hsame rfl rfl rfl)
    · exact hthrow hs
  | resume c args => exact coResume_watched hs c args
  | cancelWait x err =>
    change (Hub._cancelWait s x err).1.Watched
    unfold Hub._cancelWait
    split
    · split
      · exact Waiter._switch_watched hs _ _ _
      · exact hs
    · exact hs
  | user => exact hsame rfl rfl rfl

theorem wake_watched (hs : s.Watched) (y : Sync) (w : WaiterId) : (wake s y w).Watched := by
  have hemit : (s.emit (.notified y w)).Watched := hs.still (.same rfl rfl rfl)
  have hswitch := Waiter._switch_watched hemit w (.bool true) .nil
  unfold wake
  split
  · rename_i s' h
    rw [show s' = (Waiter.switch _ w (.bool true)).1 from (congrArg Prod.fst h).symm]
    exact hswitch
  · rename_i s' v h
    have hs' : s'.Watched := by
      rw [show s' = (Waiter.switch _ w (.bool true)).1 from (congrArg Prod.fst h).symm]
      exact hswitch
    exact hs'.still (.same rfl rfl rfl)

theorem Sync.notify_watched (hs : s.Watched) {y : Sync} {w : Option WaiterId}
    (h : y.notify s w = some s') : s'.Watched := by
  have hend : ∀ s : State, s.Still (endNotify s y) := by
    intro s
    obtain ⟨E, Q, he⟩ := endNotify_frame s y
    rw [he]
    exact .same rfl rfl rfl
  rcases Sync.notify_cases h with ⟨-, -, -, -, -, rfl | ⟨q, rfl, -, rfl⟩⟩ | ⟨v, -, -, -, -, rfl⟩
  · exact hs.still (hend s)
  · exact (hs.still (Event.set_still _)).still (hend _)
  · obtain ⟨E, he⟩ := s.take_frame y v
    have htake : s.Still (s.take y v) := by
      rw [he]
      exact .same rfl rfl rfl
    exact wake_watched (hs.still htake) y v

/-! ## Calls -/

theorem plain_still (h : s.Still s') : s.Still (plain s c (.ok s')) := h.finish (.ok [])

theorem sleep_watched (hs : s.Watched) (c : Co) : (sleep s c).Watched := by
  have hnext : s.Still { s with nextSleep := s.nextSleep + 1 } := .same rfl rfl rfl
  exact Hub.wait_watched (hs.still hnext) c _ _

theorem spawn_watched (hs : s.Watched) (c : Co) (args : List Value) : (spawn s c args).Watched := by
  have hcreate : ∀ f, (Coroutines.coCreate s f).2.Watched := by
    intro f
    unfold Coroutines.coCreate
    dsimp only
    have hpool : ((if s.pool = [] then Coroutines.coRawCreate s else s) : State).Watched := by
      split
      · exact hs.still (.update (m := .pooled) (.of_ne (by simp)) rfl rfl rfl)
      · exact hs
    generalize (if s.pool = [] then Coroutines.coRawCreate s else s) = s₀ at hpool
    split
    · exact hpool.still (.update (m := .ready (some f)) (.of_ne (by simp)) rfl rfl rfl)
    · refine coResume_watched (hpool.still ?_) _ _
      exact .same rfl rfl rfl
  have h := hcreate s.nextTask
  unfold spawn
  dsimp only
  generalize Coroutines.coCreate s s.nextTask = r at h ⊢
  refine h.still (State.Still.finish ?_ _)
  exact .same rfl rfl rfl

theorem Op.exec_watched (hs : s.Watched) {o : Op} (h : o.exec s c = some s') : s'.Watched := by
  have hsame : ∀ {s₁ : State}, s₁.mode = s.mode → s₁.watcher = s.watcher →
      s₁.nextWaiter = s.nextWaiter → (plain s c (.ok s₁)).Watched :=
    fun hm hw hn => hs.still (plain_still (.same hm hw hn))
  cases o with
  | eventSet e =>
    cases h
    exact hs.still (plain_still (Event.set_still e))
  | eventWait e sec =>
    cases e with
    | user n =>
      cases h
      exact hs.still (Event.wait_still _ sec)
    | cond q => cases h
  | asyncSet a v =>
    cases h
    unfold plain
    split
    · rename_i s₁ hr
      exact hs.still ((AsyncResult._set_still hr).finish _)
    · exact hs.still (finish_still _)
  | asyncSetException a v =>
    cases h
    unfold plain
    split
    · rename_i s₁ hr
      unfold AsyncResult.setException at hr
      split at hr
      · exact hs.still ((AsyncResult._set_still hr).finish _)
      · cases hr
    · exact hs.still (finish_still _)
  | asyncGet a sec =>
    cases h
    exact hs.still (AsyncResult.get_still a sec)
  | semRelease x =>
    cases h
    obtain ⟨M, C, L, he, -⟩ := Semaphore.release_frame s x
    rw [he]
    exact hsame rfl rfl rfl
  | semWait x sec acquire =>
    cases h
    exact hs.still (Semaphore.wait_still x sec acquire)
  | queuePut q item sec =>
    simp only [Op.exec] at h
    split at h
    · cases h
      exact hs.still (Queue.put_still q item sec)
    · cases h
  | queueGet q sec =>
    simp only [Op.exec] at h
    split at h
    · cases h
      exact hs.still (Queue.get_still q sec)
    · cases h
  | queueJoin q sec =>
    simp only [Op.exec] at h
    split at h
    · cases h
      exact hs.still (Event.wait_still _ sec)
    · cases h
  | sleep =>
    cases h
    exact sleep_watched hs c
  | socket =>
    cases h
    exact hs.still Socket.new_still
  | socketCall i f =>
    cases h
    exact hs.still (Socket.start_still i f)
  | socketClose i =>
    cases h
    have hclose : s.Still (Socket.close s i) := by
      unfold Socket.close
      split
      · exact .refl
      · exact .same rfl rfl rfl
    exact hs.still (plain_still hclose)
  | spawn args =>
    cases h
    exact spawn_watched hs c args
  | kill co target =>
    simp only [Op.exec] at h
    split at h
    · cases h
      exact hsame rfl rfl rfl
    · cases h
  | check n =>
    cases h
    exact hs.still (plain_still (check_still _))
  | timeoutStartNew sec =>
    cases h
    exact hs.still (plain_still (Timeout.startNew_still sec))
  | timeoutCancel t =>
    cases h
    exact hs.still (plain_still (Timeout.cancel_still t))
  | timeoutRun sec =>
    cases h
    exact hs.still ((Timeout.startNew_still sec).trans (.same rfl rfl rfl))
  | pcall =>
    cases h
    exact hs.still (.same rfl rfl rfl)
  | returns vs =>
    cases h
    exact hs.still (returns_still vs)
  | error v =>
    cases h
    exact hs.still (finish_still _)
  | waiter =>
    cases h
    have hnew : s.Still (Hub.waiter s).2 := ⟨fun _ => .inl rfl, fun _ _ _ => rfl, Nat.le_succ _⟩
    exact hs.still (hnew.finish _)
  | waiterGet w =>
    simp only [Op.exec] at h
    split at h
    · cases h
      exact hs.still (Waiter.get_still (k := .get) trivial w)
    · cases h
  | waiterSwitch w v =>
    simp only [Op.exec] at h
    split at h
    · cases h
      exact switching_watched (Waiter._switch_watched hs w v _)
    · cases h
  | waiterThrow w e =>
    simp only [Op.exec] at h
    split at h
    · cases h
      exact switching_watched (Waiter._switch_watched hs w _ e)
    · cases h
  | hubSwitch co v =>
    cases h
    refine switching_watched ?_
    unfold Hub.switch
    split
    · exact hs
    · exact Waiter._switch_watched hs _ _ _
  | hubThrow co e =>
    cases h
    exact switching_watched (Hub.throw_watched hs co e)
  | eventClear | socketSetTimeout | runCallback =>
    cases h
    exact hsame rfl rfl rfl

/-! ## Steps -/

theorem Socket._wait_watched (hs : s.Watched) (c : Co) (i : SockId) (f : SockCall) :
    (Socket._wait s c i f).Watched := by
  unfold Socket._wait
  dsimp only
  split
  · exact Hub.wait_watched (hs.still (Timeout.startNew_still _)) c _ _
  · exact Hub.wait_watched hs c _ _

theorem Socket.step_watched (hs : s.Watched) (c : Co) (i : SockId) (f : SockCall) (r : SysResult) :
    (Socket.step s c i f r).Watched := by
  have hrun : (s.setMode c .running).Watched :=
    hs.still (.update (m := .running) (.of_ne (by simp)) rfl rfl rfl)
  unfold Socket.step
  dsimp only
  generalize s.setMode c .running = s₁ at hrun
  cases r with
  | ok v => exact hrun.still (Socket.answered_still i v f)
  | err e =>
    have hwait := Socket._wait_watched hrun c i
    have hfin : ∀ r, (finish s₁ c r).Watched := fun r => hrun.still (finish_still r)
    dsimp only
    unfold Socket.refused
    split
    · split
      · exact hwait _
      · exact hfin _
    · split
      · exact hfin _
      · split
        · exact hfin _
        · exact hwait _
    · split
      · exact hwait _
      · exact hfin _

/-- **The watchers of sockets** are kept by every step. -/
theorem step_watched (hs : s.Watched) {a : Act} (h : step s a = some s') : s'.Watched := by
  unfold step at h
  cases a with
  | callback =>
    dsimp only at h
    split at h
    · split at h
      · cases h
      · cases h
        refine Loop.begin_watched (hs.still ?_) _
        exact .same rfl rfl rfl
    · cases h
  | fire x =>
    dsimp only at h
    split at h
    · cases h
      exact Loop.fire_watched hs x
    · cases h
  | enter =>
    dsimp only at h
    split at h
    · cases h
      exact hs.still (.same rfl rfl rfl)
    · cases h
  | next w =>
    dsimp only at h
    split at h
    · exact Sync.notify_watched hs h
    · cases h
  | op o =>
    dsimp only at h
    split at h
    · exact Op.exec_watched hs h
    · cases h
  | sys r =>
    dsimp only at h
    split at h
    · cases h
      exact Socket.step_watched hs _ _ _ r
    · cases h

theorem State.Watched.init (value : SemId → ℕ) (maxsizes : List (Option ℤ)) :
    (State.init value maxsizes).Watched := by
  obtain ⟨E, C, L, Q, n, hs⟩ := (State.init_initial value maxsizes).frame
  have hnone : ∀ c x w u, ¬ (State.init value maxsizes).WaitsFor c x w u := by
    rintro c x w u ⟨-, k, hk⟩
    rw [hs] at hk
    by_cases hc : c = 0 <;> simp [State.fresh, hc] at hk
  exact ⟨fun c x w u h => absurd h (hnone c x w u), fun c _ x w u _ _ h => absurd h (hnone c x w u),
    fun c x w u h => absurd h (hnone c x w u)⟩

end Levent
