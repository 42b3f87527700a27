/-
  The coroutines that wait for a socket: each has its watcher, and leaves its
  call only when its waiter is switched or the kernel answers.
-/
import Levent.Runtime.Code

namespace Levent

variable {s s' s₁ : State} {c : Co}

/-- `c` is in the call `f` on the socket `i`: it waits for it, or is at the system
    call. -/
def State.InCall (s : State) (c : Co) (i : SockId) (f : SockCall) : Prop :=
  s.mode c = .sys i f ∨ ∃ w x u t, s.mode c = .blocked w (.hubWait x u (.sock i f t))

theorem State.not_inCall (hc : s.mode c = .running ∨ (s.mode c).Idle) (i : SockId) (f : SockCall) :
    ¬ s.InCall c i f := by
  rintro (h | ⟨w, x, u, t, h⟩)
  · rw [h] at hc
    rcases hc with hc | hc <;> cases hc
  · rw [h] at hc
    rcases hc with hc | hc <;> cases hc

/-! ## What a step does -/

/-- What the calls on sockets are about is the same. -/
structure State.Like (s s₁ : State) : Prop where
  mode : s₁.mode = s.mode
  stack : s₁.stack = s.stack
  sock : s₁.sock = s.sock
  watcher : ∀ x i, x.sock = some i → s₁.watcher x = s.watcher x

/-- A step runs the code of one coroutine, once the callback that does it is out of
    the queue; `wake` resumes one that is suspended. -/
inductive State.Does (s : State) : Act → State → Prop
  | code {a c s₁ s'} : s.Like s₁ → (∀ d, s.SockOk d → s₁.SockOk d) → s₁.Code c s' →
      (∀ i f, ¬ s.InCall c i f) → s.Does a s'
  | wake {a c w k v e s₁ s'} : s.Like s₁ → (∀ d, d ≠ c → s.SockOk d → s₁.SockOk d) →
      (∀ d i f, s.mode d ≠ .sys i f) → s.mode c = .blocked w k → (e = .nil ∨ e.truthy = true) →
      (∀ u, e = .nil → v = .userdata u → ∃ x, a = .fire x ∧ (s.watcher x).cb = some (.wake w u)) →
      s' = afterGet (s₁.resume c w v e) c w k (Waiter.result ⟨some c, v, e⟩) → s.Does a s'
  | close {i c} : s.Turn c → s.Does (.op (.socketClose i)) (finish (Socket.close s i) c (.ok []))
  | sys {r i f} : s.mode s.running = .sys i f → s.Does (.sys r) (Socket.step s s.running i f r)

/-- A switch resumes the coroutine that waits, if one does. -/
theorem Waiter._switch_cases (hh : s.HubInv) (hcur : s.cur = none) (w : WaiterId) {v e : Value}
    (he : ¬ (e.truthy ∧ ¬ isException e)) :
    ((∀ c k, s.mode c ≠ .blocked w k) ∧
        ((Waiter._switch s w v e).1 = s ∨ (Waiter._switch s w v e).1 = s.settle w v e)) ∨
      ∃ c k, s.mode c = .blocked w k ∧ Waiter._switch s w v e =
        (afterGet (s.resume c w v e) c w k (Waiter.result ⟨some c, v, e⟩), none) := by
  by_cases hb : ∃ c k, s.mode c = .blocked w k
  · obtain ⟨c, k, hk⟩ := hb
    obtain ⟨-, hco, hx⟩ := hh.blocked hk
    exact .inr ⟨c, k, hk, Waiter._switch_blocked hcur hk (hh.ne_zero hk) hco hx he⟩
  · refine .inl ⟨fun c k hk => hb ⟨c, k, hk⟩, ?_⟩
    by_cases hx : (s.waiter w).exception = .bool false
    · have hrun : s.running = 0 := by simp [State.running, hcur]
      right
      unfold Waiter._switch
      rw [if_neg he, if_neg fun h => h hx]
      rcases hco : (s.waiter w).co with _ | c
      · rw [State.settle, hco]
      · have hc : c = 0 := by
          by_contra hc
          exact hb ⟨c, hh.waiting hc hco hx⟩
        dsimp only
        rw [if_neg (fun h => h hrun), if_pos hc, State.settle, hco]
    · obtain ⟨err, h⟩ := Waiter._switch_settled v e hx
      left
      rw [h]

theorem State.Like.refl : s.Like s := ⟨rfl, rfl, rfl, fun _ _ _ => rfl⟩

/-- What is known of a coroutine depends on these parts and the queued callbacks. -/
theorem State.Like.ok (h : s.Like s₁) {d : Co} (hs : s.SockOk d) (hcur : s₁.cur = s.cur)
    (hcb : ∀ x, .cancelWait x none ∈ s.callbacks → .cancelWait x none ∈ s₁.callbacks) :
    s₁.SockOk d := by
  refine hs.keep (by rw [h.mode]) (fun _ _ _ => .inl hcur) hcb (fun x w u k _ hx _ => ?_) fun i hi => by rw [← h.sock]; exact hi
  obtain ⟨i, hi⟩ := Option.isSome_iff_exists.1 hx
  exact h.watcher x i hi

/-- No coroutine is at a system call when the hub resumes one. -/
theorem State.HubInv.no_sys (hh : s.HubInv) (hcur : s.cur = none) (hmode : s.mode 0 = .running)
    (d : Co) (i : SockId) (f : SockCall) : s.mode d ≠ .sys i f := by
  intro hd
  have h0 : d ≠ 0 := by
    rintro rfl
    rw [hmode] at hd
    cases hd
  have hactive := hh.active h0 (by rw [hd]; trivial)
  rw [hcur] at hactive
  cases hactive

/-- A switch from the main coroutine, in a state like `s`. -/
theorem State.Does.of_switch {a : Act} {w : WaiterId} {v e : Value} (hl : s.Like s₁)
    (hh : s₁.HubInv) (hcur : s₁.cur = none) (hmode : s.mode 0 = .running)
    (hok : ∀ d, (∀ k, s.mode d ≠ .blocked w k) → s.SockOk d → s₁.SockOk d)
    (he : ¬ (e.truthy ∧ ¬ isException e)) (he' : e = .nil ∨ e.truthy = true)
    (hv : ∀ u, e = .nil → v = .userdata u → ∃ x, a = .fire x ∧ (s.watcher x).cb = some (.wake w u)) :
    s.Does a (Waiter._switch s₁ w v e).1 := by
  rcases Waiter._switch_cases hh hcur w he with ⟨hn, h⟩ | ⟨c, k, hk, h⟩
  · have hcode : s₁.Code 0 (Waiter._switch s₁ w v e).1 := by
      rcases h with h | h
      · rw [h]; exact .refl
      · rw [h]; exact .same rfl rfl rfl (List.prefix_refl _) (fun _ _ _ => rfl) fun _ h => h
    exact .code hl (fun d => hok d fun k => hl.mode ▸ hn d k) hcode (State.not_inCall (.inl hmode))
  · rw [h]
    refine .wake hl (fun d hd => hok d fun k' hk' => ?_)
      (hl.mode ▸ hh.no_sys hcur (by rw [hl.mode]; exact hmode)) (hl.mode ▸ hk) he' hv rfl
    exact hd (hh.blocked_inj (hl.mode ▸ hk') hk).1

/-- `hub:throw` of an exception. -/
theorem State.Does.of_throw {a : Act} (hl : s.Like s₁) (hh : s₁.HubInv) (hcur : s₁.cur = none)
    (hmode : s.mode 0 = .running) (hok : ∀ d, s.SockOk d → s₁.SockOk d) (c : Co) (e : Exn) :
    s.Does a (Hub.throw s₁ c (.exn e)).1 := by
  unfold Hub.throw
  split
  · exact .code hl hok (c := 0) .refl (State.not_inCall (.inl hmode))
  · exact .of_switch hl hh hcur hmode (fun d _ => hok d) (by simp [isException]) (.inr rfl) (by simp)

/-- A callback out of the queue. -/
theorem State.SockOk.pop {cb : Callback} {cbs : List Callback} (hq : s.callbacks = cb :: cbs)
    {d : Co} (h : s.SockOk d) (hcb : ∀ x err, cb = .cancelWait x err →
      ∀ w u i f t, s.mode d ≠ .blocked w (.hubWait x u (.sock i f t))) :
    ({ s with callbacks := cbs } : State).SockOk d := by
  refine ⟨fun w x u i f t hc => ?_, h.sleep, h.sys⟩
  obtain ⟨h1, h2, h3, h4⟩ := h.wait w x u i f t hc
  refine ⟨h1, h2, h3, fun hi => ?_⟩
  have hmem := h4 hi
  rw [hq, List.mem_cons] at hmem
  rcases hmem with hmem | hmem
  · exact absurd hc (hcb x none hmem.symm w u i f t)
  · exact hmem

theorem Loop.begin_does (hs : s.Sound) (hb : s.Between) {cb : Callback} {cbs : List Callback}
    (hq : s.callbacks = cb :: cbs) : s.Does .callback (Loop.begin { s with callbacks := cbs } cb) := by
  have hmode : s.mode 0 = .running := HubInv.main_running hs.hub (by rw [hb.1]; simp)
  have hl : s.Like { s with callbacks := cbs } := ⟨rfl, rfl, rfl, fun _ _ _ => rfl⟩
  have hok : (∀ x err, cb ≠ .cancelWait x err) → ∀ d, s.SockOk d →
      ({ s with callbacks := cbs } : State).SockOk d := fun hne d hd =>
    hd.pop hq fun x err h => absurd h (hne x err)
  cases cb with
  | notify y =>
    exact .code (c := 0) hl (hok (by simp))
      (.same rfl rfl rfl (List.prefix_refl _) (fun _ _ _ => rfl) fun _ h => h)
      (State.not_inCall (.inl hmode))
  | throw c e target =>
    have hl' : s.Like ({ s with callbacks := cbs }.emit (.killed target (s.task c))) :=
      ⟨rfl, rfl, rfl, fun _ _ _ => rfl⟩
    unfold Loop.begin; dsimp only
    split
    · rename_i s' h
      rw [show s' = (Hub.throw _ c (.exn e)).1 from (congrArg Prod.fst h).symm]
      refine .of_throw hl' hs.hub hb.2 hmode (fun d hd => ?_) c e
      have h1 := hok (by simp) d hd
      exact ⟨h1.wait, h1.sleep, h1.sys⟩
    · exact .of_throw hl hs.hub hb.2 hmode (hok (by simp)) c e
  | resume c args =>
    obtain ⟨f, hf⟩ := hs.pool.ready (c := c) (by rw [hq]; simp [resumed])
    have hl' : s.Like { s with callbacks := cbs, cur := some c } := ⟨rfl, rfl, rfl, fun _ _ _ => rfl⟩
    refine .code (c := c) hl' (fun d hd => ?_) ?_ (State.not_inCall (.inr (by rw [hf]; trivial)))
    · have h1 := hok (by simp) d hd
      exact ⟨h1.wait, h1.sleep, fun i f h => absurd h (hs.hub.no_sys hb.2 hmode d i f)⟩
    have hf' : ({ s with callbacks := cbs } : State).mode c = .ready (some f) := hf
    show State.Code _ c (coResume { s with callbacks := cbs } c args)
    rw [coResume_ready hf']
    exact .self (m := .running) trivial rfl (fun _ _ => rfl) (.inl rfl) (List.prefix_refl _)
      (fun _ _ _ => rfl) fun _ h => h
  | cancelWait x err =>
    -- who waits for the watcher has its waiter there
    have hwait : ∀ d, s.SockOk d → ∀ w u i f t, s.mode d = .blocked w (.hubWait x u (.sock i f t)) →
        s.watcher x = ⟨some (.wake w u), true⟩ := fun d hd w u i f t h => (hd.wait w x u i f t h).2.2.1
    have hnone : (∀ w u, s.watcher x ≠ ⟨some (.wake w u), true⟩) → ∀ d, s.SockOk d →
        ({ s with callbacks := cbs } : State).SockOk d := by
      intro hn d hd
      refine hd.pop hq fun x' err' hx w u i f t h => ?_
      cases hx
      exact hn w u (hwait d hd w u i f t h)
    show s.Does .callback (Hub._cancelWait { s with callbacks := cbs } x err).1
    unfold Hub._cancelWait Watcher.isActive; dsimp only
    split
    · split
      · rename_i w u hw
        refine .of_switch hl hs.hub hb.2 hmode (fun d hnb hd => ?_) (by simp [isException]) (.inr rfl)
          (by simp)
        refine hd.pop hq fun x' err' hx w' u' i f t h => ?_
        cases hx
        rw [hwait d hd w' u' i f t h] at hw
        cases hw
        exact hnb _ h
      · rename_i hw
        refine .code (c := 0) hl (hnone fun w u h => ?_) .refl (State.not_inCall (.inl hmode))
        exact hw w u (by rw [h])
    · rename_i hact
      refine .code (c := 0) hl (hnone fun w u h => ?_) .refl (State.not_inCall (.inl hmode))
      rw [h] at hact
      exact hact rfl
  | user =>
    exact .code (c := 0) hl (hok (by simp))
      (.same rfl rfl rfl (List.prefix_refl _) (fun _ _ _ => rfl) fun _ h => h)
      (State.not_inCall (.inl hmode))

theorem Loop.expire_like (x : WatcherId) : s.Like (Loop.expire s x) := by
  cases x with
  | timeout | sleep =>
    refine ⟨rfl, rfl, rfl, fun x' i hx' => Function.update_of_ne ?_ _ _⟩
    rintro rfl
    cases hx'
  | read | write => exact .refl

theorem Loop.fire_does (hs : s.Sound) (hb : s.Between) {x : WatcherId} :
    s.Does (.fire x) (Loop.fire s x) := by
  have hmode : s.mode 0 = .running := HubInv.main_running hs.hub (by rw [hb.1]; simp)
  have hl : s.Like (Loop.expire s x) := Loop.expire_like x
  have henv := Loop.expire_env (s := s) x
  have hh : (Loop.expire s x).HubInv := hs.hub.micro (R := Rules.free) (.env none s _ henv) hs.pool
  have hcur : (Loop.expire s x).cur = none := by rw [henv.eq]; exact hb.2
  have hok : ∀ d, s.SockOk d → (Loop.expire s x).SockOk d := fun d hd =>
    hl.ok hd (by rw [henv.eq]; rfl) fun x' h => by rw [henv.eq]; exact h
  unfold Loop.fire
  split
  · rename_i w u hw
    refine .of_switch hl hh hcur hmode (fun d _ => hok d) (by simp [Value.truthy]) (.inl rfl) ?_
    intro u' _ hu
    cases hu
    exact ⟨x, rfl, hw⟩
  · exact .of_throw hl hh hcur hmode hok _ _
  · exact .code (c := 0) hl hok .refl (State.not_inCall (.inl hmode))

theorem State.take_like (y : Sync) (w : WaiterId) (o : Obs) : s.Like ((s.take y w).emit o) := by
  obtain ⟨E, he⟩ := s.take_frame y w
  rw [he]
  exact ⟨rfl, rfl, rfl, fun _ _ _ => rfl⟩

theorem wake_does (hs : s.Sound) (hcur : s.cur = none) {y : Sync} (hmain : s.main = .notify y)
    (a : Act) (w : WaiterId) : s.Does a (wake (s.take y w) y w) := by
  have hmode : s.mode 0 = .running := HubInv.main_running hs.hub (by rw [hmain]; simp)
  obtain ⟨E, he⟩ := s.take_frame y w
  have hl := s.take_like y w (.notified y w)
  have hh : ((s.take y w).emit (.notified y w)).HubInv := by rw [he]; exact hs.hub
  have hcur' : ((s.take y w).emit (.notified y w)).cur = none := by rw [he]; exact hcur
  have hok : ∀ d, s.SockOk d → ((s.take y w).emit (.notified y w)).SockOk d := fun d hd =>
    hl.ok hd (by rw [he]; rfl) fun x h => by rw [he]; exact h
  unfold wake
  generalize (s.take y w).emit (.notified y w) = s₁ at hl hh hcur' hok
  split
  · rename_i s₂ h
    rw [show s₂ = (Waiter.switch s₁ w (.bool true)).1 from (congrArg Prod.fst h).symm]
    exact .of_switch hl hh hcur' hmode (fun d _ => hok d) (by simp [Value.truthy]) (.inl rfl) (by simp)
  · rename_i s₂ v h
    refine .code (c := 0) hl hok ?_ (State.not_inCall (.inl hmode))
    have hidle : s₂.Code 0 ({ s₂ with main := .idle }.emit (.aborted y)) :=
      .same rfl rfl rfl (List.prefix_refl _) (fun _ _ _ => rfl) fun _ h => h
    refine State.Code.trans ?_ hidle
    rcases Waiter._switch_cases (v := .bool true) (e := .nil) hh hcur' w (by simp [Value.truthy]) with
      ⟨-, h1⟩ | ⟨c, k, -, h1⟩
    · have h2 : s₂ = (Waiter._switch s₁ w (.bool true) .nil).1 := (congrArg Prod.fst h).symm
      rcases h1 with h1 | h1
      · rw [h2, h1]
        exact .refl
      · rw [h2, h1]
        exact .same rfl rfl rfl (List.prefix_refl _) (fun _ _ _ => rfl) fun _ h => h
    · rw [Waiter.switch, h1] at h
      cases h

/-- **What a step does.** -/
theorem step_does (hs : s.Sound) {a : Act} (ha : ¬ a.Raw) (h : step s a = some s') : s.Does a s' := by
  unfold step at h
  cases a with
  | callback =>
    dsimp only at h
    split at h
    · rename_i hb
      split at h
      · cases h
      · rename_i cb cbs hq
        cases h
        exact Loop.begin_does hs hb hq
    · cases h
  | fire x =>
    dsimp only at h
    split at h
    · rename_i hb
      cases h
      exact Loop.fire_does hs hb.1
    · cases h
  | enter =>
    dsimp only at h
    split at h
    · rename_i hb
      cases h
      refine .code (c := 0) .refl (fun _ h => h) ?_ (State.not_inCall (.inl
        (HubInv.main_running hs.hub (by rw [hb.1]; simp))))
      exact .same rfl rfl rfl (List.prefix_refl _) (fun _ _ _ => rfl) fun _ h => h
    · cases h
  | next w =>
    dsimp only at h
    split at h
    · rename_i y hmain hcur
      have hmode : s.mode 0 = .running := HubInv.main_running hs.hub (by rw [hmain]; simp)
      have hend : ∀ {s₁ : State}, s.Code 0 s₁ → s.Does (.next w) (endNotify s₁ y) := by
        intro s₁ h1
        obtain ⟨E, Q, he⟩ := endNotify_frame s₁ y
        refine .code (c := 0) .refl (fun _ h => h) ?_ (State.not_inCall (.inl hmode))
        rw [he]
        exact h1.trans (.same rfl rfl rfl (List.prefix_refl _) (fun _ _ _ => rfl) fun _ h => h)
      rcases Sync.notify_cases h with ⟨-, -, -, -, -, rfl | ⟨q, rfl, -, rfl⟩⟩ | ⟨v, -, -, -, -, rfl⟩
      · exact hend .refl
      · obtain ⟨E, C, L, he, hC⟩ := Event.set_frame s (.cond q)
        refine hend ?_
        rw [he]
        exact .same rfl rfl rfl hC.prefix_callbacks (fun _ _ _ => rfl) fun _ h => h
      · exact wake_does hs hcur hmain _ v
    · cases h
  | op o =>
    dsimp only at h
    split at h
    · rename_i c hc
      have ht := hs.user_turn hc
      by_cases hclose : ∃ i, o = .socketClose i
      · obtain ⟨i, rfl⟩ := hclose
        cases h
        exact .close ht
      · exact .code .refl (fun _ h => h)
          (Op.exec_code hs ht h ha fun i hi => hclose ⟨i, hi⟩) (State.not_inCall (.inl ht.1))
    · cases h
  | sys r =>
    dsimp only at h
    split at h
    · rename_i i f hf
      cases h
      exact .sys hf
    · cases h

/-! ## A coroutine that waits for a socket is resumed -/

/-- A call that is suspended with the waiter `w` waits for no socket, or with the
    watcher of one. -/
def State.Waits (s : State) (w : WaiterId) (k : Call) : Prop :=
  k.Light ∨ ∃ x u i f t, k = .hubWait x u (.sock i f t) ∧ x = f.watcher i ∧ f.Short ∧
    s.watcher x = ⟨some (.wake w u), true⟩

theorem State.SockOk.waits {w : WaiterId} {k : Call} (h : s.SockOk c) (hc : s.mode c = .blocked w k) :
    s.Waits w k := by
  cases k with
  | hubWait x u k =>
    cases k with
    | sleep => exact .inl ⟨rfl, h.sleep w x u hc⟩
    | sock i f t =>
      obtain ⟨hx, hf, hw, -⟩ := h.wait w x u i f t hc
      exact .inr ⟨x, u, i, f, t, rfl, hx, hf, hw⟩
  | _ => exact .inl trivial

theorem State.Like.waits (h : s.Like s₁) {w : WaiterId} {k : Call} (hk : s.Waits w k) : s₁.Waits w k := by
  rcases hk with hk | ⟨x, u, i, f, t, rfl, rfl, hf, hw⟩
  · exact .inl hk
  · exact .inr ⟨_, u, i, f, t, rfl, rfl, hf, (h.watcher _ i (f.watcher_sock i)).trans hw⟩

theorem Hub.waitDone_code (hcur : s.cur = none ∨ s.cur = some c) {i : SockId} {f : SockCall}
    (hf : f.Short) (t : Option TimeoutId) (r : Except Value Unit) :
    s.Code c (Hub.waitDone s c (.sock i f t) r) := by
  -- the watcher's timeout, if it has one, is cancelled before either branch
  have hdone : ∀ {s₁ : State}, s.Code c s₁ → s.Code c (Socket.again s₁ c i f) ∧
      ∀ v, s.Code c (finish s₁ c v) := by
    intro s₁ h
    have hcur₁ : s₁.cur = none ∨ s₁.cur = some c := h.cur.elim (fun h1 => h1 ▸ hcur) .inl
    exact ⟨h.trans (Socket.again_code hcur₁ hf), fun v => h.finish v⟩
  unfold Hub.waitDone
  cases t with
  | none =>
    cases r with
    | ok => exact (hdone .refl).1
    | error v => exact (hdone .refl).2 _
  | some t =>
    cases r with
    | ok => exact (hdone (Timeout.cancel_code t)).1
    | error v => exact (hdone (Timeout.cancel_code t)).2 _

theorem afterGet_ok {w : WaiterId} {k : Call} (hinj : ∀ d k', s.mode d = .blocked w k' → d = c)
    (hs : ∀ d, d ≠ c → s.SockOk d) (hk : s.Waits w k) (hsys : ∀ d i f, s.mode d ≠ .sys i f) (v e : Value)
    (r : Except Value Value) (d : Co) : (afterGet (s.resume c w v e) c w k r).SockOk d := by
  have hmode : ∀ d, d ≠ c → (s.resume c w v e).mode d = s.mode d := fun d hd => Function.update_of_ne hd _ _
  have hrun : ((s.resume c w v e).mode c).Light := by simp [State.resume, State.emit, Mode.Light]
  rcases hk with hl | ⟨x, u, i, f, t, rfl, -, hf, hw⟩
  · refine (afterGet_code hl w r).inv (fun d => ?_) d
    by_cases hd : d = c
    · exact hd ▸ hrun.ok
    · exact (hs d hd).keep (hmode d hd) (fun i f h => absurd h (hsys d i f)) (fun _ h => h)
        (fun _ _ _ _ _ _ _ => rfl) fun _ h => h
  · refine (Hub.waitDone_code (s := Watcher.stop (s.resume c w v e) x) (.inr rfl) hf t _).inv
      (fun d => ?_) d
    by_cases hd : d = c
    · rw [hd]
      exact Mode.Light.ok (s := Watcher.stop (s.resume c w v e) x) hrun
    · refine (hs d hd).keep (hmode d hd) (fun i f h => absurd h (hsys d i f)) (fun _ h => h)
        (fun x' w' u' k' hk' _ hw' => ?_) fun _ h => h
      -- another one that waits for `x` would have the same waiter
      refine Function.update_of_ne ?_ _ _
      rintro rfl
      rw [hw] at hw'
      cases hw'
      exact hd (hinj d _ hk')

/-- The others stay where they are. -/
theorem afterGet_mode {w : WaiterId} {k : Call} (hk : s.Waits w k) (v e : Value) (r : Except Value Value)
    {d : Co} (hd : d ≠ c) : (afterGet (s.resume c w v e) c w k r).mode d = s.mode d ∨
      (s.mode d).Idle := by
  have hmode : (s.resume c w v e).mode d = s.mode d := Function.update_of_ne hd _ _
  rw [← hmode]
  rcases hk with hl | ⟨x, u, i, f, t, rfl, -, hf, -⟩
  · exact ((afterGet_code hl w r).mode d hd).imp_right And.left
  · exact ((Hub.waitDone_code (s := Watcher.stop (s.resume c w v e) x) (.inr rfl) hf t _).mode d hd).imp_right
      And.left

/-! ## A coroutine begins to wait for a socket -/

/-- Nobody waits for a watcher without a function. -/
theorem State.Spares.start {x : WatcherId} (h : s.Spares c s') (hx : (s.watcher x).cb = none)
    (hw : ∀ x' i, x' ≠ x → x'.sock = some i → s'.watcher x' = s.watcher x') {d : Co} (hd : d ≠ c)
    (hs : s.SockOk d) : s'.SockOk d := by
  refine h.others hd hs fun x' w u k _ hx' hcb => ?_
  obtain ⟨i, hi⟩ := Option.isSome_iff_exists.1 hx'
  refine hw x' i ?_ hi
  rintro rfl
  rw [hcb] at hx
  cases hx

section
variable {x : WatcherId}

/-- A watcher gets another function. -/
theorem State.setWatcher_spares (o : Watcher) : s.Spares c (s.setWatcher x o) :=
  ⟨fun _ _ => .inl rfl, fun _ _ => rfl, .inl rfl, List.prefix_refl _, fun _ h => h⟩

theorem State.waitStart_spares : s.Spares c (s.waitStart x) :=
  State.waitNew_code.toSpares.trans (State.setWatcher_spares _)

theorem State.waitStart_watcher {x' : WatcherId} (hx : x' ≠ x) :
    (s.waitStart x).watcher x' = s.watcher x' := Function.update_of_ne hx _ _

theorem State.waitStart_waiters : (s.waitStart x).waiters = s.waiters := by
  simp [State.waitStart, State.waitNew, State.setWatcher, Hub.waiter, State.setWaiter]

theorem State.waitStart_new : ((s.waitStart x).waiter s.nextWaiter).New := by
  simp [State.waitStart, State.waitNew, State.setWatcher, Hub.waiter, State.setWaiter, Waiter.New,
    Waiter._init]

theorem State.block_spares (w : WaiterId) (k : Call) : s.Spares c (s.block c w k) :=
  ⟨fun _ hd => .inl (Function.update_of_ne hd _ _), fun _ _ => rfl, .inr rfl, List.prefix_refl _,
    fun _ h => h⟩

/-- The main coroutine tries to wait. -/
theorem State.mainGet_code (w : WaiterId) (v : Value) : s.Code 0 (s.mainGet w v) := by
  have hset : ∀ {s₁ : State} {o : Waiter}, s₁.Code 0 (s₁.setWaiter w o) :=
    .same rfl rfl rfl (List.prefix_refl _) (fun _ _ _ => rfl) fun _ h => h
  have hentry : ∀ {s₁ : State} {V : Co → Option WaiterId}, s₁.Code 0 { s₁ with waiters := V } :=
    .same rfl rfl rfl (List.prefix_refl _) (fun _ _ _ => rfl) fun _ h => h
  exact (((State.emit_code _).trans hset).trans (State.emit_code _)).trans hentry

end

/-- The coroutine is suspended with its watcher. -/
theorem State.block_sockOk {i : SockId} {f : SockCall} (hf : f.Short) (hi : (s.sock i).closed = false)
    {w : WaiterId} {u : ℕ} (hw : s.watcher (f.watcher i) = ⟨some (.wake w u), true⟩) (t : Option TimeoutId) :
    (s.block c w (.hubWait (f.watcher i) u (.sock i f t))).SockOk c := by
  have hmode : (s.block c w (.hubWait (f.watcher i) u (.sock i f t))).mode c =
      .blocked w (.hubWait (f.watcher i) u (.sock i f t)) := Function.update_self _ _ _
  refine ⟨fun w' x u' i' f' t' hm => ?_, fun w' x u' hm => ?_, fun i' f' hm => ?_⟩
  · rw [hmode] at hm
    cases hm
    exact ⟨rfl, hf, hw, fun h => absurd (show (s.sock i).closed = true from h) (by rw [hi]; simp)⟩
  · rw [hmode] at hm
    cases hm
  · rw [hmode] at hm
    cases hm

theorem Hub.wait_ok (hs : s.Sound) (ht : s.Turn c) (hall : ∀ d, s.SockOk d) {i : SockId} {f : SockCall}
    (hf : f.Short) (hi : (s.sock i).closed = false) (t : Option TimeoutId) :
    s.Spares c (Hub.wait s c (f.watcher i) (.sock i f t)) ∧
      ∀ d, (Hub.wait s c (f.watcher i) (.sock i f t)).SockOk d := by
  rw [Hub.wait_eq]
  split
  · rename_i hx
    by_cases hc : c = 0
    · subst hc
      rw [Waiter.get_main (.hubWait (f.watcher i) s.nextUuid (.sock i f t))
        (State.waitStart_new (s := s) (x := f.watcher i)).2]
      generalize (s.waitStart (f.watcher i)).mainError = v
      have hmain := (s.waitStart (f.watcher i)).mainGet_code s.nextWaiter v
      have hmode : ((s.waitStart (f.watcher i)).mainGet s.nextWaiter v).mode 0 = .running := ht.1
      generalize (s.waitStart (f.watcher i)).mainGet s.nextWaiter v = s₁ at hmain hmode
      have hsp : s.Spares 0 (Watcher.stop s₁ (f.watcher i)) :=
        (State.waitStart_spares.trans hmain.toSpares).trans (State.setWatcher_spares _)
      have hcur := hsp.cur.elim (fun h => h.trans ht.zero.1) id
      have hcode := Hub.waitDone_code (c := 0) (i := i) (.inl hcur) hf t (.error (traceback v))
      refine ⟨hsp.trans hcode.toSpares, hcode.inv fun d => ?_⟩
      by_cases hd : d = 0
      · subst hd
        refine Mode.Light.ok ?_
        rw [show (Watcher.stop s₁ (f.watcher i)).mode 0 = .running from hmode]
        trivial
      · refine hsp.start hx (fun x' i' hx' hi' => ?_) hd (hall d)
        rw [← State.waitStart_watcher (s := s) hx', ← hmain.watcher x' i' hi']
        exact Function.update_of_ne hx' _ _
    · have hentry : (s.waitStart (f.watcher i)).waiters c = none := by
        rw [State.waitStart_waiters]
        exact hs.no_entry ht hc
      rw [Waiter.get_task _ State.waitStart_new.2 hc hentry]
      have hsp := State.waitStart_spares.trans ((s.waitStart (f.watcher i)).block_spares (c := c)
        s.nextWaiter (.hubWait (f.watcher i) s.nextUuid (.sock i f t)))
      refine ⟨hsp, fun d => ?_⟩
      by_cases hd : d = c
      · subst hd
        exact State.block_sockOk (s := s.waitStart (f.watcher i)) hf hi (Function.update_self _ _ _) t
      · exact hsp.start hx (fun x' _ hx' _ => State.waitStart_watcher hx') hd (hall d)
  · have hcode := State.waitNew_code.trans (Hub.waitDone_code (s := s.waitNew) (c := c) (i := i) ht.cur_or hf t
      (.error (.watcher (f.watcher i))))
    exact ⟨hcode.toSpares, hcode.inv hall⟩

/-! ## The kernel answers -/

/-- The socket of the system call that is waiting for its answer. -/
def State.calling (s : State) : Option SockId :=
  match s.mode s.running with
  | .sys i _ => some i
  | _ => none

/-- The descriptor of a closed socket is -1, for which the kernel answers `EBADF`. -/
def State.ClosedFd (s : State) : Act → Prop
  | .sys r => ∀ i ∈ s.calling, (s.sock i).closed = true → r = .err .EBADF
  | _ => True

instance (s : State) : DecidablePred s.ClosedFd
  | .sys r => inferInstanceAs (Decidable (∀ i ∈ s.calling, (s.sock i).closed = true → r = .err .EBADF))
  | .callback | .fire _ | .enter | .next _ | .op _ => isTrue trivial

theorem State.ClosedFd.answer {r : SysResult} (h : s.ClosedFd (.sys r)) {i : SockId} {f : SockCall}
    (hm : s.mode s.running = .sys i f) (hi : (s.sock i).closed = true) : r = .err .EBADF :=
  h i (by simp [State.calling, hm]) hi

theorem Socket._wait_ok (hs : s.Sound) (ht : s.Turn c) (hall : ∀ d, s.SockOk d) {i : SockId}
    {f : SockCall} (hf : f.Short) (hi : (s.sock i).closed = false) :
    s.Spares c (Socket._wait s c i f) ∧ ∀ d, (Socket._wait s c i f).SockOk d := by
  unfold Socket._wait; dsimp only
  split
  · have henv : s.EnvStep none (Timeout.startNew s c (s.sock i).timeout).2 := Timeout.startNew_env c _
    have hcode : s.Code c (Timeout.startNew s c (s.sock i).timeout).2 := Timeout.startNew_code _
    have hi' : ((Timeout.startNew s c (s.sock i).timeout).2.sock i).closed = false := by
      by_contra h
      have := hcode.closed i (by simpa using h)
      rw [hi] at this
      cases this
    have hm : Micros Rules.free none s none (Timeout.startNew s c (s.sock i).timeout).2 := Micros.env henv
    obtain ⟨h1, h2⟩ := Hub.wait_ok (hs.micros hm) (ht.env henv) (hcode.inv hall) hf hi'
      (some (Timeout.startNew s c (s.sock i).timeout).1)
    exact ⟨hcode.toSpares.trans h1, h2⟩
  · exact Hub.wait_ok hs ht hall hf hi none

/-- A closed socket is not waited for. -/
theorem Socket.refused_ok (hs : s.Sound) (ht : s.Turn c) (hall : ∀ d, s.SockOk d) {i : SockId}
    {f : SockCall} (hf : f.Short) {e : Errno} (he : (s.sock i).closed = true → e = .EBADF) :
    s.Spares c (Socket.refused s c i e f) ∧ ∀ d, (Socket.refused s c i e f).SockOk d := by
  have hfin : ∀ r : Outcome, s.Spares c (finish s c r) ∧ ∀ d, (finish s c r).SockOk d := fun r =>
    ⟨(finish_code r).toSpares, (finish_code r).inv hall⟩
  have hopen : e ≠ .EBADF → (s.sock i).closed = false := fun hne => by
    by_contra h
    exact hne (he (by simpa using h))
  have hblock : Socket._needBlock s i e = true → e ≠ .EBADF := by
    rintro h rfl
    simp [Socket._needBlock] at h
  unfold Socket.refused
  split
  · split
    · rename_i hb
      exact Socket._wait_ok hs ht hall hf (hopen (hblock hb))
    · exact hfin _
  · split
    · exact hfin _
    · split
      · exact hfin _
      · rename_i hb
        refine Socket._wait_ok hs ht hall hf (hopen ?_)
        rintro rfl
        simp at hb
  · split
    · rename_i hb
      exact Socket._wait_ok hs ht hall hf (hopen (hblock hb))
    · exact hfin _

theorem Socket.step_ok (hs : s.Sound) (hall : ∀ d, s.SockOk d) {i : SockId} {f : SockCall}
    (hm : s.mode s.running = .sys i f) {r : SysResult} (hr : s.ClosedFd (.sys r)) :
    s.Spares s.running (Socket.step s s.running i f r) ∧
      ∀ d, (Socket.step s s.running i f r).SockOk d := by
  have hmic : Micro Rules.free none s none (s.setMode s.running .running) := .answer s _ i f rfl hm
  have ht := hs.hub.sys_turn hm
  have hcode : s.Code s.running (s.setMode s.running .running) := State.running_code
  have hf := ((hall s.running).sys i f hm).1
  unfold Socket.step; dsimp only
  cases r with
  | ok v =>
    have hans := Socket.answered_code (s := s.setMode s.running .running) (c := s.running) (i := i)
      (f := f) ht.cur_or v
    exact ⟨(hcode.trans hans).toSpares, (hcode.trans hans).inv hall⟩
  | err e =>
    obtain ⟨h1, h2⟩ := Socket.refused_ok (hs.micro hmic) ht (hcode.inv hall) (i := i) hf (e := e)
      fun hi => by
        have := hr.answer hm hi
        cases this
        rfl
    exact ⟨hcode.toSpares.trans h1, h2⟩

/-! ## A socket is closed -/

/-- The coroutine whose turn it is runs alone. -/
theorem State.Turn.no_sys (hh : s.HubInv) (hall : ∀ d, s.SockOk d) (ht : s.Turn c) (d : Co) (i : SockId)
    (f : SockCall) : s.mode d ≠ .sys i f := by
  intro hd
  have hdc : d ≠ c := by
    rintro rfl
    rw [ht.1] at hd
    cases hd
  rcases ht.2 with ⟨hc, hcur⟩ | ⟨hc, hcur, -⟩
  · rcases ((hall d).sys i f hd).2.2 with h | h
    · rw [hcur] at h
      cases h
    · rw [hcur] at h
      exact hdc (Option.some.inj h).symm
  · have := hh.active (c := d) (hc ▸ hdc) (by rw [hd]; trivial)
    rw [hcur] at this
    cases this

theorem Socket.close_ok (hh : s.HubInv) (hall : ∀ d, s.SockOk d) (ht : s.Turn c) (i : SockId) (d : Co) :
    (Socket.close s i).SockOk d := by
  unfold Socket.close; dsimp only
  split
  · exact hall d
  · refine ⟨fun w x u i' f t hm => ?_, (hall d).sleep, fun i' f hm => ?_⟩
    · obtain ⟨hx, hf, hw, hcb⟩ := (hall d).wait w x u i' f t hm
      refine ⟨hx, hf, hw, fun hi => ?_⟩
      simp only [Loop.runCallback, State.setSock, List.append_assoc, List.mem_append,
        List.mem_singleton] at hi ⊢
      by_cases hii : i' = i
      · subst hii
        cases f <;> simp [hx, SockCall.watcher]
      · rw [Function.update_of_ne hii] at hi
        exact .inl (hcb hi)
    · exact absurd hm (ht.no_sys hh hall d i' f)

/-! ## Steps -/

/-- **What is known of the calls on sockets** is kept by every step. -/
theorem step_sockOk (hs : s.Sound) (hall : ∀ d, s.SockOk d) {a : Act} (ha : ¬ a.Raw)
    (hfd : s.ClosedFd a) (h : step s a = some s') (d : Co) : s'.SockOk d := by
  cases step_does hs ha h with
  | code hl hok hcode hc => exact hcode.inv (fun d => hok d (hall d)) d
  | wake hl hok hsys hc he hv heq =>
    rw [heq]
    refine afterGet_ok (fun d k' hk' => ?_) (fun d hd => hok d hd (hall d)) (hl.waits ((hall _).waits hc))
      (hl.mode ▸ hsys) _ _ _ d
    exact (hs.hub.blocked_inj (hl.mode ▸ hk') hc).1
  | close ht => exact (finish_code _).inv (Socket.close_ok hs.hub hall ht _) d
  | sys hm => exact (Socket.step_ok hs hall hm hfd).2 d

end Levent
