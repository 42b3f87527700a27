/-
  What the code of one coroutine leaves alone, up to the point where it gives up
  control: the calls the others are suspended in, and the watchers of sockets.

  The calls on sockets change these too: a coroutine that waits for a socket
  starts a watcher of it (`Socket._wait`), and stops it once it is resumed
  (`Hub.waited`).
-/
import Levent.Runtime.Runs

namespace Levent

variable {s s' s'' : State} {c : Co}

/-! ## Sockets and their watchers -/

/-- The socket a watcher belongs to. -/
def WatcherId.sock : WatcherId → Option SockId
  | .read i | .write i => some i
  | .timeout _ | .sleep _ => none

theorem SockCall.watcher_sock (i : SockId) (f : SockCall) : (f.watcher i).sock = some i := by
  cases f <;> rfl

/-- There is data left to send. -/
def SockCall.Short : SockCall → Prop
  | .sendall sent total => sent < total
  | _ => True

/-- What is known of a coroutine in a call on a socket: its watcher has its waiter,
    and is to be canceled if the socket is closed. -/
structure State.SockOk (s : State) (c : Co) : Prop where
  wait : ∀ w x u i f t, s.mode c = .blocked w (.hubWait x u (.sock i f t)) →
    x = f.watcher i ∧ f.Short ∧ s.watcher x = ⟨some (.wake w u), true⟩ ∧
      ((s.sock i).closed = true → .cancelWait x none ∈ s.callbacks)
  sleep : ∀ w x u, s.mode c = .blocked w (.hubWait x u .sleep) → x.sock = none
  sys : ∀ i f, s.mode c = .sys i f → f.Short ∧ ((s.sock i).closed = true → f ≠ .connect) ∧
    (s.cur = none ∨ s.cur = some c)

/-- A call that does not wait for a socket. -/
def Call.Light : Call → Prop
  | .hubWait x _ k => k = .sleep ∧ x.sock = none
  | _ => True

/-- A coroutine that is in no call on a socket. -/
def Mode.Light : Mode → Prop
  | .blocked _ k => k.Light
  | .sys .. => False
  | _ => True

theorem Mode.Light.ok (h : (s.mode c).Light) : s.SockOk c where
  wait w x u i f t hc := by
    rw [hc] at h
    cases h.1
  sleep w x u hc := by
    rw [hc] at h
    exact h.2
  sys i f hc := by
    rw [hc] at h
    cases h

/-! ## The code of a coroutine -/

/-- Not resumed yet. -/
def Mode.Idle : Mode → Prop
  | .unused | .pooled | .ready _ => True
  | _ => False

/-- The code of `c` has gone from `s` to `s'`: what it leaves alone. -/
structure State.Spares (s : State) (c : Co) (s' : State) : Prop where
  mode : ∀ d, d ≠ c → s'.mode d = s.mode d ∨ (s.mode d).Idle ∧ (s'.mode d).Idle
  stack : ∀ d, d ≠ c → s'.stack d = s.stack d
  cur : s'.cur = s.cur ∨ s'.cur = none
  callbacks : s.callbacks <+: s'.callbacks
  closed : ∀ i, (s'.sock i).closed = true → (s.sock i).closed = true

theorem State.Spares.trans (h : s.Spares c s') (h' : s'.Spares c s'') : s.Spares c s'' where
  mode d hd := by
    rcases h.mode d hd with h1 | ⟨h1, h1'⟩
    · rw [← h1]
      exact h'.mode d hd
    · rcases h'.mode d hd with h2 | ⟨-, h2⟩
      · exact .inr ⟨h1, h2 ▸ h1'⟩
      · exact .inr ⟨h1, h2⟩
  stack d hd := (h'.stack d hd).trans (h.stack d hd)
  cur := h'.cur.elim (fun h1 => h1 ▸ h.cur) .inr
  callbacks := h.callbacks.trans h'.callbacks
  closed i hi := h.closed i (h'.closed i hi)

/-- It has not waited for a socket, nor closed one. -/
structure State.Code (s : State) (c : Co) (s' : State) : Prop extends s.Spares c s' where
  watcher : ∀ x i, x.sock = some i → s'.watcher x = s.watcher x
  own : s.SockOk c → s'.SockOk c

theorem State.Code.trans (h : s.Code c s') (h' : s'.Code c s'') : s.Code c s'' where
  toSpares := h.toSpares.trans h'.toSpares
  watcher x i hx := (h'.watcher x i hx).trans (h.watcher x i hx)
  own hc := h'.own (h.own hc)

/-- A coroutine that stays in its call, with its watcher. -/
theorem State.SockOk.keep (h : s.SockOk c) (hm : s'.mode c = s.mode c)
    (hcur : ∀ i f, s.mode c = .sys i f → s'.cur = s.cur ∨ s'.cur = none)
    (hcb : ∀ x, .cancelWait x none ∈ s.callbacks → .cancelWait x none ∈ s'.callbacks)
    (hw : ∀ x w u k, s.mode c = .blocked w (.hubWait x u k) → x.sock.isSome →
      s.watcher x = ⟨some (.wake w u), true⟩ → s'.watcher x = s.watcher x)
    (hk : ∀ i, (s'.sock i).closed = true → (s.sock i).closed = true) : s'.SockOk c where
  wait w x u i f t hc := by
    obtain ⟨hx, hf, h1, h2⟩ := h.wait w x u i f t (hm ▸ hc)
    refine ⟨hx, hf, ?_, fun hi => hcb x (h2 (hk i hi))⟩
    rw [hw x w u _ (hm ▸ hc) (by rw [hx, f.watcher_sock]; rfl) h1]
    exact h1
  sleep w x u hc := h.sleep w x u (hm ▸ hc)
  sys i f hc := by
    obtain ⟨hf, h1, h2⟩ := h.sys i f (hm ▸ hc)
    exact ⟨hf, fun hi => h1 (hk i hi), (hcur i f (hm ▸ hc)).elim (fun h3 => h3 ▸ h2) .inl⟩

/-- The code of one coroutine keeps what is known of another, if it leaves its
    watcher alone. -/
theorem State.Spares.others (h : s.Spares c s') {d : Co} (hd : d ≠ c) (hs : s.SockOk d)
    (hw : ∀ x w u k, s.mode d = .blocked w (.hubWait x u k) → x.sock.isSome →
      s.watcher x = ⟨some (.wake w u), true⟩ → s'.watcher x = s.watcher x) : s'.SockOk d := by
  rcases h.mode d hd with hm | ⟨-, hm⟩
  · exact hs.keep hm (fun _ _ _ => h.cur) (fun x hx => h.callbacks.subset hx) hw h.closed
  · refine Mode.Light.ok ?_
    cases hmode : s'.mode d <;> rw [hmode] at hm <;> trivial

theorem State.Code.inv (h : s.Code c s') (hs : ∀ d, s.SockOk d) (d : Co) : s'.SockOk d := by
  by_cases hd : d = c
  · exact hd ▸ h.own (hs c)
  · refine h.others hd (hs d) fun x w u k _ hx _ => ?_
    obtain ⟨i, hi⟩ := Option.isSome_iff_exists.1 hx
    exact h.watcher x i hi

/-- A state that differs in other parts only. -/
theorem State.Code.same (hm : s'.mode = s.mode) (hst : s'.stack = s.stack) (hcur : s'.cur = s.cur)
    (hcb : s.callbacks <+: s'.callbacks) (hw : ∀ x i, x.sock = some i → s'.watcher x = s.watcher x)
    (hk : ∀ i, (s'.sock i).closed = true → (s.sock i).closed = true) : s.Code c s' where
  mode d _ := .inl (by rw [hm])
  stack d _ := by rw [hst]
  cur := .inl hcur
  callbacks := hcb
  watcher := hw
  closed := hk
  own h := h.keep (by rw [hm]) (fun _ _ _ => .inl hcur) (fun x hx => hcb.subset hx) (fun x _ _ _ _ hx _ => by
    obtain ⟨i, hi⟩ := Option.isSome_iff_exists.1 hx
    exact hw x i hi) hk

theorem State.Code.refl : s.Code c s :=
  .same rfl rfl rfl (List.prefix_refl _) (fun _ _ _ => rfl) fun _ h => h

/-- The running coroutine changes its own mode and its protected calls. -/
theorem State.Code.self {m : Mode} (hm : m.Light) (hmode : s'.mode = Function.update s.mode c m)
    (hst : ∀ d, d ≠ c → s'.stack d = s.stack d) (hcur : s'.cur = s.cur ∨ s'.cur = none)
    (hcb : s.callbacks <+: s'.callbacks) (hw : ∀ x i, x.sock = some i → s'.watcher x = s.watcher x)
    (hk : ∀ i, (s'.sock i).closed = true → (s.sock i).closed = true) : s.Code c s' where
  mode d hd := .inl (by rw [hmode, Function.update_of_ne hd])
  stack := hst
  cur := hcur
  callbacks := hcb
  watcher := hw
  closed := hk
  own _ := Mode.Light.ok (by rw [hmode, Function.update_self]; exact hm)

theorem Notified.prefix_callbacks {l l' : List Callback} (h : Notified l l') : l <+: l' := by
  rcases h with rfl | ⟨y, rfl⟩
  · exact List.prefix_refl _
  · exact List.prefix_append _ _

/-! ## Timers and protected calls -/

/-- A watcher that is not one of a socket. -/
theorem State.setWatcher_code {x : WatcherId} (hx : x.sock = none) (o : Watcher) :
    s.Code c (s.setWatcher x o) := by
  refine .same rfl rfl rfl (List.prefix_refl _) (fun x' i hx' => ?_) fun _ h => h
  refine Function.update_of_ne ?_ _ _
  rintro rfl
  rw [hx] at hx'
  cases hx'

theorem State.emit_code (o : Obs) : s.Code c (s.emit o) :=
  .same rfl rfl rfl (List.prefix_refl _) (fun _ _ _ => rfl) fun _ h => h

theorem State.setStack_code (st : List Frame) : s.Code c (s.setStack c st) where
  mode _ _ := .inl rfl
  stack _ hd := Function.update_of_ne hd _ _
  cur := .inl rfl
  callbacks := List.prefix_refl _
  watcher _ _ _ := rfl
  closed _ h := h
  own h := h.keep rfl (fun _ _ _ => .inl rfl) (fun _ h => h) (fun _ _ _ _ _ _ _ => rfl) fun _ h => h

theorem Timeout.cancel_code (t : TimeoutId) : s.Code c (Timeout.cancel s t) := by
  unfold Timeout.cancel
  split
  · exact State.setWatcher_code rfl _
  · exact .refl

theorem Timeout.cancel_all_code (ts : List TimeoutId) : s.Code c (ts.foldl Timeout.cancel s) := by
  induction ts generalizing s with
  | nil => exact .refl
  | cons t ts ih => exact (Timeout.cancel_code t).trans ih

theorem Timeout.startNew_code (sec : Option ℤ) : s.Code c (Timeout.startNew s c sec).2 := by
  have hnew : s.Code c (Timeout.new s sec).2 :=
    .same rfl rfl rfl (List.prefix_refl _) (fun _ _ _ => rfl) fun _ h => h
  simp only [Timeout.startNew]
  split
  · rename_i h
    refine hnew.trans ?_
    unfold Timeout.start Watcher.start at h
    split at h
    · split at h
      · cases h
        exact State.setWatcher_code rfl _
      · cases h
    · cases h
      exact .refl
  · exact hnew

/-! ## The ends of a call -/

theorem State.running_code : s.Code c (s.setMode c .running) :=
  .self (m := .running) trivial rfl (fun _ _ => rfl) (.inl rfl) (List.prefix_refl _) (fun _ _ _ => rfl) fun _ h => h

theorem fail_code (v : Value) : s.Code c (fail s c v) := by
  unfold fail
  split
  · rename_i hc
    subst hc
    exact (State.setStack_code []).trans
      (.same rfl rfl rfl (List.prefix_refl _) (fun _ _ _ => rfl) fun _ h => h)
  · exact .self (m := .dead) trivial rfl (fun d hd => Function.update_of_ne hd _ _)
      (.inr rfl) (List.prefix_refl _) (fun _ _ _ => rfl) fun _ h => h

theorem raise_code (v : Value) : s.Code c (raise s c v) := by
  unfold raise; dsimp only
  refine (Timeout.cancel_all_code (unwind v (s.stack c)).1).trans ?_
  split
  · exact fail_code _
  · exact (State.running_code.trans (State.setStack_code _)).trans (State.emit_code _)

theorem finish_code (r : Outcome) : s.Code c (finish s c r) := by
  cases r with
  | ok vs => exact State.running_code.trans (State.emit_code _)
  | error v => exact raise_code v

theorem State.Code.finish (h : s.Code c s') (r : Outcome) : s.Code c (finish s' c r) :=
  h.trans (finish_code r)

theorem returns_code (vs : List Value) : s.Code c (returns s c vs) := by
  unfold returns
  split
  · exact (State.setStack_code _).trans (State.emit_code _)
  · exact ((Timeout.cancel_code _).trans (State.setStack_code _)).trans (State.emit_code _)
  · split
    · exact .same rfl rfl rfl (List.prefix_refl _) (fun _ _ _ => rfl) fun _ h => h
    · exact .self (m := .pooled) trivial rfl (fun _ _ => rfl) (.inr rfl) (List.prefix_refl _)
        (fun _ _ _ => rfl) fun _ h => h

/-! ## After `waiter.get` -/

theorem State.unlink_code (y : Sync) (w : WaiterId) : s.Code c (s.unlink y w) := by
  obtain ⟨E, A, M, Q, he⟩ := s.setLinks_frame ((s.links y).erase w) y
  rw [State.unlink, he]
  exact .same rfl rfl rfl (List.prefix_refl _) (fun _ _ _ => rfl) fun _ h => h

theorem unlink_cancel_code (y : Sync) (w : WaiterId) (t : TimeoutId) :
    s.Code c (Timeout.cancel (s.unlink y w) t) :=
  (State.unlink_code y w).trans (Timeout.cancel_code t)

theorem Semaphore.passed_code (x : SemId) (t : Option TimeoutId) (acquire : Bool) :
    s.Code c (Semaphore.passed s c x t acquire) := by
  unfold Semaphore.passed
  refine (State.emit_code (.semTrue x (s.sem x).counter t)).trans ?_
  dsimp only
  split
  · refine State.Code.finish ?_ _
    exact .same rfl rfl rfl (List.prefix_refl _) (fun _ _ _ => rfl) fun _ h => h
  · exact finish_code _

theorem Queue.putItem_code (q : QueueId) (item : Value) : s.Code c (Queue.putItem s c q item) := by
  obtain ⟨Q, E, C, L, he, hC⟩ := Queue._put_frame s q item
  unfold Queue.putItem
  rw [he]
  refine State.Code.finish ?_ _
  exact .same rfl rfl rfl hC.prefix_callbacks (fun _ _ _ => rfl) fun _ h => h

theorem Queue.getItem_code (q : QueueId) : s.Code c (Queue.getItem s c q) := by
  unfold Queue.getItem
  split
  · rename_i item s' hs
    obtain ⟨Q, C, L, rfl, hC⟩ := Queue._get_frame s hs
    refine State.Code.finish ?_ _
    exact .same rfl rfl rfl hC.prefix_callbacks (fun _ _ _ => rfl) fun _ h => h
  · exact (State.emit_code _).trans (finish_code _)

/-- What a call does after its `waiter.get`, if it does not wait for a socket. -/
theorem afterGet_code {k : Call} (hk : k.Light) (w : WaiterId) (r : Except Value Value) :
    s.Code c (afterGet s c w k r) := by
  cases k with
  | get => exact finish_code _
  | eventWait e t =>
    refine (unlink_cancel_code (.event e) w t).trans ?_
    unfold afterGet Event.waited
    cases r <;> exact finish_code _
  | asyncGet a t =>
    refine (unlink_cancel_code (.async a) w t).trans ?_
    unfold afterGet AsyncResult.got
    cases r <;> exact finish_code _
  | semWait x t acquire =>
    refine (unlink_cancel_code (.sem x) w t).trans ?_
    unfold afterGet Semaphore.waited; dsimp only
    split
    · exact (State.emit_code _).trans (finish_code _)
    · split
      · exact Semaphore.passed_code x _ acquire
      · exact (State.emit_code _).trans (finish_code _)
  | queuePut q item t =>
    refine (unlink_cancel_code (.put q) w t).trans ?_
    unfold afterGet Queue.putWaited
    cases r
    · exact finish_code _
    · exact Queue.putItem_code q item
  | queueGet q t =>
    refine (unlink_cancel_code (.get q) w t).trans ?_
    unfold afterGet Queue.getWaited
    cases r
    · exact finish_code _
    · exact Queue.getItem_code q
  | hubWait x u k =>
    obtain ⟨rfl, hx⟩ := hk
    exact (State.setWatcher_code hx _).trans (finish_code _)

/-- A call waits, not for a socket. -/
theorem Waiter.get_code {k : Call} (hk : k.Light) (w : WaiterId) : s.Code c (Waiter.get s c w k) := by
  have hdone : ∀ {s₁ : State} {r : Except Value Value}, s.Code c s₁ → s.Code c (Waiter.done s₁ c w k r) :=
    fun h => (h.trans (State.emit_code _)).trans (afterGet_code hk w _)
  have hsame : ∀ {s₁ : State}, s₁.mode = s.mode → s₁.stack = s.stack → s₁.cur = s.cur →
      s₁.callbacks = s.callbacks → s₁.watcher = s.watcher → s₁.sock = s.sock → s.Code c s₁ := fun hm hst hcur hcb hw hk =>
    .same hm hst hcur (hcb ▸ List.prefix_refl _) (fun _ _ _ => by rw [hw]) fun _ h => hk ▸ h
  unfold Waiter.get Hub._yield; dsimp only
  split
  · split
    · exact hdone (hsame rfl rfl rfl rfl rfl rfl)
    · split
      · exact hdone (hsame rfl rfl rfl rfl rfl rfl)
      · exact .self (m := .blocked w k) hk rfl (fun _ _ => rfl) (.inr rfl) (List.prefix_refl _)
          (fun _ _ _ => rfl) fun _ h => h
  · exact hdone (hsame rfl rfl rfl rfl rfl rfl)

/-! ## The calls of a task -/

theorem State.newLink_code (y : Sync) : s.Code c (s.newLink y) := by
  obtain ⟨E, A, M, Q, he⟩ := s.newLink_frame y
  rw [he]
  exact .same rfl rfl rfl (List.prefix_refl _) (fun _ _ _ => rfl) fun _ h => h

/-- A call registers a waiter, starts its timer and waits. -/
theorem link_get_code (y : Sync) (sec : Option ℤ) (w : WaiterId) {k : TimeoutId → Call}
    (hk : ∀ t, (k t).Light) : s.Code c (Waiter.get (Timeout.startNew (s.newLink y) c sec).2 c w
      (k (Timeout.startNew (s.newLink y) c sec).1)) :=
  ((State.newLink_code y).trans (Timeout.startNew_code sec)).trans (Waiter.get_code (hk _) w)

theorem Event.wait_code (e : EventId) (sec : Option ℤ) : s.Code c (Event.wait s c e sec) := by
  unfold Event.wait
  split
  · exact finish_code _
  · exact link_get_code (.event e) sec s.nextWaiter (k := .eventWait e) fun _ => trivial

theorem AsyncResult.get_code (a : AsyncId) (sec : Option ℤ) :
    s.Code c (AsyncResult.get s c a sec) := by
  unfold AsyncResult.get
  split
  · exact ((Timeout.startNew_code sec).trans (State.newLink_code (.async a))).trans
      (Waiter.get_code (k := .asyncGet a _) trivial _)
  · exact finish_code _

theorem Semaphore.wait_code (x : SemId) (sec : Option ℤ) (acquire : Bool) :
    s.Code c (Semaphore.wait s c x sec acquire) := by
  unfold Semaphore.wait
  refine (State.emit_code (.semCall x c (s.sem x).counter)).trans ?_
  dsimp only
  split
  · exact Semaphore.passed_code x none acquire
  · exact (((State.newLink_code (.sem x)).trans (Timeout.startNew_code sec)).trans
      (State.emit_code _)).trans (finish_code _)

theorem Queue.put_code (q : QueueId) (item : Value) (sec : Option ℤ) :
    s.Code c (Queue.put s c q item sec) := by
  unfold Queue.put
  split
  · exact Queue.putItem_code q item
  · exact link_get_code (.put q) sec s.nextWaiter (k := .queuePut q item) fun _ => trivial

theorem Queue.get_code (q : QueueId) (sec : Option ℤ) : s.Code c (Queue.get s c q sec) := by
  unfold Queue.get
  split
  · exact Queue.getItem_code q
  · exact link_get_code (.get q) sec s.nextWaiter (k := .queueGet q) fun _ => trivial

/-- `Hub:wait` has made its waiter and its uuid. -/
def State.waitNew (s : State) : State := { (Hub.waiter s).2 with nextUuid := s.nextUuid + 1 }

/-- It has started the watcher `x`. -/
def State.waitStart (s : State) (x : WatcherId) : State :=
  s.waitNew.setWatcher x ⟨some (.wake s.nextWaiter s.nextUuid), true⟩

/-- `Hub:wait` fails if the watcher has a function. -/
theorem Hub.wait_eq (s : State) (c : Co) (x : WatcherId) (k : HubCaller) :
    Hub.wait s c x k = if (s.watcher x).cb = none then
      Waiter.get (s.waitStart x) c s.nextWaiter (.hubWait x s.nextUuid k)
    else Hub.waitDone s.waitNew c k (.error (.watcher x)) := by
  have hcb : (s.waitNew.watcher x).cb = (s.watcher x).cb := rfl
  unfold Hub.wait
  simp only [Watcher.start]
  split
  · rename_i v h
    split at h
    · cases h
    · rename_i hn
      cases h
      exact (if_neg (hcb ▸ hn)).symm
  · rename_i s₁ h
    split at h
    · rename_i hn
      cases h
      exact (if_pos (hcb ▸ hn)).symm
    · cases h

theorem State.waitNew_code : s.Code c s.waitNew :=
  .same rfl rfl rfl (List.prefix_refl _) (fun _ _ _ => rfl) fun _ h => h

theorem sleep_code : s.Code c (sleep s c) := by
  have hnext : s.Code c { s with nextSleep := s.nextSleep + 1 } :=
    .same rfl rfl rfl (List.prefix_refl _) (fun _ _ _ => rfl) fun _ h => h
  unfold sleep
  refine hnext.trans ?_
  generalize { s with nextSleep := s.nextSleep + 1 } = s₁
  rw [Hub.wait_eq]
  split
  · have hstart : s₁.Code c (s₁.waitStart (.sleep s.nextSleep)) :=
      State.waitNew_code.trans (State.setWatcher_code rfl _)
    exact hstart.trans (Waiter.get_code (k := .hubWait _ _ .sleep) ⟨rfl, rfl⟩ _)
  · unfold Hub.waitDone
    exact State.waitNew_code.finish _

theorem Coroutines.coRawCreate_code (hs : s.Sound) (hc : s.mode c = .running) :
    s.Code c (Coroutines.coRawCreate s) := by
  have hu : s.mode (s.total + 1) = .unused := hs.pool.unused.2 (Nat.lt_succ_self _)
  have hne : c ≠ s.total + 1 := by
    rintro rfl
    rw [hu] at hc
    cases hc
  refine ⟨⟨fun d _ => ?_, fun _ _ => rfl, .inl rfl, List.prefix_refl _, fun _ h => h⟩, fun _ _ _ => rfl,
    fun h => ?_⟩
  · by_cases hd : d = s.total + 1
    · subst hd
      exact .inr ⟨by rw [hu]; trivial, by simp [Coroutines.coRawCreate, State.setMode, Mode.Idle]⟩
    · exact .inl (by simp [Coroutines.coRawCreate, State.setMode, hd])
  · refine h.keep ?_ (fun _ _ _ => .inl rfl) (fun _ h => h) (fun _ _ _ _ _ _ _ => rfl) fun _ h => h
    simp [Coroutines.coRawCreate, State.setMode, hne]

theorem check_code (hs : s.Sound) (ht : s.Turn c) (n : ℕ) :
    s.Code c (Coroutines.coRawCreate^[n] s) := by
  induction n generalizing s with
  | zero => exact .refl
  | succ n ih =>
    have hm : Micro Rules.free none s none (Coroutines.coRawCreate s) := .rawCreate s
    exact (Coroutines.coRawCreate_code hs ht.1).trans
      (ih (hs.micro hm) (Coroutines.coRawCreate_turn hs ht))

theorem spawn_code (hs : s.Sound) (ht : s.Turn c) (args : List Value) :
    s.Code c (spawn s c args) := by
  -- the pool after `co_create` has made sure that it is not empty
  obtain ⟨s₀, h₀, hm, hcode, hne, ht₀⟩ : ∃ s₀, s₀ = (if s.pool = [] then Coroutines.coRawCreate s else s) ∧
      Micros Rules.free none s none s₀ ∧ s.Code c s₀ ∧ s₀.pool ≠ [] ∧ s₀.Turn c := by
    refine ⟨_, rfl, ?_⟩
    split
    · exact ⟨(Micro.rawCreate s).one, Coroutines.coRawCreate_code hs ht.1,
        by simp [Coroutines.coRawCreate], Coroutines.coRawCreate_turn hs ht⟩
    · rename_i hne
      exact ⟨.refl, .refl, hne, ht⟩
  have hs₀ := hs.micros hm
  have hlast : s₀.pool.getLastD 0 = s₀.pool.getLast hne := by
    rw [List.getLastD_eq_getLast?, List.getLast?_eq_some_getLast hne]
    rfl
  have hco : s₀.mode (s₀.pool.getLast hne) = .pooled := hs₀.pool.pooled (List.getLast_mem hne)
  have hcc : c ≠ s₀.pool.getLast hne := by
    intro h
    rw [← h, ht₀.1] at hco
    cases hco
  unfold spawn Coroutines.coCreate; dsimp only
  rw [← h₀, hlast, if_pos hco]
  refine hcode.trans (State.Code.finish ?_ _)
  refine ⟨⟨fun d _ => ?_, fun _ _ => rfl, .inl rfl, List.prefix_append _ _, fun _ h => h⟩, fun _ _ _ => rfl,
    fun h => ?_⟩
  · by_cases hd : d = s₀.pool.getLast hne
    · subst hd
      exact .inr ⟨by rw [hco]; trivial, by simp [Loop.runCallback, State.setMode, Mode.Idle]⟩
    · exact .inl (by simp [Loop.runCallback, State.setMode, hd])
  · refine h.keep ?_ (fun _ _ _ => .inl rfl) (fun x h => List.mem_append_left _ h) (fun _ _ _ _ _ _ _ => rfl) fun _ h => h
    simp [Loop.runCallback, State.setMode, hcc]

/-! ## Sockets -/

theorem State.Turn.cur_or (ht : s.Turn c) : s.cur = none ∨ s.cur = some c := by
  rcases ht.2 with ⟨-, h⟩ | ⟨-, h, -⟩
  · exact .inr h
  · exact .inl h

theorem Socket.new_code : s.Code c (Socket.new s c) := by
  unfold Socket.new
  refine State.Code.finish ?_ _
  refine .same rfl rfl rfl (List.prefix_refl _) (fun _ _ _ => rfl) fun i hi => ?_
  by_cases hn : i = s.nextSock
  · subst hn
    simp [State.setSock] at hi
  · simpa [State.setSock, hn] using hi

/-- A system call of a socket begins. -/
theorem sys_code (hcur : s.cur = none ∨ s.cur = some c) {i : SockId} {f : SockCall} (hf : f.Short)
    (hopen : (s.sock i).closed = true → f ≠ .connect) : s.Code c (s.setMode c (.sys i f)) := by
  refine ⟨⟨fun d hd => .inl (Function.update_of_ne hd _ _), fun _ _ => rfl, .inl rfl,
    List.prefix_refl _, fun _ h => h⟩, fun _ _ _ => rfl, fun _ => ⟨fun w x u i f t hc => ?_, fun w x u hc => ?_,
    fun i' f' hc => ?_⟩⟩
  · simp [State.setMode] at hc
  · simp [State.setMode] at hc
  · simp only [State.setMode, Function.update_self, Mode.sys.injEq] at hc
    obtain ⟨rfl, rfl⟩ := hc
    exact ⟨hf, hopen, hcur⟩

/-- A method of a socket that is open comes to the kernel. -/
theorem Socket.call_code (hcur : s.cur = none ∨ s.cur = some c) {i : SockId} {f : SockCall} (hf : f.Short) :
    s.Code c (Socket.call s c i f) := by
  unfold Socket.call
  split
  · split <;> exact finish_code _
  · rename_i hi
    exact sys_code hcur hf fun h => absurd h hi

theorem Socket.start_code (hcur : s.cur = none ∨ s.cur = some c) (i : SockId) (f : SockCall) : s.Code c (Socket.start s c i f) := by
  unfold Socket.start
  split
  · split
    · rename_i h
      exact Socket.call_code hcur h
    · exact finish_code _
  · rename_i h
    refine Socket.call_code hcur ?_
    cases f with
    | sendall sent total => exact absurd rfl (h sent total)
    | _ => trivial

/-- The loop of a call comes to the next system call. -/
theorem Socket.again_code (hcur : s.cur = none ∨ s.cur = some c) {i : SockId} {f : SockCall} (hf : f.Short) :
    s.Code c (Socket.again s c i f) := by
  unfold Socket.again
  split
  · exact Socket.call_code hcur hf
  · exact Socket.call_code hcur hf
  · rename_i hconnect
    exact sys_code hcur hf fun _ => hconnect

theorem Socket.answered_code (hcur : s.cur = none ∨ s.cur = some c) {i : SockId} {f : SockCall} (v : Value) :
    s.Code c (Socket.answered s c i v f) := by
  unfold Socket.answered
  split
  · exact Socket.new_code
  · exact finish_code _
  · split
    · rename_i h
      exact Socket.call_code hcur h
    · exact finish_code _
  · exact finish_code _

theorem plain_code (h : s.Code c s') : s.Code c (plain s c (.ok s')) := h.finish (.ok [])

/-- The operations of a task, but for those on waiters by hand and the close of a
    socket. -/
theorem Op.exec_code (hs : s.Sound) (ht : s.Turn c) {o : Op} (h : o.exec s c = some s')
    (hraw : ¬ o.Raw) (hclose : ∀ i, o ≠ .socketClose i) : s.Code c s' := by
  have hsame : ∀ {s₁ : State}, s₁.mode = s.mode → s₁.stack = s.stack → s₁.cur = s.cur →
      s.callbacks <+: s₁.callbacks → s₁.watcher = s.watcher → s₁.sock = s.sock → s.Code c s₁ := fun hm hst hcur hcb hw hk =>
    .same hm hst hcur hcb (fun _ _ _ => by rw [hw]) fun _ h => hk ▸ h
  cases o with
  | eventSet e =>
    cases h
    obtain ⟨E, C, L, he, hC⟩ := Event.set_frame s e
    refine plain_code ?_
    rw [he]
    exact hsame rfl rfl rfl hC.prefix_callbacks rfl rfl
  | eventClear e =>
    cases h
    refine plain_code ?_
    exact hsame rfl rfl rfl (List.prefix_refl _) rfl rfl
  | eventWait e sec =>
    cases e with
    | user n => cases h; exact Event.wait_code _ sec
    | cond q => cases h
  | asyncSet a v =>
    cases h
    unfold plain
    split
    · rename_i s₁ hr
      obtain ⟨A, C, rfl, hC⟩ := AsyncResult._set_frame s hr
      refine State.Code.finish ?_ _
      exact hsame rfl rfl rfl hC.prefix_callbacks rfl rfl
    · exact finish_code _
  | asyncSetException a v =>
    cases h
    unfold plain
    split
    · rename_i s₁ hr
      unfold AsyncResult.setException at hr
      split at hr
      · obtain ⟨A, C, rfl, hC⟩ := AsyncResult._set_frame s hr
        refine State.Code.finish ?_ _
        exact hsame rfl rfl rfl hC.prefix_callbacks rfl rfl
      · cases hr
    · exact finish_code _
  | asyncGet a sec => cases h; exact AsyncResult.get_code a sec
  | semRelease x =>
    cases h
    obtain ⟨M, C, L, he, hC⟩ := Semaphore.release_frame s x
    refine plain_code ?_
    rw [he]
    exact hsame rfl rfl rfl hC.prefix_callbacks rfl rfl
  | semWait x sec acquire => cases h; exact Semaphore.wait_code x sec acquire
  | queuePut q item sec =>
    simp only [Op.exec] at h
    split at h
    · cases h; exact Queue.put_code q item sec
    · cases h
  | queueGet q sec =>
    simp only [Op.exec] at h
    split at h
    · cases h; exact Queue.get_code q sec
    · cases h
  | queueJoin q sec =>
    simp only [Op.exec] at h
    split at h
    · cases h; exact Event.wait_code _ sec
    · cases h
  | sleep => cases h; exact sleep_code
  | socket => cases h; exact Socket.new_code
  | socketSetTimeout i sec =>
    cases h
    refine plain_code ?_
    refine .same rfl rfl rfl (List.prefix_refl _) (fun _ _ _ => rfl) fun i' hi => ?_
    by_cases hn : i' = i
    · subst hn
      simpa [State.setSock] using hi
    · simpa [State.setSock, hn] using hi
  | socketCall i f => cases h; exact Socket.start_code ht.cur_or i f
  | socketClose i => exact absurd rfl (hclose i)
  | spawn args => cases h; exact spawn_code hs ht args
  | kill co target =>
    simp only [Op.exec] at h
    split at h
    · cases h
      refine plain_code ?_
      exact hsame rfl rfl rfl (List.prefix_append _ _) rfl rfl
    · cases h
  | check n =>
    cases h
    exact plain_code (check_code hs ht _)
  | runCallback =>
    cases h
    refine plain_code ?_
    exact hsame rfl rfl rfl (List.prefix_append _ _) rfl rfl
  | timeoutStartNew sec => cases h; exact plain_code (Timeout.startNew_code sec)
  | timeoutCancel t => cases h; exact plain_code (Timeout.cancel_code t)
  | timeoutRun sec => cases h; exact (Timeout.startNew_code sec).trans (State.setStack_code _)
  | pcall => cases h; exact State.setStack_code _
  | returns vs => cases h; exact returns_code vs
  | error v => cases h; exact finish_code _
  | waiter | waiterGet | waiterSwitch | waiterThrow | hubSwitch | hubThrow => exact absurd trivial hraw

end Levent
