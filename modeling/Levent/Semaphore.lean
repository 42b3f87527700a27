/-
  `Semaphore`: what its counter promises in every run, what a call that finds no
  permit makes of it, and the notification that runs once only.
-/
import Levent.Runtime.SemInv
import Levent.Runtime.Runs

namespace Levent

open Lib (Armed Along run)

variable {R : Rules} {p p' : Pend} {s s' t : State} {value : SemId → ℕ}
  {maxsizes : List (Option ℤ)} {as : List Act} {x : SemId} {v : ℕ}

/-! ## Nobody waits at a semaphore -/

/-- No coroutine is suspended in a call of the semaphore. -/
structure State.NoWaits (x : SemId) (p : Pend) (s : State) : Prop where
  pend : ∀ w, p ≠ some (.sem x, w)
  asleep : ∀ c w k, s.mode c = .blocked w k → k.sync ≠ some (.sem x)

theorem State.NoWaits.keep (h : s.NoWaits x p) (hp : p' = p ∨ p' = none)
    (hm : ∀ c w k, s'.mode c = .blocked w k → s.mode c = .blocked w k) : s'.NoWaits x p' where
  pend w hw := by
    rcases hp with rfl | rfl
    · exact h.pend w hw
    · cases hw
  asleep c w k hc := h.asleep c w k (hm c w k hc)

theorem update_not_blocked {mode : Co → Mode} {c c' : Co} {m : Mode} {w : WaiterId} {k : Call}
    (hm : ∀ w k, m ≠ .blocked w k) (h : Function.update mode c m c' = .blocked w k) :
    mode c' = .blocked w k := by
  by_cases hc : c' = c
  · subst hc; rw [Function.update_self] at h; exact absurd h (hm w k)
  · rwa [Function.update_of_ne hc] at h

theorem State.NoWaits.set_mode (h : s.NoWaits x none) {c : Co} {m : Mode}
    (hm : ∀ w k, m ≠ .blocked w k) (hs : s'.mode = Function.update s.mode c m) :
    s'.NoWaits x none :=
  h.keep (Or.inl rfl) fun _ _ _ hc => update_not_blocked hm (hs ▸ hc)

theorem State.NoWaits.micro (hm : Micro R p s p' s') (h : s.NoWaits x p) : s'.NoWaits x p' := by
  cases hm with
  | env _ _ _ he | waiter _ _ he => rw [he.eq]; exact h.keep (Or.inl rfl) fun _ _ _ => id
  | emit | post | pop | kill | assertGet | settledGet | mainDone | enter | begin | semPass
  | semAcquire | eventClear | mainGet => exact h.keep (Or.inl rfl) fun _ _ _ => id
  | eventSet _ e =>
    obtain ⟨E, C, L, he, -⟩ := Event.set_frame s e
    rw [he]; exact h.keep (Or.inl rfl) fun _ _ _ => id
  | asyncSet _ _ _ _ _ hs =>
    obtain ⟨A, C, rfl, -⟩ := AsyncResult._set_frame s hs
    exact h.keep (Or.inl rfl) fun _ _ _ => id
  | semRelease _ x' =>
    obtain ⟨M, C, L, he, -⟩ := Semaphore.release_frame s x'
    rw [he]; exact h.keep (Or.inl rfl) fun _ _ _ => id
  | semRefuse _ x' c t s₁ _ h₁ =>
    obtain ⟨E, A, M, Q, he⟩ := (s.emit (.semCall x' c (s.sem x').counter)).newLink_frame (.sem x')
    rw [h₁.eq, he]; exact h.keep (Or.inl rfl) fun _ _ _ => id
  | semWaited _ x' w o s₁ _ h₁ =>
    obtain ⟨E, A, M, Q, he⟩ := s.setLinks_frame ((s.links (.sem x')).erase w) (.sem x')
    rw [h₁.eq, State.unlink, he]; exact h.keep (Or.inr rfl) fun _ _ _ => id
  | put _ q item =>
    obtain ⟨Q, E, C, L, he, -⟩ := Queue._put_frame s q item
    rw [he]; exact h.keep (Or.inl rfl) fun _ _ _ => id
  | get _ _ _ _ hs =>
    obtain ⟨Q, C, L, rfl, -⟩ := Queue._get_frame s hs
    exact h.keep (Or.inl rfl) fun _ _ _ => id
  | endNotify _ y =>
    obtain ⟨E, Q, he⟩ := endNotify_frame s y
    rw [he]; exact h.keep (Or.inl rfl) fun _ _ _ => id
  | link _ y hy =>
    obtain ⟨E, A, M, Q, he⟩ := s.newLink_frame y
    rw [he]
    refine ⟨fun w hw => ?_, h.asleep⟩
    cases hw; exact hy x rfl
  | unlink _ y w =>
    obtain ⟨E, A, M, Q, he⟩ := s.setLinks_frame ((s.links y).erase w) y
    rw [State.unlink, he]; exact h.keep (Or.inr rfl) fun _ _ _ => id
  | abort _ y w =>
    obtain ⟨E, L, he⟩ := s.takes_frame w (some y)
    rw [he]; exact h.keep (Or.inl rfl) fun _ _ _ => id
  | settle _ w v e b =>
    obtain ⟨E, L, he⟩ := s.takes_frame w b
    rw [he]; exact h.keep (Or.inl rfl) fun _ _ _ => id
  | goOn _ c m _ ha => exact h.set_mode (by rintro w k rfl; exact ha) rfl
  | answer _ c | start _ c => exact h.set_mode (c := c) (m := .running) (by simp) rfl
  | returned _ c => exact h.set_mode (c := c) (m := .pooled) (by simp) rfl
  | failed _ c => exact h.set_mode (c := c) (m := .dead) (by simp) rfl
  | rawCreate => exact h.set_mode (c := s.total + 1) (m := .pooled) (by simp) rfl
  | spawn _ co => exact h.set_mode (c := co) (m := .ready (some s.nextTask)) (by simp) rfl
  | block _ c w k =>
    refine ⟨by simp, fun c' w' k' hc' hk => ?_⟩
    by_cases hcc : c' = c
    · subst hcc
      simp only [State.block, Function.update_self, Mode.blocked.injEq] at hc'
      obtain ⟨rfl, rfl⟩ := hc'
      exact h.pend w (Call.pend_eq.2 ⟨hk, rfl⟩)
    · exact h.asleep c' w' k' (by simpa [State.block, hcc] using hc') hk
  | resume _ c w k v e b hc =>
    obtain ⟨E, L, he⟩ := s.takes_frame w b
    refine ⟨fun w' hw => h.asleep c w k hc (Call.pend_eq.1 hw).1, fun c' w' k' hc' => ?_⟩
    rw [he] at hc'
    exact h.asleep c' w' k' (update_not_blocked (m := .running) (by simp) hc')

/-! ## The counter -/

/-- The counter of a semaphore made with `v`, and the calls it has had. -/
structure State.SemInv (v : ℕ) (x : SemId) (s : State) : Prop where
  balance : (s.sem x).counter + s.log.count (.acquired x) = v + s.log.count (.released x)
  nonneg : 0 ≤ (s.sem x).counter
  passed : ∀ n t, .semTrue x n t ∈ s.log → 0 < n ∧ t = none
  failed : ∀ e t, .semFalse x e t ∉ s.log
  quiet : (∀ c n, .semCall x c n ∈ s.log → 0 < n) →
    (s.sem x).links = ∅ ∧ ∀ t, .semRaised x t ∉ s.log
  raised : ∀ c n, .semCall x c n ∈ s.log → ¬ 0 < n → ∃ t, .semRaised x t ∈ s.log

theorem State.SemInv.step (h : s.SemInv v x) (hs : s.SemStep p x s')
    (hp : ∀ w, p ≠ some (.sem x, w)) : s'.SemInv v x := by
  have hcount : ∀ {os : List Obs} {o : Obs}, (∀ o ∈ os, o.sem? ≠ some x) → o.sem? = some x →
      (s.log ++ os).count o = s.log.count o := fun {os o} hos ho => by
    rw [List.count_append, List.count_eq_zero.2 fun hm => hos o hm ho, Nat.add_zero]
  have hmem : ∀ {os : List Obs} {o : Obs}, (∀ o ∈ os, o.sem? ≠ some x) → o.sem? = some x →
      (o ∈ s.log ++ os ↔ o ∈ s.log) := fun {os o} hos ho => by
    rw [List.mem_append]
    exact or_iff_left fun hm => hos o hm ho
  cases hs with
  | kept os hx hl hos =>
    refine ⟨?_, hx ▸ h.nonneg, ?_, ?_, ?_, ?_⟩
    · rw [hx, hl, hcount hos rfl, hcount hos rfl]; exact h.balance
    · rw [hl]; exact fun n t hm => h.passed n t ((hmem hos rfl).1 hm)
    · rw [hl]; exact fun e t hm => h.failed e t ((hmem hos rfl).1 hm)
    · rw [hl, hx]
      intro hpos
      obtain ⟨h1, h2⟩ := h.quiet fun c n hm => hpos c n ((hmem hos rfl).2 hm)
      exact ⟨h1, fun t hm => h2 t ((hmem hos rfl).1 hm)⟩
    · rw [hl]
      intro c n hm hn
      obtain ⟨t, ht⟩ := h.raised c n ((hmem hos rfl).1 hm) hn
      exact ⟨t, (hmem hos rfl).2 ht⟩
  | release hx hl =>
    refine ⟨?_, ?_, ?_, ?_, ?_, ?_⟩
    · have := h.balance
      rw [hx, hl]
      simp only [List.count_append, List.count_singleton, beq_iff_eq, reduceCtorEq, if_false,
        if_true]
      push_cast; omega
    · have := h.nonneg
      rw [hx]
      show 0 ≤ (s.sem x).counter + 1
      omega
    · simpa [hl] using h.passed
    · simpa [hl] using h.failed
    · simpa [hl, hx] using h.quiet
    · simpa [hl] using h.raised
  | acquire hc hx hl =>
    refine ⟨?_, ?_, ?_, ?_, ?_, ?_⟩
    · have := h.balance
      rw [hx, hl]
      simp only [List.count_append, List.count_singleton, beq_iff_eq, reduceCtorEq, if_false,
        if_true]
      push_cast; omega
    · rw [hx]
      show 0 ≤ (s.sem x).counter - 1
      omega
    · simpa [hl] using h.passed
    · simpa [hl] using h.failed
    · simpa [hl, hx] using h.quiet
    · simpa [hl] using h.raised
  | pass c hc hx hl =>
    refine ⟨?_, hx ▸ h.nonneg, ?_, ?_, ?_, ?_⟩
    · have := h.balance
      rw [hx, hl]; simpa using this
    · rw [hl]
      intro n t hm
      rcases List.mem_append.1 hm with hm | hm
      · exact h.passed n t hm
      · simp at hm; obtain ⟨rfl, rfl⟩ := hm; exact ⟨hc, rfl⟩
    · simpa [hl] using h.failed
    · rw [hl, hx]
      intro hpos
      obtain ⟨h1, h2⟩ := h.quiet fun c n hm => hpos c n (List.mem_append_left _ hm)
      exact ⟨h1, by simpa using h2⟩
    · rw [hl]
      intro c' n hm hn
      rcases List.mem_append.1 hm with hm | hm
      · obtain ⟨t, ht⟩ := h.raised c' n hm hn
        exact ⟨t, List.mem_append_left _ ht⟩
      · simp at hm; obtain ⟨-, rfl⟩ := hm; exact absurd hc hn
  | refuse c t hc hx hl =>
    refine ⟨?_, ?_, ?_, ?_, ?_, ?_⟩
    · have := h.balance
      rw [hx, hl]; simpa using this
    · rw [hx]; exact h.nonneg
    · simpa [hl] using h.passed
    · simpa [hl] using h.failed
    · intro hpos
      exact absurd (hpos c _ (by rw [hl]; simp)) hc
    · exact fun _ _ _ _ => ⟨t, by rw [hl]; simp⟩
  | waited w o hw => exact absurd hw (hp w)

theorem State.Initial.sem (h : s.Initial value) (x : SemId) :
    s.NoWaits x none ∧ s.SemInv (value x) x := by
  have hlog : ∀ o : Obs, o.sem? = some x → o ∉ s.log := fun o ho hm => by
    obtain ⟨e, rfl⟩ := h.log o hm; cases ho
  obtain ⟨E, C, L, Q, n, hs⟩ := h.frame
  have hx : s.sem x = Semaphore._init (value x) := by rw [hs]; rfl
  refine ⟨⟨by simp, fun c w k hc => ?_⟩, ?_, ?_, fun n t hm => absurd hm (hlog _ rfl),
    fun _ _ => hlog _ rfl, fun _ => ⟨by rw [hx]; rfl, fun _ => hlog _ rfl⟩,
    fun c n hm => absurd hm (hlog _ rfl)⟩
  · rw [hs] at hc
    simp only [State.fresh] at hc
    split at hc <;> cases hc
  · rw [List.count_eq_zero.2 (hlog _ rfl), List.count_eq_zero.2 (hlog _ rfl), hx]; rfl
  · rw [hx]; exact Int.natCast_nonneg _

/-! ## Runs -/

/-- What a semaphore made with `v` promises: a call that finds no permit goes on
    to wait, no call raises, one that returns true has found a permit and one
    that returns false was thrown at; none leaves its waiter or its timer; no
    more permits are acquired than there are. -/
structure Semaphore.Sound (s : State) (x : SemId) (v : ℕ) : Prop where
  blocks : ∀ l l' c n, s.log = l ++ .semCall x c n :: l' → ¬ 0 < n → ∃ w l'', l' = .getCall w c :: l''
  raises : ∀ t, .semRaised x t ∉ s.log
  passes : ∀ n t, .semTrue x n t ∈ s.log → 0 < n
  fails : ∀ e t, .semFalse x e t ∈ s.log → e = .exn .kill ∨ e = .exn (.timeout t)
  links : ∀ w ∈ s.links (.sem x), s.BlockedAt (.sem x) w
  timers : ∀ t, ((∃ n, .semTrue x n (some t) ∈ s.log) ∨ (∃ e, .semFalse x e t ∈ s.log) ∨
    .semRaised x t ∈ s.log) → Watcher.isActive s (.timeout t) = false
  bound : s.log.count (.acquired x) ≤ v + s.log.count (.released x)

theorem sem_inv (hrun : run step (State.init value maxsizes) as = some t)
    (hA : ∀ a ∈ as, ¬ a.Raw) (x : SemId) : t.SemInv (value x) x := by
  have h0 := State.init_initial value maxsizes
  exact (run_micro_inv (R := Rules.free) (C := Plain)
    (I := fun p s => s.NoWaits x p ∧ s.SemInv (value x) x)
    (fun hm _ h => ⟨h.1.micro hm, h.2.step (hm.sem_step x) h.1.pend⟩)
    (fun _ _ ha => .free ha) h0.sound (h0.sem x) hrun (.of_forall fun _ => hA)).2.2

/-- **A semaphore works as long as nobody has to wait for it.** -/
theorem semaphore_sound_iff (hrun : run step (State.init value maxsizes) as = some t)
    (hA : ∀ a ∈ as, ¬ a.Raw) (x : SemId) :
    Semaphore.Sound t x (value x) ↔ ∀ c n, .semCall x c n ∈ t.log → 0 < n := by
  have h := sem_inv hrun hA x
  constructor
  · intro hs c n hm
    by_contra hn
    obtain ⟨i, hi⟩ := h.raised c n hm hn
    exact hs.raises i hi
  · intro hpos
    obtain ⟨hlinks, hraised⟩ := h.quiet hpos
    refine ⟨fun l l' c n hl hn => absurd (hpos c n (by rw [hl]; simp)) hn, hraised,
      fun n i hm => (h.passed n i hm).1, fun e i hm => absurd hm (h.failed e i), fun w hw => ?_,
      fun i hi => ?_, ?_⟩
    · rw [State.links, hlinks] at hw; cases hw
    · rcases hi with ⟨n, hm⟩ | ⟨e, hm⟩ | hm
      · cases (h.passed n _ hm).2
      · exact absurd hm (h.failed e i)
      · exact absurd hm (hraised i)
    · have h1 := h.balance
      have h2 := h.nonneg
      omega

/-- A semaphore of one permit is acquired and released. -/
def passesOnce : List Act :=
  [.enter, .op (.spawn []), .op (.returns []), .callback, .op (.semWait 0 none true),
    .op (.semRelease 0), .op (.returns [])]

theorem semaphore_sound_passesOnce :
    ∃ t, run step (State.init (fun _ => 1) []) passesOnce = some t ∧
      .acquired 0 ∈ t.log ∧ .semCall 0 1 1 ∈ t.log ∧
      (Semaphore.Sound t 0 1 ↔ ∀ c n, .semCall 0 c n ∈ t.log → 0 < n) := by
  have h : run step (State.init (fun _ => 1) []) passesOnce = some _ := rfl
  exact ⟨_, h, by decide, by decide,
    semaphore_sound_iff h (by simp [passesOnce, Act.Raw, Op.Raw]) 0⟩

/-- A task acquires a semaphore that has no permit. -/
def findsNoPermit : List Act :=
  [.enter, .op (.spawn []), .op (.returns []), .callback, .op (.semWait 0 (some 1) true)]

/-- It does not wait: the call raises, and leaves its waiter and its timer. -/
theorem semaphore_not_sound :
    ∃ t, run step (State.init (fun _ => 0) []) findsNoPermit = some t ∧
      (∀ a ∈ findsNoPermit, ¬ a.Raw) ∧ t.mode 1 = .dead ∧ .semRaised 0 0 ∈ t.log ∧
      t.links (.sem 0) = {0} ∧ Watcher.isActive t (.timeout 0) = true ∧
      ¬ Semaphore.Sound t 0 0 := by
  have h : run step (State.init (fun _ => 0) []) findsNoPermit = some _ := rfl
  exact ⟨_, h, by simp [findsNoPermit, Act.Raw, Op.Raw], by decide, by decide, by decide,
    by decide, fun hs => hs.raises 0 (by decide)⟩

/-! ## Wake-ups -/

/-- A semaphore with permits and waiters has its notifier set. -/
def State.SemWake (x : SemId) (s : State) : Prop :=
  0 < (s.sem x).counter → (s.sem x).links.Nonempty → (s.sem x).notifier = true

theorem State.SemWake.step (h : s.SemWake x) (hs : s.SemStep p x s') : s'.SemWake x := by
  unfold State.SemWake
  cases hs with
  | kept _ hx | pass _ _ hx => rw [hx]; exact h
  | release hx =>
    rw [hx]
    intro _ hne
    have hl : decide (s.sem x).links.Nonempty = true := decide_eq_true hne
    simp [hl]
  | acquire hc hx => rw [hx]; exact fun _ => h hc
  | refuse _ _ hc hx => rw [hx]; exact fun hc' => absurd hc' hc
  | waited w _ _ _ hx =>
    rw [hx]
    exact fun hc hne => h hc (hne.mono (Finset.erase_subset _ _))

/-- The states to start from: a process with a new semaphore, or any one in
    which the notifier agrees with the callback queue. -/
inductive Semaphore.Starts (x : SemId) : State → Prop
  | new (value : SemId → ℕ) (maxsizes : List (Option ℤ)) : Starts x (State.init value maxsizes)
  | of (s : State) : s.Sound → (s.armed (.sem x)).Idle → s.SemWake x → Starts x s

theorem Semaphore.Starts.inv (h : Semaphore.Starts x s) :
    s.Sound ∧ (s.armed (.sem x)).Idle ∧ s.SemWake x := by
  cases h with
  | of _ hs hi hw => exact ⟨hs, hi, hw⟩
  | new value maxsizes =>
    have h0 := State.init_initial value maxsizes
    have hcb := h0.callbacks
    obtain ⟨E, C, L, Q, n, hs⟩ := h0.frame
    have hx : (State.init value maxsizes).sem x = Semaphore._init (value x) := by rw [hs]; rfl
    have hcount : (State.init value maxsizes).callbacks.count (.notify (.sem x)) = 0 :=
      List.count_eq_zero.2 fun hm => by
        obtain ⟨e, he⟩ := hcb _ hm
        cases he
    refine ⟨h0.sound, ⟨?_, ?_⟩, fun _ hne => ?_⟩
    · rw [hs]; rfl
    · have hf : (State.init value maxsizes).flag (.sem x) = false := by
        show ((State.init value maxsizes).sem x).notifier = false
        rw [hx]; rfl
      simp [State.armed, hf, hcount]
    · rw [hx] at hne; exact absurd hne (by simp [Semaphore._init])

/-- The notifications of the semaphore do not run. -/
def Rules.unnotified (x : SemId) : Rules := { Rules.free with begin := fun y => y ≠ .sem x }

/-- The step is no operation on a waiter by hand, and does not begin a
    notification of the semaphore. -/
def Unnotified (x : SemId) (s : State) (a : Act) : Prop :=
  ¬ a.Raw ∧ match a with
    | .callback => s.callbacks.head? ≠ some (.notify (.sem x))
    | _ => True

instance (s : State) (a : Act) : Decidable (Unnotified x s a) := by
  unfold Unnotified
  cases a <;> infer_instance

theorem StepOk.unnotified {a : Act} (ha : Unnotified x s a) : StepOk (Rules.unnotified x) s a where
  notified _ _ _ _ _ := trivial
  watched _ _ _ _ _ := trivial
  injected _ _ := trivial
  kill _ _ _ _ _ _ _ _ := trivial
  ready := Or.inl trivial
  set _ _ _ _ _ _ := trivial
  raw o ho hr := by subst ho; exact absurd hr ha.1
  begin y cbs hcb hq := by
    subst hcb
    rintro rfl
    exact ha.2 (by rw [hq]; rfl)

/-- No wake-up of the semaphore is lost. -/
structure Semaphore.Wakes (s : State) (x : SemId) : Prop where
  notifier : s.Between → ((s.sem x).notifier = true ↔ .notify (.sem x) ∈ s.callbacks)
  wakes : s.Between → 0 < (s.sem x).counter → (s.sem x).links.Nonempty →
    .notify (.sem x) ∈ s.callbacks

/-- **A semaphore loses no wake-up up to its first notification.** -/
theorem semaphore_wakes (h0 : Semaphore.Starts x s) (hrun : run step s as = some t)
    (hA : Along step (Unnotified x) s as) : Semaphore.Wakes t x := by
  obtain ⟨hs, hi, hw⟩ := h0.inv
  obtain ⟨-, hi, hw⟩ := run_micro_inv (R := Rules.unnotified x) (C := Unnotified x)
    (I := fun _ s => (s.armed (.sem x)).Idle ∧ s.SemWake x)
    (fun hm _ h => ⟨(hm.armed (by simp)).idle (by simp [Rules.unnotified]) h.1,
      h.2.step (hm.sem_step x)⟩)
    (fun _ _ ha => .unnotified ha) hs ⟨hi, hw⟩ hrun hA
  have hflag : (t.sem x).notifier = true ↔ .notify (.sem x) ∈ t.callbacks := by
    have := hi.2
    simpa [State.armed, State.flag, List.count_pos_iff] using this
  exact ⟨fun _ => hflag, fun _ hc hne => hflag.1 (hw hc hne)⟩

/-- A task finds no permit; then one is released. -/
def releasesLate : List Act :=
  findsNoPermit ++ [.enter, .op (.semRelease 0), .op (.returns [])]

theorem semaphore_wakes_releasesLate :
    ∃ t, run step (State.init (fun _ => 0) []) releasesLate = some t ∧ t.Between ∧
      (t.sem 0).counter = 1 ∧ (t.sem 0).links = {0} ∧ t.callbacks = [.notify (.sem 0)] ∧
      Semaphore.Wakes t 0 := by
  have h : run step (State.init (fun _ => 0) []) releasesLate = some _ := rfl
  exact ⟨_, h, by decide, by decide, by decide, by decide,
    semaphore_wakes (.new _ _) h (.of_check (by decide))⟩

/-- The notifier stays set after the notification, which nobody will queue again. -/
theorem semaphore_not_wakes :
    ∃ t, run step (State.init (fun _ => 0) [])
        (releasesLate ++ [.callback, .next (some 0), .next (some 0)]) = some t ∧
      t.Between ∧ (t.sem 0).counter = 1 ∧ (t.sem 0).links = {0} ∧
      (t.sem 0).notifier = true ∧ t.callbacks = [] ∧ ¬ Semaphore.Wakes t 0 := by
  have h : run step (State.init (fun _ => 0) [])
    (releasesLate ++ [.callback, .next (some 0), .next (some 0)]) = some _ := rfl
  exact ⟨_, h, by decide, by decide, by decide, by decide, by decide,
    fun hw => absurd (hw.wakes (by decide) (by decide) (by decide)) (by decide)⟩

end Levent
