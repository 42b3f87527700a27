/-
  The timers of timeouts, from the start of a call to its end: each belongs to a
  call that waits or to a `timeout.run`, and is cancelled with it.

  Which timers are left to nobody (`H`) and which the code cancels itself (`K`)
  are parameters.
-/
import Levent.Runtime.Hub

namespace Levent

variable {s s' s₁ : State} {c d : Co} {t u : TimeoutId} {x : WatcherId} {w : WaiterId}
  {H H' : Co → TimeoutId → Prop} {K : TimeoutId → Prop} {p : Co → Option TimeoutId}
  {o : Option TimeoutId} {sec : Option ℤ}

/-! ## Whose timers -/

/-- The timeout that the call has started and will cancel. -/
def HubCaller.timeout : HubCaller → Option TimeoutId
  | .sleep => none
  | .sock _ _ t => t

def Call.timeout : Call → Option TimeoutId
  | .get => none
  | .eventWait _ t | .asyncGet _ t | .semWait _ t _ | .queuePut _ _ t | .queueGet _ t => some t
  | .hubWait _ _ k => k.timeout

def Mode.timeout : Mode → Option TimeoutId
  | .blocked _ k => k.timeout
  | _ => none

/-- `c` is in the call or in the `timeout.run` that has started `t`. -/
def State.InScope (s : State) (c : Co) (t : TimeoutId) : Prop :=
  (s.mode c).timeout = some t ∨ .timeoutRun t ∈ s.stack c

/-- The timer of `t` runs, and will throw at `c`. -/
def State.Rings (s : State) (t : TimeoutId) (c : Co) : Prop :=
  s.watcher (.timeout t) = ⟨some (.throw c (.timeout t)), true⟩

/-- Each timer that runs is of a call in `p`, of a `timeout.run`, or one of those in `H`. -/
structure State.TimersOwned (H : Co → TimeoutId → Prop) (s : State) (p : Co → Option TimeoutId) : Prop where
  fresh : ∀ t, s.nextTimeout ≤ t → s.watcher (.timeout t) = ⟨none, false⟩
  made : ∀ c t, p c = some t → t < s.nextTimeout
  runs : ∀ c t, .timeoutRun t ∈ s.stack c → t < s.nextTimeout
  alone : ∀ c d t, p c = some t → p d = some t → c = d
  apart : ∀ c d t, p c = some t → .timeoutRun t ∉ s.stack d
  active : ∀ t, (s.watcher (.timeout t)).active = true → Timeout.hasTimer (s.seconds t) = true ∧
    ∃ c, s.Rings t c ∧ (p c = some t ∨ .timeoutRun t ∈ s.stack c ∨ H c t)

/-- If `c` is in a call with the timeout `o`, its timer runs, unless it is one of those in `K`. -/
def State.Armed (K : TimeoutId → Prop) (s : State) (c : Co) (o : Option TimeoutId) : Prop :=
  ∀ t, o = some t → Timeout.hasTimer (s.seconds t) = true → K t ∨ s.Rings t c

/-- The calls of all but `c`. -/
theorem calls_none : Function.update p c none d = some t ↔ d ≠ c ∧ p d = some t := by
  by_cases hd : d = c
  · subst hd
    simp
  · simp [hd]

theorem calls_some : Function.update p c (some u) d = some t ↔ (d = c ∧ t = u) ∨ (d ≠ c ∧ p d = some t) := by
  by_cases hd : d = c
  · subst hd
    simp [eq_comm]
  · simp [hd]

theorem calls_back (h : Function.update p c none d = some t) : Function.update p c (some u) d = some t :=
  calls_some.2 (.inr (calls_none.1 h))

/-- A coroutine in this mode is not in `waiter.get`. -/
def Mode.Out (m : Mode) : Prop := ∀ w k, m ≠ .blocked w k

theorem Mode.Out.timeout {m : Mode} (h : m.Out) : m.timeout = none := by
  cases m with
  | blocked w k => exact absurd rfl (h w k)
  | _ => rfl

/-- `Hub:wait` is called for no timer of a timeout. -/
def Call.Apart (k : Call) : Prop := ∀ x u k' t, k = .hubWait x u k' → x ≠ .timeout t

/-- **The timers**, when the code of no coroutine runs, or that of one that is not in a call. -/
structure State.Timed (H : Co → TimeoutId → Prop) (K : TimeoutId → Prop) (s : State) : Prop where
  owned : s.TimersOwned H fun c => (s.mode c).timeout
  armed : ∀ c, s.Armed K c (s.mode c).timeout
  apart : ∀ c w k, s.mode c = .blocked w k → k.Apart

/-- The timers while `c` is in a call that has `o` to cancel. -/
structure State.Flight (H : Co → TimeoutId → Prop) (K : TimeoutId → Prop) (s : State) (c : Co)
    (o : Option TimeoutId) : Prop where
  owned : s.TimersOwned H (Function.update (fun d => (s.mode d).timeout) c o)
  armed : ∀ d, s.Armed K d (s.mode d).timeout
  apart : ∀ d w k, s.mode d = .blocked w k → k.Apart
  out : (s.mode c).Out

theorem State.Timed.flight (h : s.Timed H K) (hc : (s.mode c).Out) : s.Flight H K c none := by
  refine ⟨?_, h.armed, h.apart, hc⟩
  rw [← hc.timeout, Function.update_eq_self c fun d => (s.mode d).timeout]
  exact h.owned

theorem State.Flight.timed (h : s.Flight H K c none) : s.Timed H K := by
  refine ⟨?_, h.armed, h.apart⟩
  have howned := h.owned
  rwa [← h.out.timeout, Function.update_eq_self c fun d => (s.mode d).timeout] at howned

theorem State.TimersOwned.mono (h : s.TimersOwned H p) (hH : ∀ c t, H c t → H' c t) : s.TimersOwned H' p := by
  refine { h with active := fun t ht => ?_ }
  obtain ⟨htimer, c, hring, howner⟩ := h.active t ht
  exact ⟨htimer, c, hring, howner.imp_right (Or.imp_right (hH c t))⟩

theorem State.Timed.mono (h : s.Timed H K) (hH : ∀ c t, H c t → H' c t) : s.Timed H' K :=
  ⟨h.owned.mono hH, h.armed, h.apart⟩

/-! ## Steps that leave the timers alone -/

/-- The timers and the protected calls are the same. -/
structure State.Ticks (s s' : State) : Prop where
  watcher : ∀ t, s'.watcher (.timeout t) = s.watcher (.timeout t)
  seconds : s'.seconds = s.seconds
  next : s'.nextTimeout = s.nextTimeout
  stack : s'.stack = s.stack

/-- Moreover, nobody begins or ends to wait. -/
structure State.Quiet (s s' : State) : Prop extends s.Ticks s' where
  mode : ∀ c, s'.mode c = s.mode c ∨ ((s.mode c).Out ∧ (s'.mode c).Out)

theorem State.Ticks.same (hw : s'.watcher = s.watcher) (hsec : s'.seconds = s.seconds)
    (hn : s'.nextTimeout = s.nextTimeout) (hst : s'.stack = s.stack) : s.Ticks s' :=
  ⟨fun _ => by rw [hw], hsec, hn, hst⟩

theorem State.Quiet.same (hw : s'.watcher = s.watcher) (hsec : s'.seconds = s.seconds)
    (hn : s'.nextTimeout = s.nextTimeout) (hst : s'.stack = s.stack) (hm : s'.mode = s.mode) :
    s.Quiet s' :=
  ⟨.same hw hsec hn hst, fun _ => .inl (by rw [hm])⟩

theorem State.Quiet.refl : s.Quiet s := .same rfl rfl rfl rfl rfl

theorem State.Quiet.out (h : s.Quiet s') (hc : (s.mode c).Out) : (s'.mode c).Out := by
  rcases h.mode c with hm | hm
  · rw [hm]
    exact hc
  · exact hm.2

theorem State.Quiet.trans {s'' : State} (h : s.Quiet s') (h' : s'.Quiet s'') : s.Quiet s'' where
  watcher t := (h'.watcher t).trans (h.watcher t)
  seconds := h'.seconds.trans h.seconds
  next := h'.next.trans h.next
  stack := h'.stack.trans h.stack
  mode c := by
    rcases h.mode c with hm | ⟨hm, hm'⟩
    · rw [← hm]
      exact h'.mode c
    · exact .inr ⟨hm, h'.out hm'⟩

/-- One coroutine goes on elsewhere. -/
theorem State.Quiet.update {m : Mode} (hc : (s.mode c).Out) (hm : m.Out)
    (hmode : s'.mode = Function.update s.mode c m) (hq : s.Ticks s') : s.Quiet s' := by
  refine ⟨hq, fun d => ?_⟩
  rw [hmode]
  by_cases hd : d = c
  · subst hd
    rw [Function.update_self]
    exact .inr ⟨hc, hm⟩
  · exact .inl (Function.update_of_ne hd _ _)

theorem State.Quiet.timeout (h : s.Quiet s') : (fun c => (s'.mode c).timeout) = fun c => (s.mode c).timeout := by
  ext c : 1
  rcases h.mode c with hm | ⟨hm, hm'⟩
  · rw [hm]
  · rw [hm.timeout, hm'.timeout]

/-- A watcher that is no timer of a timeout. -/
theorem State.setWatcher_quiet (hx : ∀ t, x ≠ .timeout t) (w : Watcher) : s.Quiet (s.setWatcher x w) :=
  ⟨⟨fun t => Function.update_of_ne (hx t).symm _ _, rfl, rfl, rfl⟩, fun _ => .inl rfl⟩

theorem State.TimersOwned.ticks (h : s.TimersOwned H p) (hq : s.Ticks s') : s'.TimersOwned H p := by
  obtain ⟨hw, hsec, hn, hst⟩ := hq
  refine ⟨fun t ht => ?_, fun c t hc => ?_, fun c t ht => ?_, h.alone, fun c d t hc => ?_, fun t ht => ?_⟩
  · rw [hw]
    exact h.fresh t (hn ▸ ht)
  · rw [hn]
    exact h.made c t hc
  · rw [hst] at ht
    rw [hn]
    exact h.runs c t ht
  · rw [hst]
    exact h.apart c d t hc
  · rw [hw] at ht
    obtain ⟨htimer, c, hring, howner⟩ := h.active t ht
    refine ⟨hsec ▸ htimer, c, (hw t).trans hring, ?_⟩
    rw [hst]
    exact howner

theorem State.Armed.ticks (h : s.Armed K c o) (hq : s.Ticks s') : s'.Armed K c o := by
  intro t ht htimer
  rw [hq.seconds] at htimer
  exact (h t ht htimer).imp_right (hq.watcher t).trans

theorem State.Quiet.apart (hq : s.Quiet s') (h : ∀ d w k, s.mode d = .blocked w k → k.Apart) :
    ∀ d w k, s'.mode d = .blocked w k → k.Apart := by
  intro d w k hk
  rcases hq.mode d with hm | ⟨-, hm⟩
  · exact h d w k (hm ▸ hk)
  · exact absurd hk (hm w k)

theorem State.Quiet.armed (hq : s.Quiet s') (h : ∀ c, s.Armed K c (s.mode c).timeout) (c : Co) :
    s'.Armed K c (s'.mode c).timeout := by
  have hc : (s'.mode c).timeout = (s.mode c).timeout := congrFun hq.timeout c
  rw [hc]
  exact (h c).ticks hq.toTicks

theorem State.Timed.quiet (h : s.Timed H K) (hq : s.Quiet s') : s'.Timed H K := by
  refine ⟨?_, hq.armed h.armed, hq.apart h.apart⟩
  rw [hq.timeout]
  exact h.owned.ticks hq.toTicks

theorem State.Flight.quiet (h : s.Flight H K c o) (hq : s.Quiet s') : s'.Flight H K c o := by
  refine ⟨?_, hq.armed h.armed, hq.apart h.apart, hq.out h.out⟩
  rw [hq.timeout]
  exact h.owned.ticks hq.toTicks

/-! ## Cancel -/

theorem Timeout.cancel_frame (s : State) (t : TimeoutId) :
    ∃ W, Timeout.cancel s t = { s with watcher := W } ∧ ∀ x, x ≠ .timeout t → W x = s.watcher x := by
  unfold Timeout.cancel
  split
  · exact ⟨_, rfl, fun x hx => Function.update_of_ne hx _ _⟩
  · exact ⟨s.watcher, rfl, fun _ _ => rfl⟩

/-- The timer that is cancelled does not run, and the others run as before. -/
theorem Timeout.cancel_active (h : s.TimersOwned H p)
    (hu : ((Timeout.cancel s t).watcher (.timeout u)).active = true) :
    u ≠ t ∧ (s.watcher (.timeout u)).active = true := by
  by_cases htimer : Timeout.hasTimer (s.seconds t) = true
  · rw [Timeout.cancel, if_pos htimer] at hu
    by_cases hut : u = t
    · subst hut
      simp [Watcher.stop, State.setWatcher] at hu
    · exact ⟨hut, by simpa [Watcher.stop, State.setWatcher, hut] using hu⟩
  · rw [Timeout.cancel, if_neg htimer] at hu
    refine ⟨?_, hu⟩
    rintro rfl
    exact htimer (h.active u hu).1

theorem State.Rings.cancel (h : s.Rings u c) (hu : u ≠ t) : (Timeout.cancel s t).Rings u c := by
  obtain ⟨W, hW, hother⟩ := Timeout.cancel_frame s t
  rw [State.Rings, hW]
  exact (hother (.timeout u) (by simpa using hu)).trans h

theorem State.TimersOwned.cancel (h : s.TimersOwned H p) (t : TimeoutId) : (Timeout.cancel s t).TimersOwned H p := by
  obtain ⟨W, hW, hother⟩ := Timeout.cancel_frame s t
  refine ⟨fun u hu => ?_, ?_, ?_, h.alone, ?_, fun u hu => ?_⟩
  · have hfresh : s.watcher (.timeout u) = ⟨none, false⟩ := h.fresh u (by simpa [hW] using hu)
    by_cases hut : u = t
    · subst hut
      unfold Timeout.cancel
      split
      · exact Function.update_self _ _ _
      · exact hfresh
    · rw [hW]
      exact (hother (.timeout u) (by simpa using hut)).trans hfresh
  · simpa [hW] using h.made
  · simpa [hW] using h.runs
  · simpa [hW] using h.apart
  · obtain ⟨hut, hu⟩ := Timeout.cancel_active h hu
    obtain ⟨htimer, c, hring, howner⟩ := h.active u hu
    refine ⟨by simpa [hW] using htimer, c, hring.cancel hut, ?_⟩
    simpa [hW] using howner

theorem State.Armed.cancel (h : s.Armed K c o) (ho : o = some t → K t) : (Timeout.cancel s t).Armed K c o := by
  intro u hu htimer
  obtain ⟨W, hW, -⟩ := Timeout.cancel_frame s t
  rw [hW] at htimer
  by_cases hut : u = t
  · subst hut
    exact .inl (ho hu)
  · exact (h u hu htimer).imp_right fun hring => hring.cancel hut

/-- The call of `c` has nothing to do with its timeout any more. -/
theorem State.TimersOwned.forget (h : s.TimersOwned H (Function.update p c (some t))) (hH : ∀ d u, H d u → H' d u)
    (ht : (s.watcher (.timeout t)).active = true → H' c t) : s.TimersOwned H' (Function.update p c none) := by
  refine ⟨h.fresh, fun d u hd => h.made d u (calls_back hd), h.runs,
    fun d d' u hd hd' => h.alone d d' u (calls_back hd) (calls_back hd'),
    fun d d' u hd => h.apart d d' u (calls_back hd), fun u hu => ?_⟩
  obtain ⟨htimer, d, hring, howner⟩ := h.active u hu
  refine ⟨htimer, d, hring, ?_⟩
  rcases howner with hd | hd | hd
  · rcases calls_some.1 hd with ⟨rfl, rfl⟩ | hd
    · exact .inr (.inr (ht hu))
    · exact .inl (calls_none.2 hd)
  · exact .inr (.inl hd)
  · exact .inr (.inr (hH d u hd))

/-- The timeout is left to nobody. -/
theorem State.Flight.drop (h : s.Flight H K c (some t)) (hH : ∀ d u, H d u → H' d u) (ht : H' c t) :
    s.Flight H' K c none :=
  ⟨h.owned.forget hH fun _ => ht, h.armed, h.apart, h.out⟩

/-- No other call has the timeout. -/
theorem State.Flight.ne (h : s.Flight H K c (some t)) (d : Co) : (s.mode d).timeout ≠ some t := by
  intro hd
  have hdc : d ≠ c := by
    rintro rfl
    rw [h.out.timeout] at hd
    cases hd
  exact hdc (h.owned.alone d c t (calls_some.2 (.inr ⟨hdc, hd⟩)) (Function.update_self _ _ _))

/-- The call has cancelled its timeout. -/
theorem State.Flight.cancel (h : s.Flight H K c (some t)) : (Timeout.cancel s t).Flight H K c none := by
  obtain ⟨W, hW, -⟩ := Timeout.cancel_frame s t
  have hmode : (Timeout.cancel s t).mode = s.mode := by rw [hW]
  have howned := (h.owned.cancel t).forget (fun _ _ => id) fun ht =>
    absurd rfl (Timeout.cancel_active h.owned ht).1
  refine ⟨?_, fun d => ?_, ?_, ?_⟩ <;> rw [hmode]
  · exact howned
  · exact (h.armed d).cancel fun hd => absurd hd (h.ne d)
  · exact h.apart
  · exact h.out

/-- A timeout is cancelled that is of no call. -/
theorem State.Flight.cancel_other (h : s.Flight H K c o) (ht : ∀ d, (s.mode d).timeout = some t → K t) :
    (Timeout.cancel s t).Flight H K c o := by
  obtain ⟨W, hW, -⟩ := Timeout.cancel_frame s t
  have hmode : (Timeout.cancel s t).mode = s.mode := by rw [hW]
  refine ⟨?_, fun d => ?_, ?_, ?_⟩ <;> rw [hmode]
  · exact h.owned.cancel t
  · exact (h.armed d).cancel (ht d)
  · exact h.apart
  · exact h.out

/-! ## Start -/

/-- A timeout has been made for `c`, and its timer started if it has one. -/
structure State.Starts (s : State) (c : Co) (sec : Option ℤ) (s' : State) : Prop where
  mode : s'.mode = s.mode
  stack : s'.stack = s.stack
  next : s'.nextTimeout = s.nextTimeout + 1
  seconds : s'.seconds = Function.update s.seconds s.nextTimeout sec
  other : ∀ t, t ≠ s.nextTimeout → s'.watcher (.timeout t) = s.watcher (.timeout t)
  rings : Timeout.hasTimer sec = true → s'.Rings s.nextTimeout c
  off : Timeout.hasTimer sec ≠ true → (s'.watcher (.timeout s.nextTimeout)).active = false

theorem Timeout.startNew_starts (hfresh : s.watcher (.timeout s.nextTimeout) = ⟨none, false⟩) (c : Co)
    (sec : Option ℤ) : s.Starts c sec (Timeout.startNew s c sec).2 := by
  have hcb : (s.watcher (.timeout s.nextTimeout)).cb = none := by rw [hfresh]
  by_cases htimer : Timeout.hasTimer sec = true
  · have heq : (Timeout.startNew s c sec).2 = (Timeout.new s sec).2.setWatcher (.timeout s.nextTimeout)
        ⟨some (.throw c (.timeout s.nextTimeout)), true⟩ := by
      simp [Timeout.startNew, Timeout.new, Timeout.start, Watcher.start, htimer, hcb]
    rw [heq]
    refine ⟨rfl, rfl, rfl, rfl, fun t ht => ?_, fun _ => ?_, fun hno => absurd htimer hno⟩
    · exact Function.update_of_ne (by simpa using ht) _ _
    · exact Function.update_self _ _ _
  · have heq : (Timeout.startNew s c sec).2 = (Timeout.new s sec).2 := by
      simp [Timeout.startNew, Timeout.new, Timeout.start, htimer]
    rw [heq]
    refine ⟨rfl, rfl, rfl, rfl, fun _ _ => rfl, fun hyes => absurd hyes htimer, fun _ => ?_⟩
    change (s.watcher (.timeout s.nextTimeout)).active = false
    rw [hfresh]

theorem State.Starts.ring (h : s.Starts c sec s') (hr : s.Rings t d) (ht : t ≠ s.nextTimeout) : s'.Rings t d :=
  (h.other t ht).trans hr

/-- The timeout is that of the call that `c` is in. -/
theorem State.Starts.owned (h : s.Starts c sec s') (ho : s.TimersOwned H p) (hc : p c = none) :
    s'.TimersOwned H (Function.update p c (some s.nextTimeout)) := by
  refine ⟨fun u hu => ?_, fun d u hd => ?_, fun d u hd => ?_, fun d d' u hd hd' => ?_, fun d d' u hd => ?_,
    fun u hu => ?_⟩
  · rw [h.next] at hu
    rw [h.other u (by omega)]
    exact ho.fresh u (by omega)
  · rw [h.next]
    rcases calls_some.1 hd with ⟨-, rfl⟩ | ⟨-, hd⟩
    · exact Nat.lt_succ_self _
    · exact (ho.made d u hd).trans (Nat.lt_succ_self _)
  · rw [h.stack] at hd
    rw [h.next]
    exact (ho.runs d u hd).trans (Nat.lt_succ_self _)
  · rcases calls_some.1 hd with ⟨hdc, hu⟩ | ⟨-, hd⟩ <;> rcases calls_some.1 hd' with ⟨hdc', hu'⟩ | ⟨-, hd'⟩
    · rw [hdc, hdc']
    · exact absurd hu (ho.made d' u hd').ne
    · exact absurd hu' (ho.made d u hd).ne
    · exact ho.alone d d' u hd hd'
  · rw [h.stack]
    rcases calls_some.1 hd with ⟨-, rfl⟩ | ⟨-, hd⟩
    · exact fun hrun => absurd (ho.runs d' _ hrun) (Nat.lt_irrefl _)
    · exact ho.apart d d' u hd
  · rw [h.seconds, h.stack]
    by_cases hun : u = s.nextTimeout
    · subst hun
      have htimer : Timeout.hasTimer sec = true := by
        by_contra hno
        exact Bool.false_ne_true ((h.off hno).symm.trans hu)
      rw [Function.update_self]
      exact ⟨htimer, c, h.rings htimer, .inl (Function.update_self _ _ _)⟩
    · rw [h.other u hun] at hu
      rw [Function.update_of_ne hun]
      obtain ⟨htimer, d, hr, howner⟩ := ho.active u hu
      refine ⟨htimer, d, h.ring hr hun, howner.imp_left fun hd => calls_some.2 (.inr ⟨?_, hd⟩)⟩
      rintro rfl
      rw [hc] at hd
      cases hd

theorem State.Starts.armed (h : s.Starts c sec s') (ha : s.Armed K d o) (ho : ∀ t, o = some t → t < s.nextTimeout) :
    s'.Armed K d o := by
  intro t ht htimer
  have hne : t ≠ s.nextTimeout := (ho t ht).ne
  rw [h.seconds, Function.update_of_ne hne] at htimer
  exact (ha t ht htimer).imp_right fun hr => h.ring hr hne

theorem State.Starts.armed_self (h : s.Starts c sec s') : s'.Armed K c (some s.nextTimeout) := by
  intro t ht htimer
  cases ht
  rw [h.seconds, Function.update_self] at htimer
  exact .inr (h.rings htimer)

/-- The call has started its timeout, and will cancel it. -/
theorem Timeout.startNew_flight (h : s.Flight H K c none) (sec : Option ℤ) :
    (Timeout.startNew s c sec).2.Flight H K c (some (Timeout.startNew s c sec).1) ∧
      (Timeout.startNew s c sec).2.Armed K c (some (Timeout.startNew s c sec).1) := by
  have hstarts := Timeout.startNew_starts (h.owned.fresh _ le_rfl) c sec
  have hid : (Timeout.startNew s c sec).1 = s.nextTimeout := rfl
  have howned := hstarts.owned h.owned (Function.update_self _ _ _)
  rw [Function.update_idem] at howned
  rw [hid]
  refine ⟨⟨?_, fun d => ?_, ?_, ?_⟩, hstarts.armed_self⟩
  · rw [hstarts.mode]
    exact howned
  · rw [hstarts.mode]
    refine hstarts.armed (h.armed d) fun u hd => h.owned.made d u (calls_none.2 ⟨?_, hd⟩)
    rintro rfl
    rw [h.out.timeout] at hd
    cases hd
  · rw [hstarts.mode]
    exact h.apart
  · rw [hstarts.mode]
    exact h.out

/-! ## The ends of a call -/

/-- The protected calls that are left after an error. -/
def unwound (v : Value) (st : List Frame) : List Frame :=
  match (unwind v st).2 with
  | .ok (st, _) => st
  | .error _ => []

/-- The timeouts of the protected calls that an error leaves are cancelled. -/
theorem unwound_append (v : Value) (st : List Frame) :
    ∃ inner, st = inner ++ unwound v st ∧ ∀ t, .timeoutRun t ∈ inner ↔ t ∈ (unwind v st).1 := by
  induction st generalizing v with
  | nil => exact ⟨[], rfl, fun t => by simp [unwind]⟩
  | cons f st ih =>
    cases f with
    | pcall => exact ⟨[.pcall], rfl, fun t => by simp [unwind]⟩
    | timeoutRun u =>
      by_cases hv : v = .exn (.timeout u)
      · refine ⟨[.timeoutRun u], ?_, fun t => ?_⟩
        · simp [unwound, unwind, hv]
        · simp [unwind, hv]
      · obtain ⟨inner, hst, hinner⟩ := ih (traceback v)
        refine ⟨.timeoutRun u :: inner, ?_, fun t => ?_⟩
        · have hrest : unwound v (.timeoutRun u :: st) = unwound (traceback v) st := by
            simp [unwound, unwind, hv]
          rw [hrest, List.cons_append, ← hst]
        · simp [unwind, hv, hinner t]

/-- The coroutine leaves protected calls whose timers do not run. -/
theorem State.Flight.setStack (h : s.Flight H K c none) (st : List Frame)
    (hsub : ∀ t, .timeoutRun t ∈ st → .timeoutRun t ∈ s.stack c)
    (hgone : ∀ t, .timeoutRun t ∈ s.stack c → .timeoutRun t ∉ st → (s.watcher (.timeout t)).active = false) :
    (s.setStack c st).Flight H K c none := by
  have hback : ∀ {d t}, .timeoutRun t ∈ (s.setStack c st).stack d → .timeoutRun t ∈ s.stack d := by
    intro d t hd
    by_cases hdc : d = c
    · subst hdc
      exact hsub t (by simpa [State.setStack] using hd)
    · simpa [State.setStack, hdc] using hd
  refine ⟨⟨h.owned.fresh, h.owned.made, fun d t hd => h.owned.runs d t (hback hd), h.owned.alone, ?_, ?_⟩,
    h.armed, h.apart, h.out⟩
  · exact fun d d' t hd hrun => h.owned.apart d d' t hd (hback hrun)
  · intro t ht
    obtain ⟨htimer, d, hring, howner⟩ := h.owned.active t ht
    refine ⟨htimer, d, hring, howner.imp_right (Or.imp_left fun hd => ?_)⟩
    by_cases hdc : d = c
    · subst hdc
      by_contra hno
      have hactive := hgone t hd (by simpa [State.setStack] using hno)
      exact Bool.false_ne_true (hactive.symm.trans ht)
    · simpa [State.setStack, hdc] using hd

/-- The timeouts of protected calls around the code of `c` are cancelled. -/
theorem State.Flight.cancel_all (h : s.Flight H K c none) (ts : List TimeoutId)
    (hts : ∀ t ∈ ts, .timeoutRun t ∈ s.stack c) :
    (ts.foldl Timeout.cancel s).Flight H K c none ∧ (ts.foldl Timeout.cancel s).stack = s.stack ∧
      ∀ t, ((ts.foldl Timeout.cancel s).watcher (.timeout t)).active = true →
        t ∉ ts ∧ (s.watcher (.timeout t)).active = true := by
  induction ts generalizing s with
  | nil => exact ⟨h, rfl, fun t ht => ⟨List.not_mem_nil, ht⟩⟩
  | cons u ts ih =>
    obtain ⟨W, hW, -⟩ := Timeout.cancel_frame s u
    have hstack : (Timeout.cancel s u).stack = s.stack := by rw [hW]
    have hu : (Timeout.cancel s u).Flight H K c none := by
      refine h.cancel_other fun d hd => ?_
      have hdc : d ≠ c := by
        rintro rfl
        rw [h.out.timeout] at hd
        cases hd
      exact absurd (hts u List.mem_cons_self) (h.owned.apart d c u (calls_none.2 ⟨hdc, hd⟩))
    obtain ⟨hall, hstack', hactive⟩ := ih hu fun t ht => by
      rw [hstack]
      exact hts t (List.mem_cons_of_mem _ ht)
    refine ⟨hall, hstack'.trans hstack, fun t ht => ?_⟩
    obtain ⟨hnot, ht⟩ := hactive t ht
    obtain ⟨hne, ht⟩ := Timeout.cancel_active h.owned ht
    exact ⟨by simp [hne, hnot], ht⟩

/-- The call ends, and `c` goes on elsewhere. -/
theorem State.Flight.goes (h : s.Flight H K c none) {m : Mode} (hm : m.Out)
    (hmode : s'.mode = Function.update s.mode c m) (hq : s.Ticks s') : s'.Timed H K :=
  (h.quiet (.update h.out hm hmode hq)).timed

theorem raise_timed (h : s.Flight H K c none) (v : Value) : (raise s c v).Timed H K := by
  obtain ⟨inner, hinner, hts⟩ := unwound_append v (s.stack c)
  obtain ⟨hall, hstack, hactive⟩ := h.cancel_all (unwind v (s.stack c)).1 fun t ht => by
    rw [hinner]
    exact List.mem_append_left _ ((hts t).2 ht)
  have hleft := hall.setStack (unwound v (s.stack c)) ?_ ?_
  · unfold raise
    dsimp only
    split
    · rename_i hnone
      have hrest : unwound v (s.stack c) = [] := by rw [unwound, hnone]
      rw [hrest] at hleft
      unfold fail
      split
      · rename_i hc
        subst hc
        refine (hleft.quiet ?_).timed
        exact .same rfl rfl rfl rfl rfl
      · exact hleft.goes (m := .dead) (by simp [Mode.Out]) rfl (.same rfl rfl rfl rfl)
    · rename_i st vs hsome
      have hrest : unwound v (s.stack c) = st := by rw [unwound, hsome]
      rw [hrest] at hleft
      exact hleft.goes (m := .running) (by simp [Mode.Out]) rfl (.same rfl rfl rfl rfl)
  · intro t ht
    rw [hstack, hinner]
    exact List.mem_append_right _ ht
  · intro t ht hnot
    rw [hstack, hinner] at ht
    by_contra hno
    refine (hactive t (by simpa using hno)).1 ((hts t).1 ?_)
    exact (List.mem_append.1 ht).resolve_right hnot

theorem finish_timed (h : s.Flight H K c none) (r : Outcome) : (finish s c r).Timed H K := by
  cases r with
  | ok vs => exact h.goes (m := .running) (by simp [Mode.Out]) rfl (.same rfl rfl rfl rfl)
  | error v => exact raise_timed h v

theorem returns_timed (h : s.Flight H K c none) (vs : List Value) : (returns s c vs).Timed H K := by
  unfold returns
  split
  · rename_i st hst
    have hleft := h.setStack st (fun t ht => by rw [hst]; exact List.mem_cons_of_mem _ ht) ?_
    · refine (hleft.quiet ?_).timed
      exact .same rfl rfl rfl rfl rfl
    · intro t ht hnot
      rw [hst] at ht
      exact absurd ht (by simpa using hnot)
  · rename_i u st hst
    obtain ⟨hall, hstack, hactive⟩ := h.cancel_all [u] (by simp [hst])
    have hleft := hall.setStack st ?_ ?_
    · refine (hleft.quiet ?_).timed
      exact .same rfl rfl rfl rfl rfl
    · intro t ht
      rw [hstack, hst]
      exact List.mem_cons_of_mem _ ht
    · intro t ht hnot
      rw [hstack, hst] at ht
      by_contra hno
      refine (hactive t (by simpa using hno)).1 ?_
      simpa [hnot] using ht
  · split
    · refine (h.quiet ?_).timed
      exact .same rfl rfl rfl rfl rfl
    · exact h.goes (m := .pooled) (by simp [Mode.Out]) rfl (.same rfl rfl rfl rfl)

end Levent
