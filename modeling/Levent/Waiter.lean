/-
  Waiters that the code handles itself: `hub.waiters` is the map of the
  suspended coroutines, and a `get` ends with what its waiter was settled with.
-/
import Levent.Runtime.History

namespace Levent

open Lib (Along run)

variable {s t : State} {value : SemId → ℕ} {maxsizes : List (Option ℤ)} {as : List Act}

/-! ## Runs -/

/-- The call of the `get` of `w`. -/
def Obs.calls (w : WaiterId) : Obs → Bool
  | .getCall w' _ => w' = w
  | _ => false

/-- `get` is called at most once on each waiter, and `switch` and `throw` come
    from the main coroutine. -/
def InTurn (s : State) : Act → Prop
  | .op (.waiterGet w) => ∀ c, .getCall w c ∉ s.log
  | .op (.waiterSwitch ..) | .op (.hubSwitch ..) | .op (.waiterThrow ..) | .op (.hubThrow ..) =>
    s.cur = none
  | _ => True

/-- What is thrown by hand is not `false`. -/
def NoFalse (_ : State) : Act → Prop
  | .op (.waiterThrow _ e) | .op (.hubThrow _ e) => e ≠ .bool false
  | _ => True

instance (s : State) (w : WaiterId) : Decidable (∀ c, .getCall w c ∉ s.log) :=
  decidable_of_iff (∀ o ∈ s.log, o.calls w = false)
    ⟨fun h c hc => by simpa [Obs.calls] using h _ hc, fun h o ho => by
      cases o with
      | getCall w' c =>
        refine decide_eq_false ?_
        rintro rfl; exact h c ho
      | _ => rfl⟩

instance (s : State) (a : Act) : Decidable (InTurn s a) := by
  unfold InTurn
  split <;> infer_instance

instance (s : State) (a : Act) : Decidable (NoFalse s a) := by
  unfold NoFalse
  split <;> infer_instance

/-- A waiter whose `get` has not been called has no coroutine. -/
theorem StepOk.in_turn {a : Act} (h : s.HistInv) (ha : InTurn s a) (hf : NoFalse s a) :
    StepOk Rules.free s a := by
  refine ⟨fun _ _ _ _ _ => trivial, fun _ _ _ _ _ => trivial, fun _ _ => trivial,
    fun _ _ _ _ _ _ _ _ => trivial, fun _ _ _ _ => trivial, Or.inl trivial,
    fun _ _ _ _ _ _ => trivial, fun o ho _ => ?_⟩
  subst ho
  refine ⟨trivial, fun _ _ => trivial, ?_⟩
  cases o with
  | waiterSwitch | hubSwitch => exact ha
  | waiterThrow | hubThrow => exact ⟨ha, hf⟩
  | waiterGet w =>
    refine ⟨ha, fun _ => Option.eq_none_iff_forall_not_mem.2 fun c hc => ?_⟩
    exact ha c ((State.mem_story rfl).1 ((h w).called hc))
  | _ => trivial

/-! ## The hub -/

/-- What the hub promises: the entries of `hub.waiters`, that of the main
    coroutine apart, are those of the suspended coroutines; a `get` ends once,
    with what its waiter was settled with; a settled waiter stays as it is. -/
structure Hub.Sound (s : State) : Prop where
  entry : ∀ c w, c ≠ 0 → (s.waiters c = some w ↔ (∃ k, s.mode c = .blocked w k) ∧
    (s.waiter w).co = some c ∧ (s.waiter w).exception = .bool false)
  mainEntry : ∀ w, s.waiters 0 = some w → (s.waiter w).co = some 0 ∧ .getCall w 0 ∈ s.log
  once : ∀ w, (s.story w).countP Obs.isDone ≤ 1
  result : ∀ w r, .getDone w r ∈ s.log → (s.waiter w).co ≠ some 0 →
    ∃ v x, .settled w v x ∈ s.log ∧ r = settledResult v x
  settledOnce : ∀ w, (s.story w).countP Obs.isSettled ≤ 1
  settled : ∀ w v x, .settled w v x ∈ s.log → ∀ v', (∃ err, Waiter.switch s w v' = (s, some err)) ∧
    ∃ err, Waiter.throw s w v' = (s, some err)

theorem Hub.Sound.of_inv (hs : s.HubInv) (hl : s.HistInv) : Hub.Sound s where
  entry c w hc := by
    constructor
    · intro hw
      obtain ⟨k, hk⟩ := hs.entry hc hw
      exact ⟨⟨k, hk⟩, (hs.blocked hk).2⟩
    · rintro ⟨⟨k, hk⟩, -⟩; exact (hs.blocked hk).1
  mainEntry w hw :=
    ⟨hs.mainEntry hw, (State.mem_story rfl).1 ((hl w).called (hs.mainEntry hw))⟩
  once w := (hl w).done_once
  result w r hr hco := by
    obtain ⟨h1, h2⟩ := (hl w).result ((State.mem_story rfl).2 hr) hco
    exact ⟨_, _, (State.mem_story rfl).1 h1, h2⟩
  settledOnce w := (hl w).settled_once
  settled w v x hx v' := by
    obtain ⟨-, rfl, hne⟩ := (hl w).settled_eq ((State.mem_story rfl).2 hx)
    exact ⟨Waiter._switch_settled _ _ hne, Waiter._switch_settled _ _ hne⟩

/-- **The hub and the waiters, in runs that keep to the rules.** -/
theorem hub_sound (hrun : run step (State.init value maxsizes) as = some t)
    (hA : Along step InTurn (State.init value maxsizes) as)
    (hF : Along step NoFalse (State.init value maxsizes) as) : Hub.Sound t := by
  have h0 := State.init_initial value maxsizes
  obtain ⟨hs, hl⟩ := run_micro_inv (R := Rules.free) (I := fun _ s => s.HistInv)
    (fun hm hs h => h.micro hm hs.hub) (fun _ h ha => .in_turn h ha.1 ha.2) h0.sound h0.hist hrun
    (hA.and hF)
  exact .of_inv hs.hub hl

/-- A waiter is switched before its `get`, another one after. -/
def handOver : List Act :=
  [.enter, .op .waiter, .op .waiter, .op (.spawn []), .op (.waiterSwitch 1 (.int 7)),
    .op (.returns []), .callback, .op (.waiterGet 1), .op (.waiterGet 0),
    .enter, .op (.waiterSwitch 0 (.int 5)), .op (.returns []), .op (.returns [])]

theorem hub_sound_handOver :
    ∃ t, run step (State.init (fun _ => 0) []) handOver = some t ∧ t.Between ∧
      .getDone 1 (.ok (.int 7)) ∈ t.log ∧ .getDone 0 (.ok (.int 5)) ∈ t.log ∧ Hub.Sound t := by
  have h : run step (State.init (fun _ => 0) []) handOver = some _ := rfl
  exact ⟨_, h, by decide, by decide, by decide,
    hub_sound h (.of_check (by decide)) (.of_check (by decide))⟩

/-- The main coroutine calls `get`. -/
def mainGets : List Act := [.enter, .op .waiter, .op (.waiterGet 0)]

/-- `false` is thrown at a waiter, which is then switched. -/
def throwsFalse : List Act :=
  [.enter, .op .waiter, .op (.spawn []), .op (.returns []), .callback, .op (.waiterGet 0),
    .enter, .op (.waiterThrow 0 (.bool false)), .op (.waiterSwitch 0 (.int 5)), .op (.returns [])]

/-- A `get` of the main coroutine fails and leaves its entry in `hub.waiters`;
    a waiter that `false` is thrown at can be switched again. -/
theorem hub_not_sound :
    (∃ t, run step (State.init (fun _ => 0) []) mainGets = some t ∧
      Along step InTurn (State.init (fun _ => 0) []) mainGets ∧ t.Between ∧
      t.waiters 0 = some 0 ∧ t.mode 0 = .running) ∧
    ∃ t, run step (State.init (fun _ => 0) []) throwsFalse = some t ∧
      Along step InTurn (State.init (fun _ => 0) []) throwsFalse ∧ t.Between ∧
      t.story 0 = [.getCall 0 1, .settled 0 .nil (.bool false), .getDone 0 (.error (.bool false)),
        .settled 0 (.int 5) .nil] := by
  have h1 : run step (State.init (fun _ => 0) []) mainGets = some _ := rfl
  have h2 : run step (State.init (fun _ => 0) []) throwsFalse = some _ := rfl
  exact ⟨⟨_, h1, .of_check (by decide), by decide, by decide, by decide⟩,
    ⟨_, h2, .of_check (by decide), by decide, by decide⟩⟩

/-! ## Calls that raise -/

/-- The state is the same, but for what is recorded. -/
structure Waiter.Untouched (s : State) (w : WaiterId) (s' : State) : Prop where
  waiter : s'.waiter w = s.waiter w
  waiters : s'.waiters = s.waiters
  rest : { s' with log := s.log } = s

/-- A call on `w` that raises changes nothing. -/
def Waiter.Atomic (s : State) (w : WaiterId) (r : State × Option Value) : Prop :=
  r.2 ≠ none → Waiter.Untouched s w r.1

/-- The waiter is not settled, a coroutine waits, and another one than `hub.co` runs. -/
def Waiter.Exposed (s : State) (w : WaiterId) : Prop :=
  (s.waiter w).exception = .bool false ∧ (s.waiter w).co ≠ none ∧ s.running ≠ 0

section
variable {w : WaiterId}

/-- `_switch` stores the value and the exception before it asserts that it is in `hub.co`. -/
theorem Waiter._switch_exposed {v x : Value} (h : Waiter.Exposed s w)
    (hx : ¬ (x.truthy ∧ ¬ isException x)) :
    Waiter._switch s w v x = ((s.setWaiter w ⟨(s.waiter w).co, v, x⟩).emit (.settled w v x),
      some (.str "must be in hub.co")) := by
  obtain ⟨hexc, hco, hrun⟩ := h
  obtain ⟨c, hc⟩ := Option.ne_none_iff_exists'.1 hco
  unfold Waiter._switch
  rw [if_neg hx, if_neg (not_not.2 hexc), hc]
  exact if_pos hrun

theorem Waiter.Untouched.refl : Waiter.Untouched s w s := ⟨rfl, rfl, rfl⟩

/-- Elsewhere, a call that raises does so before it stores anything. -/
theorem Waiter._switch_atomic {v x : Value}
    (h : ¬ Waiter.Exposed s w ∨ (x.truthy ∧ ¬ isException x)) :
    Waiter.Atomic s w (Waiter._switch s w v x) := by
  unfold Waiter.Atomic Waiter._switch
  split
  · exact fun _ => .refl
  · rename_i hx
    split
    · exact fun _ => .refl
    · rename_i hexc
      dsimp only
      cases hco : (s.waiter w).co with
      | none => exact fun hr => absurd rfl hr
      | some c =>
        dsimp only
        split
        · rename_i hrun
          have hexposed : Waiter.Exposed s w := ⟨not_not.1 hexc, by simp [hco], hrun⟩
          exact absurd h (not_or.2 ⟨not_not.2 hexposed, hx⟩)
        · split <;> exact fun hr => absurd rfl hr

theorem Waiter._switch_atomic_iff {v x : Value} : Waiter.Atomic s w (Waiter._switch s w v x) ↔
    (¬ Waiter.Exposed s w ∨ (x.truthy ∧ ¬ isException x)) ∨
      (x = .bool false ∧ (s.waiter w).value = v) := by
  by_cases h : ¬ Waiter.Exposed s w ∨ (x.truthy ∧ ¬ isException x)
  · exact iff_of_true (Waiter._switch_atomic h) (.inl h)
  · rw [or_iff_right h]
    obtain ⟨hexposed, hx⟩ := not_or.1 h
    rw [Waiter._switch_exposed (not_not.1 hexposed) hx]
    constructor
    · intro ha
      have heq := (ha (by simp)).waiter
      simp only [State.emit, State.setWaiter, Function.update_self] at heq
      exact ⟨(congrArg Waiter.exception heq).trans (not_not.1 hexposed).1,
        (congrArg Waiter.value heq).symm⟩
    · rintro ⟨rfl, hv⟩ _
      have heq : (⟨(s.waiter w).co, v, .bool false⟩ : Waiter) = s.waiter w := by
        rw [← hv, ← (not_not.1 hexposed).1]
      have hset : s.setWaiter w ⟨(s.waiter w).co, v, .bool false⟩ = s := by
        rw [heq, State.setWaiter, Function.update_eq_self]
      rw [hset]
      exact ⟨rfl, rfl, rfl⟩

end

/-- **`switch` and `throw` change nothing when they raise, exactly when** the waiter is not
    exposed, or the exception is refused before; a `throw` of `false` stores what is there. -/
theorem switch_atomic_iff (s : State) (w : WaiterId) :
    (∀ v, Waiter.Atomic s w (Waiter.switch s w v) ↔ ¬ Waiter.Exposed s w) ∧
      ∀ e, Waiter.Atomic s w (Waiter.throw s w e) ↔
        (¬ Waiter.Exposed s w ∨ (e.truthy ∧ ¬ isException e)) ∨
          (e = .bool false ∧ (s.waiter w).value = .nil) := by
  refine ⟨fun v => ?_, fun e => Waiter._switch_atomic_iff⟩
  rw [Waiter.switch, Waiter._switch_atomic_iff]
  simp [Value.truthy]

/-- A task waits, and another one that runs next is to switch its waiter. -/
def otherTask : List Act :=
  [.enter, .op .waiter, .op (.spawn []), .op (.spawn []), .op (.returns []), .callback,
    .op (.waiterGet 0), .callback]

/-- The call raises, and the task that waits can not be resumed any more. -/
theorem switch_not_atomic : ∃ s, run step (State.init (fun _ => 0) []) otherTask = some s ∧
    s.mode 1 = .blocked 0 .get ∧ s.running = 2 ∧
      (Waiter.switch s 0 (.int 5)).2 = some (.str "must be in hub.co") ∧
        ¬ Waiter.Atomic s 0 (Waiter.switch s 0 (.int 5)) ∧
          (Hub.throw { (Waiter.switch s 0 (.int 5)).1 with cur := none } 1 (.exn .kill)).2 =
            some assertionFailed := by
  have h : run step (State.init (fun _ => 0) []) otherTask = some _ := rfl
  refine ⟨_, h, rfl, rfl, rfl, fun ha => ?_, rfl⟩
  have heq := (ha (by decide)).waiter
  revert heq
  decide

end Levent
