/-
  The notification callbacks and their flags: each of them moves like a callback
  that its flag keeps from being queued twice.
-/
import Levent.Runtime.Steps
import Levent.Lib.Armed

namespace Levent

open Lib (Armed)

variable {R : Rules} {p p' : Pend} {s s' : State} {y : Sync}

/-- `notifier` of an event or a semaphore, `is_in_put_unlock` and
    `is_in_get_unlock` of a queue. -/
def State.flag (s : State) : Sync → Bool
  | .event e => (s.event e).notifier
  | .async _ => false
  | .sem x => (s.sem x).notifier
  | .put q => (s.queue q).isInPutUnlock
  | .get q => (s.queue q).isInGetUnlock

/-- The notification of `y`. -/
def State.armed (s : State) (y : Sync) : Armed :=
  ⟨s.callbacks.count (.notify y), decide (s.main = .notify y), s.flag y⟩

/-- The notification of `y` may end without clearing its flag: that of a
    semaphore always does, the others do if an assertion stops them. -/
def State.Leaves (p : Pend) (s : State) (y : Sync) : Prop :=
  (∃ x, y = .sem x) ∨ (p = none ∧ ∃ w ∈ s.waiting y, (s.waiter w).exception ≠ .bool false)

/-! ## Flags -/

section
variable (s : State)

theorem Loop.runCallback_flag (cb : Callback) (y : Sync) :
    (Loop.runCallback s cb).flag y = s.flag y := by
  cases y <;> rfl

theorem State.setEvent_flag (e : EventId) (o : Event) (y : Sync) :
    (s.setEvent e o).flag y = if y = .event e then o.notifier else s.flag y := by
  cases y with
  | event e' =>
    by_cases he : e' = e
    · subst he; simp [State.flag, State.setEvent]
    · simp [State.flag, State.setEvent, he]
  | async | sem | put | get => simp [State.flag, State.setEvent]

theorem State.setSem_flag (x : SemId) (o : Semaphore) (y : Sync) :
    (s.setSem x o).flag y = if y = .sem x then o.notifier else s.flag y := by
  cases y with
  | sem x' =>
    by_cases hx : x' = x
    · subst hx; simp [State.flag, State.setSem]
    · simp [State.flag, State.setSem, hx]
  | async | event | put | get => simp [State.flag, State.setSem]

theorem State.setQueue_flag (q : QueueId) (o : Queue) (y : Sync) :
    (s.setQueue q o).flag y = if y = .put q then o.isInPutUnlock
      else if y = .get q then o.isInGetUnlock else s.flag y := by
  cases y with
  | put q' =>
    by_cases hq : q' = q
    · subst hq; simp [State.flag, State.setQueue]
    · simp [State.flag, State.setQueue, hq]
  | get q' =>
    by_cases hq : q' = q
    · subst hq; simp [State.flag, State.setQueue]
    · simp [State.flag, State.setQueue, hq]
  | async | event | sem => simp [State.flag, State.setQueue]

theorem State.setLinks_flag (L : Finset WaiterId) (y y' : Sync) :
    (s.setLinks L y).flag y' = s.flag y' := by
  cases y with
  | event e =>
    refine (s.setEvent_flag e _ y').trans ?_
    split
    · rename_i h; rw [h]; rfl
    · rfl
  | async a => cases y' <;> rfl
  | sem x =>
    refine (s.setSem_flag x _ y').trans ?_
    split
    · rename_i h; rw [h]; rfl
    · rfl
  | put q | get q =>
    refine (s.setQueue_flag q _ y').trans ?_
    split
    · rename_i h; rw [h]; rfl
    · split
      · rename_i h; rw [h]; rfl
      · rfl

theorem State.newLink_flag (y y' : Sync) : (s.newLink y).flag y' = s.flag y' :=
  (State.setLinks_flag _ _ y y').trans (by cases y' <;> rfl)

theorem State.takes_flag (w : WaiterId) (b : Option Sync) (y : Sync) :
    (s.takes w b).flag y = s.flag y := by
  rcases b with _ | y'
  · rfl
  · cases y' with
    | event e =>
      refine (s.setEvent_flag e _ y).trans ?_
      split
      · rename_i h; rw [h]; rfl
      · rfl
    | async | sem | put | get => rfl

theorem Event.set_flag (e : EventId) (y : Sync) :
    (Event.set s e).flag y = if y = .event e then true else s.flag y := by
  unfold Event.set; dsimp only
  split
  all_goals exact s.setEvent_flag e _ y

theorem Event.set_callbacks (e : EventId) :
    (Event.set s e).callbacks =
      if s.flag (.event e) then s.callbacks else s.callbacks ++ [.notify (.event e)] := by
  unfold Event.set; dsimp only
  split
  · rename_i h
    have h' : s.flag (.event e) = true := h
    rw [if_pos h']; rfl
  · rename_i h
    have h' : ¬ s.flag (.event e) = true := h
    rw [if_neg h']; rfl

theorem Event.clear_flag (e : EventId) (y : Sync) : (Event.clear s e).flag y = s.flag y := by
  refine (s.setEvent_flag e _ y).trans ?_
  split
  · rename_i h; rw [h]; rfl
  · rfl

/-- The notification a `release` queues. -/
def Semaphore.arms (x : SemId) : Bool :=
  !(s.sem x).notifier && decide (s.sem x).links.Nonempty

theorem Semaphore.release_flag (x : SemId) (y : Sync) :
    (Semaphore.release s x).flag y =
      if y = .sem x then s.flag y || Semaphore.arms s x else s.flag y := by
  have h1 := s.setSem_flag x { s.sem x with counter := (s.sem x).counter + 1 } y
  unfold Semaphore.release; dsimp only
  change State.flag (if Semaphore.arms s x = true then _ else _) y = _
  split
  · rename_i h
    rw [Loop.runCallback_flag, State.setSem_flag]
    split
    · rw [h]; simp
    · rename_i hy; rw [if_neg hy] at h1; exact h1
  · rename_i h
    refine h1.trans ?_
    split
    · rename_i hy; rw [hy]; simp [State.flag, h]
    · rfl

theorem Semaphore.release_callbacks (x : SemId) :
    (Semaphore.release s x).callbacks =
      if Semaphore.arms s x then s.callbacks ++ [.notify (.sem x)] else s.callbacks := by
  unfold Semaphore.release Semaphore.arms; dsimp only
  split <;> rfl

/-- The notification a `_put` queues. -/
def Queue.armsGet (q : QueueId) : Bool :=
  !(s.queue q).isInGetUnlock && decide (s.queue q).getters.Nonempty

theorem Queue._put_flag (q : QueueId) (item : Value) (y : Sync) :
    (Queue._put s q item).flag y =
      if y = .get q then s.flag y || Queue.armsGet s q else s.flag y := by
  unfold Queue._put; dsimp only
  split
  all_goals
    refine (Event.clear_flag _ (.cond q) y).trans ((s.setQueue_flag q _ y).trans ?_)
    split
    · rename_i hy; subst hy; simp [State.flag]
    · split
      · rename_i hy; subst hy; rfl
      · rfl

theorem Queue._put_callbacks (q : QueueId) (item : Value) :
    (Queue._put s q item).callbacks =
      if Queue.armsGet s q then s.callbacks ++ [.notify (.get q)] else s.callbacks := by
  unfold Queue._put Queue.armsGet; dsimp only
  split <;> rfl

theorem Queue._get_flag {q : QueueId} {item : Value} {s' : State}
    (h : Queue._get s q = .ok (item, s')) (y : Sync) :
    s'.flag y = if y = .put q then s.flag y || (s.queue q).removed.2 else s.flag y := by
  obtain ⟨-, -, rfl⟩ := Queue._get_ok.1 h
  split
  all_goals
    refine (s.setQueue_flag q _ y).trans ?_
    split
    · rename_i hy; subst hy; rfl
    · split
      · rename_i hy; subst hy; rfl
      · rfl

theorem Queue._get_callbacks {q : QueueId} {item : Value} {s' : State}
    (h : Queue._get s q = .ok (item, s')) :
    s'.callbacks =
      if (s.queue q).removed.2 then s.callbacks ++ [.notify (.put q)] else s.callbacks := by
  obtain ⟨-, -, rfl⟩ := Queue._get_ok.1 h
  split <;> rfl

/-- The end of a notification clears its flag, unless it is a semaphore's. -/
theorem endNotify_flag_self (hy : ∀ x, y ≠ .sem x) : (endNotify s y).flag y = false := by
  cases y with
  | event e => exact (s.setEvent_flag e _ _).trans (if_pos rfl)
  | async a => rfl
  | sem x => exact absurd rfl (hy x)
  | put q => exact (s.setQueue_flag q _ _).trans (if_pos rfl)
  | get q => exact (s.setQueue_flag q _ _).trans ((if_neg (by simp)).trans (if_pos rfl))

theorem endNotify_flag_ne {y' : Sync} (h : y' ≠ y) : (endNotify s y).flag y' = s.flag y' := by
  cases y with
  | event e => exact (s.setEvent_flag e _ _).trans (if_neg h)
  | async | sem => cases y' <;> rfl
  | put q =>
    refine ((s.setQueue_flag q _ _).trans (if_neg h)).trans ?_
    split
    · rename_i h'; rw [h']; rfl
    · rfl
  | get q =>
    refine (s.setQueue_flag q _ _).trans ?_
    split
    · rename_i h'; rw [h']; rfl
    · rfl

end

/-! ## The moves -/

theorem State.armed_eq (hc : s'.callbacks.count (.notify y) = s.callbacks.count (.notify y))
    (hm : s'.main = .notify y ↔ s.main = .notify y) (hf : s'.flag y = s.flag y) :
    s'.armed y = s.armed y := by
  simp only [State.armed, hc, hm, hf]

theorem State.armed_stay {starts leaves : Prop}
    (hc : s'.callbacks.count (.notify y) = s.callbacks.count (.notify y))
    (hm : s'.main = .notify y ↔ s.main = .notify y) (hf : s'.flag y = s.flag y) :
    Armed.Step starts leaves (s.armed y) (s'.armed y) := by
  rw [State.armed_eq hc hm hf]; exact .stay _

/-- An operation queues the notification of `y₀`, if `arms`, and sets its flag. -/
theorem State.armed_arm {starts leaves : Prop} (y₀ : Sync) (arms : Bool)
    (hc : s'.callbacks = if arms then s.callbacks ++ [.notify y₀] else s.callbacks)
    (hm : s'.main = s.main)
    (hf : s'.flag y = if y = y₀ then s.flag y || arms else s.flag y)
    (ha : arms = true → s.flag y₀ = false) :
    Armed.Step starts leaves (s.armed y) (s'.armed y) := by
  cases arms with
  | false =>
    refine State.armed_stay (by rw [hc]; simp) (by rw [hm]) ?_
    rw [hf]; split <;> simp
  | true =>
    by_cases hy : y = y₀
    · subst hy
      have h1 : s'.armed y = ⟨if s.flag y then (s.armed y).queued else (s.armed y).queued + 1,
          (s.armed y).running, true⟩ := by
        simp only [State.armed, hc, hm, hf, ha rfl]
        simp
      rw [h1]; exact .arm _ _ _
    · refine State.armed_stay ?_ (by rw [hm]) (by rw [hf, if_neg hy])
      rw [hc]
      have : ¬ (y₀ = y) := fun h => hy h.symm
      simp [List.count_append, this]

theorem Event.set_armed (starts leaves : Prop) (e : EventId) :
    Armed.Step starts leaves (s.armed y) ((Event.set s e).armed y) := by
  obtain ⟨E, C, L, he, -⟩ := Event.set_frame s e
  refine State.armed_arm (.event e) (!s.flag (.event e)) ?_ (by rw [he]) ?_ (by simp)
  · rw [Event.set_callbacks]
    cases s.flag (.event e) <;> rfl
  · rw [Event.set_flag]
    split
    · rename_i h; rw [h]; simp
    · rfl

theorem count_plain {cb : Callback} (h : cb.Plain) (l : List Callback) :
    (l ++ [cb]).count (.notify y) = l.count (.notify y) ∧
      (cb :: l).count (.notify y) = l.count (.notify y) := by
  cases cb <;> simp [Callback.Plain, List.count_append] at *

/-- **The notifications move like callbacks guarded by their flags.** -/
theorem Micro.armed (hm : Micro R p s p' s') (hy : ∀ a, y ≠ .async a) :
    Armed.Step (R.begin y) (s.Leaves p y) (s.armed y) (s'.armed y) := by
  cases hm with
  | env _ _ _ he => rw [he.eq]; exact State.armed_stay rfl Iff.rfl (by cases y <;> rfl)
  | waiter _ _ he => rw [he.eq]; exact State.armed_stay rfl Iff.rfl (by cases y <;> rfl)
  | emit | semPass | goOn | answer | returned | failed | rawCreate | assertGet | block | mainGet
  | settledGet => exact State.armed_stay rfl Iff.rfl (by cases y <;> rfl)
  | spawn _ co args =>
    refine State.armed_stay ?_ Iff.rfl (by cases y <;> rfl)
    simp [State.spawned, Loop.runCallback, State.setMode, List.count_append]
  | mainDone _ ht =>
    exact State.armed_stay rfl (by simp [ht.zero.2]) (by cases y <;> rfl)
  | enter _ hb => exact State.armed_stay rfl (by simp [hb.1]) (by cases y <;> rfl)
  | post _ cb hcb =>
    exact State.armed_stay (count_plain hcb _).1 Iff.rfl (by cases y <;> rfl)
  | pop _ cb cbs _ hcb hq =>
    exact State.armed_stay (by rw [hq]; exact (count_plain hcb _).2.symm) Iff.rfl (by cases y <;> rfl)
  | kill _ c e target cbs w _ hq =>
    exact State.armed_stay (by rw [hq]; simp [State.emit]) Iff.rfl (by cases y <;> rfl)
  | start _ c f args cbs _ hq =>
    exact State.armed_stay (by rw [hq]; simp [State.emit]) Iff.rfl (by cases y <;> rfl)
  | begin _ y' cbs hb hq hr =>
    by_cases hyy : y' = y
    · subst hyy
      have h1 : s.armed y' = ⟨cbs.count (.notify y') + 1, false, s.flag y'⟩ := by
        simp [State.armed, hq, hb.1]
      have h2 : ({ s with callbacks := cbs, main := .notify y' } : State).armed y' =
          ⟨cbs.count (.notify y'), true, s.flag y'⟩ := by
        simp only [State.armed, decide_true]
        congr 1
      rw [h1, h2]; exact .start _ _ hr
    · refine State.armed_stay ?_ ?_ (by cases y <;> rfl)
      · rw [hq]; simp [hyy]
      · simp [hb.1, hyy]
  | endNotify _ y' hmain =>
    obtain ⟨E, Q, he⟩ := endNotify_frame s y'
    by_cases hyy : y = y'
    · subst hyy
      have h1 : s.armed y = ⟨s.callbacks.count (.notify y), true, s.flag y⟩ := by
        simp [State.armed, hmain]
      have h2 : (Levent.endNotify s y).armed y =
          ⟨s.callbacks.count (.notify y), false, (Levent.endNotify s y).flag y⟩ := by
        simp only [State.armed]
        congr 1
        · rw [he]
        · rw [he]; simp
      rw [h1, h2]
      by_cases hsem : ∃ x, y = .sem x
      · obtain ⟨x, rfl⟩ := hsem
        exact .leave _ _ (Or.inl ⟨x, rfl⟩)
      · rw [endNotify_flag_self s fun x hx => hsem ⟨x, hx⟩]; exact .clear _ _
    · refine State.armed_stay (by rw [he]) ?_ (endNotify_flag_ne s hyy)
      rw [he]
      simp only [reduceCtorEq, hmain, Main.notify.injEq, false_iff]
      exact fun h => hyy h.symm
  | abort _ y' w hmain _ hw hx =>
    obtain ⟨E, L, he⟩ := s.takes_frame w (some y')
    have hf := s.takes_flag w (some y') y
    by_cases hyy : y' = y
    · subst hyy
      have h1 : s.armed y' = ⟨s.callbacks.count (.notify y'), true, s.flag y'⟩ := by
        simp [State.armed, hmain]
      have h2 : ({ s.takes w (some y') with main := .idle }.emit (.aborted y')).armed y' =
          ⟨s.callbacks.count (.notify y'), false, s.flag y'⟩ := by
        have hf' : ({ s.takes w (some y') with main := .idle }.emit (.aborted y')).flag y' =
            s.flag y' := by
          rw [← hf]; cases y' <;> rfl
        simp only [State.armed, hf']
        rw [he]; simp [State.emit]
      rw [h1, h2]; exact .leave _ _ (Or.inr ⟨rfl, w, hw, hx⟩)
    · refine State.armed_stay ?_ ?_ ?_
      · rw [he]; rfl
      · simp [State.emit, hmain, hyy]
      · rw [← hf]; cases y <;> rfl
  | eventSet _ e => exact Event.set_armed _ _ e
  | eventClear _ e => exact State.armed_stay rfl Iff.rfl (Event.clear_flag s e y)
  | asyncSet _ a v e _ hs =>
    obtain ⟨-, rfl⟩ := AsyncResult._set_ok.1 hs
    refine State.armed_stay ?_ Iff.rfl (by cases y <;> rfl)
    have : ¬ (Sync.async a = y) := fun h => hy a h.symm
    simp [Loop.runCallback, State.setAsync, List.count_append, this]
  | semRelease _ x =>
    obtain ⟨M, C, L, he, -⟩ := Semaphore.release_frame s x
    refine State.armed_arm (.sem x) (Semaphore.arms s x) (Semaphore.release_callbacks s x) (by rw [he]) (Semaphore.release_flag s x y) ?_
    intro h
    simp only [Semaphore.arms, Bool.and_eq_true] at h
    simpa [State.flag] using h.1
  | semAcquire _ x =>
    refine State.armed_stay rfl Iff.rfl ((s.setSem_flag x _ y).trans ?_)
    split
    · rename_i h; rw [h]; rfl
    · rfl
  | semRefuse _ x c t s₁ _ h₁ =>
    have hf := State.newLink_flag (s.emit (.semCall x c (s.sem x).counter)) (.sem x) y
    obtain ⟨E, A, M, Q, he⟩ := (s.emit (.semCall x c (s.sem x).counter)).newLink_frame (.sem x)
    rw [h₁.eq]
    refine State.armed_stay (by rw [he]; rfl) (by rw [he]; rfl) ?_
    refine Eq.trans ?_ (hf.trans ?_)
    all_goals cases y <;> rfl
  | semWaited _ x w o s₁ _ h₁ =>
    have hf := s.setLinks_flag ((s.links (.sem x)).erase w) (.sem x) y
    obtain ⟨E, A, M, Q, he⟩ := s.setLinks_frame ((s.links (.sem x)).erase w) (.sem x)
    rw [h₁.eq]
    refine State.armed_stay (by rw [State.unlink, he]; rfl) (by rw [State.unlink, he]; rfl) ?_
    refine Eq.trans ?_ hf
    cases y <;> rfl
  | link _ y' =>
    have hf := s.newLink_flag y' y
    obtain ⟨E, A, M, Q, he⟩ := s.newLink_frame y'
    exact State.armed_stay (by rw [he]; rfl) (by rw [he]; rfl) hf
  | unlink _ y' w =>
    obtain ⟨E, A, M, Q, he⟩ := s.setLinks_frame ((s.links y').erase w) y'
    exact State.armed_stay (by rw [State.unlink, he]) (by rw [State.unlink, he])
      (s.setLinks_flag _ y' y)
  | put _ q item =>
    obtain ⟨Q, E, C, L, he, -⟩ := Queue._put_frame s q item
    have h1 : ((Queue._put s q item).emit (.putDone q item)).flag y = (Queue._put s q item).flag y := by
      cases y <;> rfl
    refine State.armed_arm (.get q) (Queue.armsGet s q)
      (Queue._put_callbacks s q item) (by rw [he]; rfl) (h1.trans (Queue._put_flag s q item y)) ?_
    intro h
    simp only [Queue.armsGet, Bool.and_eq_true] at h
    simpa [State.flag] using h.1
  | get _ q item s₁ hs =>
    have h1 : (s₁.emit (.gotItem q item)).flag y = s₁.flag y := by cases y <;> rfl
    have hc := Queue._get_callbacks s hs
    refine State.armed_arm (.put q) (s.queue q).removed.2 hc ?_ (h1.trans (Queue._get_flag s hs y)) ?_
    · obtain ⟨Q, C, L, rfl, -⟩ := Queue._get_frame s hs; rfl
    · intro h
      simp only [Queue.removed, Bool.and_eq_true] at h
      simpa [State.flag] using h.1
  | settle _ w v e b =>
    obtain ⟨E, L, he⟩ := s.takes_frame w b
    refine State.armed_stay (by rw [he]; rfl) (by rw [he]; rfl) ?_
    rw [← s.takes_flag w b y]; cases y <;> rfl
  | resume _ c w k v e b =>
    obtain ⟨E, L, he⟩ := s.takes_frame w b
    refine State.armed_stay (by rw [he]; rfl) (by rw [he]; rfl) ?_
    rw [← s.takes_flag w b y]; cases y <;> rfl

/-- The flag of a notification tells whether it is queued or runs. -/
theorem State.flag_iff {y : Sync} (h : (s.armed y).Inv) :
    s.flag y = true ↔ .notify y ∈ s.callbacks ∨ s.main = .notify y := by
  have := h.flag_iff
  simpa [State.armed, List.count_pos_iff] using this

end Levent
