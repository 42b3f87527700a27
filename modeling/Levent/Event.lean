/-
  `Event`: what holds in every run in which no timer, kill or closed socket
  settles a waiter that a notification of the event is about to switch.
-/
import Levent.Runtime.EventInv
import Levent.Runtime.History

namespace Levent

open Lib (Along run)

variable {R : Rules} {p p' : Pend} {s s' t : State} {value : SemId → ℕ}
  {maxsizes : List (Option ℤ)} {as : List Act} {e : EventId}

/-! ## Invariants -/

structure State.EventInv (e : EventId) (p : Pend) (s : State) : Prop where
  linked : s.LinkInv p
  armed : (s.armed (.event e)).Inv
  todo : ∀ w ∈ (s.event e).todo, s.BlockedAt (.event e) w
  asleep : (s.event e).todo.Nonempty → s.flag (.event e) = true
  once : (s.woken e).Nodup
  woken : ∀ w ∈ s.woken e, (s.waiter w).value = .bool true ∧ (s.waiter w).exception = .nil
  sets : ∀ L w, .eventSet e L ∈ s.log → w ∈ L → w ∈ (s.event e).todo ∨ w ∈ s.woken e
  aborted : .aborted (.event e) ∉ s.log

theorem State.EventInv.live (h : s.EventInv e p) (hh : s.HubInv) :
    ∀ w ∈ (s.event e).todo, (s.waiter w).exception = .bool false := fun w hw => by
  obtain ⟨c, k, hc, -⟩ := h.todo w hw
  exact (hh.blocked hc).2.2

theorem State.EventKept.log_eq (h : s.EventKept e s') :
    s'.woken e = s.woken e ∧ (∀ L, .eventSet e L ∈ s'.log ↔ .eventSet e L ∈ s.log) ∧
      (.aborted (.event e) ∈ s'.log ↔ .aborted (.event e) ∈ s.log) := by
  obtain ⟨os, hl, ho⟩ := h.log
  refine ⟨?_, fun L => ?_, ?_⟩
  · rw [State.woken, State.woken, hl, List.filterMap_append,
      List.filterMap_eq_nil_iff.2 fun o hm => (Obs.event_quiet (ho o hm)).1, List.append_nil]
  · rw [hl, List.mem_append]
    exact ⟨fun h => h.resolve_right fun hm => (Obs.event_quiet (ho _ hm)).2.1 L rfl, Or.inl⟩
  · rw [hl, List.mem_append]
    exact ⟨fun h => h.resolve_right fun hm => (Obs.event_quiet (ho _ hm)).2.2 rfl, Or.inl⟩

theorem State.EventSettled.log_eq {w : WaiterId} {v x : Value} {b : Option Sync}
    (h : s.EventSettled e w v x b s') :
    (∀ L, .eventSet e L ∈ s'.log ↔ .eventSet e L ∈ s.log) ∧
      (.aborted (.event e) ∈ s'.log → .aborted (.event e) ∈ s.log) := by
  obtain ⟨os, hl, ho⟩ := h.log
  have hn : ∀ o, (∀ y w', o ≠ .notified y w') → o.event? = some e → (o ∈ s'.log ↔ o ∈ s.log) := by
    intro o h1 h2
    rw [hl, List.mem_append, List.mem_append, List.mem_map]
    constructor
    · rintro ((hm | ⟨y, -, rfl⟩) | hm)
      · exact hm
      · exact absurd rfl (h1 y w)
      · exact absurd h2 (ho o hm)
    · exact fun hm => Or.inl (Or.inl hm)
  exact ⟨fun L => hn _ (by simp) rfl, (hn _ (by simp) rfl).1⟩

theorem State.EventSettled.woken_eq {w : WaiterId} {v x : Value} {b : Option Sync}
    (h : s.EventSettled e w v x b s') :
    s'.woken e = if b = some (.event e) then s.woken e ++ [w] else s.woken e := by
  obtain ⟨os, hl, ho⟩ := h.log
  have hos : os.filterMap (Obs.wokenBy e) = [] :=
    List.filterMap_eq_nil_iff.2 fun o hm => (Obs.event_quiet (ho o hm)).1
  rw [State.woken, State.woken, hl, List.filterMap_append, List.filterMap_append, hos,
    List.append_nil]
  rcases b with _ | y
  · simp
  · cases y with
    | event e' => by_cases he : e' = e <;> simp [Obs.wokenBy, he]
    | async | sem | put | get => simp [Obs.wokenBy]

theorem State.EventInv.micro (hm : Micro R p s p' s') (hok : ∀ E w, R.ok E w → w ∉ (E e).todo)
    (hs : s.Sound) (h : s.EventInv e p) : s'.EventInv e p' := by
  have hlinked := h.linked.micro hm hs.hub hs.pool
  have harmed : (s'.armed (.event e)).Inv := by
    refine (hm.armed (by simp)).inv ?_ h.armed
    rintro (⟨x, hx⟩ | ⟨-, w, hw, hx⟩)
    · cases hx
    · exact hx (h.live hs.hub w hw)
  have hstep := hm.event_step hs hok (h.live hs.hub) fun hp w hw => by
    subst hp
    exact ((h.linked.linked (y := .event e) (by simp)).1 hw).resolve_right (by simp)
  cases hstep with
  | kept hk =>
    obtain ⟨h1, h2, h3⟩ := hk.log_eq
    refine ⟨hlinked, harmed, fun w hw => hk.blocked w (h.todo w (hk.todo ▸ hw)), fun hne => ?_,
      h1 ▸ h.once, fun w hw => ?_, fun L w hL hw => ?_, fun ha => h.aborted (h3.1 ha)⟩
    · rw [hk.todo] at hne
      exact (hk.flag (h.asleep hne)).resolve_right (Finset.nonempty_iff_ne_empty.1 hne)
    · have hv := h.woken w (h1 ▸ hw)
      rw [hk.waiter w (by rw [hv.2]; simp)]; exact hv
    · rw [hk.todo, h1]; exact h.sets L w ((h2 L).1 hL) hw
  | set hl hset =>
    subst hset
    obtain ⟨E, C, L, he, -⟩ := Event.set_frame s e
    have htodo : ((Event.set s e).event e).todo = (s.event e).todo ∪ (s.event e).links := by
      rw [Event.set_todo, if_pos rfl]
    have hwoken : (Event.set s e).woken e = s.woken e := by
      rw [State.woken, Event.set_log, List.filterMap_append]
      simp [Obs.wokenBy, State.woken]
    refine ⟨hlinked, harmed, fun w hw => ?_, fun _ => ?_, hwoken ▸ h.once, fun w hw => ?_,
      fun L' w hL hw => ?_, fun ha => ?_⟩
    · rw [htodo] at hw
      have hb : s.BlockedAt (.event e) w := (Finset.mem_union.1 hw).elim (h.todo w) (hl w)
      rw [he]; exact hb
    · rw [Event.set_flag, if_pos rfl]
    · rw [he]; exact h.woken w (hwoken ▸ hw)
    · rw [htodo, hwoken]
      rw [Event.set_log] at hL
      rcases List.mem_append.1 hL with hL | hL
      · exact (h.sets L' w hL hw).imp_left (Finset.mem_union_left _)
      · simp only [List.mem_singleton, Obs.eventSet.injEq, true_and] at hL
        subst hL; exact Or.inl (Finset.mem_union_right _ hw)
    · rw [Event.set_log] at ha
      rcases List.mem_append.1 ha with ha | ha
      · exact h.aborted ha
      · simp at ha
  | settled w v x b hk hnot =>
    have hfresh : w ∉ s.woken e := fun hw => by
      have := (h.woken w hw).2
      rw [hk.unsettled] at this; cases this
    obtain ⟨hset, habt⟩ := hk.log_eq
    have hwoken := hk.woken_eq
    have hmem : ∀ {w'}, w' ∈ (s'.event e).todo → w' ∈ (s.event e).todo ∧ w' ≠ w := fun hw' => by
      refine ⟨?_, fun he => hnot (he ▸ hw')⟩
      rw [hk.todo] at hw'
      split at hw'
      · exact Finset.mem_of_mem_erase hw'
      · exact hw'
    refine ⟨hlinked, harmed, fun w' hw' => ?_, fun hne => ?_, ?_, fun w' hw' => ?_,
      fun L w' hL hw' => ?_, fun ha => h.aborted (habt ha)⟩
    · exact hk.blocked w' (hmem hw').2 (h.todo w' (hmem hw').1)
    · obtain ⟨w', hw'⟩ := hne
      rw [hk.flag]; exact h.asleep ⟨w', (hmem hw').1⟩
    · rw [hwoken]
      split
      · rw [List.nodup_append_comm]
        exact List.nodup_cons.2 ⟨hfresh, h.once⟩
      · exact h.once
    · by_cases hww : w' = w
      · subst hww
        rw [hwoken] at hw'
        split at hw'
        · rename_i hb
          rw [hk.value.1, hk.value.2]; exact hk.notifies hb
        · exact absurd hw' hfresh
      · rw [hk.waiter w' hww]
        refine h.woken w' ?_
        rw [hwoken] at hw'
        split at hw'
        · simpa [hww] using hw'
        · exact hw'
    · rcases h.sets L w' ((hset L).1 hL) hw' with hd | hd
      · by_cases hb : b = some (.event e)
        · by_cases hww : w' = w
          · subst hww; right; rw [hwoken, if_pos hb]; simp
          · left; rw [hk.todo, if_pos hb]; exact Finset.mem_erase.2 ⟨hww, hd⟩
        · left; rw [hk.todo, if_neg hb]; exact hd
      · right; rw [hwoken]
        split
        · exact List.mem_append_left _ hd
        · exact hd

theorem State.Initial.event (h : s.Initial value) (e : EventId) : s.EventInv e none := by
  have hlog : ∀ o ∈ s.log, ∃ e, o = .eventSet e ∅ := h.log
  have hwoken : s.woken e = [] := List.filterMap_eq_nil_iff.2 fun o hm => by
    obtain ⟨e', rfl⟩ := hlog o hm; rfl
  refine ⟨h.linked, h.armed_inv (by simp), fun w hw => ?_, fun hne => ?_, ?_, fun w hw => ?_,
    fun L w hL hw => ?_, fun ha => ?_⟩
  · rw [h.todo] at hw; cases hw
  · rw [h.todo] at hne; exact absurd hne (by simp)
  · rw [hwoken]; exact List.nodup_nil
  · rw [hwoken] at hw; cases hw
  · obtain ⟨e', he'⟩ := hlog _ hL
    cases he'; cases hw
  · obtain ⟨e', he'⟩ := hlog _ ha; cases he'

/-! ## Runs -/

/-- The waiters of `todo` are settled by the notification of the event only. -/
def Rules.event (e : EventId) : Rules := { Rules.free with ok := fun E w => w ∉ (E e).todo }

/-- The step is no operation on a waiter by hand; and no timer, kill or closed
    socket throws at a waiter that the event is about to notify. -/
def Undisturbed (e : EventId) (s : State) (a : Act) : Prop :=
  ¬ a.Raw ∧ ∀ w ∈ s.injects a, w ∉ (s.event e).todo

instance (s : State) (a : Act) : Decidable (Undisturbed e s a) :=
  inferInstanceAs (Decidable (_ ∧ _))

theorem StepOk.event {a : Act} (hs : s.Sound) (h : s.EventInv e none) (ha : Undisturbed e s a) :
    StepOk (Rules.event e) s a := by
  have hlink : ∀ {w}, w ∈ (s.event e).todo → w ∈ s.links (.event e) := fun hw =>
    (h.linked.linked (by simp)).2 (Or.inl (h.todo _ hw))
  refine ⟨fun y w _ _ hw => ?_, fun x w u _ hx hw => hs.fresh.apart hx (hlink hw),
    fun w hw => ha.2 w hw, fun _ _ _ _ _ _ _ _ => trivial, fun _ _ _ _ => trivial,
    Or.inl trivial, fun _ _ _ _ _ _ => trivial, fun o ho hr => by subst ho; exact absurd hr ha.1⟩
  show w ∉ ((s.takes w (some y)).event e).todo
  rw [s.takes_todo w (some y) e]
  split
  · simp
  · rename_i hy
    intro hmem
    have hl := hlink hmem
    refine hy (congrArg some ?_)
    cases y with
    | event e' => exact (hs.fresh.todoSole hw hl).symm
    | async a => exact hs.fresh.sole (y := .async a) hw hl
    | sem x => exact hs.fresh.sole (y := .sem x) hw hl
    | put q => exact hs.fresh.sole (y := .put q) hw hl
    | get q => exact hs.fresh.sole (y := .get q) hw hl

/-- What an event promises: the notifier is set while a notification is queued;
    a notification switches waiters that nothing else settles, and is not
    stopped; a waiter of `set()` is switched once, or is about to be. -/
structure Event.Sound (s : State) (e : EventId) : Prop where
  notifier : s.Between → ((s.event e).notifier = true ↔ .notify (.event e) ∈ s.callbacks)
  aborts : .aborted (.event e) ∉ s.log
  switched : ∀ w ∈ s.woken e, ∀ v x, .settled w v x ∈ s.log → v = .bool true ∧ x = .nil
  resumed : ∀ L w, .eventSet e L ∈ s.log → w ∈ L →
    ((s.woken e).count w = 1 ∧ ∀ c k, s.mode c ≠ .blocked w k) ∨
    ((s.woken e).count w = 0 ∧ s.BlockedAt (.event e) w ∧ w ∈ (s.event e).todo ∧
      (.notify (.event e) ∈ s.callbacks ∨ s.main = .notify (.event e)))

/-- **Events in undisturbed runs.** -/
theorem event_sound (hrun : run step (State.init value maxsizes) as = some t)
    (hA : Along step (Undisturbed e) (State.init value maxsizes) as) : Event.Sound t e := by
  have h0 := State.init_initial value maxsizes
  obtain ⟨⟨hs, h⟩, hhist⟩ := And.intro
    (run_micro_inv (R := Rules.event e) (C := Undisturbed e) (I := fun p s => s.EventInv e p)
      (fun hm hs h => h.micro hm (fun _ _ => id) hs) (fun hs h ha => .event hs h ha)
      h0.sound (h0.event e) hrun hA)
    (run_micro_inv (R := Rules.free) (C := Undisturbed e) (I := fun _ s => s.HistInv)
      (fun hm hs h => h.micro hm hs.hub) (fun _ _ ha => .free ha.1) h0.sound h0.hist hrun hA).2
  have hflag := State.flag_iff h.armed
  have hblocked : ∀ w ∈ t.woken e, ∀ c k, t.mode c ≠ .blocked w k := fun w hw c k hc => by
    have := (hs.hub.blocked hc).2.2
    rw [(h.woken w hw).2] at this; cases this
  refine ⟨fun hb => ?_, h.aborted, fun w hw v x hv => ?_, fun L w hL hw => ?_⟩
  · refine hflag.trans (or_iff_left fun hm => ?_)
    rw [hb.1] at hm; cases hm
  · obtain ⟨rfl, rfl, -⟩ := (hhist w).settled_eq ((State.mem_story rfl).2 hv)
    exact h.woken w hw
  · rcases h.sets L w hL hw with hd | hd
    · obtain ⟨c, k, hc, hk⟩ := h.todo w hd
      exact Or.inr ⟨List.count_eq_zero.2 fun hm => hblocked w hm c k hc, ⟨c, k, hc, hk⟩, hd,
        hflag.1 (h.asleep ⟨w, hd⟩)⟩
    · exact Or.inl ⟨List.count_eq_one_of_mem h.once hd, hblocked w hd⟩

/-- Two tasks wait for an event, one with a timeout; both are woken. -/
def rendezvous : List Act :=
  [.enter, .op (.spawn []), .op (.spawn []), .op (.returns []),
    .callback, .op (.eventWait (.user 0) none), .callback, .op (.eventWait (.user 0) (some 1)),
    .enter, .op (.eventSet (.user 0)), .op (.returns []),
    .callback, .next (some 1), .op (.returns []), .next (some 0), .op (.returns []), .next none]

theorem event_sound_rendezvous :
    ∃ t, run step (State.init (fun _ => 0) []) rendezvous = some t ∧ t.Between ∧
      t.woken (.user 0) = [1, 0] ∧ Event.Sound t (.user 0) := by
  have h : run step (State.init (fun _ => 0) []) rendezvous = some _ := rfl
  exact ⟨_, h, by decide, by decide, event_sound h (.of_check (by decide))⟩

/-- A task is killed between `set()` and the notification. -/
def killedInTodo : List Act :=
  [.enter, .op (.spawn []), .op (.spawn []), .op (.returns []),
    .callback, .op (.eventWait (.user 0) none),
    .callback, .op (.kill 1 (some 0)), .op (.eventSet (.user 0)), .op (.returns []),
    .callback, .op (.returns []), .callback, .next (some 0)]

/-- Then the notification is stopped, and the notifier stays set: the event
    notifies nobody any more. -/
theorem event_not_sound :
    ∃ t, run step (State.init (fun _ => 0) []) killedInTodo = some t ∧
      (∀ a ∈ killedInTodo, ¬ a.Raw) ∧ t.Between ∧ t.callbacks = [] ∧
      (t.event (.user 0)).notifier = true ∧ .aborted (.event (.user 0)) ∈ t.log ∧
      ¬ Event.Sound t (.user 0) := by
  have h : run step (State.init (fun _ => 0) []) killedInTodo = some _ := rfl
  refine ⟨_, h, by simp [killedInTodo, Act.Raw, Op.Raw], by decide, by decide, by decide,
    by decide, fun hs => hs.aborts (by decide)⟩

end Levent
