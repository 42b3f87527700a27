/-
  The waiters an event is about to notify, and those it has notified.
-/
import Levent.Runtime.Runs

namespace Levent

open Lib (Armed)

variable {R : Rules} {p p' : Pend} {s s' : State} {e : EventId}

/-! ## The history of an event -/

/-- The event a record is about. -/
def Obs.event? : Obs → Option EventId
  | .eventSet e _ | .notified (.event e) _ | .aborted (.event e) => some e
  | _ => none

def Obs.wokenBy (e : EventId) : Obs → Option WaiterId
  | .notified (.event e') w => if e' = e then some w else none
  | _ => none

/-- The waiters that `_notify` has switched, in this order. -/
def State.woken (s : State) (e : EventId) : List WaiterId := s.log.filterMap (Obs.wokenBy e)

theorem Obs.event_quiet {o : Obs} (h : o.event? ≠ some e) :
    o.wokenBy e = none ∧ (∀ L, o ≠ .eventSet e L) ∧ o ≠ .aborted (.event e) := by
  refine ⟨?_, ?_, ?_⟩
  · cases o with
    | notified y w =>
      cases y with
      | event e' =>
        have : e' ≠ e := fun he => h (by rw [he]; rfl)
        simp [Obs.wokenBy, this]
      | _ => rfl
    | _ => rfl
  · rintro L rfl; exact h rfl
  · rintro rfl; exact h rfl

/-! ## What a micro step does to an event -/

/-- It neither sets the event nor settles a waiter. -/
structure State.EventKept (s : State) (e : EventId) (s' : State) : Prop where
  todo : (s'.event e).todo = (s.event e).todo
  blocked : ∀ w, s.BlockedAt (.event e) w → s'.BlockedAt (.event e) w
  waiter : ∀ w, (s.waiter w).exception ≠ .bool false → s'.waiter w = s.waiter w
  flag : s.flag (.event e) = true → s'.flag (.event e) = true ∨ (s.event e).todo = ∅
  log : ∃ os, s'.log = s.log ++ os ∧ ∀ o ∈ os, o.event? ≠ some e

/-- It settles `w` with `v` and `x`; `b` is the notification that does so. -/
structure State.EventSettled (s : State) (e : EventId) (w : WaiterId) (v x : Value)
    (b : Option Sync) (s' : State) : Prop where
  unsettled : (s.waiter w).exception = .bool false
  todo : (s'.event e).todo = if b = some (.event e) then (s.event e).todo.erase w
    else (s.event e).todo
  blocked : ∀ w', w' ≠ w → s.BlockedAt (.event e) w' → s'.BlockedAt (.event e) w'
  waiter : ∀ w', w' ≠ w → s'.waiter w' = s.waiter w'
  value : (s'.waiter w).value = v ∧ (s'.waiter w).exception = x
  notifies : b = some (.event e) → v = .bool true ∧ x = .nil
  flag : s'.flag (.event e) = s.flag (.event e)
  log : ∃ os, s'.log = s.log ++ b.toList.map (fun y => .notified y w) ++ os ∧
    ∀ o ∈ os, o.event? ≠ some e

/-- What a micro step does to an event, if the waiters it is about to notify are
    settled by its notification only. -/
inductive State.EventStep (s : State) (e : EventId) (s' : State) : Prop where
  | kept : s.EventKept e s' → EventStep s e s'
  | set : (∀ w ∈ (s.event e).links, s.BlockedAt (.event e) w) → s' = Event.set s e → EventStep s e s'
  | settled (w v x b) : s.EventSettled e w v x b s' → w ∉ (s'.event e).todo → EventStep s e s'

/-- The event is left alone. -/
theorem State.EventStep.of_eq (os : List Obs) (ht : ∀ e, (s'.event e).todo = (s.event e).todo)
    (hm : ∀ c w k, s.mode c = .blocked w k → s'.mode c = .blocked w k)
    (hw : s'.waiter = s.waiter) (hf : s'.flag (.event e) = s.flag (.event e))
    (hl : s'.log = s.log ++ os) (ho : ∀ o ∈ os, o.event? ≠ some e) : s.EventStep e s' :=
  .kept ⟨ht e, fun w hb => hb.mono fun c k => hm c w k, fun _ _ => by rw [hw],
    fun h => Or.inl (hf.trans h), os, hl, ho⟩

/-- A waiter is made: the settled ones are others. -/
theorem Hub.waiter_settled (hh : s.HubInv) (w : WaiterId)
    (hx : (s.waiter w).exception ≠ .bool false) : (Hub.waiter s).2.waiter w = s.waiter w := by
  have hw : w ≠ s.nextWaiter := by rintro rfl; rw [hh.fresh le_rfl] at hx; exact hx rfl
  simp [Hub.waiter, State.setWaiter, hw]

theorem Micro.event_step (hm : Micro R p s p' s') (hs : s.Sound)
    (hok : ∀ E w, R.ok E w → w ∉ (E e).todo)
    (hlive : ∀ w ∈ (s.event e).todo, (s.waiter w).exception = .bool false)
    (hlink : p = none → ∀ w ∈ (s.event e).links, s.BlockedAt (.event e) w) : s.EventStep e s' := by
  have one : ∀ o : Obs, (∀ e, (s'.event e).todo = (s.event e).todo) →
      (∀ c w k, s.mode c = .blocked w k → s'.mode c = .blocked w k) → s'.waiter = s.waiter →
      s'.flag (.event e) = s.flag (.event e) → s'.log = s.log ++ [o] → o.event? = none →
      s.EventStep e s' := fun o h1 h2 h3 h4 h5 h6 => .of_eq [o] h1 h2 h3 h4 h5 (by simp [h6])
  have quiet : (∀ e, (s'.event e).todo = (s.event e).todo) →
      (∀ c w k, s.mode c = .blocked w k → s'.mode c = .blocked w k) → s'.waiter = s.waiter →
      s'.flag (.event e) = s.flag (.event e) → s'.log = s.log → s.EventStep e s' :=
    fun h1 h2 h3 h4 h5 => .of_eq [] h1 h2 h3 h4 (h5.trans (List.append_nil _).symm) (by simp)
  cases hm with
  | env _ _ _ he =>
    rw [he.eq] at quiet ⊢
    exact quiet (fun _ => rfl) (fun _ _ _ => id) rfl rfl rfl
  | mainDone | enter | post | pop | begin => exact quiet (fun _ => rfl) (fun _ _ _ => id) rfl rfl rfl
  | goOn _ c m ht ha =>
    exact quiet (fun _ => rfl) (update_mode_blocked (by simp [ht.1]) rfl) rfl rfl rfl
  | answer _ c i f _ hf =>
    exact quiet (fun _ => rfl) (update_mode_blocked (by simp [hf]) rfl) rfl rfl rfl
  | rawCreate =>
    have hu : s.mode (s.total + 1) = .unused := hs.pool.unused.2 (Nat.lt_succ_self _)
    exact quiet (fun _ => rfl) (update_mode_blocked (m := .pooled) (by simp [hu]) rfl) rfl rfl rfl
  | spawn _ co args _ hc =>
    exact quiet (fun _ => rfl)
      (update_mode_blocked (m := .ready (some s.nextTask)) (by simp [hc]) rfl) rfl rfl rfl
  | emit _ o ho =>
    obtain ⟨c, vs, rfl⟩ := ho.eq_ret
    exact one (.ret c vs) (fun _ => rfl) (fun _ _ _ => id) rfl rfl rfl rfl
  | returned _ c ht =>
    exact one _ (fun _ => rfl) (update_mode_blocked (m := .pooled) (by simp [ht.1]) rfl) rfl rfl rfl rfl
  | failed _ c v ht =>
    exact one _ (fun _ => rfl) (update_mode_blocked (m := .dead) (by simp [ht.1]) rfl) rfl rfl rfl rfl
  | kill => exact one _ (fun _ => rfl) (fun _ _ _ => id) rfl rfl rfl rfl
  | start _ c f args cbs _ _ hc =>
    exact one _ (fun _ => rfl) (update_mode_blocked (m := .running) (by simp [hc]) rfl) rfl rfl rfl rfl
  | assertGet => exact one _ (fun _ => rfl) (fun _ _ _ => id) rfl rfl rfl rfl
  | eventSet _ e' =>
    by_cases hee : e' = e
    · subst hee; exact .set (hlink rfl) rfl
    · obtain ⟨E, C, L, he, -⟩ := Event.set_frame s e'
      refine .kept ⟨?_, fun w hb => hb.mono fun c k hc => ?_, fun _ _ => by rw [he], fun h => ?_,
        [.eventSet e' (s.event e').links], Event.set_log s e', by simp [Obs.event?, hee]⟩
      · rw [Event.set_todo, if_neg (Ne.symm hee)]
      · rw [he]; exact hc
      · refine Or.inl ?_
        rw [Event.set_flag, if_neg (by simpa using Ne.symm hee)]; exact h
  | eventClear _ e' =>
    exact quiet (Event.clear_todo s e') (fun _ _ _ => id) rfl (Event.clear_flag s e' _) rfl
  | asyncSet _ _ _ _ _ h =>
    obtain ⟨A, C, rfl, -⟩ := AsyncResult._set_frame s h
    exact quiet (fun _ => rfl) (fun _ _ _ => id) rfl rfl rfl
  | semRelease _ x =>
    obtain ⟨M, C, L, he, -⟩ := Semaphore.release_frame s x
    exact one _ (fun _ => by rw [he]) (fun c w k hc => by rw [he]; exact hc) (by rw [he])
      (by rw [he]; rfl) (Semaphore.release_log s x) rfl
  | semAcquire => exact one _ (fun _ => rfl) (fun _ _ _ => id) rfl rfl rfl rfl
  | put _ q item =>
    have ht := Queue._put_todo s q item
    have hf := Queue._put_flag s q item (.event e)
    rw [if_neg (by simp)] at hf
    obtain ⟨Q, E, C, L, he, -⟩ := Queue._put_frame s q item
    refine .of_eq [.inserted q item, .putDone q item] ht (fun c w k hc => ?_) ?_ hf ?_ (by simp [Obs.event?])
    · rw [he]; exact hc
    · rw [he]; rfl
    · simp [State.emit, Queue._put_log]
  | get _ q item s₁ h =>
    have hl := Queue._get_log s h
    obtain ⟨Q, C, L, rfl, -⟩ := Queue._get_frame s h
    refine .of_eq [.removed q item, .gotItem q item] (fun _ => rfl) (fun _ _ _ => id) rfl rfl ?_
      (by simp [Obs.event?])
    simp only [State.emit] at hl ⊢
    rw [hl]; simp
  | endNotify _ y hmain _ _ _ hev =>
    have ht := endNotify_todo s y
    by_cases hy : y = .event e
    · subst hy
      refine .kept ⟨ht e, fun _ => id, fun _ _ => rfl, fun _ => Or.inr (hev e rfl), [], ?_, by simp⟩
      exact (List.append_nil _).symm
    · have hf := endNotify_flag_ne s (Ne.symm hy)
      obtain ⟨E, Q, he⟩ := endNotify_frame s y
      exact quiet ht (fun c w k hc => by rw [he]; exact hc) (by rw [he]) hf (by rw [he])
  | abort _ y w hmain _ hw hx =>
    have hy : y ≠ .event e := by
      rintro rfl; exact hx (hlive w hw)
    have ht := s.takes_todo w (some y)
    have hf := s.takes_flag w (some y) (.event e)
    have hl := s.takes_log w (some y)
    obtain ⟨E, L, he⟩ := s.takes_frame w (some y)
    have hobs : ∀ o ∈ [Obs.notified y w, .aborted y], o.event? ≠ some e := by
      cases y with
      | event e' =>
        have : e' ≠ e := fun h => hy (by rw [h])
        simp [Obs.event?, this]
      | async | sem | put | get => simp [Obs.event?]
    refine .kept ⟨?_, fun w' hb => hb.mono fun c k hc => ?_, fun _ _ => ?_, fun h => Or.inl ?_,
      [.notified y w, .aborted y], ?_, hobs⟩
    · refine (ht e).trans (if_neg ?_)
      simpa using hy
    · rw [he]; exact hc
    · rw [he]; rfl
    · exact hf.trans h
    · simp [State.emit, hl]
  | waiter _ _ he =>
    rw [he.eq]
    exact .kept ⟨rfl, fun _ => id, Hub.waiter_settled hs.hub, Or.inl, [],
      (List.append_nil _).symm, by simp⟩
  | semPass _ x c =>
    exact .of_eq [.semCall x c (s.sem x).counter, .semTrue x (s.sem x).counter none] (fun _ => rfl) (fun _ _ _ => id) rfl rfl
      (List.append_assoc _ _ _) (by simp [Obs.event?])
  | semRefuse _ x c t s₁ _ h₁ =>
    obtain ⟨E, A, M, Q, he⟩ := (s.emit (.semCall x c (s.sem x).counter)).newLink_frame (.sem x)
    have hev : s₁.event = s.event := by rw [h₁.eq]; rfl
    have hev' : s₁.event e = s.event e := congrFun hev e
    refine .kept ⟨congrArg Event.todo hev', fun w hb => hb.mono fun c k hc => ?_, fun w hx => ?_,
      fun h => .inl ((congrArg Event.notifier hev').trans h),
      [.semCall x c (s.sem x).counter, .semRaised x t], ?_, by simp [Obs.event?]⟩
    · rw [h₁.eq, he]; exact hc
    · rw [h₁.eq, he]; exact Hub.waiter_settled hs.hub w hx
    · rw [h₁.eq, he]; exact List.append_assoc _ _ _
  | semWaited _ x w o s₁ ho h₁ =>
    obtain ⟨E, A, M, Q, he⟩ := s.setLinks_frame ((s.links (.sem x)).erase w) (.sem x)
    rw [h₁.eq, State.unlink, he] at one ⊢
    have hev : E = s.event := (congrArg State.event he).symm
    subst hev
    refine one o (fun _ => rfl) (fun _ _ _ => id) rfl rfl rfl ?_
    rcases ho.ends with ⟨_, _, rfl⟩ | ⟨_, _, rfl⟩ | ⟨_, rfl⟩ <;> rfl
  | link _ y =>
    have ht : ((s.newLink y).event e).todo = (s.event e).todo := State.setLinks_todo _ _ _ e
    have hf := s.newLink_flag y (.event e)
    obtain ⟨E, A, M, Q, he⟩ := s.newLink_frame y
    refine .kept ⟨ht, fun w hb => hb.mono fun c k hc => ?_, fun w hx => ?_, fun h => Or.inl (hf.trans h),
      [], ?_, by simp⟩
    · rw [he]; exact hc
    · rw [he]; exact Hub.waiter_settled hs.hub w hx
    · rw [he]; exact (List.append_nil _).symm
  | unlink _ y w =>
    have ht : ((s.unlink y w).event e).todo = (s.event e).todo := s.setLinks_todo _ _ e
    have hf : (s.unlink y w).flag (.event e) = s.flag (.event e) := s.setLinks_flag _ y _
    obtain ⟨E, A, M, Q, he⟩ := s.setLinks_frame ((s.links y).erase w) y
    have he' : s.unlink y w = { s with event := E, async := A, sem := M, queue := Q } := he
    refine .kept ⟨ht, fun w hb => hb.mono fun c k hc => ?_, fun _ _ => by rw [he'],
      fun h => Or.inl (hf.trans h), [], ?_, by simp⟩
    · rw [he']; exact hc
    · rw [he']; exact (List.append_nil _).symm
  | block _ c w k ht _ _ _ hn =>
    have hu : ∀ c' w' k', s.mode c' = .blocked w' k' → (s.block c w k).mode c' = .blocked w' k' :=
      update_mode_blocked (m := .blocked w k) (by simp [ht.1]) rfl
    refine .kept ⟨rfl, fun w' hb => hb.mono fun c' k' => hu c' w' k', fun w' hx => ?_,
      Or.inl, [.getCall w c], rfl, by simp [Obs.event?]⟩
    have hww : w' ≠ w := by rintro rfl; exact hx hn.2
    simp [State.block, State.setWaiter, hww, State.emit]
  | mainGet _ _ w v _ hn =>
    refine .kept ⟨rfl, fun _ => id, fun w' hx => ?_, Or.inl, [.getCall w 0, .getDone w (.error v)],
      ?_, by simp [Obs.event?]⟩
    · have hww : w' ≠ w := by rintro rfl; exact hx hn.2
      simp [State.mainGet, State.setWaiter, hww, State.emit]
    · simp [State.mainGet, State.emit, State.setWaiter]
  | settledGet _ w c =>
    exact .of_eq [.getCall w c, .getDone w (s.waiter w).result] (fun _ => rfl) (fun _ _ _ => id) rfl rfl
      (by simp [State.emit]) (by simp [Obs.event?])
  | settle _ w v x b hx _ _ _ hr hb =>
    have ht := s.takes_todo w b e
    have hf := s.takes_flag w b (.event e)
    have hl := s.takes_log w b
    obtain ⟨E, L, he⟩ := s.takes_frame w b
    refine .settled w v x b ⟨hx, ht, fun w' _ hb => hb.mono fun c k hc => ?_, fun w' hw => ?_, ?_,
      fun h => ?_, hf, [.settled w v x], ?_, by simp [Obs.event?]⟩ (hok _ _ hr)
    · rw [he]; exact hc
    · rw [he]; simp [State.settle, State.setWaiter, State.emit, hw]
    · simp [State.settle, State.setWaiter, State.emit]
    · exact (hb _ h).2.2
    · simp [State.settle, State.setWaiter, State.emit, hl]
  | resume _ c w k v x b hc _ _ hr hb =>
    have ht := s.takes_todo w b e
    have hf := s.takes_flag w b (.event e)
    have hl := s.takes_log w b
    obtain ⟨E, L, he⟩ := s.takes_frame w b
    refine .settled w v x b ⟨(hs.hub.blocked hc).2.2, ht, fun w' hww hb =>
      hb.mono fun c' k' hc' => ?_, fun w' hw => ?_, ?_, fun h => ?_, hf, [.settled w v x,
      .getDone w (Waiter.result ⟨((s.takes w b).waiter w).co, v, x⟩)], ?_, by simp [Obs.event?]⟩
      (hok _ _ hr)
    · have hcc : c' ≠ c := by
        rintro rfl; rw [hc] at hc'; cases hc'; exact hww rfl
      rw [he]; simpa [State.resume, State.emit, hcc] using hc'
    · rw [he]; simp [State.resume, State.settle, State.setWaiter, State.emit, hw]
    · simp [State.resume, State.settle, State.setWaiter, State.emit]
    · exact (hb _ h).2.2
    · simp [State.resume, State.settle, State.setWaiter, State.emit, hl]

end Levent
