/-
  The counter of a semaphore counts its releases and acquires, and the only
  calls that register a waiter are those that find no permit.
-/
import Levent.Runtime.Notify

namespace Levent

variable {R : Rules} {p p' : Pend} {s s' : State} {x : SemId}

/-! ## What a micro step does to a semaphore -/

/-- The semaphore a record is about. -/
def Obs.sem? : Obs → Option SemId
  | .semCall x .. | .semTrue x .. | .semFalse x .. | .semRaised x _ | .acquired x | .released x =>
    some x
  | _ => none

/-- A call passes, or finds no permit, raises and leaves its waiter; one that has
    waited (as no call does) ends. -/
inductive State.SemStep (p : Pend) (s : State) (x : SemId) (s' : State) : Prop where
  | kept (os) : s'.sem x = s.sem x → s'.log = s.log ++ os → (∀ o ∈ os, o.sem? ≠ some x) →
      SemStep p s x s'
  | release : s'.sem x = { s.sem x with
        counter := (s.sem x).counter + 1
        notifier := (s.sem x).notifier || decide (s.sem x).links.Nonempty } →
      s'.log = s.log ++ [.released x] → SemStep p s x s'
  | acquire : 0 < (s.sem x).counter →
      s'.sem x = { s.sem x with counter := (s.sem x).counter - 1 } →
      s'.log = s.log ++ [.acquired x] → SemStep p s x s'
  | pass (c) : 0 < (s.sem x).counter → s'.sem x = s.sem x →
      s'.log = s.log ++ [.semCall x c (s.sem x).counter, .semTrue x (s.sem x).counter none] →
      SemStep p s x s'
  | refuse (c t) : ¬ 0 < (s.sem x).counter →
      s'.sem x = { s.sem x with links := insert s.nextWaiter (s.sem x).links } →
      s'.log = s.log ++ [.semCall x c (s.sem x).counter, .semRaised x t] → SemStep p s x s'
  | waited (w o) : p = some (.sem x, w) → o.Waited x →
      s'.sem x = { s.sem x with links := (s.sem x).links.erase w } → s'.log = s.log ++ [o] →
      SemStep p s x s'

theorem Semaphore.release_sem (s : State) (x : SemId) :
    (Semaphore.release s x).sem = Function.update s.sem x { s.sem x with
      counter := (s.sem x).counter + 1
      notifier := (s.sem x).notifier || decide (s.sem x).links.Nonempty } := by
  unfold Semaphore.release; dsimp only
  split
  · rename_i h
    have hl : decide (s.sem x).links.Nonempty = true := (Bool.and_eq_true_iff.1 h).2
    simp [Loop.runCallback, State.setSem, State.emit, hl]
  · rename_i h
    have hn : ((s.sem x).notifier || decide (s.sem x).links.Nonempty) = (s.sem x).notifier := by
      revert h
      cases (s.sem x).notifier <;> cases decide (s.sem x).links.Nonempty <;> simp
    rw [hn]; rfl

theorem Micro.sem_step (hm : Micro R p s p' s') (x : SemId) : s.SemStep p x s' := by
  have quiet : s'.sem = s.sem → s'.log = s.log → s.SemStep p x s' := fun hx hl =>
    .kept [] (by rw [hx]) (hl.trans (List.append_nil _).symm) (by simp)
  have log : ∀ os : List Obs, (∀ o ∈ os, o.sem? = none) → s'.sem = s.sem → s'.log = s.log ++ os →
      s.SemStep p x s' := fun os ho hx hl =>
    .kept os (by rw [hx]) hl fun o hm => by simp [ho o hm]
  -- the waiters of another lock
  have other : ∀ {s₁ : State} {y : Sync} {L : Finset WaiterId}, y ≠ .sem x →
      (s₁.setLinks L y).sem x = s₁.sem x := fun {s₁ y L} hy => by
    cases y with
    | sem x' =>
      have hne : x ≠ x' := fun h => hy (by rw [h])
      simp [State.setLinks, State.setSem, hne]
    | event | async | put | get => rfl
  cases hm with
  | env _ _ _ he | waiter _ _ he => rw [he.eq] at quiet ⊢; exact quiet rfl rfl
  | goOn | answer | mainDone | enter | post | pop | begin | rawCreate | spawn | eventClear =>
    exact quiet rfl rfl
  | emit _ o ho =>
    obtain ⟨c, vs, rfl⟩ := ho.eq_ret
    exact log [.ret c vs] (by simp [Obs.sem?]) rfl rfl
  | returned | failed | kill | start | block | assertGet => exact log [_] (by simp [Obs.sem?]) rfl rfl
  | mainGet _ _ w v =>
    exact log [.getCall w 0, .getDone w (.error v)] (by simp [Obs.sem?]) rfl (List.append_assoc _ _ _)
  | settledGet _ w c =>
    exact log [.getCall w c, .getDone w (s.waiter w).result] (by simp [Obs.sem?]) rfl
      (List.append_assoc _ _ _)
  | eventSet _ e =>
    have hl := Event.set_log s e
    obtain ⟨E, C, L, he, -⟩ := Event.set_frame s e
    exact log _ (by simp [Obs.sem?]) (by rw [he]) hl
  | asyncSet _ a v e _ hs => obtain ⟨-, rfl⟩ := AsyncResult._set_ok.1 hs; exact quiet rfl rfl
  | put _ q item =>
    have hl := Queue._put_log s q item
    obtain ⟨Q, E, C, L, he, -⟩ := Queue._put_frame s q item
    refine log [.inserted q item, .putDone q item] (by simp [Obs.sem?]) (by rw [he]; rfl) ?_
    simp [State.emit, hl]
  | get _ q item s₁ hs =>
    have hl := Queue._get_log s hs
    obtain ⟨Q, C, L, rfl, -⟩ := Queue._get_frame s hs
    refine log [.removed q item, .gotItem q item] (by simp [Obs.sem?]) rfl ?_
    simp only at hl
    simp [State.emit, hl]
  | endNotify _ y =>
    obtain ⟨E, Q, he⟩ := endNotify_frame s y
    rw [he] at quiet ⊢; exact quiet rfl rfl
  | abort _ y w =>
    have hl := s.abort_log w y
    obtain ⟨E, L, he⟩ := s.takes_frame w (some y)
    exact log _ (by simp [Obs.sem?]) (by rw [he]; rfl) hl
  | settle _ w v e b =>
    have hl := s.settle_log w v e b
    obtain ⟨E, L, he⟩ := s.takes_frame w b
    exact log _ (by simp [or_imp, forall_and, Obs.sem?]) (by rw [he]; rfl) hl
  | resume _ c w k v e b =>
    have hl := s.resume_log c w v e b
    obtain ⟨E, L, he⟩ := s.takes_frame w b
    exact log _ (by simp [or_imp, forall_and, Obs.sem?]) (by rw [he]; rfl) hl
  | link _ y hy =>
    refine .kept [] (other (hy x)) ?_ (by simp)
    obtain ⟨E, A, M, Q, he⟩ := s.newLink_frame y
    rw [he]; exact (List.append_nil _).symm
  | unlink _ y w hy =>
    refine .kept [] (other (hy x)) ?_ (by simp)
    obtain ⟨E, A, M, Q, he⟩ := s.setLinks_frame ((s.links y).erase w) y
    rw [State.unlink, he]; exact (List.append_nil _).symm
  | semRelease _ x' =>
    have hx := Semaphore.release_sem s x'
    have hl := Semaphore.release_log s x'
    by_cases h : x' = x
    · subst h; exact .release (by rw [hx, Function.update_self]) hl
    · exact .kept _ (by rw [hx, Function.update_of_ne (Ne.symm h)]) hl (by simp [Obs.sem?, h])
  | semAcquire _ x' hc =>
    by_cases h : x' = x
    · subst h; exact .acquire hc (Function.update_self _ _ _) rfl
    · exact .kept [.acquired x'] (Function.update_of_ne (Ne.symm h) _ _) rfl (by simp [Obs.sem?, h])
  | semPass _ x' c hc =>
    by_cases h : x' = x
    · subst h; exact .pass c hc rfl (List.append_assoc _ _ _)
    · exact .kept _ rfl (List.append_assoc _ _ _) (by simp [Obs.sem?, h])
  | semRefuse _ x' c t s₁ hc h₁ =>
    obtain ⟨E, A, M, Q, he⟩ := (s.emit (.semCall x' c (s.sem x').counter)).newLink_frame (.sem x')
    have hl : (s₁.emit (.semRaised x' t)).log =
        s.log ++ [.semCall x' c (s.sem x').counter, .semRaised x' t] := by
      rw [h₁.eq, he]; exact List.append_assoc _ _ _
    by_cases h : x' = x
    · subst h
      refine .refuse c t hc ?_ hl
      rw [h₁.eq]; exact Function.update_self _ _ _
    · refine .kept _ ?_ hl (by simp [Obs.sem?, h])
      rw [h₁.eq]; exact Function.update_of_ne (Ne.symm h) _ _
  | semWaited _ x' w o s₁ ho h₁ =>
    obtain ⟨E, A, M, Q, he⟩ := s.setLinks_frame ((s.links (.sem x')).erase w) (.sem x')
    have hl : (s₁.emit o).log = s.log ++ [o] := by
      rw [h₁.eq, State.unlink, he]; rfl
    by_cases h : x' = x
    · subst h
      refine .waited w o rfl ho ?_ hl
      rw [h₁.eq]; exact Function.update_self _ _ _
    · have hq : o.sem? = some x' := by
        rcases ho.ends with ⟨_, _, rfl⟩ | ⟨_, _, rfl⟩ | ⟨_, rfl⟩ <;> rfl
      refine .kept [o] ?_ hl (by simp [hq, h])
      rw [h₁.eq]; exact Function.update_of_ne (Ne.symm h) _ _

end Levent
