/-
  The life of a waiter: what has been recorded about it, and what its fields
  are then.
-/
import Levent.Runtime.Runs

namespace Levent

variable {R : Rules} {p p' : Pend} {s s' : State} {w : WaiterId}

/-! ## The story of a waiter -/

/-- The waiter whose `get`, `switch` or `throw` a record is of. -/
def Obs.waiter? : Obs → Option WaiterId
  | .getCall w _ | .getDone w _ | .settled w _ _ => some w
  | _ => none

def Obs.isDone : Obs → Bool
  | .getDone .. => true
  | _ => false

def Obs.isSettled : Obs → Bool
  | .settled .. => true
  | _ => false

/-- What has been recorded of the waiter. -/
def State.story (s : State) (w : WaiterId) : List Obs :=
  s.log.filter fun o => decide (o.waiter? = some w)

/-- How a `get` ends whose waiter is settled with `v` and `x`. -/
def settledResult (v x : Value) : Except Value Value := Waiter.result ⟨none, v, x⟩

theorem Waiter.result_eq (co : Option Co) (v x : Value) :
    Waiter.result ⟨co, v, x⟩ = settledResult v x := rfl

/-- The lives of a waiter: `get` comes first and ends when the waiter is
    settled, or comes later and ends at once.  In the main coroutine, which
    cannot be suspended, a `get` that comes first fails. -/
inductive Waiter.Life (w : WaiterId) : Waiter → List Obs → Prop
  | new : Life w Waiter._init []
  | waits (c) : c ≠ 0 → Life w ⟨some c, .nil, .bool false⟩ [.getCall w c]
  | failed (v) : Life w ⟨some 0, .nil, .bool false⟩ [.getCall w 0, .getDone w (.error v)]
  | early (v x) : x ≠ .bool false → Life w ⟨none, v, x⟩ [.settled w v x]
  | read (v x c) : x ≠ .bool false → Life w ⟨none, v, x⟩
      [.settled w v x, .getCall w c, .getDone w (settledResult v x)]
  | done (v x c) : c ≠ 0 → x ≠ .bool false → Life w ⟨some c, v, x⟩
      [.getCall w c, .settled w v x, .getDone w (settledResult v x)]
  | late (v x v') : x ≠ .bool false → Life w ⟨some 0, v, x⟩
      [.getCall w 0, .getDone w (.error v'), .settled w v x]

/-- Every waiter lives one of its lives. -/
def State.HistInv (s : State) : Prop := ∀ w, Waiter.Life w (s.waiter w) (s.story w)

/-! ## One step -/

theorem State.story_append {os : List Obs} (hl : s'.log = s.log ++ os) (w : WaiterId) :
    s'.story w = s.story w ++ os.filter fun o => decide (o.waiter? = some w) := by
  rw [State.story, State.story, hl, List.filter_append]

/-- Nothing is recorded of a waiter. -/
theorem State.story_quiet {os : List Obs} (hl : s'.log = s.log ++ os)
    (ho : ∀ o ∈ os, o.waiter? ≠ some w) : s'.story w = s.story w := by
  have hnil : os.filter (fun o => decide (o.waiter? = some w)) = [] :=
    List.filter_eq_nil_iff.2 fun o hm => by simpa using ho o hm
  rw [State.story_append hl, hnil, List.append_nil]

theorem State.HistInv.keep (h : s.HistInv) (os : List Obs) (hw : s'.waiter = s.waiter)
    (hl : s'.log = s.log ++ os) (ho : ∀ o ∈ os, o.waiter? = none) : s'.HistInv := fun w => by
  rw [hw, State.story_quiet hl fun o hm => by simp [ho o hm]]
  exact h w

/-- One waiter changes, with the records `os` of it. -/
theorem State.HistInv.one (h : s.HistInv) (os : List Obs) {o : Waiter}
    (hw : s'.waiter = Function.update s.waiter w o) (hl : s'.log = s.log ++ os)
    (ho : ∀ o ∈ os, o.waiter? = some w ∨ o.waiter? = none)
    (hlife : Waiter.Life w o (s.story w ++ os.filter fun o => decide (o.waiter? = some w))) :
    s'.HistInv := fun w' => by
  by_cases hww : w' = w
  · subst hww
    rw [hw, Function.update_self, State.story_append hl]; exact hlife
  · rw [hw, Function.update_of_ne hww, State.story_quiet hl fun o hm heq => ?_]
    · exact h w'
    · rcases ho o hm with h1 | h1 <;> rw [h1] at heq
      · cases heq; exact hww rfl
      · cases heq

/-- A new waiter is one of which nothing has been recorded. -/
theorem Waiter.Life.of_new {o : Waiter} {l : List Obs} (h : Waiter.Life w o l) (hn : o.New) :
    o = Waiter._init ∧ l = [] := by
  cases h with
  | new => exact ⟨rfl, rfl⟩
  | waits | failed | done | late => cases hn.1
  | early _ _ hx | read _ _ _ hx => exact absurd hn.2 hx

theorem Waiter.Life.settle {o : Waiter} {l : List Obs} {v x : Value} (h : Waiter.Life w o l)
    (ho : o.exception = .bool false) (hco : o.co.getD 0 = 0) (hx : x ≠ .bool false) :
    Waiter.Life w ⟨o.co, v, x⟩ (l ++ [.settled w v x]) := by
  cases h with
  | new => exact .early v x hx
  | waits c hc => exact absurd hco hc
  | failed v' => exact .late v x v' hx
  | early _ _ hx' | read _ _ _ hx' | done _ _ _ _ hx' | late _ _ _ hx' => exact absurd ho hx'

theorem Waiter.Life.resume {o : Waiter} {l : List Obs} {v x : Value} {c : Co}
    (h : Waiter.Life w o l) (ho : o.exception = .bool false) (hco : o.co = some c) (hc : c ≠ 0)
    (hx : x ≠ .bool false) :
    Waiter.Life w ⟨o.co, v, x⟩ (l ++ [.settled w v x, .getDone w (settledResult v x)]) := by
  cases h with
  | new => cases hco
  | waits c' hc' => exact .done v x c' hc' hx
  | failed => cases hco; exact absurd rfl hc
  | early _ _ hx' | read _ _ _ hx' | done _ _ _ _ hx' | late _ _ _ hx' => exact absurd ho hx'

theorem Waiter.Life.read_get {o : Waiter} {l : List Obs} (h : Waiter.Life w o l)
    (ho : o.exception ≠ .bool false) (hl : ∀ c, .getCall w c ∉ l) (c : Co) :
    Waiter.Life w o (l ++ [.getCall w c, .getDone w o.result]) := by
  cases h with
  | new | waits | failed => exact absurd rfl ho
  | early v x hx => exact .read v x c hx
  | read _ _ c' | done _ _ c' => exact absurd (by simp) (hl c')
  | late => exact absurd (by simp) (hl 0)

/-- The story of a waiter is made of the records of it. -/
theorem State.mem_story {o : Obs} (ho : o.waiter? = some w) : o ∈ s.story w ↔ o ∈ s.log := by
  simp [State.story, ho]

theorem notified_waiter (w w' : WaiterId) (b : Option Sync) {os : List Obs}
    (hos : ∀ o ∈ os, o.waiter? = some w') :
    ∀ o ∈ b.toList.map (fun y => .notified y w) ++ os, o.waiter? = some w' ∨ o.waiter? = none := by
  intro o hm
  rcases List.mem_append.1 hm with hm | hm
  · obtain ⟨y, -, rfl⟩ := List.mem_map.1 hm; exact Or.inr rfl
  · exact Or.inl (hos o hm)

theorem notified_no_waiter (w w' : WaiterId) (b : Option Sync) :
    (b.toList.map fun y => Obs.notified y w).filter (fun o => decide (o.waiter? = some w')) = [] := by
  cases b <;> rfl

theorem State.HistInv.micro (hm : Micro R p s p' s') (hh : s.HubInv) (h : s.HistInv) :
    s'.HistInv := by
  cases hm with
  | env _ _ _ he => rw [he.eq]; exact h
  | waiter _ _ he =>
    rw [he.eq]
    refine h.one (w := s.nextWaiter) [] rfl (List.append_nil _).symm (by simp) ?_
    have h1 := h s.nextWaiter
    rw [hh.fresh le_rfl] at h1
    simpa using h1
  | semPass _ x c =>
    exact h.keep [.semCall x c (s.sem x).counter, .semTrue x (s.sem x).counter none] rfl (List.append_assoc _ _ _)
      (by simp [Obs.waiter?])
  | semRefuse _ x c t s₁ _ h₁ =>
    obtain ⟨E, A, M, Q, he⟩ := (s.emit (.semCall x c (s.sem x).counter)).newLink_frame (.sem x)
    rw [h₁.eq, he]
    refine h.one (w := s.nextWaiter) [.semCall x c (s.sem x).counter, .semRaised x t] rfl
      (List.append_assoc _ _ _) (by simp [Obs.waiter?]) ?_
    have h1 := h s.nextWaiter
    rw [hh.fresh le_rfl] at h1
    simpa [Obs.waiter?] using h1
  | semWaited _ x w o s₁ ho h₁ =>
    obtain ⟨E, A, M, Q, he⟩ := s.setLinks_frame ((s.links (.sem x)).erase w) (.sem x)
    rw [h₁.eq, State.unlink, he]
    refine h.keep [o] rfl rfl ?_
    rcases ho.ends with ⟨_, _, rfl⟩ | ⟨_, _, rfl⟩ | ⟨_, rfl⟩ <;> simp [Obs.waiter?]
  | link _ y =>
    obtain ⟨E, A, M, Q, he⟩ := s.newLink_frame _
    rw [he]
    refine h.one (w := s.nextWaiter) [] rfl (List.append_nil _).symm (by simp) ?_
    have h1 := h s.nextWaiter
    rw [hh.fresh le_rfl] at h1
    simpa using h1
  | emit _ o ho =>
    obtain ⟨c, vs, rfl⟩ := ho.eq_ret
    exact h.keep [.ret c vs] rfl rfl (by simp [Obs.waiter?])
  | post | pop | mainDone | enter | begin | goOn | answer | rawCreate | spawn | eventClear =>
    exact h
  | kill | assertGet | returned | failed | start | semAcquire =>
    exact h.keep _ rfl rfl (by simp [Obs.waiter?])
  | eventSet _ e =>
    obtain ⟨E, C, L, he, -⟩ := Event.set_frame s e
    exact h.keep _ (by rw [he]) (Event.set_log s e) (by simp [Obs.waiter?])
  | asyncSet _ _ _ _ _ hs =>
    obtain ⟨A, C, rfl, -⟩ := AsyncResult._set_frame s hs
    exact h
  | semRelease _ x =>
    obtain ⟨M, C, L, he, -⟩ := Semaphore.release_frame s x
    exact h.keep _ (by rw [he]) (Semaphore.release_log s x) (by simp [Obs.waiter?])
  | put _ q item =>
    have hl := Queue._put_log s q item
    obtain ⟨Q, E, C, L, he, -⟩ := Queue._put_frame s q item
    refine h.keep [.inserted q item, .putDone q item] (by rw [he]; rfl) ?_ (by simp [Obs.waiter?])
    simp [State.emit, hl]
  | get _ q item s₁ hs =>
    have hl := Queue._get_log s hs
    obtain ⟨Q, C, L, rfl, -⟩ := Queue._get_frame s hs
    refine h.keep [.removed q item, .gotItem q item] rfl ?_ (by simp [Obs.waiter?])
    simp only [State.emit] at hl ⊢
    rw [hl]; simp
  | endNotify _ y =>
    obtain ⟨E, Q, he⟩ := endNotify_frame s y
    rw [he]; exact h
  | unlink _ y w =>
    obtain ⟨E, A, M, Q, he⟩ := s.setLinks_frame ((s.links y).erase w) y
    rw [State.unlink, he]; exact h
  | abort _ y w =>
    have hl := s.abort_log w y
    obtain ⟨E, L, he⟩ := s.takes_frame w (some y)
    exact h.keep _ (by rw [he]; rfl) hl (by simp [Obs.waiter?])
  | block _ c w k _ hc _ _ hn =>
    obtain ⟨ho, hl⟩ := (h w).of_new hn
    refine h.one [.getCall w c] rfl rfl (by simp [Obs.waiter?]) ?_
    rw [hl, ho]
    simpa [Obs.waiter?, Waiter._init] using Waiter.Life.waits c hc
  | mainGet _ _ w v _ hn =>
    obtain ⟨ho, hl⟩ := (h w).of_new hn
    refine h.one (w := w) [.getCall w 0, .getDone w (.error v)] rfl
      (List.append_assoc _ _ _) (by simp [Obs.waiter?]) ?_
    rw [hl, ho]
    simpa [Obs.waiter?, Waiter._init] using Waiter.Life.failed v
  | settledGet _ w c hx hg =>
    refine h.one (w := w) [.getCall w c, .getDone w (s.waiter w).result]
      (Function.update_eq_self _ _).symm (List.append_assoc _ _ _) (by simp [Obs.waiter?]) ?_
    have h1 := (h w).read_get hx (fun c' hc' => hg c' ((State.mem_story rfl).1 hc')) c
    show Waiter.Life w (s.waiter w) _
    simpa [Obs.waiter?] using h1
  | settle _ w v x b hx hco _ hne =>
    have hl := s.settle_log w v x b
    obtain ⟨E, L, he⟩ := s.takes_frame w b
    refine h.one (w := w) _ (by rw [he]; rfl) hl (notified_waiter w w b (by simp [Obs.waiter?])) ?_
    rw [List.filter_append, notified_no_waiter]
    simpa [Obs.waiter?] using (h w).settle hx hco hne
  | resume _ c w k v x b hc _ hne =>
    have hl := s.resume_log c w v x b
    obtain ⟨E, L, he⟩ := s.takes_frame w b
    refine h.one (w := w) (o := ⟨(s.waiter w).co, v, x⟩) _ (by rw [he]; rfl) hl
      (notified_waiter w w b (by simp [Obs.waiter?])) ?_
    obtain ⟨-, hco, hx⟩ := hh.blocked hc
    rw [List.filter_append, notified_no_waiter, Waiter.result_eq]
    simpa [Obs.waiter?] using (h w).resume hx hco (hh.ne_zero hc) hne

theorem State.Initial.hist {value : SemId → ℕ} (h : s.Initial value) : s.HistInv := fun w => by
  have hnil : s.story w = [] := List.filter_eq_nil_iff.2 fun o hm => by
    obtain ⟨e, rfl⟩ := h.log o hm
    simp [Obs.waiter?]
  obtain ⟨E, C, L, Q, n, hs⟩ := h.frame
  rw [hnil, show s.waiter w = Waiter._init by rw [hs]; rfl]
  exact .new

/-! ## What a life tells -/

section
variable {o : Waiter} {l : List Obs} (h : Waiter.Life w o l)
include h

/-- A waiter is settled with what its fields hold. -/
theorem Waiter.Life.settled_eq {v x : Value} (hv : .settled w v x ∈ l) :
    v = o.value ∧ x = o.exception ∧ x ≠ .bool false := by
  cases h with
  | new | waits | failed => simp at hv
  | early _ _ hx | read _ _ _ hx | done _ _ _ _ hx | late _ _ _ hx =>
    simp only [List.mem_cons, reduceCtorEq, Obs.settled.injEq, true_and, List.not_mem_nil,
      or_false, false_or] at hv
    exact ⟨hv.1, hv.2, hv.2 ▸ hx⟩

/-- A waiter is settled once at most. -/
theorem Waiter.Life.settled_once : l.countP Obs.isSettled ≤ 1 := by
  cases h <;> simp [List.countP_cons, Obs.isSettled]

/-- A `get` ends once at most. -/
theorem Waiter.Life.done_once : l.countP Obs.isDone ≤ 1 := by
  cases h <;> simp [List.countP_cons, Obs.isDone]

/-- A `get` that ends has the result the waiter is settled with, unless it is one
    the main coroutine has called too early. -/
theorem Waiter.Life.result {r : Except Value Value} (hr : .getDone w r ∈ l)
    (hco : o.co ≠ some 0) : .settled w o.value o.exception ∈ l ∧ r = o.result := by
  cases h with
  | new | waits | early => simp at hr
  | failed | late => exact absurd rfl hco
  | read | done =>
    simp only [List.mem_cons, reduceCtorEq, Obs.getDone.injEq, true_and, List.not_mem_nil,
      or_false, false_or] at hr
    exact ⟨by simp, hr⟩

/-- The coroutine of a waiter is the one that has called its `get`. -/
theorem Waiter.Life.called {c : Co} (hc : o.co = some c) : .getCall w c ∈ l := by
  cases h with
  | new | early | read => cases hc
  | waits | failed | done | late => cases hc; simp

end

end Levent
