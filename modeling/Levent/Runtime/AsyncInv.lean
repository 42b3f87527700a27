/-
  An `AsyncResult` and its notification, and what the hub throws.
-/
import Levent.Runtime.Runs

namespace Levent

variable {R : Rules} {p p' : Pend} {s s' : State} {a : AsyncId}

/-! ## What a micro step does to an `AsyncResult` -/

/-- Its notification is queued. -/
def State.Queued (s : State) (a : AsyncId) : Prop := .notify (.async a) ∈ s.callbacks

/-- Neither its result nor its notification changes, and no getter comes to it
    once it is set. -/
structure State.AsyncKept (s : State) (a : AsyncId) (s' : State) : Prop where
  links : (s'.async a).links ⊆ (s.async a).links ∨ (s.async a).exception = .bool false
  value : (s'.async a).value = (s.async a).value
  exception : (s'.async a).exception = (s.async a).exception
  queued : s'.Queued a ↔ s.Queued a
  main : s'.main = .notify (.async a) ↔ s.main = .notify (.async a)

inductive State.AsyncStep (R : Rules) (s : State) (a : AsyncId) (s' : State) : Prop
  | kept : s.AsyncKept a s' → AsyncStep R s a s'
  | set (v x) : R.set a v x → (s.async a).exception = .bool false → s'.Queued a →
      s'.async a = { s.async a with value := v, exception := x } → AsyncStep R s a s'
  | begun : s.Queued a → s'.main = .notify (.async a) → s'.async a = s.async a → AsyncStep R s a s'
  | ended : s.main = .notify (.async a) → (s.async a).links = ∅ → s'.async a = s.async a →
      s'.main ≠ .notify (.async a) → s'.callbacks = s.callbacks → AsyncStep R s a s'

/-- The object and its notification are left alone. -/
theorem State.AsyncStep.of_eq (ha : s'.async a = s.async a) (hc : s'.Queued a ↔ s.Queued a)
    (hm : s'.main = .notify (.async a) ↔ s.main = .notify (.async a)) : s.AsyncStep R a s' :=
  .kept ⟨Or.inl (by rw [ha]), by rw [ha], by rw [ha], hc, hm⟩

theorem State.setLinks_async (s : State) (L : Finset WaiterId) (y : Sync) (a : AsyncId) :
    ((s.setLinks L y).async a).value = (s.async a).value ∧
      ((s.setLinks L y).async a).exception = (s.async a).exception := by
  cases y with
  | async a' =>
    by_cases h : a = a'
    · subst h
      simp [State.setLinks, State.setAsync]
    · simp [State.setLinks, State.setAsync, h]
  | event | sem | put | get => exact ⟨rfl, rfl⟩

/-- Another callback comes. -/
theorem State.queued_append {cb : Callback} (hc : s'.callbacks = s.callbacks ++ [cb])
    (hcb : cb ≠ .notify (.async a)) : s'.Queued a ↔ s.Queued a := by
  rw [State.Queued, State.Queued, hc, List.mem_append, List.mem_singleton]
  exact or_iff_left (Ne.symm hcb)

/-- Another notification comes, if one does. -/
theorem State.queued_arm {y : Sync} {arms : Bool}
    (hc : s'.callbacks = if arms then s.callbacks ++ [.notify y] else s.callbacks)
    (hy : y ≠ .async a) : s'.Queued a ↔ s.Queued a := by
  cases arms with
  | false => rw [State.Queued, hc]; rfl
  | true => exact State.queued_append hc (by simpa using hy)

/-- Another callback goes. -/
theorem State.queued_cons {cb : Callback} (hc : s.callbacks = cb :: s'.callbacks)
    (hcb : cb ≠ .notify (.async a)) : s'.Queued a ↔ s.Queued a := by
  rw [State.Queued, State.Queued, hc, List.mem_cons]
  exact (or_iff_right (Ne.symm hcb)).symm

/-- **What a micro step does to an `AsyncResult`**, if its getters' waiters are
    not settled. -/
theorem Micro.async_step (hm : Micro R p s p' s')
    (hlive : p = none → ∀ w ∈ (s.async a).links, (s.waiter w).exception = .bool false) :
    s.AsyncStep R a s' := by
  cases hm with
  | env _ _ _ he => rw [he.eq]; exact .of_eq rfl Iff.rfl Iff.rfl
  | waiter _ _ he => rw [he.eq]; exact .of_eq rfl Iff.rfl Iff.rfl
  | emit | goOn | answer | returned | failed | rawCreate | semAcquire | semPass | assertGet | block
  | mainGet | settledGet | eventClear => exact .of_eq rfl Iff.rfl Iff.rfl
  | mainDone _ ht => exact .of_eq rfl Iff.rfl (by simp [ht.zero.2])
  | enter _ hb => exact .of_eq rfl Iff.rfl (by simp [hb.1])
  | post _ cb hcb =>
    refine .of_eq rfl (State.queued_append rfl ?_) Iff.rfl
    rintro rfl
    exact hcb
  | pop _ cb cbs _ hcb hq =>
    refine .of_eq rfl (State.queued_cons hq ?_) Iff.rfl
    rintro rfl
    exact hcb
  | kill _ c e target cbs w _ hq => exact .of_eq rfl (State.queued_cons hq (by simp)) Iff.rfl
  | start _ c f args cbs _ hq => exact .of_eq rfl (State.queued_cons hq (by simp)) Iff.rfl
  | spawn _ co args => exact .of_eq rfl (State.queued_append rfl (by simp)) Iff.rfl
  | begin _ y cbs hb hq =>
    by_cases hy : y = .async a
    · subst hy
      exact .begun (by rw [State.Queued, hq]; exact List.mem_cons_self) rfl rfl
    · exact .of_eq rfl (State.queued_cons hq (by simpa using hy)) (by simp [hb.1, hy])
  | endNotify _ y hmain _ _ _ _ hlinks =>
    obtain ⟨E, Q, he⟩ := endNotify_frame s y
    by_cases hy : y = .async a
    · subst hy
      exact .ended hmain (hlinks a rfl) (by rw [he]) (by rw [he]; simp) (by rw [he])
    · rw [he]
      exact .of_eq rfl Iff.rfl (by simp [hmain, hy])
  | abort _ y w hmain _ hw hx =>
    have hy : y ≠ .async a := by
      rintro rfl
      exact hx (hlive rfl w hw)
    obtain ⟨E, L, he⟩ := s.takes_frame w (some y)
    rw [he]
    exact .of_eq rfl Iff.rfl (by simp [State.emit, hmain, hy])
  | eventSet _ e =>
    have hc := Event.set_callbacks s e
    obtain ⟨E, C, L, he, -⟩ := Event.set_frame s e
    refine .of_eq (by rw [he]) ?_ (by rw [he])
    split at hc
    · rw [State.Queued, hc]; rfl
    · exact State.queued_append hc (by simp)
  | asyncSet _ a' v x _ hs hr =>
    obtain ⟨hx, rfl⟩ := AsyncResult._set_ok.1 hs
    by_cases ha : a' = a
    · subst ha
      refine .set v x hr hx ?_ ?_
      · simp [State.Queued, Loop.runCallback]
      · simp [Loop.runCallback, State.setAsync]
    · refine .of_eq ?_ (State.queued_append rfl (by simpa using ha)) Iff.rfl
      simp [Loop.runCallback, State.setAsync, Ne.symm ha]
  | semRelease _ x =>
    have hc := Semaphore.release_callbacks s x
    obtain ⟨M, C, L, he, -⟩ := Semaphore.release_frame s x
    exact .of_eq (by rw [he]) (State.queued_arm hc (by simp)) (by rw [he])
  | put _ q item =>
    have hc := Queue._put_callbacks s q item
    obtain ⟨Q, E, C, L, he, -⟩ := Queue._put_frame s q item
    exact .of_eq (by rw [he]; rfl) (State.queued_arm hc (by simp)) (by rw [he]; rfl)
  | get _ q item _ hs =>
    have hc := Queue._get_callbacks s hs
    obtain ⟨Q, C, L, rfl, -⟩ := Queue._get_frame s hs
    exact .of_eq rfl (State.queued_arm hc (by simp)) Iff.rfl
  | semRefuse _ x c t s₁ _ h₁ =>
    have ha : ((s.emit (.semCall x c (s.sem x).counter)).newLink (.sem x)).async = s.async := rfl
    obtain ⟨E, A, M, Q, he⟩ := (s.emit (.semCall x c (s.sem x).counter)).newLink_frame (.sem x)
    rw [he] at h₁ ha
    rw [h₁.eq]
    exact .of_eq (congrFun ha a) Iff.rfl Iff.rfl
  | semWaited _ x w o s₁ _ h₁ => rw [h₁.eq]; exact .of_eq rfl Iff.rfl Iff.rfl
  | link _ y hy _ _ hasync =>
    obtain ⟨hv, hx⟩ := (Hub.waiter s).2.setLinks_async (insert s.nextWaiter (s.links y)) y a
    have hl := s.newLink_links y (.async a)
    obtain ⟨E, A, M, Q, he⟩ := s.newLink_frame y
    refine .kept ⟨?_, hv, hx, by rw [he]; exact Iff.rfl, by rw [he]; exact Iff.rfl⟩
    by_cases hya : y = .async a
    · exact Or.inr (hasync a hya)
    · exact Or.inl (hl.trans (if_neg (Ne.symm hya))).subset
  | unlink _ y w =>
    obtain ⟨hv, hx⟩ := s.setLinks_async ((s.links y).erase w) y a
    have hl := s.unlink_links y w (.async a)
    obtain ⟨E, A, M, Q, he⟩ := s.setLinks_frame ((s.links y).erase w) y
    refine .kept ⟨Or.inl ?_, hv, hx, by rw [State.unlink, he]; exact Iff.rfl,
      by rw [State.unlink, he]⟩
    refine hl.subset.trans ?_
    split
    · rename_i hy
      subst hy
      exact Finset.erase_subset _ _
    · exact subset_rfl
  | settle _ w v e b =>
    obtain ⟨E, L, he⟩ := s.takes_frame w b
    rw [he]
    exact .of_eq rfl Iff.rfl Iff.rfl
  | resume _ c w k v e b =>
    obtain ⟨E, L, he⟩ := s.takes_frame w b
    rw [he]
    exact .of_eq rfl Iff.rfl Iff.rfl

/-! ## Invariants -/

/-- The notification of an `AsyncResult` is queued, or runs, from its `set` until
    no getter waits any more; then none comes. -/
structure State.AsyncInv (s : State) (a : AsyncId) (p : Pend) : Prop where
  linked : s.LinkInv p
  asleep : (s.async a).exception ≠ .bool false → (s.async a).links.Nonempty →
    s.Queued a ∨ s.main = .notify (.async a)
  set : s.Queued a ∨ s.main = .notify (.async a) → (s.async a).exception ≠ .bool false

/-- A result that is set is set. -/
def Rules.SetsTrue (R : Rules) : Prop := ∀ a v x, R.set a v x → x ≠ .bool false

theorem State.AsyncInv.live (h : s.AsyncInv a p) (hh : s.HubInv) (hp : p = none) :
    ∀ w ∈ (s.async a).links, (s.waiter w).exception = .bool false := by
  subst hp
  intro w hw
  exact h.linked.unsettled hh (y := .async a) (by simp) hw

theorem State.AsyncInv.micro (hm : Micro R p s p' s') (hR : R.SetsTrue) (hs : s.Sound)
    (h : s.AsyncInv a p) : s'.AsyncInv a p' := by
  have hlinked := h.linked.micro hm hs.hub hs.pool
  cases hm.async_step (h.live hs.hub) with
  | kept hk =>
    refine ⟨hlinked, ?_, ?_⟩
    · intro hx hne
      rw [hk.exception] at hx
      rcases hk.links with hl | hl
      · exact (h.asleep hx (hne.mono hl)).imp hk.queued.2 hk.main.2
      · exact absurd hl hx
    · intro hq
      rw [hk.exception]
      exact h.set (hq.imp hk.queued.1 hk.main.1)
  | set v x hr _ hq ha =>
    have hx : (s'.async a).exception ≠ .bool false := by
      rw [ha]
      exact hR a v x hr
    exact ⟨hlinked, fun _ _ => Or.inl hq, fun _ => hx⟩
  | begun hq hmain ha =>
    refine ⟨hlinked, fun _ _ => Or.inr hmain, fun _ => ?_⟩
    rw [ha]
    exact h.set (Or.inl hq)
  | ended hmain hl ha hne hc =>
    refine ⟨hlinked, ?_, fun _ => ?_⟩
    · intro _ hne
      rw [ha, hl] at hne
      exact absurd hne (by simp)
    · rw [ha]
      exact h.set (Or.inr hmain)

theorem State.Initial.async {value : SemId → ℕ} (h : s.Initial value) (a : AsyncId) :
    s.AsyncInv a none := by
  obtain ⟨E, C, L, Q, n, hs⟩ := h.frame
  have hasync : s.async a = AsyncResult._init := by rw [hs]; rfl
  refine ⟨h.linked, ?_, ?_⟩
  · intro hx
    rw [hasync] at hx
    exact absurd rfl hx
  · rintro (hq | hm)
    · obtain ⟨e, he⟩ := h.callbacks _ hq
      cases he
    · rw [hs] at hm
      cases hm

/-- The watchers throw timeouts at the ends of their timers, and the callbacks
    kills. -/
structure State.ThrowInv (s : State) : Prop where
  watcher : ∀ {x c e}, (s.watcher x).cb = some (.throw c e) → ∃ t, x = .timeout t ∧ e = .timeout t
  callback : ∀ {c e f}, .throw c e f ∈ s.callbacks → e = .kill

theorem State.ThrowInv.keep (h : s.ThrowInv) (hw : s'.watcher = s.watcher)
    (hc : ∀ {c e f}, .throw c e f ∈ s'.callbacks → .throw c e f ∈ s.callbacks) : s'.ThrowInv where
  watcher hx := h.watcher (hw ▸ hx)
  callback hm := h.callback (hc hm)

theorem State.ThrowInv.env {new : Option WaiterId} (h : s.ThrowInv) (he : s.EnvStep new s') :
    s'.ThrowInv where
  watcher hx := (he.throw hx).elim h.watcher id
  callback hm := by
    rw [he.eq] at hm
    exact h.callback hm

theorem State.ThrowInv.micro (hm : Micro R p s p' s') (h : s.ThrowInv) : s'.ThrowInv := by
  cases hm with
  | env _ _ _ he => exact h.env he
  | waiter _ _ he =>
    have h₀ : (Hub.waiter s).2.ThrowInv := h.keep rfl id
    exact h₀.env he
  | semRefuse _ x c t s₁ _ h₁ =>
    have h₀ : ((s.emit (.semCall x c (s.sem x).counter)).newLink (.sem x)).ThrowInv := h.keep rfl id
    exact (h₀.env h₁).keep rfl id
  | semWaited _ x w o s₁ _ h₁ =>
    have h₀ : (s.unlink (.sem x) w).ThrowInv := h.keep rfl id
    exact (h₀.env h₁).keep rfl id
  | emit | goOn | answer | returned | failed | rawCreate | semAcquire | semPass | assertGet | block
  | mainGet | settledGet | eventClear | mainDone | enter => exact h.keep rfl id
  | post _ cb _ _ hk =>
    refine ⟨h.watcher, ?_⟩
    intro c e f hm
    rcases List.mem_append.1 hm with hm | hm
    · exact h.callback hm
    · exact hk c e f (List.mem_singleton.1 hm).symm
  | pop _ cb cbs _ _ hq | begin _ y cbs _ hq | kill _ c e target cbs w _ hq
  | start _ c f args cbs _ hq =>
    exact h.keep rfl fun hm => by rw [hq]; exact List.mem_cons_of_mem _ hm
  | spawn => exact h.keep rfl fun hm => by simpa [State.spawned, Loop.runCallback, State.setMode] using hm
  | endNotify _ y =>
    obtain ⟨E, Q, he⟩ := endNotify_frame s y
    rw [he]
    exact h.keep rfl id
  | abort _ y w =>
    obtain ⟨E, L, he⟩ := s.takes_frame w (some y)
    rw [he]
    exact h.keep rfl id
  | eventSet _ e =>
    obtain ⟨E, C, L, he, hC⟩ := Event.set_frame s e
    rw [he]
    exact h.keep rfl hC.throw
  | asyncSet _ _ _ _ _ hs =>
    obtain ⟨A, C, rfl, hC⟩ := AsyncResult._set_frame s hs
    exact h.keep rfl hC.throw
  | semRelease _ x =>
    obtain ⟨M, C, L, he, hC⟩ := Semaphore.release_frame s x
    rw [he]
    exact h.keep rfl hC.throw
  | put _ q item =>
    obtain ⟨Q, E, C, L, he, hC⟩ := Queue._put_frame s q item
    rw [he]
    exact h.keep rfl hC.throw
  | get _ q item _ hs =>
    obtain ⟨Q, C, L, rfl, hC⟩ := Queue._get_frame s hs
    exact h.keep rfl hC.throw
  | link _ y =>
    obtain ⟨E, A, M, Q, he⟩ := s.newLink_frame y
    rw [he]
    exact h.keep rfl id
  | unlink _ y w =>
    obtain ⟨E, A, M, Q, he⟩ := s.setLinks_frame ((s.links y).erase w) y
    rw [State.unlink, he]
    exact h.keep rfl id
  | settle _ w v e b =>
    obtain ⟨E, L, he⟩ := s.takes_frame w b
    rw [he]
    exact h.keep rfl id
  | resume _ c w k v e b =>
    obtain ⟨E, L, he⟩ := s.takes_frame w b
    rw [he]
    exact h.keep rfl id

theorem State.Initial.throw {value : SemId → ℕ} (h : s.Initial value) : s.ThrowInv where
  watcher hx := by
    obtain ⟨E, C, L, Q, n, hs⟩ := h.frame
    rw [hs] at hx
    cases hx
  callback hm := by
    obtain ⟨e, he⟩ := h.callbacks _ hm
    cases he

end Levent
