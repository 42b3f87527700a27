/-
  The waiters registered at the locks are those of the suspended coroutines.
-/
import Levent.Runtime.Locks

namespace Levent

variable {R : Rules} {p p' : Pend} {s s' : State}

/-! ## The waiters in use are those made -/

/-- Registered waiters, and those of the watchers, have been made; a waiter is
    used in one place. -/
structure State.FreshInv (s : State) : Prop where
  links : ∀ {y w}, w ∈ s.links y → w < s.nextWaiter
  todo : ∀ {e w}, w ∈ (s.event e).todo → w < s.nextWaiter
  wake : ∀ {x w u}, (s.watcher x).cb = some (.wake w u) → w < s.nextWaiter
  apart : ∀ {x w u y}, (s.watcher x).cb = some (.wake w u) → w ∉ s.links y
  sole : ∀ {y y' w}, w ∈ s.links y → w ∈ s.links y' → y = y'
  todoSole : ∀ {e y w}, w ∈ (s.event e).todo → w ∈ s.links y → y = .event e

theorem State.FreshInv.keep (h : s.FreshInv) (hl : ∀ y, s'.links y ⊆ s.links y)
    (ht : ∀ e w, w ∈ (s'.event e).todo → w ∈ (s.event e).todo ∨ w ∈ s.links (.event e))
    (hw : s'.watcher = s.watcher) (hn : s'.nextWaiter = s.nextWaiter) : s'.FreshInv where
  links hm := hn ▸ h.links (hl _ hm)
  todo hm := hn ▸ (ht _ _ hm).elim h.todo h.links
  wake hc := hn ▸ h.wake (hw ▸ hc)
  apart hc hm := h.apart (hw ▸ hc) (hl _ hm)
  sole hm hm' := h.sole (hl _ hm) (hl _ hm')
  todoSole hm hm' := (ht _ _ hm).elim (fun h1 => h.todoSole h1 (hl _ hm'))
    fun h1 => h.sole (hl _ hm') h1

/-- Records do not matter. -/
theorem State.FreshInv.emit (h : s.FreshInv) (o : Obs) : (s.emit o).FreshInv :=
  ⟨h.links, h.todo, h.wake, h.apart, h.sole, h.todoSole⟩

/-- A waiter leaves its `links`. -/
theorem State.FreshInv.unlink (h : s.FreshInv) (y : Sync) (w : WaiterId) :
    (s.unlink y w).FreshInv := by
  obtain ⟨E, A, M, Q, he⟩ := s.setLinks_frame ((s.links y).erase w) y
  refine h.keep (fun y' => ?_) (fun e w' hm => Or.inl ?_) (by rw [State.unlink, he])
    (by rw [State.unlink, he])
  · rw [s.unlink_links]
    split
    · rename_i hy; subst hy; exact Finset.erase_subset _ _
    · exact subset_rfl
  · rwa [State.unlink, State.setLinks_todo] at hm

/-- A waiter is made for a watcher, or for nobody yet. -/
theorem State.FreshInv.env_step {new : Option WaiterId} {s₁ : State} (h : s.FreshInv)
    (he : s₁.EnvStep new s') (hn : ∀ w, new = some w → w = s.nextWaiter)
    (h₁ : s₁.links = s.links) (h₂ : s₁.event = s.event) (h₃ : s₁.watcher = s.watcher)
    (h₄ : s.nextWaiter ≤ s₁.nextWaiter) (h₅ : new.isSome → s.nextWaiter < s₁.nextWaiter) :
    s'.FreshInv := by
  have hl : s'.links = s.links := by rw [he.eq, ← h₁]; rfl
  have hev : s'.event = s.event := by rw [he.eq, ← h₂]; rfl
  have hnx : s'.nextWaiter = s₁.nextWaiter := by rw [he.eq]; rfl
  have hwake : ∀ {x w u}, (s'.watcher x).cb = some (.wake w u) →
      (∃ x u, (s.watcher x).cb = some (.wake w u)) ∨ new = some w := fun hc => h₃ ▸ he.wake hc
  refine ⟨fun hm => ?_, fun hm => ?_, fun hc => ?_, fun hc hm => ?_, fun hm hm' => ?_,
    fun hm hm' => ?_⟩
  · rw [hl] at hm; rw [hnx]; exact (h.links hm).trans_le h₄
  · rw [hev] at hm; rw [hnx]; exact (h.todo hm).trans_le h₄
  · rw [hnx]
    rcases hwake hc with ⟨x, u, hx⟩ | hx
    · exact (h.wake hx).trans_le h₄
    · rw [hn _ hx]; exact h₅ (by simp [hx])
  · rw [hl] at hm
    rcases hwake hc with ⟨x, u, hx⟩ | hx
    · exact h.apart hx hm
    · exact absurd (h.links hm) (by rw [hn _ hx]; exact lt_irrefl _)
  · rw [hl] at hm hm'; exact h.sole hm hm'
  · rw [hev] at hm; rw [hl] at hm'; exact h.todoSole hm hm'

/-- A waiter is made and registered. -/
theorem State.FreshInv.new_link (h : s.FreshInv) (y : Sync) : (s.newLink y).FreshInv := by
  obtain ⟨E, A, M, Q, he⟩ := s.newLink_frame y
  have hn : (s.newLink y).nextWaiter = s.nextWaiter + 1 := by rw [he]; rfl
  have hw : (s.newLink y).watcher = s.watcher := by rw [he]; rfl
  have ht : ∀ e, ((s.newLink y).event e).todo = (s.event e).todo := fun e =>
    State.setLinks_todo _ _ y e
  have hl : ∀ {y' w}, w ∈ (s.newLink y).links y' →
      (w = s.nextWaiter ∧ y' = y) ∨ w ∈ s.links y' := by
    intro y' w hm
    rw [s.newLink_links] at hm
    split at hm
    · rename_i hy; subst hy; exact (Finset.mem_insert.1 hm).imp_left fun h => ⟨h, rfl⟩
    · exact Or.inr hm
  refine ⟨fun hm => ?_, fun hm => ?_, fun hc => ?_, fun hc hm => ?_, fun hm hm' => ?_,
    fun hm hm' => ?_⟩
  · rw [hn]
    rcases hl hm with ⟨rfl, -⟩ | hm
    · exact Nat.lt_succ_self _
    · exact (h.links hm).trans (Nat.lt_succ_self _)
  · rw [ht] at hm; rw [hn]; exact (h.todo hm).trans (Nat.lt_succ_self _)
  · rw [hw] at hc; rw [hn]; exact (h.wake hc).trans (Nat.lt_succ_self _)
  · rw [hw] at hc
    rcases hl hm with ⟨rfl, -⟩ | hm
    · exact absurd (h.wake hc) (lt_irrefl _)
    · exact h.apart hc hm
  · rcases hl hm with ⟨rfl, rfl⟩ | h1
    · rcases hl hm' with ⟨-, rfl⟩ | h2
      · rfl
      · exact absurd (h.links h2) (lt_irrefl _)
    · rcases hl hm' with ⟨rfl, -⟩ | h2
      · exact absurd (h.links h1) (lt_irrefl _)
      · exact h.sole h1 h2
  · rw [ht] at hm
    rcases hl hm' with ⟨rfl, rfl⟩ | hm'
    · exact absurd (h.todo hm) (lt_irrefl _)
    · exact h.todoSole hm hm'

theorem State.FreshInv.micro (hm : Micro R p s p' s') (h : s.FreshInv) : s'.FreshInv := by
  have same : ∀ {s₁ : State}, (∀ y, s₁.links y = s.links y) →
      (∀ e, (s₁.event e).todo = (s.event e).todo) → s₁.watcher = s.watcher →
      s₁.nextWaiter = s.nextWaiter → s₁.FreshInv := fun hl ht hw hn =>
    h.keep (fun y => (hl y).subset) (fun e w hm => Or.inl (ht e ▸ hm)) hw hn
  cases hm with
  | env _ _ _ he => exact h.env_step he (by simp) rfl rfl rfl le_rfl (by simp)
  | waiter _ _ he =>
    exact h.env_step he (by rintro w ⟨⟩; rfl) rfl rfl rfl (Nat.le_succ _)
      (fun _ => Nat.lt_succ_self _)
  | link _ y => exact h.new_link y
  | semRefuse _ x c t s₁ _ h₁ =>
    have h2 := (h.emit (.semCall x c (s.sem x).counter)).new_link (.sem x)
    exact (h2.env_step h₁ (by simp) rfl rfl rfl le_rfl (by simp)).emit _
  | semWaited _ x w o s₁ _ h₁ =>
    exact ((h.unlink (.sem x) w).env_step h₁ (by simp) rfl rfl rfl le_rfl (by simp)).emit _
  | unlink _ y w => exact h.unlink y w
  | emit | semPass | post | pop | kill | assertGet | settledGet | goOn | answer | returned | failed
  | mainDone | enter | begin | start | rawCreate | spawn | block | mainGet =>
    exact same (fun _ => rfl) (fun _ => rfl) rfl rfl
  | eventSet _ e =>
    obtain ⟨E, C, L, he, -⟩ := Event.set_frame s e
    refine h.keep (fun y => (Event.set_links s e y).subset) (fun e' w hm => ?_)
      (by rw [he]) (by rw [he])
    rw [Event.set_todo] at hm
    split at hm
    · rename_i hee; subst hee; exact Finset.mem_union.1 hm
    · exact Or.inl hm
  | eventClear _ e => exact same (Event.clear_links s e) (Event.clear_todo s e) rfl rfl
  | asyncSet _ _ _ _ _ hs =>
    have hl := AsyncResult._set_links s hs
    obtain ⟨A, C, rfl, -⟩ := AsyncResult._set_frame s hs
    exact same hl (fun _ => rfl) rfl rfl
  | semRelease _ x =>
    have hl := Semaphore.release_links s x
    obtain ⟨M, C, L, he, -⟩ := Semaphore.release_frame s x
    exact same hl (fun _ => by rw [he]) (by rw [he]) (by rw [he])
  | semAcquire _ x => exact same (s.setSem_links x _ (by rfl)) (fun _ => rfl) rfl rfl
  | put _ q item =>
    have hl := Queue._put_links s q item
    have ht := Queue._put_todo s q item
    obtain ⟨Q, E, C, L, he, -⟩ := Queue._put_frame s q item
    exact same hl ht (by rw [he]; rfl) (by rw [he]; rfl)
  | get _ _ _ _ hs =>
    have hl := Queue._get_links s hs
    obtain ⟨Q, C, L, rfl, -⟩ := Queue._get_frame s hs
    exact same hl (fun _ => rfl) rfl rfl
  | endNotify _ y =>
    obtain ⟨E, Q, he⟩ := endNotify_frame s y
    exact same (endNotify_links s y) (endNotify_todo s y) (by rw [he]) (by rw [he])
  | abort _ y w =>
    obtain ⟨E, L, he⟩ := s.takes_frame w (some y)
    refine h.keep (fun y' => (s.takes_links w (some y) y').subset)
      (fun e w' hm => Or.inl (s.takes_todo_subset w (some y) e hm)) (by rw [he]; rfl) (by rw [he]; rfl)
  | settle _ w v e b =>
    obtain ⟨E, L, he⟩ := s.takes_frame w b
    refine h.keep (fun y' => (s.takes_links w b y').subset)
      (fun e w' hm => Or.inl (s.takes_todo_subset w b e hm)) (by rw [he]; rfl) (by rw [he]; rfl)
  | resume _ c w k v e b =>
    obtain ⟨E, L, he⟩ := s.takes_frame w b
    refine h.keep (fun y' => (s.takes_links w b y').subset)
      (fun e w' hm => Or.inl (s.takes_todo_subset w b e hm)) (by rw [he]; rfl) (by rw [he]; rfl)

/-! ## Registered waiters and suspended coroutines -/

/-- `c` is suspended in a call whose waiter `w` is registered at `y`. -/
def State.BlockedAt (s : State) (y : Sync) (w : WaiterId) : Prop :=
  ∃ c k, s.mode c = .blocked w k ∧ k.sync = some y

theorem State.BlockedAt.mono {y : Sync} (h : s.BlockedAt y w)
    (hm : ∀ c k, s.mode c = .blocked w k → s'.mode c = .blocked w k) : s'.BlockedAt y w := by
  obtain ⟨c, k, hc, hk⟩ := h
  exact ⟨c, k, hm c k hc, hk⟩

/-- A coroutine that is not suspended changes its mode. -/
theorem update_mode_blocked {c : Co} {m : Mode} (hb : ∀ w k, s.mode c ≠ .blocked w k)
    (hs : s'.mode = Function.update s.mode c m) (c' : Co) (w : WaiterId) (k : Call)
    (hc : s.mode c' = .blocked w k) : s'.mode c' = .blocked w k := by
  have hcc : c' ≠ c := by rintro rfl; exact hb w k hc
  rw [hs, Function.update_of_ne hcc]; exact hc

/-- The waiters registered at `y` are those of the coroutines suspended there,
    and the one whose call is being executed. -/
structure State.LinkInv (p : Pend) (s : State) : Prop where
  linked : ∀ {y w}, (∀ x, y ≠ .sem x) → (w ∈ s.links y ↔ s.BlockedAt y w ∨ p = some (y, w))
  pend : ∀ {y w}, p = some (y, w) → ∀ c k, s.mode c ≠ .blocked w k

/-- The waiters settled for a registered waiter's coroutine are not settled yet. -/
theorem State.LinkInv.unsettled (h : s.LinkInv none) (hh : s.HubInv) {y : Sync} {w : WaiterId}
    (hy : ∀ x, y ≠ .sem x) (hw : w ∈ s.links y) : (s.waiter w).exception = .bool false := by
  rcases (h.linked hy).1 hw with ⟨c, k, hc, -⟩ | hp
  · exact (hh.blocked hc).2.2
  · cases hp

theorem State.LinkInv.keep (h : s.LinkInv p) (hl : ∀ y, (∀ x, y ≠ .sem x) → s'.links y = s.links y)
    (hm : ∀ c w k, s'.mode c = .blocked w k ↔ s.mode c = .blocked w k) : s'.LinkInv p where
  linked {y w} hy := by
    rw [hl y hy, h.linked hy]
    simp only [State.BlockedAt, hm]
  pend hp c k hk := h.pend hp c k ((hm c _ k).1 hk)

/-- A coroutine that is not suspended in a `get` changes its mode. -/
theorem State.LinkInv.set_mode (h : s.LinkInv p) {c : Co} {m : Mode}
    (hl : ∀ y, s'.links y = s.links y) (hs : s'.mode = Function.update s.mode c m)
    (hb : ∀ w k, s.mode c ≠ .blocked w k) (hm : ∀ w k, m ≠ .blocked w k) : s'.LinkInv p :=
  h.keep (fun y _ => hl y) fun c' w k => by rw [hs]; exact update_blocked hb hm

theorem State.LinkInv.new_link (h : s.LinkInv none) (hh : s.HubInv) (y : Sync) :
    (s.newLink y).LinkInv (some (y, s.nextWaiter)) := by
  have hm : (s.newLink y).mode = s.mode := by
    obtain ⟨E, A, M, Q, he⟩ := s.newLink_frame y
    rw [he]; rfl
  refine ⟨fun {y' w} hy => ?_, fun {y' w} hp c k hk => ?_⟩
  · have h1 := h.linked (w := w) hy
    simp only [reduceCtorEq, or_false] at h1
    rw [s.newLink_links]
    simp only [State.BlockedAt, hm, Option.some.injEq, Prod.mk.injEq]
    split
    · rename_i hyy
      subst hyy
      rw [Finset.mem_insert, h1]
      simp only [State.BlockedAt, true_and]
      exact or_comm.trans (or_congr_right eq_comm)
    · rename_i hyy
      rw [h1]
      simp [State.BlockedAt, Ne.symm hyy]
  · cases hp
    rw [hm] at hk
    have h1 := (hh.blocked hk).2.1
    rw [hh.fresh le_rfl] at h1; cases h1

theorem Call.pend_eq {k : Call} {w w' : WaiterId} {y : Sync} :
    k.pend w = some (y, w') ↔ k.sync = some y ∧ w = w' := by
  simp [Call.pend]

theorem State.LinkInv.block {c : Co} {k : Call} {w : WaiterId} (h : s.LinkInv (k.pend w))
    (ht : s.Turn c) : (s.block c w k).LinkInv none := by
  refine ⟨fun {y w'} hy => ?_, fun hp => by cases hp⟩
  rw [show (s.block c w k).links y = s.links y from rfl, h.linked hy, Call.pend_eq]
  simp only [State.BlockedAt, reduceCtorEq, or_false]
  constructor
  · rintro (⟨c', k', hc', hk'⟩ | ⟨hk, rfl⟩)
    · have hcc : c' ≠ c := by rintro rfl; rw [ht.1] at hc'; cases hc'
      exact ⟨c', k', by simpa [State.block, hcc] using hc', hk'⟩
    · exact ⟨c, k, by simp [State.block], hk⟩
  · rintro ⟨c', k', hc', hk'⟩
    by_cases hcc : c' = c
    · subst hcc
      simp only [State.block, Function.update_self, Mode.blocked.injEq] at hc'
      obtain ⟨rfl, rfl⟩ := hc'
      exact Or.inr ⟨hk', rfl⟩
    · exact Or.inl ⟨c', k', by simpa [State.block, hcc] using hc', hk'⟩

theorem State.LinkInv.resume {c : Co} {k : Call} {w : WaiterId} {v e : Value} (h : s.LinkInv none)
    (hh : s.HubInv) (hc : s.mode c = .blocked w k) : (s.resume c w v e).LinkInv (k.pend w) := by
  have hm : (s.resume c w v e).mode = Function.update s.mode c .running := rfl
  refine ⟨fun {y w'} hy => ?_, fun {y w'} hp c' k' hc' => ?_⟩
  · rw [show (s.resume c w v e).links y = s.links y from rfl, h.linked hy, Call.pend_eq]
    simp only [State.BlockedAt, hm, reduceCtorEq, or_false]
    constructor
    · rintro ⟨c', k', hc', hk'⟩
      by_cases hcc : c' = c
      · subst hcc; rw [hc] at hc'; cases hc'; exact Or.inr ⟨hk', rfl⟩
      · exact Or.inl ⟨c', k', by simpa [hcc] using hc', hk'⟩
    · rintro (⟨c', k', hc', hk'⟩ | ⟨hk, rfl⟩)
      · have hcc : c' ≠ c := by rintro rfl; simp at hc'
        exact ⟨c', k', by simpa [hcc] using hc', hk'⟩
      · exact ⟨c, k, hc, hk⟩
  · obtain ⟨-, rfl⟩ := Call.pend_eq.1 hp
    have hcc : c' ≠ c := by rintro rfl; simp [hm] at hc'
    rw [hm, Function.update_of_ne hcc] at hc'
    exact hcc (hh.blocked_inj hc' hc).1

theorem State.LinkInv.unlink {y : Sync} {w : WaiterId} (h : s.LinkInv (some (y, w))) :
    (s.unlink y w).LinkInv none := by
  have hm : (s.unlink y w).mode = s.mode := by
    obtain ⟨E, A, M, Q, he⟩ := s.setLinks_frame ((s.links y).erase w) y
    rw [State.unlink, he]
  refine ⟨fun {y' w'} hy => ?_, fun hp => by cases hp⟩
  have h1 := h.linked (w := w') hy
  rw [s.unlink_links]
  simp only [State.BlockedAt, hm, reduceCtorEq, or_false]
  split
  · rename_i hyy
    subst hyy
    rw [Finset.mem_erase, h1]
    constructor
    · rintro ⟨hw, hb | hp⟩
      · exact hb
      · cases hp; exact absurd rfl hw
    · rintro ⟨c, k, hc, hk⟩
      refine ⟨?_, Or.inl ⟨c, k, hc, hk⟩⟩
      rintro rfl; exact h.pend rfl c k hc
  · rename_i hyy
    rw [h1]
    simp [State.BlockedAt, Ne.symm hyy]

theorem State.LinkInv.micro (hm : Micro R p s p' s') (hh : s.HubInv) (hp : s.PoolInv)
    (h : s.LinkInv p) : s'.LinkInv p' := by
  cases hm with
  | env _ _ _ he => rw [he.eq]; exact h.keep (fun _ _ => rfl) fun _ _ _ => Iff.rfl
  | waiter _ _ he => rw [he.eq]; exact h.keep (fun _ _ => rfl) fun _ _ _ => Iff.rfl
  | link _ y => exact h.new_link hh y
  | unlink => exact h.unlink
  | block _ c w k ht => exact h.block ht
  | semRefuse _ x c t s₁ _ h₁ =>
    have hl := (s.emit (.semCall x c (s.sem x).counter)).newLink_links (.sem x)
    obtain ⟨E, A, M, Q, he⟩ := (s.emit (.semCall x c (s.sem x).counter)).newLink_frame (.sem x)
    refine h.keep (fun y hy => ?_) fun c w k => by rw [h₁.eq, he]; rfl
    rw [h₁.eq]
    exact (hl y).trans (if_neg (hy x))
  | semWaited _ x w o s₁ _ h₁ =>
    rw [h₁.eq]; exact h.unlink.keep (fun _ _ => rfl) fun _ _ _ => Iff.rfl
  | emit | semPass | post | pop | kill | assertGet | settledGet | mainDone | enter | begin | mainGet =>
    exact h.keep (fun _ _ => rfl) fun _ _ _ => Iff.rfl
  | eventSet _ e =>
    obtain ⟨E, C, L, he, -⟩ := Event.set_frame s e
    exact h.keep (fun y _ => Event.set_links s e y) fun c w k => by rw [he]
  | eventClear _ e => exact h.keep (fun y _ => Event.clear_links s e y) fun _ _ _ => Iff.rfl
  | asyncSet _ _ _ _ _ hs =>
    have hl := AsyncResult._set_links s hs
    obtain ⟨A, C, rfl, -⟩ := AsyncResult._set_frame s hs
    exact h.keep (fun y _ => hl y) fun _ _ _ => Iff.rfl
  | semRelease _ x =>
    obtain ⟨M, C, L, he, -⟩ := Semaphore.release_frame s x
    exact h.keep (fun y _ => Semaphore.release_links s x y) fun c w k => by rw [he]
  | semAcquire _ x => exact h.keep (fun y _ => s.setSem_links x _ (by rfl) y) fun _ _ _ => Iff.rfl
  | put _ q item =>
    obtain ⟨Q, E, C, L, he, -⟩ := Queue._put_frame s q item
    exact h.keep (fun y _ => Queue._put_links s q item y) fun c w k => by rw [he]; rfl
  | get _ _ _ _ hs =>
    have hl := Queue._get_links s hs
    obtain ⟨Q, C, L, rfl, -⟩ := Queue._get_frame s hs
    exact h.keep (fun y _ => hl y) fun _ _ _ => Iff.rfl
  | endNotify _ y =>
    obtain ⟨E, Q, he⟩ := endNotify_frame s y
    exact h.keep (fun y' _ => endNotify_links s y y') fun c w k => by rw [he]
  | abort _ y w =>
    obtain ⟨E, L, he⟩ := s.takes_frame w (some y)
    exact h.keep (fun y' _ => s.takes_links w (some y) y') fun c w' k => by rw [he]; rfl
  | settle _ w v e b =>
    obtain ⟨E, L, he⟩ := s.takes_frame w b
    exact h.keep (fun y' _ => s.takes_links w b y') fun c w' k => by rw [he]; rfl
  | resume _ c w k v e b hc =>
    have h1 : (s.takes w b).LinkInv none := by
      obtain ⟨E, L, he⟩ := s.takes_frame w b
      exact h.keep (fun y' _ => s.takes_links w b y') fun c w' k => by rw [he]
    have h2 : (s.takes w b).HubInv := by
      obtain ⟨E, L, he⟩ := s.takes_frame w b
      rw [he]; exact hh
    refine h1.resume h2 ?_
    obtain ⟨E, L, he⟩ := s.takes_frame w b
    rw [he]; exact hc
  | goOn _ c m ht ha =>
    exact h.set_mode (fun _ => rfl) rfl (by simp [ht.1]) (by rintro w k rfl; exact ha)
  | answer _ c i f _ hf => exact h.set_mode (fun _ => rfl) rfl (by simp [hf]) (by simp)
  | returned _ c ht => exact h.set_mode (fun _ => rfl) rfl (by simp [ht.1]) (by simp)
  | failed _ c v ht =>
    exact h.set_mode (m := .dead) (fun _ => rfl) rfl (by simp [ht.1]) (by simp)
  | start _ c f _ _ _ _ hc => exact h.set_mode (m := .running) (fun _ => rfl) rfl (by simp [hc]) (by simp)
  | rawCreate =>
    have hu : s.mode (s.total + 1) = .unused := hp.unused.2 (Nat.lt_succ_self _)
    exact h.set_mode (m := .pooled) (fun _ => rfl) rfl (by simp [hu]) (by simp)
  | spawn _ co _ _ hc =>
    exact h.set_mode (m := .ready (some s.nextTask)) (fun _ => rfl) rfl (by simp [hc]) (by simp)

end Levent
