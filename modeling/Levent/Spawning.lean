/-
  `levent.spawn`: the tasks start in the order in which they are spawned, each
  at most once and with its own arguments.
-/
import Levent.Runtime.Runs

namespace Levent

open Lib (Along run collect)

variable {R : Rules} {p p' : Pend} {s s' t : State} {value : SemId → ℕ}
  {maxsizes : List (Option ℤ)} {as : List Act} {c : Co}

/-! ## Starts -/

/-- The task that has started here, with its arguments. -/
def Obs.start : Obs → Option (TaskId × List Value)
  | .started (some f) args => some (f, args)
  | _ => none

/-- The task that the callback will start. -/
def Callback.start (mode : Co → Mode) : Callback → Option (TaskId × List Value)
  | .resume c args =>
    match mode c with
    | .ready (some f) => some (f, args)
    | _ => none
  | _ => none

def State.started (s : State) : List (TaskId × List Value) := s.log.filterMap Obs.start

def State.queued (s : State) : List (TaskId × List Value) := s.callbacks.filterMap (Callback.start s.mode)

/-- The tasks that have started, and then those that will. -/
def State.starts (s : State) : List (TaskId × List Value) := s.started ++ s.queued

/-- A coroutine in this mode waits for no task to start. -/
def Mode.Unready (m : Mode) : Prop := ∀ f, m ≠ .ready (some f)

theorem Callback.start_update {mode : Co → Mode} {m : Mode} {cb : Callback}
    (h : ∀ args, cb = .resume c args → (mode c).Unready ∧ m.Unready) :
    cb.start (Function.update mode c m) = cb.start mode := by
  cases cb with
  | resume c' args =>
    by_cases hc : c' = c
    · subst hc
      obtain ⟨h1, h2⟩ := h args rfl
      have hnone : ∀ m' : Mode, m'.Unready → (match m' with
          | .ready (some f) => some (f, args)
          | _ => none) = (none : Option (TaskId × List Value)) := by
        intro m' hm'
        split
        · rename_i f
          exact absurd rfl (hm' f)
        · rfl
      simp only [Callback.start, Function.update_self]
      rw [hnone _ h1, hnone _ h2]
    · simp only [Callback.start, Function.update_of_ne hc]
  | notify | throw | cancelWait | user => rfl

/-- A coroutine for which no start is queued may change. -/
theorem queued_update {mode : Co → Mode} {m : Mode} {cbs : List Callback}
    (h : c ∈ resumed cbs → (mode c).Unready ∧ m.Unready) :
    cbs.filterMap (Callback.start (Function.update mode c m)) = cbs.filterMap (Callback.start mode) := by
  refine List.filterMap_congr fun cb hcb => Callback.start_update fun args he => h ?_
  subst he
  exact List.mem_filterMap.2 ⟨_, hcb, rfl⟩

theorem Notified.queued {l l' : List Callback} (h : Notified l l') (mode : Co → Mode) :
    l'.filterMap (Callback.start mode) = l.filterMap (Callback.start mode) := by
  rcases h with rfl | ⟨y, rfl⟩
  · rfl
  · simp [Callback.start]

theorem Callback.Plain.start {cb : Callback} (h : cb.Plain) (mode : Co → Mode) : cb.start mode = none := by
  cases cb with
  | throw | cancelWait | user => rfl
  | notify | resume => exact h.elim

/-! ## One step -/

/-- Nothing starts and nothing is to be started anew. -/
theorem State.starts_keep (os : List Obs) (hl : s'.log = s.log ++ os) (ho : ∀ o ∈ os, o.start = none)
    (hq : s'.queued = s.queued) : s'.starts = s.starts := by
  have hnil : os.filterMap Obs.start = [] := List.filterMap_eq_nil_iff.2 ho
  rw [State.starts, State.starts, hq, State.started, hl, List.filterMap_append, hnil, List.append_nil]
  rfl

/-- A task is queued behind all others, or the tasks stay the same. -/
theorem State.starts_micro (hm : Micro R p s p' s') (hp : s.PoolInv) :
    (s'.starts = s.starts ∧ s'.nextTask = s.nextTask) ∨
      ∃ co args, s' = s.spawned co args ∧ s.mode co = .pooled := by
  have same : ∀ os : List Obs, s'.log = s.log ++ os → (∀ o ∈ os, o.start = none) →
      s'.callbacks.filterMap (Callback.start s.mode) = s.queued → s'.mode = s.mode → s'.nextTask = s.nextTask →
      (s'.starts = s.starts ∧ s'.nextTask = s.nextTask) ∨
        ∃ co args, s' = s.spawned co args ∧ s.mode co = .pooled := by
    intro os hl ho hC hmode hn
    refine Or.inl ⟨State.starts_keep os hl ho ?_, hn⟩
    rw [State.queued, hmode, hC]
  have turns : ∀ (c : Co) (m : Mode) (os : List Obs), (s.mode c).Unready → m.Unready →
      s'.log = s.log ++ os → (∀ o ∈ os, o.start = none) → s'.callbacks = s.callbacks →
      s'.mode = Function.update s.mode c m → s'.nextTask = s.nextTask →
      (s'.starts = s.starts ∧ s'.nextTask = s.nextTask) ∨
        ∃ co args, s' = s.spawned co args ∧ s.mode co = .pooled := by
    intro c m os hc hm' hl ho hcb hmode hn
    refine Or.inl ⟨State.starts_keep os hl ho ?_, hn⟩
    rw [State.queued, State.queued, hmode, hcb]
    exact queued_update fun _ => ⟨hc, hm'⟩
  cases hm with
  | env _ _ _ he | waiter _ _ he =>
    obtain ⟨E, rfl⟩ := he.frame
    exact same [] (List.append_nil _).symm (by simp) rfl rfl rfl
  | emit _ o ho =>
    obtain ⟨c, vs, rfl⟩ := ho.eq_ret
    exact same [.ret c vs] rfl (by simp [Obs.start]) rfl rfl rfl
  | mainDone | enter | eventClear => exact same [] (List.append_nil _).symm (by simp) rfl rfl rfl
  | assertGet | semAcquire => exact same [_] rfl (by simp [Obs.start]) rfl rfl rfl
  | semPass _ x c =>
    exact same [.semCall x c (s.sem x).counter, .semTrue x (s.sem x).counter none] (List.append_assoc _ _ _)
      (by simp [Obs.start]) rfl rfl rfl
  | semRefuse _ x c t s₁ _ h₁ =>
    obtain ⟨E, A, M, Q, he⟩ := (s.emit (.semCall x c (s.sem x).counter)).newLink_frame (.sem x)
    obtain ⟨E', rfl⟩ := h₁.frame
    rw [he] at same ⊢
    exact same [.semCall x c (s.sem x).counter, .semRaised x t] (List.append_assoc _ _ _)
      (by simp [Obs.start]) rfl rfl rfl
  | semWaited _ x w o s₁ ho h₁ =>
    obtain ⟨E, A, M, Q, he⟩ := s.setLinks_frame ((s.links (.sem x)).erase w) (.sem x)
    obtain ⟨E', rfl⟩ := h₁.frame
    rw [State.unlink, he] at same ⊢
    have hstart : o.start = none := by
      rcases ho.ends with ⟨_, _, rfl⟩ | ⟨_, _, rfl⟩ | ⟨_, rfl⟩ <;> rfl
    exact same [o] rfl (by simpa using hstart) rfl rfl rfl
  | link _ y =>
    obtain ⟨E, A, M, Q, he⟩ := s.newLink_frame y
    rw [he] at same ⊢
    exact same [] (List.append_nil _).symm (by simp) rfl rfl rfl
  | unlink _ y w =>
    obtain ⟨E, A, M, Q, he⟩ := s.setLinks_frame ((s.links y).erase w) y
    rw [State.unlink, he] at same ⊢
    exact same [] (List.append_nil _).symm (by simp) rfl rfl rfl
  | endNotify _ y =>
    obtain ⟨E, Q, he⟩ := endNotify_frame s y
    rw [he] at same ⊢
    exact same [] (List.append_nil _).symm (by simp) rfl rfl rfl
  | settledGet _ w c =>
    exact same [.getCall w c, .getDone w (s.waiter w).result] (List.append_assoc _ _ _)
      (by simp [Obs.start]) rfl rfl rfl
  | mainGet _ _ w v =>
    exact same [.getCall w 0, .getDone w (.error v)] (List.append_assoc _ _ _)
      (by simp [Obs.start]) rfl rfl rfl
  | eventSet _ e =>
    have hl := Event.set_log s e
    obtain ⟨E, C, L, he, hC⟩ := Event.set_frame s e
    rw [he] at hl same ⊢
    exact same _ hl (by simp [Obs.start]) (hC.queued _) rfl rfl
  | asyncSet _ _ _ _ _ hs =>
    obtain ⟨A, C, rfl, hC⟩ := AsyncResult._set_frame s hs
    exact same [] (List.append_nil _).symm (by simp) (hC.queued _) rfl rfl
  | semRelease _ x =>
    have hl := Semaphore.release_log s x
    obtain ⟨M, C, L, he, hC⟩ := Semaphore.release_frame s x
    rw [he] at hl same ⊢
    exact same _ hl (by simp [Obs.start]) (hC.queued _) rfl rfl
  | put _ q item =>
    have hl := Queue._put_log s q item
    obtain ⟨Q, E, C, L, he, hC⟩ := Queue._put_frame s q item
    rw [he] at hl same ⊢
    refine same [.inserted q item, .putDone q item] ?_ (by simp [Obs.start]) (hC.queued _) rfl rfl
    simp only at hl
    simp [State.emit, hl]
  | get _ q item s₁ hs =>
    have hl := Queue._get_log s hs
    obtain ⟨Q, C, L, rfl, hC⟩ := Queue._get_frame s hs
    refine same [.removed q item, .gotItem q item] ?_ (by simp [Obs.start]) (hC.queued _) rfl rfl
    simp only at hl
    simp [State.emit, hl]
  | settle _ w v x b =>
    have hl := s.settle_log w v x b
    obtain ⟨E, L, he⟩ := s.takes_frame w b
    rw [he] at hl same ⊢
    exact same _ hl (by simp [or_imp, forall_and, Obs.start]) rfl rfl rfl
  | abort _ y w =>
    have hl := s.abort_log w y
    obtain ⟨E, L, he⟩ := s.takes_frame w (some y)
    rw [he] at hl same ⊢
    exact same _ hl (by simp [Obs.start]) rfl rfl rfl
  | goOn _ c m ht ha =>
    refine turns c m [] (by simp [ht.1, Mode.Unready]) ?_ (List.append_nil _).symm (by simp) rfl rfl rfl
    rintro f rfl
    exact ha
  | answer _ c i f _ hf =>
    exact turns c .running [] (by simp [hf, Mode.Unready]) (by simp [Mode.Unready]) (List.append_nil _).symm
      (by simp) rfl rfl rfl
  | returned _ c ht =>
    exact turns c .pooled [.finished (s.task c)] (by simp [ht.1, Mode.Unready]) (by simp [Mode.Unready]) rfl
      (by simp [Obs.start]) rfl rfl rfl
  | failed _ c v ht =>
    exact turns c .dead [.failed (s.task c) v] (by simp [ht.1, Mode.Unready]) (by simp [Mode.Unready]) rfl
      (by simp [Obs.start]) rfl rfl rfl
  | block _ c w k ht =>
    exact turns c (.blocked w k) [.getCall w c] (by simp [ht.1, Mode.Unready]) (by simp [Mode.Unready]) rfl
      (by simp [Obs.start]) rfl rfl rfl
  | resume _ c w k v x b hc =>
    have hl := s.resume_log c w v x b
    obtain ⟨E, L, he⟩ := s.takes_frame w b
    rw [he] at hl turns ⊢
    exact turns c .running _ (by simp [hc, Mode.Unready]) (by simp [Mode.Unready]) hl
      (by simp [or_imp, forall_and, Obs.start]) rfl rfl rfl
  | rawCreate =>
    have hu : s.mode (s.total + 1) = .unused := hp.unused.2 (Nat.lt_succ_self _)
    exact turns (s.total + 1) .pooled [] (by simp [hu, Mode.Unready]) (by simp [Mode.Unready])
      (List.append_nil _).symm (by simp) rfl rfl rfl
  | post _ cb hcb =>
    refine same [] (List.append_nil _).symm (by simp) ?_ rfl rfl
    rw [Loop.runCallback, List.filterMap_append, List.filterMap_cons, hcb.start]
    exact List.append_nil _
  | pop _ cb cbs _ hcb hq =>
    refine same [] (List.append_nil _).symm (by simp) ?_ rfl rfl
    rw [State.queued, hq, List.filterMap_cons, hcb.start]
  | begin _ y cbs _ hq =>
    refine same [] (List.append_nil _).symm (by simp) ?_ rfl rfl
    rw [State.queued, hq]
    rfl
  | kill _ c e target cbs w _ hq =>
    refine same [.killed target (s.task c)] rfl (by simp [Obs.start]) ?_ rfl rfl
    rw [State.queued, hq]
    rfl
  | start _ c f args cbs _ hq hc =>
    -- the first of the queued tasks becomes the last of those that have started
    have hr : resumed s.callbacks = c :: resumed cbs := by rw [hq]; rfl
    have hout : c ∉ resumed cbs := (List.nodup_cons.1 (hr ▸ hp.once)).1
    have hrest : cbs.filterMap (Callback.start (Function.update s.mode c .running)) = _ :=
      queued_update fun h => absurd h hout
    have hfirst : Callback.start s.mode (.resume c args) = some (f, args) := by
      simp only [Callback.start, hc]
    refine Or.inl ⟨?_, rfl⟩
    have hqueued : s.queued = (f, args) :: cbs.filterMap (Callback.start s.mode) := by
      rw [State.queued, hq, List.filterMap_cons, hfirst]
    rw [State.starts, State.starts, hqueued, ← hrest, List.append_cons]
    congr 1
    exact List.filterMap_append
  | spawn _ co args _ hc => exact Or.inr ⟨co, args, rfl, hc⟩

theorem State.spawned_starts (hp : s.PoolInv) {co : Co} (hc : s.mode co = .pooled) (args : List Value) :
    (s.spawned co args).starts = s.starts ++ [(s.nextTask, args)] := by
  have hout : co ∉ resumed s.callbacks := by
    intro hm
    obtain ⟨f, hf⟩ := hp.ready hm
    rw [hc] at hf
    cases hf
  have hrest : s.callbacks.filterMap (Callback.start (Function.update s.mode co (.ready (some s.nextTask)))) = _ :=
    queued_update fun h => absurd h hout
  have hlast : Callback.start (Function.update s.mode co (.ready (some s.nextTask))) (.resume co args) =
      some (s.nextTask, args) := by
    simp only [Callback.start, Function.update_self]
  have hqueued : (s.spawned co args).queued = s.queued ++ [(s.nextTask, args)] := by
    show (s.callbacks ++ [Callback.resume co args]).filterMap _ = _
    rw [List.filterMap_append, State.queued, ← hrest]
    congr 1
    exact List.filterMap_cons_some hlast
  rw [State.starts, hqueued, ← List.append_assoc]
  rfl

/-- The tasks start in the order of their numbers. -/
def State.InOrder (s : State) : Prop := s.starts.map Prod.fst = List.range s.nextTask

theorem State.InOrder.micro (hm : Micro R p s p' s') (hp : s.PoolInv) (h : s.InOrder) : s'.InOrder := by
  rcases State.starts_micro hm hp with ⟨hst, hn⟩ | ⟨co, args, rfl, hc⟩
  · rw [State.InOrder, hst, hn]
    exact h
  · rw [State.InOrder, State.spawned_starts hp hc, List.map_append, h]
    exact List.range_succ.symm

/-- No task is taken back. -/
theorem State.starts_extend (hm : Micro R p s p' s') (hp : s.PoolInv) : s.starts <+: s'.starts := by
  rcases State.starts_micro hm hp with ⟨hst, -⟩ | ⟨co, args, rfl, hc⟩
  · rw [hst]
  · rw [State.spawned_starts hp hc]
    exact List.prefix_append _ _

theorem Micros.starts_extend (hm : Micros R p s p' s') (hs : s.Sound) : s.starts <+: s'.starts := by
  refine (hm.inv (I := fun _ u => u.Sound ∧ s.starts <+: u.starts) ?_ ⟨hs, List.prefix_refl _⟩).2
  rintro _ u _ u' hm ⟨hu, hpre⟩
  exact ⟨hu.micro hm, hpre.trans (State.starts_extend hm hu.pool)⟩

/-- `co_create` takes a coroutine of the pool, after it has made one if the pool is empty. -/
theorem spawn_pooled (hs : s.Sound) (ht : s.Turn c) (args : List Value) :
    ∃ s₀ co, (s₀ = s ∨ s₀ = Coroutines.coRawCreate s) ∧ s₀.Sound ∧ s₀.Turn c ∧
      s₀.pool.getLast? = some co ∧ s₀.mode co = .pooled ∧ (s₀.spawned co args).Turn c ∧
      spawn s c args = finish (s₀.spawned co args) c (.ok [.thread co]) := by
  obtain ⟨s₀, h₀, hor, hs₀, ht₀, hne⟩ : ∃ s₀, s₀ = (if s.pool = [] then Coroutines.coRawCreate s else s) ∧
      (s₀ = s ∨ s₀ = Coroutines.coRawCreate s) ∧ s₀.Sound ∧ s₀.Turn c ∧ s₀.pool ≠ [] := by
    refine ⟨_, rfl, ?_⟩
    split
    · have hm : Micro Rules.free none s none (Coroutines.coRawCreate s) := .rawCreate s
      exact ⟨.inr rfl, hs.micro hm, Coroutines.coRawCreate_turn hs ht, by simp [Coroutines.coRawCreate]⟩
    · rename_i hne
      exact ⟨.inl rfl, hs, ht, hne⟩
  have hlast : s₀.pool.getLastD 0 = s₀.pool.getLast hne := by
    rw [List.getLastD_eq_getLast?, List.getLast?_eq_some_getLast hne]
    rfl
  have hn : s₀.nextTask = s.nextTask := by
    rcases hor with rfl | rfl <;> rfl
  have hco : s₀.mode (s₀.pool.getLast hne) = .pooled := hs₀.pool.pooled (List.getLast_mem hne)
  have hcc : c ≠ s₀.pool.getLast hne := by
    intro h
    rw [← h, ht₀.1] at hco
    cases hco
  refine ⟨s₀, _, hor, hs₀, ht₀, List.getLast?_eq_some_getLast hne, hco, ⟨?_, ht₀.2⟩, ?_⟩
  · simpa [State.spawned, Loop.runCallback, State.setMode, hcc] using ht₀.1
  · unfold spawn Coroutines.coCreate
    dsimp only
    rw [← h₀, hlast, if_pos hco, ← hn]
    rfl

/-- `levent.spawn` queues its task behind all others. -/
theorem spawn_starts (hs : s.Sound) (ht : s.Turn c) (args : List Value) :
    s.starts ++ [(s.nextTask, args)] <+: (spawn s c args).starts := by
  obtain ⟨s₀, co, hor, hs₀, -, hlast, hco, hturn, hspawn⟩ := spawn_pooled hs ht args
  have hsame : s₀.starts = s.starts ∧ s₀.nextTask = s.nextTask := by
    rcases hor with rfl | rfl
    · exact ⟨rfl, rfl⟩
    · have hm : Micro Rules.free none s none (Coroutines.coRawCreate s) := .rawCreate s
      rcases State.starts_micro hm hs.pool with hst | ⟨co, args', he, -⟩
      · exact hst
      · have hlen := congrArg (fun u : State => u.nextTask) he
        exact absurd hlen (Nat.ne_of_lt (Nat.lt_succ_self _))
  have hmicro : Micro Rules.free none s₀ none (s₀.spawned co args) := .spawn s₀ _ args hlast hco
  rw [hspawn, ← hsame.1, ← hsame.2, ← State.spawned_starts hs₀.pool hco]
  exact (finish_micros (R := Rules.free) hturn _).starts_extend (hs₀.micro hmicro)

/-! ## Runs -/

theorem State.Initial.inOrder (h : s.Initial value) : s.InOrder := by
  have hlog := h.log
  have hcbs := h.callbacks
  obtain ⟨E, C, L, Q, n, hs⟩ := h.frame
  have hn : s.nextTask = 0 := by rw [hs]; rfl
  have hstarted : s.started = [] := List.filterMap_eq_nil_iff.2 fun o ho => by
    obtain ⟨e, rfl⟩ := hlog o ho
    rfl
  have hqueued : s.queued = [] := List.filterMap_eq_nil_iff.2 fun cb hcb => by
    obtain ⟨e, rfl⟩ := hcbs cb hcb
    rfl
  rw [State.InOrder, State.starts, hstarted, hqueued, hn]
  rfl

theorem getElem?_prefix {α : Type*} {l l' : List α} {i : ℕ} {x : α} (h : l <+: l') (hx : l[i]? = some x) :
    l'[i]? = some x := by
  obtain ⟨r, rfl⟩ := h
  rw [List.getElem?_append_left (List.getElem?_eq_some_iff.1 hx).1, hx]

/-- The task that the step spawns, with its arguments. -/
def spawns (s : State) : Act → Option (TaskId × List Value)
  | .op (.spawn args) => some (s.nextTask, args)
  | _ => none

theorem step_spawns (hs : s.Sound) {a : Act} {f : TaskId} {args : List Value} (h : step s a = some s')
    (ha : spawns s a = some (f, args)) : f = s.nextTask ∧ s.starts ++ [(f, args)] <+: s'.starts := by
  cases a with
  | op o =>
    cases o with
    | spawn args' =>
      obtain ⟨rfl, rfl⟩ := Prod.mk.inj (Option.some.inj ha)
      unfold step at h
      dsimp only at h
      split at h
      · rename_i c hc
        cases h
        exact ⟨rfl, spawn_starts hs (hs.user_turn hc) args'⟩
      · cases h
    | _ => cases ha
  | _ => cases ha

/-- **Tasks start in the order in which they are spawned**, each at most once and with the arguments
    it was spawned with: those that have started are the first of all, and the rest is queued. -/
theorem spawned_start_in_order (hrun : run step (State.init value maxsizes) as = some t)
    (hraw : ∀ a ∈ as, ¬ a.Raw) :
    (t.started ++ t.queued).map Prod.fst = List.range t.nextTask ∧
      ∀ f args, (f, args) ∈ collect step spawns (State.init value maxsizes) as →
        (t.started ++ t.queued)[f]? = some (f, args) := by
  have h0 := State.init_initial value maxsizes
  have h := Lib.run_collect_inv (f := spawns) (C := Plain) (l := [])
    (I := fun l u => u.Sound ∧ u.InOrder ∧ ∀ p ∈ l, u.starts[p.1]? = some p) ?_
    ⟨h0.sound, h0.inOrder, by simp⟩ (.of_forall fun _ a ha => hraw a ha) hrun
  · exact ⟨h.2.1, fun f args hm => h.2.2 (f, args) hm⟩
  rintro l u a u' ⟨hu, hord, hall⟩ ha hstep
  have hm := step_micros hu hstep (.free ha)
  have hpre := hm.starts_extend hu
  have hinv := hm.inv (I := fun _ v => v.Sound ∧ v.InOrder)
    (fun hm h => ⟨h.1.micro hm, h.2.micro hm h.1.pool⟩) ⟨hu, hord⟩
  refine ⟨hinv.1, hinv.2, fun q hq => ?_⟩
  rcases List.mem_append.1 hq with hq | hq
  · exact getElem?_prefix hpre (hall q hq)
  · obtain ⟨f, args⟩ := q
    obtain ⟨rfl, hsp⟩ := step_spawns hu hstep (Option.mem_toList.1 hq)
    have hlen : u.starts.length = u.nextTask := by
      rw [← List.length_map (f := Prod.fst), hord, List.length_range]
    have hlast : (u.starts ++ [(u.nextTask, args)])[u.nextTask]? = some (u.nextTask, args) := by
      rw [← hlen, List.getElem?_concat_length]
    exact getElem?_prefix hsp hlast

/-- Two tasks are spawned, and the first has started. -/
def spawnsTwo : List Act :=
  [.enter, .op (.spawn [.int 5]), .op (.spawn [.int 6]), .op (.returns []), .callback]

theorem spawned_start_in_order_two :
    ∃ t, run step (State.init (fun _ => 0) []) spawnsTwo = some t ∧
      t.started = [(0, [.int 5])] ∧ t.queued = [(1, [.int 6])] ∧
      (t.started ++ t.queued).map Prod.fst = List.range t.nextTask ∧
      ∀ f args, (f, args) ∈ collect step spawns (State.init (fun _ => 0) []) spawnsTwo →
        (t.started ++ t.queued)[f]? = some (f, args) := by
  have h : run step (State.init (fun _ => 0) []) spawnsTwo = some _ := rfl
  exact ⟨_, h, by decide, by decide, spawned_start_in_order h (by simp [spawnsTwo, Act.Raw, Op.Raw])⟩

end Levent
