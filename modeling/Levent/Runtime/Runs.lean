/-
  The initial states, and the invariants along the runs of a process.
-/
import Levent.Runtime.QueueInv

namespace Levent

open Lib (Armed Along run)

variable {R : Rules} {s s' t : State} {value : SemId → ℕ}

/-! ## Initial states -/

/-- A fresh process, in which some queues have been made. -/
structure State.Initial (value : SemId → ℕ) (s : State) : Prop where
  frame : ∃ E C L Q n, s = { State.fresh value with
    event := E, callbacks := C, log := L, queue := Q, nextQueue := n }
  links : ∀ e, (s.event e).links = ∅
  todo : ∀ e, (s.event e).todo = ∅
  queue : ∀ q, ∃ m, s.queue q = Queue._init m
  armed : ∀ e, (s.armed (.event e)).Inv
  callbacks : ∀ cb ∈ s.callbacks, ∃ e, cb = .notify (.event e)
  log : ∀ o ∈ s.log, ∃ e, o = .eventSet e ∅

theorem State.Initial.fresh : (State.fresh value).Initial value where
  frame := ⟨_, _, _, _, _, rfl⟩
  links _ := rfl
  todo _ := rfl
  queue _ := ⟨none, rfl⟩
  armed _ := rfl
  callbacks _ h := by cases h
  log _ h := by cases h

theorem State.Initial.new (h : s.Initial value) (m : Option ℤ) :
    (Queue.new s m).Initial value := by
  obtain ⟨E, C, L, Q, n, hs⟩ := h.frame
  generalize hs₁ :
    ({ s.setQueue s.nextQueue (Queue._init m) with nextQueue := s.nextQueue + 1 } : State) = s₁
  have hnew : Queue.new s m = Event.set s₁ (.cond s.nextQueue) := by rw [← hs₁]; rfl
  have hev : s₁.event = s.event := by rw [← hs₁]; rfl
  have hcb : s₁.callbacks = s.callbacks := by rw [← hs₁]; rfl
  have hlog : s₁.log = s.log := by rw [← hs₁]; rfl
  have hqu : s₁.queue = Function.update s.queue s.nextQueue (Queue._init m) := by rw [← hs₁]; rfl
  obtain ⟨E', C', L', he, -⟩ := Event.set_frame s₁ (.cond s.nextQueue)
  rw [hnew]
  refine ⟨?_, fun e => ?_, fun e => ?_, fun q => ?_, fun e => ?_, fun cb hm => ?_, fun o hm => ?_⟩
  · rw [he, ← hs₁, hs]; exact ⟨_, _, _, _, _, rfl⟩
  · refine (Event.set_links s₁ _ (.event e)).trans ?_
    show (s₁.event e).links = ∅
    rw [hev]; exact h.links e
  · rw [Event.set_todo, hev]
    split
    · rw [h.todo, h.links]; rfl
    · exact h.todo e
  · rw [he]
    show ∃ m', s₁.queue q = Queue._init m'
    rw [hqu]
    by_cases hq : q = s.nextQueue
    · subst hq; exact ⟨m, by simp⟩
    · obtain ⟨m', hm'⟩ := h.queue q
      exact ⟨m', by simp [hq, hm']⟩
  · have h1 : (s₁.armed (.event e)).Inv := by
      have : s₁.armed (.event e) = s.armed (.event e) := by
        simp only [State.armed, State.flag, hcb, hev]
        rw [← hs₁]; rfl
      rw [this]; exact h.armed e
    exact (Event.set_armed False False (.cond s.nextQueue)).inv id h1
  · rw [Event.set_callbacks] at hm
    split at hm
    · exact h.callbacks cb (hcb ▸ hm)
    · rcases List.mem_append.1 hm with hm | hm
      · exact h.callbacks cb (hcb ▸ hm)
      · exact ⟨_, List.mem_singleton.1 hm⟩
  · rw [Event.set_log, hlog, hev, h.links] at hm
    rcases List.mem_append.1 hm with hm | hm
    · exact h.log o hm
    · exact ⟨_, List.mem_singleton.1 hm⟩

theorem State.init_initial (value : SemId → ℕ) (maxsizes : List (Option ℤ)) :
    (State.init value maxsizes).Initial value := by
  unfold State.init
  induction maxsizes using List.reverseRecOn with
  | nil => exact .fresh
  | append_singleton ms m ih =>
    rw [List.foldl_append]
    exact ih.new m

section
variable (h : s.Initial value)
include h

theorem State.Initial.links_eq (y : Sync) : s.links y = ∅ := by
  obtain ⟨E, C, L, Q, n, hs⟩ := h.frame
  cases y with
  | event e => exact h.links e
  | async a => rw [hs]; rfl
  | sem x => rw [hs]; rfl
  | put q => obtain ⟨m, hm⟩ := h.queue q; simp [State.links, hm, Queue._init]
  | get q => obtain ⟨m, hm⟩ := h.queue q; simp [State.links, hm, Queue._init]

theorem State.Initial.resumed_eq : resumed s.callbacks = [] := by
  refine List.filterMap_eq_nil_iff.2 fun cb hcb => ?_
  obtain ⟨e, rfl⟩ := h.callbacks cb hcb
  rfl

theorem State.Initial.sound : s.Sound := by
  obtain ⟨E, C, L, Q, n, hs⟩ := h.frame
  have hmode : ∀ c, s.mode c = if c = 0 then .running else .unused := fun c => by rw [hs]; rfl
  have hres := h.resumed_eq
  refine ⟨?_, ?_, ?_⟩
  · refine ⟨fun {c w k} hc => ?_, fun {c w} _ hc => ?_, fun {w} hc => ?_, fun {c w} _ hc => ?_,
      fun {w} _ => ?_, fun {c} hc => ?_, fun {c} hc ha => ?_, ?_⟩
    · rw [hmode] at hc; split at hc <;> cases hc
    · rw [hs] at hc; cases hc
    · rw [hs] at hc; cases hc
    · rw [hs] at hc; cases hc
    · rw [hs]; rfl
    · rw [hs] at hc; cases hc
    · rw [hmode, if_neg hc] at ha; cases ha
    · left; rw [hmode]; rfl
  · refine ⟨fun {c} hc => ?_, ?_, fun {c} => ?_, fun {c} hc => ?_, ?_⟩
    · rw [hs] at hc; cases hc
    · rw [hs]; exact List.nodup_nil
    · rw [hmode, hs]
      by_cases hc : c = 0
      · simp [hc]
      · rw [if_neg hc]
        exact ⟨fun _ => Nat.pos_of_ne_zero hc, fun _ => rfl⟩
    · rw [hres] at hc; cases hc
    · rw [hres]; exact List.nodup_nil
  · refine ⟨fun {y w} hw => ?_, fun {e w} hw => ?_, fun {x w u} hw => ?_, fun {x w u y} hw => ?_,
      fun {y y' w} hw => ?_, fun {e y w} hw => ?_⟩
    · rw [h.links_eq] at hw; cases hw
    · rw [h.todo] at hw; cases hw
    · rw [hs] at hw; cases hw
    · rw [hs] at hw; cases hw
    · rw [h.links_eq] at hw; cases hw
    · rw [h.todo] at hw; cases hw

theorem State.Initial.linked : s.LinkInv none := by
  obtain ⟨E, C, L, Q, n, hs⟩ := h.frame
  refine ⟨fun {y w} _ => ?_, fun {y w} hp => by cases hp⟩
  rw [h.links_eq]
  refine ⟨fun hw => absurd hw (Finset.notMem_empty w), ?_⟩
  rintro (⟨c, k, hc, -⟩ | hp)
  · rw [hs] at hc
    simp only [State.fresh] at hc
    split at hc <;> cases hc
  · cases hp

theorem State.Initial.armed_inv {y : Sync} (hy : ∀ x, y ≠ .sem x) : (s.armed y).Inv := by
  obtain ⟨E, C, L, Q, n, hs⟩ := h.frame
  have hmain : s.main = .idle := by rw [hs]; rfl
  have hcount : (∀ e, y ≠ .event e) → s.callbacks.count (.notify y) = 0 := fun hne => by
    refine List.count_eq_zero.2 fun hm => ?_
    obtain ⟨e, he⟩ := h.callbacks _ hm
    cases he; exact hne e rfl
  cases y with
  | event e => exact h.armed e
  | async a => simp [Armed.Inv, State.armed, State.flag, hcount (by simp), hmain]
  | sem x => exact absurd rfl (hy x)
  | put q =>
    obtain ⟨m, hm⟩ := h.queue q
    simp [Armed.Inv, State.armed, State.flag, hcount (by simp), hmain, hm, Queue._init]
  | get q =>
    obtain ⟨m, hm⟩ := h.queue q
    simp [Armed.Inv, State.armed, State.flag, hcount (by simp), hmain, hm, Queue._init]

theorem State.Initial.queue_inv (q : QueueId) : s.QueueInv q ∧ s.WakeInv q := by
  obtain ⟨m, hm⟩ := h.queue q
  have hq : ∀ o ∈ s.log, o.queue? ≠ some q := fun o ho => by
    obtain ⟨e, rfl⟩ := h.log o ho
    simp [Obs.queue?]
  have hnil : ∀ f : Obs → Option Value, (∀ o, o.queue? ≠ some q → f o = none) →
      s.log.filterMap f = [] := fun f hf =>
    List.filterMap_eq_nil_iff.2 fun o ho => hf o (hq o ho)
  have h1 : s.inserted q = [] := hnil _ fun o ho => (Obs.quiet ho).1
  have h2 : s.removed q = [] := hnil _ fun o ho => (Obs.quiet ho).2.1
  have h3 : s.puts q = [] := hnil _ fun o ho => (Obs.quiet ho).2.2.1
  have h4 : s.gots q = [] := hnil _ fun o ho => (Obs.quiet ho).2.2.2.1
  refine ⟨⟨⟨?_, fun n _ => ?_⟩, ?_, by rw [h3, h1], by rw [h4, h2], fun hmem => ?_⟩, ?_, ?_⟩
  · simp [State.fifo, h1, h2, hm, Queue._init]
  · simp [State.fifo, hm, Queue._init]
  · simp [hm, Queue._init]
  · exact (Obs.quiet (hq _ hmem)).2.2.2.2 rfl
  · simp [hm, Queue._init]
  · intro _ hne
    rw [h.links_eq] at hne; exact absurd hne (by simp)

end

/-! ## Rules -/

/-- All micro steps. -/
def Rules.free : Rules := ⟨True, fun _ _ => True, fun _ _ => True, fun _ => True, fun _ _ _ => True⟩

/-- Without operations on waiters by hand. -/
def Rules.library : Rules := { Rules.free with raw := False }

theorem StepOk.free {a : Act} (ha : ¬ a.Raw) : StepOk Rules.free s a where
  notified _ _ _ _ _ := trivial
  watched _ _ _ _ _ := trivial
  injected _ _ := trivial
  kill _ _ _ _ _ _ _ _ := trivial
  begin _ _ _ _ := trivial
  set _ _ _ _ _ _ := trivial
  ready := Or.inl trivial
  raw o ho hr := by subst ho; exact absurd hr ha

/-- The waiter a notification switches, and where it waits. -/
theorem step_next {w : Option WaiterId} (h : step s (.next w) = some s') :
    ∃ y, s.main = .notify y ∧ s.cur = none ∧ y.notify s w = some s' := by
  unfold step at h
  dsimp only at h
  split at h
  · rename_i y hm hc; exact ⟨y, hm, hc, h⟩
  · cases h

/-- A coroutine that waits in `put` or `get` of a queue is woken when there is
    room, or an item, only. -/
theorem StepOk.library {a : Act} (ha : ¬ a.Raw) (hs : s.Sound) (hl : s.LinkInv none)
    (hq : ∀ q, s.QueueInv q) : StepOk Rules.library s a where
  notified _ _ _ _ _ := trivial
  watched _ _ _ _ _ := trivial
  injected _ _ := trivial
  kill _ _ _ _ _ _ _ _ := trivial
  begin _ _ _ _ := trivial
  set _ _ _ _ _ _ := trivial
  raw o ho hr := by subst ho; exact absurd hr ha
  ready := by
    refine Or.inr fun w c k hw hen hc => ?_
    have hin : ∀ {y}, (∀ x, y ≠ .sem x) → k.sync = some y → w ∈ s.links y := fun hy hk =>
      (hl.linked hy).2 (Or.inl ⟨c, k, hc, hk⟩)
    cases a with
    | next w' =>
      obtain rfl : w' = some w := hw
      obtain ⟨s', hs'⟩ := Option.isSome_iff_exists.1 hen
      obtain ⟨y, -, -, hn⟩ := step_next hs'
      obtain ⟨h0, -⟩ | ⟨v, hv, hm, hput, hget, -⟩ := Sync.notify_cases hn
      · cases h0
      obtain rfl := Option.some.inj hv
      have hy : ∀ {y'}, w ∈ s.links y' → y' = y := fun hm' => by
        cases y with
        | event e => exact hs.fresh.todoSole hm hm'
        | async a => exact (hs.fresh.sole (y := .async a) hm hm').symm
        | sem x => exact (hs.fresh.sole (y := .sem x) hm hm').symm
        | put q => exact (hs.fresh.sole (y := .put q) hm hm').symm
        | get q => exact (hs.fresh.sole (y := .get q) hm hm').symm
      cases k with
      | queuePut q item t =>
        have := hput q (hy (hin (by simp) rfl)).symm
        by_contra hr
        exact this ((hq q).isFull hr)
      | queueGet q t => exact Nat.pos_of_ne_zero (hget q (hy (hin (by simp) rfl)).symm)
      | get | eventWait | asyncGet | semWait | hubWait => trivial
    | fire x =>
      simp only [State.rouses] at hw
      split at hw
      · rename_i w' u hx
        obtain rfl := Option.some.inj hw
        cases k with
        | queuePut q item t => exact absurd (hin (by simp) rfl) (hs.fresh.apart hx)
        | queueGet q t => exact absurd (hin (by simp) rfl) (hs.fresh.apart hx)
        | get | eventWait | asyncGet | semWait | hubWait => trivial
      · cases hw
    | callback | enter | op | sys => cases hw

/-! ## Runs -/

/-- **The invariant rule for runs**: what micro steps keep in sound states holds
    along the runs whose steps the rules allow. -/
theorem run_micro_inv {I : Pend → State → Prop} {C : State → Act → Prop} {as : List Act}
    (hI : ∀ {p s p' s'}, Micro R p s p' s' → s.Sound → I p s → I p' s')
    (hC : ∀ {s a}, s.Sound → I none s → C s a → StepOk R s a) (hs : s.Sound) (h0 : I none s)
    (hrun : run step s as = some t) (hA : Along step C s as) : t.Sound ∧ I none t := by
  refine Lib.run_inv (I := fun s => s.Sound ∧ I none s) ?_ ⟨hs, h0⟩ hA hrun
  intro s a s' h hCa hstep
  refine (step_micros h.1 hstep (hC h.1 h.2 hCa)).inv (I := fun p s => s.Sound ∧ I p s) ?_ h
  exact fun hm h => ⟨h.1.micro hm, hI hm h.1 h.2⟩

/-- A run without operations on waiters by hand. -/
def Plain (_ : State) (a : Act) : Prop := ¬ a.Raw

/-- No notification is stopped by an assertion if its waiters are not settled. -/
theorem State.LinkInv.not_leaves {p : Pend} (h : s.LinkInv p) (hh : s.HubInv) {y : Sync}
    (hy : ∀ x, y ≠ .sem x) (he : ∀ e, y ≠ .event e) : ¬ s.Leaves p y := by
  rintro (⟨x, rfl⟩ | ⟨rfl, w, hw, hx⟩)
  · exact hy x rfl
  · refine hx (h.unsettled hh hy ?_)
    cases y with
    | event e => exact absurd rfl (he e)
    | async | sem | put | get => exact hw

end Levent
