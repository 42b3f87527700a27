/-
  `Queue:join`: the flag of `cond` says whether the queue is empty, as long as no
  `get` takes the last item by itself.
-/
import Levent.Event
import Levent.Queue
import Levent.Runtime.JoinInv

namespace Levent

open Lib (Along run)

variable {s t : State} {value : SemId → ℕ} {maxsizes : List (Option ℤ)} {as : List Act} {q : QueueId}

/-! ## Runs -/

/-- `Queue:_init` sets the flag. -/
theorem State.init_cond (value : SemId → ℕ) (maxsizes : List (Option ℤ)) (hq : q < maxsizes.length) :
    ((State.init value maxsizes).event (.cond q)).flag = true := by
  unfold State.init
  induction maxsizes using List.reverseRecOn with
  | nil => cases hq
  | append_singleton ms m ih =>
    have hn : (ms.foldl Queue.new (State.fresh value)).nextQueue = ms.length := (State.init_queue value ms).1
    rw [List.foldl_append]
    generalize ms.foldl Queue.new (State.fresh value) = s at ih hn ⊢
    have hev : ([m].foldl Queue.new s).event = Function.update s.event (.cond ms.length)
        { s.event (.cond ms.length) with
          flag := true
          todo := (s.event (.cond ms.length)).todo ∪ (s.event (.cond ms.length)).links
          notifier := true } := by
      rw [← hn]
      show (Event.set _ _).event = _
      unfold Event.set; dsimp only
      split <;> rfl
    rw [hev]
    by_cases hqn : q = ms.length
    · rw [hqn, Function.update_self]
    · rw [Function.update_of_ne (by simpa using hqn)]
      have hlt : q < ms.length + 1 := by simpa using hq
      exact ih (lt_of_le_of_ne (Nat.lt_succ_iff.1 hlt) hqn)

theorem State.init_join (value : SemId → ℕ) (hq : q < maxsizes.length) :
    (State.init value maxsizes).JoinInv none q := by
  have hf := State.init_cond value maxsizes hq
  have hl : ((State.init value maxsizes).event (.cond q)).links = ∅ :=
    (State.init_initial value maxsizes).links_eq (.event (.cond q))
  refine ⟨fun _ => ?_, fun _ => .inl hf, fun _ w hw => ?_⟩
  · rw [(State.init_queue value maxsizes).2 q]
    rfl
  · rw [hl] at hw
    cases hw

/-- A run of puts, gets, joins, and of what else tasks do, in which no `get` takes the
    last item of `q` by itself. -/
theorem join_inv (hq : q < maxsizes.length) (hrun : run step (State.init value maxsizes) as = some t)
    (hA : ∀ a ∈ as, ¬ a.Raw ∧ ¬ a.OnCond)
    (hD : Along step (State.Drains q) (State.init value maxsizes) as) :
    t.Sound ∧ t.QueuesInv (fun q => ((State.init value maxsizes).queue q).maxsize) none ∧
      t.JoinInv none q := by
  have h0 := State.init_initial value maxsizes
  have hall : Along step (fun s a => (¬ a.Raw ∧ ¬ a.OnCond) ∧ s.Drains q a) (State.init value maxsizes) as :=
    Along.and (.of_forall fun _ => hA) hD
  have hqs₀ := h0.queues
  generalize (fun q => ((State.init value maxsizes).queue q).maxsize) = M at hqs₀ ⊢
  refine Lib.run_inv (I := fun s => s.Sound ∧ s.QueuesInv M none ∧ s.JoinInv none q) ?_
    ⟨h0.sound, hqs₀, State.init_join value hq⟩ hall hrun
  rintro s a s' ⟨hs, hqs, hj⟩ ⟨⟨hraw, hcond⟩, hd⟩ hstep
  have hm := step_micros hs hstep (.library hraw hs hqs.linked hqs.items)
  have hinv := hm.inv (I := fun p s => s.Sound ∧ s.QueuesInv M p)
    (fun hm h => ⟨h.1.micro hm, h.2.micro hm id h.1⟩) ⟨hs, hqs⟩
  exact ⟨hinv.1, hinv.2, step_join hs hqs.linked (hqs.get q) hj hraw hcond hd hstep⟩

/-- What `join` promises: the flag is set when the queue is empty; `join` then returns
    at once, and who waits in one is in `todo`. -/
structure Queue.Joins (s : State) (q : QueueId) : Prop where
  flag : (s.event (.cond q)).flag = true ↔ (s.queue q).length = 0
  join : (s.queue q).length = 0 → ∀ c sec, Event.wait s c (.cond q) sec = finish s c (.ok [])
  joiners : (s.queue q).length = 0 → ∀ c w i, s.mode c = .blocked w (.eventWait (.cond q) i) →
    w ∈ (s.event (.cond q)).todo

/-- **`Queue:join` reflects emptiness**, and the joiners are woken if nothing else settles
    the waiters that `cond` is about to notify. -/
theorem join_reflects (hq : q < maxsizes.length) (hrun : run step (State.init value maxsizes) as = some t)
    (hA : ∀ a ∈ as, ¬ a.Raw ∧ ¬ a.OnCond)
    (hD : Along step (State.Drains q) (State.init value maxsizes) as) (hb : t.Between)
    (hn : .notify (.get q) ∉ t.callbacks) :
    Queue.Joins t q ∧ (Along step (Undisturbed (.cond q)) (State.init value maxsizes) as →
      (t.queue q).length = 0 → ∀ c w i, t.mode c = .blocked w (.eventWait (.cond q) i) →
        .notify (.event (.cond q)) ∈ t.callbacks) := by
  obtain ⟨hs, hqs, hj⟩ := join_inv hq hrun hA hD
  have hunlock : (t.queue q).isInGetUnlock = false := by
    refine Bool.eq_false_iff.2 fun h => ?_
    rcases (State.flag_iff (hqs.get q)).1 h with h1 | h1
    · exact hn h1
    · rw [hb.1] at h1
      cases h1
  have hset : (t.queue q).length = 0 → (t.event (.cond q)).flag = true := fun hlen =>
    (hj.drained hlen).resolve_right (by simp [hunlock])
  have htodo : (t.queue q).length = 0 → ∀ c w i, t.mode c = .blocked w (.eventWait (.cond q) i) →
      w ∈ (t.event (.cond q)).todo := by
    intro hlen c w i hc
    have hw : w ∈ t.links (.event (.cond q)) := (hqs.linked.linked (by simp)).2 (.inl ⟨c, _, hc, rfl⟩)
    exact (hj.joined (hset hlen) w hw).resolve_right (by simp)
  refine ⟨⟨⟨hj.empty, hset⟩, fun hlen c sec => ?_, htodo⟩, fun hU hlen c w i hc => ?_⟩
  · unfold Event.wait
    rw [if_pos (hset hlen)]
    rfl
  · have h0 := State.init_initial value maxsizes
    obtain ⟨-, he⟩ := run_micro_inv (R := Rules.event (.cond q)) (C := Undisturbed (.cond q))
      (I := fun p s => s.EventInv (.cond q) p) (fun hm hs h => h.micro hm (fun _ _ => id) hs)
      (fun hs h ha => .event hs h ha) h0.sound (h0.event (.cond q)) hrun hU
    refine ((State.flag_iff he.armed).1 (he.asleep ⟨w, htodo hlen c w i hc⟩)).resolve_right fun hm => ?_
    rw [hb.1] at hm
    cases hm

/-- A task waits in `get`, another puts an item; a third waits in `join`. -/
def drained : List Act :=
  [.enter, .op (.spawn []), .op (.spawn []), .op (.spawn []), .op (.returns []),
    .callback, .next none, .callback, .op (.queueGet 0 none),
    .callback, .op (.queuePut 0 (.int 5) none), .op (.returns []),
    .callback, .op (.queueJoin 0 none), .callback, .next (some 0), .op (.returns []), .next none]

theorem join_reflects_drained : ∃ t, run step (State.init (fun _ => 0) [none]) drained = some t ∧
    t.mode 3 = .blocked 1 (.eventWait (.cond 0) 1) ∧ Queue.Joins t 0 ∧
      .notify (.event (.cond 0)) ∈ t.callbacks := by
  have h : run step (State.init (fun _ => 0) [none]) drained = some _ := rfl
  have hj := join_reflects (q := 0) (by decide) h (by simp [drained, Act.Raw, Op.Raw, Act.OnCond])
    (.of_check (by decide)) (by decide) (by decide)
  exact ⟨_, h, rfl, hj.1, hj.2 (.of_check (by decide)) (by decide) 3 1 1 rfl⟩

/-- A task puts an item and gets it back at once. -/
def putGet : List Act :=
  [.enter, .op (.spawn []), .op (.returns []), .callback, .next none,
    .callback, .op (.queuePut 0 (.int 5) none), .op (.queueGet 0 none), .op (.returns [])]

/-- Then the queue is empty, its flag is not set, and nothing is queued that sets it. -/
theorem join_not_reflects : ∃ t, run step (State.init (fun _ => 0) [none]) putGet = some t ∧
    (∀ a ∈ putGet, ¬ a.Raw ∧ ¬ a.OnCond) ∧ t.Between ∧ t.callbacks = [] ∧
      (t.queue 0).length = 0 ∧ (t.event (.cond 0)).flag = false ∧ ¬ Queue.Joins t 0 := by
  have h : run step (State.init (fun _ => 0) [none]) putGet = some _ := rfl
  refine ⟨_, h, by simp [putGet, Act.Raw, Op.Raw, Act.OnCond], by decide, by decide, by decide, by decide,
    fun hj => ?_⟩
  have hf := hj.flag.2 (by decide)
  revert hf
  decide

end Levent
