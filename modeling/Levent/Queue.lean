/-
  `Queue`: safety and wake-ups, in every run of a process.
-/
import Levent.Runtime.Runs

namespace Levent

open Lib (Along run)

variable {R : Rules} {p p' : Pend} {s s' t : State} {value : SemId → ℕ}
  {maxsizes : List (Option ℤ)} {as : List Act} {q : QueueId}

/-! ## Invariants -/

/-- The invariants of the queues, of bounds `M`, and of their waiters. -/
structure State.QueuesInv (M : QueueId → Option ℕ) (p : Pend) (s : State) : Prop where
  linked : s.LinkInv p
  items : ∀ q, s.QueueInv q
  maxsize : ∀ q, (s.queue q).maxsize = M q
  wake : ∀ q, s.WakeInv q
  put : ∀ q, (s.armed (.put q)).Inv
  get : ∀ q, (s.armed (.get q)).Inv

theorem State.QueuesInv.micro {M : QueueId → Option ℕ} (hm : Micro R p s p' s') (hraw : ¬ R.raw)
    (hs : s.Sound) (h : s.QueuesInv M p) : s'.QueuesInv M p' where
  linked := h.linked.micro hm hs.hub hs.pool
  items q := ((h.items q).step (hm.queue_step hraw q)).1
  maxsize q := ((h.items q).step (hm.queue_step hraw q)).2.trans (h.maxsize q)
  wake q := (h.wake q).micro hm hraw (h.items q)
  put q := (hm.armed (by simp)).inv (h.linked.not_leaves hs.hub (by simp) (by simp)) (h.put q)
  get q := (hm.armed (by simp)).inv (h.linked.not_leaves hs.hub (by simp) (by simp)) (h.get q)

theorem State.Initial.queues (h : s.Initial value) :
    s.QueuesInv (fun q => (s.queue q).maxsize) none where
  linked := h.linked
  items q := (h.queue_inv q).1
  maxsize _ := rfl
  wake q := (h.queue_inv q).2
  put _ := h.armed_inv (by simp)
  get _ := h.armed_inv (by simp)

/-- The invariants hold in every state of a run. -/
theorem queues_inv (hrun : run step (State.init value maxsizes) as = some t)
    (hA : ∀ a ∈ as, ¬ a.Raw) : t.Sound ∧
      t.QueuesInv (fun q => ((State.init value maxsizes).queue q).maxsize) none := by
  have h0 := State.init_initial value maxsizes
  exact run_micro_inv (R := Rules.library) (C := Plain) (fun hm hs h => h.micro hm id hs)
    (fun hs h ha => .library ha hs h.linked h.items) h0.sound h0.queues hrun (.of_forall fun _ => hA)

theorem State.init_queue (value : SemId → ℕ) (maxsizes : List (Option ℤ)) :
    (State.init value maxsizes).nextQueue = maxsizes.length ∧
      ∀ q, (State.init value maxsizes).queue q = Queue._init (maxsizes.getD q none) := by
  unfold State.init
  induction maxsizes using List.reverseRecOn with
  | nil => exact ⟨rfl, fun _ => rfl⟩
  | append_singleton ms m ih =>
    rw [List.foldl_append]
    generalize ms.foldl Queue.new (State.fresh value) = s at ih ⊢
    obtain ⟨hn, hq⟩ := ih
    obtain ⟨E, C, L, he, -⟩ := Event.set_frame
      { s.setQueue s.nextQueue (Queue._init m) with nextQueue := s.nextQueue + 1 } (.cond s.nextQueue)
    have hnew : [m].foldl Queue.new s = Event.set
      { s.setQueue s.nextQueue (Queue._init m) with nextQueue := s.nextQueue + 1 }
      (.cond s.nextQueue) := rfl
    rw [hnew, he]
    refine ⟨by simp [hn], fun q => ?_⟩
    show Function.update s.queue s.nextQueue (Queue._init m) q = _
    by_cases hqn : q = ms.length
    · subst hqn; simp [hn]
    · rw [hn, Function.update_of_ne hqn, hq]
      simp only [List.getD_eq_getElem?_getD]
      by_cases hlt : q < ms.length
      · rw [List.getElem?_append_left hlt]
      · have hgt : ms.length < q := lt_of_le_of_ne (not_lt.1 hlt) (Ne.symm hqn)
        have hle : (ms ++ [m]).length ≤ q := by
          rw [List.length_append]; exact hgt
        rw [List.getElem?_eq_none hle, List.getElem?_eq_none hgt.le]

/-! ## Safety -/

theorem State.EnvStep.fifo_eq {new : Option WaiterId} (h : s.EnvStep new s') :
    s'.fifo q = s.fifo q := by
  rw [h.eq]; rfl

theorem State.fifo_quiet {o : Obs} (hq : s'.queue = s.queue) (hl : s'.log = s.log ++ [o])
    (ho : o.queue? = none) : s'.fifo q = s.fifo q := by
  have h : s.QueueKept q s' := ⟨by rw [hq]; exact ⟨rfl, rfl, rfl⟩, [o], hl, by simp [ho]⟩
  exact h.fifo_eq.1

/-- An error that leaves a call puts and gets nothing. -/
theorem raise_fifo (s : State) (c : Co) (v : Value) : (raise s c v).fifo q = s.fifo q := by
  have h1 : s.EnvStep none ((unwind v (s.stack c)).1.foldl Timeout.cancel s) :=
    Timeout.cancel_all_env _
  rw [← h1.fifo_eq]
  unfold raise; dsimp only
  split
  · unfold fail
    split
    · rfl
    · exact State.fifo_quiet rfl rfl rfl
  · exact State.fifo_quiet rfl rfl rfl

/-- What a queue made with `maxsize` promises: the items that `get` returns are
    those removed, a prefix of those inserted, which are those `put` has
    accepted; a call that raises leaves the queue as it is. -/
structure Queue.Safe (s : State) (q : QueueId) (maxsize : Option ℤ) : Prop where
  order : s.gots q = s.removed q ∧ s.removed q <+: s.inserted q
  accepted : s.puts q = s.inserted q
  length : (s.queue q).length = (s.queue q).items.length
  count : (s.queue q).length + (s.removed q).length = (s.inserted q).length
  bound : ∀ n : ℕ, 0 < n → maxsize = some (n : ℤ) → (s.queue q).length ≤ n
  putRaises : ∀ c w item i v, (Queue.putWaited s c w q item i (.error v)).fifo q = s.fifo q
  getRaises : ∀ c w i v, (Queue.getWaited s c w q i (.error v)).fifo q = s.fifo q
  asserts : .assertGet q ∉ s.log

theorem State.unlink_fifo (y : Sync) (w : WaiterId) : (s.unlink y w).fifo q = s.fifo q := by
  have h : s.QueueKept q (s.unlink y w) := by
    refine ⟨State.setLinks_same _ y q, [], ?_, by simp⟩
    obtain ⟨E, A, M, Q, he⟩ := s.setLinks_frame ((s.links y).erase w) y
    rw [State.unlink, he]; simp
  exact h.fifo_eq.1

/-- **Queue safety.** -/
theorem queue_safe (hrun : run step (State.init value maxsizes) as = some t)
    (hA : ∀ a ∈ as, ¬ a.Raw) (q : QueueId) : Queue.Safe t q (maxsizes.getD q none) := by
  obtain ⟨-, h⟩ := queues_inv hrun hA
  have hi := h.items q
  have hlen : (t.fifo q).contents.length = (t.queue q).length := hi.length.symm
  refine ⟨⟨hi.gots, hi.fifo.outs_prefix⟩, hi.puts, hi.length, ?_, fun n hn hmax => ?_,
    fun c w item i v => ?_, fun c w i v => ?_, hi.asserts⟩
  · have hb : t.inserted q = t.removed q ++ (t.fifo q).contents := hi.fifo.balance
    rw [hb, List.length_append, hlen, Nat.add_comm]
  · rw [← hlen]
    refine hi.fifo.bound n ?_
    rw [h.maxsize q, (State.init_queue value maxsizes).2 q, hmax]
    have h0 : n ≠ 0 := Nat.pos_iff_ne_zero.1 hn
    simp [Queue._init, h0]
  · refine (raise_fifo _ c (traceback v)).trans ?_
    exact (Timeout.cancel_env (s := t.unlink (.put q) w) i).fifo_eq.trans (State.unlink_fifo _ w)
  · refine (raise_fifo _ c (traceback v)).trans ?_
    exact (Timeout.cancel_env (s := t.unlink (.get q) w) i).fifo_eq.trans (State.unlink_fifo _ w)

/-- A task puts two items into a queue of one, another gets them: both wait. -/
def pingPong : List Act :=
  [.enter, .op (.spawn []), .op (.spawn []), .op (.returns []), .callback, .next none,
    .callback, .op (.queuePut 0 (.int 5) none), .op (.queuePut 0 (.int 6) (some 1)),
    .callback, .op (.queueGet 0 none), .op (.queueGet 0 none),
    .callback, .next (some 0), .op (.returns []), .next none]

theorem queue_safe_pingPong :
    ∃ t, run step (State.init (fun _ => 0) [some 1]) pingPong = some t ∧
      t.gots 0 = [.int 5] ∧ t.inserted 0 = [.int 5, .int 6] ∧ Queue.Safe t 0 (some 1) := by
  have h : run step (State.init (fun _ => 0) [some 1]) pingPong = some _ := rfl
  exact ⟨_, h, by decide, by decide, queue_safe h (by simp [pingPong, Act.Raw, Op.Raw]) 0⟩

/-! ## Wake-ups -/

/-- A queue of which a blocked task could go on has its notification queued, and
    the flags tell when the notifications are queued or run. -/
structure Queue.Awake (s : State) (q : QueueId) : Prop where
  get : s.Between → 0 < (s.queue q).length → (∃ c w i, s.mode c = .blocked w (.queueGet q i)) →
    .notify (.get q) ∈ s.callbacks
  put : s.Between → (s.queue q).isFull = false →
    (∃ c w item i, s.mode c = .blocked w (.queuePut q item i)) → .notify (.put q) ∈ s.callbacks
  getFlag : (s.queue q).isInGetUnlock = true ↔
    .notify (.get q) ∈ s.callbacks ∨ s.main = .notify (.get q)
  putFlag : (s.queue q).isInPutUnlock = true ↔
    .notify (.put q) ∈ s.callbacks ∨ s.main = .notify (.put q)

/-- **No wake-up of a queue is lost.** -/
theorem queue_awake (hrun : run step (State.init value maxsizes) as = some t)
    (hA : ∀ a ∈ as, ¬ a.Raw) (q : QueueId) : Queue.Awake t q := by
  obtain ⟨-, h⟩ := queues_inv hrun hA
  have hget := State.flag_iff (h.get q)
  have hput := State.flag_iff (h.put q)
  have hidle : ∀ y, t.Between → t.main ≠ .notify y := fun y hb hm => by
    rw [hb.1] at hm; cases hm
  refine ⟨fun hb hlen hw => ?_, fun hb hful hw => ?_, hget, hput⟩
  · obtain ⟨c, w, i, hc⟩ := hw
    have hin : w ∈ t.links (.get q) := (h.linked.linked (by simp)).2 (Or.inl ⟨c, _, hc, rfl⟩)
    exact (hget.1 ((h.wake q).get hlen ⟨w, hin⟩)).resolve_right (hidle _ hb)
  · obtain ⟨c, w, item, i, hc⟩ := hw
    have hin : w ∈ t.links (.put q) := (h.linked.linked (by simp)).2 (Or.inl ⟨c, _, hc, rfl⟩)
    exact (hput.1 ((h.wake q).put hful ⟨w, hin⟩)).resolve_right (hidle _ hb)

theorem queue_awake_pingPong :
    ∃ t, run step (State.init (fun _ => 0) [some 1]) pingPong = some t ∧
      t.callbacks = [.notify (.get 0)] ∧ Queue.Awake t 0 := by
  have h : run step (State.init (fun _ => 0) [some 1]) pingPong = some _ := rfl
  exact ⟨_, h, by decide, queue_awake h (by simp [pingPong, Act.Raw, Op.Raw]) 0⟩

end Levent
