/-
  The items of a queue go through it as through a bounded buffer, and a queue
  with something to do for a suspended coroutine has its notification armed.
-/
import Levent.Runtime.Notify
import Levent.Lib.Fifo

namespace Levent

open Lib (Fifo)

variable {R : Rules} {p p' : Pend} {s s' : State} {q : QueueId}

/-! ## The history of a queue -/

/-- The queue a record is about. -/
def Obs.queue? : Obs → Option QueueId
  | .inserted q _ | .removed q _ | .assertGet q | .putDone q _ | .gotItem q _ => some q
  | _ => none

def Obs.insertedIn (q : QueueId) : Obs → Option Value
  | .inserted q' item => if q' = q then some item else none
  | _ => none

def Obs.removedFrom (q : QueueId) : Obs → Option Value
  | .removed q' item => if q' = q then some item else none
  | _ => none

def Obs.putIn (q : QueueId) : Obs → Option Value
  | .putDone q' item => if q' = q then some item else none
  | _ => none

def Obs.gotFrom (q : QueueId) : Obs → Option Value
  | .gotItem q' item => if q' = q then some item else none
  | _ => none

/-- The items `_put` has inserted, in this order. -/
def State.inserted (s : State) (q : QueueId) : List Value := s.log.filterMap (Obs.insertedIn q)

/-- The items `_get` has removed, in this order. -/
def State.removed (s : State) (q : QueueId) : List Value := s.log.filterMap (Obs.removedFrom q)

/-- The items of the calls of `put` that have returned. -/
def State.puts (s : State) (q : QueueId) : List Value := s.log.filterMap (Obs.putIn q)

/-- The items that calls of `get` have returned. -/
def State.gots (s : State) (q : QueueId) : List Value := s.log.filterMap (Obs.gotFrom q)

/-- The queue as a buffer with its history. -/
def State.fifo (s : State) (q : QueueId) : Fifo Value :=
  ⟨(s.queue q).items, s.inserted q, s.removed q⟩

/-- Items, length and bound are the same. -/
def Queue.Same (o o' : Queue) : Prop :=
  o'.items = o.items ∧ o'.length = o.length ∧ o'.maxsize = o.maxsize

theorem Queue.Same.isFull {o o' : Queue} (h : o.Same o') : o'.isFull = o.isFull := by
  simp [Queue.isFull, h.1, h.2.2]

theorem filterMap_quiet {f : Obs → Option Value} {l os : List Obs} (h : ∀ o ∈ os, f o = none) :
    (l ++ os).filterMap f = l.filterMap f := by
  rw [List.filterMap_append, List.filterMap_eq_nil_iff.2 h, List.append_nil]

theorem Obs.quiet {o : Obs} (h : o.queue? ≠ some q) :
    o.insertedIn q = none ∧ o.removedFrom q = none ∧ o.putIn q = none ∧ o.gotFrom q = none ∧
      o ≠ .assertGet q := by
  cases o <;> simp [Obs.queue?, Obs.insertedIn, Obs.removedFrom, Obs.putIn, Obs.gotFrom] at * <;>
    assumption

theorem State.setQueue_same (q' : QueueId) (o : Queue) (ho : (s.queue q').Same o) (q : QueueId) :
    (s.queue q).Same ((s.setQueue q' o).queue q) := by
  by_cases hq : q = q'
  · subst hq; simpa [State.setQueue] using ho
  · simpa [State.setQueue, hq] using ⟨rfl, rfl, rfl⟩

theorem State.setLinks_same (L : Finset WaiterId) (y : Sync) (q : QueueId) :
    (s.queue q).Same ((s.setLinks L y).queue q) := by
  cases y with
  | put q' | get q' => exact s.setQueue_same q' _ (by exact ⟨rfl, rfl, rfl⟩) q
  | event | async | sem => exact ⟨rfl, rfl, rfl⟩

theorem endNotify_same (y : Sync) (q : QueueId) : (s.queue q).Same ((endNotify s y).queue q) := by
  cases y with
  | put q' | get q' => exact s.setQueue_same q' _ (by exact ⟨rfl, rfl, rfl⟩) q
  | event | async | sem => exact ⟨rfl, rfl, rfl⟩

theorem Queue._put_queue (item : Value) :
    (Queue._put s q item).queue = Function.update s.queue q { s.queue q with
      items := (s.queue q).items.take (s.queue q).length ++
        item :: (s.queue q).items.drop ((s.queue q).length + 1)
      length := (s.queue q).length + 1
      isInGetUnlock := (s.queue q).isInGetUnlock || Queue.armsGet s q } := by
  unfold Queue._put; dsimp only
  split <;> rfl

theorem Queue._get_queue {item : Value} (h : Queue._get s q = .ok (item, s')) :
    s'.queue = Function.update s.queue q (s.queue q).removed.1 := by
  obtain ⟨-, -, rfl⟩ := Queue._get_ok.1 h
  split <;> rfl

/-! ## What a micro step does to a queue -/

/-- It neither puts nor gets. -/
structure State.QueueKept (s : State) (q : QueueId) (s' : State) : Prop where
  same : (s.queue q).Same (s'.queue q)
  log : ∃ os, s'.log = s.log ++ os ∧ ∀ o ∈ os, o.queue? ≠ some q

inductive State.QueueStep (s : State) (q : QueueId) (s' : State) : Prop where
  | kept : s.QueueKept q s' → QueueStep s q s'
  | put (item) : (s.queue q).hasRoom → s' = (Queue._put s q item).emit (.putDone q item) →
      QueueStep s q s'
  | get (item s₁) : Queue._get s q = .ok (item, s₁) → s' = s₁.emit (.gotItem q item) →
      QueueStep s q s'

theorem State.QueueStep.of_log (os : List Obs) (hq : s'.queue = s.queue) (hl : s'.log = s.log ++ os)
    (ho : ∀ o ∈ os, o.queue? ≠ some q) : s.QueueStep q s' :=
  .kept ⟨by rw [hq]; exact ⟨rfl, rfl, rfl⟩, os, hl, ho⟩

theorem notified_quiet (w : WaiterId) (b : Option Sync) {os : List Obs}
    (hos : ∀ o ∈ os, o.queue? ≠ some q) :
    ∀ o ∈ b.toList.map (fun y => Obs.notified y w) ++ os, o.queue? ≠ some q := by
  intro o ho
  rcases List.mem_append.1 ho with ho | ho
  · obtain ⟨y, -, rfl⟩ := List.mem_map.1 ho
    simp [Obs.queue?]
  · exact hos o ho

/-- **Every micro step leaves a queue alone, puts or gets.** -/
theorem Micro.queue_step (hm : Micro R p s p' s') (hraw : ¬ R.raw) (q : QueueId) :
    s.QueueStep q s' := by
  have quiet : s'.queue = s.queue → s'.log = s.log → s.QueueStep q s' := fun hq hl =>
    .of_log [] hq (hl.trans (List.append_nil _).symm) (by simp)
  have one : ∀ o : Obs, s'.queue = s.queue → s'.log = s.log ++ [o] → o.queue? = none →
      s.QueueStep q s' := fun o hq hl ho => .of_log [o] hq hl (by simp [ho])
  cases hm with
  | env _ _ _ he => exact quiet (by rw [he.eq]; rfl) (by rw [he.eq]; rfl)
  | waiter _ _ he => exact quiet (by rw [he.eq]; rfl) (by rw [he.eq]; rfl)
  | goOn | answer | mainDone | enter | post | pop | begin | rawCreate | spawn | eventClear =>
    exact quiet rfl rfl
  | emit _ o ho =>
    obtain ⟨c, vs, rfl⟩ := ho.eq_ret
    exact one (.ret c vs) rfl rfl rfl
  | returned _ c => exact one _ rfl rfl rfl
  | failed _ c v => exact one _ rfl rfl rfl
  | kill => exact one _ rfl rfl rfl
  | start => exact one _ rfl rfl rfl
  | semAcquire => exact one _ rfl rfl rfl
  | semPass _ x c =>
    exact .of_log [.semCall x c (s.sem x).counter, .semTrue x (s.sem x).counter none] rfl (List.append_assoc _ _ _)
      (by simp [Obs.queue?])
  | block => exact one _ rfl rfl rfl
  | mainGet _ _ w v =>
    exact .of_log [.getCall w 0, .getDone w (.error v)] rfl (by simp [State.mainGet,
      State.emit, State.setWaiter]) (by simp [Obs.queue?])
  | settledGet _ w c =>
    exact .of_log [.getCall w c, .getDone w (s.waiter w).result] rfl (by simp [State.emit])
      (by simp [Obs.queue?])
  | eventSet _ e =>
    obtain ⟨E, C, L, he, -⟩ := Event.set_frame s e
    exact one _ (by rw [he]) (Event.set_log s e) rfl
  | asyncSet _ a v e _ hs => obtain ⟨-, rfl⟩ := AsyncResult._set_ok.1 hs; exact quiet rfl rfl
  | semRelease _ x =>
    obtain ⟨M, C, L, he, -⟩ := Semaphore.release_frame s x
    exact one _ (by rw [he]) (Semaphore.release_log s x) rfl
  | assertGet _ q' h => exact absurd h hraw
  | abort _ y w =>
    obtain ⟨E, L, he⟩ := s.takes_frame w (some y)
    refine .of_log [.notified y w, .aborted y] (by rw [he]; rfl) ?_ (by simp [Obs.queue?])
    simp [State.emit, State.takes_log]
  | settle _ w v e b =>
    obtain ⟨E, L, he⟩ := s.takes_frame w b
    refine .of_log (b.toList.map (fun y => .notified y w) ++ [.settled w v e])
      (by rw [he]; rfl) ?_ ?_
    · simp [State.settle, State.emit, State.setWaiter, State.takes_log]
    · exact notified_quiet w b (by simp [Obs.queue?])
  | resume _ c w k v e b =>
    obtain ⟨E, L, he⟩ := s.takes_frame w b
    refine .of_log (b.toList.map (fun y => .notified y w) ++ [.settled w v e,
      .getDone w (Waiter.result ⟨((s.takes w b).waiter w).co, v, e⟩)]) (by rw [he]; rfl) ?_ ?_
    · simp [State.resume, State.settle, State.emit, State.setWaiter, State.takes_log]
    · exact notified_quiet w b (by simp [Obs.queue?])
  | semRefuse _ x c t s₁ _ h₁ =>
    obtain ⟨E, A, M, Q, he⟩ := (s.emit (.semCall x c (s.sem x).counter)).newLink_frame (.sem x)
    refine .kept ⟨?_, [.semCall x c (s.sem x).counter, .semRaised x t], ?_, by simp [Obs.queue?]⟩
    · rw [h₁.eq]; exact ⟨rfl, rfl, rfl⟩
    · rw [h₁.eq, he]; exact List.append_assoc _ _ _
  | semWaited _ x w o s₁ ho h₁ =>
    obtain ⟨E, A, M, Q, he⟩ := s.setLinks_frame ((s.links (.sem x)).erase w) (.sem x)
    refine .kept ⟨?_, [o], ?_, ?_⟩
    · rw [h₁.eq]; exact ⟨rfl, rfl, rfl⟩
    · rw [h₁.eq, State.unlink, he]; rfl
    · rcases ho.ends with ⟨_, _, rfl⟩ | ⟨_, _, rfl⟩ | ⟨_, rfl⟩ <;> simp [Obs.queue?]
  | link _ y =>
    refine .kept ⟨?_, [], ?_, by simp⟩
    · exact State.setLinks_same _ y q
    · obtain ⟨E, A, M, Q, he⟩ := s.newLink_frame y
      rw [he]; simp [Hub.waiter, State.setWaiter]
  | unlink _ y w =>
    refine .kept ⟨State.setLinks_same _ y q, [], ?_, by simp⟩
    obtain ⟨E, A, M, Q, he⟩ := s.setLinks_frame ((s.links y).erase w) y
    rw [State.unlink, he]; simp
  | endNotify _ y =>
    refine .kept ⟨endNotify_same y q, [], ?_, by simp⟩
    obtain ⟨E, Q, he⟩ := endNotify_frame s y
    rw [he]; simp
  | put _ q' item hr =>
    by_cases hq : q' = q
    · subst hq; exact .put item (hr.resolve_left hraw) rfl
    · refine .kept ⟨?_, [.inserted q' item, .putDone q' item], ?_, by simp [Obs.queue?, hq]⟩
      · show (s.queue q).Same ((Queue._put s q' item).queue q)
        rw [Queue._put_queue, Function.update_of_ne (Ne.symm hq)]
        exact ⟨rfl, rfl, rfl⟩
      · simp [State.emit, Queue._put_log]
  | get _ q' item s₁ hs =>
    by_cases hq : q' = q
    · subst hq; exact .get item s₁ hs rfl
    · refine .kept ⟨?_, [.removed q' item, .gotItem q' item], ?_, by simp [Obs.queue?, hq]⟩
      · show (s.queue q).Same (s₁.queue q)
        rw [Queue._get_queue hs, Function.update_of_ne (Ne.symm hq)]
        exact ⟨rfl, rfl, rfl⟩
      · simp [State.emit, Queue._get_log s hs]

/-! ## The queue as a buffer -/

/-- Nothing is lost, duplicated or reordered, the bound holds, and what the
    calls have put and got is what was inserted and removed. -/
structure State.QueueInv (s : State) (q : QueueId) : Prop where
  fifo : (s.fifo q).Inv (s.queue q).maxsize
  length : (s.queue q).length = (s.queue q).items.length
  puts : s.puts q = s.inserted q
  gots : s.gots q = s.removed q
  asserts : .assertGet q ∉ s.log

theorem Queue.hasRoom_iff {o : Queue} : o.hasRoom = true ↔ ∀ n ∈ o.maxsize, o.length < n := by
  cases h : o.maxsize <;> simp [Queue.hasRoom, h]

theorem State.QueueKept.fifo_eq (h : s.QueueKept q s') : s'.fifo q = s.fifo q ∧
    s'.puts q = s.puts q ∧ s'.gots q = s.gots q ∧ (.assertGet q ∈ s'.log ↔ .assertGet q ∈ s.log) := by
  obtain ⟨os, hl, ho⟩ := h.log
  have hins := filterMap_quiet (l := s.log) fun o hm => (Obs.quiet (ho o hm)).1
  have hrem := filterMap_quiet (l := s.log) fun o hm => (Obs.quiet (ho o hm)).2.1
  have hput := filterMap_quiet (l := s.log) fun o hm => (Obs.quiet (ho o hm)).2.2.1
  have hgot := filterMap_quiet (l := s.log) fun o hm => (Obs.quiet (ho o hm)).2.2.2.1
  refine ⟨?_, ?_, ?_, ?_⟩
  · simp only [State.fifo, State.inserted, State.removed, hl, hins, hrem, h.same.1]
  · simp only [State.puts, hl, hput]
  · simp only [State.gots, hl, hgot]
  · rw [hl, List.mem_append]
    refine ⟨fun h => h.resolve_right fun hm => ?_, Or.inl⟩
    exact (Obs.quiet (ho _ hm)).2.2.2.2 rfl

/-- **The queue refines the bounded buffer.** -/
theorem State.QueueStep.fifo_step (h : s.QueueStep q s')
    (hl : (s.queue q).length = (s.queue q).items.length) :
    Fifo.Step (s.queue q).maxsize (s.fifo q) (s'.fifo q) := by
  cases h with
  | kept hk => rw [hk.fifo_eq.1]; exact .stay _
  | put item hr hs =>
    have h1 : s'.fifo q = ⟨(s.fifo q).contents ++ [item], (s.fifo q).ins ++ [item], (s.fifo q).outs⟩ := by
      subst hs
      simp only [State.fifo, State.inserted, State.removed, State.emit, Queue._put_log,
        Queue._put_queue, Function.update_self, hl]
      simp [List.filterMap_cons, Obs.insertedIn, Obs.removedFrom]
    rw [h1]
    refine .put _ _ fun n hn => ?_
    exact hl ▸ Queue.hasRoom_iff.1 hr n hn
  | get item s₁ hg hs =>
    obtain ⟨hpos, hitem, -⟩ := Queue._get_ok.1 hg
    obtain ⟨x, xs, hx⟩ := List.exists_cons_of_length_pos (hl ▸ hpos)
    have h0 : s.fifo q = ⟨x :: xs, s.inserted q, s.removed q⟩ := by simp only [State.fifo, hx]
    have h1 : s'.fifo q = ⟨xs, s.inserted q, s.removed q ++ [x]⟩ := by
      subst hs
      simp only [State.fifo, State.inserted, State.removed, State.emit, Queue._get_log s hg,
        Queue._get_queue hg, Function.update_self, Queue.removed, hx, hitem]
      simp [List.filterMap_cons, Obs.insertedIn, Obs.removedFrom]
    rw [h0, h1]; exact .get x xs _ _

theorem State.QueueInv.step (h : s.QueueInv q) (hs : s.QueueStep q s') :
    s'.QueueInv q ∧ (s'.queue q).maxsize = (s.queue q).maxsize := by
  have hf := (hs.fifo_step h.length).inv h.fifo
  cases hs with
  | kept hk =>
    obtain ⟨-, hp, hg, ha⟩ := hk.fifo_eq
    obtain ⟨hi, hr⟩ : s'.inserted q = s.inserted q ∧ s'.removed q = s.removed q := by
      have := hk.fifo_eq.1
      simp only [State.fifo, Fifo.mk.injEq] at this
      exact this.2
    refine ⟨⟨hk.same.2.2 ▸ hf, ?_, by rw [hp, hi, h.puts], by rw [hg, hr, h.gots],
      fun hm => h.asserts (ha.1 hm)⟩, hk.same.2.2⟩
    rw [hk.same.1, hk.same.2.1]; exact h.length
  | put item _ hs =>
    subst hs
    have hmax : (((Queue._put s q item).emit (.putDone q item)).queue q).maxsize =
        (s.queue q).maxsize := by
      simp [State.emit, Queue._put_queue]
    refine ⟨⟨hmax ▸ hf, ?_, ?_, ?_, ?_⟩, hmax⟩
    · simp [State.emit, Queue._put_queue, h.length]
    · have := h.puts
      simp only [State.puts, State.inserted, State.emit, Queue._put_log] at *
      simp [List.filterMap_cons, Obs.insertedIn, Obs.putIn, this]
    · have := h.gots
      simp only [State.gots, State.removed, State.emit, Queue._put_log] at *
      simp [List.filterMap_cons, Obs.removedFrom, Obs.gotFrom, this]
    · have := h.asserts
      simp [State.emit, Queue._put_log, this]
  | get item s₁ hg hs =>
    subst hs
    have hmax : ((s₁.emit (.gotItem q item)).queue q).maxsize = (s.queue q).maxsize := by
      simp [State.emit, Queue._get_queue hg, Queue.removed]
    refine ⟨⟨hmax ▸ hf, ?_, ?_, ?_, ?_⟩, hmax⟩
    · simp [State.emit, Queue._get_queue hg, Queue.removed, h.length]
    · have := h.puts
      simp only [State.puts, State.inserted, State.emit, Queue._get_log s hg] at *
      simp [List.filterMap_cons, Obs.insertedIn, Obs.putIn, this]
    · have := h.gots
      simp only [State.gots, State.removed, State.emit, Queue._get_log s hg] at *
      simp [List.filterMap_cons, Obs.removedFrom, Obs.gotFrom, this]
    · have := h.asserts
      simp [State.emit, Queue._get_log s hg, this]

/-! ## Wake-ups -/

/-- Where there is something to do for a registered waiter, the notification is
    armed. -/
structure State.WakeInv (s : State) (q : QueueId) : Prop where
  get : 0 < (s.queue q).length → (s.links (.get q)).Nonempty → s.flag (.get q) = true
  put : (s.queue q).isFull = false → (s.links (.put q)).Nonempty → s.flag (.put q) = true

theorem State.WakeInv.keep (h : s.WakeInv q) (hs : (s.queue q).Same (s'.queue q))
    (hl : ∀ y, s'.links y ⊆ s.links y) (hf : ∀ y, s.flag y = true → s'.flag y = true) :
    s'.WakeInv q where
  get hlen hne := hf _ (h.get (hs.2.1 ▸ hlen) (hne.mono (hl _)))
  put hful hne := hf _ (h.put (hs.isFull ▸ hful) (hne.mono (hl _)))

/-- What leaves the queues as they are keeps the invariant. -/
theorem State.WakeInv.of_queue (h : s.WakeInv q) (hq : s'.queue = s.queue) : s'.WakeInv q := by
  obtain ⟨hget, hput⟩ := h
  constructor
  · simpa only [State.links, State.flag, hq] using hget
  · simpa only [State.links, State.flag, hq] using hput

/-- A queue without room is full. -/
theorem State.QueueInv.isFull (h : s.QueueInv q) (hr : ¬ (s.queue q).hasRoom) :
    (s.queue q).isFull = true := by
  rw [Queue.hasRoom_iff] at hr
  push Not at hr
  obtain ⟨n, hn, hle⟩ := hr
  have h1 := h.fifo.bound n hn
  have h2 := h.length
  have h3 : (s.fifo q).contents.length = (s.queue q).items.length := rfl
  simp only [Queue.isFull, Option.mem_def.1 hn, beq_iff_eq]
  omega

theorem State.QueueInv.not_isFull (h : s.QueueInv q) (hr : (s.queue q).hasRoom) :
    (s.queue q).isFull = false := by
  have h2 := h.length
  cases hm : (s.queue q).maxsize with
  | none => simp [Queue.isFull, hm]
  | some n =>
    have := Queue.hasRoom_iff.1 hr n hm
    simp only [Queue.isFull, hm, beq_eq_false_iff_ne]
    omega

theorem State.WakeInv.micro (hm : Micro R p s p' s') (hraw : ¬ R.raw) (hq : s.QueueInv q)
    (h : s.WakeInv q) : s'.WakeInv q := by
  have same : (s.queue q).Same (s.queue q) := ⟨rfl, rfl, rfl⟩
  cases hm with
  | env _ _ _ he =>
    rw [he.eq]
    exact h.of_queue rfl
  | waiter _ _ he =>
    rw [he.eq]
    exact h.of_queue rfl
  | goOn | answer | mainDone | enter | post | pop | begin | rawCreate | spawn | emit | semPass
  | returned | failed | kill | start | block | mainGet | settledGet | assertGet =>
    exact h.of_queue rfl
  | eventSet _ e =>
    obtain ⟨E, C, L, he, -⟩ := Event.set_frame s e
    rw [he]
    exact h.of_queue rfl
  | eventClear _ e => exact h.of_queue rfl
  | asyncSet _ a v e _ hs =>
    obtain ⟨-, rfl⟩ := AsyncResult._set_ok.1 hs
    exact h.of_queue rfl
  | semRelease _ x =>
    obtain ⟨M, C, L, he, -⟩ := Semaphore.release_frame s x
    rw [he]
    exact h.of_queue rfl
  | semAcquire _ x => exact h.of_queue rfl
  | abort _ y w =>
    obtain ⟨E, L, he⟩ := s.takes_frame w (some y)
    refine h.keep (by rw [he]; exact same) (fun y' => (s.takes_links w (some y) y').subset)
      fun y' hy => ?_
    rw [← s.takes_flag w (some y) y'] at hy
    rw [← hy]; cases y' <;> rfl
  | settle _ w v e b =>
    obtain ⟨E, L, he⟩ := s.takes_frame w b
    refine h.keep (by rw [he]; exact same) (fun y' => (s.takes_links w b y').subset) fun y' hy => ?_
    rw [← s.takes_flag w b y'] at hy
    rw [← hy]; cases y' <;> rfl
  | resume _ c w k v e b =>
    obtain ⟨E, L, he⟩ := s.takes_frame w b
    refine h.keep (by rw [he]; exact same) (fun y' => (s.takes_links w b y').subset) fun y' hy => ?_
    rw [← s.takes_flag w b y'] at hy
    rw [← hy]; cases y' <;> rfl
  | semRefuse _ x c t s₁ _ h₁ =>
    have hq' : s₁.queue = s.queue := by rw [h₁.eq]; rfl
    exact h.of_queue hq'
  | semWaited _ x w o s₁ _ h₁ =>
    have hq' : s₁.queue = s.queue := by rw [h₁.eq]; rfl
    exact h.of_queue hq'
  | link _ y hy hput hget =>
    have hs := State.setLinks_same (s := (Hub.waiter s).2) (insert s.nextWaiter (s.links y)) y q
    have hf := s.newLink_flag y
    have hlen' : ((s.newLink y).queue q).length = (s.queue q).length := hs.2.1
    have hful' : ((s.newLink y).queue q).isFull = (s.queue q).isFull := hs.isFull
    refine ⟨fun hlen hne => ?_, fun hful hne => ?_⟩
    · rw [hlen'] at hlen
      rw [s.newLink_links] at hne
      rw [hf]
      split at hne
      · rename_i hyq; rw [hget q hyq.symm] at hlen; exact absurd hlen (lt_irrefl 0)
      · exact h.get hlen hne
    · rw [hful'] at hful
      rw [s.newLink_links] at hne
      rw [hf]
      split at hne
      · rename_i hyq; rw [hq.isFull (hput q hyq.symm)] at hful; cases hful
      · exact h.put hful hne
  | unlink _ y w =>
    refine h.keep (State.setLinks_same _ y q) (fun y' => ?_) fun y' hy' =>
      (s.setLinks_flag _ y y').trans hy'
    rw [s.unlink_links]
    split
    · rename_i hy; subst hy; exact Finset.erase_subset _ _
    · exact subset_rfl
  | endNotify _ y hmain _ hput hget =>
    have hs := endNotify_same (s := s) y q
    refine ⟨fun hlen hne => ?_, fun hful hne => ?_⟩
    · rw [hs.2.1] at hlen
      rw [endNotify_links] at hne
      by_cases hy : Sync.get q = y
      · rcases hget q hy.symm with h0 | h0
        · omega
        · exact absurd h0 (Finset.nonempty_iff_ne_empty.1 hne)
      · rw [endNotify_flag_ne s hy]; exact h.get hlen hne
    · rw [hs.isFull] at hful
      rw [endNotify_links] at hne
      by_cases hy : Sync.put q = y
      · rcases hput q hy.symm with h0 | h0
        · rw [h0] at hful; cases hful
        · exact absurd h0 (Finset.nonempty_iff_ne_empty.1 hne)
      · rw [endNotify_flag_ne s hy]; exact h.put hful hne
  | put _ q' item hr =>
    have hl : ∀ y, ((Queue._put s q' item).emit (.putDone q' item)).links y = s.links y :=
      Queue._put_links s q' item
    have hf : ∀ y, ((Queue._put s q' item).emit (.putDone q' item)).flag y =
        (Queue._put s q' item).flag y := fun y => by cases y <;> rfl
    by_cases hqq : q = q'
    · subst hqq
      refine ⟨fun _ hne => ?_, fun hful hne => ?_⟩
      · rw [hl] at hne
        rw [hf, Queue._put_flag, if_pos rfl]
        have hne' : (s.queue q).getters.Nonempty := hne
        simp only [Queue.armsGet, hne', decide_true, Bool.and_true, State.flag]
        cases (s.queue q).isInGetUnlock <;> rfl
      · rw [hl] at hne
        rw [hf, Queue._put_flag, if_neg (by simp)]
        exact h.put (hq.not_isFull (hr.resolve_left hraw)) hne
    · have hs : (s.queue q).Same (((Queue._put s q' item).emit (.putDone q' item)).queue q) := by
        show (s.queue q).Same ((Queue._put s q' item).queue q)
        rw [Queue._put_queue, Function.update_of_ne hqq]
        exact same
      refine h.keep hs (fun y => (hl y).subset) fun y hy => ?_
      rw [hf, Queue._put_flag, hy]; split <;> rfl
  | get _ q' item s₁ hs =>
    have hl₁ := Queue._get_links s hs
    have hl : ∀ y, (s₁.emit (.gotItem q' item)).links y = s.links y := hl₁
    have hf : ∀ y, (s₁.emit (.gotItem q' item)).flag y = s₁.flag y := fun y => by cases y <;> rfl
    have hqu := Queue._get_queue hs
    by_cases hqq : q = q'
    · subst hqq
      refine ⟨fun hlen hne => ?_, fun hful hne => ?_⟩
      · rw [hl] at hne
        rw [hf, Queue._get_flag s hs, if_neg (by simp)]
        refine h.get ?_ hne
        exact (Queue._get_ok.1 hs).1
      · rw [hl] at hne
        rw [hf, Queue._get_flag s hs, if_pos rfl]
        have hne' : (s.queue q).putters.Nonempty := hne
        simp only [Queue.removed, hne', decide_true, Bool.and_true, State.flag]
        cases (s.queue q).isInPutUnlock <;> rfl
    · have hsame : (s.queue q).Same ((s₁.emit (.gotItem q' item)).queue q) := by
        show (s.queue q).Same (s₁.queue q)
        rw [hqu, Function.update_of_ne hqq]
        exact same
      refine h.keep hsame (fun y => (hl y).subset) fun y hy => ?_
      rw [hf, Queue._get_flag s hs, hy]; split <;> rfl

end Levent
