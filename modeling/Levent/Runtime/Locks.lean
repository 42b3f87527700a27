/-
  What the operations do to the waiters registered at the locks and to the
  notifications in the callback queue.
-/
import Levent.Runtime.HubInv
import Levent.Lib.Armed

namespace Levent

open Lib (Armed)

/-- A field an update does not change. -/
theorem update_keep {α β γ : Type*} [DecidableEq α] {f : α → β} {a : α} {b : β} (g : β → γ)
    (h : g b = g (f a)) (a' : α) : g (Function.update f a b a') = g (f a') := by
  by_cases ha : a' = a
  · subst ha; simpa using h
  · simp [ha]

/-! ## Registered waiters -/

section
variable (s : State)

theorem State.setEvent_links (e : EventId) (o : Event) (ho : o.links = (s.event e).links)
    (y : Sync) : (s.setEvent e o).links y = s.links y := by
  cases y with
  | event e' => exact update_keep (f := s.event) Event.links ho e'
  | async | sem | put | get => rfl

theorem State.setAsync_links (a : AsyncId) (o : AsyncResult) (ho : o.links = (s.async a).links)
    (y : Sync) : (s.setAsync a o).links y = s.links y := by
  cases y with
  | async a' => exact update_keep (f := s.async) AsyncResult.links ho a'
  | event | sem | put | get => rfl

theorem State.setSem_links (x : SemId) (o : Semaphore) (ho : o.links = (s.sem x).links)
    (y : Sync) : (s.setSem x o).links y = s.links y := by
  cases y with
  | sem x' => exact update_keep (f := s.sem) Semaphore.links ho x'
  | event | async | put | get => rfl

theorem State.setQueue_links (q : QueueId) (o : Queue) (hp : o.putters = (s.queue q).putters)
    (hg : o.getters = (s.queue q).getters) (y : Sync) : (s.setQueue q o).links y = s.links y := by
  cases y with
  | put q' => exact update_keep (f := s.queue) Queue.putters hp q'
  | get q' => exact update_keep (f := s.queue) Queue.getters hg q'
  | event | async | sem => rfl

theorem Event.set_links (e : EventId) (y : Sync) : (Event.set s e).links y = s.links y := by
  unfold Event.set; dsimp only
  split
  all_goals exact s.setEvent_links e _ (by rfl) y

theorem Event.clear_links (e : EventId) (y : Sync) : (Event.clear s e).links y = s.links y :=
  s.setEvent_links e _ (by rfl) y

theorem AsyncResult._set_links {a : AsyncId} {v e : Value} {s' : State}
    (h : AsyncResult._set s a v e = .ok s') (y : Sync) : s'.links y = s.links y := by
  obtain ⟨-, rfl⟩ := AsyncResult._set_ok.1 h
  exact s.setAsync_links a _ (by rfl) y

theorem Semaphore.release_links (x : SemId) (y : Sync) :
    (Semaphore.release s x).links y = s.links y := by
  have h := s.setSem_links x { s.sem x with counter := (s.sem x).counter + 1 } rfl y
  unfold Semaphore.release; dsimp only
  split
  · exact (State.setSem_links _ x _ (by rfl) y).trans h
  · exact h

theorem Queue._put_links (q : QueueId) (item : Value) (y : Sync) :
    (Queue._put s q item).links y = s.links y := by
  unfold Queue._put; dsimp only
  split
  all_goals exact (Event.clear_links _ (.cond q) y).trans (s.setQueue_links q _ (by rfl) (by rfl) y)

theorem Queue._get_links {q : QueueId} {item : Value} {s' : State}
    (h : Queue._get s q = .ok (item, s')) (y : Sync) : s'.links y = s.links y := by
  obtain ⟨-, -, rfl⟩ := Queue._get_ok.1 h
  split
  all_goals exact s.setQueue_links q _ (by rfl) (by rfl) y

theorem endNotify_links (y y' : Sync) : (endNotify s y).links y' = s.links y' := by
  cases y with
  | event e => exact s.setEvent_links e _ (by rfl) y'
  | async | sem => rfl
  | put q => exact s.setQueue_links q _ (by rfl) (by rfl) y'
  | get q => exact s.setQueue_links q _ (by rfl) (by rfl) y'

theorem State.takes_links (w : WaiterId) (b : Option Sync) (y : Sync) :
    (s.takes w b).links y = s.links y := by
  rcases b with _ | y'
  · rfl
  · cases y' with
    | event e => exact s.setEvent_links e _ (by rfl) y
    | async | sem | put | get => rfl

theorem State.setLinks_links (L : Finset WaiterId) (y y' : Sync) :
    (s.setLinks L y).links y' = if y' = y then L else s.links y' := by
  split
  · rename_i h
    subst h
    cases y' <;> simp [State.setLinks, State.links, State.setEvent, State.setAsync, State.setSem,
      State.setQueue]
  · rename_i h
    cases y <;> cases y' <;> try rfl
    all_goals
      rename_i i i'
      by_cases hi : i' = i
      · subst hi
        first
          | exact absurd rfl h
          | simp [State.setLinks, State.links, State.setQueue]
      · simp [State.setLinks, State.links, State.setEvent, State.setAsync, State.setSem,
          State.setQueue, hi]

theorem State.newLink_links (y y' : Sync) :
    (s.newLink y).links y' = if y' = y then insert s.nextWaiter (s.links y) else s.links y' :=
  State.setLinks_links _ _ y y'

theorem State.unlink_links (y : Sync) (w : WaiterId) (y' : Sync) :
    (s.unlink y w).links y' = if y' = y then (s.links y).erase w else s.links y' :=
  State.setLinks_links _ _ y y'

/-! ## The waiters an event is about to notify -/

theorem State.setEvent_todo (e : EventId) (o : Event) (ho : o.todo = (s.event e).todo)
    (e' : EventId) : ((s.setEvent e o).event e').todo = (s.event e').todo :=
  update_keep (f := s.event) Event.todo ho e'

theorem Event.set_todo (e e' : EventId) :
    ((Event.set s e).event e').todo =
      if e' = e then (s.event e).todo ∪ (s.event e).links else (s.event e').todo := by
  have h : ((Event.set s e).event e').todo =
      (Function.update s.event e { s.event e with
        flag := true, todo := (s.event e).todo ∪ (s.event e).links, notifier := true } e').todo := by
    unfold Event.set; dsimp only
    split <;> rfl
  rw [h]
  split
  · rename_i he; subst he; simp
  · rename_i he; simp [he]

theorem Event.clear_todo (e e' : EventId) :
    ((Event.clear s e).event e').todo = (s.event e').todo :=
  s.setEvent_todo e _ (by rfl) e'

theorem Queue._put_todo (q : QueueId) (item : Value) (e : EventId) :
    ((Queue._put s q item).event e).todo = (s.event e).todo := by
  unfold Queue._put; dsimp only
  split
  all_goals exact Event.clear_todo _ (.cond q) e

theorem endNotify_todo (y : Sync) (e : EventId) :
    ((endNotify s y).event e).todo = (s.event e).todo := by
  cases y with
  | event e' => exact s.setEvent_todo e' _ (by rfl) e
  | async | sem | put | get => rfl

theorem State.setLinks_todo (L : Finset WaiterId) (y : Sync) (e : EventId) :
    ((s.setLinks L y).event e).todo = (s.event e).todo := by
  cases y with
  | event e' => exact s.setEvent_todo e' _ (by rfl) e
  | async | sem | put | get => rfl

theorem State.take_todo (y : Sync) (w : WaiterId) (e : EventId) :
    ((s.take y w).event e).todo = if y = .event e then (s.event e).todo.erase w
      else (s.event e).todo := by
  cases y with
  | event e' =>
    by_cases he : e = e'
    · subst he; simp [State.take, State.setEvent]
    · have : ¬ (Sync.event e' = Sync.event e) := by rintro ⟨⟩; exact he rfl
      simp [State.take, State.setEvent, he, this]
  | async | sem | put | get => simp [State.take]

theorem State.takes_todo (w : WaiterId) (b : Option Sync) (e : EventId) :
    ((s.takes w b).event e).todo = if b = some (.event e) then (s.event e).todo.erase w
      else (s.event e).todo := by
  rcases b with _ | y
  · simp [State.takes]
  · simp only [State.takes, Option.some.injEq]
    exact s.take_todo y w e

theorem State.takes_todo_subset (w : WaiterId) (b : Option Sync) (e : EventId) :
    ((s.takes w b).event e).todo ⊆ (s.event e).todo := by
  rw [s.takes_todo]
  split
  · exact Finset.erase_subset _ _
  · exact subset_rfl

/-! ## What is recorded -/

theorem Event.set_log (e : EventId) :
    (Event.set s e).log = s.log ++ [.eventSet e (s.event e).links] := by
  unfold Event.set; dsimp only
  split <;> rfl

theorem Semaphore.release_log (x : SemId) : (Semaphore.release s x).log = s.log ++ [.released x] := by
  unfold Semaphore.release; dsimp only
  split <;> rfl

theorem Queue._put_log (q : QueueId) (item : Value) :
    (Queue._put s q item).log = s.log ++ [.inserted q item] := by
  unfold Queue._put; dsimp only
  split <;> rfl

theorem Queue._get_log {q : QueueId} {item : Value} {s' : State}
    (h : Queue._get s q = .ok (item, s')) : s'.log = s.log ++ [.removed q item] := by
  obtain ⟨-, -, rfl⟩ := Queue._get_ok.1 h
  split <;> rfl

theorem State.takes_log (w : WaiterId) (b : Option Sync) :
    (s.takes w b).log = s.log ++ b.toList.map fun y => .notified y w := by
  rcases b with _ | y
  · simp [State.takes]
  · obtain ⟨E, he⟩ := s.take_frame y w
    simp only [State.takes]
    rw [he]; rfl

theorem State.settle_log (w : WaiterId) (v x : Value) (b : Option Sync) :
    ((s.takes w b).settle w v x).log =
      s.log ++ (b.toList.map (fun y => .notified y w) ++ [.settled w v x]) := by
  simp [State.settle, State.setWaiter, State.emit, s.takes_log w b]

theorem State.resume_log (c : Co) (w : WaiterId) (v x : Value) (b : Option Sync) :
    ((s.takes w b).resume c w v x).log = s.log ++ (b.toList.map (fun y => .notified y w) ++
      [.settled w v x, .getDone w (Waiter.result ⟨(s.waiter w).co, v, x⟩)]) := by
  have hl := s.takes_log w b
  obtain ⟨E, L, he⟩ := s.takes_frame w b
  rw [he] at hl ⊢
  simp only at hl
  simp [State.resume, State.settle, State.setWaiter, State.emit, hl]

theorem State.abort_log (w : WaiterId) (y : Sync) :
    ({ s.takes w (some y) with main := .idle }.emit (.aborted y)).log =
      s.log ++ [.notified y w, .aborted y] := by
  simp [State.emit, s.takes_log w (some y)]

end

end Levent
