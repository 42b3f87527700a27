/-
  The invariants of the hub and of the coroutine pool, kept by every micro step.
-/
import Levent.Runtime.Micro

namespace Levent

/-! ## The invariants -/

/-- Waiters, suspended coroutines and `hub.waiters` agree; the entry of the
    main coroutine is what a failed `get` of its own leaves. -/
structure HubInv (mode : Co → Mode) (waiters : Co → Option WaiterId) (waiter : WaiterId → Waiter)
    (next : ℕ) (cur : Option Co) (main : Main) : Prop where
  blocked : ∀ {c w k}, mode c = .blocked w k →
    waiters c = some w ∧ (waiter w).co = some c ∧ (waiter w).exception = .bool false
  entry : ∀ {c w}, c ≠ 0 → waiters c = some w → ∃ k, mode c = .blocked w k
  mainEntry : ∀ {w}, waiters 0 = some w → (waiter w).co = some 0
  waiting : ∀ {c w}, c ≠ 0 → (waiter w).co = some c → (waiter w).exception = .bool false →
    ∃ k, mode c = .blocked w k
  fresh : ∀ {w}, next ≤ w → waiter w = Waiter._init
  resumed : ∀ {c}, cur = some c → c ≠ 0 ∧ (mode c).Active
  active : ∀ {c}, c ≠ 0 → (mode c).Active → cur = some c
  mainMode : mode 0 = .running ∨ (main = .user ∧ ∃ i f, mode 0 = .sys i f)

def State.HubInv (s : State) : Prop :=
  Levent.HubInv s.mode s.waiters s.waiter s.nextWaiter s.cur s.main

/-- The pool holds coroutines without a function, the queue starts each
    coroutine with a function once. -/
structure PoolInv (mode : Co → Mode) (pool : List Co) (total : ℕ) (callbacks : List Callback) :
    Prop where
  pooled : ∀ {c}, c ∈ pool → mode c = .pooled
  nodup : pool.Nodup
  unused : ∀ {c}, mode c = .unused ↔ total < c
  ready : ∀ {c}, c ∈ resumed callbacks → ∃ f, mode c = .ready (some f)
  once : (resumed callbacks).Nodup

def State.PoolInv (s : State) : Prop := Levent.PoolInv s.mode s.pool s.total s.callbacks

/-! ## Reading the invariants -/

section
variable {s : State} (h : s.HubInv)
include h

theorem State.HubInv.mode_zero_not_blocked (w : WaiterId) (k : Call) : s.mode 0 ≠ .blocked w k := by
  intro hb
  rcases h.mainMode with hm | ⟨-, i, f, hm⟩ <;> rw [hm] at hb <;> cases hb

/-- A suspended coroutine is not the main one. -/
theorem State.HubInv.ne_zero {c : Co} {w : WaiterId} {k : Call} (hb : s.mode c = .blocked w k) :
    c ≠ 0 := by
  rintro rfl; exact h.mode_zero_not_blocked w k hb

/-- Two coroutines do not wait on one waiter. -/
theorem State.HubInv.blocked_inj {c c' : Co} {w : WaiterId} {k k' : Call}
    (hb : s.mode c = .blocked w k) (hb' : s.mode c' = .blocked w k') : c = c' ∧ k = k' := by
  have h1 := (h.blocked hb).2.1
  rw [(h.blocked hb').2.1] at h1
  cases h1; rw [hb] at hb'; cases hb'; exact ⟨rfl, rfl⟩

/-- The coroutine whose turn it is has no entry, unless it is the main one. -/
theorem State.HubInv.turn_entry {c : Co} (ht : s.Turn c) (hc : c ≠ 0) : s.waiters c = none := by
  rcases he : s.waiters c with _ | w
  · rfl
  · obtain ⟨k, hk⟩ := h.entry hc he
    rw [ht.1] at hk; cases hk

theorem State.HubInv.lt_next {w : WaiterId} (hw : s.waiter w ≠ Waiter._init) : w < s.nextWaiter := by
  by_contra hn; exact hw (h.fresh (Nat.le_of_not_lt hn))

end

/-! ## Micro steps keep the invariants -/

theorem State.Turn.cur_eq {s : State} {c : Co} (h : s.Turn c) (hc : c ≠ 0) : s.cur = some c := by
  rcases h.2 with ⟨-, h⟩ | ⟨h, -⟩
  · exact h
  · exact absurd h hc

theorem State.Turn.zero {s : State} (h : s.Turn 0) : s.cur = none ∧ s.main = .user := by
  rcases h.2 with ⟨h, -⟩ | ⟨-, h⟩
  · exact absurd rfl h
  · exact h

theorem update_blocked {mode : Co → Mode} {c : Co} {m : Mode} (hb : ∀ w k, mode c ≠ .blocked w k)
    (hm : ∀ w k, m ≠ .blocked w k) {c' : Co} {w : WaiterId} {k : Call} :
    Function.update mode c m c' = .blocked w k ↔ mode c' = .blocked w k := by
  by_cases hc : c' = c
  · subst hc; simp [hb, hm]
  · simp [hc]

section
variable {s : State} (h : s.HubInv)
include h

/-- A coroutine that is not suspended in a `get` changes its mode. -/
theorem HubInv.update_mode {c : Co} {m : Mode} {cur : Option Co} {main : Main}
    (hb : ∀ w k, s.mode c ≠ .blocked w k) (hm : ∀ w k, m ≠ .blocked w k)
    (hr : ∀ {c'}, cur = some c' → c' ≠ 0 ∧ (Function.update s.mode c m c').Active)
    (ha : ∀ {c'}, c' ≠ 0 → (Function.update s.mode c m c').Active → cur = some c')
    (h0 : Function.update s.mode c m 0 = .running ∨
      (main = .user ∧ ∃ i f, Function.update s.mode c m 0 = .sys i f)) :
    HubInv (Function.update s.mode c m) s.waiters s.waiter s.nextWaiter cur main where
  blocked hk := h.blocked ((update_blocked hb hm).1 hk)
  entry hc hw := (h.entry hc hw).imp fun _ => (update_blocked hb hm).2
  mainEntry := h.mainEntry
  waiting hc hw hx := (h.waiting hc hw hx).imp fun _ => (update_blocked hb hm).2
  fresh := h.fresh
  resumed := hr
  active := ha
  mainMode := h0

theorem HubInv.main_running (hm : s.main ≠ .user) : s.mode 0 = .running :=
  h.mainMode.resolve_right fun hu => hm hu.1

/-- Only the main coroutine's activity changes. -/
theorem HubInv.set_main {main : Main} (hm : s.mode 0 = .running) :
    HubInv s.mode s.waiters s.waiter s.nextWaiter s.cur main :=
  { h with mainMode := Or.inl hm }

/-- The running coroutine goes on, in its own code or at a system call. -/
theorem HubInv.go_on {c : Co} {m : Mode} (hc : (s.mode c).Active) (hm : m.Active)
    (h0 : c = 0 → m = .running ∨ s.main = .user) : (s.setMode c m).HubInv := by
  refine HubInv.update_mode h (fun w k hb => ?_) (fun w k hb => ?_) (fun {c'} hr => ?_)
    (fun {c'} h0' ha => ?_) ?_
  · rw [hb] at hc; exact hc
  · rw [hb] at hm; exact hm
  · obtain ⟨h1, h2⟩ := h.resumed hr
    refine ⟨h1, ?_⟩
    by_cases hcc : c' = c
    · subst hcc; simpa using hm
    · simpa [hcc] using h2
  · refine h.active h0' ?_
    by_cases hcc : c' = c
    · subst hcc; exact hc
    · simpa [hcc] using ha
  · by_cases hcc : 0 = c
    · subst hcc
      rcases h0 rfl with rfl | hu
      · simp
      · cases m <;> simp [Mode.Active] at hm
        · simp
        · simpa [State.setMode] using hu
    · simpa [State.setMode, hcc] using h.mainMode

/-- The running coroutine ends, or the pool gives a function to one of its own. -/
theorem HubInv.leave {c : Co} {m : Mode} {cur : Option Co} (hc : c ≠ 0)
    (hb : ∀ w k, s.mode c ≠ .blocked w k) (hm : ¬ m.Active) (hm' : ∀ w k, m ≠ .blocked w k)
    (hcur : (cur = none ∧ s.cur = some c) ∨ (cur = s.cur ∧ ¬ (s.mode c).Active)) :
    HubInv (Function.update s.mode c m) s.waiters s.waiter s.nextWaiter cur s.main := by
  refine HubInv.update_mode h hb hm' (fun {c'} hr => ?_) (fun {c'} h0 ha => ?_) ?_
  · rcases hcur with ⟨rfl, -⟩ | ⟨rfl, hn⟩
    · cases hr
    · obtain ⟨h1, h2⟩ := h.resumed hr
      have hcc : c' ≠ c := by rintro rfl; exact hn h2
      exact ⟨h1, by simpa [hcc] using h2⟩
  · have hcc : c' ≠ c := by rintro rfl; simp [hm] at ha
    have h1 := h.active h0 (by simpa [hcc] using ha)
    rcases hcur with ⟨-, h2⟩ | ⟨rfl, -⟩
    · rw [h1] at h2; cases h2; exact absurd rfl hcc
    · exact h1
  · simpa [hc.symm] using h.mainMode

/-- A coroutine is resumed for the first time. -/
theorem HubInv.begin_task {c : Co} {f : TaskId} (hcur : s.cur = none)
    (hc : s.mode c = .ready (some f)) :
    HubInv (Function.update s.mode c .running) s.waiters s.waiter s.nextWaiter (some c) s.main := by
  have h0 : c ≠ 0 := by
    rintro rfl
    rcases h.mainMode with hm | ⟨-, i, f', hm⟩ <;> rw [hm] at hc <;> cases hc
  refine HubInv.update_mode h (by simp [hc]) (by simp) (fun {c'} hr => ?_) (fun {c'} h0' ha => ?_) ?_
  · cases hr; exact ⟨h0, by simp [Mode.Active]⟩
  · by_contra hcc
    have hcc' : c' ≠ c := fun he => hcc (by rw [he])
    have := h.active h0' (by simpa [hcc'] using ha)
    rw [hcur] at this; cases this
  · simpa [h0.symm] using h.mainMode

/-- A running coroutine is suspended in `w:get()`. -/
theorem HubInv.block {c : Co} {w : WaiterId} (k : Call) (ht : s.Turn c) (hc : c ≠ 0)
    (he : s.waiters c = none) (hw : w < s.nextWaiter) (hn : (s.waiter w).New) :
    (s.block c w k).HubInv where
  blocked := by
    intro c' w' k' hk
    by_cases hcc : c' = c
    · subst hcc
      simp only [State.block, Function.update_self, Mode.blocked.injEq] at hk
      obtain ⟨rfl, rfl⟩ := hk
      simp [State.block, State.setWaiter, State.emit, hn.2]
    · simp only [State.block, Function.update_of_ne hcc] at hk
      obtain ⟨h1, h2, h3⟩ := h.blocked hk
      have hww : w' ≠ w := by rintro rfl; rw [hn.1] at h2; cases h2
      simp [State.block, State.setWaiter, State.emit, hcc, hww, h1, h2, h3]
  entry := by
    intro c' w' h0 hw'
    by_cases hcc : c' = c
    · subst hcc
      simp only [State.block, Function.update_self, Option.some.injEq] at hw'
      subst hw'; exact ⟨k, by simp [State.block]⟩
    · simp only [State.block, Function.update_of_ne hcc] at hw'
      obtain ⟨k', hk'⟩ := h.entry h0 hw'
      exact ⟨k', by simp [State.block, hcc, hk']⟩
  mainEntry := by
    intro w' hw'
    simp only [State.block, Function.update_of_ne hc.symm] at hw'
    have h1 := h.mainEntry hw'
    have hww : w' ≠ w := by rintro rfl; rw [hn.1] at h1; cases h1
    simpa [State.block, State.setWaiter, State.emit, hww] using h1
  waiting := by
    intro c' w' h0 hco hx
    by_cases hww : w' = w
    · subst hww
      simp only [State.block, State.setWaiter, State.emit, Function.update_self,
        Option.some.injEq] at hco
      subst hco; exact ⟨k, by simp [State.block]⟩
    · simp only [State.block, State.setWaiter, State.emit, Function.update_of_ne hww] at hco hx
      obtain ⟨k', hk'⟩ := h.waiting h0 hco hx
      have hcc : c' ≠ c := by rintro rfl; rw [ht.1] at hk'; cases hk'
      exact ⟨k', by simp [State.block, hcc, hk']⟩
  fresh := by
    intro w' hw'
    have hww : w' ≠ w := by rintro rfl; exact absurd hw (Nat.not_lt.2 hw')
    simpa [State.block, State.setWaiter, State.emit, hww] using h.fresh hw'
  resumed := by intro c' hc'; cases hc'
  active := by
    intro c' h0 ha
    have hcc : c' ≠ c := by rintro rfl; simp [State.block, Mode.Active] at ha
    have h1 := h.active h0 (by simpa [State.block, hcc] using ha)
    rw [ht.cur_eq hc] at h1; cases h1; exact absurd rfl hcc
  mainMode := by
    simpa [State.block, State.setWaiter, State.emit, hc.symm] using h.mainMode

/-- `w:get()` fails in the main coroutine. -/
theorem HubInv.main_get {w : WaiterId} (v : Value) (hw : w < s.nextWaiter) (hn : (s.waiter w).New) :
    (s.mainGet w v).HubInv where
  blocked := by
    intro c' w' k' hk
    obtain ⟨h1, h2, h3⟩ := h.blocked hk
    have hww : w' ≠ w := by rintro rfl; rw [hn.1] at h2; cases h2
    have h0 := State.HubInv.ne_zero h hk
    refine ⟨?_, ?_⟩
    · simp only [State.mainGet]; split <;> simp [h0, h1]
    · simp [State.mainGet, State.setWaiter, State.emit, hww, h2, h3]
  entry := by
    intro c' w' h0 hw'
    refine h.entry h0 ?_
    simp only [State.mainGet] at hw'
    split at hw'
    · exact hw'
    · simpa [h0] using hw'
  mainEntry := by
    intro w' hw'
    by_cases hww : w' = w
    · subst hww; simp [State.mainGet, State.setWaiter, State.emit]
    · have h1 : s.waiters 0 = some w' := by
        simp only [State.mainGet] at hw'
        split at hw'
        · exact hw'
        · simp at hw'; exact absurd hw'.symm hww
      simpa [State.mainGet, State.setWaiter, State.emit, hww] using h.mainEntry h1
  waiting := by
    intro c' w' h0 hco hx
    have hww : w' ≠ w := by
      rintro rfl
      simp [State.mainGet, State.setWaiter, State.emit] at hco
      exact h0 hco.symm
    simp only [State.mainGet, State.setWaiter, State.emit, Function.update_of_ne hww] at hco hx
    exact h.waiting h0 hco hx
  fresh := by
    intro w' hw'
    have hww : w' ≠ w := by rintro rfl; exact absurd hw (Nat.not_lt.2 hw')
    simpa [State.mainGet, State.setWaiter, State.emit, hww] using h.fresh hw'
  resumed := h.resumed
  active := h.active
  mainMode := h.mainMode

/-- A waiter no task waits on is settled. -/
theorem HubInv.settle {w : WaiterId} {v e : Value} (hx : (s.waiter w).exception = .bool false)
    (hco : (s.waiter w).co.getD 0 = 0) (hw : w < s.nextWaiter) (he : e ≠ .bool false) :
    (s.settle w v e).HubInv where
  blocked := by
    intro c' w' k' hk
    obtain ⟨h1, h2, h3⟩ := h.blocked hk
    have hww : w' ≠ w := by
      rintro rfl; rw [h2] at hco; exact State.HubInv.ne_zero h hk hco
    exact ⟨h1, by simp [State.settle, State.setWaiter, State.emit, hww, h2, h3]⟩
  entry := h.entry
  mainEntry := by
    intro w' hw'
    have h1 := h.mainEntry hw'
    by_cases hww : w' = w
    · subst hww; simpa [State.settle, State.setWaiter, State.emit] using h1
    · simpa [State.settle, State.setWaiter, State.emit, hww] using h1
  waiting := by
    intro c' w' h0 hco' hx'
    have hww : w' ≠ w := by
      rintro rfl
      simp [State.settle, State.setWaiter, State.emit] at hx'
      exact he hx'
    simp only [State.settle, State.setWaiter, State.emit, Function.update_of_ne hww] at hco' hx'
    exact h.waiting h0 hco' hx'
  fresh := by
    intro w' hw'
    have hww : w' ≠ w := by rintro rfl; exact absurd hw (Nat.not_lt.2 hw')
    simpa [State.settle, State.setWaiter, State.emit, hww] using h.fresh hw'
  resumed := h.resumed
  active := h.active
  mainMode := h.mainMode

/-- A suspended coroutine is resumed. -/
theorem HubInv.resume {c : Co} {w : WaiterId} {k : Call} {v e : Value}
    (hc : s.mode c = .blocked w k) (hcur : s.cur = none) (he : e ≠ .bool false) :
    (s.resume c w v e).HubInv where
  blocked := by
    intro c' w' k' hk
    have hcc : c' ≠ c := by rintro rfl; simp [State.resume, State.emit] at hk
    simp only [State.resume, State.emit, Function.update_of_ne hcc] at hk
    obtain ⟨h1, h2, h3⟩ := h.blocked hk
    have hww : w' ≠ w := by rintro rfl; exact hcc (State.HubInv.blocked_inj h hk hc).1
    simp [State.resume, State.settle, State.setWaiter, State.emit, hcc, hww, h1, h2, h3]
  entry := by
    intro c' w' h0 hw'
    have hcc : c' ≠ c := by rintro rfl; simp [State.resume, State.emit] at hw'
    simp only [State.resume, State.emit, Function.update_of_ne hcc] at hw'
    obtain ⟨k', hk'⟩ := h.entry h0 hw'
    exact ⟨k', by simp [State.resume, State.emit, hcc, hk']⟩
  mainEntry := by
    intro w' hw'
    have h0 := State.HubInv.ne_zero h hc
    simp only [State.resume, State.emit, Function.update_of_ne h0.symm] at hw'
    have h1 := h.mainEntry hw'
    by_cases hww : w' = w
    · subst hww; simpa [State.resume, State.settle, State.setWaiter, State.emit] using h1
    · simpa [State.resume, State.settle, State.setWaiter, State.emit, hww] using h1
  waiting := by
    intro c' w' h0 hco' hx'
    have hww : w' ≠ w := by
      rintro rfl
      simp [State.resume, State.settle, State.setWaiter, State.emit] at hx'
      exact he hx'
    simp only [State.resume, State.settle, State.setWaiter, State.emit,
      Function.update_of_ne hww] at hco' hx'
    obtain ⟨k', hk'⟩ := h.waiting h0 hco' hx'
    have hcc : c' ≠ c := by rintro rfl; rw [hc] at hk'; cases hk'; exact hww rfl
    exact ⟨k', by simp [State.resume, State.emit, hcc, hk']⟩
  fresh := by
    intro w' hw'
    have hww : w' ≠ w := by
      rintro rfl
      have := (h.blocked hc).2.1
      rw [h.fresh hw'] at this; cases this
    simpa [State.resume, State.settle, State.setWaiter, State.emit, hww] using h.fresh hw'
  resumed := by
    intro c' hc'
    cases hc'
    exact ⟨State.HubInv.ne_zero h hc, by simp [State.resume, State.emit, Mode.Active]⟩
  active := by
    intro c' h0 ha
    by_contra hcc
    have hcc' : c' ≠ c := fun he => hcc (by rw [he]; rfl)
    have := h.active h0 (by simpa [State.resume, State.emit, hcc'] using ha)
    rw [hcur] at this; cases this
  mainMode := by
    have h0 := State.HubInv.ne_zero h hc
    simpa [State.resume, State.settle, State.setWaiter, State.emit, h0.symm] using h.mainMode

/-- A waiter is made. -/
theorem HubInv.waiter : (Hub.waiter s).2.HubInv where
  blocked := by
    intro c' w' k' hk
    obtain ⟨h1, h2, h3⟩ := h.blocked hk
    have hww : w' ≠ s.nextWaiter := by rintro rfl; rw [h.fresh le_rfl] at h2; cases h2
    simp [Hub.waiter, State.setWaiter, hww, h1, h2, h3]
  entry := h.entry
  mainEntry := by
    intro w' hw'
    have h2 := h.mainEntry hw'
    have hww : w' ≠ s.nextWaiter := by rintro rfl; rw [h.fresh le_rfl] at h2; cases h2
    simp [Hub.waiter, State.setWaiter, hww, h2]
  waiting := by
    intro c' w' h0 hco hx
    have hww : w' ≠ s.nextWaiter := by
      rintro rfl; simp [Hub.waiter, State.setWaiter, Waiter._init] at hco
    simp only [Hub.waiter, State.setWaiter, Function.update_of_ne hww] at hco hx
    exact h.waiting h0 hco hx
  fresh := by
    intro w' hw'
    simp only [Hub.waiter] at hw'
    have hww : w' ≠ s.nextWaiter := by omega
    simpa [Hub.waiter, State.setWaiter, hww] using h.fresh (by omega)
  resumed := h.resumed
  active := h.active
  mainMode := h.mainMode

end

/-- The pool gets one more coroutine. -/
theorem State.PoolInv.raw_create {s : State} (h : s.PoolInv) (hh : s.HubInv) :
    (Coroutines.coRawCreate s).PoolInv ∧ (Coroutines.coRawCreate s).HubInv := by
  have hu : s.mode (s.total + 1) = .unused := h.unused.2 (by omega)
  have hne : ∀ {c}, s.mode c ≠ .unused → c ≠ s.total + 1 := by
    rintro c hc rfl; exact hc hu
  refine ⟨⟨fun {c} hc => ?_, ?_, fun {c} => ?_, fun {c} hc => ?_, h.once⟩,
    HubInv.leave hh (Nat.succ_ne_zero _) (by simp [hu]) (by simp [Mode.Active]) (by simp)
      (Or.inr ⟨rfl, by simp [hu, Mode.Active]⟩)⟩
  · rcases List.mem_append.1 hc with hc | hc
    · have hp := h.pooled hc
      simp [Coroutines.coRawCreate, State.setMode, hne (by simp [hp] : s.mode c ≠ .unused), hp]
    · simp only [List.mem_singleton] at hc
      simp [Coroutines.coRawCreate, State.setMode, hc]
  · refine List.nodup_append.2 ⟨h.nodup, by simp, fun a ha b hb => ?_⟩
    simp only [List.mem_singleton] at hb
    rw [hb]; exact hne (by simp [h.pooled ha])
  · by_cases hc : c = s.total + 1
    · subst hc; simp [Coroutines.coRawCreate, State.setMode]
    · have hu' : s.mode c = .unused ↔ s.total < c := h.unused
      simp only [Coroutines.coRawCreate, State.setMode, Function.update_of_ne hc, hu']
      exact ⟨fun hl => lt_of_le_of_ne hl (Ne.symm hc), fun hl => Nat.lt_of_succ_lt hl⟩
  · obtain ⟨f, hf⟩ := h.ready hc
    exact ⟨f, by simp [Coroutines.coRawCreate, State.setMode, hne (by simp [hf] : s.mode c ≠ .unused), hf]⟩

variable {R : Rules} {p p' : Pend} {s s' : State}

/-- **The hub invariant is kept by every micro step.** -/
theorem State.HubInv.micro (hm : Micro R p s p' s') (hp : s.PoolInv) (h : s.HubInv) :
    s'.HubInv := by
  cases hm with
  | emit | post | pop | kill | eventClear | semPass | semAcquire | assertGet | settledGet => exact h
  | env _ _ _ he => obtain ⟨E, rfl⟩ := he.frame; exact h
  | eventSet _ e => obtain ⟨E, C, L, he, -⟩ := Event.set_frame s e; rw [he]; exact h
  | asyncSet _ _ _ _ _ hs => obtain ⟨A, C, rfl, -⟩ := AsyncResult._set_frame s hs; exact h
  | semRelease _ x => obtain ⟨M, C, L, he, -⟩ := Semaphore.release_frame s x; rw [he]; exact h
  | semRefuse _ x c t s₁ _ h₁ =>
    obtain ⟨E, A, M, Q, he⟩ := (s.emit (.semCall x c (s.sem x).counter)).newLink_frame (.sem x)
    rw [h₁.eq, he]; exact HubInv.waiter h
  | semWaited _ x w o s₁ _ h₁ =>
    obtain ⟨E, A, M, Q, he⟩ := s.setLinks_frame ((s.links (.sem x)).erase w) (.sem x)
    rw [h₁.eq, State.unlink, he]; exact h
  | link _ y =>
    obtain ⟨E, A, M, Q, he⟩ := s.newLink_frame y
    rw [he]; exact HubInv.waiter h
  | waiter _ _ he => obtain ⟨E, rfl⟩ := he.frame; exact HubInv.waiter h
  | unlink _ y w =>
    obtain ⟨E, A, M, Q, he⟩ := s.setLinks_frame ((s.links y).erase w) y
    unfold State.unlink; rw [he]; exact h
  | put _ q item => obtain ⟨Q, E, C, L, he, -⟩ := Queue._put_frame s q item; rw [he]; exact h
  | get _ _ _ _ hs => obtain ⟨Q, C, L, rfl, -⟩ := Queue._get_frame s hs; exact h
  | goOn _ c m ht ha =>
    refine HubInv.go_on h (by simp [ht.1, Mode.Active]) ha fun h0 => ?_
    subst h0; exact Or.inr ht.zero.2
  | answer _ c i f _ hf =>
    exact HubInv.go_on h (by simp [hf, Mode.Active]) trivial fun _ => Or.inl rfl
  | returned _ c ht hc =>
    exact HubInv.leave h hc (by simp [ht.1]) (by simp [Mode.Active]) (by simp)
      (Or.inl ⟨rfl, ht.cur_eq hc⟩)
  | failed _ c v ht hc =>
    exact HubInv.leave h hc (by simp [ht.1]) (by simp [Mode.Active]) (by simp)
      (Or.inl ⟨rfl, ht.cur_eq hc⟩)
  | mainDone _ ht => exact HubInv.set_main h ht.1
  | enter _ hb => exact HubInv.set_main h (HubInv.main_running h (by simp [hb.1]))
  | begin _ _ _ hb => exact HubInv.set_main h (HubInv.main_running h (by simp [hb.1]))
  | start _ c f _ _ hb _ hc => exact HubInv.begin_task h hb.2 hc
  | endNotify _ y hy =>
    obtain ⟨E, Q, he⟩ := endNotify_frame s y
    rw [he]; exact HubInv.set_main h (HubInv.main_running h (by simp [hy]))
  | abort _ y w hy =>
    obtain ⟨E, L, he⟩ := s.takes_frame w (some y)
    rw [he]; exact HubInv.set_main h (HubInv.main_running h (by simp [hy]))
  | rawCreate => exact (hp.raw_create h).2
  | spawn _ co _ hl hco =>
    refine HubInv.leave h ?_ (by simp [hco]) (by simp [Mode.Active]) (by simp)
      (Or.inr ⟨rfl, by simp [hco, Mode.Active]⟩)
    rintro rfl
    rcases h.mainMode with h0 | ⟨-, i, f, h0⟩ <;> rw [h0] at hco <;> cases hco
  | block _ c w k ht hc he hw hn => exact HubInv.block h k ht hc he hw hn
  | mainGet _ _ w v _ hn hw => exact HubInv.main_get h v hw hn
  | settle _ w v e b hx hco hw hne =>
    obtain ⟨E, L, he⟩ := s.takes_frame w b
    rw [he]
    exact HubInv.settle (s := { s with event := E, log := L }) h hx hco hw hne
  | resume _ c w k v e b hc hcur hne =>
    obtain ⟨E, L, he⟩ := s.takes_frame w b
    rw [he]
    exact HubInv.resume (s := { s with event := E, log := L }) h hc hcur hne

/-- A coroutine that is neither in the pool nor to be started changes its mode. -/
theorem State.PoolInv.set_mode (h : s.PoolInv) {c : Co} {m : Mode} (hp : s.mode c ≠ .pooled)
    (hu : s.mode c ≠ .unused) (hr : ∀ f, s.mode c ≠ .ready (some f)) (hm : m ≠ .unused) :
    (s.setMode c m).PoolInv where
  pooled := fun {c'} hc => by
    have h1 : s.mode c' = .pooled := h.pooled hc
    have hcc : c' ≠ c := by rintro rfl; exact hp h1
    simpa [State.setMode, hcc] using h1
  nodup := h.nodup
  unused := fun {c'} => by
    by_cases hcc : c' = c
    · subst hcc
      simpa [State.setMode, hm] using not_lt.1 fun hl => hu (h.unused.2 hl)
    · simpa [State.setMode, hcc] using h.unused
  ready := fun {c'} hc => by
    obtain ⟨f, hf⟩ := h.ready hc
    have hcc : c' ≠ c := by rintro rfl; exact hr f hf
    exact ⟨f, by simpa [State.setMode, hcc] using hf⟩
  once := h.once

/-- Callbacks that start nothing come and go. -/
theorem State.PoolInv.set_callbacks (h : s.PoolInv) {C : List Callback}
    (hC : resumed C = resumed s.callbacks) : ({ s with callbacks := C } : State).PoolInv :=
  ⟨h.pooled, h.nodup, h.unused, fun hc => h.ready (hC ▸ hc), by
    show (Levent.resumed C).Nodup
    rw [hC]; exact h.once⟩

/-- **The pool invariant is kept by every micro step.** -/
theorem State.PoolInv.micro (hm : Micro R p s p' s') (hh : s.HubInv) (h : s.PoolInv) :
    s'.PoolInv := by
  cases hm with
  | emit | eventClear | semPass | semAcquire | assertGet | settledGet | mainDone | enter | mainGet => exact h
  | env _ _ _ he => obtain ⟨E, rfl⟩ := he.frame; exact h
  | post _ cb hcb => exact h.set_callbacks (resumed_plain hcb _).1
  | pop _ cb cbs _ hcb hq =>
    exact h.set_callbacks (by rw [hq]; exact (resumed_plain hcb _).2.symm)
  | kill _ c e target cbs w _ hq => exact h.set_callbacks (by rw [hq]; rfl)
  | begin _ y cbs _ hq => exact h.set_callbacks (by rw [hq]; rfl)
  | eventSet _ e =>
    obtain ⟨E, C, L, he, hC⟩ := Event.set_frame s e; rw [he]; exact h.set_callbacks hC.resumed
  | asyncSet _ _ _ _ _ hs =>
    obtain ⟨A, C, rfl, hC⟩ := AsyncResult._set_frame s hs; exact h.set_callbacks hC.resumed
  | semRelease _ x =>
    obtain ⟨M, C, L, he, hC⟩ := Semaphore.release_frame s x; rw [he]; exact h.set_callbacks hC.resumed
  | put _ q item =>
    obtain ⟨Q, E, C, L, he, hC⟩ := Queue._put_frame s q item; rw [he]; exact h.set_callbacks hC.resumed
  | get _ _ _ _ hs =>
    obtain ⟨Q, C, L, rfl, hC⟩ := Queue._get_frame s hs; exact h.set_callbacks hC.resumed
  | semRefuse _ x c t s₁ _ h₁ =>
    obtain ⟨E, A, M, Q, he⟩ := (s.emit (.semCall x c (s.sem x).counter)).newLink_frame (.sem x)
    rw [h₁.eq, he]; exact h
  | semWaited _ x w o s₁ _ h₁ =>
    obtain ⟨E, A, M, Q, he⟩ := s.setLinks_frame ((s.links (.sem x)).erase w) (.sem x)
    rw [h₁.eq, State.unlink, he]; exact h
  | link _ y => obtain ⟨E, A, M, Q, he⟩ := s.newLink_frame y; rw [he]; exact h
  | waiter _ _ he => obtain ⟨E, rfl⟩ := he.frame; exact h
  | unlink _ y w =>
    obtain ⟨E, A, M, Q, he⟩ := s.setLinks_frame ((s.links y).erase w) y
    unfold State.unlink; rw [he]; exact h
  | endNotify _ y => obtain ⟨E, Q, he⟩ := endNotify_frame s y; rw [he]; exact h
  | abort _ y w => obtain ⟨E, L, he⟩ := s.takes_frame w (some y); rw [he]; exact h
  | settle _ w v e b => obtain ⟨E, L, he⟩ := s.takes_frame w b; rw [he]; exact h
  | goOn _ c m ht ha =>
    exact h.set_mode (by simp [ht.1]) (by simp [ht.1]) (by simp [ht.1])
      (by rintro rfl; exact ha)
  | answer _ c i f _ hf =>
    exact h.set_mode (by simp [hf]) (by simp [hf]) (by simp [hf]) (by simp)
  | failed _ c v ht hc =>
    exact h.set_mode (m := .dead) (by simp [ht.1]) (by simp [ht.1]) (by simp [ht.1]) (by simp)
  | block _ c w k ht =>
    exact h.set_mode (m := .blocked w k) (by simp [ht.1]) (by simp [ht.1]) (by simp [ht.1]) (by simp)
  | resume _ c w k v e b hc =>
    obtain ⟨E, L, he⟩ := s.takes_frame w b
    rw [he]
    exact h.set_mode (m := .running) (by simp [hc]) (by simp [hc]) (by simp [hc]) (by simp)
  | returned _ c ht hc =>
    have h1 := h.set_mode (c := c) (m := .pooled) (by simp [ht.1]) (by simp [ht.1]) (by simp [ht.1])
      (by simp)
    refine ⟨fun {c'} hc' => ?_, ?_, h1.unused, h1.ready, h1.once⟩
    · rcases List.mem_append.1 hc' with hc' | hc'
      · exact h1.pooled hc'
      · simp only [List.mem_singleton] at hc'
        subst hc'; simp [giveBack, State.emit, State.setMode]
    · refine List.nodup_append.2 ⟨h.nodup, by simp, fun a ha b hb => ?_⟩
      simp only [List.mem_singleton] at hb
      rintro rfl
      have h2 : s.mode a = .pooled := h.pooled ha
      rw [hb, ht.1] at h2; cases h2
  | start _ c f args cbs hb hq hc =>
    have hr : resumed s.callbacks = c :: resumed cbs := by rw [hq]; rfl
    have ho : (c :: resumed cbs).Nodup := by rw [← hr]; exact h.once
    refine ⟨fun {c'} hc' => ?_, h.nodup, fun {c'} => ?_, fun {c'} hc' => ?_, ho.of_cons⟩
    · have h1 : s.mode c' = .pooled := h.pooled hc'
      have hcc : c' ≠ c := by rintro rfl; rw [hc] at h1; cases h1
      simpa [State.emit, State.setMode, hcc] using h1
    · by_cases hcc : c' = c
      · subst hcc
        simpa [State.emit, State.setMode] using not_lt.1 fun hl => by
          have := h.unused.2 hl; rw [hc] at this; cases this
      · simpa [State.emit, State.setMode, hcc] using h.unused
    · obtain ⟨f', hf'⟩ := h.ready (hr ▸ List.mem_cons_of_mem c hc')
      have hcc : c' ≠ c := by rintro rfl; exact (List.nodup_cons.1 ho).1 hc'
      exact ⟨f', by simpa [State.emit, State.setMode, hcc] using hf'⟩
  | rawCreate => exact (h.raw_create hh).1
  | spawn _ co args hl hco =>
    have hne : s.pool ≠ [] := by rintro he; rw [he] at hl; cases hl
    have hpool : s.pool = s.pool.dropLast ++ [co] := by
      rw [List.getLast?_eq_getLast_of_ne_nil hne, Option.some.injEq] at hl
      rw [← hl, List.dropLast_append_getLast hne]
    have hnd : (s.pool.dropLast ++ [co]).Nodup := hpool ▸ h.nodup
    have hout : co ∉ s.pool.dropLast := fun hm =>
      (List.nodup_append.1 hnd).2.2 co hm co (by simp) rfl
    have hmem : ∀ {c'}, c' ∈ s.pool.dropLast → c' ∈ s.pool := fun hm => by
      rw [hpool]; exact List.mem_append_left _ hm
    have hnr : co ∉ resumed s.callbacks := fun hm => by
      obtain ⟨f, hf⟩ := h.ready hm
      rw [hco] at hf; cases hf
    have hr : resumed (s.callbacks ++ [.resume co args]) = resumed s.callbacks ++ [co] :=
      resumed_append _ _
    refine ⟨fun {c'} hc' => ?_, (List.nodup_append.1 hnd).1, fun {c'} => ?_, fun {c'} hc' => ?_, ?_⟩
    · have h1 : s.mode c' = .pooled := h.pooled (hmem hc')
      have hcc : c' ≠ co := by rintro rfl; exact hout hc'
      simpa [State.spawned, Loop.runCallback, State.setMode, hcc] using h1
    · by_cases hcc : c' = co
      · subst hcc
        simpa [State.spawned, Loop.runCallback, State.setMode] using not_lt.1 fun hl => by
          have := h.unused.2 hl; rw [hco] at this; cases this
      · simpa [State.spawned, Loop.runCallback, State.setMode, hcc] using h.unused
    · rcases List.mem_append.1 (hr ▸ hc' : c' ∈ resumed s.callbacks ++ [co]) with hr' | hr'
      · obtain ⟨f, hf⟩ := h.ready hr'
        have hcc : c' ≠ co := by rintro rfl; exact hnr hr'
        exact ⟨f, by simpa [State.spawned, Loop.runCallback, State.setMode, hcc] using hf⟩
      · simp only [List.mem_singleton] at hr'
        subst hr'; exact ⟨s.nextTask, by simp [State.spawned, Loop.runCallback, State.setMode]⟩
    · show (resumed (s.callbacks ++ [.resume co args])).Nodup
      rw [hr]
      refine List.nodup_append.2 ⟨h.once, by simp, fun a ha b hb => ?_⟩
      simp only [List.mem_singleton] at hb
      rintro rfl; rw [hb] at ha; exact hnr ha

end Levent
