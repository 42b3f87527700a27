/-
  Runs of a labelled transition system whose steps are given by a partial
  function: `run`, conditions on the steps of a run (`Along`), and the rules
  that carry an invariant of one step to the states of a run.
-/
import Mathlib.Data.List.Basic

namespace Levent.Lib

variable {σ α : Type*} (step : σ → α → Option σ)

/-- The state after the actions `as`, if each of them is enabled in turn. -/
def run : σ → List α → Option σ
  | s, [] => some s
  | s, a :: as => (step s a).bind fun s' => run s' as

/-- Every step of the run `as` from `s` meets the condition `C`. -/
def Along (C : σ → α → Prop) : σ → List α → Prop
  | _, [] => True
  | s, a :: as => C s a ∧ ∀ s', step s a = some s' → Along C s' as

/-- Evaluate a condition along a run. -/
def check (C : σ → α → Bool) : σ → List α → Bool
  | _, [] => true
  | s, a :: as => C s a && (step s a).all fun s' => check C s' as

/-- What `f` says of the steps of a run, one after another. -/
def collect {β : Type*} (f : σ → α → Option β) : σ → List α → List β
  | _, [] => []
  | s, a :: as => (f s a).toList ++ ((step s a).map fun s' => collect f s' as).getD []

variable {step}

@[simp] theorem run_nil (s : σ) : run step s [] = some s := rfl

theorem run_cons {s t : σ} {a : α} {as : List α} :
    run step s (a :: as) = some t ↔ ∃ s', step s a = some s' ∧ run step s' as = some t := by
  simp [run, Option.bind_eq_some_iff]

theorem run_append {s t : σ} {as bs : List α} :
    run step s (as ++ bs) = some t ↔ ∃ m, run step s as = some m ∧ run step m bs = some t := by
  induction as generalizing s with
  | nil => simp
  | cons a as ih =>
    simp only [List.cons_append, run_cons, ih]
    constructor
    · rintro ⟨s', h, m, h1, h2⟩; exact ⟨m, ⟨s', h, h1⟩, h2⟩
    · rintro ⟨m, ⟨s', h, h1⟩, h2⟩; exact ⟨s', h, m, h1, h2⟩

theorem run_snoc {s t : σ} {as : List α} {a : α} :
    run step s (as ++ [a]) = some t ↔ ∃ m, run step s as = some m ∧ step m a = some t := by
  simp [run_append, run_cons]

/-- What holds of every step taken from a state holds along every run. -/
theorem Along.of_forall {C : σ → α → Prop} {as : List α} :
    ∀ {s : σ}, (∀ s, ∀ a ∈ as, C s a) → Along step C s as := by
  induction as with
  | nil => intro _ _; trivial
  | cons a as ih =>
    intro s h
    exact ⟨h s a (by simp), fun _ _ => ih fun s a' ha' => h s a' (by simp [ha'])⟩

theorem Along.and {C D : σ → α → Prop} {as : List α} :
    ∀ {s : σ}, Along step C s as → Along step D s as →
      Along step (fun s a => C s a ∧ D s a) s as := by
  induction as with
  | nil => intro _ _ _; trivial
  | cons a as ih =>
    intro s h1 h2
    exact ⟨⟨h1.1, h2.1⟩, fun s' hs => ih (h1.2 s' hs) (h2.2 s' hs)⟩

theorem Along.cons {C : σ → α → Prop} {s s' : σ} {a : α} {as : List α} (hC : C s a)
    (hs : step s a = some s') (h : Along step C s' as) : Along step C s (a :: as) := by
  refine ⟨hC, fun s'' hs'' => ?_⟩
  rw [hs] at hs''
  cases hs''
  exact h

theorem along_append {C : σ → α → Prop} {s : σ} {as bs : List α} :
    Along step C s (as ++ bs) ↔
      Along step C s as ∧ ∀ m, run step s as = some m → Along step C m bs := by
  induction as generalizing s with
  | nil => simp [Along]
  | cons a as ih =>
    simp only [List.cons_append, Along, ih, run_cons]
    constructor
    · rintro ⟨hC, h⟩
      refine ⟨⟨hC, fun s' hs => (h s' hs).1⟩, ?_⟩
      rintro m ⟨s', hs, hm⟩
      exact (h s' hs).2 m hm
    · rintro ⟨⟨hC, h⟩, hm⟩
      exact ⟨hC, fun s' hs => ⟨h s' hs, fun m hr => hm m ⟨s', hs, hr⟩⟩⟩

/-- In a run, a condition that follows from another one where an invariant holds. -/
theorem Along.of_inv {C D : σ → α → Prop} {I : σ → Prop}
    (hstep : ∀ s a s', I s → C s a → step s a = some s' → I s' ∧ D s a) {s t : σ} {as : List α}
    (h0 : I s) (h : Along step C s as) (hrun : run step s as = some t) : Along step D s as := by
  induction as generalizing s with
  | nil => trivial
  | cons a as ih =>
    obtain ⟨s', hs, hrun⟩ := run_cons.1 hrun
    obtain ⟨hi, hd⟩ := hstep s a s' h0 h.1 hs
    exact .cons hd hs (ih hi (h.2 s' hs) hrun)

theorem Along.of_check {C : σ → α → Prop} [∀ s a, Decidable (C s a)] {s : σ} {as : List α}
    (h : check step (fun s a => decide (C s a)) s as = true) : Along step C s as := by
  induction as generalizing s with
  | nil => trivial
  | cons a as ih =>
    simp only [check, Bool.and_eq_true, decide_eq_true_eq] at h
    refine ⟨h.1, fun s' hs => ih ?_⟩
    simpa [hs] using h.2

/-- **The invariant rule**: what holds at the start and is kept by every step
    that meets `C` holds in the state reached by a run whose steps meet `C`. -/
theorem run_inv {C : σ → α → Prop} {I : σ → Prop}
    (hstep : ∀ s a s', I s → C s a → step s a = some s' → I s') {s t : σ} {as : List α}
    (h0 : I s) (hC : Along step C s as) (h : run step s as = some t) : I t := by
  induction as generalizing s with
  | nil => cases h; exact h0
  | cons a as ih =>
    obtain ⟨s', hs, h⟩ := run_cons.1 h
    exact ih (hstep s a s' h0 hC.1 hs) (hC.2 s' hs) h

/-- A condition that each step meets exactly when it keeps `I`, where `J` holds:
    it holds along a run exactly when `I` holds in every state of it. -/
theorem along_iff_forall {C : σ → α → Prop} {I J : σ → Prop}
    (hJ : ∀ s a s', J s → step s a = some s' → J s')
    (hI : ∀ s a s', J s → I s → step s a = some s' → (C s a ↔ I s')) {s t : σ} {as : List α}
    (hj : J s) (hi : I s) (hrun : run step s as = some t) :
    Along step C s as ↔ ∀ bs, bs <+: as → ∀ u, run step s bs = some u → I u := by
  induction as generalizing s with
  | nil =>
    refine iff_of_true trivial fun bs hbs u hu => ?_
    rw [List.prefix_nil.1 hbs] at hu
    cases hu
    exact hi
  | cons a as ih =>
    obtain ⟨s', hs, hr⟩ := run_cons.1 hrun
    have hj' := hJ s a s' hj hs
    constructor
    · rintro ⟨hC, hA⟩ bs hbs u hu
      rcases bs with _ | ⟨b, bs⟩
      · cases hu
        exact hi
      · obtain ⟨rfl, hpre⟩ := List.cons_prefix_cons.1 hbs
        obtain ⟨s'', hs'', hu⟩ := run_cons.1 hu
        rw [hs] at hs''
        cases hs''
        exact (ih hj' ((hI s b s' hj hi hs).1 hC) hr).1 (hA s' hs) bs hpre u hu
    · intro hall
      have hi' : I s' := hall [a] (by simp) s' (run_cons.2 ⟨s', hs, rfl⟩)
      refine .cons ((hI s a s' hj hi hs).2 hi') hs ((ih hj' hi' hr).2 fun bs hbs u hu => ?_)
      exact hall (a :: bs) (List.cons_prefix_cons.2 ⟨rfl, hbs⟩) u (run_cons.2 ⟨s', hs, hu⟩)

/-- The invariant rule, for an invariant that speaks of what `f` says of the steps
    so far. -/
theorem run_collect_inv {β : Type*} {f : σ → α → Option β} {C : σ → α → Prop} {I : List β → σ → Prop}
    (hstep : ∀ l s a s', I l s → C s a → step s a = some s' → I (l ++ (f s a).toList) s') {s t : σ}
    {as : List α} {l : List β} (h0 : I l s) (hC : Along step C s as) (h : run step s as = some t) :
    I (l ++ collect step f s as) t := by
  induction as generalizing s l with
  | nil =>
    cases h
    rw [collect, List.append_nil]
    exact h0
  | cons a as ih =>
    obtain ⟨s', hs, h⟩ := run_cons.1 h
    have h1 := ih (hstep l s a s' h0 hC.1 hs) (hC.2 s' hs) h
    rw [collect, hs, ← List.append_assoc]
    exact h1

end Levent.Lib
