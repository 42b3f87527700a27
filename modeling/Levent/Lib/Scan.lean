/-
  Runs of an automaton over a text: a state in which characters of one kind are
  read on, where the characters of one kind end, and the run of a machine that has
  the automaton inside.
-/
import Levent.Lib.Run

namespace Levent.Lib

variable {σ τ α : Type*} {step : σ → α → Option σ} {s t : σ} {as : List α}

/-- No character takes the automaton to another state. -/
theorem run_stay (h : ∀ a ∈ as, step s a = some s) : run step s as = some s := by
  induction as with
  | nil => rfl
  | cons a as ih =>
    exact run_cons.2 ⟨s, h a List.mem_cons_self, ih fun b hb => h b (List.mem_cons_of_mem _ hb)⟩

/-- **The characters of one kind come first**: they leave the automaton in the states of
    one kind, and then the text ends or goes on with a character of another kind. -/
theorem run_until {S : σ → Prop} {P : α → Prop} (h : ∀ s a s', S s → P a → step s a = some s' → S s')
    (hs : S s) (hrun : run step s as = some t) :
    ∃ cs rest s', as = cs ++ rest ∧ (∀ c ∈ cs, P c) ∧ S s' ∧ run step s cs = some s' ∧
      (rest = [] ∧ t = s' ∨
        ∃ a bs s'', rest = a :: bs ∧ ¬ P a ∧ step s' a = some s'' ∧ run step s'' bs = some t) := by
  induction as generalizing s with
  | nil => exact ⟨[], [], s, rfl, by simp, hs, rfl, .inl ⟨rfl, (Option.some.inj hrun).symm⟩⟩
  | cons a as ih =>
    obtain ⟨s1, hs1, hrun⟩ := run_cons.1 hrun
    by_cases ha : P a
    · obtain ⟨cs, rest, s', rfl, hcs, hs', hcrun, hrest⟩ := ih (h s a s1 hs ha hs1) hrun
      refine ⟨a :: cs, rest, s', rfl, fun c hc => ?_, hs', run_cons.2 ⟨s1, hs1, hcrun⟩, hrest⟩
      rcases List.mem_cons.1 hc with rfl | hc
      · exact ha
      · exact hcs c hc
    · exact ⟨[], a :: as, s, rfl, by simp, hs, rfl, .inr ⟨a, as, s1, rfl, ha, hs1, hrun⟩⟩

/-- `run_until`, where the characters of another kind are refused. -/
theorem run_only {S : σ → Prop} {P : α → Prop}
    (h : ∀ s a s', S s → step s a = some s' → P a ∧ S s') (hs : S s) (hrun : run step s as = some t) :
    (∀ c ∈ as, P c) ∧ S t := by
  obtain ⟨cs, rest, s', rfl, hcs, hs', -, ⟨rfl, rfl⟩ | ⟨a, bs, s'', rfl, ha, hstep, -⟩⟩ :=
    run_until (P := P) (fun s a s' hs _ hstep => (h s a s' hs hstep).2) hs hrun
  · exact ⟨by simpa using hcs, hs'⟩
  · exact absurd (h s' a s'' hs' hstep).1 ha

/-- A machine that has the automaton inside reads what the automaton reads. -/
theorem run_inside {step' : τ → α → Option τ} {p q : τ} (inside : τ → σ)
    (h : ∀ p a q, step' p a = some q → step (inside p) a = some (inside q)) (hrun : run step' p as = some q) :
    run step (inside p) as = some (inside q) := by
  induction as generalizing p with
  | nil =>
    cases hrun
    rfl
  | cons a as ih =>
    obtain ⟨p', hp', hrun⟩ := run_cons.1 hrun
    exact run_cons.2 ⟨inside p', h p a p' hp', ih hrun⟩

end Levent.Lib
