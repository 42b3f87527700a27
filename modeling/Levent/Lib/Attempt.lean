/-
  Computations that change a state and may fail, where a failure keeps what has
  been done (`EStateM`): how they are put together, the state they leave
  (`final`), and the properties of a state that they keep (`Keeps`).
-/
import Mathlib.Data.Set.Basic

namespace Levent.Lib

variable {ε σ α β : Type} {x : EStateM ε σ α} {f : α → EStateM ε σ β} {P : σ → Prop}
  {s s' : σ} {a : α} {e : ε}

/-- The state after a computation, whether it fails or not. -/
def final (x : EStateM ε σ α) (s : σ) : σ :=
  match x s with
  | .ok _ s' => s'
  | .error _ s' => s'

theorem bind_of_ok (h : x s = .ok a s') : (x >>= f) s = f a s' := by
  change EStateM.bind x f s = _
  rw [EStateM.bind, h]

theorem bind_of_error (h : x s = .error e s') : (x >>= f) s = .error e s' := by
  change EStateM.bind x f s = _
  rw [EStateM.bind, h]

theorem modify_bind (g : σ → σ) (f : PUnit → EStateM ε σ β) (s : σ) :
    (modify g >>= f) s = f ⟨⟩ (g s) := rfl

theorem get_bind (f : σ → EStateM ε σ β) (s : σ) : (get >>= f) s = f s s := rfl

theorem final_of_ok (h : x s = .ok a s') : final x s = s' := by
  rw [final, h]

theorem final_of_error (h : x s = .error e s') : final x s = s' := by
  rw [final, h]

/-- The result and the state after it; a failure is kept without the state. -/
def outcome (x : EStateM ε σ α) (s : σ) : Except ε (σ × α) :=
  match x s with
  | .ok a s' => .ok (s', a)
  | .error e _ => .error e

theorem outcome_bind (x : EStateM ε σ α) (f : α → EStateM ε σ β) (s : σ) :
    outcome (x >>= f) s = outcome x s >>= fun y => outcome (f y.2) y.1 := by
  cases h : x s with
  | ok a s' =>
    rw [outcome, bind_of_ok h, outcome, h]
    rfl
  | error e s' =>
    rw [outcome, bind_of_error h, outcome, h]
    rfl

theorem outcome_get (f : σ → EStateM ε σ β) (s : σ) : outcome (get >>= f) s = outcome (f s) s := rfl

/-- What holds before the computation holds after it. -/
def Keeps (P : σ → Prop) (x : EStateM ε σ α) : Prop := ∀ s, P s → P (final x s)

theorem Keeps.pure (a : α) : Keeps P (Pure.pure a : EStateM ε σ α) := fun _ h => h

theorem Keeps.throw (e : ε) : Keeps P (throw e : EStateM ε σ α) := fun _ h => h

theorem Keeps.bind (hx : Keeps P x) (hf : ∀ a, Keeps P (f a)) : Keeps P (x >>= f) := by
  intro s h
  have hs := hx s h
  cases hr : x s with
  | ok a s' =>
    rw [final_of_ok hr] at hs
    rw [final, bind_of_ok hr]
    exact hf a s' hs
  | error e s' =>
    rw [final_of_error hr] at hs
    rwa [final_of_error (bind_of_error hr)]

/-- What is done next may depend on the state. -/
theorem Keeps.get {f : σ → EStateM ε σ β} (hf : ∀ s, Keeps P (f s)) : Keeps P (get >>= f) :=
  fun s h => hf s s h

theorem Keeps.modify {g : σ → σ} (hg : ∀ s, P s → P (g s)) :
    Keeps P (modify g : EStateM ε σ Unit) :=
  fun s h => hg s h

theorem Keeps.ite {c : Prop} [Decidable c] {y : EStateM ε σ α} (hx : Keeps P x) (hy : Keeps P y) :
    Keeps P (if c then x else y) := by
  split
  · exact hx
  · exact hy

end Levent.Lib
