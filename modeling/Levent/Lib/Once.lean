/-
  A cell that is written at most once: it keeps the first of the values offered to it
  that it takes.
-/
import Mathlib.Data.List.Basic

namespace Levent.Lib

variable {α : Type*} (takes : α → Bool)

/-- The cell after `a` has been offered. -/
def offer (o : Option α) (a : α) : Option α := o.or (if takes a then some a else none)

/-- The values offered, each with what the cell holds after it. -/
def held : Option α → List α → List (α × Option α)
  | _, [] => []
  | o, a :: as => (a, offer takes o a) :: held (offer takes o a) as

/-- All elements are the same. -/
def Level (l : List α) : Prop := ∀ a ∈ l, ∀ b ∈ l, a = b

instance [DecidableEq α] (l : List α) : Decidable (Level l) :=
  inferInstanceAs (Decidable (∀ a ∈ l, ∀ b ∈ l, a = b))

variable {takes} {a b : α} {as : List α}

@[simp] theorem offer_some : offer takes (some b) a = some b := rfl

theorem level_cons : Level (a :: as) ↔ ∀ b ∈ as, b = a := by
  constructor
  · exact fun h b hb => h b (List.mem_cons_of_mem a hb) a List.mem_cons_self
  · intro h
    have hall : ∀ b ∈ a :: as, b = a := List.forall_mem_cons.2 ⟨rfl, h⟩
    exact fun b hb c hc => (hall b hb).trans (hall c hc).symm

/-- A cell that has been written holds what is offered only if that is the same again. -/
theorem held_some : (∀ e ∈ held takes (some b) as, ∀ c ∈ e.2, c = e.1) ↔ ∀ a ∈ as, a = b := by
  induction as with
  | nil => simp [held]
  | cons a as ih =>
    rw [held, offer_some, List.forall_mem_cons, List.forall_mem_cons, ih]
    refine and_congr_left' ⟨fun h => (h b rfl).symm, ?_⟩
    rintro rfl c hc
    exact (Option.some_inj.1 hc).symm

/-- **A cell always holds what is offered**, where it holds anything, exactly if from the
    first value on that it takes all values are the same. -/
theorem held_none : (∀ e ∈ held takes none as, ∀ c ∈ e.2, c = e.1) ↔
    Level (as.dropWhile fun a => !takes a) := by
  induction as with
  | nil => simp [held, Level]
  | cons a as ih =>
    rw [held, List.forall_mem_cons, List.dropWhile_cons]
    cases ha : takes a with
    | false =>
      have hoffer : offer takes none a = none := by simp [offer, ha]
      rw [hoffer, ih]
      exact and_iff_right nofun
    | true =>
      have hoffer : offer takes none a = some a := by simp [offer, ha]
      rw [hoffer, held_some, Bool.not_true, if_neg Bool.false_ne_true, level_cons]
      exact and_iff_right fun c hc => (Option.some_inj.1 hc).symm

end Levent.Lib
