/-
  A first-in first-out buffer, bounded or not, with the history of what went in
  and out of it.
-/
import Mathlib.Data.List.Basic

namespace Levent.Lib

structure Fifo (α : Type*) where
  contents : List α
  ins : List α
  outs : List α

namespace Fifo

variable {α : Type*}

inductive Step (cap : Option ℕ) : Fifo α → Fifo α → Prop
  | stay (f) : Step cap f f
  | put (f x) : (∀ n ∈ cap, f.contents.length < n) →
      Step cap f ⟨f.contents ++ [x], f.ins ++ [x], f.outs⟩
  | get (x xs ins outs) : Step cap ⟨x :: xs, ins, outs⟩ ⟨xs, ins, outs ++ [x]⟩

/-- Nothing is lost, duplicated or reordered, and the bound holds. -/
structure Inv (cap : Option ℕ) (f : Fifo α) : Prop where
  balance : f.ins = f.outs ++ f.contents
  bound : ∀ n ∈ cap, f.contents.length ≤ n

variable {cap : Option ℕ} {f g : Fifo α}

theorem Step.inv (h : Step cap f g) (hi : f.Inv cap) : g.Inv cap := by
  cases h with
  | stay => exact hi
  | put _ x hr =>
    refine ⟨by simp [hi.balance], fun n hn => ?_⟩
    have := hr n hn
    simp; omega
  | get x xs ins outs =>
    refine ⟨?_, fun n hn => ?_⟩
    · have := hi.balance
      simpa using this
    · have := hi.bound n hn
      simp only [List.length_cons] at this
      exact Nat.le_of_succ_le this

/-- What came out is a prefix of what went in. -/
theorem Inv.outs_prefix (h : f.Inv cap) : f.outs <+: f.ins := ⟨f.contents, h.balance.symm⟩

end Fifo

end Levent.Lib
