/-
  A callback that a flag keeps from being queued twice: how often it is queued,
  whether it runs, and the flag.
-/
import Mathlib.Data.Nat.Basic

namespace Levent.Lib

structure Armed where
  queued : ℕ
  running : Bool
  flag : Bool

namespace Armed

/-- The moves.  A callback that starts or leaves without clearing its flag is
    allowed by `starts` and `leaves` only. -/
inductive Step (starts leaves : Prop) : Armed → Armed → Prop
  | stay (a) : Step starts leaves a a
  | arm (n r f) : Step starts leaves ⟨n, r, f⟩ ⟨if f then n else n + 1, r, true⟩
  | start (n f) : starts → Step starts leaves ⟨n + 1, false, f⟩ ⟨n, true, f⟩
  | clear (n f) : Step starts leaves ⟨n, true, f⟩ ⟨n, false, false⟩
  | leave (n f) : leaves → Step starts leaves ⟨n, true, f⟩ ⟨n, false, f⟩

/-- The flag is set while the callback is queued, once, or runs. -/
def Inv (a : Armed) : Prop := a.queued + a.running.toNat = a.flag.toNat

/-- The flag is set while the callback is queued, and it does not run. -/
def Idle (a : Armed) : Prop := a.running = false ∧ (a.flag = true ↔ 0 < a.queued)

variable {starts leaves : Prop} {a b : Armed}

theorem Step.inv (h : Step starts leaves a b) (hl : ¬ leaves) (hi : a.Inv) : b.Inv := by
  cases h with
  | stay => exact hi
  | arm n r f => cases f <;> cases r <;> simp [Inv] at * <;> omega
  | start n f => cases f <;> simp [Inv] at *; omega
  | clear n f => cases f <;> simp [Inv] at *; omega
  | leave n f h => exact absurd h hl

theorem Step.idle (h : Step starts leaves a b) (hs : ¬ starts) (hi : a.Idle) : b.Idle := by
  cases h with
  | stay => exact hi
  | arm n r f => cases f <;> simp [Idle] at * <;> simp [hi]
  | start n f h => exact absurd h hs
  | clear n f => exact absurd hi.1 (by simp)
  | leave n f => exact absurd hi.1 (by simp)

theorem Inv.flag_iff (h : a.Inv) : a.flag = true ↔ 0 < a.queued ∨ a.running = true := by
  obtain ⟨n, r, f⟩ := a
  cases f <;> cases r <;> simp [Inv] at * <;> omega

end Armed

end Levent.Lib
