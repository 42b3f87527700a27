/-
  Doubles by their 64 bits, and the integers among them.
-/
import Mathlib.Tactic.Ring

namespace Levent.Lib

/-- `m * 2 ^ -k` as an integer, the even one of two that are as near. -/
def roundShift (m k : ℕ) : ℕ :=
  let q := m / 2 ^ k
  if 2 ^ k < 2 * (m % 2 ^ k) ∨ 2 ^ k = 2 * (m % 2 ^ k) ∧ q % 2 = 1 then q + 1 else q

/-- The double nearest to an integer.  A significand that is rounded up to `2 ^ 53` goes into the
    exponent. -/
def doubleOf (n : ℤ) : ℕ :=
  let m := n.natAbs
  let e := m.log2
  let sign := if n < 0 then 2 ^ 63 else 0
  if m = 0 then 0
  else sign + (e + 1022) * 2 ^ 52 + if e ≤ 52 then m * 2 ^ (52 - e) else roundShift m (e - 52)

/-- The absolute value of a double, if it is an integer. -/
def doubleNat (bits : ℕ) : Option ℕ :=
  let e := bits / 2 ^ 52 % 2 ^ 11
  let m := 2 ^ 52 + bits % 2 ^ 52
  if e = 0 then if bits % 2 ^ 52 = 0 then some 0 else none
  else if e = 2047 then none
  else if 1075 ≤ e then some (m * 2 ^ (e - 1075))
  else if m % 2 ^ (1075 - e) = 0 then some (m / 2 ^ (1075 - e))
  else none

/-- The integer of 64 bits that a double is equal to. -/
def doubleInt (bits : ℕ) : Option ℤ := do
  let m ← doubleNat bits
  let n : ℤ := if bits / 2 ^ 63 % 2 = 1 then -m else m
  if -2 ^ 63 ≤ n ∧ n < 2 ^ 63 then some n else none

theorem roundShift_le {m k j : ℕ} (h : m < 2 ^ (j + k)) : roundShift m k ≤ 2 ^ j := by
  have hq : m / 2 ^ k < 2 ^ j := Nat.div_lt_of_lt_mul (by rwa [Nat.mul_comm, ← pow_add])
  unfold roundShift
  dsimp only
  split
  · exact hq
  · exact hq.le

theorem doubleOf_lt {n : ℤ} (h : n.natAbs ≤ 2 ^ 63) : doubleOf n < 2 ^ 64 := by
  unfold doubleOf
  dsimp only
  split
  · decide
  · rename_i hm
    have he : n.natAbs.log2 < 64 := (Nat.log2_lt hm).2 (by omega)
    have hhi := Nat.lt_log2_self (n := n.natAbs)
    generalize n.natAbs.log2 = e at *
    have hsig : (if e ≤ 52 then n.natAbs * 2 ^ (52 - e) else roundShift n.natAbs (e - 52)) ≤ 2 ^ 53 := by
      split
      · rw [show 53 = e + 1 + (52 - e) by omega, pow_add]
        exact Nat.mul_le_mul_right _ hhi.le
      · exact roundShift_le (by rwa [show 53 + (e - 52) = e + 1 by omega])
    split <;> omega

end Levent.Lib
