/-
  The texts of addresses, as `inet_pton` reads them, which `normalize_ip` of `lua-socket.c`
  asks; `guess_name_type` looks at the characters only.
-/
import Levent.Dns.Question

namespace Levent.Dns

variable {s : List UInt8} {b : UInt8} {n : ℕ} {quad : Bool} {family : NameType}

/-- `%x` -/
def isHexDigit (b : UInt8) : Bool := isDigit b || (65 ≤ b && b ≤ 70) || (97 ≤ b && b ≤ 102)

/-- The number that the digits are. -/
def decimal (s : List UInt8) : ℕ := s.foldl (fun n b => 10 * n + (b.toNat - 48)) 0

/-- A decimal number of one to three digits, which fits a byte. -/
def IsOctet (s : List UInt8) : Prop := s ≠ [] ∧ s.length ≤ 3 ∧ s.all isDigit ∧ decimal s < 256

/-- An address of IPv4: four of these between dots. -/
def IsIpv4 (s : List UInt8) : Prop := (s.splitOn 46).length = 4 ∧ ∀ d ∈ s.splitOn 46, IsOctet d

/-- A group of 16 bits: one to four hexadecimal digits. -/
def IsGroup (s : List UInt8) : Prop := s ≠ [] ∧ s.length ≤ 4 ∧ s.all isHexDigit

/-- `n` groups between colons; if `quad`, an address of IPv4 may be in place of the last two. -/
def AreGroups (quad : Bool) (s : List UInt8) (n : ℕ) : Prop :=
  (s = [] ∧ n = 0) ∨ ((s.splitOn 58).length = n ∧ ∀ g ∈ s.splitOn 58, IsGroup g) ∨
    (quad ∧ (s.splitOn 58).length + 1 = n ∧ (∀ g ∈ (s.splitOn 58).dropLast, IsGroup g) ∧
      ∀ g ∈ (s.splitOn 58).getLast?, IsIpv4 g)

/-- An address of IPv6: eight groups, or less with `::` for those that are zero. -/
def IsIpv6 (s : List UInt8) : Prop :=
  AreGroups true s 8 ∨ ∃ i < s.length, (s.drop i).take 2 = [58, 58] ∧
    ∃ m < 8, ∃ n < 8 - m, AreGroups false (s.take i) m ∧ AreGroups true (s.drop (i + 2)) n

/-- The text is an address of the family. -/
def IsAddress : NameType → List UInt8 → Prop
  | .ipv4, s => IsIpv4 s
  | .ipv6, s => IsIpv6 s
  | .hostname, _ => False

section
variable (s : List UInt8)

instance : Decidable (IsOctet s) := inferInstanceAs (Decidable (_ ∧ _))

instance : Decidable (IsIpv4 s) := inferInstanceAs (Decidable (_ ∧ _))

instance : Decidable (IsGroup s) := inferInstanceAs (Decidable (_ ∧ _))

instance (quad : Bool) (n : ℕ) : Decidable (AreGroups quad s n) :=
  inferInstanceAs (Decidable (_ ∨ _))

instance : Decidable (IsIpv6 s) := inferInstanceAs (Decidable (_ ∨ _))

instance : (family : NameType) → Decidable (IsAddress family s)
  | .ipv4 => inferInstanceAs (Decidable (IsIpv4 s))
  | .ipv6 => inferInstanceAs (Decidable (IsIpv6 s))
  | .hostname => inferInstanceAs (Decidable False)

end

/-! ## What an address is taken for -/

/-- More than two groups have a colon. -/
theorem AreGroups.colon (h : AreGroups quad s n) (hn : 2 < n) : 58 ∈ s := by
  by_contra hno
  have hone : s.splitOn 58 = [s] := List.splitOn_eq_singleton hno
  rcases h with ⟨-, h0⟩ | ⟨hlen, -⟩ | ⟨-, hlen, -⟩
  · omega
  · rw [hone, List.length_singleton] at hlen
    omega
  · rw [hone, List.length_singleton] at hlen
    omega

theorem IsIpv6.colon (h : IsIpv6 s) : 58 ∈ s := by
  rcases h with h | ⟨i, -, hi, -⟩
  · exact h.colon (by decide)
  · have hmem : 58 ∈ (s.drop i).take 2 := by
      rw [hi]
      exact List.mem_cons_self
    exact List.mem_of_mem_drop (List.mem_of_mem_take hmem)

/-- Not every text that looks like an address is one: a dot, or five numbers. -/
example : guessNameType [46] = .ipv4 ∧ ¬ IsAddress .ipv4 [46] ∧
    guessNameType [51, 48, 48, 46, 49, 46, 50, 46, 51, 46, 52] = .ipv4 ∧
    ¬ IsAddress .ipv4 [51, 48, 48, 46, 49, 46, 50, 46, 51, 46, 52] := by
  decide

/-- `::ffff:1.2.3.4` -/
example : IsAddress .ipv6 [58, 58, 102, 102, 102, 102, 58, 49, 46, 50, 46, 51, 46, 52] := by
  decide

end Levent.Dns
