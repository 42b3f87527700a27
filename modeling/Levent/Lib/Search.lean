/-
  A loop that goes from point to point until it finds something:

    while tmp do
      if found(tmp) then return ... end
      tmp = next(tmp)
    end

  and when it ends.
-/
import Levent.Lib.Pack
import Mathlib.Logic.Relation

namespace Levent.Lib

open Relation (ReflTransGen)

variable {α β : Type} (next : α → Lua (Option α)) (found : α → Option β)

/-- What the loop finds from a point on. -/
def search : ℕ → Option α → Lua (Option β)
  | 0, _ => .error .unfinished
  | _ + 1, none => .ok none
  | n + 1, some a =>
    match found a with
    | some b => .ok (some b)
    | none => do
      let a ← next a
      search n a

/-- A round goes on from `a` to `b`. -/
def Leads (a b : α) : Prop := next a = .ok (some b)

variable {next found} {a : α} {n : ℕ}

@[simp] theorem search_none : search next found (n + 1) none = .ok none := rfl

theorem search_found {b : β} (h : found a = some b) : search next found (n + 1) (some a) = .ok (some b) := by
  rw [search, h]

theorem search_next (next : α → Lua (Option α)) {o : Option α} (h : found a = none)
    (hnext : next a = .ok o) : search next found (n + 1) (some a) = search next found n o := by
  rw [search, h]
  dsimp only
  rw [hnext]
  rfl

/-- **The loop ends** where each round goes down, and then it has found something
    that it leads to, or there is nothing. -/
theorem search_ends (found : α → Option β) (rank : α → ℕ) {I : α → Prop}
    (hI : ∀ a, I a → ∃ o, next a = .ok o ∧ ∀ b, o = some b → I b ∧ rank b < rank a) (ha : I a)
    (hn : rank a + 1 < n) :
    (∃ b c, ReflTransGen (Leads next) a c ∧ found c = some b ∧
        search next found n (some a) = .ok (some b)) ∨
      search next found n (some a) = .ok none ∧ ∀ c, ReflTransGen (Leads next) a c → found c = none := by
  induction n generalizing a with
  | zero => omega
  | succ n ih =>
    cases hf : found a with
    | some b => exact .inl ⟨b, a, .refl, hf, search_found hf⟩
    | none =>
      obtain ⟨o, hnext, hlt⟩ := hI a ha
      rw [search_next next hf hnext]
      cases o with
      | none =>
        obtain ⟨n, rfl⟩ := Nat.exists_eq_succ_of_ne_zero (show n ≠ 0 by omega)
        refine .inr ⟨rfl, fun c hc => ?_⟩
        rcases hc.cases_head with rfl | ⟨a', ha', -⟩
        · exact hf
        · rw [Leads, hnext] at ha'
          cases ha'
      | some a' =>
        obtain ⟨ha', hrank⟩ := hlt a' rfl
        rcases ih ha' (by omega) with ⟨b, c, hc, hb, hs⟩ | ⟨hs, hnone⟩
        · exact .inl ⟨b, c, hc.head hnext, hb, hs⟩
        · refine .inr ⟨hs, fun c hc => ?_⟩
          rcases hc.cases_head with rfl | ⟨a'', ha'', hc⟩
          · exact hf
          · rw [Leads, hnext] at ha''
            cases ha''
            exact hnone c hc

/-- **The loop does not end** in points with nothing to find that lead to one another. -/
theorem search_stuck {I : α → Prop} (hI : ∀ a, I a → found a = none ∧ ∃ b, Leads next a b ∧ I b)
    (ha : I a) (n : ℕ) : search next found n (some a) = .error .unfinished := by
  induction n generalizing a with
  | zero => rfl
  | succ n ih =>
    obtain ⟨hf, b, hb, hI'⟩ := hI a ha
    rw [search_next next hf hb]
    exact ih hI'

end Levent.Lib
