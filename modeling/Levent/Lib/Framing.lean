/-
  A stream that is cut into items, each as soon as it is there whole: what is taken
  from bytes that come in pieces is what is taken from all of them at once.
-/
import Mathlib.Data.List.Infix

namespace Levent.Lib

variable {α β : Type*} (next : List α → Option (β × List α))

/-- What is taken from the start of a stream is not empty, and does not depend on what follows. -/
structure Cuts : Prop where
  shorter : ∀ {s b r}, next s = some (b, r) → r.length < s.length
  more : ∀ {s b r}, next s = some (b, r) → ∀ t, next (s ++ t) = some (b, r ++ t)

/-- At most `n` items are taken; with them there is what is left. -/
def drain : ℕ → List α → List β × List α
  | 0, s => ([], s)
  | n + 1, s =>
    match next s with
    | none => ([], s)
    | some (b, r) => (b :: (drain n r).1, (drain n r).2)

/-- All items are taken. -/
def drainAll (s : List α) : List β × List α := drain next s.length s

/-- A piece of the stream arrives, with the items that have been taken and what is left. -/
def feed (st : List β × List α) (piece : List α) : List β × List α :=
  (st.1 ++ (drainAll next (st.2 ++ piece)).1, (drainAll next (st.2 ++ piece)).2)

variable {next} {s r t : List α} {b : β} {bs : List β} {n : ℕ}

theorem drain_none (h : next s = none) (n : ℕ) : drain next n s = ([], s) := by
  cases n with
  | zero => rfl
  | succ n => rw [drain, h]

namespace Cuts

theorem drain_eq (hc : Cuts next) : ∀ {n m : ℕ} {s : List α}, s.length ≤ n → s.length ≤ m →
    drain next n s = drain next m s := by
  intro n
  induction n with
  | zero =>
    intro m s hn _
    obtain rfl := List.length_eq_zero_iff.1 (Nat.le_zero.1 hn)
    cases h : next ([] : List α) with
    | none => rw [drain_none h, drain_none h]
    | some x => exact absurd (hc.shorter h) (Nat.not_lt_zero _)
  | succ n ih =>
    intro m s hn hm
    cases h : next s with
    | none => rw [drain_none h, drain_none h]
    | some x =>
      have hlt := hc.shorter h
      obtain ⟨m, rfl⟩ := Nat.exists_eq_succ_of_ne_zero (Nat.ne_zero_of_lt (hlt.trans_le hm))
      rw [drain, drain, h]
      dsimp only
      rw [ih (m := m) (s := x.2) (by omega) (by omega)]

theorem drainAll_some (hc : Cuts next) (h : next s = some (b, r)) :
    drainAll next s = (b :: (drainAll next r).1, (drainAll next r).2) := by
  have hlt := hc.shorter h
  obtain ⟨m, hm⟩ := Nat.exists_eq_succ_of_ne_zero (Nat.ne_zero_of_lt hlt)
  rw [drainAll, hm, drain, h]
  dsimp only
  rw [drainAll, hc.drain_eq (n := m) (by omega) le_rfl]

/-- **What comes later is taken after what was there.** -/
theorem drainAll_append (hc : Cuts next) (t : List α) : ∀ {n : ℕ} {s : List α}, s.length ≤ n →
    drainAll next (s ++ t) = feed next (drainAll next s) t := by
  intro n
  induction n with
  | zero =>
    intro s hn
    obtain rfl := List.length_eq_zero_iff.1 (Nat.le_zero.1 hn)
    rfl
  | succ n ih =>
    intro s hn
    cases h : next s with
    | none =>
      rw [feed, show drainAll next s = ([], s) from drain_none h _]
      rfl
    | some x =>
      have hlt := hc.shorter h
      rw [hc.drainAll_some h, hc.drainAll_some (hc.more h t), ih (s := x.2) (by omega)]
      rfl

/-- **The pieces do not matter.** -/
theorem foldl_feed (hc : Cuts next) (pieces : List (List α)) :
    pieces.foldl (feed next) (drainAll next s) = drainAll next (s ++ pieces.flatten) := by
  induction pieces generalizing s with
  | nil => rw [List.foldl_nil, List.flatten_nil, List.append_nil]
  | cons piece pieces ih =>
    rw [List.foldl_cons, ← hc.drainAll_append piece le_rfl, ih, List.flatten_cons, List.append_assoc]

/-- What is taken from the start of a stream is the start of what is taken from it. -/
theorem drainAll_prefix (hc : Cuts next) (h : s <+: t) : (drainAll next s).1 <+: (drainAll next t).1 := by
  obtain ⟨r, rfl⟩ := h
  rw [hc.drainAll_append r le_rfl]
  exact List.prefix_append _ _

/-- Items that are put one after another are taken in order. -/
theorem drainAll_flatMap (hc : Cuts next) {enc : β → List α}
    (h : ∀ b ∈ bs, ∀ t, next (enc b ++ t) = some (b, t)) (hs : next s = none) :
    drainAll next (bs.flatMap enc ++ s) = (bs, s) := by
  induction bs with
  | nil => exact drain_none hs _
  | cons b bs ih =>
    rw [List.forall_mem_cons] at h
    rw [List.flatMap_cons, List.append_assoc, hc.drainAll_some (h.1 _), ih h.2]

end Cuts

end Levent.Lib
