/-
  A loop that follows a partial function: where it goes, and when it halts.  On
  finitely many points it halts unless it comes back to a point.
-/
import Mathlib.Data.Fintype.Pigeonhole
import Mathlib.Logic.Relation

namespace Levent.Lib

open Relation (ReflTransGen TransGen)

variable {α σ : Type*} (f : α → Option α)

/-- The point after `n` rounds, if there have been as many. -/
def orbit : ℕ → α → Option α
  | 0, a => some a
  | n + 1, a => (f a).bind (orbit n)

/-- The loop from `a` ends. -/
def Halts (a : α) : Prop := ∃ n, orbit f n a = none

/-- One round goes from `a` to `b`. -/
def Goes (a b : α) : Prop := f a = some b

variable {f} {a b c : α}

theorem halts_iff (h : Goes f a b) : Halts f a ↔ Halts f b := by
  have hn : ∀ n, orbit f (n + 1) a = orbit f n b := fun n => by
    rw [orbit, show f a = some b from h]; rfl
  constructor
  · rintro ⟨n, hn'⟩
    cases n with
    | zero => cases hn'
    | succ n => exact ⟨n, (hn n).symm.trans hn'⟩
  · rintro ⟨n, hn'⟩; exact ⟨n + 1, (hn n).trans hn'⟩

/-- What holds of a point when it holds of the next one holds of those the loop
    ends from. -/
theorem Halts.induction {P : α → Prop} (hP : ∀ a, (∀ b, Goes f a b → P b) → P a)
    (h : Halts f a) : P a := by
  obtain ⟨n, hn⟩ := h
  induction n generalizing a with
  | zero => cases hn
  | succ n ih =>
    refine hP a fun b hb => ih ?_
    rwa [orbit, show f a = some b from hb] at hn

theorem orbit_snoc (n : ℕ) : orbit f (n + 1) a = (orbit f n a).bind f := by
  induction n generalizing a with
  | zero => cases h : f a <;> simp [orbit, h]
  | succ n ih =>
    rw [orbit]
    cases h : f a with
    | none => simp [orbit, h]
    | some b => simpa [orbit, h] using ih

theorem Halts.reach (h : ReflTransGen (Goes f) a b) (ha : Halts f a) : Halts f b := by
  induction h with
  | refl => exact ha
  | tail _ hbc ih => exact (halts_iff hbc).1 ih

/-- The loop does not come back to a point it halts from. -/
theorem Halts.not_cycle (h : Halts f a) : ¬ TransGen (Goes f) a a := by
  refine h.induction (P := fun a => ¬ TransGen (Goes f) a a) fun a ih hcycle => ?_
  obtain ⟨b, hab, hba⟩ := TransGen.head'_iff.1 hcycle
  exact ih b hab (TransGen.tail' hba hab)

theorem orbit_add (m n : ℕ) : orbit f (m + n) a = (orbit f m a).bind (orbit f n) := by
  induction m generalizing a with
  | zero => rw [Nat.zero_add]; rfl
  | succ m ih =>
    rw [Nat.succ_add, orbit, orbit, Option.bind_assoc]
    exact congrArg _ (funext fun b => ih)

/-- A loop that has ended has no later round. -/
theorem orbit_none_le {m n : ℕ} (h : orbit f m a = none) (hmn : m ≤ n) : orbit f n a = none := by
  obtain ⟨d, rfl⟩ := Nat.exists_eq_add_of_le hmn
  rw [orbit_add, h]
  rfl

theorem orbit_reach {n : ℕ} (h : orbit f n a = some b) : ReflTransGen (Goes f) a b := by
  induction n generalizing b with
  | zero => cases h; exact .refl
  | succ n ih =>
    rw [orbit_snoc] at h
    obtain ⟨c, hc, hcb⟩ := Option.bind_eq_some_iff.1 h
    exact (ih hc).tail hcb

theorem orbit_cycle {n : ℕ} (h : orbit f (n + 1) a = some b) : TransGen (Goes f) a b := by
  rw [orbit_snoc] at h
  obtain ⟨c, hc, hcb⟩ := Option.bind_eq_some_iff.1 h
  exact .tail' (orbit_reach hc) hcb

/-- A loop with more rounds than points comes back to one of them. -/
theorem exists_cycle (A : Finset α) (hA : ∀ a b, Goes f a b → a ∈ A) {n : ℕ} (hn : A.card < n)
    (h : orbit f n a ≠ none) : ∃ b, ReflTransGen (Goes f) a b ∧ TransGen (Goes f) b b := by
  have hsome : ∀ m ≤ n, ∃ b, orbit f m a = some b := fun m hm =>
    Option.ne_none_iff_exists'.1 fun hnone => h (orbit_none_le hnone hm)
  choose x hx using hsome
  have hmem : ∀ m (hm : m < n), x m hm.le ∈ A := by
    intro m hm
    refine hA _ (x (m + 1) hm) ?_
    have hnext := orbit_snoc (f := f) (a := a) m
    rw [hx m hm.le, hx (m + 1) hm] at hnext
    exact hnext.symm
  obtain ⟨k, l, hkl, heq⟩ := Fintype.exists_ne_map_eq_of_card_lt
    (fun m : Fin n => (⟨x m m.is_lt.le, hmem m m.is_lt⟩ : A)) (by simpa using hn)
  obtain ⟨k, l, hlt, heq⟩ : ∃ k l : Fin n, k < l ∧ x k k.is_lt.le = x l l.is_lt.le := by
    have heq' : x k k.is_lt.le = x l l.is_lt.le := congrArg Subtype.val heq
    rcases lt_or_gt_of_ne hkl with hlt | hlt
    · exact ⟨k, l, hlt, heq'⟩
    · exact ⟨l, k, hlt, heq'.symm⟩
  have hk := hx k k.is_lt.le
  have hl := hx l l.is_lt.le
  obtain ⟨d, hd⟩ := Nat.exists_eq_add_of_lt (show (k : ℕ) < l from hlt)
  refine ⟨x k k.is_lt.le, orbit_reach hk, orbit_cycle (n := d) ?_⟩
  rw [← heq, hd, Nat.add_assoc, orbit_add, hk] at hl
  exact hl

/-- A loop that halts does so within as many rounds as it has points. -/
theorem Halts.orbit_card (h : Halts f a) (A : Finset α) (hA : ∀ a b, Goes f a b → a ∈ A) {n : ℕ}
    (hn : A.card < n) : orbit f n a = none := by
  by_contra hne
  obtain ⟨b, hb, hcycle⟩ := exists_cycle A hA hn hne
  exact (h.reach hb).not_cycle hcycle

/-- **On finitely many points the loop halts unless it comes back to one.** -/
theorem halts_iff_not_cycle (A : Finset α) (hA : ∀ a b, Goes f a b → a ∈ A) :
    Halts f a ↔ ∀ b, ReflTransGen (Goes f) a b → ¬ TransGen (Goes f) b b := by
  refine ⟨fun h b hb => (h.reach hb).not_cycle, fun h => ?_⟩
  by_contra hn
  have hne : orbit f (A.card + 1) a ≠ none := fun hnone => hn ⟨_, hnone⟩
  obtain ⟨b, hb, hcycle⟩ := exists_cycle A hA (Nat.lt_succ_self _) hne
  exact h b hb hcycle

/-- A way on which some round does not make `μ` grow has such a round. -/
theorem exists_jump {μ : α → ℕ} {P : α → α → Prop}
    (hμ : ∀ a b, Goes f a b → μ a < μ b ∨ P a b) (h : TransGen (Goes f) a b) (hab : μ b ≤ μ a) :
    ∃ c d, ReflTransGen (Goes f) a c ∧ Goes f c d ∧ P c d ∧ ReflTransGen (Goes f) d b := by
  induction h with
  | single hab' =>
    rcases hμ _ _ hab' with hlt | hP
    · exact absurd hlt hab.not_gt
    · exact ⟨_, _, .refl, hab', hP, .refl⟩
  | @tail b c hab' hbc ih =>
    rcases hμ _ _ hbc with hlt | hP
    · obtain ⟨u, v, h1, h2, h3, h4⟩ := ih (hlt.le.trans hab)
      exact ⟨u, v, h1, h2, h3, h4.tail hbc⟩
    · exact ⟨b, c, hab'.to_reflTransGen, hbc, hP, .refl⟩

/-- A loop whose states follow the points of another halts with it. -/
theorem Halts.simulate {g : σ → Option σ} {S : σ → α → Prop}
    (hend : ∀ s a, S s a → (g s = none ↔ f a = none))
    (hgo : ∀ s s' a a', S s a → Goes g s s' → Goes f a a' → S s' a') {s : σ} (hs : S s a) :
    Halts g s ↔ Halts f a := by
  have step : ∀ n (s : σ) (a : α), S s a → (orbit g n s = none ↔ orbit f n a = none) := by
    intro n
    induction n with
    | zero => intro s a _; simp [orbit]
    | succ n ih =>
      intro s a hs
      cases hg : g s with
      | none => simp [orbit, hg, (hend s a hs).1 hg]
      | some s' =>
        cases hf : f a with
        | none => rw [(hend s a hs).2 hf] at hg; cases hg
        | some a' => simpa [orbit, hg, hf] using ih s' a' (hgo s s' a a' hs hg hf)
  exact exists_congr fun n => step n s a hs

end Levent.Lib
