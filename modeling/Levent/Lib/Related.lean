/-
  Lists whose elements are related one by one.
-/
import Mathlib.Data.List.Forall2

namespace Levent.Lib

variable {α β : Type*} {R : α → β → Prop} {l : List α} {l' : List β}

theorem related_left (h : List.Forall₂ R l l') : ∀ a ∈ l, ∃ b ∈ l', R a b := by
  induction h with
  | nil => simp
  | @cons a b l l' hab _ ih =>
    refine List.forall_mem_cons.2 ⟨⟨b, List.mem_cons_self, hab⟩, fun a' ha' => ?_⟩
    obtain ⟨b', hb', hab'⟩ := ih a' ha'
    exact ⟨b', List.mem_cons_of_mem _ hb', hab'⟩

theorem related_right (h : List.Forall₂ R l l') : ∀ b ∈ l', ∃ a ∈ l, R a b :=
  related_left h.flip

/-- What holds of an element exactly if it does of the related one. -/
theorem related_all {P : α → Prop} {Q : β → Prop} (h : List.Forall₂ R l l')
    (hPQ : ∀ a b, R a b → (P a ↔ Q b)) : (∀ a ∈ l, P a) ↔ ∀ b ∈ l', Q b := by
  constructor
  · intro hP b hb
    obtain ⟨a, ha, hab⟩ := related_right h b hb
    exact (hPQ a b hab).1 (hP a ha)
  · intro hQ a ha
    obtain ⟨b, hb, hab⟩ := related_left h a ha
    exact (hPQ a b hab).2 (hQ b hb)

/-- A function that succeeds on all elements. -/
theorem mapM_eq_some {f : α → Option β} : l.mapM f = some l' ↔ List.Forall₂ (fun a b => f a = some b) l l' := by
  induction l generalizing l' with
  | nil => cases l' <;> simp
  | cons a l ih =>
    rw [List.mapM_cons, Option.bind_eq_bind, Option.bind_eq_some_iff]
    constructor
    · rintro ⟨b, hb, hl⟩
      obtain ⟨bs, hbs, hl'⟩ := Option.bind_eq_some_iff.1 hl
      cases hl'
      exact .cons hb (ih.1 hbs)
    · intro h
      cases h with
      | cons hb hl => exact ⟨_, hb, by rw [ih.2 hl]; rfl⟩

section
variable {γ : Type*} {sep s s' : List γ}

/-- A prefix is found in both of two lists, if the same elements of it stand at the same
    places. -/
theorem prefix_congr (h : List.Forall₂ (fun c d => ∀ x ∈ sep, x = c ↔ x = d) s s') :
    sep <+: s ↔ sep <+: s' := by
  induction sep generalizing s s' with
  | nil => simp
  | cons x sep ih =>
    cases h with
    | nil => exact Iff.rfl
    | cons hcd hrest =>
      rw [List.cons_prefix_cons, List.cons_prefix_cons, hcd x List.mem_cons_self]
      exact and_congr_right' (ih (hrest.imp fun _ _ h y hy => h y (List.mem_cons_of_mem x hy)))

theorem infix_congr (h : List.Forall₂ (fun c d => ∀ x ∈ sep, x = c ↔ x = d) s s') :
    sep <:+: s ↔ sep <:+: s' := by
  induction h with
  | nil => exact Iff.rfl
  | cons hcd hrest ih => rw [List.infix_cons_iff, List.infix_cons_iff, prefix_congr (.cons hcd hrest), ih]

end

end Levent.Lib
