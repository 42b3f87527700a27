/-
  Lists that are cut at a separator: at its first occurrence (`cut`), or at all of
  them (`split`), and when the pieces are those that were joined.
-/
import Mathlib.Data.List.Infix

namespace Levent.Lib

variable {α : Type*} [DecidableEq α]

/-- What is before the first `sep`, and what is after it. -/
def cut (sep : List α) : List α → Option (List α × List α)
  | [] => if sep = [] then some ([], []) else none
  | c :: s =>
    if sep <+: c :: s then some ([], (c :: s).drop sep.length)
    else (cut sep s).map fun (a, b) => (c :: a, b)

variable {sep s a b : List α}

theorem cut_some (h : cut sep s = some (a, b)) : s = a ++ sep ++ b := by
  induction s generalizing a with
  | nil =>
    unfold cut at h
    split at h
    · rename_i hsep
      cases h
      rw [hsep]
      rfl
    · cases h
  | cons c s ih =>
    unfold cut at h
    split at h
    · rename_i hpre
      cases h
      obtain ⟨t, ht⟩ := hpre
      rw [← ht, List.drop_left, List.nil_append]
    · obtain ⟨⟨a', b'⟩, hcut, hab⟩ := Option.map_eq_some_iff.1 h
      cases hab
      rw [ih hcut]
      rfl

theorem cut_length (hsep : sep ≠ []) (h : cut sep s = some (a, b)) : b.length < s.length := by
  have hpos := List.length_pos_iff.2 hsep
  rw [cut_some h, List.length_append, List.length_append]
  omega

/-- The pieces between the separators. -/
def split (sep s : List α) : List (List α) :=
  if _hsep : sep = [] then [s]
  else
    match _h : cut sep s with
    | some (a, b) => a :: split sep b
    | none => [s]
  termination_by s.length
  decreasing_by exact cut_length ‹¬ sep = []› _h

/-! ## The first occurrence -/

/-- A separator is found where there is none before it, also not one that begins
    before it. -/
theorem cut_append (hsep : sep ≠ []) (h : ¬ sep <:+: a ++ sep.dropLast) (b : List α) :
    cut sep (a ++ sep ++ b) = some (a, b) := by
  induction a with
  | nil =>
    obtain ⟨c, sep, rfl⟩ := List.exists_cons_of_ne_nil hsep
    show cut (c :: sep) (c :: (sep ++ b)) = _
    rw [cut, if_pos ⟨b, rfl⟩]
    exact congrArg (fun t => some ([], t)) List.drop_left
  | cons c a ih =>
    have hpos := List.length_pos_iff.2 hsep
    have hpre : ¬ sep <+: c :: (a ++ sep ++ b) := by
      intro hpre
      refine h (List.IsPrefix.isInfix (List.prefix_of_prefix_length_le hpre ?_ ?_))
      · have hdrop : sep.dropLast <+: sep ++ b := (List.dropLast_prefix sep).trans (List.prefix_append sep b)
        rw [List.append_assoc]
        exact (List.prefix_append_right_inj (c :: a)).2 hdrop
      · simp only [List.cons_append, List.length_cons, List.length_append, List.length_dropLast]
        omega
    have hrest : ¬ sep <:+: a ++ sep.dropLast := fun hin => h (hin.trans (List.suffix_cons c _).isInfix)
    show cut sep (c :: (a ++ sep ++ b)) = _
    rw [cut, if_neg hpre, ih hrest]
    rfl

theorem cut_eq_none (hsep : sep ≠ []) : cut sep s = none ↔ ¬ sep <:+: s := by
  induction s with
  | nil =>
    unfold cut
    rw [if_neg hsep, List.infix_nil]
    exact iff_of_true rfl hsep
  | cons c s ih =>
    unfold cut
    rw [List.infix_cons_iff, not_or]
    split
    · rename_i hpre
      exact iff_of_false nofun fun h => h.1 hpre
    · rename_i hpre
      rw [Option.map_eq_none_iff, ih, and_iff_right hpre]

/-- Before the first separator there is none. -/
theorem cut_notMem (hsep : sep ≠ []) (h : cut sep s = some (a, b)) : ¬ sep <:+: a := by
  induction s generalizing a with
  | nil =>
    unfold cut at h
    rw [if_neg hsep] at h
    cases h
  | cons c s ih =>
    unfold cut at h
    split at h
    · cases h
      rw [List.infix_nil]
      exact hsep
    · rename_i hpre
      obtain ⟨⟨a', b'⟩, hcut, hab⟩ := Option.map_eq_some_iff.1 h
      cases hab
      rw [List.infix_cons_iff, not_or]
      refine ⟨fun hp => hpre (hp.trans ?_), ih hcut⟩
      rw [cut_some hcut, List.append_assoc]
      exact List.prefix_append (c :: a') _

omit [DecidableEq α] in
/-- A separator does not stand across a character that it does not have. -/
theorem infix_append_cons {c : α} (hc : c ∉ sep) (h : sep <:+: a ++ c :: b) : sep <:+: a ∨ sep <:+: b := by
  obtain ⟨u, v, huv⟩ := h
  rcases List.append_eq_append_iff.1 huv with ⟨w, ha, -⟩ | ⟨w, hu, hw⟩
  · exact .inl ⟨u, w, ha.symm⟩
  rcases List.append_eq_append_iff.1 hu with ⟨x, -, hsep⟩ | ⟨x, hx, rfl⟩
  · cases w with
    | nil => exact .inl ⟨u, [], by simpa using hu⟩
    | cons d w =>
      cases hw
      exact absurd (hsep ▸ by simp) hc
  · cases x with
    | nil =>
      cases sep with
      | nil => exact .inl List.nil_infix
      | cons d sep =>
        cases hw
        exact absurd List.mem_cons_self hc
    | cons d x =>
      cases hw
      exact .inr ⟨x, v, rfl⟩

omit [DecidableEq α] in
/-- Another piece at the end. -/
theorem intercalate_concat {l : List (List α)} (hne : l ≠ []) (t : List α) :
    sep.intercalate (l ++ [t]) = sep.intercalate l ++ sep ++ t := by
  induction l with
  | nil => exact absurd rfl hne
  | cons s l ih =>
    cases l with
    | nil => simp
    | cons r l =>
      have hrec := ih (List.cons_ne_nil r l)
      rw [List.intercalate_cons_cons, List.cons_append, List.cons_append, List.intercalate_cons_cons,
        ← List.cons_append, hrec]
      simp only [List.append_assoc]

/-! ## Separators that do not overlap -/

/-- An occurrence of the separator does not begin inside of another one. -/
structure Separator (sep : List α) : Prop where
  ne_nil : sep ≠ []
  apart : ∀ a : List α, sep <:+: a ++ sep.dropLast → sep <:+: a

omit [DecidableEq α] in
/-- Two different characters are a separator. -/
theorem separator_pair {x y : α} (h : x ≠ y) : Separator [x, y] := by
  refine ⟨List.cons_ne_nil _ _, fun a ha => ?_⟩
  obtain ⟨u, v, huv⟩ := ha
  rcases List.eq_nil_or_concat v with rfl | ⟨v, z, rfl⟩
  · rw [List.append_nil, show [x, y].dropLast = [x] from rfl, List.append_cons] at huv
    exact absurd (List.append_inj' huv rfl).2 (by simpa using h.symm)
  · rw [show [x, y].dropLast = [x] from rfl, List.concat_eq_append, ← List.append_assoc] at huv
    exact ⟨u, v, (List.append_inj' huv rfl).1⟩

section
variable (hs : Separator sep)
include hs

theorem Separator.cut_append (h : ¬ sep <:+: a) (b : List α) : cut sep (a ++ sep ++ b) = some (a, b) :=
  Lib.cut_append hs.ne_nil (fun hin => h (hs.apart a hin)) b

theorem Separator.split_none (h : ¬ sep <:+: s) : split sep s = [s] := by
  rw [split, dif_neg hs.ne_nil]
  split
  · rename_i a b hcut
    rw [(cut_eq_none hs.ne_nil).2 h] at hcut
    cases hcut
  · rfl

theorem Separator.split_some (h : cut sep s = some (a, b)) : split sep s = a :: split sep b := by
  rw [split, dif_neg hs.ne_nil]
  split
  · rename_i hcut
    rw [h] at hcut
    cases hcut
    rfl
  · rename_i hcut
    rw [h] at hcut
    cases hcut

/-- **Lists that are joined are split as each of them is.** -/
theorem Separator.split_append (s t : List α) : split sep (s ++ sep ++ t) = split sep s ++ split sep t := by
  induction hn : s.length using Nat.strong_induction_on generalizing s with
  | _ n ih =>
    cases hcut : cut sep s with
    | none =>
      have hin := (cut_eq_none hs.ne_nil).1 hcut
      rw [hs.split_some (hs.cut_append hin t), hs.split_none hin]
      rfl
    | some r =>
      obtain ⟨a, b⟩ := r
      have hlt := cut_length hs.ne_nil hcut
      have hnext : cut sep (s ++ sep ++ t) = some (a, b ++ sep ++ t) := by
        rw [cut_some hcut, List.append_assoc (a ++ sep) b, List.append_assoc (a ++ sep)]
        exact hs.cut_append (cut_notMem hs.ne_nil hcut) _
      rw [hs.split_some hnext, hs.split_some hcut, ih b.length (hn ▸ hlt) b rfl]
      rfl

/-- **Pieces without the separator come back.** -/
theorem Separator.split_intercalate {l : List (List α)} (hne : l ≠ []) (h : ∀ s ∈ l, ¬ sep <:+: s) :
    split sep (sep.intercalate l) = l := by
  induction l with
  | nil => exact absurd rfl hne
  | cons s l ih =>
    have hhead := hs.split_none (h s List.mem_cons_self)
    cases l with
    | nil => rw [List.intercalate_singleton, hhead]
    | cons t l =>
      rw [List.intercalate_cons_cons, hs.split_append, hhead,
        ih (List.cons_ne_nil t l) fun s hs => h s (List.mem_cons_of_mem _ hs)]
      rfl

/-- The pieces have no separator. -/
theorem Separator.notMem_of_mem_split {t : List α} (ht : t ∈ split sep s) : ¬ sep <:+: t := by
  induction hn : s.length using Nat.strong_induction_on generalizing s with
  | _ n ih =>
    cases hcut : cut sep s with
    | none =>
      have hin := (cut_eq_none hs.ne_nil).1 hcut
      rw [hs.split_none hin, List.mem_singleton] at ht
      rw [ht]
      exact hin
    | some r =>
      obtain ⟨a, b⟩ := r
      rw [hs.split_some hcut, List.mem_cons] at ht
      rcases ht with rfl | ht
      · exact cut_notMem hs.ne_nil hcut
      · exact ih b.length (hn ▸ cut_length hs.ne_nil hcut) ht rfl

/-- **Two separators next to each other** do not stand in pieces that are joined, when
    none of the pieces is empty. -/
theorem Separator.double_notMem {l : List (List α)} (hne : l ≠ []) (h : ∀ s ∈ l, ¬ sep <:+: s)
    (hnil : [] ∉ l) : ¬ sep ++ sep <:+: sep.intercalate l := by
  rintro ⟨u, v, huv⟩
  have hsplit := hs.split_intercalate hne h
  have hempty : ¬ sep <:+: [] := by
    rw [List.infix_nil]
    exact hs.ne_nil
  have heq : u ++ (sep ++ sep) ++ v = u ++ sep ++ ([] ++ sep ++ v) := by simp
  rw [← huv, heq, hs.split_append, hs.split_append, hs.split_none hempty] at hsplit
  exact hnil (hsplit ▸ by simp)

end

end Levent.Lib
