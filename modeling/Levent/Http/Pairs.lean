/-
  What `parse_query_string` makes of pairs `k=v` that another program has joined by
  `&` or `;`, without escapes.

  A value may have a `=` in it, as a text in base64 has at its end: the pattern
  takes the last `=` that has something after it.
-/
import Levent.Http.Query
import Levent.Lib.Related

namespace Levent.Http

/-! ## Pairs -/

/-- A pair `k=v`, with the separator that is written after it before another one. -/
structure Param where
  key : List UInt8
  value : List UInt8
  sep : UInt8
  key_ne : key ≠ []
  key_plain : 61 ∉ key ∧ 38 ∉ key ∧ 59 ∉ key ∧ 37 ∉ key
  value_ne : value ≠ []
  value_plain : 38 ∉ value ∧ 59 ∉ value ∧ 37 ∉ value
  sep_eq : sep = 38 ∨ sep = 59

/-- The pairs, joined. -/
def joinParams : List Param → List UInt8
  | [] => []
  | [p] => p.key ++ 61 :: p.value
  | p :: q :: pairs => p.key ++ 61 :: (p.value ++ p.sep :: joinParams (q :: pairs))

/-- The value of the last pair with the key `k`. -/
def lastOf (pairs : List Param) (k : List UInt8) : Option (List UInt8) :=
  (pairs.reverse.find? (·.key = k)).map Param.value

/-- How the pattern divides a pair: where it was joined, or at a `=` of the value. -/
inductive Param.Cut (p : Param) : List UInt8 × List UInt8 → Prop
  | joined : 61 ∉ p.value.dropLast → p.Cut (p.key, p.value)
  | inside {a b : List UInt8} : p.value = a ++ 61 :: b → b ≠ [] → 61 ∉ b.dropLast →
      p.Cut (p.key ++ 61 :: a, b)

/-- An entry as the loop of `parse_query_string` finds it, without escapes. -/
structure Plain (e : List UInt8 × List UInt8) : Prop where
  key_ne : e.1 ≠ []
  key_arg : ∀ c ∈ e.1, isArg c = true
  key_plain : 37 ∉ e.1
  value_ne : e.2 ≠ []
  value_arg : ∀ c ∈ e.2, isArg c = true
  value_plain : 37 ∉ e.2
  last : 61 ∉ e.2.dropLast

variable {p : Param} {pairs : List Param} {e : List UInt8 × List UInt8}
  {found : List (List UInt8 × List UInt8)} {t : Args} {s rest : List UInt8}

theorem isArg_of_notMem (h38 : 38 ∉ s) (h59 : 59 ∉ s) : ∀ c ∈ s, isArg c = true := by
  intro c hc
  have h1 : c ≠ 38 := fun h => h38 (h ▸ hc)
  have h2 : c ≠ 59 := fun h => h59 (h ▸ hc)
  simp [isArg, h1, h2]

/-- A pair is divided somehow. -/
theorem Param.exists_cut (p : Param) : ∃ e, p.Cut e := by
  by_cases h : 61 ∈ p.value.dropLast
  · -- the last `=` that is not the last character
    obtain ⟨b, a, hab, hb⟩ := List.eq_append_cons_of_mem (List.mem_reverse.2 h)
    have hdrop : p.value.dropLast = a.reverse ++ 61 :: b.reverse := by
      rw [← List.reverse_reverse p.value.dropLast, hab]
      simp
    refine ⟨_, .inside (a := a.reverse) (b := b.reverse ++ [p.value.getLast p.value_ne]) ?_ (by simp) ?_⟩
    · rw [← List.cons_append, ← List.append_assoc, ← hdrop, List.dropLast_concat_getLast]
    · rw [List.dropLast_concat]
      exact fun h => hb (List.mem_reverse.1 h)
  · exact ⟨_, .joined h⟩

theorem Param.Cut.text (h : p.Cut e) : p.key ++ 61 :: p.value = e.1 ++ 61 :: e.2 := by
  cases h with
  | joined _ => rfl
  | inside hv _ _ => rw [hv, List.append_assoc, List.cons_append]

theorem Param.Cut.plain (h : p.Cut e) : Plain e := by
  obtain ⟨-, k38, k59, k37⟩ := p.key_plain
  obtain ⟨v38, v59, v37⟩ := p.value_plain
  cases h with
  | joined hlast =>
    exact ⟨p.key_ne, isArg_of_notMem k38 k59, k37, p.value_ne, isArg_of_notMem v38 v59, v37, hlast⟩
  | @inside a b hv hb hlast =>
    rw [hv] at v38 v59 v37
    simp only [List.mem_append, List.mem_cons, not_or] at v38 v59 v37
    refine ⟨by simp, isArg_of_notMem ?_ ?_, ?_, hb, isArg_of_notMem v38.2.2 v59.2.2, v37.2.2, hlast⟩
    · simp [k38, v38.1]
    · simp [k59, v59.1]
    · simp [k37, v37.1]

/-- **What is found**: one entry for each pair. -/
theorem gmatchPairs_join (pairs : List Param) : List.Forall₂ Param.Cut pairs (gmatchPairs (joinParams pairs)) := by
  have hentry : ∀ (p : Param) (rest : List UInt8), Stops rest →
      ∃ e, p.Cut e ∧ gmatchPairs (p.key ++ 61 :: (p.value ++ rest)) = e :: gmatchPairs rest := by
    intro p rest hrest
    obtain ⟨e, he⟩ := p.exists_cut
    have hp := he.plain
    have htext : p.key ++ 61 :: (p.value ++ rest) = e.1 ++ 61 :: (e.2 ++ rest) := by
      rw [← List.cons_append, ← List.append_assoc, he.text, List.append_assoc, List.cons_append]
    refine ⟨e, he, ?_⟩
    rw [htext, gmatchPairs_entry hp.key_arg hp.key_ne hp.value_arg hp.last hp.value_ne hrest]
  induction pairs with
  | nil =>
    rw [joinParams, gmatchPairs.eq_def]
    exact .nil
  | cons p pairs ih =>
    cases pairs with
    | nil =>
      obtain ⟨e, he, h⟩ := hentry p [] (by simp [Stops])
      rw [List.append_nil] at h
      rw [joinParams, h]
      refine .cons he ?_
      rw [gmatchPairs.eq_def]
      exact .nil
    | cons q pairs =>
      have hstop : isArg p.sep = false := by
        rcases p.sep_eq with h | h <;> rw [h] <;> rfl
      have hstops : Stops (p.sep :: joinParams (q :: pairs)) := by
        intro c hc
        cases hc
        exact hstop
      obtain ⟨e, he, h⟩ := hentry p _ hstops
      have hskip : matchPair (p.sep :: joinParams (q :: pairs)) = none := by
        rw [matchPair, List.takeWhile_cons_of_neg (by rw [hstop]; exact Bool.false_ne_true)]
        rfl
      rw [joinParams, h, gmatchPairs_skip hskip]
      exact .cons he ih

/-! ## The table -/

theorem unescape_plain (h : 37 ∉ s) : unescape s = s := by
  induction s with
  | nil => rfl
  | cons c s ih =>
    rw [List.mem_cons, not_or] at h
    rw [unescape_cons (Ne.symm h.1), ih h.2]

/-- The last entry with a key counts. -/
theorem foldl_plain (h : ∀ e ∈ found, Plain e) (k : List UInt8) :
    found.foldl (fun t (k, v) =>
        if 0 < k.length then Function.update t (unescape k) (some (unescape v)) else t) t k =
      ((found.reverse.find? (·.1 = k)).map Prod.snd).or (t k) := by
  induction found generalizing t with
  | nil => rfl
  | cons e found ih =>
    have hp := h e List.mem_cons_self
    rw [List.foldl_cons, ih fun e he => h e (List.mem_cons_of_mem _ he), List.reverse_cons, List.find?_append]
    dsimp only
    rw [if_pos (List.length_pos_iff.2 hp.key_ne), unescape_plain hp.key_plain, unescape_plain hp.value_plain]
    by_cases hk : k = e.1
    · subst hk
      cases found.reverse.find? (·.1 = e.1) <;> simp
    · rw [Function.update_of_ne hk]
      cases found.reverse.find? (·.1 = k) <;> simp [Ne.symm hk]

/-- **What is read** of the pairs: the last of the entries they are divided into. -/
theorem parse_join (pairs : List Param) : ∃ found, List.Forall₂ Param.Cut pairs found ∧
    parseQueryString (some (joinParams pairs)) Args.empty =
      fun k => (found.reverse.find? (·.1 = k)).map Prod.snd := by
  have hcut := gmatchPairs_join pairs
  refine ⟨_, hcut, funext fun k => ?_⟩
  have hplain : ∀ e ∈ gmatchPairs (joinParams pairs), Plain e := by
    intro e he
    obtain ⟨p, -, hp⟩ := Lib.related_right hcut e he
    exact hp.plain
  rw [parseQueryString, foldl_plain hplain]
  exact Option.or_none

/-- A pair that is divided at a `=` of its value has another key. -/
theorem Param.Cut.mem_iff (h : p.Cut e) : 61 ∈ e.1 ↔ 61 ∈ p.value.dropLast := by
  cases h with
  | joined hlast => exact iff_of_false p.key_plain.1 hlast
  | @inside a b hv hb _ =>
    refine iff_of_true (by simp) ?_
    obtain ⟨c, b, rfl⟩ := List.exists_cons_of_ne_nil hb
    rw [hv, List.dropLast_append_cons, List.dropLast_cons_cons]
    simp

theorem Param.Cut.eq (h : p.Cut e) (hp : 61 ∉ p.value.dropLast) : e = (p.key, p.value) := by
  cases h with
  | joined _ => rfl
  | inside hv hb hlast => exact absurd ((Cut.inside hv hb hlast).mem_iff.1 (by simp)) hp

/-- **Values without such a `=`** are read as they were written. -/
theorem parse_of_last (h : ∀ p ∈ pairs, 61 ∉ p.value.dropLast) :
    parseQueryString (some (joinParams pairs)) Args.empty = lastOf pairs := by
  obtain ⟨found, hcut, hparse⟩ := parse_join pairs
  have hfound : found = pairs.map fun p => (p.key, p.value) := by
    clear hparse
    induction hcut with
    | nil => rfl
    | @cons p e pairs found hp _ ih =>
      rw [List.map_cons, hp.eq (h p List.mem_cons_self), ih fun p hp => h p (List.mem_cons_of_mem _ hp)]
  rw [hparse]
  funext k
  rw [lastOf, hfound, ← List.map_reverse, List.find?_map, Option.map_map]
  rfl

/-- **A value with such a `=`** gives the table a key that no pair has. -/
theorem parse_of_inside (hp : p ∈ pairs) (h : 61 ∈ p.value.dropLast) :
    parseQueryString (some (joinParams pairs)) Args.empty ≠ lastOf pairs := by
  obtain ⟨found, hcut, hparse⟩ := parse_join pairs
  obtain ⟨e, he, hpe⟩ := Lib.related_left hcut p hp
  have hkey := hpe.mem_iff.2 h
  intro heq
  rw [hparse] at heq
  have hnone : lastOf pairs e.1 = none := by
    rw [lastOf, Option.map_eq_none_iff, List.find?_eq_none]
    intro q _ hq
    rw [decide_eq_true_eq] at hq
    exact q.key_plain.1 (hq ▸ hkey)
  have hfind := congrFun heq e.1
  rw [hnone, Option.map_eq_none_iff, List.find?_eq_none] at hfind
  exact hfind e (List.mem_reverse.2 he) (decide_eq_true rfl)

/-- **The pairs are read as they were joined exactly if no value has a `=` before its
    last character.** -/
theorem parse_join_iff (pairs : List Param) :
    parseQueryString (some (joinParams pairs)) Args.empty = lastOf pairs ↔
      ∀ p ∈ pairs, 61 ∉ p.value.dropLast := by
  constructor
  · intro h p hp hmem
    exact parse_of_inside hp hmem h
  · exact parse_of_last

/-- A value `a=b` is cut at its `=`. -/
theorem parse_join_value : ∃ pairs : List Param,
    parseQueryString (some (joinParams pairs)) Args.empty ≠ lastOf pairs := by
  refine ⟨[⟨ascii "sig", ascii "a=b", 38, ?_, ?_, ?_, ?_, .inl rfl⟩],
    parse_of_inside List.mem_cons_self ?_⟩ <;> decide

end Levent.Http
