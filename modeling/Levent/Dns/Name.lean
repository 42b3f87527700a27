/-
  `unpack_name` of `dns.lua`: the loop over the labels and the compression
  pointers of a name, when it ends, and what it returns.
-/
import Levent.Lib.Orbit
import Levent.Lib.Pack

namespace Levent

open Lib (Goes Halts Lua Ends At ofBytes toBytes posrelat posrelat_succ unpackAt unpackI unpackS)
open Relation (ReflTransGen TransGen)

variable (chunk : List UInt8)

/-! ## unpack_name -/

/-- `table.concat(t, ".")` -/
def concatDots (t : List (List UInt8)) : List UInt8 := (t.intersperse [46]).flatten

/-- The locals of `unpack_name` that live from one round to the next. -/
structure NameState where
  t : List (List UInt8)
  jumpPointer : Option ℤ
  left : ℤ

/-- One round of the loop; `break` gives the results. -/
def unpackNameRound (s : NameState) : Lua (NameState ⊕ List UInt8 × ℤ) := do
  let (tag, left) ← unpackI chunk 1 s.left
  if tag &&& 0xc0 = 0xc0 then
    let (offset, left) ← unpackI chunk 2 (left - 1)
    let offset := offset &&& 0x3fff
    -- offset is base 0
    .ok (.inl { s with jumpPointer := some (s.jumpPointer.getD left), left := offset + 1 })
  else if tag = 0 then
    .ok (.inr (concatDots s.t, s.jumpPointer.getD left))
  else
    let (label, left) ← unpackS chunk 1 (left - 1)
    .ok (.inl { s with t := s.t ++ [label], left })

/-- The first rounds of the loop. -/
def unpackNameLoop : ℕ → NameState → Lua (List UInt8 × ℤ)
  | 0, _ => .error .unfinished
  | n + 1, s => do
    match ← unpackNameRound chunk s with
    | .inr r => .ok r
    | .inl s' => unpackNameLoop n s'

/-- `unpack_name`, for as many rounds. -/
def unpackName (left : ℤ) (rounds : ℕ) : Lua (List UInt8 × ℤ) :=
  unpackNameLoop chunk rounds ⟨[], none, left⟩

/-- `unpack_name` returns or raises. -/
def UnpackName.Terminates (left : ℤ) : Prop :=
  ∃ rounds, unpackName chunk left rounds ≠ .error .unfinished

/-! ## Where a name goes -/

/-- At the offset `i` is a compression pointer to the offset `j`. -/
def PointsTo (i j : ℕ) : Prop :=
  ∃ hi lo : UInt8, At chunk i [hi, lo] ∧ hi.toNat &&& 0xc0 = 0xc0 ∧ j = ofBytes [hi, lo] &&& 0x3fff

/-- At the offset `i` is the label `l`. -/
def LabelAt (i : ℕ) (l : List UInt8) : Prop :=
  ∃ n : UInt8, At chunk i (n :: l) ∧ ¬ (n.toNat &&& 0xc0 = 0xc0) ∧ n ≠ 0 ∧ l.length = n.toNat

/-- The name goes on from the offset `i` at `j`: after a label, or where a
    pointer is to. -/
inductive NameGoes : ℕ → ℕ → Prop
  | label {i l} : LabelAt chunk i l → NameGoes i (i + 1 + l.length)
  | pointer {i j} : PointsTo chunk i j → NameGoes i j

/-- The name that starts at the position `left` comes to the offset `i`. -/
def NameReaches (left : ℤ) (i : ℕ) : Prop :=
  ∃ i₀ : ℕ, posrelat left chunk.length = i₀ + 1 ∧ ReflTransGen (NameGoes chunk) i₀ i

/-- The name of the labels `ls` is at the offset `i`, and `j` is the offset
    after it. -/
inductive NameAt : ℕ → List (List UInt8) → ℕ → Prop
  | root {i} : At chunk i [0] → NameAt i [] (i + 1)
  | label {i l ls j} : LabelAt chunk i l → NameAt (i + 1 + l.length) ls j → NameAt i (l :: ls) j
  | pointer {i o ls j} : PointsTo chunk i o → NameAt o ls j → NameAt i ls (i + 2)

variable {chunk}

/-! ## The bytes of a name -/

theorem at_byte {i : ℕ} {b : UInt8} : At chunk i [b] ↔ chunk[i]? = some b := by
  unfold At
  rw [← List.head?_drop]
  cases chunk.drop i with
  | nil => simp
  | cons c cs => simp [eq_comm]

theorem at_cons {i : ℕ} {b : UInt8} {bs : List UInt8} :
    At chunk i (b :: bs) ↔ chunk[i]? = some b ∧ At chunk (i + 1) bs := by
  rw [← at_byte, ← List.singleton_append, Lib.at_append_iff, List.length_singleton]

/-! ## One round -/

section
variable {s : NameState} {i : ℕ} (h : posrelat s.left chunk.length = i + 1)
include h

theorem unpackNameRound_pointer {o : ℕ} (ho : PointsTo chunk i o) :
    unpackNameRound chunk s =
      .ok (.inl ⟨s.t, some (s.jumpPointer.getD ((i + 2 : ℕ) + 1)), o + 1⟩) := by
  obtain ⟨hi, lo, hat, htag, rfl⟩ := ho
  have hhi : At chunk i [hi] := at_byte.2 (at_cons.1 hat).1
  rw [unpackNameRound, Lib.unpackI_at (n := 1) h hhi rfl Nat.one_pos]
  simp only [bind, Except.bind]
  rw [if_pos (by simpa [ofBytes] using htag), Lib.unpackI_at (n := 2) (i := i) (by simp) hat rfl Nat.two_pos]
  rfl

theorem unpackNameRound_root (h0 : At chunk i [0]) :
    unpackNameRound chunk s =
      .ok (.inr (concatDots s.t, s.jumpPointer.getD ((i + 1 : ℕ) + 1))) := by
  rw [unpackNameRound, Lib.unpackI_at (n := 1) h h0 rfl Nat.one_pos]
  simp only [bind, Except.bind]
  rw [if_neg (by decide), if_pos (by decide)]
  rfl

theorem unpackNameRound_label {l : List UInt8} (hl : LabelAt chunk i l) :
    unpackNameRound chunk s = .ok (.inl ⟨s.t ++ [l], s.jumpPointer, (i + 1 + l.length : ℕ) + 1⟩) := by
  obtain ⟨n, hat, htag, hn, hlen⟩ := hl
  have hone : At chunk i ([n] ++ l) := hat
  rw [unpackNameRound, Lib.unpackI_at (n := 1) h (Lib.at_append_iff.1 hone).1 rfl Nat.one_pos]
  have hof : ofBytes [n] = n.toNat := by simp [ofBytes]
  simp only [bind, Except.bind, hof]
  rw [if_neg htag, if_neg (show ¬ n.toNat = 0 from fun h0 => hn (UInt8.toNat_inj.1 h0)),
    Lib.unpackS_at (n := 1) (i := i) (by simp) hone rfl Nat.one_pos (by rw [hof, hlen])]
  simp

end

theorem unpackNameRound_ends (s : NameState) : Ends (unpackNameRound chunk s) :=
  Lib.unpackI_ends.bind fun ⟨tag, left⟩ _ => by
    dsimp only
    split
    · exact Lib.unpackI_ends.bind fun _ _ => .ok _
    · split
      · exact .ok _
      · exact Lib.unpackS_ends.bind fun _ _ => .ok _

/-- A round that does not raise has something of a name before it. -/
theorem unpackNameRound_ok {s : NameState} {i : ℕ} (h : posrelat s.left chunk.length = i + 1) {r}
    (hr : unpackNameRound chunk s = .ok r) :
    (∃ o, PointsTo chunk i o) ∨ At chunk i [0] ∨ ∃ l, LabelAt chunk i l := by
  obtain ⟨⟨tag, left⟩, hI, hr⟩ := Lib.bind_eq_ok.1 hr
  obtain ⟨j, bs, hp, hb, hlen, -, rfl, rfl⟩ := Lib.unpackI_ok hI
  obtain rfl : j = i := by omega
  obtain ⟨b, rfl⟩ := List.length_eq_one_iff.1 hlen
  have hof : ofBytes [b] = b.toNat := by simp [ofBytes]
  simp only [hof] at hr
  split at hr
  · rename_i htag
    obtain ⟨⟨offset, left⟩, hJ, -⟩ := Lib.bind_eq_ok.1 hr
    obtain ⟨k, cs, hp', hc, hlen', -, -, -⟩ := Lib.unpackI_ok hJ
    obtain rfl : k = j := by simp at hp'; omega
    obtain ⟨hi, lo, rfl⟩ := List.length_eq_two.1 hlen'
    obtain rfl := Option.some.inj ((at_cons.1 hb).1.symm.trans (at_cons.1 hc).1)
    exact .inl ⟨_, b, lo, hc, htag, rfl⟩
  · rename_i htag
    split at hr
    · rename_i h0
      obtain rfl : b = 0 := UInt8.toNat_inj.1 h0
      exact .inr (.inl hb)
    · rename_i h0
      obtain ⟨⟨label, left⟩, hS, -⟩ := Lib.bind_eq_ok.1 hr
      obtain ⟨k, cs, hp', hc, hlen', -, hk, -⟩ := Lib.unpackS_ok hS
      obtain rfl : k = j := by simp at hp'; omega
      obtain ⟨c, rfl⟩ := List.length_eq_one_iff.1 hlen'
      obtain rfl := Option.some.inj ((at_cons.1 hb).1.symm.trans (at_cons.1 hc).1)
      exact .inr (.inr ⟨label, b, hc, htag, fun hb0 => h0 (by rw [hb0]; rfl), by
        simpa [ofBytes] using hk⟩)

/-- A round where a name does not go on raises. -/
theorem unpackNameRound_bad {s : NameState} {i : ℕ} (h : posrelat s.left chunk.length = i + 1)
    (h1 : ∀ o, ¬ PointsTo chunk i o) (h2 : ¬ At chunk i [0]) (h3 : ∀ l, ¬ LabelAt chunk i l) :
    ∃ e, unpackNameRound chunk s = .error (.raised e) := by
  refine (unpackNameRound_ends s).raises fun r hr => ?_
  obtain ⟨o, ho⟩ | h0 | ⟨l, hl⟩ := unpackNameRound_ok h hr
  · exact h1 o ho
  · exact h2 h0
  · exact h3 l hl

/-! ## The loop follows the name -/

/-- The next offset of a name. -/
def nameNext (chunk : List UInt8) (i : ℕ) : Option ℕ :=
  match chunk[i]? with
  | none => none
  | some n =>
    if n.toNat &&& 0xc0 = 0xc0 then (chunk[i + 1]?).map fun lo => ofBytes [n, lo] &&& 0x3fff
    else if n = 0 then none
    else if i + 1 + n.toNat ≤ chunk.length then some (i + 1 + n.toNat) else none

theorem nameNext_goes {i j : ℕ} : Goes (nameNext chunk) i j ↔ NameGoes chunk i j := by
  unfold Goes nameNext
  constructor
  · intro h
    split at h
    · cases h
    · rename_i n hn
      split at h
      · rename_i hp
        obtain ⟨lo, hlo, rfl⟩ := Option.map_eq_some_iff.1 h
        exact .pointer ⟨n, lo, at_cons.2 ⟨hn, at_byte.2 hlo⟩, hp, rfl⟩
      · rename_i hp
        split at h
        · cases h
        · rename_i h0
          split at h
          · rename_i hle
            obtain rfl := Option.some.inj h
            obtain ⟨hat, hlen⟩ := Lib.At.of_take (i := i + 1) hle
            exact hlen ▸ .label ⟨n, at_cons.2 ⟨hn, hat⟩, hp, h0, hlen⟩
          · cases h
  · intro h
    cases h with
    | label hl =>
      obtain ⟨n, hat, hp, h0, hlen⟩ := hl
      have hle := hat.le (List.cons_ne_nil _ _)
      rw [List.length_cons, hlen] at hle
      simp only [(at_cons.1 hat).1]
      rw [if_neg hp, if_neg h0, if_pos (by omega), hlen]
    | pointer hp =>
      obtain ⟨n, lo, hat, hp, rfl⟩ := hp
      obtain ⟨hn, hlo⟩ := at_cons.1 hat
      simp only [hn]
      rw [if_pos hp, at_byte.1 hlo]
      rfl

/-- The state after a round that is not the last. -/
def unpackNameNext (chunk : List UInt8) (s : NameState) : Option NameState :=
  match unpackNameRound chunk s with
  | .ok (.inl s') => some s'
  | _ => none

theorem unpackNameLoop_ends (n : ℕ) (s : NameState) :
    Ends (unpackNameLoop chunk n s) ↔ Lib.orbit (unpackNameNext chunk) n s = none := by
  induction n generalizing s with
  | zero => simp [unpackNameLoop, Lib.orbit, Ends]
  | succ n ih =>
    have hends : Ends (unpackNameRound chunk s) := unpackNameRound_ends s
    rw [unpackNameLoop, Lib.orbit, unpackNameNext]
    cases hr : unpackNameRound chunk s with
    | error e =>
      rw [hr] at hends
      exact iff_of_true (fun h => hends (congrArg Except.error (Except.error.inj h))) rfl
    | ok r =>
      cases r with
      | inl s' => exact ih s'
      | inr r => exact iff_of_true (Lib.Ends.ok _) rfl

/-- **A round goes to the next offset of the name**, or is the last one. -/
theorem unpackNameNext_spec {s : NameState} {i : ℕ} (h : posrelat s.left chunk.length = i + 1) :
    (unpackNameNext chunk s = none ↔ nameNext chunk i = none) ∧
      ∀ s' j, unpackNameNext chunk s = some s' → nameNext chunk i = some j →
        posrelat s'.left chunk.length = j + 1 := by
  -- where the name goes on, the round gives a state at the next offset
  have hgo : ∀ {s' : NameState} {j : ℕ}, unpackNameRound chunk s = .ok (.inl s') → s'.left = j + 1 →
      NameGoes chunk i j → (unpackNameNext chunk s = none ↔ nameNext chunk i = none) ∧
      ∀ s' j, unpackNameNext chunk s = some s' → nameNext chunk i = some j →
        posrelat s'.left chunk.length = j + 1 := fun {s' j} hr hl hg => by
    have hn : nameNext chunk i = some j := nameNext_goes.2 hg
    rw [unpackNameNext, hr, hn]
    refine ⟨by simp, fun s'' j' hs hj => ?_⟩
    obtain rfl := Option.some.inj hs
    obtain rfl := Option.some.inj hj
    rw [hl]; exact posrelat_succ j _
  -- where it does not, it gives none
  have hend : unpackNameNext chunk s = none → (∀ j, ¬ NameGoes chunk i j) →
      (unpackNameNext chunk s = none ↔ nameNext chunk i = none) ∧
      ∀ s' j, unpackNameNext chunk s = some s' → nameNext chunk i = some j →
        posrelat s'.left chunk.length = j + 1 := fun hs hg => by
    refine ⟨iff_of_true hs (Option.eq_none_iff_forall_ne_some.2 fun j hj => hg j (nameNext_goes.1 hj)),
      fun s' j hs' => ?_⟩
    rw [hs] at hs'; cases hs'
  by_cases h1 : ∃ o, PointsTo chunk i o
  · obtain ⟨o, ho⟩ := h1
    exact hgo (unpackNameRound_pointer h ho) rfl (.pointer ho)
  by_cases h3 : ∃ l, LabelAt chunk i l
  · obtain ⟨l, hl⟩ := h3
    exact hgo (unpackNameRound_label h hl) rfl (.label hl)
  refine hend ?_ fun j hj => ?_
  · unfold unpackNameNext
    by_cases h2 : At chunk i [0]
    · rw [unpackNameRound_root h h2]
    · obtain ⟨e, he⟩ := unpackNameRound_bad h (not_exists.1 h1) h2 (not_exists.1 h3)
      rw [he]
  · cases hj with
    | label hl => exact h3 ⟨_, hl⟩
    | pointer hp => exact h1 ⟨_, hp⟩

theorem UnpackName.terminates_iff_halts {left : ℤ} {i : ℕ}
    (h : posrelat left chunk.length = i + 1) :
    UnpackName.Terminates chunk left ↔ Halts (nameNext chunk) i := by
  have h1 : UnpackName.Terminates chunk left ↔ Halts (unpackNameNext chunk) ⟨[], none, left⟩ :=
    exists_congr fun n => unpackNameLoop_ends n _
  rw [h1]
  exact Halts.simulate (S := fun (s : NameState) (i : ℕ) => posrelat s.left chunk.length = i + 1)
    (fun s i h => (unpackNameNext_spec h).1)
    (fun s s' i j h hs hj => (unpackNameNext_spec h).2 s' j hs hj) h

/-- A position before the string makes the first round raise. -/
theorem UnpackName.terminates_of_outside {left : ℤ}
    (h : ∀ i : ℕ, posrelat left chunk.length ≠ i + 1) : UnpackName.Terminates chunk left := by
  have hno : ∀ r, unpackNameRound chunk ⟨[], none, left⟩ ≠ .ok r := fun r hr => by
    obtain ⟨v, hI, -⟩ := Lib.bind_eq_ok.1 hr
    obtain ⟨i, -, hp, -⟩ := Lib.unpackI_ok hI
    exact h i hp
  obtain ⟨e, he⟩ := (unpackNameRound_ends _).raises hno
  refine ⟨1, ?_⟩
  rw [unpackName, unpackNameLoop, he]
  exact Lib.Ends.raised e

/-! ## Termination -/

/-- **`unpack_name` terminates unless a compression pointer leads back to itself.** -/
theorem unpackName_terminates_iff (chunk : List UInt8) (left : ℤ) :
    UnpackName.Terminates chunk left ↔
      ∀ i j, NameReaches chunk left i → PointsTo chunk i j → ¬ ReflTransGen (NameGoes chunk) j i := by
  have hgoes : Goes (nameNext chunk) = NameGoes chunk := by
    ext i j; exact nameNext_goes
  by_cases hpos : ∃ i₀ : ℕ, posrelat left chunk.length = i₀ + 1
  · obtain ⟨i₀, h⟩ := hpos
    have hA : ∀ i j, Goes (nameNext chunk) i j → i ∈ Finset.range chunk.length := fun i j hij => by
      unfold Goes nameNext at hij
      rw [Finset.mem_range]
      split at hij
      · cases hij
      · rename_i n hn
        exact (List.getElem?_eq_some_iff.1 hn).1
    have hreach : ∀ {i}, NameReaches chunk left i ↔ ReflTransGen (NameGoes chunk) i₀ i := fun {i} => by
      constructor
      · rintro ⟨i₁, h₁, hr⟩
        have : i₁ = i₀ := by omega
        exact this ▸ hr
      · exact fun hr => ⟨i₀, h, hr⟩
    rw [UnpackName.terminates_iff_halts h, Lib.halts_iff_not_cycle _ hA, hgoes]
    constructor
    · intro hc i j hi hij hji
      exact hc i (hreach.1 hi) (TransGen.head' (.pointer hij) hji)
    · intro hc i hi hcycle
      -- labels go forward, so that a cycle has a pointer
      have hcycle' : TransGen (Goes (nameNext chunk)) i i := hgoes ▸ hcycle
      obtain ⟨u, v, h1, -, h3, h4⟩ := Lib.exists_jump (μ := id) (P := PointsTo chunk)
        (fun a b hab => by
          rw [nameNext_goes] at hab
          cases hab with
          | label hl => left; simp only [id]; omega
          | pointer hp => exact .inr hp) hcycle' le_rfl
      rw [hgoes] at h1 h4
      exact hc u v (hreach.2 (hi.trans h1)) h3 (h4.trans h1)
  · refine iff_of_true (UnpackName.terminates_of_outside fun i hi => hpos ⟨i, hi⟩) ?_
    rintro i j ⟨i₀, h, -⟩
    exact absurd ⟨i₀, h⟩ hpos

/-- A response whose first name is a pointer to itself. -/
def selfPointer : List UInt8 := List.replicate 12 0 ++ [0xc0, 0x0c]

/-- Every round of its name is the same. -/
theorem unpackName_selfPointer : ¬ UnpackName.Terminates selfPointer 13 := by
  have hround : ∀ n, unpackNameLoop selfPointer n ⟨[], some 15, 13⟩ = .error .unfinished := fun n => by
    induction n with
    | zero => rfl
    | succ n ih => exact ih
  rintro ⟨n, hn⟩
  cases n with
  | zero => exact hn rfl
  | succ n => exact hn (hround n)

/-! ## What a name reads as -/

/-- `unpack_name` reads the name at an offset, given enough rounds. -/
theorem unpackNameLoop_at {i j : ℕ} {ls : List (List UInt8)} (h : NameAt chunk i ls j) :
    ∃ n₀, ∀ n, n₀ ≤ n → ∀ t p, unpackNameLoop chunk n ⟨t, p, i + 1⟩ =
      .ok (concatDots (t ++ ls), p.getD (j + 1)) := by
  induction h with
  | @root i h0 =>
    refine ⟨1, fun n hn t p => ?_⟩
    obtain ⟨n, rfl⟩ := Nat.exists_eq_add_of_le' hn
    rw [unpackNameLoop, unpackNameRound_root (by simp) h0]
    simp [bind, Except.bind]
  | @label i l ls j hl _ ih =>
    obtain ⟨n₀, ih⟩ := ih
    refine ⟨n₀ + 1, fun n hn t p => ?_⟩
    obtain ⟨n, rfl⟩ := Nat.exists_eq_add_of_le' (Nat.le_of_add_left_le hn)
    rw [unpackNameLoop, unpackNameRound_label (by simp) hl]
    have := ih n (by omega) (t ++ [l]) p
    rw [List.append_assoc] at this
    exact this
  | @pointer i o ls j hp _ ih =>
    obtain ⟨n₀, ih⟩ := ih
    refine ⟨n₀ + 1, fun n hn t p => ?_⟩
    obtain ⟨n, rfl⟩ := Nat.exists_eq_add_of_le' (Nat.le_of_add_left_le hn)
    rw [unpackNameLoop, unpackNameRound_pointer (by simp) hp]
    have := ih n (by omega) t (some (p.getD ((i + 2 : ℕ) + 1)))
    exact this

/-- **`unpack_name` returns the name at the offset and the position after it.** -/
theorem unpackName_at {i j : ℕ} {ls : List (List UInt8)} (h : NameAt chunk i ls j) :
    ∃ n₀, ∀ n, n₀ ≤ n → unpackName chunk (i + 1) n = .ok (concatDots ls, j + 1) := by
  obtain ⟨n₀, h⟩ := unpackNameLoop_at h
  exact ⟨n₀, fun n hn => h n hn [] none⟩

/-- More rounds change nothing once the loop has ended. -/
theorem unpackNameLoop_mono {n m : ℕ} (hnm : n ≤ m) {s : NameState}
    (h : Ends (unpackNameLoop chunk n s)) :
    unpackNameLoop chunk m s = unpackNameLoop chunk n s := by
  induction n generalizing m s with
  | zero => exact absurd rfl h
  | succ n ih =>
    obtain ⟨m, rfl⟩ := Nat.exists_eq_add_of_le' (Nat.le_of_add_left_le hnm)
    rw [unpackNameLoop] at h
    rw [unpackNameLoop, unpackNameLoop]
    cases hr : unpackNameRound chunk s with
    | error e => rfl
    | ok r =>
      rw [hr] at h
      cases r with
      | inl s' => exact ih (by omega) h
      | inr r => rfl

/-- However many rounds a name is given, if it ends it is read. -/
theorem unpackName_eq {i j : ℕ} {ls : List (List UInt8)} (h : NameAt chunk i ls j) {n : ℕ}
    (hn : Ends (unpackName chunk (i + 1) n)) :
    unpackName chunk (i + 1) n = .ok (concatDots ls, j + 1) := by
  obtain ⟨n₀, h⟩ := unpackName_at h
  have hmax : unpackName chunk (i + 1) (max n n₀) = unpackName chunk (i + 1) n :=
    unpackNameLoop_mono (le_max_left ..) hn
  rw [← hmax, h _ (le_max_right ..)]

theorem unpackNameLoop_ok {n i : ℕ} {s : NameState} {r : List UInt8 × ℤ}
    (hs : posrelat s.left chunk.length = i + 1) (h : unpackNameLoop chunk n s = .ok r) :
    ∃ ls j, NameAt chunk i ls j ∧ r = (concatDots (s.t ++ ls), s.jumpPointer.getD (j + 1)) := by
  induction n generalizing s i with
  | zero => cases h
  | succ n ih =>
    rw [unpackNameLoop] at h
    obtain ⟨r', hr', -⟩ := Lib.bind_eq_ok.1 h
    obtain ⟨o, ho⟩ | h0 | ⟨l, hl⟩ := unpackNameRound_ok hs hr'
    · rw [unpackNameRound_pointer hs ho] at h
      obtain ⟨ls, j, hls, rfl⟩ := ih (i := o) (by simp) h
      exact ⟨ls, i + 2, .pointer ho hls, rfl⟩
    · rw [unpackNameRound_root hs h0] at h
      exact ⟨[], i + 1, .root h0, by rw [List.append_nil]; exact (Except.ok.inj h).symm⟩
    · rw [unpackNameRound_label hs hl] at h
      obtain ⟨ls, j, hls, rfl⟩ := ih (i := i + 1 + l.length) (posrelat_succ _ _) h
      exact ⟨l :: ls, j, .label hl hls, by simp⟩

/-- **What `unpack_name` returns is a name of the string.** -/
theorem unpackName_ok {n i : ℕ} {r : List UInt8 × ℤ} (h : unpackName chunk (i + 1) n = .ok r) :
    ∃ ls j, NameAt chunk i ls j ∧ r = (concatDots ls, (j : ℤ) + 1) :=
  unpackNameLoop_ok (posrelat_succ i _) h

/-! ## Compressed names -/

/-- At the offset `i` a name of the labels `ls` is encoded, whose own encoding has
    `k` bytes: labels of 1 to 63 bytes, then a zero byte or a pointer to an earlier
    offset where a name is encoded. -/
inductive Compressed (chunk : List UInt8) : ℕ → List (List UInt8) → ℕ → Prop
  | root {i} : At chunk i [0] → Compressed chunk i [] 1
  | label {i l ls k} : 1 ≤ l.length → l.length ≤ 63 → At chunk i (toBytes 1 l.length ++ l) →
      Compressed chunk (i + (1 + l.length)) ls k → Compressed chunk i (l :: ls) (1 + l.length + k)
  | pointer {i o ls k} : o < i → o < 2 ^ 14 → At chunk i (toBytes 2 (0xc000 + o)) →
      Compressed chunk o ls k → Compressed chunk i ls 2

/-- The two upper bits of the first byte make it a pointer. -/
theorem pointsTo_of_at {i o : ℕ} (ho : o < 2 ^ 14) (hat : At chunk i (toBytes 2 (0xc000 + o))) :
    PointsTo chunk i o := by
  have htag : ∀ x < 64, (192 + x) &&& 0xc0 = 0xc0 := by decide
  refine ⟨UInt8.ofNat ((0xc000 + o) / 256), UInt8.ofNat (0xc000 + o), hat, ?_, ?_⟩
  · rw [UInt8.toNat_ofNat', show (0xc000 + o) / 256 % 2 ^ 8 = 192 + o / 256 by omega]
    exact htag _ (by omega)
  · have hbytes : ofBytes (toBytes 2 (0xc000 + o)) = 0xc000 + o := Lib.ofBytes_toBytes (by omega)
    have hmod : (0xc000 + o) &&& 0x3fff = (0xc000 + o) % 2 ^ 14 := Nat.and_two_pow_sub_one_eq_mod _ 14
    rw [show [UInt8.ofNat ((0xc000 + o) / 256), UInt8.ofNat (0xc000 + o)] = toBytes 2 (0xc000 + o)
      from rfl, hbytes, hmod]
    omega

theorem labelAt_of_at {i : ℕ} {l : List UInt8} (hpos : 1 ≤ l.length) (hle : l.length ≤ 63)
    (hat : At chunk i (toBytes 1 l.length ++ l)) : LabelAt chunk i l := by
  have htag : ∀ x < 64, ¬ (x &&& 0xc0 = 0xc0) := by decide
  have hn : (UInt8.ofNat l.length).toNat = l.length := by
    rw [UInt8.toNat_ofNat']
    omega
  refine ⟨UInt8.ofNat l.length, hat, ?_, ?_, hn.symm⟩
  · rw [hn]
    exact htag _ (by omega)
  · intro h0
    rw [h0] at hn
    exact absurd hpos (by simp [← hn])

theorem Compressed.nameAt {i k : ℕ} {ls : List (List UInt8)} (h : Compressed chunk i ls k) :
    NameAt chunk i ls (i + k) := by
  induction h with
  | root h0 => exact .root h0
  | @label i l ls k hpos hle hat _ ih =>
    rw [← Nat.add_assoc] at ih
    rw [← Nat.add_assoc, ← Nat.add_assoc]
    exact .label (labelAt_of_at hpos hle hat) ih
  | pointer _ ho hat _ ih => exact .pointer (pointsTo_of_at ho hat) ih

/-- **`unpack_name` decodes compressed names**: it ends, and returns the labels
    joined by dots and the position after the name's own encoding. -/
theorem unpackName_compressed {i k : ℕ} {ls : List (List UInt8)} (h : Compressed chunk i ls k) :
    ∃ n₀, ∀ n, n₀ ≤ n → unpackName chunk (i + 1) n = .ok (concatDots ls, (i + k : ℕ) + 1) :=
  unpackName_at h.nameAt

/-- The name at 5 points into the name at 0. -/
theorem unpackName_compressed_a_b : ∃ n₀, ∀ n, n₀ ≤ n →
    unpackName [1, 98, 0, 7, 7, 1, 97, 0xc0, 0, 9] (5 + 1) n = .ok ([97, 46, 98], 9 + 1) := by
  have hb : Compressed [1, 98, 0, 7, 7, 1, 97, 0xc0, 0, 9] 0 [[98]] 3 :=
    .label (by decide) (by decide) (by decide) (.root (by decide))
  have hab : Compressed [1, 98, 0, 7, 7, 1, 97, 0xc0, 0, 9] 5 [[97], [98]] 4 :=
    .label (by decide) (by decide) (by decide) (.pointer (by decide) (by decide) (by decide) hb)
  exact unpackName_compressed hab

end Levent
