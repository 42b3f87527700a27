/-
  The urls that `parse_url` accepts, and what it returns for them.
-/
import Mathlib.Data.List.TakeWhile
import Levent.Http.Authority

namespace Levent.Http.ParseUrl

open Lib (run run_cons run_append run_stay run_until run_only run_inside)

/-! ## The loop over the url -/

/-- The field that the characters read in a state belong to. -/
def UrlState.field : UrlState → Option UrlField
  | .reqSchema => some .schema
  | .reqServer | .reqServerWithAt => some .host
  | .reqPath => some .path
  | .reqQueryString => some .query
  | .reqFragment => some .fragment
  | _ => none

/-- `parseUrlChar`, as a partial automaton -/
def urlNext (s : UrlState) (ch : UInt8) : Option UrlState :=
  if parseUrlChar s ch = .dead then none else some (parseUrlChar s ch)

/-- The automaton within the characters of a field. -/
def urlIn (uf : UrlField) (s : UrlState) (ch : UInt8) : Option UrlState :=
  if (parseUrlChar s ch).field = some uf then some (parseUrlChar s ch) else none

section
variable {u v : Scan} {s s' t : UrlState} {c : UInt8} {cs ds pre : List UInt8} {uf : UrlField} {d d' : FieldData}
  {b b' : Bool} {last : Option UrlField}

theorem urlNext_iff : urlNext s c = some s' ↔ parseUrlChar s c = s' ∧ s' ≠ .dead := by
  unfold urlNext
  constructor
  · intro h
    split at h
    · cases h
    · cases h
      exact ⟨rfl, ‹_›⟩
  · rintro ⟨rfl, h⟩
    exact if_neg h

theorem urlIn_iff : urlIn uf s c = some s' ↔ parseUrlChar s c = s' ∧ s'.field = some uf := by
  unfold urlIn
  constructor
  · intro h
    split at h
    · cases h
      exact ⟨rfl, ‹_›⟩
    · cases h
  · rintro ⟨rfl, h⟩
    exact if_pos h

theorem parseUrlChar_at (hf : (parseUrlChar s c).field = some uf) :
    parseUrlChar s c = .reqServerWithAt ↔ uf = .host ∧ c = 64 := by
  constructor
  · intro h
    rw [h] at hf
    refine ⟨(Option.some.inj hf).symm, ?_⟩
    by_contra hc
    have hserver : serverChar c ≠ .reqServerWithAt := by
      unfold serverChar
      rw [if_neg hc]
      split_ifs <;> simp
    unfold parseUrlChar at h
    split at h
    · cases h
    · cases s <;> dsimp only at h <;> first | cases h | exact hserver h | split_ifs at h
  · rintro ⟨rfl, rfl⟩
    revert hf
    cases s <;> decide

theorem Scan.step_next (hstep : u.step c = some v) : urlNext u.s c = some v.s := by
  unfold Scan.step at hstep
  unfold urlNext
  revert hstep
  cases parseUrlChar u.s c <;> simp <;> rintro rfl <;> rfl

theorem Scan.step_skip (hs : parseUrlChar u.s c = s) (hf : s.field = none) (hd : s ≠ .dead)
    (hspaces : s ≠ .reqSpacesBeforeUrl) : u.step c = some { u with s := s, p := u.p + 1 } := by
  unfold Scan.step
  rw [hs]
  cases s <;> first | rfl | exact absurd rfl hd | exact absurd rfl hspaces | cases hf

theorem Scan.mark_foundAt (u : Scan) (uf : UrlField) (b : Bool) :
    Scan.mark { u with foundAt := b } uf = { u.mark uf with foundAt := b } ∧
      (u.mark uf).foundAt = u.foundAt ∧ (u.mark uf).p = u.p := by
  unfold Scan.mark
  dsimp only
  split <;> exact ⟨rfl, rfl, rfl⟩

theorem Scan.step_field (hs : urlIn uf u.s c = some s) :
    u.step c = some { u.mark uf with
      s := s, p := u.p + 1, foundAt := u.foundAt || decide (uf = .host ∧ c = 64) } := by
  obtain ⟨hnext, hf⟩ := urlIn_iff.1 hs
  have hat := parseUrlChar_at (hnext ▸ hf)
  obtain ⟨hmark, hfound, hp⟩ := Scan.mark_foundAt u uf true
  have hstep : u.step c = some { u.mark uf with
      s := s, p := u.p + 1, foundAt := u.foundAt || decide (s = .reqServerWithAt) } := by
    unfold Scan.step
    rw [hnext]
    cases s <;> cases hf <;> simp [hmark, hp, ← hfound]
  rw [hstep, decide_eq_decide.2 (hnext ▸ hat)]

/-- The further characters of a field. -/
theorem Scan.run_stay {p : ℕ} {off len : UInt16} (hr : run (urlIn uf) s cs = some t) (hd : d uf = some (off, len)) :
    run Scan.step ⟨s, p, some uf, d, b⟩ cs = some ⟨t, p + cs.length, some uf,
      Function.update d uf (some (off, len + UInt16.ofNat cs.length)), b || decide (uf = .host ∧ 64 ∈ cs)⟩ := by
  induction cs generalizing s p d len b with
  | nil =>
    cases hr
    rw [run, ofNat_length_nil, List.length_nil, Nat.add_zero, UInt16.add_zero, ← hd, Function.update_eq_self]
    simp
  | cons c cs ih =>
    obtain ⟨s1, hs1, hr⟩ := run_cons.1 hr
    refine run_cons.2 ⟨_, Scan.step_field hs1, ?_⟩
    unfold Scan.mark
    dsimp only
    rw [if_pos rfl]
    dsimp only
    rw [ih hr (Function.update_self _ _ _ |>.trans (by rw [hd]; rfl)), Function.update_idem, ofNat_length_cons,
      List.length_cons, UInt16.add_assoc, Bool.or_assoc]
    congr 2
    · omega
    · congr 1
      by_cases huf : uf = .host <;> simp [huf, eq_comm]

/-- From the state `s`, after `pre` and with the fields `d`, the loop reads `cs` and comes to the
    state `t` with the fields `d'`.  `b` and `b'` are what it has in `found_at`. -/
def Reads (pre : List UInt8) (s : UrlState) (d : FieldData) (b : Bool) (cs : List UInt8) (t : UrlState)
    (d' : FieldData) (b' : Bool) : Prop :=
  ∀ last, (∀ uf, last = some uf → (d uf).isSome) →
    ∃ last', (∀ uf, last' = some uf → (d' uf).isSome) ∧
      run Scan.step ⟨s, pre.length, last, d, b⟩ cs = some ⟨t, (pre ++ cs).length, last', d', b'⟩

theorem Reads.refl : Reads pre s d b [] s d b := fun last hlast => ⟨last, hlast, by simp⟩

theorem Reads.append {b'' : Bool} {d'' : FieldData} (h : Reads pre s d b cs s' d' b')
    (h' : Reads (pre ++ cs) s' d' b' ds t d'' b'') : Reads pre s d b (cs ++ ds) t d'' b'' := by
  intro last hlast
  obtain ⟨last1, hlast1, hrun⟩ := h last hlast
  obtain ⟨last2, hlast2, hrun'⟩ := h' last1 hlast1
  rw [List.append_assoc] at hrun'
  exact ⟨last2, hlast2, run_append.2 ⟨_, hrun, hrun'⟩⟩

/-- A delimiter. -/
theorem Reads.skip (hs : parseUrlChar s c = s') (hf : s'.field = none) (hd : s' ≠ .dead)
    (hspaces : s' ≠ .reqSpacesBeforeUrl) : Reads pre s d b [c] s' d b := by
  intro last hlast
  refine ⟨last, hlast, run_cons.2 ⟨_, Scan.step_skip hs hf hd hspaces, ?_⟩⟩
  rw [List.length_append]
  rfl

theorem Reads.stay (hs : ∀ c ∈ cs, parseUrlChar s c = s) (hf : s.field = none) (hd : s ≠ .dead)
    (hspaces : s ≠ .reqSpacesBeforeUrl) : Reads pre s d b cs s d b := by
  induction cs generalizing pre with
  | nil => exact .refl
  | cons c cs ih =>
    exact .append (.skip (hs c List.mem_cons_self) hf hd hspaces) (ih fun c hc => hs c (List.mem_cons_of_mem _ hc))

/-- **The characters of a field.** -/
theorem Reads.field (hr : run (urlIn uf) s cs = some t) (hd : d uf = none) :
    Reads pre s d b cs t (d.mark uf pre cs) (b || decide (uf = .host ∧ 64 ∈ cs)) := by
  intro last hlast
  rcases cs with _ | ⟨c, cs⟩
  · cases hr
    exact ⟨last, hlast, by simp⟩
  · obtain ⟨s1, hs1, hr⟩ := run_cons.1 hr
    have hne : last ≠ some uf := fun h => by simpa [hd] using hlast uf h
    refine ⟨some uf, ?_, run_cons.2 ⟨_, Scan.step_field hs1, ?_⟩⟩
    · rintro _ ⟨⟩
      rw [FieldData.mark_of_ne_nil (List.cons_ne_nil c cs), Function.update_self]
      rfl
    · unfold Scan.mark
      dsimp only
      rw [if_neg hne]
      dsimp only
      rw [Scan.run_stay hr (Function.update_self _ _ _), Function.update_idem,
        FieldData.mark_of_ne_nil (List.cons_ne_nil c cs), ofNat_length_cons, List.length_append, List.length_cons,
        Bool.or_assoc, Nat.add_assoc, Nat.add_comm 1 cs.length]
      congr 3
      by_cases huf : uf = .host <;> simp [huf, eq_comm]

theorem Reads.field_of_ne (hr : run (urlIn uf) s cs = some t) (hd : d uf = none) (huf : uf ≠ .host) :
    Reads pre s d b cs t (d.mark uf pre cs) b := by
  intro last hlast
  simpa [huf] using Reads.field hr hd last hlast

end

/-! ## The parts after the host -/

structure Target where
  path : List UInt8
  query : Option (List UInt8)
  fragment : Option (List UInt8)

def QueryChar (c : UInt8) : Prop := isUrlChar c ∨ c = 63

def FragmentChar (c : UInt8) : Prop := isUrlChar c ∨ c = 63 ∨ c = 35

/-- `heads` are the characters that the path may begin with. -/
structure Target.Legal (t : Target) (heads : List UInt8) : Prop where
  path : ∀ c ∈ t.path, isUrlChar c
  head : ∀ c ∈ t.path.head?, c ∈ heads
  query : ∀ cs ∈ t.query, ∀ c ∈ cs, QueryChar c
  fragment : ∀ cs ∈ t.fragment, ∀ c ∈ cs, FragmentChar c
  alone : t.path = [] → t.query = none → t.fragment = none

namespace Target
variable (t : Target)

def queryText : List UInt8 := t.query.elim [] ([63] ++ ·)

def fragmentText : List UInt8 := t.fragment.elim [] ([35] ++ ·)

def text : List UInt8 := t.path ++ (t.queryText ++ t.fragmentText)

/-- What the loop skips before the fragment. -/
def hashes : List UInt8 := (t.fragment.getD []).takeWhile (· = 35)

/-- What is left of the fragment. -/
def anchor : List UInt8 := (t.fragment.getD []).dropWhile (· = 35)

/-- The fields that are set, if the text comes after `pre`. -/
def mark (pre : List UInt8) (d : FieldData) : FieldData :=
  ((d.mark .path pre t.path).mark .query (pre ++ t.path ++ [63]) (t.query.getD [])).mark .fragment
    (pre ++ t.path ++ t.queryText ++ [35] ++ t.hashes) t.anchor

end Target

section
variable {s t : UrlState} {c : UInt8} {cs pre heads : List UInt8} {uf : UrlField} {d : FieldData} {b : Bool}

theorem isUrlChar_ne (hc : isUrlChar c) : c ≠ 32 ∧ c ≠ 13 ∧ c ≠ 10 ∧ c ≠ 63 ∧ c ≠ 35 := by
  refine ⟨?_, ?_, ?_, ?_, ?_⟩ <;> rintro rfl <;> revert hc <;> decide

theorem parseUrlChar_path (hc : isUrlChar c) : parseUrlChar .reqPath c = .reqPath := by
  obtain ⟨h1, h2, h3, -, -⟩ := isUrlChar_ne hc
  simp [parseUrlChar, h1, h2, h3, hc]

theorem parseUrlChar_query (hs : s = .reqQueryStringStart ∨ s = .reqQueryString) (hc : QueryChar c) :
    parseUrlChar s c = .reqQueryString := by
  rcases hc with hc | rfl
  · obtain ⟨h1, h2, h3, -, -⟩ := isUrlChar_ne hc
    rcases hs with rfl | rfl <;> simp [parseUrlChar, h1, h2, h3, hc]
  · rcases hs with rfl | rfl <;> rfl

theorem parseUrlChar_fragment (hc : FragmentChar c) : parseUrlChar .reqFragment c = .reqFragment := by
  rcases hc with hc | rfl | rfl
  · obtain ⟨h1, h2, h3, -, -⟩ := isUrlChar_ne hc
    simp [parseUrlChar, h1, h2, h3, hc]
  · rfl
  · rfl

theorem parseUrlChar_fragmentStart (hc : FragmentChar c) :
    parseUrlChar .reqFragmentStart c = if c = 35 then .reqFragmentStart else .reqFragment := by
  rcases hc with hc | rfl | rfl
  · obtain ⟨h1, h2, h3, -, h5⟩ := isUrlChar_ne hc
    simp [parseUrlChar, h1, h2, h3, h5, hc]
  · rfl
  · rfl

/-- The characters of a field that all leave the loop in the state `t`. -/
theorem run_urlIn (hs : ∀ c ∈ cs.head?, parseUrlChar s c = t) (ht : ∀ c ∈ cs, parseUrlChar t c = t)
    (hf : t.field = some uf) : ∃ s', (s' = t ∨ cs = [] ∧ s' = s) ∧ run (urlIn uf) s cs = some s' := by
  rcases cs with _ | ⟨c, cs⟩
  · exact ⟨s, .inr ⟨rfl, rfl⟩, rfl⟩
  · refine ⟨t, .inl rfl, run_cons.2 ⟨t, urlIn_iff.2 ⟨hs c rfl, hf⟩, ?_⟩⟩
    exact run_stay fun c hc => urlIn_iff.2 ⟨ht c (List.mem_cons_of_mem _ hc), hf⟩

namespace Target
variable {u : Target}

theorem Legal.reads_path (hu : u.Legal heads) (pre : List UInt8) (b : Bool)
    (hs : ∀ c ∈ u.path.head?, parseUrlChar s c = .reqPath)
    (hd : d .path = none) : ∃ s', (s' = .reqPath ∨ u.path = [] ∧ s' = s) ∧
      Reads pre s d b u.path s' (d.mark .path pre u.path) b := by
  obtain ⟨s', hs', hr⟩ := run_urlIn hs (fun c hc => parseUrlChar_path (hu.path c hc)) rfl
  exact ⟨s', hs', .field_of_ne hr hd (by simp)⟩

theorem Legal.reads_query (hu : u.Legal heads) (pre : List UInt8) (b : Bool)
    (hs : u.query.isSome → parseUrlChar s 63 = .reqQueryStringStart)
    (hd : d .query = none) :
    ∃ s', (s' = .reqQueryStringStart ∨ s' = .reqQueryString ∨ u.query = none ∧ s' = s) ∧
      Reads pre s d b u.queryText s' (d.mark .query (pre ++ [63]) (u.query.getD [])) b := by
  obtain ⟨path, query, fragment⟩ := u
  have hchars := hu.query
  unfold queryText
  dsimp only at hchars hs ⊢
  rcases query with _ | cs
  · exact ⟨s, .inr (.inr ⟨rfl, rfl⟩), .refl⟩
  · have hcs : ∀ c ∈ cs, QueryChar c := hchars cs rfl
    obtain ⟨s', hs', hr⟩ := run_urlIn (s := .reqQueryStringStart)
      (fun c hc => parseUrlChar_query (.inl rfl) (hcs c (List.mem_of_mem_head? hc)))
      (fun c hc => parseUrlChar_query (.inr rfl) (hcs c hc)) rfl
    refine ⟨s', ?_, .append (.skip (hs rfl) rfl (by simp) (by simp)) (.field_of_ne hr hd (by simp))⟩
    rcases hs' with rfl | ⟨-, rfl⟩
    · exact .inr (.inl rfl)
    · exact .inl rfl

theorem Legal.reads_fragment (hu : u.Legal heads) (pre : List UInt8) (b : Bool)
    (hs : u.fragment.isSome → parseUrlChar s 35 = .reqFragmentStart)
    (hd : d .fragment = none) :
    ∃ s', Reads pre s d b u.fragmentText s' (d.mark .fragment (pre ++ [35] ++ u.hashes) u.anchor) b := by
  obtain ⟨path, query, fragment⟩ := u
  have hchars := hu.fragment
  unfold fragmentText hashes anchor
  dsimp only at hchars hs ⊢
  rcases fragment with _ | cs
  · exact ⟨s, .refl⟩
  have hcs : ∀ c ∈ cs, FragmentChar c := hchars cs rfl
  have hskip : ∀ c ∈ cs.takeWhile (· = 35), parseUrlChar .reqFragmentStart c = .reqFragmentStart := fun c hc => by
    have hc35 : c = 35 := by simpa using List.mem_takeWhile_imp hc
    rw [hc35]
    rfl
  have hhead : ∀ c ∈ (cs.dropWhile (· = 35)).head?, parseUrlChar .reqFragmentStart c = .reqFragment := fun c hc => by
    have hne := List.head?_dropWhile_not (fun c : UInt8 => decide (c = 35)) cs
    rw [Option.mem_def.1 hc] at hne
    rw [parseUrlChar_fragmentStart (hcs c ((List.dropWhile_sublist _).subset (List.mem_of_mem_head? hc))),
      if_neg (of_decide_eq_false hne)]
  obtain ⟨s', -, hr⟩ := run_urlIn hhead
    (fun c hc => parseUrlChar_fragment (hcs c ((List.dropWhile_sublist _).subset hc))) rfl
  refine ⟨s', ?_⟩
  have h : Reads (pre ++ [35]) .reqFragmentStart d b (cs.takeWhile (· = 35) ++ cs.dropWhile (· = 35)) s'
      (d.mark .fragment (pre ++ [35] ++ cs.takeWhile (· = 35)) (cs.dropWhile (· = 35))) b :=
    .append (.stay hskip rfl (by simp) (by simp)) (.field_of_ne hr hd (by simp))
  rw [List.takeWhile_append_dropWhile] at h
  exact .append (.skip (hs rfl) rfl (by simp) (by simp)) h

/-- **The fields that a legal text sets.** -/
theorem Legal.reads (hu : u.Legal heads) (pre : List UInt8) (b : Bool)
    (hs : ∀ c ∈ u.path.head?, parseUrlChar s c = .reqPath)
    (hquery : u.path = [] → u.query.isSome → parseUrlChar s 63 = .reqQueryStringStart) (hp : d .path = none)
    (hq : d .query = none) (hf : d .fragment = none) :
    ∃ s', Reads pre s d b u.text s' (u.mark pre d) b := by
  obtain ⟨s1, hs1, h1⟩ := hu.reads_path pre b hs hp
  have hnext : u.query.isSome → parseUrlChar s1 63 = .reqQueryStringStart := fun h => by
    rcases hs1 with rfl | ⟨hnil, rfl⟩
    · rfl
    · exact hquery hnil h
  obtain ⟨s2, hs2, h2⟩ := hu.reads_query (pre ++ u.path) b hnext (d := d.mark .path pre u.path) (by simpa using hq)
  have hnext : u.fragment.isSome → parseUrlChar s2 35 = .reqFragmentStart := fun h => by
    rcases hs2 with rfl | rfl | ⟨hnone, rfl⟩
    · rfl
    · rfl
    · rcases hs1 with rfl | ⟨hnil, rfl⟩
      · rfl
      · rw [hu.alone hnil hnone] at h
        cases h
  obtain ⟨s3, h3⟩ := hu.reads_fragment (pre ++ u.path ++ u.queryText) b hnext
    (d := (d.mark .path pre u.path).mark .query (pre ++ u.path ++ [63]) (u.query.getD [])) (by simpa using hf)
  exact ⟨s3, h1.append (h2.append h3)⟩

end Target

/-! ## What is accepted -/

theorem fragment_of_run (h : run urlNext .reqFragmentStart cs = some t) : ∀ c ∈ cs, FragmentChar c := by
  refine (run_only (S := fun s => s = .reqFragmentStart ∨ s = .reqFragment) (fun s c s' hs hstep => ?_) (.inl rfl) h).1
  obtain ⟨rfl, hne⟩ := urlNext_iff.1 hstep
  have hc : FragmentChar c := by
    by_contra hc
    simp only [FragmentChar, not_or] at hc
    rcases hs with rfl | rfl <;> simp [parseUrlChar, hc] at hne
  refine ⟨hc, ?_⟩
  rcases hs with rfl | rfl
  · rw [parseUrlChar_fragmentStart hc]
    split
    · exact .inl rfl
    · exact .inr rfl
  · exact .inr (parseUrlChar_fragment hc)

theorem query_of_run (h : run urlNext .reqQueryStringStart cs = some t) :
    ∃ u : Target, u.Legal [] ∧ u.path = [] ∧ u.query.isSome ∧ u.text = 63 :: cs := by
  obtain ⟨qs, rest, s', rfl, hqs, hs', -, hrest⟩ :=
    run_until (S := fun s => s = .reqQueryStringStart ∨ s = .reqQueryString) (P := QueryChar)
      (fun s c s' hs hc hstep => .inr ((urlNext_iff.1 hstep).1.symm.trans (parseUrlChar_query hs hc))) (.inl rfl) h
  rcases hrest with ⟨rfl, -⟩ | ⟨c, bs, s'', rfl, hc, hstep, hrun⟩
  · refine ⟨⟨[], some qs, none⟩, ⟨by simp, by simp, by simpa using hqs, by simp, by simp⟩, rfl, rfl, ?_⟩
    simp [Target.text, Target.queryText, Target.fragmentText]
  · obtain ⟨rfl, hne⟩ := urlNext_iff.1 hstep
    have hc35 : c = 35 := by
      by_contra hc35
      simp only [QueryChar, not_or] at hc
      rcases hs' with rfl | rfl <;> simp [parseUrlChar, hc, hc35] at hne
    subst hc35
    have hstart : parseUrlChar s' 35 = .reqFragmentStart := by
      rcases hs' with rfl | rfl <;> rfl
    rw [hstart] at hrun
    exact ⟨⟨[], some qs, some bs⟩,
      ⟨by simp, by simp, by simpa using hqs, by simpa using fragment_of_run hrun, by simp⟩, rfl, rfl, rfl⟩

theorem path_of_run (hc : isUrlChar c) (h : run urlNext .reqPath cs = some t) :
    ∃ u : Target, u.Legal [c] ∧ u.path ≠ [] ∧ u.text = c :: cs := by
  obtain ⟨ps, rest, s', rfl, hps, rfl, -, hrest⟩ :=
    run_until (S := (· = .reqPath)) (P := fun c => isUrlChar c) (fun s c s' hs hc hstep => by
      subst hs
      exact (urlNext_iff.1 hstep).1.symm.trans (parseUrlChar_path hc)) rfl h
  have hchars : ∀ c' ∈ c :: ps, isUrlChar c' := List.forall_mem_cons.2 ⟨hc, hps⟩
  rcases hrest with ⟨rfl, -⟩ | ⟨e, bs, s'', rfl, he, hstep, hrun⟩
  · refine ⟨⟨c :: ps, none, none⟩, ⟨hchars, by simp, by simp, by simp, by simp⟩, by simp, ?_⟩
    simp [Target.text, Target.queryText, Target.fragmentText]
  · obtain ⟨rfl, hne⟩ := urlNext_iff.1 hstep
    by_cases he63 : e = 63
    · subst he63
      obtain ⟨u, hu, hpath, -, htext⟩ := query_of_run hrun
      refine ⟨{ u with path := c :: ps }, { hu with path := hchars, head := by simp, alone := by simp }, by simp, ?_⟩
      rw [Target.text, hpath] at htext
      exact congrArg ((c :: ps) ++ ·) htext
    · have he35 : e = 35 := by
        by_contra he35
        simp [parseUrlChar, he, he63, he35] at hne
      subst he35
      exact ⟨⟨c :: ps, none, some bs⟩,
        ⟨hchars, by simp, by simp, by simpa using fragment_of_run hrun, by simp⟩, by simp, rfl⟩

end

/-! ## The parts before the host -/

/-- The states in which the host is read. -/
def InServer (s : UrlState) : Prop := s = .reqServerStart ∨ s = .reqServer ∨ s = .reqServerWithAt

def ServerChar (c : UInt8) : Prop := c = 64 ∨ isUserinfoChar c ∨ c = 91 ∨ c = 93

section
variable {s t : UrlState} {c : UInt8} {cs : List UInt8}

theorem ServerChar.ne (hc : ServerChar c) : c ≠ 32 ∧ c ≠ 13 ∧ c ≠ 10 ∧ c ≠ 47 ∧ c ≠ 63 := by
  unfold ServerChar at hc
  refine ⟨?_, ?_, ?_, ?_, ?_⟩ <;> rintro rfl <;> revert hc <;> decide

theorem ServerChar.next (hc : ServerChar c) : serverChar c = if c = 64 then .reqServerWithAt else .reqServer := by
  obtain ⟨-, -, -, h4, h5⟩ := hc.ne
  unfold serverChar
  rw [if_neg h4, if_neg h5]
  split
  · rfl
  · exact if_pos (hc.resolve_left ‹_›)

/-- What `parse_url_char` does with a character of the host. -/
theorem parseUrlChar_server (hs : InServer s) (hc : ServerChar c) (hat : s = .reqServerWithAt → c ≠ 64) :
    parseUrlChar s c = if c = 64 then .reqServerWithAt else .reqServer := by
  obtain ⟨h1, h2, h3, -, -⟩ := hc.ne
  rw [← hc.next]
  unfold parseUrlChar
  rw [if_neg (by simp [h1, h2, h3])]
  rcases hs with rfl | rfl | rfl
  · rfl
  · rfl
  · exact if_neg (hat rfl)

theorem target_of_run {s' : UrlState} (hs : InServer s) (hc : ¬ ServerChar c) (hstep : urlNext s c = some s')
    (h : run urlNext s' cs = some t) : ∃ u : Target, u.Legal [47] ∧ u.text = c :: cs := by
  obtain ⟨rfl, hne⟩ := urlNext_iff.1 hstep
  simp only [ServerChar, not_or] at hc
  by_cases hc47 : c = 47
  · subst hc47
    have hpath : parseUrlChar s 47 = .reqPath := by
      rcases hs with rfl | rfl | rfl <;> rfl
    rw [hpath] at h
    obtain ⟨u, hu, -, htext⟩ := path_of_run (c := 47) (by rfl) h
    exact ⟨u, hu, htext⟩
  · have hc63 : c = 63 := by
      by_contra hc63
      rcases hs with rfl | rfl | rfl <;> simp [parseUrlChar, serverChar, hc, hc47, hc63] at hne
    subst hc63
    have hquery : parseUrlChar s 63 = .reqQueryStringStart := by
      rcases hs with rfl | rfl | rfl <;> rfl
    rw [hquery] at h
    obtain ⟨u, hu, hpath, -, htext⟩ := query_of_run h
    exact ⟨u, { hu with head := by simp [hpath] }, htext⟩

/-- The loop over the characters of the host. -/
theorem run_host_of_run (hs : InServer s) (hcs : ∀ c ∈ cs, ServerChar c) (h : run urlNext s cs = some t) :
    run (urlIn .host) s cs = some t := by
  induction cs generalizing s with
  | nil => exact h
  | cons c cs ih =>
    obtain ⟨s1, hs1, h⟩ := run_cons.1 h
    obtain ⟨rfl, hne⟩ := urlNext_iff.1 hs1
    have hnext := parseUrlChar_server hs (hcs c List.mem_cons_self) (by
      rintro rfl rfl
      exact hne (by rfl))
    have hmem : InServer (parseUrlChar s c) ∧ (parseUrlChar s c).field = some .host := by
      rw [hnext]
      split
      · exact ⟨.inr (.inr rfl), rfl⟩
      · exact ⟨.inr (.inl rfl), rfl⟩
    exact run_cons.2 ⟨_, urlIn_iff.2 ⟨rfl, hmem.2⟩, ih hmem.1 (fun c hc => hcs c (List.mem_cons_of_mem _ hc)) h⟩

/-- Characters of the host other than the `@`. -/
def PlainChar (c : UInt8) : Prop := ServerChar c ∧ c ≠ 64

theorem run_host_plain (hs : InServer s) (hcs : ∀ c ∈ cs, PlainChar c) :
    ∃ t, (t = .reqServer ∨ cs = [] ∧ t = s) ∧ run (urlIn .host) s cs = some t := by
  refine run_urlIn (fun c hc => ?_) (fun c hc => ?_) rfl
  · obtain ⟨h, hne⟩ := hcs c (List.mem_of_mem_head? hc)
    rw [parseUrlChar_server hs h fun _ => hne, if_neg hne]
  · obtain ⟨h, hne⟩ := hcs c hc
    rw [parseUrlChar_server (.inr (.inl rfl)) h fun _ => hne, if_neg hne]

theorem PlainChar.of_userinfo (hc : isUserinfoChar c) : PlainChar c := by
  refine ⟨.inr (.inl hc), ?_⟩
  rintro rfl
  revert hc
  decide

theorem PlainChar.of_host (hc : isHostChar c) : PlainChar c := by
  refine .of_userinfo ?_
  simp only [isHostChar, Bool.or_eq_true, List.contains_iff_mem, List.mem_cons, List.not_mem_nil, or_false] at hc
  rcases hc with hc | rfl | rfl | rfl
  · simp [isUserinfoChar, hc]
  all_goals rfl

theorem PlainChar.of_num (hc : isNum c) : PlainChar c := .of_userinfo (by simp [isUserinfoChar, isAlphanum, hc])

theorem PlainChar.of_v6 (hc : V6Char c) : PlainChar c := by
  refine .of_userinfo ?_
  rcases hc with hc | rfl | rfl
  · simp only [isHex, Bool.or_eq_true, Bool.and_eq_true, decide_eq_true_eq] at hc
    rcases hc with hc | ⟨h1, h2⟩
    · simp [isUserinfoChar, isAlphanum, hc]
    · have halpha : isAlpha c := by
        simpa [isAlpha, h1] using UInt8.le_trans h2 (by decide)
      simp [isUserinfoChar, isAlphanum, halpha]
  · rfl
  · rfl

/-- What comes after the `@`. -/
theorem Authority.Legal.plain {a : Authority} (ha : a.Legal) :
    ∀ c ∈ a.openText ++ (a.host ++ (a.closeText ++ a.portText)), PlainChar c := by
  have hhost : ∀ c ∈ a.host, PlainChar c := fun c hc => by
    have := ha.host c hc
    split at this
    · exact .of_v6 this
    · exact .of_host this
  have hopen : ∀ c ∈ a.openText, PlainChar c := by
    unfold Authority.openText
    split <;> simp [PlainChar, ServerChar]
  have hclose : ∀ c ∈ a.closeText, PlainChar c := by
    unfold Authority.closeText
    split <;> simp [PlainChar, ServerChar]
  have hport : ∀ c ∈ a.portText, PlainChar c := by
    unfold Authority.portText
    rintro c hc
    obtain ⟨userinfo, v6, host, _ | port⟩ := a
    · cases hc
    · rcases List.mem_cons.1 hc with rfl | hc
      · exact .of_userinfo (by rfl)
      · exact .of_num (ha.port port rfl c hc)
  simp only [List.forall_mem_append]
  exact ⟨hopen, hhost, hclose, hport⟩

theorem Authority.Legal.run_server {a : Authority} (ha : a.Legal) :
    (∃ t, run (urlIn .host) .reqServerStart a.text = some t) ∧ (64 ∈ a.text ↔ a.userinfo.isSome) := by
  have hplain := ha.plain
  have hnot : 64 ∉ a.openText ++ (a.host ++ (a.closeText ++ a.portText)) := fun h => (hplain 64 h).2 rfl
  have huserinfo := ha.userinfo
  unfold Authority.text Authority.userinfoText
  rcases hu : a.userinfo with _ | cs
  · obtain ⟨t, -, ht⟩ := run_host_plain (s := .reqServerStart) (.inl rfl) hplain
    exact ⟨⟨t, ht⟩, by simpa using hnot⟩
  · rw [hu] at huserinfo
    obtain ⟨t1, ht1, h1⟩ := run_host_plain (s := .reqServerStart) (.inl rfl)
      fun c hc => .of_userinfo (huserinfo cs rfl c hc)
    have hat : urlIn .host t1 64 = some .reqServerWithAt := by
      rcases ht1 with rfl | ⟨-, rfl⟩ <;> rfl
    obtain ⟨t2, -, h2⟩ := run_host_plain (s := .reqServerWithAt) (.inr (.inr rfl)) hplain
    refine ⟨⟨t2, run_append.2 ⟨.reqServerWithAt, run_append.2 ⟨t1, h1, run_cons.2 ⟨_, hat, rfl⟩⟩, h2⟩⟩, ?_⟩
    simp

end

/-! ## Whole urls -/

structure Parts where
  authority : Option (List UInt8 × Authority)
  target : Target

def Schema (cs : List UInt8) : Prop := cs ≠ [] ∧ ∀ c ∈ cs, isAlpha c

structure Parts.Legal (u : Parts) : Prop where
  schema : ∀ x ∈ u.authority, Schema x.1
  authority : ∀ x ∈ u.authority, x.2.Legal
  port : ∀ x ∈ u.authority, ∀ cs ∈ x.2.port, number cs ≤ 0xffff
  target : u.target.Legal (if u.authority.isSome then [47] else [47, 42])
  path : u.authority = none → u.target.path = [] → u.target.query = none

def Parts.text (u : Parts) : List UInt8 :=
  u.authority.elim [] (fun x => x.1 ++ ([58, 47, 47] ++ x.2.text)) ++ u.target.text

/-- The table of a url: a part without characters is left out, and so is the port 0. -/
def Parts.table (u : Parts) : UrlTable where
  schema := u.authority.map (·.1)
  host := u.authority.map (·.2.host)
  requestPath := nonempty u.target.path
  queryString := u.target.query.bind nonempty
  fragment := nonempty u.target.anchor
  userinfo := u.authority.bind fun x => x.2.userinfo.bind nonempty
  port := u.authority.bind fun x => (x.2.port.map number).filter (· ≠ 0)

/-- No field is set. -/
def noFields : FieldData := fun _ => none

/-- What `lparse_url` makes of the fields. -/
def tableOf (buf : List UInt8) (d : FieldData) (port : ℕ) : UrlTable :=
  ⟨(d .schema).map (slice buf), (d .host).map (slice buf), (d .path).map (slice buf), (d .query).map (slice buf),
    (d .fragment).map (slice buf), (d .userinfo).map (slice buf), if port ≠ 0 then some port else none⟩

/-- The port is read at last. -/
def readPort (buf : List UInt8) (d : FieldData) : Result UrlTable :=
  match d .port with
  | none => .ok (tableOf buf d 0)
  | some (off, _) =>
    if 0xffff < strtoul (buf.drop off.toNat) then .error else .ok (tableOf buf d (strtoul (buf.drop off.toNat)))

def slashed (schema : List UInt8) : List UInt8 := schema ++ [58] ++ [47] ++ [47]

/-- What the loop over the url has written at its end. -/
def loopFields (schema hp : List UInt8) (u : Target) : FieldData :=
  u.mark (slashed schema ++ hp) ((noFields.mark .schema [] schema).mark .host (slashed schema) hp)

/-- What `http_parse_host` makes of it. -/
def allFields (schema : List UInt8) (a : Authority) (u : Target) : FieldData :=
  a.mark (slashed schema)
    (Function.update (loopFields schema a.text u) .host (some (UInt16.ofNat (slashed schema).length, 0)))

section
variable {s t : UrlState} {c : UInt8} {cs buf hp schema pre : List UInt8} {d : FieldData} {b : Bool} {u : Target}

theorem nonempty_of_ne_nil (h : cs ≠ []) : nonempty cs = some cs := if_neg h

theorem FieldData.slice_mark_of_ne_nil {uf : UrlField} (h : cs ≠ []) (hlen : buf.length < 0x10000)
    (hbuf : pre ++ cs <+: buf) : (d.mark uf pre cs uf).map (slice buf) = some cs := by
  rw [FieldData.mark_of_ne_nil h, Function.update_self]
  exact congrArg some (slice_ofNat.trans (readBack_eq hlen hbuf))

/-- What is returned, if the loop has come to the end. -/
theorem lparseUrl_of_reads (h : Reads [] .reqSpacesBeforeUrl noFields false buf t d b) :
    lparseUrl buf false =
      (if (d .schema).isSome ∨ (d .host).isSome then parseHost buf d b else .ok d).bind (readPort buf) := by
  obtain ⟨last, -, hrun⟩ := h none (by simp)
  have hinit : run Scan.step (Scan.init false) buf = some ⟨t, buf.length, last, d, b⟩ := hrun
  unfold lparseUrl httpParserParseUrl
  rw [hinit]
  dsimp only
  generalize (if (d .schema).isSome ∨ (d .host).isSome then parseHost buf d b else .ok d) = r
  rcases r with _ | _ | d
  · rfl
  · rfl
  · unfold readPort
    simp only [Result.bind, Bool.false_eq_true, false_and, if_false]
    rcases hport : d .port with _ | ⟨off, len⟩
    · rfl
    · by_cases hn : 0xffff < strtoul (buf.drop off.toNat)
      · simp only [if_pos hn]
      · simp only [if_neg hn]
        rfl

/-! The three kinds of texts that the loop reads. -/

/-- A url without a schema. -/
theorem reads_target (hu : u.Legal [47, 42]) (hp : u.path = [] → u.query = none) :
    ∃ t, Reads [] .reqSpacesBeforeUrl noFields false u.text t (u.mark [] noFields) false := by
  refine hu.reads [] false (fun c hc => ?_) (fun hnil hsome => ?_) rfl rfl rfl
  · have hc := hu.head c hc
    simp only [List.mem_cons, List.not_mem_nil, or_false] at hc
    rcases hc with rfl | rfl <;> rfl
  · rw [hp hnil] at hsome
    cases hsome

theorem parseUrlChar_schema (hc : isAlpha c) :
    parseUrlChar .reqSpacesBeforeUrl c = .reqSchema ∧ parseUrlChar .reqSchema c = .reqSchema := by
  have hne : c ≠ 32 ∧ c ≠ 13 ∧ c ≠ 10 ∧ c ≠ 47 ∧ c ≠ 42 := by
    refine ⟨?_, ?_, ?_, ?_, ?_⟩ <;> rintro rfl <;> revert hc <;> decide
  simp [parseUrlChar, hne, hc]

theorem reads_schema (hs : Schema schema) :
    Reads [] .reqSpacesBeforeUrl noFields false schema .reqSchema (noFields.mark .schema [] schema) false := by
  obtain ⟨s', hs', hr⟩ := run_urlIn (fun c hc => (parseUrlChar_schema (hs.2 c (List.mem_of_mem_head? hc))).1)
    (fun c hc => (parseUrlChar_schema (hs.2 c hc)).2) rfl
  rcases hs' with rfl | ⟨hnil, -⟩
  · exact .field_of_ne hr rfl (by simp)
  · exact absurd hnil hs.1

theorem reads_slashes (hs : Schema schema) :
    Reads [] .reqSpacesBeforeUrl noFields false (schema ++ [58]) .reqSchemaSlash (noFields.mark .schema [] schema)
        false ∧
      Reads [] .reqSpacesBeforeUrl noFields false (schema ++ [58] ++ [47]) .reqSchemaSlashSlash
        (noFields.mark .schema [] schema) false ∧
      Reads [] .reqSpacesBeforeUrl noFields false (slashed schema) .reqServerStart
        (noFields.mark .schema [] schema) false := by
  have h1 : Reads [] .reqSpacesBeforeUrl noFields false (schema ++ [58]) .reqSchemaSlash
      (noFields.mark .schema [] schema) false :=
    (reads_schema hs).append (.skip rfl rfl (by simp) (by simp))
  have h2 : Reads [] .reqSpacesBeforeUrl noFields false (schema ++ [58] ++ [47]) .reqSchemaSlashSlash
      (noFields.mark .schema [] schema) false :=
    h1.append (.skip rfl rfl (by simp) (by simp))
  exact ⟨h1, h2, h2.append (.skip rfl rfl (by simp) (by simp))⟩

theorem inServer_of_run (h : run (urlIn .host) .reqServerStart hp = some t) : InServer t := by
  refine (run_only (S := InServer) (P := fun _ => True) (fun s c s' _ hstep => ⟨trivial, ?_⟩) (.inl rfl) h).2
  obtain ⟨-, hf⟩ := urlIn_iff.1 hstep
  cases s' <;> cases hf
  · exact .inr (.inl rfl)
  · exact .inr (.inr rfl)

/-- A schema, a host and what comes after it. -/
theorem reads_authority (hs : Schema schema) (hr : run (urlIn .host) .reqServerStart hp = some s)
    (hu : u.Legal [47]) :
    ∃ t, Reads [] .reqSpacesBeforeUrl noFields false (slashed schema ++ hp ++ u.text) t (loopFields schema hp u)
      (decide (64 ∈ hp)) := by
  have hin := inServer_of_run hr
  have hhost := (reads_slashes hs).2.2.append (.field hr (by simp [noFields]))
  have hpath : ∀ c ∈ u.path.head?, parseUrlChar s c = .reqPath := fun c hc => by
    have hc := hu.head c hc
    rw [List.mem_singleton] at hc
    subst hc
    rcases hin with rfl | rfl | rfl <;> rfl
  obtain ⟨t, ht⟩ := hu.reads (slashed schema ++ hp) (decide (64 ∈ hp)) hpath
    (fun _ _ => by rcases hin with rfl | rfl | rfl <;> rfl)
    (d := (noFields.mark .schema [] schema).mark .host (slashed schema) hp)
    (by simp [noFields]) (by simp [noFields]) (by simp [noFields])
  simp only [true_and, Bool.false_or] at hhost
  exact ⟨t, hhost.append ht⟩

theorem server_of_run (h : run urlNext .reqServerStart cs = some t) :
    ∃ hp, ∃ u : Target, ∃ s, run (urlIn .host) .reqServerStart hp = some s ∧ u.Legal [47] ∧ hp ++ u.text = cs := by
  obtain ⟨hp, rest, s', rfl, hhp, hs', hrun, hrest⟩ := run_until (S := InServer) (P := ServerChar)
    (fun s c s' hs hc hstep => by
      obtain ⟨rfl, hne⟩ := urlNext_iff.1 hstep
      rw [parseUrlChar_server hs hc (by
        rintro rfl rfl
        exact hne (by rfl))]
      split
      · exact .inr (.inr rfl)
      · exact .inr (.inl rfl)) (.inl rfl) h
  have hhost := run_host_of_run (.inl rfl) hhp hrun
  rcases hrest with ⟨rfl, -⟩ | ⟨c, bs, s'', rfl, hc, hstep, h⟩
  · exact ⟨hp, ⟨[], none, none⟩, s', hhost, ⟨by simp, by simp, by simp, by simp, by simp⟩, rfl⟩
  · obtain ⟨u, hu, htext⟩ := target_of_run hs' hc hstep h
    exact ⟨hp, u, s', hhost, hu, congrArg (hp ++ ·) htext⟩

theorem slashes_of_run (h : run urlNext .reqSchemaSlash cs = some t) :
    cs = [] ∨ cs = [47] ∨ ∃ hp, ∃ u : Target, ∃ s, run (urlIn .host) .reqServerStart hp = some s ∧ u.Legal [47] ∧
      [47] ++ [47] ++ hp ++ u.text = cs := by
  have hslash : ∀ {s s' c}, s = .reqSchemaSlash ∨ s = .reqSchemaSlashSlash → urlNext s c = some s' →
      c = 47 ∧ parseUrlChar s 47 = s' := fun {s s' c} hs hstep => by
    obtain ⟨rfl, hne⟩ := urlNext_iff.1 hstep
    have hc : c = 47 := by
      by_contra hc
      rcases hs with rfl | rfl <;> simp [parseUrlChar, hc] at hne
    exact ⟨hc, by rw [hc]⟩
  rcases cs with _ | ⟨c, cs⟩
  · exact .inl rfl
  obtain ⟨s1, hs1, h⟩ := run_cons.1 h
  obtain ⟨rfl, rfl⟩ := hslash (.inl rfl) hs1
  rcases cs with _ | ⟨c, cs⟩
  · exact .inr (.inl rfl)
  obtain ⟨s2, hs2, h⟩ := run_cons.1 h
  obtain ⟨rfl, rfl⟩ := hslash (.inr rfl) hs2
  obtain ⟨hp, u, s, hhost, hu, htext⟩ := server_of_run h
  exact .inr (.inr ⟨hp, u, s, hhost, hu, congrArg (47 :: 47 :: ·) htext⟩)

/-- **A text that the loop reads** is of one of these kinds. -/
theorem url_of_run (h : run urlNext .reqSpacesBeforeUrl buf = some t) :
    (∃ u : Target, u.Legal [47, 42] ∧ (u.path = [] → u.query = none) ∧ u.text = buf) ∨
      ∃ schema, Schema schema ∧ (schema = buf ∨ schema ++ [58] = buf ∨ schema ++ [58] ++ [47] = buf ∨
        ∃ hp, ∃ u : Target, ∃ s, run (urlIn .host) .reqServerStart hp = some s ∧ u.Legal [47] ∧
          slashed schema ++ hp ++ u.text = buf) := by
  rcases buf with _ | ⟨c, cs⟩
  · exact .inl ⟨⟨[], none, none⟩, ⟨by simp, by simp, by simp, by simp, by simp⟩, by simp, rfl⟩
  obtain ⟨s1, hs1, h⟩ := run_cons.1 h
  obtain ⟨rfl, hne⟩ := urlNext_iff.1 hs1
  by_cases halpha : isAlpha c
  · refine .inr ?_
    rw [(parseUrlChar_schema halpha).1] at h
    obtain ⟨ss, rest, s', rfl, hss, rfl, -, hrest⟩ :=
      run_until (S := (· = .reqSchema)) (P := fun c => isAlpha c) (fun s c s' hs hc hstep => by
        subst hs
        exact (urlNext_iff.1 hstep).1.symm.trans (parseUrlChar_schema hc).2) rfl h
    refine ⟨c :: ss, ⟨by simp, List.forall_mem_cons.2 ⟨halpha, hss⟩⟩, ?_⟩
    rcases hrest with ⟨rfl, -⟩ | ⟨e, bs, s'', rfl, he, hstep, h⟩
    · exact .inl (by simp)
    obtain ⟨rfl, hne⟩ := urlNext_iff.1 hstep
    have he58 : e = 58 := by
      by_contra he58
      simp [parseUrlChar, he, he58] at hne
    subst he58
    rcases slashes_of_run h with rfl | rfl | ⟨hp, u, s, hhost, hu, rfl⟩
    · exact .inr (.inl rfl)
    · exact .inr (.inr (.inl (by simp)))
    · exact .inr (.inr (.inr ⟨hp, u, s, hhost, hu, by simp [slashed]⟩))
  · have hc : c = 47 ∨ c = 42 := by
      by_contra hc
      simp [parseUrlChar, not_or.1 hc, halpha] at hne
    have hpath : parseUrlChar .reqSpacesBeforeUrl c = .reqPath := by
      rcases hc with rfl | rfl <;> rfl
    have hurl : isUrlChar c := by
      rcases hc with rfl | rfl <;> rfl
    rw [hpath] at h
    obtain ⟨u, hu, hnil, htext⟩ := path_of_run hurl h
    refine .inl ⟨u, { hu with head := fun c' hc' => ?_ }, fun h => absurd h hnil, htext⟩
    rw [List.mem_singleton.1 (hu.head c' hc')]
    rcases hc with rfl | rfl <;> simp

end

/-! ## The table -/

section
variable {buf cs pre rest schema hp : List UInt8} {d : FieldData} {u : Target} {a : Authority} {heads : List UInt8}

/-- What is read of the fields after the host, however long they are. -/
theorem Target.slice_mark (buf pre : List UInt8) (u : Target) (hp : d .path = none) (hq : d .query = none)
    (hf : d .fragment = none) :
    ((u.mark pre d) .path).map (slice buf) = (nonempty u.path).map (readBack buf pre.length) ∧
      ((u.mark pre d) .query).map (slice buf) =
        (u.query.bind nonempty).map (readBack buf (pre ++ u.path ++ [63]).length) ∧
      ((u.mark pre d) .fragment).map (slice buf) =
        (nonempty u.anchor).map (readBack buf (pre ++ u.path ++ u.queryText ++ [35] ++ u.hashes).length) := by
  unfold Target.mark
  refine ⟨?_, ?_, ?_⟩
  · rw [FieldData.mark_of_ne (by simp), FieldData.mark_of_ne (by simp)]
    exact FieldData.slice_mark hp
  · rw [FieldData.mark_of_ne (by simp), FieldData.slice_mark (by simpa using hq)]
    cases u.query <;> rfl
  · exact FieldData.slice_mark (by simpa using hf)

/-- The same for a text that is short enough. -/
theorem Target.slice_mark_short (pre : List UInt8) (u : Target) (hlen : (pre ++ u.text).length < 0x10000)
    (hp : d .path = none) (hq : d .query = none) (hf : d .fragment = none) :
    ((u.mark pre d) .path).map (slice (pre ++ u.text)) = nonempty u.path ∧
      ((u.mark pre d) .query).map (slice (pre ++ u.text)) = u.query.bind nonempty ∧
      ((u.mark pre d) .fragment).map (slice (pre ++ u.text)) = nonempty u.anchor := by
  obtain ⟨hpath, hquery, hfragment⟩ := Target.slice_mark (pre ++ u.text) pre u hp hq hf
  rw [hpath, hquery, hfragment]
  obtain ⟨path, query, fragment⟩ := u
  unfold Target.text at hlen ⊢
  refine ⟨map_readBack hlen ⟨_, by simp; rfl⟩, ?_, ?_⟩
  · rcases query with _ | qs
    · rfl
    · exact map_readBack hlen ⟨_, by simp [Target.queryText]; rfl⟩
  · rcases fragment with _ | fs
    · rfl
    · refine map_readBack hlen ⟨[], ?_⟩
      have htake : fs.takeWhile (· = 35) ++ fs.dropWhile (· = 35) = fs := List.takeWhile_append_dropWhile
      simp [Target.fragmentText, Target.hashes, Target.anchor, htake]

/-- What is read of the fields of the host. -/
theorem Authority.slice_mark (pre rest : List UInt8) (hlen : (pre ++ (a.text ++ rest)).length < 0x10000)
    (hne : a.host ≠ []) (hu : d .userinfo = none) :
    ((a.mark pre d) .userinfo).map (slice (pre ++ (a.text ++ rest))) = a.userinfo.bind nonempty ∧
      ((a.mark pre d) .host).map (slice (pre ++ (a.text ++ rest))) = some a.host := by
  obtain ⟨userinfo, v6, host, port⟩ := a
  unfold Authority.mark Authority.text
  unfold Authority.text at hlen
  refine ⟨?_, ?_⟩
  · rw [FieldData.mark_of_ne (by simp), FieldData.mark_of_ne (by simp)]
    rcases userinfo with _ | cs
    · simp [hu]
    · rw [FieldData.slice_mark hu]
      exact map_readBack hlen ⟨_, by simp [Authority.userinfoText]; rfl⟩
  · rw [FieldData.mark_of_ne (by simp)]
    exact FieldData.slice_mark_of_ne_nil hne hlen ⟨_, by simp; rfl⟩

/-- Where the port is. -/
theorem Authority.port_mark (pre rest : List UInt8) (hlen : (pre ++ (a.text ++ rest)).length < 0x10000)
    (ha : ∀ cs ∈ a.port, cs ≠ []) (hp : d .port = none) :
    ((a.mark pre d) .port).map (fun x => (pre ++ (a.text ++ rest)).drop x.1.toNat) = a.port.map (· ++ rest) := by
  obtain ⟨userinfo, v6, host, port⟩ := a
  unfold Authority.mark Authority.text
  unfold Authority.text at hlen
  rcases port with _ | cs
  · simp [hp]
  · dsimp only [Option.getD_some]
    rw [FieldData.mark_of_ne_nil (ha cs rfl), Function.update_self, Option.map_some, toNat_length]
    · simp [Authority.portText]
    · simp only [Authority.portText, Option.elim, List.length_append] at hlen ⊢
      omega

theorem Target.mark_of_ne {uf : UrlField} (hp : uf ≠ .path) (hq : uf ≠ .query) (hf : uf ≠ .fragment) :
    u.mark pre d uf = d uf := by
  unfold Target.mark
  rw [FieldData.mark_of_ne hf, FieldData.mark_of_ne hq, FieldData.mark_of_ne hp]

theorem Authority.mark_of_ne {uf : UrlField} (hu : uf ≠ .userinfo) (hh : uf ≠ .host) (hp : uf ≠ .port) :
    a.mark pre d uf = d uf := by
  unfold Authority.mark
  rw [FieldData.mark_of_ne hp, FieldData.mark_of_ne hh, FieldData.mark_of_ne hu]

theorem Target.Legal.head_text (hu : u.Legal [47]) : ∀ c ∈ u.text.head?, isNum c = false := by
  have hhead := hu.head
  have halone := hu.alone
  obtain ⟨_ | ⟨c, path⟩, query, fragment⟩ := u
  · rcases query with _ | qs
    · cases halone rfl rfl
      simp [Target.text, Target.queryText, Target.fragmentText]
    · rintro c ⟨⟩
      rfl
  · rintro c ⟨⟩
    rw [List.mem_singleton.1 (hhead c rfl)]
    rfl

theorem isNum_ne {c : UInt8} (hc : isNum c) : isSpace c = false ∧ c ≠ 45 ∧ c ≠ 43 := by
  refine ⟨?_, ?_, ?_⟩
  · simp only [isNum, Bool.and_eq_true, decide_eq_true_eq, UInt8.le_iff_toNat_le, UInt8.reduceToNat] at hc
    simp only [isSpace, Bool.or_eq_false_iff, Bool.and_eq_false_iff, decide_eq_false_iff_not,
      UInt8.le_iff_toNat_le, ← UInt8.toNat_inj, UInt8.reduceToNat]
    omega
  · rintro rfl
    revert hc
    decide
  · rintro rfl
    revert hc
    decide

/-- `strtoul` stops where the port ends. -/
theorem strtoul_port (hne : cs ≠ []) (hcs : ∀ c ∈ cs, isNum c) (hrest : ∀ c ∈ rest.head?, isNum c = false) :
    strtoul (cs ++ rest) = min (number cs) 0xffffffffffffffff := by
  have hnil : rest.takeWhile isNum = [] := by
    rcases rest with _ | ⟨c, rest⟩
    · rfl
    · exact List.takeWhile_cons_of_neg (by simpa using hrest c rfl)
  have htake : (cs ++ rest).takeWhile isNum = cs := by
    rw [List.takeWhile_append_of_pos hcs, hnil, List.append_nil]
  obtain ⟨c, ds, rfl⟩ := List.exists_cons_of_ne_nil hne
  obtain ⟨hspace, hminus, hplus⟩ := isNum_ne (hcs c List.mem_cons_self)
  have hdrop : (c :: ds ++ rest).dropWhile isSpace = c :: ds ++ rest :=
    List.dropWhile_cons_of_neg (by simpa using hspace)
  unfold strtoul
  rw [hdrop]
  dsimp only
  rw [htake, List.cons_append, List.head?_cons, if_neg (by simpa using hminus), if_neg (by simpa using hplus)]
  simp only [Bool.false_eq_true, if_false]
  split <;> omega

/-- A url without a schema has no host either. -/
theorem lparseUrl_target_fields (hu : u.Legal [47, 42]) (hp : u.path = [] → u.query = none) :
    lparseUrl u.text false = .ok ⟨none, none, ((u.mark [] noFields) .path).map (slice u.text),
      ((u.mark [] noFields) .query).map (slice u.text), ((u.mark [] noFields) .fragment).map (slice u.text), none,
      none⟩ := by
  obtain ⟨t, h⟩ := reads_target hu hp
  have hnone : ∀ uf, uf ≠ .path → uf ≠ .query → uf ≠ .fragment → u.mark [] noFields uf = none :=
    fun uf h1 h2 h3 => Target.mark_of_ne h1 h2 h3
  rw [lparseUrl_of_reads h, hnone .schema (by simp) (by simp) (by simp), hnone .host (by simp) (by simp) (by simp)]
  simp only [Option.isSome_none, Bool.false_eq_true, or_self, if_false, Result.bind, readPort]
  rw [hnone .port (by simp) (by simp) (by simp)]
  dsimp only
  rw [tableOf, hnone .schema (by simp) (by simp) (by simp), hnone .host (by simp) (by simp) (by simp),
    hnone .userinfo (by simp) (by simp) (by simp)]
  rfl

theorem lparseUrl_target (hlen : u.text.length < 0x10000) (hu : u.Legal [47, 42])
    (hp : u.path = [] → u.query = none) : lparseUrl u.text false = .ok (Parts.table ⟨none, u⟩) := by
  obtain ⟨hpath, hquery, hfragment⟩ := Target.slice_mark_short [] u (d := noFields) hlen rfl rfl rfl
  rw [List.nil_append] at hpath hquery hfragment
  rw [lparseUrl_target_fields hu hp, hpath, hquery, hfragment]
  rfl

/-- A schema without a host. -/
theorem lparseUrl_hostless {t : UrlState} {b : Bool} (h : Reads [] .reqSpacesBeforeUrl noFields false buf t d b)
    (hs : (d .schema).isSome) (hh : d .host = none) : lparseUrl buf false = .undefined := by
  rw [lparseUrl_of_reads h, if_pos (.inl hs), parseHost, hh]
  rfl

theorem loopFields_eq_none {uf : UrlField} (hu : uf = .userinfo ∨ uf = .port) : loopFields schema hp u uf = none := by
  rcases hu with rfl | rfl <;> simp [loopFields, Target.mark_of_ne, noFields]

theorem tableOf_allFields (hlen : (slashed schema ++ a.text ++ u.text).length < 0x10000) (hs : Schema schema)
    (ha : a.Legal) (n : ℕ) :
    tableOf (slashed schema ++ a.text ++ u.text) (allFields schema a u) n =
      { Parts.table ⟨some (schema, a), u⟩ with port := if n ≠ 0 then some n else none } := by
  obtain ⟨hpath, hquery, hfragment⟩ := Target.slice_mark_short (slashed schema ++ a.text) u hlen
    (d := (noFields.mark .schema [] schema).mark .host (slashed schema) a.text)
    (by simp [noFields]) (by simp [noFields]) (by simp [noFields])
  obtain ⟨huserinfo, hhost⟩ := Authority.slice_mark (slashed schema) u.text (by rwa [← List.append_assoc])
    ha.host_ne_nil
    (d := Function.update (loopFields schema a.text u) .host (some (UInt16.ofNat (slashed schema).length, 0)))
    (by rw [Function.update_of_ne (by simp), loopFields_eq_none (.inl rfl)])
  have hafter : ∀ uf, uf ≠ .host → uf ≠ .userinfo → uf ≠ .port →
      allFields schema a u uf = loopFields schema a.text u uf :=
    fun uf hh hu hp => by rw [allFields, Authority.mark_of_ne hu hh hp, Function.update_of_ne hh]
  have hschema : (loopFields schema a.text u .schema).map (slice (slashed schema ++ a.text ++ u.text)) =
      some schema := by
    rw [loopFields, Target.mark_of_ne (by simp) (by simp) (by simp), FieldData.mark_of_ne (by simp)]
    exact FieldData.slice_mark_of_ne_nil hs.1 hlen ⟨_, by simp [slashed]; rfl⟩
  rw [← List.append_assoc] at huserinfo hhost
  rw [tableOf, hafter .schema (by simp) (by simp) (by simp), hafter .path (by simp) (by simp) (by simp),
    hafter .query (by simp) (by simp) (by simp), hafter .fragment (by simp) (by simp) (by simp), hschema, loopFields,
    hpath, hquery, hfragment, allFields, huserinfo, hhost]
  rfl

theorem readPort_allFields (hlen : (slashed schema ++ a.text ++ u.text).length < 0x10000) (hs : Schema schema)
    (ha : a.Legal) (hu : u.Legal [47]) :
    readPort (slashed schema ++ a.text ++ u.text) (allFields schema a u) =
      if (a.port.map number).all (· ≤ 0xffff) then .ok (Parts.table ⟨some (schema, a), u⟩) else .error := by
  have hport := Authority.port_mark (slashed schema) u.text (by rwa [← List.append_assoc]) ha.port_ne_nil
    (d := Function.update (loopFields schema a.text u) .host (some (UInt16.ofNat (slashed schema).length, 0)))
    (by rw [Function.update_of_ne (by simp), loopFields_eq_none (.inr rfl)])
  rw [← List.append_assoc, ← allFields] at hport
  have hfields := tableOf_allFields hlen hs ha
  have hnum := ha.port
  unfold readPort
  rcases hp : a.port with _ | cs
  · rw [hp, Option.map_none, Option.map_eq_none_iff] at hport
    rw [hport, hfields, Parts.table]
    simp [hp]
  · rw [hp, Option.map_some] at hport
    obtain ⟨⟨off, len⟩, hoff, hdrop⟩ := Option.map_eq_some_iff.1 hport
    rw [hoff]
    dsimp only at hdrop ⊢
    rw [hdrop, strtoul_port (ha.port_ne_nil cs hp) (hnum cs hp) hu.head_text]
    by_cases hle : number cs ≤ 0xffff
    · rw [Nat.min_eq_left (by omega), if_neg (by omega), if_pos (by simpa using hle), hfields, Parts.table]
      simp [hp, Option.filter]
    · rw [if_pos (by omega), if_neg (by simpa using hle)]

/-- With a schema and a host the fields of the loop go to `http_parse_host`. -/
theorem lparseUrl_of_host {s : UrlState} (hs : Schema schema) (hr : run (urlIn .host) .reqServerStart hp = some s)
    (hne : hp ≠ []) (hu : u.Legal [47]) :
    loopFields schema hp u .host = some (UInt16.ofNat (slashed schema).length, UInt16.ofNat hp.length) ∧
      lparseUrl (slashed schema ++ hp ++ u.text) false =
        (parseHost (slashed schema ++ hp ++ u.text) (loopFields schema hp u) (decide (64 ∈ hp))).bind
          (readPort (slashed schema ++ hp ++ u.text)) := by
  obtain ⟨t, hreads⟩ := reads_authority hs hr hu
  have hhost : loopFields schema hp u .host = some (UInt16.ofNat (slashed schema).length, UInt16.ofNat hp.length) := by
    rw [loopFields, Target.mark_of_ne (by simp) (by simp) (by simp), FieldData.mark_of_ne_nil hne,
      Function.update_self]
  refine ⟨hhost, ?_⟩
  rw [lparseUrl_of_reads hreads, if_pos (.inr (by rw [hhost]; rfl))]

theorem Authority.Legal.text_ne_nil (ha : a.Legal) : a.text ≠ [] := by
  simp [Authority.text, ha.host_ne_nil]

/-- A host that is legal, but for the size of its port. -/
theorem lparseUrl_authority (hlen : (slashed schema ++ a.text ++ u.text).length < 0x10000) (hs : Schema schema)
    (ha : a.Legal) (hu : u.Legal [47]) :
    lparseUrl (slashed schema ++ a.text ++ u.text) false =
      if (a.port.map number).all (· ≤ 0xffff) then .ok (Parts.table ⟨some (schema, a), u⟩) else .error := by
  obtain ⟨s, hr⟩ := ha.run_server.1
  obtain ⟨hhost, heq⟩ := lparseUrl_of_host hs hr ha.text_ne_nil hu
  have hat : a.userinfo.isSome = decide (64 ∈ a.text) := by
    rw [Bool.eq_iff_iff, decide_eq_true_iff]
    exact ha.run_server.2.symm
  have hparse : parseHost (slashed schema ++ a.text ++ u.text) (loopFields schema a.text u) (decide (64 ∈ a.text)) =
      .ok (allFields schema a u) := by
    rw [List.append_assoc]
    exact (parseHost_ok_iff (by rwa [← List.append_assoc]) hhost).2 ⟨a, ha, hat, rfl, rfl⟩
  rw [heq, hparse, Result.bind, readPort_allFields hlen hs ha hu]

theorem lparseUrl_no_authority {s : UrlState} (hlen : (slashed schema ++ hp ++ u.text).length < 0x10000)
    (hs : Schema schema) (hr : run (urlIn .host) .reqServerStart hp = some s) (hne : hp ≠ []) (hu : u.Legal [47])
    (hno : ∀ a : Authority, a.Legal → a.text ≠ hp) : lparseUrl (slashed schema ++ hp ++ u.text) false = .error := by
  obtain ⟨hhost, heq⟩ := lparseUrl_of_host hs hr hne hu
  rw [heq]
  rcases hparse : parseHost (slashed schema ++ hp ++ u.text) (loopFields schema hp u) (decide (64 ∈ hp))
    with _ | _ | d
  · exact absurd hparse (parseHost_ne_undefined (by rw [hhost]; rfl))
  · rfl
  · rw [List.append_assoc] at hparse
    obtain ⟨a, ha, -, htext, -⟩ := (parseHost_ok_iff (by rwa [← List.append_assoc]) hhost).1 hparse
    exact absurd htext (hno a ha)

/-- A schema and a host. -/
theorem lparseUrl_host {s : UrlState} (hlen : (slashed schema ++ hp ++ u.text).length < 0x10000)
    (hs : Schema schema) (hr : run (urlIn .host) .reqServerStart hp = some s) (hne : hp ≠ []) (hu : u.Legal [47]) :
    lparseUrl (slashed schema ++ hp ++ u.text) false ≠ .undefined ∧
      ∀ table, lparseUrl (slashed schema ++ hp ++ u.text) false = .ok table ↔
        ∃ a : Authority, a.Legal ∧ a.text = hp ∧ (∀ cs ∈ a.port, number cs ≤ 0xffff) ∧
          Parts.table ⟨some (schema, a), u⟩ = table := by
  have hall : ∀ a : Authority,
      (a.port.map number).all (· ≤ 0xffff) = true ↔ ∀ cs ∈ a.port, number cs ≤ 0xffff := fun a => by
    cases a.port <;> simp
  by_cases hex : ∃ a : Authority, a.Legal ∧ a.text = hp
  · obtain ⟨a, ha, rfl⟩ := hex
    have heq := lparseUrl_authority hlen hs ha hu
    refine ⟨?_, fun table => ⟨fun h => ?_, ?_⟩⟩
    · rw [heq]
      split <;> exact fun h => by cases h
    · rw [heq] at h
      split at h
      · cases h
        exact ⟨a, ha, rfl, (hall a).1 ‹_›, rfl⟩
      · cases h
    · rintro ⟨a', ha', htext, hport, rfl⟩
      rw [← htext] at hlen ⊢
      rw [lparseUrl_authority hlen hs ha' hu, if_pos ((hall a').2 hport)]
  · have herror := lparseUrl_no_authority hlen hs hr hne hu fun a ha htext => hex ⟨a, ha, htext⟩
    rw [herror]
    refine ⟨fun h => (by cases h), fun table => ⟨fun h => (by cases h), ?_⟩⟩
    rintro ⟨a, ha, htext, -⟩
    exact absurd ⟨a, ha, htext⟩ hex

theorem run_of_lparseUrl (h : lparseUrl buf false ≠ .error) : ∃ t, run urlNext .reqSpacesBeforeUrl buf = some t := by
  rcases hrun : run Scan.step (Scan.init false) buf with _ | v
  · refine absurd ?_ h
    rw [lparseUrl, httpParserParseUrl, hrun]
    rfl
  · exact ⟨v.s, run_inside Scan.s (fun _ _ _ h => Scan.step_next h) hrun⟩

/-- The texts that have a schema and no host. -/
def Hostless (buf : List UInt8) : Prop :=
  ∃ schema, Schema schema ∧ (schema = buf ∨ schema ++ [58] = buf ∨ schema ++ [58] ++ [47] = buf ∨
    ∃ u : Target, u.Legal [47] ∧ slashed schema ++ u.text = buf)

theorem Hostless.undefined (h : Hostless buf) : lparseUrl buf false = .undefined := by
  obtain ⟨schema, hs, h⟩ := h
  have hschema : ((noFields.mark .schema [] schema) .schema).isSome := by
    rw [FieldData.mark_of_ne_nil hs.1, Function.update_self]
    rfl
  rcases h with rfl | rfl | rfl | ⟨u, hu, rfl⟩
  · exact lparseUrl_hostless (reads_schema hs) hschema (by simp [noFields])
  · exact lparseUrl_hostless (reads_slashes hs).1 hschema (by simp [noFields])
  · exact lparseUrl_hostless (reads_slashes hs).2.1 hschema (by simp [noFields])
  · have hr : run (urlIn .host) .reqServerStart [] = some .reqServerStart := rfl
    obtain ⟨t, hreads⟩ := reads_authority hs hr hu
    rw [List.append_nil] at hreads
    refine lparseUrl_hostless hreads ?_ ?_
    · rw [loopFields, Target.mark_of_ne (by simp) (by simp) (by simp)]
      exact hschema
    · simp [loopFields, Target.mark_of_ne, noFields]

/-- The texts that are not refused. -/
theorem kinds_of_lparseUrl (h : lparseUrl buf false ≠ .error) :
    (∃ u : Target, u.Legal [47, 42] ∧ (u.path = [] → u.query = none) ∧ u.text = buf) ∨ Hostless buf ∨
      ∃ schema hp, ∃ u : Target, ∃ s, Schema schema ∧ run (urlIn .host) .reqServerStart hp = some s ∧ hp ≠ [] ∧
        u.Legal [47] ∧ slashed schema ++ hp ++ u.text = buf := by
  obtain ⟨t, hrun⟩ := run_of_lparseUrl h
  rcases url_of_run hrun with h | ⟨schema, hs, h | h | h | ⟨hp, u, s, hr, hu, h⟩⟩
  · exact .inl h
  · exact .inr (.inl ⟨schema, hs, .inl h⟩)
  · exact .inr (.inl ⟨schema, hs, .inr (.inl h)⟩)
  · exact .inr (.inl ⟨schema, hs, .inr (.inr (.inl h))⟩)
  · by_cases hne : hp = []
    · subst hne
      rw [List.append_nil] at h
      exact .inr (.inl ⟨schema, hs, .inr (.inr (.inr ⟨u, hu, h⟩))⟩)
    · exact .inr (.inr ⟨schema, hp, u, s, hs, hr, hne, hu, h⟩)

theorem Target.Legal.path_ne_nil (hu : u.Legal heads) (hhead : u.text.head? = some 47) : u.path ≠ [] := by
  have halone := hu.alone
  obtain ⟨_ | ⟨c, path⟩, query, fragment⟩ := u
  · rcases query with _ | qs
    · cases halone rfl rfl
      cases hhead
    · cases hhead
  · simp

/-- A text that begins with a `/` is a path with what comes after it, or it is refused. -/
theorem target_of_lparseUrl (hhead : buf.head? = some 47) (h : lparseUrl buf false ≠ .error) :
    ∃ u : Target, u.Legal [47] ∧ u.text = buf := by
  have hschema : ∀ schema rest, Schema schema → schema ++ rest ≠ buf := by
    rintro (_ | ⟨c, cs⟩) rest ⟨hne, hs⟩ rfl
    · exact hne rfl
    · cases hhead
      exact absurd (hs 47 List.mem_cons_self) (by decide)
  rcases kinds_of_lparseUrl h with ⟨u, hu, -, rfl⟩ | ⟨schema, hs, rfl | h | h | ⟨u, -, h⟩⟩ |
    ⟨schema, hp, u, s, hs, -, -, -, h⟩
  · refine ⟨u, { hu with head := fun c hc => ?_ }, rfl⟩
    rw [Target.text, List.head?_append, Option.mem_def.1 hc] at hhead
    cases hhead
    exact List.mem_singleton_self _
  · exact absurd (List.append_nil schema) (hschema schema [] hs)
  · exact absurd h (hschema schema _ hs)
  · rw [List.append_assoc] at h
    exact absurd h (hschema schema _ hs)
  · simp only [slashed, List.append_assoc] at h
    exact absurd h (hschema schema _ hs)
  · simp only [slashed, List.append_assoc] at h
    exact absurd h (hschema schema _ hs)

theorem Parts.Legal.accepted {u : Parts} (hlen : u.text.length < 0x10000) (hu : u.Legal) :
    lparseUrl u.text false = .ok u.table := by
  obtain ⟨_ | ⟨schema, a⟩, target⟩ := u
  · exact lparseUrl_target hlen hu.target (hu.path rfl)
  · have ha := hu.authority _ rfl
    obtain ⟨s, hr⟩ := ha.run_server.1
    have htext : Parts.text ⟨some (schema, a), target⟩ = slashed schema ++ a.text ++ target.text := by
      simp [Parts.text, slashed]
    rw [htext] at hlen ⊢
    have h := (lparseUrl_host hlen (hu.schema _ rfl) hr ha.text_ne_nil hu.target).2
      (Parts.table ⟨some (schema, a), target⟩)
    exact h.2 ⟨a, ha, rfl, hu.port _ rfl, rfl⟩

theorem parts_of_lparseUrl {table : UrlTable} (hlen : buf.length < 0x10000) (h : lparseUrl buf false = .ok table) :
    ∃ u : Parts, u.Legal ∧ u.text = buf ∧ u.table = table := by
  rcases kinds_of_lparseUrl (by rw [h]; exact fun h => by cases h) with
    ⟨u, hu, hp, rfl⟩ | hless | ⟨schema, hp, u, s, hs, hr, hne, hu, rfl⟩
  · have hok := (lparseUrl_target hlen hu hp).symm.trans h
    cases hok
    exact ⟨⟨none, u⟩, ⟨by simp, by simp, by simp, hu, fun _ => hp⟩, rfl, rfl⟩
  · cases hless.undefined.symm.trans h
  · obtain ⟨a, ha, rfl, hport, htable⟩ := ((lparseUrl_host hlen hs hr hne hu).2 table).1 h
    refine ⟨⟨some (schema, a), u⟩, ⟨?_, ?_, ?_, hu, by simp⟩, by simp [Parts.text, slashed], htable⟩
    · rintro _ ⟨⟩
      exact hs
    · rintro _ ⟨⟩
      exact ha
    · rintro _ ⟨⟩
      exact hport

/-- **`parse_url`** accepts the legal urls, and gives back their parts; what it gives for a text
    without a host after its schema is undefined. -/
theorem lparseUrl_spec (buf : List UInt8) (hlen : buf.length < 0x10000) :
    (∀ table, lparseUrl buf false = .ok table ↔ ∃ u : Parts, u.Legal ∧ u.text = buf ∧ u.table = table) ∧
      (lparseUrl buf false = .undefined ↔ Hostless buf) := by
  refine ⟨fun table => ⟨parts_of_lparseUrl hlen, ?_⟩, fun h => ?_, Hostless.undefined⟩
  · rintro ⟨u, hu, rfl, rfl⟩
    exact hu.accepted hlen
  · rcases kinds_of_lparseUrl (by rw [h]; exact fun h => by cases h) with
      ⟨u, hu, hp, rfl⟩ | hless | ⟨schema, hp, u, s, hs, hr, hne, hu, rfl⟩
    · cases (lparseUrl_target hlen hu hp).symm.trans h
    · exact hless
    · exact absurd h (lparseUrl_host hlen hs hr hne hu).1

/-- `h://a:8/b?` and `h:` -/
theorem lparseUrl_spec_port :
    (∃ u : Parts, u.Legal ∧ u.text = [104, 58, 47, 47, 97, 58, 56, 47, 98, 63] ∧
      u.table = ⟨some [104], some [97], some [47, 98], none, none, none, some 8⟩) ∧
    lparseUrl [104, 58] false = .undefined :=
  ⟨((lparseUrl_spec [104, 58, 47, 47, 97, 58, 56, 47, 98, 63] (by decide)).1 _).1 rfl,
    (lparseUrl_spec [104, 58] (by decide)).2.2 ⟨[104], ⟨by simp, by simp; rfl⟩, .inr (.inl rfl)⟩⟩

end

end Levent.Http.ParseUrl
