/-
  Query strings: `escape`, `unescape`, `parse_query_string` and
  `encode_query_string` of `http/util.lua`, and the tables of arguments that
  `request_reader` and `response` make of them.

  `parse_query_string` finds its entries by the pattern `([^&;]+)=([^&;]+)`, which
  takes as much as it can for the key: `matchPair` is that match at one position.
-/
import Levent.Http.Client

namespace Levent.Http

/-! ## Escapes -/

/-- `[a-zA-Z0-9-_.~]` -/
def isUnreserved (c : UInt8) : Bool :=
  97 ≤ c && c ≤ 122 || 65 ≤ c && c ≤ 90 || 48 ≤ c && c ≤ 57 || c == 45 || c == 95 || c == 46 || c == 126

/-- A digit of `%02x` -/
def hexDigit (n : ℕ) : UInt8 := if n < 10 then 48 + UInt8.ofNat n else 87 + UInt8.ofNat n

/-- `%x` -/
def isHex (c : UInt8) : Bool := 48 ≤ c && c ≤ 57 || 65 ≤ c && c ≤ 70 || 97 ≤ c && c ≤ 102

/-- A digit after `0x`, for `tonumber` -/
def hexValue (c : UInt8) : ℕ :=
  if c ≤ 57 then c.toNat - 48 else if c ≤ 70 then c.toNat - 55 else c.toNat - 87

/-- What `escape` makes of one character. -/
def escapeChar (c : UInt8) : List UInt8 :=
  if isUnreserved c then [c] else [37, hexDigit (c.toNat / 16), hexDigit (c.toNat % 16)]

/-- `escape` -/
def escape (s : List UInt8) : List UInt8 := s.flatMap escapeChar

/-- `unescape` -/
def unescape : List UInt8 → List UInt8
  | [] => []
  | 37 :: a :: b :: s =>
    if isHex a && isHex b then UInt8.ofNat (16 * hexValue a + hexValue b) :: unescape s
    else 37 :: unescape (a :: b :: s)
  | c :: s => c :: unescape s

/-! ## The pattern of an entry -/

/-- `[^&;]` -/
def isArg (c : UInt8) : Bool := c != 38 && c != 59

/-- The match of `=([^&;]+)`, with what comes after it. -/
def matchValue : List UInt8 → Option (List UInt8 × List UInt8)
  | 61 :: s => if s.takeWhile isArg = [] then none else some (s.takeWhile isArg, s.dropWhile isArg)
  | _ => none

/-- `([^&;]+)` has taken `n` characters of `s`, and gives them back one by one until
    the rest of the pattern matches. -/
def expandKey (s : List UInt8) : ℕ → Option (List UInt8 × List UInt8 × List UInt8)
  | 0 => none
  | n + 1 =>
    match matchValue (s.drop (n + 1)) with
    | some (value, rest) => some (s.take (n + 1), value, rest)
    | none => expandKey s n

/-- The match of the pattern at the beginning of `s`: key, value and what comes after. -/
def matchPair (s : List UInt8) : Option (List UInt8 × List UInt8 × List UInt8) :=
  expandKey s (s.takeWhile isArg).length

theorem matchValue_length {s value rest : List UInt8} (h : matchValue s = some (value, rest)) :
    rest.length < s.length := by
  unfold matchValue at h
  split at h
  · rename_i s
    split at h
    · cases h
    · cases h
      have := (List.dropWhile_suffix (l := s) isArg).length_le
      simp only [List.length_cons]
      omega
  · cases h

theorem expandKey_length {s : List UInt8} {n : ℕ} {key value rest : List UInt8}
    (h : expandKey s n = some (key, value, rest)) : rest.length < s.length := by
  induction n with
  | zero => cases h
  | succ n ih =>
    unfold expandKey at h
    split at h
    · rename_i hv
      cases h
      have := matchValue_length hv
      rw [List.length_drop] at this
      omega
    · exact ih h

/-- `s:gmatch("([^&;]+)=([^&;]+)")` -/
def gmatchPairs (s : List UInt8) : List (List UInt8 × List UInt8) :=
  match _h : matchPair s with
  | some (key, value, rest) => (key, value) :: gmatchPairs rest
  | none =>
    match s with
    | [] => []
    | _ :: s => gmatchPairs s
  termination_by s.length
  decreasing_by
    · exact expandKey_length _h
    · simp

/-! ## Tables of arguments -/

/-- A table with strings for keys and values. -/
abbrev Args := List UInt8 → Option (List UInt8)

def Args.empty : Args := fun _ => none

/-- `util.parse_query_string`, the assignments to `t` -/
def parseQueryString (s : Option (List UInt8)) (t : Args) : Args :=
  match s with
  | none => t
  | some s => (gmatchPairs s).foldl (fun t (k, v) =>
      if 0 < k.length then Function.update t (unescape k) (some (unescape v)) else t) t

/-- `util.encode_query_string` of a table with the entries `t`, in the order of `pairs` -/
def encodeQueryString (t : Option (List (List UInt8 × List UInt8))) : List UInt8 :=
  match t with
  | none => []
  | some t => [38].intercalate (t.map fun (k, v) => escape k ++ 61 :: escape v)

/-- `pairs` gives the entries of the table `t` in the order `entries`. -/
structure Traverses (entries : List (List UInt8 × List UInt8)) (t : Args) : Prop where
  nodup : (entries.map Prod.fst).Nodup
  mem : ∀ k v, (k, v) ∈ entries ↔ t k = some v

/-- A request of the server, with the tables it has already made. -/
structure RequestReader where
  method : String
  queryString : Option (List UInt8)
  body : Option (List UInt8)
  forms : Option Args
  args : Option Args

/-- `request_reader:get_form` -/
def RequestReader.getForm (r : RequestReader) : Args × RequestReader :=
  match r.forms with
  | some forms => (forms, r)
  | none =>
    let forms :=
      if r.method = "POST" ∨ r.method = "PUT" then parseQueryString r.body Args.empty else Args.empty
    (forms, { r with forms := some forms })

/-- `request_reader:get_args` -/
def RequestReader.getArgs (r : RequestReader) : Args × RequestReader :=
  match r.args with
  | some args => (args, r)
  | none =>
    let args := parseQueryString r.queryString Args.empty
    let (forms, r) := r.getForm
    let args := fun k => (forms k).or (args k)
    (args, { r with args := some args })

/-- `response:get_args`, for a response with the table `args` and its body -/
def Response.getArgs (args : Option Args) (body : Option (List UInt8)) : Args :=
  args.getD (parseQueryString body Args.empty)

/-! ## Escapes and back -/

variable {s rest key value : List UInt8} {c : UInt8} {n : ℕ}

theorem isHex_hexDigit : ∀ n < 16, isHex (hexDigit n) = true := by decide

theorem hexValue_hexDigit : ∀ n < 16, hexValue (hexDigit n) = n := by decide

theorem isUnreserved_hexDigit : ∀ n < 16, isUnreserved (hexDigit n) = true := by decide

theorem unescape_cons (hc : c ≠ 37) (s : List UInt8) : unescape (c :: s) = c :: unescape s := by
  rw [unescape.eq_def]
  split
  · rename_i h
    cases h
  · rename_i h
    cases h
    exact absurd rfl hc
  · rename_i h
    cases h
    rfl

theorem unescape_hex {a b : ℕ} (ha : a < 16) (hb : b < 16) (s : List UInt8) :
    unescape (37 :: hexDigit a :: hexDigit b :: s) = UInt8.ofNat (16 * a + b) :: unescape s := by
  rw [unescape, isHex_hexDigit a ha, isHex_hexDigit b hb, hexValue_hexDigit a ha, hexValue_hexDigit b hb]
  rfl

theorem unescape_escapeChar (c : UInt8) (s : List UInt8) :
    unescape (escapeChar c ++ s) = c :: unescape s := by
  unfold escapeChar
  split
  · rename_i hc
    refine unescape_cons ?_ s
    rintro rfl
    exact absurd hc (by decide)
  · have hc : c.toNat < 256 := c.toNat_lt
    show unescape (37 :: hexDigit (c.toNat / 16) :: hexDigit (c.toNat % 16) :: s) = _
    rw [unescape_hex (by omega) (by omega), Nat.div_add_mod, UInt8.ofNat_toNat]

/-- **What is escaped is read back.** -/
theorem unescape_escape (s : List UInt8) : unescape (escape s) = s := by
  induction s with
  | nil => rfl
  | cons c s ih =>
    rw [escape, List.flatMap_cons, unescape_escapeChar]
    exact congrArg (c :: ·) ih

/-- The characters of an escaped text. -/
theorem escape_mem (hc : c ∈ escape s) : isUnreserved c = true ∨ c = 37 := by
  obtain ⟨a, -, hc⟩ := List.mem_flatMap.1 hc
  have ha : a.toNat < 256 := a.toNat_lt
  unfold escapeChar at hc
  split at hc
  · rename_i hu
    rw [List.mem_singleton.1 hc]
    exact .inl hu
  · simp only [List.mem_cons, List.not_mem_nil, or_false] at hc
    rcases hc with rfl | rfl | rfl
    · exact .inr rfl
    · exact .inl (isUnreserved_hexDigit _ (by omega))
    · exact .inl (isUnreserved_hexDigit _ (by omega))

/-- A key or a value as the pattern is to find it. -/
structure ArgText (s : List UInt8) : Prop where
  arg : ∀ c ∈ s, isArg c = true
  split : 61 ∉ s

theorem escape_plain (s : List UInt8) : ArgText (escape s) where
  arg c hc := by
    rcases escape_mem hc with h | rfl
    · by_contra hn
      simp only [isArg, bne_iff_ne, ne_eq, Bool.and_eq_true, not_and_or, not_not] at hn
      rcases hn with rfl | rfl <;> exact absurd h (by decide)
    · rfl
  split hc := by
    rcases escape_mem hc with h | h
    · exact absurd h (by decide)
    · cases h

/-- The texts of unreserved characters and of `%` with two digits. -/
inductive Escaped : List UInt8 → Prop
  | nil : Escaped []
  | plain {c : UInt8} {s : List UInt8} : isUnreserved c = true → Escaped s → Escaped (c :: s)
  | hex {a b : UInt8} {s : List UInt8} : isHex a = true → isHex b = true → Escaped s →
      Escaped (37 :: a :: b :: s)

theorem Escaped.escapeChar (c : UInt8) (h : Escaped s) : Escaped (escapeChar c ++ s) := by
  have hc : c.toNat < 256 := c.toNat_lt
  unfold Http.escapeChar
  split
  · rename_i hu
    exact .plain hu h
  · exact .hex (isHex_hexDigit _ (by omega)) (isHex_hexDigit _ (by omega)) h

theorem Escaped.escape (s : List UInt8) : Escaped (escape s) := by
  induction s with
  | nil => exact .nil
  | cons c s ih =>
    rw [Http.escape, List.flatMap_cons]
    exact ih.escapeChar c

/-- **Every text can be escaped**: it is a text of escapes then, from which the same is
    read back. -/
theorem escape_escaped (s : List UInt8) :
    Escaped (escape s) ∧ unescape (escape s) = s ∧ 61 ∉ escape s ∧ 38 ∉ escape s ∧ 59 ∉ escape s := by
  have hplain := escape_plain s
  refine ⟨Escaped.escape s, unescape_escape s, hplain.split, fun h => ?_, fun h => ?_⟩
  · exact absurd (hplain.arg 38 h) (by decide)
  · exact absurd (hplain.arg 59 h) (by decide)

theorem escape_nil : escape s = [] ↔ s = [] := by
  constructor
  · intro h
    rw [← unescape_escape s, h]
    rfl
  · rintro rfl
    rfl

/-! ## Matches -/

/-- What follows an entry: the end, or a separator. -/
def Stops (rest : List UInt8) : Prop := ∀ c ∈ rest.head?, isArg c = false

theorem takeWhile_append (hs : ∀ c ∈ s, isArg c = true) (hrest : Stops rest) :
    (s ++ rest).takeWhile isArg = s ∧ (s ++ rest).dropWhile isArg = rest := by
  have h1 : rest.takeWhile isArg = [] ∧ rest.dropWhile isArg = rest := by
    cases rest with
    | nil => exact ⟨rfl, rfl⟩
    | cons c rest => simp [hrest c rfl]
  rw [List.takeWhile_append_of_pos hs, List.dropWhile_append_of_pos hs, h1.1, h1.2, List.append_nil]
  exact ⟨rfl, rfl⟩

theorem matchValue_none (h : s.head? ≠ some 61) : matchValue s = none := by
  unfold matchValue
  split
  · exact absurd rfl h
  · rfl

/-- Where the rest of the pattern does not match, the key gives characters back. -/
theorem expandKey_back {m : ℕ} (hm : m ≤ n) (h : ∀ i, m < i → i ≤ n → matchValue (s.drop i) = none) :
    expandKey s n = expandKey s m := by
  induction n with
  | zero => rw [Nat.le_zero.1 hm]
  | succ n ih =>
    rcases Nat.eq_or_lt_of_le hm with rfl | hm
    · rfl
    · rw [expandKey, h (n + 1) hm le_rfl]
      exact ih (Nat.lt_succ_iff.1 hm) fun i h1 h2 => h i h1 (h2.trans (Nat.le_succ n))

/-- A text in which no `=` but perhaps the last character stands: no value begins
    in it. -/
theorem matchValue_tail (hs : 61 ∉ s.dropLast) (hrest : Stops rest) (i : ℕ) (hi : i ≤ s.length) :
    matchValue ((s ++ rest).drop i) = none := by
  have hnone : (rest.takeWhile isArg) = [] := by
    have h := (takeWhile_append (s := []) (by simp) hrest).1
    rwa [List.nil_append] at h
  rw [List.drop_append_of_le_length hi]
  rcases hd : s.drop i with _ | ⟨c, _ | ⟨d, s'⟩⟩
  · refine matchValue_none fun h => ?_
    rw [List.nil_append] at h
    exact absurd (hrest 61 h) (by decide)
  · -- the last character, after which there is nothing for a value
    by_cases hc : c = 61
    · subst hc
      rw [List.singleton_append, matchValue, if_pos hnone]
    · exact matchValue_none fun h => hc (Option.some_inj.1 h)
  · refine matchValue_none fun h => ?_
    rw [List.cons_append, List.head?_cons, Option.some_inj] at h
    have hmem : c ∈ s.dropLast := by
      rw [← List.take_append_drop i s, hd, List.dropLast_append_cons, List.dropLast_cons_cons]
      exact List.mem_append_right _ List.mem_cons_self
    exact hs (h ▸ hmem)

/-- **An entry is found**: the key goes up to the last `=` that has a value. -/
theorem matchPair_entry (hkey : ∀ c ∈ key, isArg c = true) (hk : key ≠ [])
    (hvalue : ∀ c ∈ value, isArg c = true) (hlast : 61 ∉ value.dropLast) (hv : value ≠ [])
    (hrest : Stops rest) :
    matchPair (key ++ 61 :: (value ++ rest)) = some (key, value, rest) := by
  have hrun : (key ++ 61 :: (value ++ rest)).takeWhile isArg = key ++ 61 :: value := by
    have h := (takeWhile_append (s := key ++ 61 :: value) (fun c hc => ?_) hrest).1
    · rw [← h, List.append_assoc, List.cons_append]
    · rcases List.mem_append.1 hc with hc | hc
      · exact hkey c hc
      · rcases List.mem_cons.1 hc with rfl | hc
        · rfl
        · exact hvalue c hc
  have hback : expandKey (key ++ 61 :: (value ++ rest)) (key ++ 61 :: value).length =
      expandKey (key ++ 61 :: (value ++ rest)) key.length := by
    refine expandKey_back (by simp) fun i hi hn => ?_
    simp only [List.length_append, List.length_cons] at hn
    obtain ⟨j, rfl⟩ : ∃ j, i = key.length + (j + 1) := ⟨i - key.length - 1, by omega⟩
    rw [List.drop_append, List.drop_eq_nil_of_le (by omega), List.nil_append, Nat.add_sub_cancel_left]
    exact matchValue_tail hlast hrest j (by omega)
  have hvalue' : matchValue (61 :: (value ++ rest)) = some (value, rest) := by
    obtain ⟨h1, h2⟩ := takeWhile_append hvalue hrest
    rw [matchValue, h1, h2, if_neg hv]
  obtain ⟨n, hn⟩ := Nat.exists_eq_succ_of_ne_zero (List.length_pos_iff.2 hk).ne'
  unfold matchPair
  rw [hrun, hback, hn, expandKey, ← Nat.succ_eq_add_one, ← hn, List.drop_left, hvalue', List.take_left]

/-- A key with an empty value is none. -/
theorem matchPair_key (hkey : ArgText key) (hrest : Stops rest) : matchPair (key ++ 61 :: rest) = none := by
  have harg : ∀ c ∈ key ++ [61], isArg c = true := by
    intro c hc
    rcases List.mem_append.1 hc with hc | hc
    · exact hkey.arg c hc
    · rw [List.mem_singleton.1 hc]
      rfl
  have hlast : 61 ∉ (key ++ [61]).dropLast := by
    rw [List.dropLast_concat]
    exact hkey.split
  rw [List.append_cons]
  unfold matchPair
  rw [(takeWhile_append harg hrest).1]
  exact expandKey_back (Nat.zero_le _) fun i _ hn => matchValue_tail hlast hrest i hn

/-- The entries of a text that begins with one. -/
theorem gmatchPairs_entry (hkey : ∀ c ∈ key, isArg c = true) (hk : key ≠ [])
    (hvalue : ∀ c ∈ value, isArg c = true) (hlast : 61 ∉ value.dropLast) (hv : value ≠ [])
    (hrest : Stops rest) :
    gmatchPairs (key ++ 61 :: (value ++ rest)) = (key, value) :: gmatchPairs rest := by
  have hmatch := matchPair_entry hkey hk hvalue hlast hv hrest
  rw [gmatchPairs.eq_def]
  split
  · rename_i h
    rw [hmatch] at h
    cases h
    rfl
  · rename_i h
    rw [hmatch] at h
    cases h

theorem gmatchPairs_skip (h : matchPair (c :: s) = none) : gmatchPairs (c :: s) = gmatchPairs s := by
  rw [gmatchPairs.eq_def]
  split
  · rename_i h'
    rw [h] at h'
    cases h'
  · rfl

theorem gmatchPairs_key (hkey : ArgText key) (hrest : Stops rest) :
    gmatchPairs (key ++ 61 :: rest) = gmatchPairs rest := by
  have hnone := matchPair_key hkey hrest
  induction key with
  | nil => exact gmatchPairs_skip hnone
  | cons c key ih =>
    have hkey' : ArgText key := ⟨fun c' hc' => hkey.arg c' (List.mem_cons_of_mem _ hc'),
      fun h => hkey.split (List.mem_cons_of_mem _ h)⟩
    rw [List.cons_append] at hnone ⊢
    rw [gmatchPairs_skip hnone, ih hkey' (matchPair_key hkey' hrest)]

/-! ## Encoded tables -/

variable {entries : List (List UInt8 × List UInt8)} {t : Args}

/-- The entries that are written with a value. -/
def kept (entries : List (List UInt8 × List UInt8)) : List (List UInt8 × List UInt8) :=
  entries.filter fun (_, v) => v ≠ []

theorem encodeQueryString_cons (k v : List UInt8) (entries : List (List UInt8 × List UInt8)) :
    ∃ rest, Stops rest ∧ encodeQueryString (some ((k, v) :: entries)) = escape k ++ 61 :: (escape v ++ rest) ∧
      gmatchPairs rest = gmatchPairs (encodeQueryString (some entries)) := by
  cases entries with
  | nil =>
    refine ⟨[], by simp [Stops], ?_, rfl⟩
    simp [encodeQueryString, List.intercalate]
  | cons e entries =>
    refine ⟨38 :: encodeQueryString (some (e :: entries)), ?_, ?_, ?_⟩
    · rintro c hc
      cases hc
      rfl
    · simp [encodeQueryString, List.intercalate]
    · exact gmatchPairs_skip rfl

/-- **What is read of an encoded table**: the entries that have a value. -/
theorem gmatchPairs_encode (hkeys : ∀ e ∈ entries, e.1 ≠ []) :
    gmatchPairs (encodeQueryString (some entries)) =
      (kept entries).map fun (k, v) => (escape k, escape v) := by
  induction entries with
  | nil => rw [gmatchPairs.eq_def]; rfl
  | cons e entries ih =>
    obtain ⟨k, v⟩ := e
    obtain ⟨rest, hrest, heq, hnext⟩ := encodeQueryString_cons k v entries
    have hk : escape k ≠ [] := fun h => hkeys (k, v) List.mem_cons_self (escape_nil.1 h)
    have ih := ih fun e he => hkeys e (List.mem_cons_of_mem _ he)
    rw [heq]
    by_cases hv : v = []
    · subst hv
      rw [show escape [] = [] from rfl, List.nil_append, gmatchPairs_key (escape_plain k) hrest, hnext, ih]
      rfl
    · have hlast : 61 ∉ (escape v).dropLast := fun h => (escape_plain v).split (List.dropLast_subset _ h)
      rw [gmatchPairs_entry (escape_plain k).arg hk (escape_plain v).arg hlast
        (fun h => hv (escape_nil.1 h)) hrest, hnext, ih]
      simp [kept, hv]

/-- The assignments, of which none is to a key that has been assigned to. -/
theorem foldl_entries (hkeys : ∀ e ∈ entries, e.1 ≠ []) (hn : (entries.map Prod.fst).Nodup) (k v : List UInt8) :
    (entries.map fun (k, v) => (escape k, escape v)).foldl (fun t (k, v) =>
        if 0 < k.length then Function.update t (unescape k) (some (unescape v)) else t) t k = some v ↔
      (k, v) ∈ entries ∨ (k ∉ entries.map Prod.fst ∧ t k = some v) := by
  induction entries generalizing t with
  | nil => simp
  | cons e entries ih =>
    obtain ⟨k', v'⟩ := e
    have hk' : 0 < (escape k').length :=
      List.length_pos_iff.2 fun h => hkeys (k', v') List.mem_cons_self (escape_nil.1 h)
    rw [List.map_cons, List.nodup_cons] at hn
    rw [List.map_cons, List.foldl_cons, ih (fun e he => hkeys e (List.mem_cons_of_mem _ he)) hn.2]
    simp only [if_pos hk', unescape_escape, List.mem_cons, List.map_cons, not_or, Prod.mk.injEq]
    by_cases hk : k = k'
    · subst hk
      have hno : (k, v) ∉ entries := fun h => hn.1 (List.mem_map.2 ⟨_, h, rfl⟩)
      simp [hno, hn.1, eq_comm]
    · simp [hk, Function.update_of_ne]

/-- **What is read back of a table**: its entries with a value. -/
theorem parse_encode (ht : Traverses entries t) (hkeys : ∀ k v, t k = some v → k ≠ []) (k v : List UInt8) :
    parseQueryString (some (encodeQueryString (some entries))) Args.empty k = some v ↔
      t k = some v ∧ v ≠ [] := by
  have hne : ∀ e ∈ entries, e.1 ≠ [] := fun e he => hkeys e.1 e.2 ((ht.mem e.1 e.2).1 he)
  have hsub : ∀ e ∈ kept entries, e.1 ≠ [] := fun e he => hne e (List.mem_filter.1 he).1
  have hn : ((kept entries).map Prod.fst).Nodup := ht.nodup.sublist (List.filter_sublist.map _)
  unfold parseQueryString
  dsimp only
  rw [gmatchPairs_encode hne, foldl_entries hsub hn, ← ht.mem]
  simp [kept, Args.empty]

/-- The body of a message that is posted, as the other side has it: none if it is empty. -/
def bodyOf (payload : List UInt8) : Option (List UInt8) := if payload = [] then none else some payload

theorem parse_bodyOf (payload : List UInt8) :
    parseQueryString (bodyOf payload) Args.empty = parseQueryString (some payload) Args.empty := by
  unfold bodyOf
  split
  · rename_i h
    subst h
    rw [parseQueryString, parseQueryString, gmatchPairs.eq_def]
    rfl
  · rfl

/-- The server reads the arguments of a form from its body. -/
theorem getArgs_form {method : String} (hm : method ∈ ["POST", "PUT"]) (body : Option (List UInt8)) :
    (RequestReader.getArgs ⟨method, none, body, none, none⟩).1 = parseQueryString body Args.empty := by
  simp only [List.mem_cons, List.not_mem_nil, or_false] at hm
  simp only [RequestReader.getArgs, RequestReader.getForm, if_pos hm]
  exact funext fun k => Option.or_none

/-- **A table comes back as it was posted exactly if it has no empty value.** -/
theorem query_roundTrip_iff (ht : Traverses entries t) (hkeys : ∀ k v, t k = some v → k ≠ []) :
    (parseQueryString (some (encodeQueryString (some entries))) Args.empty = t ∧
      (∀ method ∈ ["POST", "PUT"],
        (RequestReader.getArgs ⟨method, none, bodyOf (encodeQueryString (some entries)), none, none⟩).1 = t) ∧
      Response.getArgs none (bodyOf (encodeQueryString (some entries))) = t) ↔
        ∀ k v, t k = some v → v ≠ [] := by
  constructor
  · rintro ⟨h, -, -⟩ k v hv
    exact ((parse_encode ht hkeys k v).1 (by rw [h]; exact hv)).2
  · intro hv
    have h : parseQueryString (some (encodeQueryString (some entries))) Args.empty = t := by
      ext k v
      rw [parse_encode ht hkeys]
      exact ⟨And.left, fun h => ⟨h, hv k v h⟩⟩
    refine ⟨h, fun method hm => ?_, ?_⟩
    · rw [getArgs_form hm, parse_bodyOf, h]
    · rw [Response.getArgs, Option.getD_none, parse_bodyOf, h]

/-- A name with a space and an equals sign in its value. -/
theorem query_roundTrip_name :
    parseQueryString (some (encodeQueryString (some [(ascii "name", ascii "a =b")]))) Args.empty =
      Function.update Args.empty (ascii "name") (some (ascii "a =b")) := by
  refine ((query_roundTrip_iff ⟨by simp, fun k v => ?_⟩ fun k v hk => ?_).2 fun k v hk => ?_).1
  · by_cases hk : k = ascii "name" <;> simp [hk, Args.empty, eq_comm]
  all_goals
    by_cases hn : k = ascii "name"
    · subst hn
      simp only [Function.update_self, Option.some_inj] at hk
      first | exact hk ▸ by decide | decide
    · simp [hn, Args.empty] at hk

/-- A value that is empty is lost. -/
theorem query_not_roundTrip :
    ∃ (entries : List (List UInt8 × List UInt8)) (t : Args), Traverses entries t ∧
      (∀ k v, t k = some v → k ≠ []) ∧
      parseQueryString (some (encodeQueryString (some entries))) Args.empty ≠ t := by
  have ht : Traverses [(ascii "k", [])] (Function.update Args.empty (ascii "k") (some [])) := by
    refine ⟨by simp, fun k v => ?_⟩
    by_cases hk : k = ascii "k" <;> simp [hk, Args.empty, eq_comm]
  have hkeys : ∀ k v, Function.update Args.empty (ascii "k") (some []) k = some v → k ≠ [] := by
    rintro k v hk rfl
    simp [Args.empty, ascii] at hk
  refine ⟨_, _, ht, hkeys, fun h => ?_⟩
  have hself := congrFun h (ascii "k")
  rw [Function.update_self, parse_encode ht hkeys] at hself
  exact hself.2 rfl

end Levent.Http
