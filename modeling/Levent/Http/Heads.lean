/-
  What is read back of a packed message: the text is cut at its first empty line, the
  head at its line ends, and each line of a field at its first `": "`.

  `add_headers`, `set_header` and `pack` look at no name and no value: which messages
  are read back as they were packed depends on their contents alone.
-/
import Levent.Http.Pack
import Levent.Lib.Related
import Levent.Lib.Split

namespace Levent.Http

open Lib (Separator)

/-- The start line, the fields, and the payload of a message. -/
def readHead (text : List UInt8) :
    Option (List UInt8 × List (List UInt8 × List UInt8) × List UInt8) := do
  let (head, payload) ← Lib.cut (CRLF ++ CRLF) text
  match Lib.split CRLF head with
  | [] => none
  | start :: lines =>
    let fields ← lines.mapM (Lib.cut (ascii ": "))
    return (start, fields, payload)

/-- A field as it is written. -/
def written (e : List UInt8 × FieldValue) : List UInt8 × List UInt8 := (e.1, e.2.text)

/-- The text is read as the start line, one field for each entry of the table, and the
    payload. -/
def ReadsAs (text start : List UInt8) (t : Fields) (payload : List UInt8) : Prop :=
  ∃ fields, fields.Perm (t.entries.map written) ∧ readHead text = some (start, fields, payload)

/-- A name and a value that stay on one line, divided where they were joined. -/
structure Clean (e : List UInt8 × List UInt8) : Prop where
  name : ¬ CRLF <:+: e.1
  colon : ¬ ascii ": " <:+: e.1
  value : ¬ CRLF <:+: e.2

theorem separator_CRLF : Separator CRLF := Lib.separator_pair (by decide)

theorem separator_colon : Separator (ascii ": ") := Lib.separator_pair (by decide)

theorem not_CRLF {s : List UInt8} (h : 13 ∉ s) : ¬ CRLF <:+: s :=
  fun hin => h (hin.subset (by decide))

/-! ## From the text to the fields -/

section
variable {text start payload : List UInt8} {fields : List (List UInt8 × List UInt8)}
  {name value : List UInt8}

theorem fieldLine_clean (h : Clean (name, value)) : ¬ CRLF <:+: name ++ ascii ": " ++ value := by
  intro hin
  rw [List.append_assoc] at hin
  rcases Lib.infix_append_cons (by decide) hin with hname | hin
  · exact h.name hname
  · rcases Lib.infix_append_cons (a := []) (by decide) hin with hnil | hvalue
    · exact separator_CRLF.ne_nil (List.infix_nil.1 hnil)
    · exact h.value hvalue

theorem clean_of_line {line : List UInt8} (hline : ¬ CRLF <:+: line)
    (h : Lib.cut (ascii ": ") line = some (name, value)) : Clean (name, value) := by
  have hcut := Lib.cut_some h
  refine ⟨fun hin => hline ?_, Lib.cut_notMem separator_colon.ne_nil h, fun hin => hline ?_⟩
  · rw [hcut, List.append_assoc]
    exact hin.trans (List.infix_append [] _ _)
  · rw [hcut]
    exact hin.trans (List.suffix_append _ _).isInfix

/-- What is read is always clean. -/
theorem readHead_clean (h : readHead text = some (start, fields, payload)) :
    ¬ CRLF <:+: start ∧ ∀ e ∈ fields, Clean e := by
  unfold readHead at h
  obtain ⟨⟨head, payload'⟩, -, h⟩ := Option.bind_eq_some_iff.1 h
  cases hsplit : Lib.split CRLF head with
  | nil =>
    simp only [hsplit] at h
    cases h
  | cons start' lines =>
    simp only [hsplit] at h
    obtain ⟨fields', hlines, h⟩ := Option.bind_eq_some_iff.1 h
    cases h
    have hpieces : ∀ s ∈ start :: lines, ¬ CRLF <:+: s := fun s hs =>
      separator_CRLF.notMem_of_mem_split (hsplit ▸ hs)
    obtain ⟨hstart, hall⟩ := List.forall_mem_cons.1 hpieces
    refine ⟨hstart, fun e he => ?_⟩
    obtain ⟨line, hline, hcut⟩ := Lib.related_right (Lib.mapM_eq_some.1 hlines) e he
    exact clean_of_line (hall line hline) hcut

end

/-! ## From the fields to the text -/

section
variable {m : Packed}

/-- The lines of the head. -/
def Packed.lines (m : Packed) : List (List UInt8) :=
  m.start :: m.fields.map fun e => fieldLine e.1 e.2

theorem Packed.text_eq (m : Packed) : m.text = CRLF.intercalate m.lines ++ (CRLF ++ CRLF) ++ m.payload := by
  have hconcat : m.text = CRLF.intercalate m.lines ++ CRLF ++ (CRLF ++ m.payload) :=
    Lib.intercalate_concat (List.cons_ne_nil _ _) _
  rw [hconcat]
  simp only [List.append_assoc]

/-- The first empty line is the one that `pack` has written. -/
theorem Packed.cut_text (hlines : ∀ s ∈ m.lines, ¬ CRLF <:+: s) (hnil : [] ∉ m.lines) :
    Lib.cut (CRLF ++ CRLF) m.text = some (CRLF.intercalate m.lines, m.payload) := by
  rw [m.text_eq]
  refine Lib.cut_append (by decide) ?_ m.payload
  have hlast : CRLF.intercalate (m.lines ++ [[13]]) = CRLF.intercalate m.lines ++ CRLF ++ [13] :=
    Lib.intercalate_concat (List.cons_ne_nil _ _) _
  rw [List.append_assoc] at hlast
  show ¬ CRLF ++ CRLF <:+: CRLF.intercalate m.lines ++ (CRLF ++ [13])
  rw [← hlast]
  refine separator_CRLF.double_notMem (by simp) ?_ (by simp [hnil])
  intro s hs
  rcases List.mem_append.1 hs with hs | hs
  · exact hlines s hs
  · rw [List.mem_singleton.1 hs]
    decide

/-- **A clean message is read back.** -/
theorem readHead_text (hne : m.start ≠ []) (hstart : ¬ CRLF <:+: m.start)
    (hclean : ∀ e ∈ m.fields, Clean (written e)) :
    readHead m.text = some (m.start, m.fields.map written, m.payload) := by
  have hlines : ∀ s ∈ m.lines, ¬ CRLF <:+: s := by
    refine List.forall_mem_cons.2 ⟨hstart, fun s hs => ?_⟩
    obtain ⟨e, he, rfl⟩ := List.mem_map.1 hs
    exact fieldLine_clean (hclean e he)
  have hnil : [] ∉ m.lines := by
    intro hmem
    rcases List.mem_cons.1 hmem with h | h
    · exact hne h.symm
    · obtain ⟨e, -, he⟩ := List.mem_map.1 h
      exact absurd he (by simp [fieldLine, ascii])
  have hsplit : Lib.split CRLF (CRLF.intercalate m.lines) =
      m.start :: m.fields.map fun e => fieldLine e.1 e.2 :=
    separator_CRLF.split_intercalate (List.cons_ne_nil _ _) hlines
  have hfields : (m.fields.map fun e => fieldLine e.1 e.2).mapM (Lib.cut (ascii ": ")) =
      some (m.fields.map written) := by
    rw [Lib.mapM_eq_some, List.forall₂_map_left_iff, List.forall₂_map_right_iff, List.forall₂_same]
    exact fun e he => separator_colon.cut_append (hclean e he).colon _
  unfold readHead
  rw [Packed.cut_text hlines hnil]
  simp only [Option.bind_eq_bind, Option.bind_some, hsplit, hfields]
  rfl

/-- **Exactly the clean messages are read back.** -/
theorem readsAs_iff {t : Fields} (hne : m.start ≠ []) (hfields : m.fields.Perm t.entries) :
    ReadsAs m.text m.start t m.payload ↔
      ¬ CRLF <:+: m.start ∧ ∀ e ∈ t.entries, Clean (written e) := by
  constructor
  · rintro ⟨fields, hperm, hread⟩
    obtain ⟨hstart, hclean⟩ := readHead_clean hread
    refine ⟨hstart, fun e he => hclean _ ?_⟩
    exact hperm.mem_iff.2 (List.mem_map_of_mem he)
  · rintro ⟨hstart, hclean⟩
    exact ⟨_, hfields.map written, readHead_text hne hstart fun e he => hclean e (hfields.mem_iff.1 he)⟩

end

/-! ## Tables -/

section
variable {t : Fields} {name : List UInt8} {value : FieldValue} {P : List UInt8 × FieldValue → Prop}

theorem Fields.forall_set : (∀ e ∈ (t.set name value).entries, P e) ↔
    P (name, value) ∧ ∀ e ∈ t.entries, e.1 ≠ name → P e := by
  unfold set
  rw [List.forall_mem_cons]
  simp only [List.mem_filter, decide_eq_true_eq, and_imp]

/-- An entry for a name that the table does not have. -/
theorem Fields.forall_set_new (h : t.get name = none) (hP : P (name, value)) :
    (∀ e ∈ (t.set name value).entries, P e) ↔ ∀ e ∈ t.entries, P e := by
  rw [forall_set, and_iff_right hP]
  refine forall₂_congr fun e he => ⟨fun hne => hne ?_, fun hp _ => hp⟩
  rintro rfl
  have hget := mem_iff.1 (show (e.1, e.2) ∈ t.entries from he)
  rw [h] at hget
  cases hget

theorem Fields.forall_setDefault (hP : P (name, value)) :
    (∀ e ∈ (t.setDefault name value).entries, P e) ↔ ∀ e ∈ t.entries, P e := by
  unfold setDefault
  split
  · exact forall_set_new ‹_› hP
  · exact Iff.rfl

end

/-- What is written of a number has digits only. -/
theorem digit_of_mem {n : ℕ} {c : UInt8} (h : c ∈ ascii (toString n)) : 48 ≤ c.toNat ∧ c.toNat ≤ 57 := by
  obtain ⟨d, hd, rfl⟩ := List.mem_map.1 h
  have hdigit : d.isDigit := by
    rw [show (toString n).toList = Nat.toDigits 10 n from Nat.toList_repr] at hd
    exact Nat.isDigit_of_mem_toDigits (by decide) (by decide) hd
  obtain ⟨hlow, hhigh⟩ := Char.isDigit_iff_toNat.1 hdigit
  rw [UInt8.toNat_ofNat_of_lt' (hhigh.trans_lt (by decide))]
  exact ⟨hlow, hhigh⟩

theorem notMem_number (n : ℕ) : 13 ∉ ascii (toString n) :=
  fun h => absurd (digit_of_mem h).1 (by decide)

theorem clean_length {n : ℕ} : Clean (written (contentLength, .num n)) := by
  have hname : ¬ CRLF <:+: contentLength := by decide
  have hcolon : ¬ ascii ": " <:+: contentLength := by decide
  exact ⟨hname, hcolon, not_CRLF (notMem_number n)⟩

theorem clean_date {date : List UInt8} : Clean (written (ascii "Date", .str date)) ↔ ¬ CRLF <:+: date := by
  have hname : ¬ CRLF <:+: ascii "Date" := by decide
  have hcolon : ¬ ascii ": " <:+: ascii "Date" := by decide
  exact ⟨fun h => h.value, fun h => ⟨hname, hcolon, h⟩⟩

theorem Request.forall_packHeaders {r : Request} :
    (∀ e ∈ r.packHeaders.entries, Clean (written e)) ↔ ∀ e ∈ r.headers.entries, Clean (written e) := by
  unfold packHeaders
  dsimp only
  split
  · rename_i h
    exact Fields.forall_set_new h.2 clean_length
  · exact Iff.rfl

theorem ResponseWriter.forall_packHeaders {w : ResponseWriter} {date : List UInt8} :
    (∀ e ∈ (w.packHeaders date).entries, Clean (written e)) ↔
      ¬ CRLF <:+: date ∧ ∀ e ∈ w.headers.entries, e.1 ≠ ascii "Date" → Clean (written e) := by
  unfold packHeaders
  rw [Fields.forall_setDefault clean_length, Fields.forall_setDefault ⟨by decide, by decide, by decide⟩,
    Fields.forall_set, clean_date]

theorem Request.start_ne_nil (r : Request) : r.start ≠ [] := by
  unfold start
  simp [ascii]

theorem ResponseWriter.start_ne_nil (w : ResponseWriter) : w.start ≠ [] := by
  unfold start
  simp [ascii]

/-- The start line of a response is one line. -/
theorem ResponseWriter.start_line (w : ResponseWriter) : ¬ CRLF <:+: w.start := by
  have hmsg : ∀ e ∈ httpStatusMsg, 13 ∉ ascii e.2 := by decide +kernel
  have hline : ∀ e ∈ httpStatusMsg,
      13 ∉ ascii "HTTP/1.1 " ++ ascii (toString e.1) ++ ascii " " ++ ascii e.2 := by
    intro e he
    have hfirst : 13 ∉ ascii "HTTP/1.1 " := by decide
    have hblank : 13 ∉ ascii " " := by decide
    simp only [List.mem_append, not_or]
    exact ⟨⟨⟨hfirst, notMem_number e.1⟩, hblank⟩, hmsg e he⟩
  refine not_CRLF ?_
  unfold start
  cases w.code with
  | none => exact hline (200, "OK") (by decide)
  | some status => exact hline status.1 status.2

/-! ## Names -/

/-- A character that is no letter stands at the same places of a name and of the
    canonical name. -/
def Kept (c d : UInt8) : Prop := ∀ x : UInt8, x < 65 → (x = c ↔ x = d)

theorem kept_lower (c : UInt8) : Kept c (toLower c) := by
  intro x hx
  unfold toLower
  split
  · simp only [UInt8.lt_iff_toNat_lt, UInt8.le_iff_toNat_le, ← UInt8.toNat_inj, UInt8.toNat_add,
      UInt8.toNat_ofNat] at *
    omega
  · exact Iff.rfl

theorem kept_upper (c : UInt8) : Kept c (toUpper c) := by
  intro x hx
  unfold toUpper
  split
  · simp only [UInt8.lt_iff_toNat_lt, UInt8.le_iff_toNat_le, ← UInt8.toNat_inj, UInt8.toNat_sub,
      UInt8.toNat_ofNat] at *
    omega
  · exact Iff.rfl

theorem kept_upperInitials {prev : UInt8} {s : List UInt8} : List.Forall₂ Kept s (upperInitials prev s) := by
  induction s generalizing prev with
  | nil => exact .nil
  | cons c s ih =>
    refine .cons ?_ ih
    split
    · exact kept_upper c
    · exact fun x hx => Iff.rfl

/-- The canonical name has what is no letter where the name has it. -/
theorem infix_canonical {sep key : List UInt8} (hsep : sep.all (· < 65) = true) :
    sep <:+: canonicalHeaderKey key ↔ sep <:+: key := by
  have hkept : ∀ {s s' : List UInt8}, List.Forall₂ Kept s s' → (sep <:+: s ↔ sep <:+: s') := fun h =>
    Lib.infix_congr (h.imp fun c d hk x hx => hk x (of_decide_eq_true (List.all_eq_true.1 hsep x hx)))
  have hlower : List.Forall₂ Kept key (lower key) := by
    unfold lower
    rw [List.forall₂_map_right_iff, List.forall₂_same]
    exact fun c _ => kept_lower c
  exact (hkept kept_upperInitials).symm.trans (hkept hlower).symm

theorem clean_canonical {key value : List UInt8} :
    Clean (canonicalHeaderKey key, value) ↔ Clean (key, value) := by
  have hCRLF : CRLF <:+: canonicalHeaderKey key ↔ CRLF <:+: key := infix_canonical (by decide)
  have hcolon : ascii ": " <:+: canonicalHeaderKey key ↔ ascii ": " <:+: key := infix_canonical (by decide)
  constructor
  · exact fun h => ⟨fun hin => h.name (hCRLF.2 hin), fun hin => h.colon (hcolon.2 hin), h.value⟩
  · exact fun h => ⟨fun hin => h.name (hCRLF.1 hin), fun hin => h.colon (hcolon.1 hin), h.value⟩

/-! ## Requests and responses -/

/-- **Which messages are read back as they were packed**, in any order of the table: those
    whose start line has no line end, no name a line end or `": "`, and no value a line end.
    The start line of a response never has one, and `pack` writes the date over the one of
    the table.  The names of the table are as clean as those that were set. -/
theorem pack_readsAs_iff (r : Request) (w : ResponseWriter) (order : Order) (date key value : List UInt8) :
    (ReadsAs (r.pack order).1.text r.start r.packHeaders (payloadOf r.data) ↔
      ¬ CRLF <:+: r.start ∧ ∀ e ∈ r.headers.entries, Clean (written e)) ∧
    (ReadsAs (w.pack order date).1.text w.start (w.packHeaders date) (payloadOf w.data) ↔
      ¬ CRLF <:+: date ∧ ∀ e ∈ w.headers.entries, e.1 ≠ ascii "Date" → Clean (written e)) ∧
    (Clean (canonicalHeaderKey key, value) ↔ Clean (key, value)) := by
  refine ⟨?_, ?_, clean_canonical⟩
  · rw [← Request.forall_packHeaders]
    exact readsAs_iff (m := (r.pack order).1) r.start_ne_nil (order.perm _)
  · rw [← ResponseWriter.forall_packHeaders]
    have hiff := readsAs_iff (m := (w.pack order date).1) w.start_ne_nil (order.perm _)
    exact hiff.trans (and_iff_right w.start_line)

/-- A value with a line end is read as two fields. -/
theorem pack_readsAs_injected :
    let r := (Request.new none (ascii "h") none none none none).addHeaders
      (some [(ascii "x", ascii "1\r\nSet: 2")])
    ¬ ReadsAs (r.pack ⟨id, .refl⟩).1.text r.start r.packHeaders (payloadOf r.data) := by
  intro r h
  have hclean := ((readsAs_iff (m := (r.pack ⟨id, .refl⟩).1) r.start_ne_nil (.refl _)).1 h).2
  have hmem : (ascii "X", FieldValue.str (ascii "1\r\nSet: 2")) ∈ r.packHeaders.entries := by decide
  exact (hclean _ hmem).value (by decide)

end Levent.Http
