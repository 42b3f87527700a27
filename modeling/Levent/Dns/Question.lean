/-
  The request of `remote_resolve`: the ids that `gen_tid` gives to `pack_header`, and
  the name that `pack_question` makes of a name that `dns.resolve` accepts.
-/
import Levent.Dns.Resolve

namespace Levent.Dns

open Lib (At Along collect packI packS run run_cons run_snoc toBytes)

/-! ## Transaction ids -/

section
variable {rounds : ℕ} {s s' : State}

/-- The call is not answered from the cache: `gen_tid` gives it an id. -/
def takesId (s : State) : Act → Option Unit
  | .ask now _ name qtype => if (queryCache s now qtype name).1.isNone then some () else none
  | .answer .. | .collect .. => none

/-- The number of ids given so far. -/
def idsTaken (rounds : ℕ) (acts : List Act) : ℕ :=
  (collect (step rounds) takesId State.init acts).length

theorem queryCache_nextTid (s : State) (now : ℚ) (qtype : ℕ) (name : List UInt8) :
    (queryCache s now qtype name).2.nextTid = s.nextTid := by
  unfold queryCache
  split
  · rfl
  · split <;> rfl

theorem ask_nextTid (s : State) (conf : Option (List Server)) (name : List UInt8) (qtype : ℕ) :
    (ask s conf name qtype).2.nextTid = (s.nextTid + 1) % 2 ^ 64 := by
  unfold ask
  dsimp only
  split
  · rfl
  · split <;> rfl

theorem finish_nextTid (s : State) (q : Asked) (w : Replies) :
    (finish s rounds q w).2.nextTid = s.nextTid := by
  unfold finish
  split
  · rfl
  · dsimp only
    split
    · rfl
    · split
      · rfl
      · split
        · rfl
        · unfold setCache
          split
          · rfl
          · split <;> rfl

theorem step_nextTid {a : Act} (h : step rounds s a = some s') :
    s'.nextTid = if (takesId s a).isSome then (s.nextTid + 1) % 2 ^ 64 else s.nextTid := by
  cases a with
  | ask now conf name qtype =>
    have hq := queryCache_nextTid s now qtype name
    simp only [step] at h
    split at h
    · rename_i t s₁ heq
      cases h
      rw [heq] at hq
      simpa [takesId, heq] using hq
    · rename_i s₁ heq
      have ha := ask_nextTid s₁ conf name qtype
      rw [heq] at hq
      rw [show s₁.nextTid = s.nextTid from hq] at ha
      split at h <;> rename_i hask <;> cases h <;> rw [hask] at ha <;> simpa [takesId, heq] using ha
  | answer k w =>
    simp only [step] at h
    split at h
    · cases h
    · rename_i q hq
      have hf :
          (finish { s with pending := s.pending.eraseIdx k } rounds q w).2.nextTid = s.nextTid :=
        finish_nextTid _ q w
      split at h
      · rename_i heq
        cases h
        rw [heq] at hf
        exact hf
      · cases h
      · rename_i heq
        cases h
        rw [heq] at hf
        exact hf
  | collect qtype name =>
    cases h
    rfl

/-- The ids are given one after another, as integers of 64 bits. -/
theorem run_nextTid {acts : List Act} (h : run (step rounds) State.init acts = some s) :
    s.nextTid = (idsTaken rounds acts + 1) % 2 ^ 64 := by
  have hinv := Lib.run_collect_inv (f := takesId) (C := fun _ _ => True)
    (I := fun l s => s.nextTid = (l.length + 1) % 2 ^ 64) (l := []) ?_ rfl
    (.of_forall fun _ _ _ => trivial) h
  · rwa [List.nil_append] at hinv
  · intro l s a s' hi _ hs
    rw [step_nextTid hs, hi, List.length_append]
    cases takesId s a with
    | none => simp
    | some u =>
      simp only [Option.isSome_some, if_true, Option.toList_some, List.length_singleton]
      omega

theorem packHeader_ok {tid : ℕ} {header : List UInt8} (h : packHeader tid 0x100 1 = .ok header) :
    tid < 256 ^ 2 ∧ header.length = DNS_HEADER_LEN := by
  obtain ⟨bs, htid, h⟩ := Lib.bind_eq_ok.1 h
  obtain ⟨hlt, rfl⟩ := Lib.packI_ok htid
  obtain ⟨flags, hflags, h⟩ := Lib.bind_eq_ok.1 h
  obtain ⟨-, rfl⟩ := Lib.packI_ok hflags
  obtain ⟨qdcount, hqdcount, h⟩ := Lib.bind_eq_ok.1 h
  obtain ⟨-, rfl⟩ := Lib.packI_ok hqdcount
  cases h
  exact ⟨hlt, by simp [DNS_HEADER_LEN]⟩

theorem packHeader_some {tid : ℕ} (h : tid < 256 ^ 2) :
    ∃ header, packHeader tid 0x100 1 = .ok header := by
  have htid : packI 2 2 tid = .ok (toBytes 2 tid) := if_pos h
  exact ⟨_, Lib.bind_eq_ok.2 ⟨_, htid, rfl⟩⟩

/-- **The `n`-th call that takes an id packs its header exactly when `n`, as an integer of
    64 bits, is one of 16 bits.** -/
theorem packHeader_builds_iff {acts : List Act} (h : run (step rounds) State.init acts = some s) :
    (∃ header, packHeader s.nextTid 0x100 1 = .ok header) ↔
      (idsTaken rounds acts + 1) % 2 ^ 64 < 2 ^ 16 := by
  rw [← run_nextTid h]
  constructor
  · rintro ⟨header, hh⟩
    exact (packHeader_ok hh).1
  · exact packHeader_some

theorem packHeader_builds_second : (∃ header, packHeader 2 0x100 1 = .ok header) ↔
    (idsTaken 1 [.ask 0 none [97] 1] + 1) % 2 ^ 64 < 2 ^ 16 := by
  have hrun :
      run (step 1) State.init [.ask 0 none [97] 1] = some { State.init with nextTid := 2 } := rfl
  exact packHeader_builds_iff hrun

/-- Calls that find no name servers. -/
theorem run_asks (t n : ℕ) : run (step rounds) { State.init with nextTid := t }
    (List.replicate n (.ask 0 none [97] 1)) =
      some { State.init with nextTid := if n = 0 then t else (t + n) % 2 ^ 64 } := by
  induction n generalizing t with
  | zero => rfl
  | succ n ih =>
    have hstep : step rounds { State.init with nextTid := t } (.ask 0 none [97] 1) =
        some { State.init with nextTid := (t + 1) % 2 ^ 64 } := by
      have hq : queryCache { State.init with nextTid := t } 0 1 [97] =
          (none, { State.init with nextTid := t }) := rfl
      simp only [step, hq, ask]
      cases packHeader t 0x100 1 >>= fun header => packQuestion [97] 1 1 >>= fun question =>
        Except.ok (header ++ question) with
      | error e => rfl
      | ok req => rfl
    have hsum : (if n = 0 then (t + 1) % 2 ^ 64 else ((t + 1) % 2 ^ 64 + n) % 2 ^ 64) =
        (t + (n + 1)) % 2 ^ 64 := by
      split
      · rename_i h0
        rw [h0]
      · omega
    rw [List.replicate_succ, run_cons]
    refine ⟨_, hstep, (ih _).trans ?_⟩
    rw [if_neg n.succ_ne_zero, hsum]

/-- The call 65536 gets an id that is not one of 16 bits. -/
theorem packHeader_not_builds : ¬ ∀ rounds acts s, run (step rounds) State.init acts = some s →
    ∃ header, packHeader s.nextTid 0x100 1 = .ok header := by
  intro h
  obtain ⟨header, hh⟩ := h 1 _ _ (run_asks 1 65535)
  exact absurd (packHeader_ok hh).1 (by decide)

end

/-! ## Names that are accepted -/

/-- What `guess_name_type` returns. -/
inductive NameType where
  | ipv4
  | ipv6
  | hostname
  deriving DecidableEq

/-- `%d` -/
def isDigit (b : UInt8) : Bool := 48 ≤ b && b ≤ 57

/-- `%l` -/
def isLower (b : UInt8) : Bool := 97 ≤ b && b ≤ 122

/-- `guess_name_type` -/
def guessNameType (name : List UInt8) : NameType :=
  if name ≠ [] ∧ name.all (fun b => isDigit b || b == 46) then .ipv4
  else if name.contains 58 then .ipv6
  else .hostname

def MAX_DOMAIN_LEN : ℕ := 1024
def MAX_LABEL_LEN : ℕ := 63

/-- `[%w-]` -/
def isHostChar (b : UInt8) : Bool := b == 45 || isDigit b || (65 ≤ b && b ≤ 90) || isLower b

/-- What `name:gmatch("([%w-]+)%.?")` gives. -/
def hostLabels (name : List UInt8) : List (List UInt8) :=
  (name.splitOnP fun b => !isHostChar b).filter (· ≠ [])

/-- `is_valid_hostname` -/
def isValidHostname (name : List UInt8) : Bool :=
  if MAX_DOMAIN_LEN < name.length then false
  else if ¬ (name ≠ [] ∧ name.all fun b => isLower b || isDigit b || b == 45 || b == 46) then false
  else (hostLabels name).all fun w => w.length ≤ MAX_LABEL_LEN

/-- The labels between the dots of a name, without the empty one after a last dot. -/
def dotLabels (name : List UInt8) : List (List UInt8) :=
  let ls := name.splitOn 46
  if ls.getLast? = some [] then ls.dropLast else ls

/-- The question is for the name: wherever it stands, its labels are of 1 to 63 bytes, and
    `unpack_name` reads the name, up to the type. -/
def Asks (name : List UInt8) (qtype : ℕ) : Prop :=
  ∃ question, packQuestion name qtype 1 = .ok question ∧ ∀ pre post : List UInt8, ∃ ls j,
    NameAt (pre ++ (question ++ post)) pre.length ls j ∧ (∀ l ∈ ls, 1 ≤ l.length ∧ l.length ≤ 63) ∧
    At (pre ++ (question ++ post)) j (toBytes 2 qtype ++ toBytes 2 1) ∧
    j + 4 = pre.length + question.length ∧
    ∃ n₀, ∀ n, n₀ ≤ n → unpackName (pre ++ (question ++ post)) (pre.length + 1) n =
      .ok (concatDots (dotLabels name), j + 1)

/-! ## Labels -/

variable {name : List UInt8}

theorem splitOnP_congr {p q : UInt8 → Bool} (h : ∀ b ∈ name, p b = q b) :
    name.splitOnP p = name.splitOnP q := by
  induction name with
  | nil => rfl
  | cons b name ih =>
    rw [List.splitOnP_cons_eq_if_modifyHead, List.splitOnP_cons_eq_if_modifyHead,
      h b List.mem_cons_self, ih fun c hc => h c (List.mem_cons_of_mem _ hc)]

/-- A byte between the separators is in a part. -/
theorem exists_mem_splitOnP {p : UInt8 → Bool} {b : UInt8} (hb : b ∈ name) (hp : p b = false) :
    ∃ l ∈ name.splitOnP p, b ∈ l := by
  induction name with
  | nil => cases hb
  | cons c name ih =>
    rw [List.splitOnP_cons_eq_if_modifyHead]
    obtain ⟨l, ls, hls⟩ := List.exists_cons_of_ne_nil (List.splitOnP_ne_nil p name)
    by_cases hc : p c
    · rcases List.mem_cons.1 hb with rfl | hb
      · rw [hp] at hc
        cases hc
      · obtain ⟨l', hl', hbl⟩ := ih hb
        exact ⟨l', by simp [hc, hl'], hbl⟩
    · rw [if_neg hc, hls, List.modifyHead_cons]
      rcases List.mem_cons.1 hb with rfl | hb
      · exact ⟨b :: l, List.mem_cons_self, List.mem_cons_self⟩
      · obtain ⟨l', hl', hbl⟩ := ih hb
        rw [hls] at hl'
        rcases List.mem_cons.1 hl' with rfl | hl'
        · exact ⟨c :: l', List.mem_cons_self, List.mem_cons_of_mem _ hbl⟩
        · exact ⟨l', List.mem_cons_of_mem _ hl', hbl⟩

theorem length_concatDots (t : List (List UInt8)) :
    (concatDots t).length = (t.map List.length).sum + (t.length - 1) := by
  induction t with
  | nil => rfl
  | cons l t ih =>
    cases t with
    | nil => simp [concatDots]
    | cons l' t =>
      rw [concatDots] at ih
      rw [concatDots, List.intersperse_cons_cons, List.flatten_cons, List.flatten_cons,
        List.length_append, List.length_append, ih]
      simp
      omega

theorem sum_filter_ne_nil (t : List (List UInt8)) :
    ((t.filter (· ≠ [])).map List.length).sum = (t.map List.length).sum := by
  induction t with
  | nil => rfl
  | cons l t ih =>
    by_cases hl : l = []
    · subst hl
      simpa using ih
    · rw [List.filter_cons_of_pos (by simpa using hl), List.map_cons, List.map_cons, List.sum_cons,
        List.sum_cons, ih]

/-- Labels that are dropped are missed, if one is left. -/
theorem concatDots_filter_iff {t : List (List UInt8)} (h : t.filter (· ≠ []) ≠ []) :
    concatDots (t.filter (· ≠ [])) = concatDots t ↔ [] ∉ t := by
  constructor
  · intro heq hnil
    have hlen := congrArg List.length heq
    rw [length_concatDots, length_concatDots, sum_filter_ne_nil] at hlen
    have hpos := List.length_pos_iff.2 h
    have hle := List.length_filter_le (fun l => decide (l ≠ [])) t
    have hall :=
      List.length_filter_eq_length_iff.1 (show (t.filter (· ≠ [])).length = t.length by omega)
    simpa using hall [] hnil
  · intro hnil
    rw [List.filter_eq_self.2]
    intro l hl
    have hne : l ≠ [] := by
      rintro rfl
      exact hnil hl
    simpa using hne

theorem filter_dotLabels (name : List UInt8) :
    (dotLabels name).filter (· ≠ []) = (name.splitOn 46).filter (· ≠ []) := by
  unfold dotLabels
  dsimp only
  split
  · rename_i hlast
    have happend := List.dropLast_append_getLast? [] hlast
    rw [← happend]
    simp
  · rfl

/-- What a name that `dns.resolve` asks for consists of. -/
theorem isValidHostname_iff : isValidHostname name = true ↔
    name.length ≤ MAX_DOMAIN_LEN ∧ name ≠ [] ∧
      (∀ b ∈ name, (isLower b || isDigit b || b == 45 || b == 46) = true) ∧
      ∀ l ∈ hostLabels name, l.length ≤ MAX_LABEL_LEN := by
  have hlabels : ((hostLabels name).all fun w => w.length ≤ MAX_LABEL_LEN) = true ↔
      ∀ l ∈ hostLabels name, l.length ≤ MAX_LABEL_LEN := by
    simp only [List.all_eq_true, decide_eq_true_eq]
  unfold isValidHostname
  by_cases hlen : MAX_DOMAIN_LEN < name.length
  · rw [if_pos hlen]
    exact iff_of_false Bool.false_ne_true fun h => absurd h.1 (not_le.2 hlen)
  · by_cases hname :
        name ≠ [] ∧ (name.all fun b => isLower b || isDigit b || b == 45 || b == 46) = true
    · rw [if_neg hlen, if_neg (not_not.2 hname), hlabels]
      have hall := List.all_eq_true.1 hname.2
      exact ⟨fun h => ⟨not_lt.1 hlen, hname.1, hall, h⟩, fun h => h.2.2.2⟩
    · rw [if_neg hlen, if_pos hname]
      refine iff_of_false Bool.false_ne_true fun h => hname ⟨h.2.1, List.all_eq_true.2 h.2.2.1⟩

/-- The three patterns take the same labels of such a name. -/
theorem nameLabels_eq (h : ∀ b ∈ name, (isLower b || isDigit b || b == 45 || b == 46) = true) :
    nameLabels name = (dotLabels name).filter (· ≠ []) ∧
      hostLabels name = (dotLabels name).filter (· ≠ []) := by
  have hchars : ∀ b ∈ name, (!isLabelChar b) = (b == 46) ∧ (!isHostChar b) = (b == 46) := by
    intro b hb
    by_cases h46 : b = 46
    · subst h46
      decide
    · have hc : isLower b = true ∨ isDigit b = true ∨ b = 45 := by
        simpa [h46, or_assoc] using h b hb
      rw [beq_false_of_ne h46]
      simp only [isLower, isDigit, isLabelChar, isHostChar] at hc ⊢
      rcases hc with hc | hc | hc <;> simp [hc]
  rw [filter_dotLabels, nameLabels, hostLabels, List.splitOn_eq_splitOnP,
    splitOnP_congr fun b hb => (hchars b hb).1, splitOnP_congr fun b hb => (hchars b hb).2]
  exact ⟨rfl, rfl⟩

/-- A name that does not look like an address has a label. -/
theorem dotLabels_filter_ne_nil (hname : name ≠ []) (h : guessNameType name = .hostname) :
    (dotLabels name).filter (· ≠ []) ≠ [] := by
  have hdot : ∃ b ∈ name, ¬ (b == 46) = true := by
    by_contra hall
    push Not at hall
    unfold guessNameType at h
    rw [if_pos ⟨hname, List.all_eq_true.2 fun b hb => by rw [hall b hb, Bool.or_true]⟩] at h
    cases h
  obtain ⟨b, hb, hp⟩ := hdot
  obtain ⟨l, hl, hbl⟩ := exists_mem_splitOnP (p := (· == 46)) hb (by simpa using hp)
  rw [filter_dotLabels, List.splitOn_eq_splitOnP]
  exact List.ne_nil_of_mem (List.mem_filter.2 ⟨hl, by simpa using List.ne_nil_of_mem hbl⟩)

/-- The labels of a name that is accepted, as those of a message. -/
theorem exists_labels (h : isValidHostname name = true) :
    ∃ ls : List Label, ls.map Label.bytes = (dotLabels name).filter (· ≠ []) := by
  obtain ⟨-, -, hchars, hlen⟩ := isValidHostname_iff.1 h
  rw [(nameLabels_eq hchars).2] at hlen
  have hpos : ∀ l ∈ (dotLabels name).filter (· ≠ []), 0 < l.length := by
    intro l hl
    have hne := (List.mem_filter.1 hl).2
    exact List.length_pos_iff.2 (by simpa using hne)
  refine ⟨((dotLabels name).filter (· ≠ [])).attach.map fun l => ⟨l.1, hpos _ l.2, hlen _ l.2⟩, ?_⟩
  rw [List.map_map]
  exact List.attach_map_subtype_val _

/-! ## The question -/

theorem mapM_packS (ls : List Label) :
    (ls.map Label.bytes).mapM (packS 1) = .ok (ls.map Label.wire) := by
  induction ls with
  | nil => rfl
  | cons l ls ih =>
    have hl : packS 1 l.bytes = .ok l.wire := by
      have hle := l.length_le
      exact if_pos (by omega)
    rw [List.map_cons, List.mapM_cons, hl, ih]
    rfl

/-- The labels are written one after another. -/
theorem packQuestion_labels {qtype : ℕ} {ls : List Label} (hq : qtype < 256 ^ 2)
    (h : nameLabels name = ls.map Label.bytes) : packQuestion name qtype 1 =
      .ok (ls.flatMap Label.wire ++ [0] ++ (toBytes 2 qtype ++ toBytes 2 1)) := by
  have hqtype : packI 2 2 qtype = .ok (toBytes 2 qtype) := if_pos hq
  have hqclass : packI 3 2 1 = .ok (toBytes 2 1) := if_pos (by decide)
  unfold packQuestion
  rw [h, mapM_packS, hqtype, hqclass]
  rfl

/-- The labels are read back where they are written. -/
theorem packQuestion_reads {qtype : ℕ} {ls : List Label} (hq : qtype < 256 ^ 2)
    (h : nameLabels name = ls.map Label.bytes) :
    ∃ question, packQuestion name qtype 1 = .ok question ∧
      ∀ pre post : List UInt8, ∃ j,
        NameAt (pre ++ (question ++ post)) pre.length (ls.map Label.bytes) j ∧
        At (pre ++ (question ++ post)) j (toBytes 2 qtype ++ toBytes 2 1) ∧
        j + 4 = pre.length + question.length := by
  refine ⟨_, packQuestion_labels hq h, fun pre post => ?_⟩
  have hname := (NameEnc.plain pre ls).nameAt (toBytes 2 qtype ++ toBytes 2 1 ++ post)
  refine ⟨_, by simpa only [List.append_assoc] using hname, ?_, ?_⟩
  · have hat := At.mid (pre ++ (ls.flatMap Label.wire ++ [0])) (toBytes 2 qtype ++ toBytes 2 1) post
    simpa only [List.append_assoc, List.length_append] using hat
  · simp only [List.length_append, Lib.toBytes_length]
    omega

/-- **A name that is accepted is the one asked for exactly when it has no empty label.** -/
theorem question_asks_iff {qtype : ℕ} (hq : qtype < 256 ^ 2) (hn : guessNameType name = .hostname)
    (hv : isValidHostname name = true) : Asks name qtype ↔ [] ∉ dotLabels name := by
  obtain ⟨-, hname, hchars, -⟩ := isValidHostname_iff.1 hv
  obtain ⟨ls, hls⟩ := exists_labels hv
  have hlabels := (nameLabels_eq hchars).1.trans hls.symm
  obtain ⟨question, hpack, hreads⟩ := packQuestion_reads hq hlabels
  rw [← concatDots_filter_iff (dotLabels_filter_ne_nil hname hn), ← hls]
  constructor
  · rintro ⟨question', hpack', h⟩
    obtain rfl : question' = question := Except.ok.inj (hpack'.symm.trans hpack)
    obtain ⟨_, j, -, -, -, -, n₀, hun⟩ := h [] []
    obtain ⟨j', hat, -, -⟩ := hreads [] []
    obtain ⟨n₁, hun'⟩ := unpackName_at hat
    have h1 := (hun' (max n₀ n₁) (le_max_right _ _)).symm.trans (hun (max n₀ n₁) (le_max_left _ _))
    exact (Prod.mk.inj (Except.ok.inj h1)).1
  · intro heq
    refine ⟨question, hpack, fun pre post => ?_⟩
    obtain ⟨j, hat, htype, hj⟩ := hreads pre post
    refine ⟨ls.map Label.bytes, j, hat, ?_, htype, hj, ?_⟩
    · intro l hl
      obtain ⟨l, -, rfl⟩ := List.mem_map.1 hl
      exact ⟨l.length_pos, l.length_le⟩
    · rw [← heq]
      exact unpackName_at hat

theorem question_asks_dot : Asks [97, 46, 98, 46] 1 ↔ [] ∉ dotLabels [97, 46, 98, 46] :=
  question_asks_iff (by decide) (by decide) (by decide)

/-- The question for `a..b` asks for `a.b`. -/
theorem question_not_asks : ¬ ∀ (name : List UInt8) (qtype : ℕ), qtype < 256 ^ 2 →
    guessNameType name = .hostname → isValidHostname name = true → Asks name qtype := by
  intro h
  obtain ⟨question, hpack, hall⟩ := h [97, 46, 46, 98] 1 (by decide) (by decide) (by decide)
  obtain ⟨_, j, -, -, -, -, n₀, hun⟩ := hall [] []
  have hlabels : nameLabels [97, 46, 46, 98] =
      [(⟨[97], by decide, by decide⟩ : Label), ⟨[98], by decide, by decide⟩].map Label.bytes := by
    decide
  obtain ⟨question', hpack', hreads⟩ := packQuestion_reads (show 1 < 256 ^ 2 by decide) hlabels
  obtain rfl : question' = question := Except.ok.inj (hpack'.symm.trans hpack)
  obtain ⟨j', hat, -, -⟩ := hreads [] []
  obtain ⟨n₁, hun'⟩ := unpackName_at hat
  have h1 := (hun' (max n₀ n₁) (le_max_right _ _)).symm.trans (hun (max n₀ n₁) (le_max_left _ _))
  exact absurd (Prod.mk.inj (Except.ok.inj h1)).1 (by decide)

end Levent.Dns
