/-
  `lua-bson.c`: the strings that stand for values of other types, as `bson.date`,
  `bson.timestamp`, `bson.regex`, `bson.binary` and `bson.objectid` make them and
  `bson.type` takes them apart.
-/
import Levent.Bson.Normal

namespace Levent.Bson

open Lib

/-! ## Object ids -/

/-- `hextoint` -/
def hextoint (c : UInt8) : ℕ :=
  if 48 ≤ c ∧ c ≤ 57 then c.toNat - 48
  else if 97 ≤ c ∧ c ≤ 122 then c.toNat - 97 + 10
  else if 65 ≤ c ∧ c ≤ 90 then c.toNat - 65 + 10
  else 0

/-- The loop of `lobjectid`. -/
def hexBytes : Bytes → Bytes
  | a :: b :: s => UInt8.ofNat (hextoint a <<< 4 ||| hextoint b) :: hexBytes s
  | _ => []

/-- A digit or a small letter. -/
def IsHex (c : UInt8) : Prop := 48 ≤ c ∧ c ≤ 57 ∨ 97 ≤ c ∧ c ≤ 102

/-- The characters of `hex` in `lsubtype`. -/
def hexDigit (n : ℕ) : UInt8 := [48, 49, 50, 51, 52, 53, 54, 55, 56, 57, 97, 98, 99, 100, 101, 102].getD n 0

/-- The loop of `lsubtype` over an object id. -/
def hexText : Bytes → Bytes
  | [] => []
  | b :: s => hexDigit (b.toNat >>> 4) :: hexDigit (b.toNat &&& 0xf) :: hexText s

/-- `lobjectid` of a string -/
def lobjectid (s : Bytes) : Except Stop Bytes :=
  if s.length ≠ 24 then .error (.error s!"Invalid objectid {cstring s}") else .ok (0 :: 7 :: hexBytes s)

/-- `lobjectid` without a string, and what `oid_counter` is then. -/
def nextObjectid (header : Bytes) (time counter : ℕ) : Bytes × ℕ :=
  (0 :: 7 :: [UInt8.ofNat (time >>> 24), UInt8.ofNat (time >>> 16), UInt8.ofNat (time >>> 8), UInt8.ofNat time] ++
    header ++ [UInt8.ofNat (counter >>> 16), UInt8.ofNat (counter >>> 8), UInt8.ofNat counter],
    (counter + 1) % 2 ^ 32)

/-! ## Constructors -/

/-- `ldate` -/
def ldate (d : Int64) : Bytes := 0 :: 9 :: leBytes 4 (unsigned 4 d.toInt)

/-- `ltimestamp`, and what `inc` is then. -/
def ltimestamp (inc : ℕ) (d : Int64) : Option Int64 → Bytes × ℕ
  | none => (0 :: 17 :: leBytes 4 inc ++ leBytes 4 (unsigned 4 d.toInt), (inc + 1) % 2 ^ 32)
  | some i => (0 :: 17 :: leBytes 4 (unsigned 4 i.toInt) ++ leBytes 4 (unsigned 4 d.toInt), inc)

/-- `lregex` -/
def lregex (p : Bytes) (o : Option Bytes) : Bytes := 0 :: 11 :: (p ++ 0 :: o.getD [] ++ [0])

/-- `lbinary` -/
def lbinary (s : Bytes) : Bytes := 0 :: 5 :: 0 :: s

/-! ## Types -/

/-- What `bson.type` returns: a name and the values after it. -/
structure Typed where
  name : String
  values : List Value

/-- `lsubtype`.  (An empty regular expression is read backwards from before its start; of an
    empty binary -1 bytes are asked for.) -/
def lsubtype (subtype : UInt8) (buf : Bytes) : Except Stop Typed :=
  match subtype with
  | 5 =>
    match buf with
    | [] => .error (.error "memory allocation error: block too big")
    | b :: s => .ok ⟨"binary", [.str s, .int b.toNat]⟩
  | 7 => if buf.length ≠ 12 then .error (.error "Invalid object id") else .ok ⟨"objectid", [.str (hexText buf)]⟩
  | 9 => if buf.length ≠ 4 then .error (.error "Invalid date") else .ok ⟨"date", [.int (signed 4 (ofLe buf))]⟩
  | 17 =>
    if buf.length ≠ 8 then .error (.error "Invalid timestamp")
    else .ok ⟨"timestamp", [.int (ofLe (buf.drop 4)), .int (ofLe (buf.take 4))]⟩
  | 11 =>
    if buf = [] then .error .undefined
    else
      match splitNul buf.dropLast with
      | none => .error (.error "Invalid regex")
      | some (r1, r2) => .ok ⟨"regex", [.str r1, .str r2]⟩
  | 255 => .ok ⟨"minkey", []⟩
  | 127 => .ok ⟨"maxkey", []⟩
  | 10 => .ok ⟨"nil", []⟩
  | 13 | 12 | 14 | 15 => .ok ⟨"unsupported", [.str buf]⟩
  | subtype => .error (.error s!"Invalid subtype {subtype.toNat}")

/-- `ltype` of a value that can be decoded, or nil. -/
def ltype : Option Value → Except Stop Typed
  | none => .ok ⟨"nil", []⟩
  | some (.real d) => .ok ⟨"number", [.real d]⟩
  | some (.int n) => .ok ⟨"number", [.int n]⟩
  | some (.bool b) => .ok ⟨"boolean", [.bool b]⟩
  | some (.table fs) => .ok ⟨"table", [.table fs]⟩
  | some (.str (0 :: subtype :: buf)) => lsubtype subtype buf
  | some (.str s) => .ok ⟨"string", [.str s]⟩

/-! ## Special values -/

/-- A call that makes a value of another type, or one of the constants. -/
inductive Special where
  | date (d : Int64)
  | timestamp (d : Int64) (i : Option Int64)
  | regex (p : Bytes) (o : Option Bytes)
  | binary (s : Bytes)
  | objectid (s : Bytes)
  | null
  | minkey
  | maxkey

namespace Special

/-- The string, where `inc` is the static variable of `ltimestamp`. -/
def make (inc : ℕ) : Special → Except Stop Bytes
  | date d => .ok (ldate d)
  | timestamp d i => .ok (ltimestamp inc d i).1
  | regex p o => .ok (lregex p o)
  | binary s => .ok (lbinary s)
  | objectid s => lobjectid s
  | null => .ok [0, 10]
  | minkey => .ok [0, 255]
  | maxkey => .ok [0, 127]

/-- The name of the type and what the value was made of. -/
def typed (inc : ℕ) : Special → Typed
  | date d => ⟨"date", [.int d.toInt]⟩
  | timestamp d i => ⟨"timestamp", [.int d.toInt, .int (i.elim inc Int64.toInt)]⟩
  | regex p o => ⟨"regex", [.str p, .str (o.getD [])]⟩
  | binary s => ⟨"binary", [.str s, .int 0]⟩
  | objectid s => ⟨"objectid", [.str s]⟩
  | null => ⟨"nil", []⟩
  | minkey => ⟨"minkey", []⟩
  | maxkey => ⟨"maxkey", []⟩

/-- A date is an `int`, a timestamp two `uint32_t`, the options of a regular expression have no NUL
    in them, and an object id is in small letters and digits. -/
def Kept : Special → Prop
  | date d => -2 ^ 31 ≤ d.toInt ∧ d.toInt < 2 ^ 31
  | timestamp d i => (0 ≤ d.toInt ∧ d.toInt < 2 ^ 32) ∧ ∀ n ∈ i, 0 ≤ n.toInt ∧ n.toInt < 2 ^ 32
  | regex _ o => 0 ∉ o.getD []
  | objectid s => ∀ c ∈ s, IsHex c
  | _ => True

/-- No NUL is in a regular expression. -/
def Clean : Special → Prop
  | regex p o => 0 ∉ p ∧ 0 ∉ o.getD []
  | _ => True

end Special

/-! ## Hexadecimal digits -/

theorem hexDigit_isHex : ∀ n < 16, IsHex (hexDigit n) := by
  unfold IsHex
  decide

theorem hexText_isHex {s : Bytes} {c : UInt8} (h : c ∈ hexText s) : IsHex c := by
  induction s with
  | nil => cases h
  | cons b s ih =>
    have hlt := b.toNat_lt
    rw [hexText, List.mem_cons, List.mem_cons] at h
    rcases h with rfl | rfl | h
    · refine hexDigit_isHex _ ?_
      rw [Nat.shiftRight_eq_div_pow]
      omega
    · refine hexDigit_isHex _ ?_
      rw [show 0xf = 2 ^ 4 - 1 from rfl, Nat.and_two_pow_sub_one_eq_mod]
      omega
    · exact ih h

theorem hexDigit_hextoint {c : UInt8} (h : IsHex c) : hextoint c < 16 ∧ hexDigit (hextoint c) = c := by
  have hall : ∀ n < 103, IsHex (UInt8.ofNat n) →
      hextoint (UInt8.ofNat n) < 16 ∧ hexDigit (hextoint (UInt8.ofNat n)) = UInt8.ofNat n := by
    unfold IsHex
    decide
  have hn : c.toNat < 103 := by
    unfold IsHex at h
    simp only [UInt8.le_iff_toNat_le] at h
    have h57 : (57 : UInt8).toNat = 57 := rfl
    have h102 : (102 : UInt8).toNat = 102 := rfl
    omega
  have hc := hall c.toNat hn
  rw [UInt8.ofNat_toNat] at hc
  exact hc h

theorem hexText_hexBytes : ∀ {s : Bytes}, s.length % 2 = 0 → (∀ c ∈ s, IsHex c) → hexText (hexBytes s) = s
  | [], _, _ => rfl
  | [_], hlen, _ => by cases hlen
  | a :: b :: s, hlen, h => by
    obtain ⟨ha, hda⟩ := hexDigit_hextoint (h a (by simp))
    obtain ⟨hb, hdb⟩ := hexDigit_hextoint (h b (by simp))
    have hbyte : (UInt8.ofNat (hextoint a <<< 4 ||| hextoint b)).toNat = hextoint a * 2 ^ 4 + hextoint b := by
      rw [← Nat.shiftLeft_add_eq_or_of_lt hb, Nat.shiftLeft_eq, UInt8.toNat_ofNat', Nat.mod_eq_of_lt (by omega)]
    have hs := hexText_hexBytes (s := s) (by simp only [List.length_cons] at hlen; omega)
      fun c hc => h c (by simp [hc])
    rw [hexBytes, hexText, hbyte, Nat.shiftRight_eq_div_pow, show 0xf = 2 ^ 4 - 1 from rfl,
      Nat.and_two_pow_sub_one_eq_mod, hs]
    rw [show (hextoint a * 2 ^ 4 + hextoint b) / 2 ^ 4 = hextoint a by omega,
      show (hextoint a * 2 ^ 4 + hextoint b) % 2 ^ 4 = hextoint b by omega, hda, hdb]

theorem hexBytes_length : ∀ s : Bytes, (hexBytes s).length = s.length / 2
  | [] => rfl
  | [_] => by simp [hexBytes]
  | _ :: _ :: s => by
    rw [hexBytes, List.length_cons, hexBytes_length s, List.length_cons, List.length_cons]
    omega

/-- The text of an object id is the one that it was made of. -/
theorem hexText_eq_iff {s : Bytes} (h : s.length % 2 = 0) : hexText (hexBytes s) = s ↔ ∀ c ∈ s, IsHex c := by
  constructor
  · intro heq c hc
    rw [← heq] at hc
    exact hexText_isHex hc
  · exact hexText_hexBytes h

/-! ## Special values are told apart -/

variable {tostring : UInt64 → Bytes} {mem : Mem} {key s rest bs : Bytes} {x : Special} {inc fuel : ℕ} {l : Entries}

theorem signed_eq_iff {n : ℕ} {z : ℤ} : signed n (unsigned n z) = z ↔ -256 ^ n ≤ 2 * z ∧ 2 * z < 256 ^ n := by
  constructor
  · intro h
    have := signed_range (unsigned_lt n z)
    rwa [h] at this
  · rintro ⟨hlo, hhi⟩
    exact signed_unsigned hlo hhi

theorem unsigned_eq_iff {n : ℕ} {z : ℤ} : (unsigned n z : ℤ) = z ↔ 0 ≤ z ∧ z < 256 ^ n := by
  constructor
  · intro h
    have hlt := unsigned_lt n z
    rw [← h]
    exact ⟨Int.natCast_nonneg _, by exact_mod_cast hlt⟩
  · rintro ⟨h0, hlt⟩
    lift z to ℕ using h0
    rw [unsigned_natCast (by exact_mod_cast hlt)]

/-- The options of a regular expression are what is behind the last NUL. -/
theorem splitNul_iff {p o : Bytes} : splitNul (p ++ 0 :: o) = some (p, o) ↔ 0 ∉ o := by
  refine ⟨fun h hmem => ?_, splitNul_append⟩
  unfold splitNul at h
  split at h
  · cases h
  · obtain ⟨-, ho⟩ := Prod.mk.inj (Option.some.inj h)
    rw [← ho, List.mem_reverse] at hmem
    exact absurd (List.mem_takeWhile_imp hmem) (by decide)

theorem ok_typed {name : String} {vs ws : List Value} :
    (.ok ⟨name, vs⟩ : Except Stop Typed) = .ok ⟨name, ws⟩ ↔ vs = ws := by
  rw [Except.ok.injEq, Typed.mk.injEq, and_iff_right rfl]

/-- **`bson.type` returns what a value was made of** if and only if its numbers are in range. -/
theorem ltype_make_iff (h : x.make inc = .ok s) (hinc : inc < 2 ^ 32) :
    ltype (some (.str s)) = .ok (x.typed inc) ↔ x.Kept := by
  cases x with
  | date d =>
    cases h
    have hbuf := ofLe_leBytes (unsigned_lt 4 d.toInt)
    have htype : ltype (some (.str (ldate d))) = .ok ⟨"date", [.int (signed 4 (unsigned 4 d.toInt))]⟩ := by
      rw [← hbuf]
      rfl
    rw [htype, Special.typed, ok_typed]
    simp only [List.cons.injEq, and_true, Value.int.injEq]
    rw [signed_eq_iff, Special.Kept]
    omega
  | timestamp d i =>
    have hd := ofLe_leBytes (unsigned_lt 4 d.toInt)
    have htype : ∀ n < 256 ^ 4, ltype (some (.str (0 :: 17 :: leBytes 4 n ++ leBytes 4 (unsigned 4 d.toInt)))) =
        .ok ⟨"timestamp", [.int (unsigned 4 d.toInt), .int n]⟩ := by
      intro n hn
      have hsub : ltype (some (.str (0 :: 17 :: leBytes 4 n ++ leBytes 4 (unsigned 4 d.toInt)))) =
          lsubtype 17 (leBytes 4 n ++ leBytes 4 (unsigned 4 d.toInt)) := rfl
      rw [hsub, lsubtype, if_neg (by simp), List.drop_left' (leBytes_length 4 n), List.take_left' (leBytes_length 4 n),
        hd, ofLe_leBytes hn]
    cases i with
    | none =>
      cases h
      have hmade : (ltimestamp inc d none).1 = 0 :: 17 :: leBytes 4 inc ++ leBytes 4 (unsigned 4 d.toInt) := rfl
      rw [hmade, htype inc (by omega), Special.typed, ok_typed, Special.Kept]
      simp only [List.cons.injEq, and_true, Value.int.injEq, Option.elim_none, unsigned_eq_iff]
      exact ⟨fun hd => ⟨hd, nofun⟩, fun h => h.1⟩
    | some i =>
      cases h
      have hmade : (ltimestamp inc d (some i)).1 =
          0 :: 17 :: leBytes 4 (unsigned 4 i.toInt) ++ leBytes 4 (unsigned 4 d.toInt) := rfl
      rw [hmade, htype _ (unsigned_lt 4 i.toInt), Special.typed, ok_typed, Special.Kept]
      simp only [List.cons.injEq, and_true, Value.int.injEq, Option.elim_some, unsigned_eq_iff, Option.mem_some_iff,
        forall_eq']
      rfl
  | regex p o =>
    cases h
    have hlast : (p ++ 0 :: o.getD [] ++ [0]).dropLast = p ++ 0 :: o.getD [] := List.dropLast_concat
    have htype : ltype (some (.str (lregex p o))) = lsubtype 11 (p ++ 0 :: o.getD [] ++ [0]) := rfl
    rw [htype, lsubtype, if_neg (by simp), hlast, Special.typed, Special.Kept, ← splitNul_iff (p := p)]
    cases splitNul (p ++ 0 :: o.getD []) with
    | none => exact iff_of_false nofun nofun
    | some r =>
      rw [ok_typed]
      simp [Prod.ext_iff]
  | binary b =>
    cases h
    exact iff_of_true rfl trivial
  | objectid t =>
    change lobjectid t = .ok s at h
    unfold lobjectid at h
    split at h
    · cases h
    · rename_i hlen
      cases h
      have h24 : t.length = 24 := not_not.1 hlen
      show (if (hexBytes t).length ≠ 12 then _ else _) = _ ↔ _
      rw [if_neg (by rw [hexBytes_length, h24]; simp), Special.typed, ok_typed, Special.Kept,
        ← hexText_eq_iff (by rw [h24])]
      simp
  | null =>
    cases h
    exact iff_of_true rfl trivial
  | minkey =>
    cases h
    exact iff_of_true rfl trivial
  | maxkey =>
    cases h
    exact iff_of_true rfl trivial

/-- The string is exact if and only if no NUL is in a regular expression. -/
theorem stringExact_make_iff (h : x.make inc = .ok s) : stringExact rest s ↔ x.Clean := by
  cases x with
  | regex p o =>
    cases h
    show (∃ r1 r2, 0 ∉ r1 ∧ 0 ∉ r2 ∧ p ++ 0 :: o.getD [] ++ [0] = r1 ++ 0 :: r2 ++ [0]) ↔ _
    constructor
    · rintro ⟨r1, r2, h1, h2, heq⟩
      have hcount := congrArg (List.count 0) heq
      simp only [List.count_append, List.count_cons_self, List.count_eq_zero_of_not_mem h1,
        List.count_eq_zero_of_not_mem h2] at hcount
      exact ⟨List.count_eq_zero.1 (by omega), List.count_eq_zero.1 (by omega)⟩
    · rintro ⟨hp, ho⟩
      exact ⟨p, o.getD [], hp, ho, rfl⟩
  | objectid t =>
    change lobjectid t = .ok s at h
    unfold lobjectid at h
    split at h
    · cases h
    · cases h
      exact Iff.rfl
  | binary b =>
    cases h
    exact iff_of_true (List.cons_ne_nil _ _) trivial
  | timestamp d i =>
    cases h
    cases i <;> exact Iff.rfl
  | date d =>
    cases h
    exact Iff.rfl
  | _ =>
    cases h
    exact iff_of_true rfl trivial

/-- **A value of another type comes back as what it was made of**: in a table that is encoded and
    decoded, `bson.type` returns its arguments if and only if these are in range. -/
theorem special_back_iff (he : lencode tostring l = .ok bs) (hm : Holds mem 0 bs) (hf : bs.length ≤ fuel)
    (hp : l.Plain tostring false) (hl : l.last tostring false (.str key) = some (.str s))
    (hx : x.make inc = .ok s) (hinc : inc < 2 ^ 32) :
    (∃ fs w, (ldecode mem fuel).result = .ok (.table fs) ∧ fs.get (.str key) = some w ∧
      ltype (some w) = .ok (x.typed inc)) ↔ x.Kept := by
  obtain ⟨fs, hfs, hr⟩ := ldecode_lencode he hm hf hp
  have hw : fs.get (.str key) = some (.str s) := by
    rw [get_of_back hfs, hl]
    rfl
  rw [← ltype_make_iff hx hinc]
  constructor
  · rintro ⟨fs', w, hr', hw', htype⟩
    rw [hr] at hr'
    cases hr'
    rw [hw] at hw'
    cases hw'
    exact htype
  · intro htype
    exact ⟨fs, _, hr, hw, htype⟩

/-- `{a = bson.date(7)}` -/
def dated : Entries := .cons (.str [97]) (.str (ldate 7)) .nil

theorem special_back_iff_dated :
    (∃ fs w, (ldecode (block [16, 0, 0, 0, 9, 97, 0, 88, 27, 0, 0, 0, 0, 0, 0, 0]) 16).result = .ok (.table fs) ∧
      fs.get (.str [97]) = some w ∧ ltype (some w) = .ok ((Special.date 7).typed 0)) ↔ (Special.date 7).Kept := by
  have he : lencode (fun _ => []) dated = .ok [16, 0, 0, 0, 9, 97, 0, 88, 27, 0, 0, 0, 0, 0, 0, 0] := by
    decide +kernel
  have hx : (Special.date 7).make 0 = .ok (ldate 7) := rfl
  have hexact : stringExact [] (ldate 7) := (stringExact_make_iff hx).2 trivial
  have hp : dated.Plain (fun _ => []) false := ⟨by decide, hexact, trivial⟩
  exact special_back_iff he (holds_block _) le_rfl hp rfl hx (by decide)

/-! ## Object ids of one process -/

/-- The object ids that are made at these times, one after another. -/
def objectids (header : Bytes) : ℕ → List ℕ → List Bytes
  | _, [] => []
  | counter, time :: times =>
    (nextObjectid header time counter).1 :: objectids header (nextObjectid header time counter).2 times

/-- The one that is made after `i` others. -/
theorem getElem_objectids {header : Bytes} {counter i : ℕ} {times : List ℕ} (hc : counter < 2 ^ 32)
    (hi : i < times.length) : (objectids header counter times)[i]? =
      some (nextObjectid header times[i] ((counter + i) % 2 ^ 32)).1 := by
  induction times generalizing counter i with
  | nil => cases hi
  | cons time times ih =>
    cases i with
    | zero =>
      rw [Nat.add_zero, Nat.mod_eq_of_lt hc]
      rfl
    | succ i =>
      have hnext : (counter + 1) % 2 ^ 32 < 2 ^ 32 := Nat.mod_lt _ (by decide)
      rw [objectids, List.getElem?_cons_succ, List.getElem_cons_succ]
      refine (ih hnext (Nat.lt_of_succ_lt_succ hi)).trans ?_
      rw [Nat.mod_add_mod, Nat.add_assoc, Nat.add_comm 1]

theorem ofNat_eq_iff {a b : ℕ} : UInt8.ofNat a = UInt8.ofNat b ↔ a % 256 = b % 256 := by
  rw [← UInt8.toNat_inj, UInt8.toNat_ofNat', UInt8.toNat_ofNat']

theorem nextObjectid_eq_iff {header : Bytes} {time time' c c' : ℕ} :
    (nextObjectid header time c).1 = (nextObjectid header time' c').1 ↔
      time % 2 ^ 32 = time' % 2 ^ 32 ∧ c % 2 ^ 24 = c' % 2 ^ 24 := by
  simp only [nextObjectid, List.cons_append, List.nil_append, List.cons.injEq, true_and,
    List.append_cancel_left_eq, and_true, ofNat_eq_iff, Nat.shiftRight_eq_div_pow]
  omega

/-- **Object ids are unique**: of those that a process makes, two are equal if and only if they are
    made in the same second and their places are apart by a multiple of 2^24. -/
theorem objectids_eq_iff {header : Bytes} {counter i j : ℕ} {times : List ℕ} (hc : counter < 2 ^ 32)
    (hi : i < times.length) (hj : j < times.length) :
    (objectids header counter times)[i]? = (objectids header counter times)[j]? ↔
      times[i] % 2 ^ 32 = times[j] % 2 ^ 32 ∧ i % 2 ^ 24 = j % 2 ^ 24 := by
  rw [getElem_objectids hc hi, getElem_objectids hc hj, Option.some.injEq, nextObjectid_eq_iff]
  refine and_congr_right fun _ => ?_
  omega

theorem objectids_eq_iff_two :
    (objectids [1, 2, 3, 4, 5] 9 [6, 6])[0]? = (objectids [1, 2, 3, 4, 5] 9 [6, 6])[1]? ↔
      [6, 6][0] % 2 ^ 32 = [6, 6][1] % 2 ^ 32 ∧ 0 % 2 ^ 24 = 1 % 2 ^ 24 :=
  objectids_eq_iff (by decide) (by decide) (by decide)

end Levent.Bson
