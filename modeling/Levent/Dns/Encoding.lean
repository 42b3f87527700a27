/-
  DNS messages and their encoding (RFC 1035), with names compressed or not, and
  what `unpack_response` returns for them.

  A compression pointer goes back to an offset at which the bytes already
  written read as the rest of the name (`NameEnc.pointer`).
-/
import Levent.Dns.Layout
import Mathlib.Data.Fin.VecNotation

namespace Levent

open Lib (Lua Ends At toBytes ofBytes)

/-! ## Messages -/

structure Label where
  bytes : List UInt8
  length_pos : 0 < bytes.length
  length_le : bytes.length ≤ 63

def Label.wire (l : Label) : List UInt8 := toBytes 1 l.bytes.length ++ l.bytes

/-- The string that `unpack_name` returns for a name. -/
def dotted (ls : List Label) : List UInt8 := concatDots (ls.map Label.bytes)

/-- The types that `unpack_type` has a function for. -/
def handledTypes : List UInt16 := [1, 16, 28, 33]

/-- What a record says, by its type. -/
inductive Data where
  | a (o : Fin 4 → UInt8)
  | aaaa (w : Fin 8 → UInt16)
  | srv (prio weight port : UInt16) (target : List Label)
  | txt (ss : List (List UInt8)) (h : ∀ s ∈ ss, s.length < 256)
  | other (type : UInt16) (bytes : List UInt8) (h : type ∉ handledTypes)

namespace Data

def qtype : Data → UInt16
  | a _ => 1
  | aaaa _ => 28
  | srv .. => 33
  | txt .. => 16
  | other type _ _ => type

/-- The value of the record on the wire; the target of an SRV record is not
    compressed. -/
def bytes : Data → List UInt8
  | a o => (List.ofFn fun i => (o i).toNat).flatMap (toBytes 1)
  | aaaa w => (List.ofFn fun i => (w i).toNat).flatMap (toBytes 2)
  | srv prio weight port target =>
    toBytes 2 prio.toNat ++ (toBytes 2 weight.toNat ++ (toBytes 2 port.toNat ++
      (target.flatMap Label.wire ++ [0])))
  | txt ss _ => ss.flatMap fun s => toBytes 1 s.length ++ s
  | other _ bytes _ => bytes

/-- The address of an A or AAAA record. -/
def address : Data → Option String
  | a o => some (".".intercalate ((List.ofFn fun i => (o i).toNat).map toString))
  | aaaa w => some (":".intercalate ((List.ofFn fun i => (w i).toNat).map formatX))
  | srv .. | txt .. | other .. => none

/-- The strings of a TXT record that its loop reads: not an empty last one. -/
def strings : List (List UInt8) → List (List UInt8)
  | [] => []
  | [s] => if s = [] then [] else [s]
  | s :: ss => s :: strings ss

/-- The fields that `unpack_type` makes of the value. -/
def fields : Data → Option Rdata
  | srv prio weight port target =>
    some (.srv prio.toNat weight.toNat port.toNat (dotted target))
  | txt ss _ => some (.txt (strings ss))
  | d => d.address.map .address

end Data

structure Record where
  name : List Label
  class_ : UInt16
  ttl : UInt32
  data : Data
  length_lt : data.bytes.length < 256 ^ 2

def Record.raw (r : Record) : RawRecord :=
  ⟨r.name.map Label.bytes, r.data.qtype, r.class_, r.ttl, r.data.bytes, r.length_lt⟩

/-- The entry of a record of the section `sect` with the fields `f`. -/
def Record.ans (r : Record) (sect : ℕ) (f : Rdata) : Ans :=
  ⟨sect, dotted r.name, r.data.qtype.toNat, r.class_.toNat, r.ttl.toNat, f⟩

/-- A response without an error to one question. -/
structure Message where
  tid : UInt16
  flags : UInt16
  qr : flags.toNat &&& 0x8000 ≠ 0
  tc : flags.toNat &&& 0x200 = 0
  rcode : flags.toNat &&& 0xf = 0
  qname : List Label
  qtype : UInt16
  qclass : UInt16
  answer : List Record
  authority : List Record
  additional : List Record
  answer_lt : answer.length < 256 ^ 2
  authority_lt : authority.length < 256 ^ 2
  additional_lt : additional.length < 256 ^ 2

namespace Message

def header (m : Message) : Header :=
  ⟨m.tid, m.flags, 1, .ofNat m.answer.length, .ofNat m.authority.length, .ofNat m.additional.length⟩

/-- The records with their sections, in the order of the message. -/
def records (m : Message) : List (ℕ × Record) :=
  m.answer.map (SECTION.AN, ·) ++ (m.authority.map (SECTION.NS, ·) ++
    m.additional.map (SECTION.AR, ·))

/-- The answers that `unpack_response` makes of the message. -/
def answers (m : Message) : Answers :=
  ⟨m.tid.toNat, 0, dotted m.qname, m.qtype.toNat,
    m.records.filterMap fun r => r.2.data.fields.map (r.2.ans r.1)⟩

end Message

/-! ## The encoding -/

/-- The bytes `bs` encode the name `ls` after the bytes `pre`. -/
inductive NameEnc : List UInt8 → List Label → List UInt8 → Prop
  | root {pre} : NameEnc pre [] [0]
  | label {pre l ls bs} : NameEnc (pre ++ l.wire) ls bs → NameEnc pre (l :: ls) (l.wire ++ bs)
  | pointer {pre ls o j} : o < 0x4000 → NameAt pre o (ls.map Label.bytes) j →
      NameEnc pre ls (toBytes 2 (0xc000 + o))

/-- The bytes `bs` encode the records `rs` after the bytes `pre`. -/
inductive RecordsEnc : List UInt8 → List Record → List UInt8 → Prop
  | nil {pre} : RecordsEnc pre [] []
  | cons {pre r rs name bs} : NameEnc pre r.name name →
      RecordsEnc (pre ++ (name ++ r.raw.tail)) rs bs →
      RecordsEnc pre (r :: rs) (name ++ r.raw.tail ++ bs)

/-- The packet `chunk` encodes the message. -/
def Message.Encodes (m : Message) (chunk : List UInt8) : Prop :=
  ∃ name an ns ar, NameEnc m.header.bytes m.qname name ∧
    let question := m.header.bytes ++ (name ++ (toBytes 2 m.qtype.toNat ++ toBytes 2 m.qclass.toNat))
    RecordsEnc question m.answer an ∧ RecordsEnc (question ++ an) m.authority ns ∧
      RecordsEnc (question ++ an ++ ns) m.additional ar ∧ chunk = question ++ an ++ ns ++ ar

/-! ## Names -/

variable {chunk post : List UInt8}

theorem LabelAt.mono {i : ℕ} {l : List UInt8} (h : LabelAt chunk i l) :
    LabelAt (chunk ++ post) i l := by
  obtain ⟨n, hat, hn⟩ := h
  exact ⟨n, hat.mono, hn⟩

theorem PointsTo.mono {i o : ℕ} (h : PointsTo chunk i o) : PointsTo (chunk ++ post) i o := by
  obtain ⟨hi, lo, hat, ho⟩ := h
  exact ⟨hi, lo, hat.mono, ho⟩

/-- A name stays where it is when bytes are written after it. -/
theorem NameAt.mono {i j : ℕ} {ls : List (List UInt8)} (h : NameAt chunk i ls j) :
    NameAt (chunk ++ post) i ls j := by
  induction h with
  | root h0 => exact .root h0.mono
  | label hl _ ih => exact .label hl.mono ih
  | pointer hp _ ih => exact .pointer hp.mono ih

theorem Label.labelAt (l : Label) {i : ℕ} (h : At chunk i l.wire) : LabelAt chunk i l.bytes := by
  have hle := l.length_le
  have hpos := l.length_pos
  have hto : (UInt8.ofNat l.bytes.length).toNat = l.bytes.length :=
    UInt8.toNat_ofNat_of_lt' (show _ < 256 by omega)
  have htag : ∀ n, n ≤ 63 → ¬ n &&& 0xc0 = 0xc0 := by decide
  refine ⟨.ofNat l.bytes.length, h, ?_, fun h0 => ?_, hto.symm⟩
  · rw [hto]; exact htag _ hle
  · rw [h0] at hto; change 0 = l.bytes.length at hto; omega

theorem pointsTo_of_bytes {i o : ℕ} (ho : o < 0x4000) (h : At chunk i (toBytes 2 (0xc000 + o))) :
    PointsTo chunk i o := by
  have hhi : (UInt8.ofNat ((0xc000 + o) / 256)).toNat = 0xc0 + o / 256 := by
    rw [UInt8.toNat_ofNat']; omega
  have htag : ∀ n, n < 64 → (0xc0 + n) &&& 0xc0 = 0xc0 := by decide
  refine ⟨_, _, h, ?_, ?_⟩
  · rw [hhi]; exact htag _ (by omega)
  · have := Lib.ofBytes_toBytes (n := 2) (k := 0xc000 + o) (by omega)
    rw [show ofBytes [UInt8.ofNat ((0xc000 + o) / 256), UInt8.ofNat (0xc000 + o)] = 0xc000 + o from this]
    have hand := Nat.and_two_pow_sub_one_eq_mod (0xc000 + o) 14
    rw [show 2 ^ 14 - 1 = 0x3fff from rfl] at hand
    rw [hand]; omega

/-- **An encoded name is read back.** -/
theorem NameEnc.nameAt {pre bs : List UInt8} {ls : List Label} (h : NameEnc pre ls bs)
    (post : List UInt8) :
    NameAt (pre ++ (bs ++ post)) pre.length (ls.map Label.bytes) (pre.length + bs.length) := by
  induction h with
  | @root pre => exact .root (At.mid pre [0] post)
  | @label pre l ls bs _ ih =>
    have hl := l.labelAt (Lib.at_append_iff.1 (At.mid pre (l.wire ++ bs) post)).1
    have hlen : l.wire.length = 1 + l.bytes.length := by simp [Label.wire]
    rw [List.length_append, hlen, List.append_assoc] at ih
    rw [List.length_append, hlen]
    have ih' : NameAt (pre ++ (l.wire ++ bs ++ post)) (pre.length + 1 + l.bytes.length)
        (ls.map Label.bytes) (pre.length + (1 + l.bytes.length + bs.length)) := by
      rw [List.append_assoc, show pre.length + 1 + l.bytes.length =
        pre.length + (1 + l.bytes.length) by omega, ← Nat.add_assoc pre.length (1 + _)]
      exact ih
    exact .label hl ih'
  | @pointer pre ls o j ho hat =>
    rw [Lib.toBytes_length]
    exact .pointer (pointsTo_of_bytes ho (At.mid pre _ post)) hat.mono

/-! ## Values -/

/-- A name that is not compressed is an encoding of itself. -/
theorem NameEnc.plain (pre : List UInt8) (ls : List Label) :
    NameEnc pre ls (ls.flatMap Label.wire ++ [0]) := by
  induction ls generalizing pre with
  | nil => exact .root
  | cons l ls ih =>
    rw [List.flatMap_cons, List.append_assoc]
    exact .label (ih _)

/-- The strings of a TXT value are at each of their offsets. -/
theorem stringsAt_strings {ss : List (List UInt8)} (hss : ∀ s ∈ ss, s.length < 256) (pre : List UInt8) :
    StringsAt (pre ++ ss.flatMap fun s => toBytes 1 s.length ++ s) pre.length (Data.strings ss) := by
  induction ss generalizing pre with
  | nil => exact .done (by simp)
  | cons s ss ih =>
    have hs := hss s List.mem_cons_self
    have hat := At.mid pre (toBytes 1 s.length ++ s) (ss.flatMap fun s => toBytes 1 s.length ++ s)
    have hrest := ih (fun t ht => hss t (List.mem_cons_of_mem _ ht)) (pre ++ (toBytes 1 s.length ++ s))
    rw [List.append_assoc, List.length_append, List.length_append, Lib.toBytes_length,
      ← Nat.add_assoc] at hrest
    rw [List.flatMap_cons]
    have hstring : ¬ (ss = [] ∧ s = []) → StringsAt
        (pre ++ ((toBytes 1 s.length ++ s) ++ ss.flatMap fun s => toBytes 1 s.length ++ s))
        pre.length (s :: Data.strings ss) := fun hne => by
      refine .string ?_ hs hat hrest
      simp only [List.length_append, Lib.toBytes_length]
      rcases List.eq_nil_or_concat ss with rfl | ⟨ss', t, rfl⟩
      · have := List.length_pos_iff.2 fun h => hne ⟨rfl, h⟩
        omega
      · simp only [List.concat_eq_append, List.flatMap_append, List.length_append,
          List.flatMap_singleton, Lib.toBytes_length]
        omega
    cases ss with
    | nil =>
      rw [Data.strings]
      split
      · rename_i h0
        subst h0
        exact .done (by simp)
      · rename_i h0
        exact hstring fun h => h0 h.2
    | cons t ss => exact hstring fun h => by cases h.1

/-- **`unpack_type` returns the fields of a value**, given enough rounds. -/
theorem Data.reads (d : Data) : ∃ n₀, ∀ n, n₀ ≤ n →
    unpackType d.bytes n d.qtype.toNat = d.fields.map fun f => .ok (.ok f) := by
  cases d with
  | a o =>
    refine ⟨0, fun n _ => ?_⟩
    have h := unpackA_words (List.ofFn fun i => (o i).toNat) (by simp) (by
      simp only [List.mem_ofFn]; rintro _ ⟨i, rfl⟩; exact (o i).toNat_lt)
    exact congrArg some h
  | aaaa w =>
    refine ⟨0, fun n _ => ?_⟩
    have h := unpackAAAA_words (List.ofFn fun i => (w i).toNat) (by simp) (by
      simp only [List.mem_ofFn]; rintro _ ⟨i, rfl⟩; exact (w i).toNat_lt)
    exact congrArg some h
  | srv prio weight port target =>
    have hat := (NameEnc.plain (toBytes 2 prio.toNat ++ (toBytes 2 weight.toNat ++
      toBytes 2 port.toNat)) target).nameAt []
    simp only [List.append_nil, List.append_assoc, List.length_append, Lib.toBytes_length] at hat
    obtain ⟨n₀, hn₀⟩ := unpackName_at hat
    refine ⟨n₀, fun n hn => congrArg some ?_⟩
    have hlen : ¬ (Data.srv prio weight port target).bytes.length < 7 := by
      simp only [Data.bytes, List.length_append, Lib.toBytes_length, List.length_singleton]
      omega
    have hb := At.self (Data.srv prio weight port target).bytes
    have hb' := hb
    rw [Data.bytes] at hb'
    obtain ⟨h1, hb'⟩ := Lib.at_append_iff.1 hb'
    obtain ⟨h2, hb'⟩ := Lib.at_append_iff.1 hb'
    obtain ⟨h3, -⟩ := Lib.at_append_iff.1 hb'
    simp only [Lib.toBytes_length] at h1 h2 h3
    rw [unpackSRV, if_neg hlen, Data.bytes, show (1 : ℤ) = (0 : ℕ) + 1 from rfl,
      Lib.unpackI_toBytes prio.toNat_lt Nat.two_pos h1]
    simp only [bind, Except.bind]
    rw [Lib.unpackI_toBytes weight.toNat_lt Nat.two_pos h2]
    simp only
    rw [Lib.unpackI_toBytes port.toNat_lt Nat.two_pos h3]
    simp only
    rw [show 0 + 2 + 2 + 2 = 2 + (2 + 2) from rfl, hn₀ n hn]
    rfl
  | txt ss hss =>
    refine ⟨0, fun n _ => congrArg some ?_⟩
    have hread := unpackStrings_at (stringsAt_strings hss [])
      (n := (Data.txt ss hss).bytes.length + 1) (by simp [Data.bytes]) (by omega)
    rw [unpackTXT]
    change (unpackStrings (Data.txt ss hss).bytes _ ((([] : List UInt8).length : ℕ) + 1) >>= _) = _
    rw [List.nil_append] at hread
    rw [show (Data.txt ss hss).bytes = ss.flatMap fun s => toBytes 1 s.length ++ s from rfl] at hread ⊢
    rw [hread]
    rfl
  | other type bytes h =>
    refine ⟨0, fun n _ => ?_⟩
    have hne : ∀ q ∈ handledTypes, type.toNat ≠ q.toNat := fun q hq heq =>
      h (UInt16.toNat_inj.1 heq ▸ hq)
    rw [unpackType, Data.qtype, if_neg (show _ ≠ QTYPE.A from hne 1 (by decide)),
      if_neg (show _ ≠ QTYPE.AAAA from hne 28 (by decide)),
      if_neg (show _ ≠ QTYPE.SRV from hne 33 (by decide)),
      if_neg (show _ ≠ QTYPE.TXT from hne 16 (by decide))]
    rfl

/-! ## Sections -/

/-- The entries of the records of a section. -/
def sectionAns (sect : ℕ) (rs : List Record) : List Ans :=
  rs.filterMap fun r => r.data.fields.map (r.ans sect)

/-- **An encoded section is read back**, given enough rounds. -/
theorem RecordsEnc.reads {pre bs : List UInt8} {rs : List Record} (h : RecordsEnc pre rs bs)
    (post : List UInt8) (sect : ℕ) : ∃ n₀, ∀ n, n₀ ≤ n → ∀ answers,
      unpackSection (pre ++ (bs ++ post)) n sect rs.length answers (pre.length + 1) =
        .ok (.ok (answers ++ sectionAns sect rs, ((pre.length + bs.length : ℕ) : ℤ) + 1)) := by
  induction h with
  | @nil pre => exact ⟨0, fun n _ answers => by simp [unpackSection, sectionAns]⟩
  | @cons pre r rs name bs hname _ ih =>
    obtain ⟨n₁, h1⟩ := ih
    obtain ⟨n₂, h2⟩ := r.data.reads
    have hnameAt := hname.nameAt (r.raw.tail ++ (bs ++ post))
    obtain ⟨n₃, h3⟩ := unpackName_at hnameAt
    refine ⟨max n₁ (max n₂ n₃), fun n hn answers => ?_⟩
    have h1 := h1 n (by omega)
    have h2 := h2 n (by omega)
    have h3 := h3 n (by omega)
    have htail := At.mid (pre ++ name) r.raw.tail (bs ++ post)
    rw [List.append_assoc, List.length_append] at htail
    have hrec : RecordAt (pre ++ (name ++ (r.raw.tail ++ (bs ++ post)))) pre.length r.raw
        (pre ++ (name ++ r.raw.tail)).length :=
      ⟨_, hnameAt, htail, by simp only [List.length_append]; omega⟩
    have hrest : ∀ answers, unpackSection (pre ++ (name ++ (r.raw.tail ++ (bs ++ post)))) n sect
        rs.length answers ((pre ++ (name ++ r.raw.tail)).length + 1) =
        .ok (.ok (answers ++ sectionAns sect rs,
          ((pre.length + (name ++ r.raw.tail ++ bs).length : ℕ) : ℤ) + 1)) := fun answers => by
      have := h1 answers
      simp only [List.append_assoc] at this ⊢
      rw [this]
      congr 4
      simp only [List.length_append]
      omega
    simp only [List.append_assoc] at hrest ⊢
    rw [List.length_cons, unpackSection_record hrec (by rw [h3]; exact .ok _)]
    have h2' : unpackType r.raw.rdata n r.raw.qtype.toNat = r.data.fields.map fun f => .ok (.ok f) := h2
    rw [h2']
    cases hf : r.data.fields with
    | none =>
      have hskip : sectionAns sect (r :: rs) = sectionAns sect rs := by simp [sectionAns, hf]
      rw [hskip]
      exact hrest answers
    | some f =>
      have hcons : sectionAns sect (r :: rs) = r.ans sect f :: sectionAns sect rs := by
        simp [sectionAns, hf]
      rw [hcons]
      refine (hrest (answers ++ [r.ans sect f])).trans ?_
      rw [List.append_assoc]
      rfl

/-! ## Responses -/

theorem Header.bytes_length (h : Header) : h.bytes.length = DNS_HEADER_LEN := by
  simp only [Header.bytes, List.length_append, Lib.toBytes_length]; rfl

theorem Message.header_error (m : Message) : m.header.error = none := by
  change headerError m.flags.toNat 1 = none
  rw [headerError, if_neg m.qr, if_neg (not_not.2 m.tc), if_neg (not_not.2 m.rcode),
    if_neg (not_not.2 rfl)]

theorem Message.header_counts (m : Message) :
    m.header.ancount.toNat = m.answer.length ∧ m.header.nscount.toNat = m.authority.length ∧
      m.header.arcount.toNat = m.additional.length :=
  ⟨UInt16.toNat_ofNat_of_lt' m.answer_lt, UInt16.toNat_ofNat_of_lt' m.authority_lt,
    UInt16.toNat_ofNat_of_lt' m.additional_lt⟩

theorem unpackSections_cons {n sect count : ℕ} {sections : List (ℕ × ℕ)} {answers as : List Ans}
    {left left' : ℤ} (h : unpackSection chunk n sect count answers left = .ok (.ok (as, left'))) :
    unpackSections chunk n ((sect, count) :: sections) answers left =
      unpackSections chunk n sections as left' := by
  rw [unpackSections, h]
  rfl

theorem Message.answers_records (m : Message) : m.answers.records =
    sectionAns SECTION.AN m.answer ++ sectionAns SECTION.NS m.authority ++
      sectionAns SECTION.AR m.additional := by
  simp only [Message.answers, Message.records, sectionAns, List.filterMap_append,
    List.filterMap_map, List.append_assoc]
  rfl

/-- **`unpack_response` inverts the encoding**, given enough rounds. -/
theorem Message.Encodes.reads {m : Message} {chunk : List UInt8} (h : m.Encodes chunk) :
    ∃ n₀, ∀ n, n₀ ≤ n → unpackResponse chunk n = .ok (.ok m.answers) := by
  obtain ⟨name, an, ns, ar, hname, han, hns, har, rfl⟩ := h
  set q := toBytes 2 m.qtype.toNat ++ toBytes 2 m.qclass.toNat with hq
  obtain ⟨n₀, h0⟩ := unpackName_at (hname.nameAt (q ++ (an ++ (ns ++ ar))))
  obtain ⟨n₁, h1⟩ := han.reads (ns ++ ar) SECTION.AN
  obtain ⟨n₂, h2⟩ := hns.reads ar SECTION.NS
  obtain ⟨n₃, h3⟩ := har.reads [] SECTION.AR
  refine ⟨max (max n₀ n₁) (max n₂ n₃), fun n hn => ?_⟩
  have h0 := h0 n (by omega)
  have h1 := h1 n (by omega)
  have h2 := h2 n (by omega)
  have h3 := h3 n (by omega)
  have hqat := At.mid (m.header.bytes ++ name) q (an ++ (ns ++ ar))
  rw [hq] at hqat
  obtain ⟨hqt, hqc⟩ := Lib.at_append_iff.1 hqat
  have hheader := At.mid [] m.header.bytes (name ++ (q ++ (an ++ (ns ++ ar))))
  simp only [List.append_assoc, List.append_nil, List.nil_append, Header.bytes_length,
    List.length_append, Lib.toBytes_length, hq, Nat.add_assoc] at *
  rw [unpackResponse_header hheader, unpackBody, m.header_error]
  simp only
  rw [h0]
  simp only [bind, Except.bind]
  rw [Lib.unpackI_toBytes m.qtype.toNat_lt Nat.two_pos hqt]
  simp only [Nat.add_assoc]
  rw [Lib.unpackI_toBytes m.qclass.toNat_lt Nat.two_pos hqc]
  simp only [m.header_counts, Nat.add_assoc]
  rw [unpackSections_cons (h1 []), unpackSections_cons (h2 _), unpackSections_cons (h3 _)]
  have hrec := m.answers_records
  simp only [unpackSections, List.nil_append, ← hrec]
  exact congrArg (fun c => Except.ok (Except.ok (⟨m.tid.toNat, c, _, _, _⟩ : Answers))) m.rcode

/-! ## Addresses -/

/-- A record of type A or AAAA, or of a type without a function in `unpack_type`. -/
def Data.Plain : Data → Prop
  | srv .. | txt .. => False
  | a _ | aaaa _ | other .. => True

instance : DecidablePred Data.Plain := fun d => by
  cases d <;> first | exact isTrue trivial | exact isFalse id

/-- The A and AAAA records of a message with their sections, in the order of the
    message. -/
def Message.addressRecords (m : Message) : List Ans :=
  m.records.filterMap fun r => r.2.data.address.map fun s => r.2.ans r.1 (.address s)

/-- **`unpack_response` returns exactly the A and AAAA records** of a message
    without SRV and TXT records. -/
theorem unpackResponse_inverts {m : Message} {chunk : List UInt8}
    (hplain : ∀ r ∈ m.records, r.2.data.Plain) (h : m.Encodes chunk) :
    ∃ n₀, ∀ n, n₀ ≤ n → unpackResponse chunk n =
      .ok (.ok ⟨m.tid.toNat, 0, dotted m.qname, m.qtype.toNat, m.addressRecords⟩) := by
  obtain ⟨n₀, h⟩ := h.reads
  have hfields : m.answers.records = m.addressRecords := by
    refine List.filterMap_congr fun r hr => ?_
    have hp := hplain r hr
    cases hd : r.2.data with
    | a o => rfl
    | aaaa w => rfl
    | other type bytes hb => rfl
    | srv | txt => rw [hd] at hp; exact hp.elim
  rw [← hfields]
  exact ⟨n₀, h⟩

/-- The label `a`. -/
def labelA : Label := ⟨[97], by decide, by decide⟩

/-- The address of `a`. -/
def recordA : Record := ⟨[labelA], 1, 60, .a ![192, 0, 2, 1], by decide⟩

/-- A response with a CNAME record before the A record, and an AAAA record in
    the additional section; its names are pointers to that of the question. -/
def aliasMessage : Message where
  tid := 1
  flags := 0x8180
  qr := by decide
  tc := by decide
  rcode := by decide
  qname := [labelA]
  qtype := 1
  qclass := 1
  answer := [⟨[labelA], 1, 60, .other 5 [1, 97, 0] (by decide), by decide⟩, recordA]
  authority := []
  additional := [⟨[labelA], 1, 60, .aaaa ![0x2001, 0xdb8, 0, 0, 0, 0, 0, 1], by decide⟩]
  answer_lt := by decide
  authority_lt := by decide
  additional_lt := by decide

/-- Its packet. -/
def aliasPacket : List UInt8 :=
  [0, 1, 0x81, 0x80, 0, 1, 0, 2, 0, 0, 0, 1] ++ [1, 97, 0, 0, 1, 0, 1] ++
    [0xc0, 12, 0, 5, 0, 1, 0, 0, 0, 60, 0, 3, 1, 97, 0] ++
    [0xc0, 12, 0, 1, 0, 1, 0, 0, 0, 60, 0, 4, 192, 0, 2, 1] ++
    [0xc0, 12, 0, 28, 0, 1, 0, 0, 0, 60, 0, 16, 0x20, 1, 0xd, 0xb8, 0, 0, 0, 0, 0, 0, 0, 0, 0, 0, 0, 1]

theorem aliasMessage_encodes : aliasMessage.Encodes aliasPacket := by
  have hname : ∀ pre : List UInt8, At pre 12 [1, 97] → At pre 14 [0] →
      NameEnc pre [labelA] [0xc0, 12] := fun pre h1 h0 =>
    .pointer (o := 12) (by decide) (.label ⟨1, h1, by decide, by decide, rfl⟩ (.root h0))
  exact ⟨[1, 97, 0], _, _, _, .label .root, .cons (hname _ (by decide) (by decide))
    (.cons (hname _ (by decide) (by decide)) .nil), .nil,
    .cons (hname _ (by decide) (by decide)) .nil, by decide⟩

theorem unpackResponse_inverts_alias :
    aliasMessage.addressRecords =
      [⟨1, [97], 1, 1, 60, .address "192.0.2.1"⟩, ⟨3, [97], 28, 1, 60, .address "2001:db8:0:0:0:0:0:1"⟩] ∧
    ∃ n₀, ∀ n, n₀ ≤ n → unpackResponse aliasPacket n =
      .ok (.ok ⟨1, 0, [97], 1, aliasMessage.addressRecords⟩) :=
  ⟨by decide, unpackResponse_inverts (by decide) aliasMessage_encodes⟩

end Levent
