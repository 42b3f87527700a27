/-
  Where the parts of a response are, and that `unpack_response` does not raise
  exactly if they are there: the question and the records that the header
  counts lie in the packet, and the values of the records in their `rdata`.
-/
import Levent.Dns.Response

namespace Levent

open Lib (Lua Ends At toBytes unpackI unpackS)

/-! ## Records and headers on the wire -/

/-- A record as it is on the wire. -/
structure RawRecord where
  name : List (List UInt8)
  qtype : UInt16
  class_ : UInt16
  ttl : UInt32
  rdata : List UInt8
  rdata_lt : rdata.length < 256 ^ 2

/-- The bytes of a record after its name. -/
def RawRecord.tail (r : RawRecord) : List UInt8 :=
  toBytes 2 r.qtype.toNat ++ (toBytes 2 r.class_.toNat ++ (toBytes 4 r.ttl.toNat ++
    (toBytes 2 r.rdata.length ++ r.rdata)))

theorem RawRecord.tail_length (r : RawRecord) : r.tail.length = 10 + r.rdata.length := by
  simp only [RawRecord.tail, List.length_append, Lib.toBytes_length]; omega

structure Header where
  tid : UInt16
  flags : UInt16
  qdcount : UInt16
  ancount : UInt16
  nscount : UInt16
  arcount : UInt16

/-- `pack(">HHHHHH", …)` -/
def Header.bytes (h : Header) : List UInt8 :=
  toBytes 2 h.tid.toNat ++ (toBytes 2 h.flags.toNat ++ (toBytes 2 h.qdcount.toNat ++
    (toBytes 2 h.ancount.toNat ++ (toBytes 2 h.nscount.toNat ++ toBytes 2 h.arcount.toNat))))

/-- Why a response is refused for its header, if it is. -/
def Header.error (h : Header) : Option DnsError := headerError h.flags.toNat h.qdcount.toNat

variable (chunk : List UInt8)

/-- The record `r` is at the offset `i`, and `j` is the offset after it. -/
def RecordAt (i : ℕ) (r : RawRecord) (j : ℕ) : Prop :=
  ∃ k, NameAt chunk i r.name k ∧ At chunk k r.tail ∧ j = k + r.tail.length

/-! ## Values -/

/-- The strings `ss` are at the offset `i` of the value of a TXT record: a last
    byte alone is not read. -/
inductive StringsAt (rdata : List UInt8) : ℕ → List (List UInt8) → Prop
  | done {i} : rdata.length ≤ i + 1 → StringsAt rdata i []
  | string {i s ss} : i + 1 < rdata.length → s.length < 256 → At rdata i (toBytes 1 s.length ++ s) →
      StringsAt rdata (i + 1 + s.length) ss → StringsAt rdata i (s :: ss)

/-- The value has not the length of its type. -/
def BadLength (qtype : ℕ) (rdata : List UInt8) : Prop :=
  (qtype = QTYPE.A ∧ rdata.length ≠ 4) ∨ (qtype = QTYPE.AAAA ∧ rdata.length ≠ 16) ∨
    (qtype = QTYPE.SRV ∧ rdata.length < 7)

/-- The target of an SRV record and the strings of a TXT record lie in the value. -/
def ValueLies (qtype : ℕ) (rdata : List UInt8) : Prop :=
  (qtype = QTYPE.SRV → ∃ ls j, NameAt rdata 6 ls j) ∧
    (qtype = QTYPE.TXT → ∃ ss, StringsAt rdata 0 ss)

/-! ## Sections -/

/-- From the offset `i` on are `count` records, up to the offset `j`; or with
    `none`, records up to one of a bad length. -/
inductive SectionAt : ℕ → ℕ → Option ℕ → Prop
  | done {i} : SectionAt 0 i (some i)
  | record {count i r k j} : RecordAt chunk i r k → ¬ BadLength r.qtype.toNat r.rdata →
      ValueLies r.qtype.toNat r.rdata → SectionAt count k j → SectionAt (count + 1) i j
  | bad {count i r k} : RecordAt chunk i r k → BadLength r.qtype.toNat r.rdata →
      SectionAt (count + 1) i none

/-- From the offset `i` on are sections of as many records, or records up to
    one of a bad length. -/
inductive SectionsAt : List ℕ → ℕ → Prop
  | nil {i} : SectionsAt [] i
  | cons {count counts i j} : SectionAt chunk count i (some j) → SectionsAt counts j →
      SectionsAt (count :: counts) i
  | bad {count counts i} : SectionAt chunk count i none → SectionsAt (count :: counts) i

/-- The parts of the response lie in the packet, as far as its header and the
    lengths of its values ask for them. -/
def ResponseLies : Prop :=
  chunk.length < DNS_HEADER_LEN ∨ ∃ h : Header, At chunk 0 h.bytes ∧
    (h.error = none → ∃ ls k, NameAt chunk DNS_HEADER_LEN ls k ∧ k + 4 ≤ chunk.length ∧
      SectionsAt chunk [h.ancount.toNat, h.nscount.toNat, h.arcount.toNat] (k + 4))

variable {chunk}

/-! ## Reading the values -/

theorem unpackIs_at {n : ℕ} (hn : 0 < n) (xs : List ℕ) (hxs : ∀ x ∈ xs, x < 256 ^ n) {i : ℕ}
    (h : At chunk i (xs.flatMap (toBytes n))) :
    unpackIs chunk n xs.length (i + 1) = .ok (xs, (i + n * xs.length : ℕ) + 1) := by
  induction xs generalizing i with
  | nil => simp [unpackIs]
  | cons x xs ih =>
    rw [List.flatMap_cons, Lib.at_append_iff, Lib.toBytes_length] at h
    have ih := ih (fun y hy => hxs y (List.mem_cons_of_mem _ hy)) h.2
    rw [List.length_cons, unpackIs, Lib.unpackI_toBytes (hxs x List.mem_cons_self) hn h.1]
    simp only [bind, Except.bind]
    rw [ih]
    simp only [Nat.mul_add, Nat.mul_one]
    congr 3
    omega

/-- A string of `n * k` bytes is one of `k` numbers. -/
theorem exists_words (n : ℕ) (hn : 0 < n) : ∀ (k : ℕ) (bs : List UInt8), bs.length = n * k →
    ∃ xs : List ℕ, xs.length = k ∧ (∀ x ∈ xs, x < 256 ^ n) ∧ bs = xs.flatMap (toBytes n)
  | 0, bs, h => ⟨[], rfl, by simp, List.length_eq_zero_iff.1 h⟩
  | k + 1, bs, h => by
    have hlen : (bs.take n).length = n := by rw [List.length_take, h]; exact Nat.min_eq_left (Nat.le_mul_of_pos_right n k.succ_pos)
    obtain ⟨xs, hk, hxs, hbs⟩ := exists_words n hn k (bs.drop n) (by
      rw [List.length_drop, h, Nat.mul_succ]; omega)
    refine ⟨Lib.ofBytes (bs.take n) :: xs, by rw [List.length_cons, hk], ?_, ?_⟩
    · intro x hx
      rcases List.mem_cons.1 hx with rfl | hx
      · have := Lib.ofBytes_lt (bs.take n)
        rwa [hlen] at this
      · exact hxs x hx
    · have := Lib.toBytes_ofBytes (bs.take n)
      rw [hlen] at this
      rw [List.flatMap_cons, this, ← hbs, List.take_append_drop]

theorem unpackA_words (xs : List ℕ) (hk : xs.length = 4) (hxs : ∀ x ∈ xs, x < 256 ^ 1) :
    unpackA (xs.flatMap (toBytes 1)) = .ok (.ok (.address (".".intercalate (xs.map toString)))) := by
  have hread := unpackIs_at (i := 0) Nat.one_pos xs hxs (At.self (xs.flatMap _))
  rw [hk] at hread
  rw [unpackA, if_neg (by simp [hk]), show (1 : ℤ) = (0 : ℕ) + 1 from rfl, hread]
  rfl

theorem unpackAAAA_words (xs : List ℕ) (hk : xs.length = 8) (hxs : ∀ x ∈ xs, x < 256 ^ 2) :
    unpackAAAA (xs.flatMap (toBytes 2)) =
      .ok (.ok (.address (":".intercalate (xs.map formatX)))) := by
  have hread := unpackIs_at (i := 0) Nat.two_pos xs hxs (At.self (xs.flatMap _))
  rw [hk] at hread
  rw [unpackAAAA, if_neg (by simp [hk]), show (1 : ℤ) = (0 : ℕ) + 1 from rfl, hread]
  rfl

/-- A value of seven bytes is read up to the target of the SRV record. -/
theorem unpackSRV_eq (h : ¬ chunk.length < 7) (n : ℕ) : ∃ p w o : ℕ,
    unpackSRV chunk n =
      (unpackName chunk ((6 : ℕ) + 1) n).map fun r => .ok (.srv p w o r.1) := by
  obtain ⟨p, h1⟩ := Lib.unpackI_some (show 0 + 2 ≤ chunk.length by omega)
  obtain ⟨w, h2⟩ := Lib.unpackI_some (show 2 + 2 ≤ chunk.length by omega)
  obtain ⟨o, h3⟩ := Lib.unpackI_some (show 4 + 2 ≤ chunk.length by omega)
  refine ⟨p, w, o, ?_⟩
  rw [unpackSRV, if_neg h, show (1 : ℤ) = (0 : ℕ) + 1 from rfl, h1]
  simp only [bind, Except.bind]
  rw [h2]
  simp only
  rw [h3]
  cases unpackName chunk ((6 : ℕ) + 1) n <;> rfl

theorem unpackStrings_at {i : ℕ} {ss : List (List UInt8)} (h : StringsAt chunk i ss) {n : ℕ}
    (hn : chunk.length ≤ n + i) (h0 : 0 < n) : unpackStrings chunk n (i + 1) = .ok ss := by
  induction h generalizing n with
  | @done i hle =>
    obtain ⟨n, rfl⟩ := Nat.exists_eq_add_of_le' h0
    rw [unpackStrings, if_neg (by omega)]
  | @string i s ss hlt hs hat _ ih =>
    obtain ⟨n, rfl⟩ := Nat.exists_eq_add_of_le' h0
    rw [unpackStrings, if_pos (by omega), Lib.unpackS_toBytes hs Nat.one_pos hat]
    simp only [bind, Except.bind]
    rw [ih (by omega) (by omega)]

theorem unpackStrings_ok {n i : ℕ} {ss : List (List UInt8)}
    (h : unpackStrings chunk n (i + 1) = .ok ss) : StringsAt chunk i ss := by
  induction n generalizing i ss with
  | zero => cases h
  | succ n ih =>
    rw [unpackStrings] at h
    split at h
    · rename_i hlt
      obtain ⟨⟨s, left⟩, hS, h⟩ := Lib.bind_eq_ok.1 h
      obtain ⟨hs, hat, -, rfl⟩ := Lib.unpackS_succ hS
      obtain ⟨t, ht, h⟩ := Lib.bind_eq_ok.1 h
      obtain rfl := Except.ok.inj h
      exact .string (by omega) hs hat (ih ht)
    · rename_i hlt
      obtain rfl := Except.ok.inj h
      exact .done (by omega)

/-- The loop over the strings of a TXT value has rounds enough. -/
theorem unpackStrings_ends {n i : ℕ} (hn : chunk.length ≤ n + i) (h0 : 0 < n) :
    Ends (unpackStrings chunk n (i + 1)) := by
  induction n generalizing i with
  | zero => omega
  | succ n ih =>
    rw [unpackStrings]
    split
    · rename_i hlt
      refine Lib.unpackS_ends.bind fun ⟨s, left⟩ hS => ?_
      obtain ⟨-, -, -, rfl⟩ := Lib.unpackS_succ hS
      exact (ih (by omega) (by omega)).bind fun _ _ => .ok _
    · exact .ok _

/-- `unpack_txt` comes to an end on every value. -/
theorem unpackTXT_ends : Ends (unpackTXT chunk) :=
  (unpackStrings_ends (i := 0) (by omega) (by omega)).bind fun _ _ => .ok _

/-- **What `unpack_type` makes of a value**: an error if the value has not the
    length of its type, else its fields if they lie in the value. -/
theorem unpackType_reads {qtype n : ℕ} {rdata : List UInt8} {x : Lua (Except DnsError Rdata)}
    (hx : unpackType rdata n qtype = some x) :
    (BadLength qtype rdata ∧ ∃ e, x = .ok (.error e)) ∨
      (¬ BadLength qtype rdata ∧ (Ends x → ValueLies qtype rdata → ∃ a, x = .ok (.ok a)) ∧
        ∀ v, x = .ok v → ValueLies qtype rdata ∧ ∃ a, v = .ok a) := by
  unfold unpackType at hx
  unfold BadLength ValueLies
  split at hx
  · -- an A record
    rename_i hq
    obtain rfl := Option.some.inj hx
    subst hq
    by_cases hlen : rdata.length = 4
    · obtain ⟨xs, hk, hxs, rfl⟩ := exists_words 1 Nat.one_pos 4 rdata hlen
      rw [unpackA_words xs hk hxs]
      refine .inr ⟨by simp [hlen, QTYPE.A, QTYPE.AAAA, QTYPE.SRV], fun _ _ => ⟨_, rfl⟩, fun v hv => ?_⟩
      obtain rfl := Except.ok.inj hv
      exact ⟨⟨by simp [QTYPE.A, QTYPE.SRV], by simp [QTYPE.A, QTYPE.TXT]⟩, _, rfl⟩
    · exact .inl ⟨.inl ⟨rfl, hlen⟩, _, by rw [unpackA, if_pos hlen]⟩
  split at hx
  · -- an AAAA record
    rename_i hq
    obtain rfl := Option.some.inj hx
    subst hq
    by_cases hlen : rdata.length = 16
    · obtain ⟨xs, hk, hxs, rfl⟩ := exists_words 2 Nat.two_pos 8 rdata hlen
      rw [unpackAAAA_words xs hk hxs]
      refine .inr ⟨by simp [hlen, QTYPE.A, QTYPE.AAAA, QTYPE.SRV], fun _ _ => ⟨_, rfl⟩, fun v hv => ?_⟩
      obtain rfl := Except.ok.inj hv
      exact ⟨⟨by simp [QTYPE.AAAA, QTYPE.SRV], by simp [QTYPE.AAAA, QTYPE.TXT]⟩, _, rfl⟩
    · exact .inl ⟨.inr (.inl ⟨rfl, hlen⟩), _, by rw [unpackAAAA, if_pos hlen]⟩
  split at hx
  · -- an SRV record
    rename_i hq
    obtain rfl := Option.some.inj hx
    subst hq
    by_cases hlen : rdata.length < 7
    · exact .inl ⟨.inr (.inr ⟨rfl, hlen⟩), _, by rw [unpackSRV, if_pos hlen]⟩
    · obtain ⟨p, w, o, heq⟩ := unpackSRV_eq hlen n
      rw [heq]
      refine .inr ⟨by simp [hlen, QTYPE.A, QTYPE.AAAA, QTYPE.SRV], fun hends hv => ?_, fun v hv => ?_⟩
      · obtain ⟨ls, j, hat⟩ := hv.1 rfl
        have hname : Ends (unpackName rdata ((6 : ℕ) + 1) n) := fun h => hends (by rw [h]; rfl)
        rw [unpackName_eq hat hname]
        exact ⟨_, rfl⟩
      · cases hname : unpackName rdata ((6 : ℕ) + 1) n with
        | error e => rw [hname] at hv; cases hv
        | ok r =>
          rw [hname] at hv
          obtain rfl := Except.ok.inj hv
          obtain ⟨ls, j, hat, -⟩ := unpackName_ok hname
          exact ⟨⟨fun _ => ⟨ls, j, hat⟩, by simp [QTYPE.SRV, QTYPE.TXT]⟩, _, rfl⟩
  split at hx
  · -- a TXT record
    rename_i hq
    obtain rfl := Option.some.inj hx
    subst hq
    refine .inr ⟨by simp [QTYPE.TXT, QTYPE.A, QTYPE.AAAA, QTYPE.SRV], fun _ hv => ?_, fun v hv => ?_⟩
    · obtain ⟨ss, hss⟩ := hv.2 rfl
      have hread := unpackStrings_at hss (n := rdata.length + 1) (by omega) (by omega)
      refine ⟨.txt ss, ?_⟩
      rw [unpackTXT, show (1 : ℤ) = (0 : ℕ) + 1 from rfl, hread]
      rfl
    · obtain ⟨ss, hss, hv⟩ := Lib.bind_eq_ok.1 hv
      obtain rfl := Except.ok.inj hv
      exact ⟨⟨by simp [QTYPE.TXT, QTYPE.SRV], fun _ => ⟨ss, unpackStrings_ok (i := 0) hss⟩⟩, _, rfl⟩
  · cases hx

/-- A type that `unpack_type` does not have asks for nothing of its value. -/
theorem unpackType_none {qtype n : ℕ} {rdata : List UInt8} (hx : unpackType rdata n qtype = none) :
    ¬ BadLength qtype rdata ∧ ValueLies qtype rdata := by
  unfold unpackType at hx
  unfold BadLength ValueLies
  split at hx
  · cases hx
  split at hx
  · cases hx
  split at hx
  · cases hx
  split at hx
  · cases hx
  · rename_i h1 h2 h3 h4
    exact ⟨by simp [h1, h2, h3], fun h => absurd h h3, fun h => absurd h h4⟩

/-! ## Reading a record -/

section
variable {n sect count i : ℕ} {answers : List Ans}

/-- A record that is at the offset is read, and its value by its type. -/
theorem unpackSection_record {r : RawRecord} {j : ℕ} (hr : RecordAt chunk i r j)
    (hends : Ends (unpackName chunk (i + 1) n)) :
    unpackSection chunk n sect (count + 1) answers (i + 1) =
      match unpackType r.rdata n r.qtype.toNat with
      | none => unpackSection chunk n sect count answers (j + 1)
      | some x => x >>= fun
        | .error err => .ok (.error err)
        | .ok fields => unpackSection chunk n sect count (answers ++
            [⟨sect, concatDots r.name, r.qtype.toNat, r.class_.toNat, r.ttl.toNat, fields⟩])
            (j + 1) := by
  obtain ⟨k, hname, hat, hend⟩ := hr
  have hj : j = k + 2 + 2 + 4 + 2 + r.rdata.length := by
    rw [hend, RawRecord.tail_length]
    omega
  rw [RawRecord.tail] at hat
  obtain ⟨hq, hat⟩ := Lib.at_append_iff.1 hat
  obtain ⟨hc, hat⟩ := Lib.at_append_iff.1 hat
  obtain ⟨ht, hat⟩ := Lib.at_append_iff.1 hat
  simp only [Lib.toBytes_length] at hq hc ht hat
  rw [unpackSection, unpackName_eq hname hends]
  simp only [bind, Except.bind]
  rw [Lib.unpackI_toBytes r.qtype.toNat_lt Nat.two_pos hq]
  simp only
  rw [Lib.unpackI_toBytes r.class_.toNat_lt Nat.two_pos hc]
  simp only
  rw [Lib.unpackI_toBytes r.ttl.toNat_lt (by decide) ht]
  simp only
  rw [Lib.unpackS_toBytes r.rdata_lt Nat.two_pos hat]
  subst hj
  rfl

/-- A section that is read without an error of Lua begins with a record. -/
theorem recordAt_of_ok {v : Except DnsError (List Ans × ℤ)}
    (h : unpackSection chunk n sect (count + 1) answers (i + 1) = .ok v) :
    ∃ r j, RecordAt chunk i r j ∧ Ends (unpackName chunk (i + 1) n) := by
  rw [unpackSection] at h
  obtain ⟨⟨name, left⟩, hname, h⟩ := Lib.bind_eq_ok.1 h
  obtain ⟨ls, k, hat, heq⟩ := unpackName_ok hname
  obtain ⟨rfl, rfl⟩ := Prod.mk.inj heq
  obtain ⟨⟨q, left⟩, hq, h⟩ := Lib.bind_eq_ok.1 h
  obtain ⟨hqlt, hqat, -, rfl⟩ := Lib.unpackI_succ hq
  obtain ⟨⟨c, left⟩, hc, h⟩ := Lib.bind_eq_ok.1 h
  obtain ⟨hclt, hcat, -, rfl⟩ := Lib.unpackI_succ hc
  obtain ⟨⟨t, left⟩, ht, h⟩ := Lib.bind_eq_ok.1 h
  obtain ⟨htlt, htat, -, rfl⟩ := Lib.unpackI_succ ht
  obtain ⟨⟨rdata, left⟩, hs, -⟩ := Lib.bind_eq_ok.1 h
  obtain ⟨hslt, hsat, -, rfl⟩ := Lib.unpackS_succ hs
  let r : RawRecord := ⟨ls, .ofNat q, .ofNat c, .ofNat t, rdata, hslt⟩
  refine ⟨r, _, ⟨k, hat, ?_, rfl⟩, by rw [hname]; exact .ok _⟩
  simp only [RawRecord.tail, r, UInt16.toNat_ofNat_of_lt' hqlt, UInt16.toNat_ofNat_of_lt' hclt,
    UInt32.toNat_ofNat_of_lt' htlt, Lib.at_append_iff, Lib.toBytes_length]
  obtain ⟨hsat1, hsat2⟩ := Lib.at_append_iff.1 hsat
  rw [Lib.toBytes_length] at hsat2
  exact ⟨hqat, hcat, htat, hsat1, hsat2⟩

/-! ## Reading a section -/

/-- A section that is read lies in the packet. -/
theorem unpackSection_ok {v : Except DnsError (List Ans × ℤ)}
    (h : unpackSection chunk n sect count answers (i + 1) = .ok v) :
    (∃ j as, SectionAt chunk count i (some j) ∧ v = .ok (as, (j : ℤ) + 1)) ∨
      (SectionAt chunk count i none ∧ ∃ e, v = .error e) := by
  induction count generalizing i answers with
  | zero =>
    obtain rfl := Except.ok.inj h
    exact .inl ⟨i, answers, .done, rfl⟩
  | succ count ih =>
    obtain ⟨r, j, hr, hends⟩ := recordAt_of_ok h
    rw [unpackSection_record hr hends] at h
    -- the sections after a good record
    have hgood : ¬ BadLength r.qtype.toNat r.rdata → ValueLies r.qtype.toNat r.rdata →
        ∀ {as}, unpackSection chunk n sect count as (j + 1) = .ok v →
        (∃ j as, SectionAt chunk (count + 1) i (some j) ∧ v = .ok (as, (j : ℤ) + 1)) ∨
          (SectionAt chunk (count + 1) i none ∧ ∃ e, v = .error e) := fun hb hl as h => by
      obtain ⟨k, as', hk, hv⟩ | ⟨hk, hv⟩ := ih h
      · exact .inl ⟨k, as', .record hr hb hl hk, hv⟩
      · exact .inr ⟨.record hr hb hl hk, hv⟩
    cases hx : unpackType r.rdata n r.qtype.toNat with
    | none =>
      rw [hx] at h
      obtain ⟨hb, hl⟩ := unpackType_none hx
      exact hgood hb hl h
    | some x =>
      rw [hx] at h
      obtain ⟨w, hw, h⟩ := Lib.bind_eq_ok.1 h
      rcases unpackType_reads hx with ⟨hb, e, he⟩ | ⟨hb, -, hok⟩
      · rw [he] at hw
        obtain rfl := Except.ok.inj hw
        exact .inr ⟨.bad hr hb, e, (Except.ok.inj h).symm⟩
      · obtain ⟨hl, a, rfl⟩ := hok w hw
        exact hgood hb hl h

/-- A section that lies in the packet is read. -/
theorem unpackSection_lies {o : Option ℕ} (h : SectionAt chunk count i o)
    (hends : Ends (unpackSection chunk n sect count answers (i + 1))) :
    ∃ v, unpackSection chunk n sect count answers (i + 1) = .ok v ∧
      (∀ j, o = some j → ∃ as, v = .ok (as, (j : ℤ) + 1)) ∧ (o = none → ∃ e, v = .error e) := by
  induction h generalizing answers with
  | @done i => exact ⟨_, rfl, fun j hj => ⟨answers, by rw [Option.some.inj hj]⟩, nofun⟩
  | @record count i r k o hr hb hl _ ih =>
    have hname : Ends (unpackName chunk (i + 1) n) := by
      rw [unpackSection] at hends; exact hends.of_bind
    rw [unpackSection_record hr hname] at hends ⊢
    cases hx : unpackType r.rdata n r.qtype.toNat with
    | none => rw [hx] at hends; exact ih hends
    | some x =>
      rw [hx] at hends
      rcases unpackType_reads hx with ⟨hb', -⟩ | ⟨-, hok, -⟩
      · exact absurd hb' hb
      · obtain ⟨a, rfl⟩ := hok hends.of_bind hl
        exact ih hends
  | @bad count i r k hr hb =>
    have hname : Ends (unpackName chunk (i + 1) n) := by
      rw [unpackSection] at hends; exact hends.of_bind
    rw [unpackSection_record hr hname]
    cases hx : unpackType r.rdata n r.qtype.toNat with
    | none => exact absurd hb (unpackType_none hx).1
    | some x =>
      rcases unpackType_reads hx with ⟨-, e, rfl⟩ | ⟨hb', -⟩
      · exact ⟨.error e, rfl, nofun, fun _ => ⟨e, rfl⟩⟩
      · exact absurd hb hb'

theorem unpackSections_ok {sections : List (ℕ × ℕ)} {v : Except DnsError (List Ans)}
    (h : unpackSections chunk n sections answers (i + 1) = .ok v) :
    SectionsAt chunk (sections.map Prod.snd) i := by
  induction sections generalizing i answers with
  | nil => exact .nil
  | cons c sections ih =>
    obtain ⟨w, hw, h⟩ := Lib.bind_eq_ok.1 h
    obtain ⟨j, as, hj, rfl⟩ | ⟨hj, -⟩ := unpackSection_ok hw
    · exact .cons hj (ih h)
    · exact .bad hj

theorem unpackSections_lies (sections : List (ℕ × ℕ))
    (h : SectionsAt chunk (sections.map Prod.snd) i)
    (hends : Ends (unpackSections chunk n sections answers (i + 1))) :
    ∃ v, unpackSections chunk n sections answers (i + 1) = .ok v := by
  induction sections generalizing i answers with
  | nil => exact ⟨_, rfl⟩
  | cons c sections ih =>
    rw [unpackSections] at hends ⊢
    cases h with
    | cons hj hrest =>
      obtain ⟨v, hv, hsome, -⟩ := unpackSection_lies hj hends.of_bind
      obtain ⟨as, rfl⟩ := hsome _ rfl
      rw [hv] at hends ⊢
      exact ih hrest hends
    | bad hj =>
      obtain ⟨v, hv, -, hnone⟩ := unpackSection_lies hj hends.of_bind
      obtain ⟨e, rfl⟩ := hnone rfl
      rw [hv]
      exact ⟨_, rfl⟩

end

/-! ## Reading a response -/

/-- What `unpack_response` does after the header. -/
def unpackBody (chunk : List UInt8) (n : ℕ) (h : Header) : Lua (Except DnsError Answers) :=
  match h.error with
  | some err => .ok (.error err)
  | none => do
    let (qname, left) ← unpackName chunk (DNS_HEADER_LEN + 1) n
    let (qtype, left) ← unpackI chunk 2 left
    let (_, left) ← unpackI chunk 2 left
    let sections := [(SECTION.AN, h.ancount.toNat), (SECTION.NS, h.nscount.toNat),
      (SECTION.AR, h.arcount.toNat)]
    match ← unpackSections chunk n sections [] left with
    | .error err => .ok (.error err)
    | .ok records =>
      .ok (.ok ⟨h.tid.toNat, h.flags.toNat &&& 0xf, qname, qtype, records⟩)

theorem unpackResponse_header {h : Header} (hat : At chunk 0 h.bytes) (n : ℕ) :
    unpackResponse chunk n = unpackBody chunk n h := by
  have hlen : ¬ chunk.length < DNS_HEADER_LEN := by
    have := hat.length_le
    simp only [Header.bytes, List.length_append, Lib.toBytes_length, List.drop_zero] at this
    exact Nat.not_lt.2 this
  rw [Header.bytes] at hat
  obtain ⟨h1, hat⟩ := Lib.at_append_iff.1 hat
  obtain ⟨h2, hat⟩ := Lib.at_append_iff.1 hat
  obtain ⟨h3, hat⟩ := Lib.at_append_iff.1 hat
  obtain ⟨h4, hat⟩ := Lib.at_append_iff.1 hat
  obtain ⟨h5, h6⟩ := Lib.at_append_iff.1 hat
  simp only [Lib.toBytes_length] at h1 h2 h3 h4 h5 h6
  rw [unpackResponse, if_neg hlen, show (1 : ℤ) = (0 : ℕ) + 1 from rfl,
    Lib.unpackI_toBytes h.tid.toNat_lt Nat.two_pos h1]
  simp only [bind, Except.bind]
  rw [Lib.unpackI_toBytes h.flags.toNat_lt Nat.two_pos h2]
  simp only
  rw [Lib.unpackI_toBytes h.qdcount.toNat_lt Nat.two_pos h3]
  simp only
  rw [Lib.unpackI_toBytes h.ancount.toNat_lt Nat.two_pos h4]
  simp only
  rw [Lib.unpackI_toBytes h.nscount.toNat_lt Nat.two_pos h5]
  simp only
  rw [Lib.unpackI_toBytes h.arcount.toNat_lt Nat.two_pos h6]
  rfl

/-- A packet that is long enough has a header. -/
theorem exists_header (h : ¬ chunk.length < DNS_HEADER_LEN) : ∃ h : Header, At chunk 0 h.bytes := by
  obtain ⟨xs, hk, hxs, hbs⟩ := exists_words 2 Nat.two_pos 6 (chunk.take DNS_HEADER_LEN) (by
    rw [List.length_take]; exact Nat.min_eq_left (Nat.not_lt.1 h))
  match xs, hk with
  | [a, b, c, d, e, f], _ =>
    refine ⟨⟨.ofNat a, .ofNat b, .ofNat c, .ofNat d, .ofNat e, .ofNat f⟩, ?_⟩
    have hto : ∀ x ∈ [a, b, c, d, e, f], (UInt16.ofNat x).toNat = x := fun x hx =>
      UInt16.toNat_ofNat_of_lt' (hxs x hx)
    simp only [Header.bytes, hto _ (List.mem_cons_self), hto b (by simp), hto c (by simp),
      hto d (by simp), hto e (by simp), hto f (by simp)]
    refine ⟨chunk.drop DNS_HEADER_LEN, ?_⟩
    rw [List.drop_zero]
    conv_rhs => rw [← List.take_append_drop DNS_HEADER_LEN chunk, hbs]
    simp

/-- The names that `unpack_response` decodes come to an end. -/
def UnpackResponse.Terminates (chunk : List UInt8) : Prop :=
  ∃ rounds, Ends (unpackResponse chunk rounds)

/-- `unpack_response` returns answers or a `DnsError`, and does not raise. -/
def UnpackResponse.Reports (chunk : List UInt8) : Prop :=
  ∀ rounds, Ends (unpackResponse chunk rounds) → ∃ v, unpackResponse chunk rounds = .ok v

/-- **`unpack_response` reports unless a part of the response is cut off.** -/
theorem unpackResponse_reports_iff (chunk : List UInt8) (hends : UnpackResponse.Terminates chunk) :
    UnpackResponse.Reports chunk ↔ ResponseLies chunk := by
  constructor
  · intro hrep
    obtain ⟨n, hn⟩ := hends
    obtain ⟨v, hv⟩ := hrep n hn
    by_cases hlen : chunk.length < DNS_HEADER_LEN
    · exact .inl hlen
    obtain ⟨h, hat⟩ := exists_header hlen
    refine .inr ⟨h, hat, fun herr => ?_⟩
    rw [unpackResponse_header hat, unpackBody, herr] at hv
    obtain ⟨⟨qname, left⟩, hname, hv⟩ := Lib.bind_eq_ok.1 hv
    obtain ⟨ls, k, hk, heq⟩ := unpackName_ok hname
    obtain ⟨rfl, rfl⟩ := Prod.mk.inj heq
    obtain ⟨⟨q, left⟩, hq, hv⟩ := Lib.bind_eq_ok.1 hv
    obtain ⟨-, -, -, rfl⟩ := Lib.unpackI_succ hq
    obtain ⟨⟨c, left⟩, hc, hv⟩ := Lib.bind_eq_ok.1 hv
    obtain ⟨-, -, hle, rfl⟩ := Lib.unpackI_succ hc
    obtain ⟨w, hw, -⟩ := Lib.bind_eq_ok.1 hv
    exact ⟨ls, k, hk, hle, unpackSections_ok hw⟩
  · rintro (hlen | ⟨h, hat, hlies⟩) n hn
    · exact ⟨_, by rw [unpackResponse, if_pos hlen]⟩
    rw [unpackResponse_header hat, unpackBody] at hn ⊢
    cases herr : h.error with
    | some err => exact ⟨_, rfl⟩
    | none =>
      obtain ⟨ls, k, hk, hle, hsec⟩ := hlies herr
      obtain ⟨q, hq⟩ := Lib.unpackI_some (show k + 2 ≤ chunk.length by omega)
      obtain ⟨c, hc⟩ := Lib.unpackI_some (show k + 2 + 2 ≤ chunk.length by omega)
      simp only [herr] at hn
      have hname : Ends (unpackName chunk (DNS_HEADER_LEN + 1) n) := hn.of_bind
      rw [unpackName_eq hk hname] at hn ⊢
      simp only [bind, Except.bind] at hn ⊢
      rw [hq] at hn ⊢
      simp only at hn ⊢
      rw [hc] at hn ⊢
      simp only at hn ⊢
      obtain ⟨v, hv⟩ := unpackSections_lies [(SECTION.AN, h.ancount.toNat),
        (SECTION.NS, h.nscount.toNat), (SECTION.AR, h.arcount.toNat)] hsec (Ends.of_bind hn)
      rw [hv]
      cases v with
      | error e => exact ⟨_, rfl⟩
      | ok records => exact ⟨_, rfl⟩

/-- The header of a response to one question, and nothing else. -/
def headerOnly : List UInt8 := [0, 1, 0x81, 0x80, 0, 1, 0, 0, 0, 0, 0, 0]

/-- A truncated question makes `unpack_response` raise. -/
theorem unpackResponse_headerOnly :
    unpackResponse headerOnly 1 = .error (.raised "bad argument #2 to 'unpack' (data string too short)") ∧
      UnpackResponse.Terminates headerOnly ∧ ¬ UnpackResponse.Reports headerOnly := by
  have h : unpackResponse headerOnly 1 = .error Lib.tooShort := by decide
  refine ⟨h, ⟨1, by rw [h]; exact .raised _⟩, fun hrep => ?_⟩
  obtain ⟨v, hv⟩ := hrep 1 (by rw [h]; exact .raised _)
  rw [h] at hv; cases hv

/-- A response to a question for the root, without records. -/
def rootQuestion : List UInt8 := [0, 1, 0x81, 0x80, 0, 1, 0, 0, 0, 0, 0, 0, 0, 0, 1, 0, 1]

theorem unpackResponse_reports_rootQuestion :
    UnpackResponse.Terminates rootQuestion ∧
      (UnpackResponse.Reports rootQuestion ↔ ResponseLies rootQuestion) := by
  have h : unpackResponse rootQuestion 1 = .ok (.ok ⟨1, 0, [], 1, []⟩) := by decide
  have hends : UnpackResponse.Terminates rootQuestion := ⟨1, by rw [h]; exact .ok _⟩
  exact ⟨hends, unpackResponse_reports_iff rootQuestion hends⟩

end Levent
