/-
  What `http_parse_host` reads: the userinfo, the host and the port.
-/
import Levent.Http.ParseUrl
import Levent.Lib.Scan

namespace Levent.Http.ParseUrl

open Lib (run run_cons run_append run_stay run_until run_only run_inside)

/-! ## Fields -/

/-- The field is made of the characters `cs`, which come after `pre`; a field without
    characters is not set. -/
def FieldData.mark (d : FieldData) (uf : UrlField) (pre cs : List UInt8) : FieldData :=
  if cs = [] then d else Function.update d uf (some (UInt16.ofNat pre.length, UInt16.ofNat cs.length))

/-- What a field without characters is in the table. -/
def nonempty (cs : List UInt8) : Option (List UInt8) := if cs = [] then none else some cs

/-- What is read of a field that begins at `off` and has the characters `cs`. -/
def readBack (buf : List UInt8) (off : ℕ) (cs : List UInt8) : List UInt8 :=
  (buf.drop (off % 0x10000)).take (cs.length % 0x10000)

section
variable {d : FieldData} {uf uf' : UrlField} {pre cs buf : List UInt8}

@[simp] theorem FieldData.mark_nil : d.mark uf pre [] = d := rfl

theorem FieldData.mark_of_ne_nil (h : cs ≠ []) :
    d.mark uf pre cs = Function.update d uf (some (UInt16.ofNat pre.length, UInt16.ofNat cs.length)) :=
  if_neg h

@[simp] theorem FieldData.mark_of_ne (h : uf' ≠ uf) : d.mark uf pre cs uf' = d uf' := by
  unfold FieldData.mark
  split
  · rfl
  · exact Function.update_of_ne h _ _

theorem FieldData.mark_self (h : d uf = none) :
    d.mark uf pre cs uf = (nonempty cs).map fun cs => (UInt16.ofNat pre.length, UInt16.ofNat cs.length) := by
  unfold FieldData.mark nonempty
  split
  · exact h
  · exact Function.update_self _ _ _

/-- A length that has 16 bits. -/
theorem toNat_length (h : cs.length < 0x10000) : (UInt16.ofNat cs.length).toNat = cs.length :=
  UInt16.toNat_ofNat_of_lt' h

theorem ofNat_length_nil : UInt16.ofNat ([] : List UInt8).length = 0 := rfl

theorem ofNat_length_cons {c : UInt8} : UInt16.ofNat (c :: cs).length = 1 + UInt16.ofNat cs.length := by
  rw [List.length_cons, Nat.add_comm, UInt16.ofNat_add]
  rfl

theorem slice_ofNat {off : ℕ} :
    slice buf (UInt16.ofNat off, UInt16.ofNat cs.length) = readBack buf off cs := by
  unfold slice readBack
  rw [UInt16.toNat_ofNat', UInt16.toNat_ofNat']

/-- Within 16 bits a field is read as it is. -/
theorem readBack_eq (hlen : buf.length < 0x10000) (h : pre ++ cs <+: buf) : readBack buf pre.length cs = cs := by
  obtain ⟨rest, rfl⟩ := h
  simp only [List.length_append] at hlen
  unfold readBack
  rw [Nat.mod_eq_of_lt (by omega), Nat.mod_eq_of_lt (by omega)]
  simp

/-- What is read of a field. -/
theorem FieldData.slice_mark (h : d uf = none) :
    (d.mark uf pre cs uf).map (slice buf) = (nonempty cs).map (readBack buf pre.length) := by
  rw [FieldData.mark_self h, Option.map_map]
  unfold nonempty
  split
  · rfl
  · exact congrArg some slice_ofNat

theorem map_readBack (hlen : buf.length < 0x10000) (h : pre ++ cs <+: buf) :
    (nonempty cs).map (readBack buf pre.length) = nonempty cs := by
  unfold nonempty
  split
  · rfl
  · exact congrArg some (readBack_eq hlen h)

end

/-! ## The loop over the host -/

/-- The field that the characters read in a state belong to. -/
def HostState.field : HostState → Option UrlField
  | .userinfo => some .userinfo
  | .host | .hostV6 => some .host
  | .hostPort => some .port
  | _ => none

/-- `parseHostChar`, as a partial automaton -/
def hostNext (s : HostState) (ch : UInt8) : Option HostState :=
  if parseHostChar s ch = .dead then none else some (parseHostChar s ch)

section
variable {h h' : HostScan} {s s' : HostState} {c : UInt8} {cs rest : List UInt8} {uf : UrlField}

theorem HostScan.step_next (hstep : h.step c = some h') : hostNext h.s c = some h'.s := by
  unfold HostScan.step at hstep
  unfold hostNext
  revert hstep
  cases parseHostChar h.s c <;> simp <;> rintro rfl <;> rfl

theorem HostScan.step_skip (hs : parseHostChar h.s c = s) (hf : s.field = none) (hd : s ≠ .dead) :
    h.step c = some ⟨s, h.p + 1, h.data⟩ := by
  unfold HostScan.step
  rw [hs]
  cases s <;> first | rfl | exact absurd rfl hd | cases hf

/-- The first character of a field. -/
theorem HostScan.step_enter (hs : parseHostChar h.s c = s) (hf : s.field = some uf) (hne : h.s ≠ s)
    (hhost : uf = .host → ∃ off, h.data .host = some (off, 0)) :
    h.step c = some ⟨s, h.p + 1, Function.update h.data uf (some (UInt16.ofNat h.p, 1))⟩ := by
  unfold HostScan.step
  rw [hs]
  cases s <;> cases hf
  · simp [hne]
  · obtain ⟨off, hoff⟩ := hhost rfl
    simp [hne, hoff]
  · obtain ⟨off, hoff⟩ := hhost rfl
    simp [hne, hoff]
  · simp [hne]

/-- The further characters of a field. -/
theorem HostScan.step_stay {off len : UInt16} (hs : parseHostChar h.s c = h.s) (hf : h.s.field = some uf)
    (hd : h.data uf = some (off, len)) :
    h.step c = some ⟨h.s, h.p + 1, Function.update h.data uf (some (off, len + 1))⟩ := by
  obtain ⟨s, p, data⟩ := h
  unfold HostScan.step
  dsimp only at hs hf hd ⊢
  rw [hs]
  cases s <;> cases hf <;> simp [hd]

theorem HostScan.run_skip {pre : List UInt8} {d : FieldData} (hs : parseHostChar s c = s') (hf : s'.field = none)
    (hd : s' ≠ .dead) : run HostScan.step ⟨s, pre.length, d⟩ [c] = some ⟨s', (pre ++ [c]).length, d⟩ := by
  rw [List.length_append]
  exact run_cons.2 ⟨_, HostScan.step_skip hs hf hd, rfl⟩

theorem HostScan.run_stay {p : ℕ} {off len : UInt16} {d : FieldData} (hf : s.field = some uf)
    (hs : ∀ c ∈ cs, parseHostChar s c = s) (hd : d uf = some (off, len)) :
    run HostScan.step ⟨s, p, d⟩ cs =
      some ⟨s, p + cs.length, Function.update d uf (some (off, len + UInt16.ofNat cs.length))⟩ := by
  induction cs generalizing p d len with
  | nil =>
    rw [run, ofNat_length_nil, List.length_nil, Nat.add_zero, UInt16.add_zero, ← hd, Function.update_eq_self]
  | cons c cs ih =>
    refine run_cons.2 ⟨_, HostScan.step_stay (hs c List.mem_cons_self) hf hd, ?_⟩
    rw [ih (fun c hc => hs c (List.mem_cons_of_mem _ hc)) (Function.update_self _ _ _),
      Function.update_idem, ofNat_length_cons, List.length_cons, Nat.add_assoc, UInt16.add_assoc, Nat.add_comm 1]

/-- **The characters of a field**, from the first one to the last one. -/
theorem HostScan.run_field {pre : List UInt8} {d : FieldData} (hf : s'.field = some uf) (hne : s ≠ s')
    (hs : parseHostChar s c = s') (hcs : ∀ c ∈ cs, parseHostChar s' c = s')
    (hhost : uf = .host → ∃ off, d .host = some (off, 0)) :
    run HostScan.step ⟨s, pre.length, d⟩ (c :: cs) =
      some ⟨s', (pre ++ c :: cs).length, d.mark uf pre (c :: cs)⟩ := by
  refine run_cons.2 ⟨_, HostScan.step_enter hs hf hne hhost, ?_⟩
  rw [HostScan.run_stay hf hcs (Function.update_self _ _ _), Function.update_idem,
    FieldData.mark_of_ne_nil (List.cons_ne_nil c cs), ofNat_length_cons]
  simp only [List.length_append, List.length_cons]
  rw [Nat.add_right_comm, Nat.add_assoc]

end

/-! ## The parts of the host -/

structure Authority where
  userinfo : Option (List UInt8)
  v6 : Bool
  host : List UInt8
  port : Option (List UInt8)

def V6Char (c : UInt8) : Prop := isHex c ∨ c = 58 ∨ c = 46

structure Authority.Legal (a : Authority) : Prop where
  userinfo : ∀ cs ∈ a.userinfo, ∀ c ∈ cs, isUserinfoChar c
  host_ne_nil : a.host ≠ []
  host : ∀ c ∈ a.host, if a.v6 then V6Char c else isHostChar c
  port_ne_nil : ∀ cs ∈ a.port, cs ≠ []
  port : ∀ cs ∈ a.port, ∀ c ∈ cs, isNum c

namespace Authority
variable (a : Authority)

def userinfoText : List UInt8 := a.userinfo.elim [] (· ++ [64])

def openText : List UInt8 := if a.v6 then [91] else []

def closeText : List UInt8 := if a.v6 then [93] else []

def portText : List UInt8 := a.port.elim [] ([58] ++ ·)

def text : List UInt8 := a.userinfoText ++ (a.openText ++ (a.host ++ (a.closeText ++ a.portText)))

/-- The fields that are set, if the text comes after `pre`. -/
def mark (pre : List UInt8) (d : FieldData) : FieldData :=
  ((d.mark .userinfo pre (a.userinfo.getD [])).mark .host (pre ++ a.userinfoText ++ a.openText) a.host).mark .port
    (pre ++ a.userinfoText ++ a.openText ++ a.host ++ a.closeText ++ [58]) (a.port.getD [])

end Authority

section
variable {s t : HostState} {c : UInt8} {as pre : List UInt8} {d : FieldData} {a : Authority}

theorem hostNext_iff {s' : HostState} : hostNext s c = some s' ↔ parseHostChar s c = s' ∧ s' ≠ .dead := by
  unfold hostNext
  constructor
  · intro h
    split at h
    · cases h
    · cases h
      exact ⟨rfl, ‹_›⟩
  · rintro ⟨rfl, h⟩
    exact if_neg h

theorem parseHostChar_userinfo (hs : s = .userinfoStart ∨ s = .userinfo) (hc : isUserinfoChar c) :
    parseHostChar s c = .userinfo := by
  have hne : c ≠ 64 := by
    rintro rfl
    exact absurd hc (by decide)
  rcases hs with rfl | rfl <;> simp [parseHostChar, hne, hc]

theorem parseHostChar_hostStart (hc : isHostChar c) : parseHostChar .hostStart c = .host := by
  have hne : c ≠ 91 := by
    rintro rfl
    exact absurd hc (by decide)
  simp [parseHostChar, hne, hc]

theorem V6Char.ne (hc : V6Char c) : c ≠ 93 := by
  rintro rfl
  revert hc
  unfold V6Char
  decide

theorem V6Char.parseHostChar (hc : V6Char c) :
    parseHostChar .hostV6Start c = .hostV6 ∧ parseHostChar .hostV6 c = .hostV6 :=
  ⟨if_pos hc, (if_neg hc.ne).trans (if_pos hc)⟩

theorem Authority.Legal.run_userinfo (ha : a.Legal) :
    run HostScan.step ⟨if a.userinfo.isSome then .userinfoStart else .hostStart, pre.length, d⟩ a.userinfoText =
      some ⟨.hostStart, (pre ++ a.userinfoText).length, d.mark .userinfo pre (a.userinfo.getD [])⟩ := by
  obtain ⟨userinfo, v6, host, port⟩ := a
  have hchars := ha.userinfo
  unfold Authority.userinfoText
  dsimp only at hchars ⊢
  rcases userinfo with _ | _ | ⟨c, cs⟩
  · simp
  · exact HostScan.run_skip rfl rfl (by simp)
  · have hcs := hchars _ rfl
    have hlen : pre ++ (c :: cs ++ [64]) = pre ++ c :: cs ++ [64] := by simp
    dsimp only [Option.elim, Option.getD]
    rw [hlen]
    exact run_append.2 ⟨_, HostScan.run_field (rfl : HostState.userinfo.field = some .userinfo) (by simp)
      (parseHostChar_userinfo (.inl rfl) (hcs c List.mem_cons_self))
      (fun c hc => parseHostChar_userinfo (.inr rfl) (hcs c (List.mem_cons_of_mem _ hc))) (by simp),
      HostScan.run_skip rfl rfl (by simp)⟩

/-- The characters of the host, and of its brackets. -/
theorem Authority.Legal.run_host (ha : a.Legal) (pre : List UInt8) {n : UInt16} (hd : d .host = some (n, 0)) :
    ∃ s, (s = .host ∨ s = .hostV6End) ∧
      run HostScan.step ⟨.hostStart, pre.length, d⟩ (a.openText ++ (a.host ++ a.closeText)) =
        some ⟨s, (pre ++ a.openText ++ a.host ++ a.closeText).length, d.mark .host (pre ++ a.openText) a.host⟩ := by
  obtain ⟨userinfo, v6, host, port⟩ := a
  have hne := ha.host_ne_nil
  have hchars := ha.host
  unfold Authority.openText Authority.closeText
  dsimp only at hne hchars ⊢
  rcases host with _ | ⟨c, cs⟩
  · exact absurd rfl hne
  cases v6 with
  | false =>
    refine ⟨.host, .inl rfl, ?_⟩
    simp only [Bool.false_eq_true, ↓reduceIte, List.nil_append, List.append_nil] at hchars ⊢
    exact HostScan.run_field rfl (by simp) (parseHostChar_hostStart (hchars c List.mem_cons_self))
      (fun c hc => by simp [parseHostChar, hchars c (List.mem_cons_of_mem _ hc)]) fun _ => ⟨n, hd⟩
  | true =>
    refine ⟨.hostV6End, .inr rfl, ?_⟩
    simp only [↓reduceIte] at hchars ⊢
    have hopen : run HostScan.step ⟨.hostStart, pre.length, d⟩ [91] = some ⟨.hostV6Start, (pre ++ [91]).length, d⟩ :=
      HostScan.run_skip rfl rfl (by simp)
    exact run_append.2 ⟨_, hopen, run_append.2 ⟨_,
      HostScan.run_field rfl (by simp) (hchars c List.mem_cons_self).parseHostChar.1
        (fun c hc => (hchars c (List.mem_cons_of_mem _ hc)).parseHostChar.2) fun _ => ⟨n, hd⟩,
      HostScan.run_skip rfl rfl (by simp)⟩⟩

theorem Authority.Legal.run_port (ha : a.Legal) (pre : List UInt8) (d : FieldData) (hs : s = .host ∨ s = .hostV6End) :
    ∃ t : HostState, t.Unfinished = false ∧ run HostScan.step ⟨s, pre.length, d⟩ a.portText =
      some ⟨t, (pre ++ a.portText).length, d.mark .port (pre ++ [58]) (a.port.getD [])⟩ := by
  obtain ⟨userinfo, v6, host, port⟩ := a
  have hne := ha.port_ne_nil
  have hchars := ha.port
  unfold Authority.portText
  dsimp only at hne hchars ⊢
  rcases port with _ | _ | ⟨c, cs⟩
  · refine ⟨s, ?_, by simp⟩
    rcases hs with rfl | rfl <;> rfl
  · exact absurd rfl (hne _ rfl)
  · have hcs := hchars _ rfl
    have hcolon : parseHostChar s 58 = .hostPortStart := by
      rcases hs with rfl | rfl <;> rfl
    refine ⟨.hostPort, rfl, ?_⟩
    dsimp only [Option.elim, Option.getD]
    rw [← List.append_assoc]
    exact run_append.2 ⟨_, HostScan.run_skip hcolon rfl (by simp), HostScan.run_field rfl (by simp)
      (by simp [parseHostChar, hcs c List.mem_cons_self])
      (fun c hc => by simp [parseHostChar, hcs c (List.mem_cons_of_mem _ hc)]) (by simp)⟩

/-- The fields that a legal text sets. -/
theorem Authority.Legal.run_text (ha : a.Legal) (pre : List UInt8) {n : UInt16} (hd : d .host = some (n, 0)) :
    ∃ s : HostState, s.Unfinished = false ∧
      run HostScan.step ⟨if a.userinfo.isSome then .userinfoStart else .hostStart, pre.length, d⟩ a.text =
        some ⟨s, (pre ++ a.text).length, a.mark pre d⟩ := by
  obtain ⟨s, hs, hhost⟩ := ha.run_host (pre ++ a.userinfoText)
    (d := d.mark .userinfo pre (a.userinfo.getD [])) (n := n) (by simpa using hd)
  obtain ⟨t, ht, hport⟩ := ha.run_port (pre ++ a.userinfoText ++ a.openText ++ a.host ++ a.closeText)
    ((d.mark .userinfo pre (a.userinfo.getD [])).mark .host (pre ++ a.userinfoText ++ a.openText) a.host) hs
  refine ⟨t, ht, ?_⟩
  have htext : a.text = a.userinfoText ++ ((a.openText ++ (a.host ++ a.closeText)) ++ a.portText) := by
    simp [Authority.text]
  rw [htext]
  refine run_append.2 ⟨_, ha.run_userinfo, run_append.2 ⟨_, hhost, ?_⟩⟩
  rw [hport]
  simp [Authority.mark]

/-! ## What is accepted -/

theorem port_of_run (h : run hostNext .hostPortStart as = some t) (ht : t.Unfinished = false) :
    as ≠ [] ∧ ∀ c ∈ as, isNum c := by
  refine ⟨?_, (run_only (S := fun s => s = .hostPortStart ∨ s = .hostPort) ?_ (.inl rfl) h).1⟩
  · rintro rfl
    cases h
    cases ht
  · rintro s c s' hs h
    obtain ⟨rfl, hne⟩ := hostNext_iff.1 h
    by_cases hc : isNum c
    · exact ⟨hc, by rcases hs with rfl | rfl <;> simp [parseHostChar, hc]⟩
    · rcases hs with rfl | rfl <;> simp [parseHostChar, hc] at hne

/-- What may come after the host. -/
theorem afterHost_of_run {c : UInt8} {s' : HostState} (hs : s = .host ∧ ¬ isHostChar c ∨ s = .hostV6End)
    (hstep : hostNext s c = some s') (h : run hostNext s' as = some t) (ht : t.Unfinished = false) :
    c = 58 ∧ as ≠ [] ∧ ∀ c ∈ as, isNum c := by
  obtain ⟨rfl, hne⟩ := hostNext_iff.1 hstep
  have hc : c = 58 := by
    by_contra hc
    rcases hs with ⟨rfl, hnot⟩ | rfl
    · simp [parseHostChar, hc, hnot] at hne
    · simp [parseHostChar, hc] at hne
  subst hc
  have hstart : parseHostChar s 58 = .hostPortStart := by
    rcases hs with ⟨rfl, -⟩ | rfl <;> rfl
  rw [hstart] at h
  exact ⟨rfl, port_of_run h ht⟩

/-- The host between brackets. -/
theorem v6_of_run (h : run hostNext .hostV6Start as = some t) (ht : t.Unfinished = false) :
    ∃ a : Authority, a.Legal ∧ a.userinfo = none ∧ a.text = 91 :: as := by
  rcases as with _ | ⟨c, as⟩
  · cases h
    cases ht
  obtain ⟨s1, hs1, h⟩ := run_cons.1 h
  obtain ⟨rfl, hne⟩ := hostNext_iff.1 hs1
  have hc : V6Char c := by
    by_contra hc
    exact hne (if_neg hc)
  rw [hc.parseHostChar.1] at h
  obtain ⟨cs, rest, s', rfl, hcs, rfl, -, ⟨rfl, rfl⟩ | ⟨b, bs, s'', rfl, hb, hstep, h⟩⟩ :=
    run_until (S := (· = .hostV6)) (P := V6Char) (fun s c s' hs hc hstep => by
      subst hs
      exact (hostNext_iff.1 hstep).1.symm.trans hc.parseHostChar.2) rfl h
  · cases ht
  obtain ⟨rfl, hne⟩ := hostNext_iff.1 hstep
  have hb' : b = 93 := by
    by_contra hb'
    exact hne ((if_neg hb').trans (if_neg hb))
  subst hb'
  have hchars : ∀ c' ∈ c :: cs, V6Char c' := List.forall_mem_cons.2 ⟨hc, hcs⟩
  rcases bs with _ | ⟨b, bs⟩
  · exact ⟨⟨none, true, c :: cs, none⟩, ⟨by simp, by simp, hchars, by simp, by simp⟩, rfl, rfl⟩
  · obtain ⟨s2, hs2, h⟩ := run_cons.1 h
    obtain ⟨rfl, hnil, hnum⟩ := afterHost_of_run (.inr rfl) hs2 h ht
    exact ⟨⟨none, true, c :: cs, some bs⟩, ⟨by simp, by simp, hchars, by simpa using hnil, by simpa using hnum⟩,
      rfl, rfl⟩

theorem name_of_run (h : run hostNext .hostStart as = some t) (ht : t.Unfinished = false) :
    ∃ a : Authority, a.Legal ∧ a.userinfo = none ∧ a.text = as := by
  rcases as with _ | ⟨c, as⟩
  · cases h
    cases ht
  obtain ⟨s1, hs1, h⟩ := run_cons.1 h
  obtain ⟨rfl, hne⟩ := hostNext_iff.1 hs1
  by_cases hc : c = 91
  · subst hc
    exact v6_of_run h ht
  have hhost : isHostChar c := by
    by_contra hhost
    simp [parseHostChar, hc, hhost] at hne
  rw [parseHostChar_hostStart hhost] at h
  obtain ⟨cs, rest, s', rfl, hcs, rfl, -, hrest⟩ :=
    run_until (S := (· = .host)) (P := fun c => isHostChar c) (fun s c s' hs hc hstep => by
      subst hs
      exact (hostNext_iff.1 hstep).1.symm.trans (if_pos hc)) rfl h
  have hchars : ∀ c' ∈ c :: cs, isHostChar c' := List.forall_mem_cons.2 ⟨hhost, hcs⟩
  rcases hrest with ⟨rfl, rfl⟩ | ⟨b, bs, s'', rfl, hb, hstep, h⟩
  · refine ⟨⟨none, false, c :: cs, none⟩, ⟨by simp, by simp, hchars, by simp, by simp⟩, rfl, ?_⟩
    simp [Authority.text, Authority.userinfoText, Authority.openText, Authority.closeText, Authority.portText]
  · obtain ⟨rfl, hnil, hnum⟩ := afterHost_of_run (.inl ⟨rfl, hb⟩) hstep h ht
    exact ⟨⟨none, false, c :: cs, some bs⟩, ⟨by simp, by simp, hchars, by simpa using hnil, by simpa using hnum⟩,
      rfl, rfl⟩

/-- **A host that is accepted** is a legal text. -/
theorem authority_of_run {foundAt : Bool}
    (h : run hostNext (if foundAt then .userinfoStart else .hostStart) as = some t) (ht : t.Unfinished = false) :
    ∃ a : Authority, a.Legal ∧ a.userinfo.isSome = foundAt ∧ a.text = as := by
  cases foundAt with
  | false =>
    obtain ⟨a, ha, hnone, htext⟩ := name_of_run h ht
    exact ⟨a, ha, by simp [hnone], htext⟩
  | true =>
    obtain ⟨cs, rest, s', rfl, hcs, hs', -, hrest⟩ :=
      run_until (S := fun s => s = .userinfoStart ∨ s = .userinfo) (P := fun c => isUserinfoChar c)
        (fun s c s' hs hc hstep => .inr ((hostNext_iff.1 hstep).1.symm.trans (parseHostChar_userinfo hs hc)))
        (.inl rfl) h
    rcases hrest with ⟨rfl, rfl⟩ | ⟨b, bs, s'', rfl, hb, hstep, h⟩
    · rcases hs' with rfl | rfl <;> cases ht
    obtain ⟨rfl, hne⟩ := hostNext_iff.1 hstep
    have hb' : b = 64 := by
      by_contra hb'
      rcases hs' with rfl | rfl <;> simp [parseHostChar, hb, hb'] at hne
    subst hb'
    have hstart : parseHostChar s' 64 = .hostStart := by
      rcases hs' with rfl | rfl <;> rfl
    rw [hstart] at h
    obtain ⟨a, ha, hnone, rfl⟩ := name_of_run h ht
    refine ⟨{ a with userinfo := some cs }, { ha with userinfo := by simpa using hcs }, rfl, ?_⟩
    simp [Authority.text, Authority.userinfoText, Authority.openText, Authority.closeText, Authority.portText, hnone]

/-- **`http_parse_host`** accepts the legal texts, and the fields that it sets are their parts. -/
theorem parseHost_ok_iff {hp rest : List UInt8} {foundAt : Bool} {d d' : FieldData}
    (hlen : (pre ++ (hp ++ rest)).length < 0x10000)
    (hd : d .host = some (UInt16.ofNat pre.length, UInt16.ofNat hp.length)) :
    parseHost (pre ++ (hp ++ rest)) d foundAt = .ok d' ↔
      ∃ a : Authority, a.Legal ∧ a.userinfo.isSome = foundAt ∧ a.text = hp ∧
        a.mark pre (Function.update d .host (some (UInt16.ofNat pre.length, 0))) = d' := by
  have hslice : ((pre ++ (hp ++ rest)).drop pre.length).take hp.length = hp := by simp
  simp only [List.length_append] at hlen
  unfold parseHost
  rw [hd]
  dsimp only
  rw [toNat_length (by omega), toNat_length (by omega), hslice]
  constructor
  · intro h
    split at h
    · cases h
    · rename_i hs hrun
      split at h
      · cases h
      · cases h
        obtain ⟨a, ha, hat, rfl⟩ :=
          authority_of_run (run_inside HostScan.s (fun _ _ _ h => HostScan.step_next h) hrun)
            (Bool.eq_false_iff.2 ‹_›)
        obtain ⟨s, -, hrun'⟩ := ha.run_text pre (d := Function.update d .host (some (UInt16.ofNat pre.length, 0)))
          (Function.update_self _ _ _)
        rw [hat, hrun] at hrun'
        cases hrun'
        exact ⟨a, ha, hat, rfl, rfl⟩
  · rintro ⟨a, ha, rfl, rfl, rfl⟩
    obtain ⟨s, hs, hrun⟩ := ha.run_text pre (d := Function.update d .host (some (UInt16.ofNat pre.length, 0)))
      (Function.update_self _ _ _)
    rw [hrun]
    simp [hs]

/-- It does not read what has not been set, if the host has been. -/
theorem parseHost_ne_undefined {buf : List UInt8} {foundAt : Bool} (hd : (d .host).isSome) :
    parseHost buf d foundAt ≠ .undefined := by
  obtain ⟨x, hx⟩ := Option.isSome_iff_exists.1 hd
  unfold parseHost
  rw [hx]
  dsimp only
  split
  · exact fun h => by cases h
  · split <;> exact fun h => by cases h

end

end Levent.Http.ParseUrl
