/-
  The strings of a TXT record, and the servers that `normalize` makes of the SRV
  records of a response.
-/
import Levent.Dns.Resolve

namespace Levent

open Lib (Ends toBytes)

/-! ## TXT records -/

/-- The value of a TXT record with the strings `ss`. -/
def txtRdata (ss : List (List UInt8)) : List UInt8 := ss.flatMap fun s => toBytes 1 s.length ++ s

variable {ss : List (List UInt8)}

theorem unpackTXT_rdata (hss : ∀ s ∈ ss, s.length < 256) :
    unpackTXT (txtRdata ss) = .ok (.ok (.txt (Data.strings ss))) := by
  have hat : StringsAt (txtRdata ss) 0 (Data.strings ss) := stringsAt_strings hss []
  have hread := unpackStrings_at hat (n := (txtRdata ss).length + 1) (by omega) (by omega)
  rw [unpackTXT, show (1 : ℤ) = (0 : ℕ) + 1 from rfl, hread]
  rfl

/-- Only an empty last string is not read. -/
theorem strings_eq_iff (hne : ss ≠ []) : Data.strings ss = ss ↔ ss.getLast hne ≠ [] := by
  induction ss with
  | nil => exact (hne rfl).elim
  | cons s ss ih =>
    cases ss with
    | nil =>
      rw [Data.strings, List.getLast_singleton]
      split
      · rename_i h0
        exact iff_of_false (List.cons_ne_nil _ _).symm (not_not.2 h0)
      · rename_i h0
        exact iff_of_true rfl h0
    | cons t ss =>
      have hcons : Data.strings (s :: t :: ss) = s :: Data.strings (t :: ss) := rfl
      rw [hcons, List.cons_inj_right, List.getLast_cons (List.cons_ne_nil t ss)]
      exact ih _

/-- **The strings of a TXT record are read back exactly when the last of them is not
    empty**, and the loop ends. -/
theorem unpackTXT_complete_iff (hne : ss ≠ []) (hss : ∀ s ∈ ss, s.length < 256) :
    Ends (unpackTXT (txtRdata ss)) ∧
      (unpackTXT (txtRdata ss) = .ok (.ok (.txt ss)) ↔ ss.getLast hne ≠ []) := by
  refine ⟨unpackTXT_ends, ?_⟩
  rw [unpackTXT_rdata hss, ← strings_eq_iff hne]
  constructor
  · intro h
    exact Rdata.txt.inj (Except.ok.inj (Except.ok.inj h))
  · intro h
    rw [h]

theorem unpackTXT_complete_two : Ends (unpackTXT (txtRdata [[], [97]])) ∧
    (unpackTXT (txtRdata [[], [97]]) = .ok (.ok (.txt [[], [97]])) ↔
      List.getLast [[], [97]] (by decide) ≠ ([] : List UInt8)) :=
  unpackTXT_complete_iff (by decide) (by decide)

/-- The last string of `"a" ""` is lost. -/
theorem unpackTXT_not_complete : ¬ ∀ ss : List (List UInt8), ss ≠ [] → (∀ s ∈ ss, s.length < 256) →
    Ends (unpackTXT (txtRdata ss)) ∧ unpackTXT (txtRdata ss) = .ok (.ok (.txt ss)) := by
  intro h
  have h1 := (h [[97], []] (by decide) (by decide)).2
  rw [unpackTXT_rdata (by decide)] at h1
  exact absurd (Rdata.txt.inj (Except.ok.inj (Except.ok.inj h1))) (by decide)

namespace Dns

/-! ## SRV records -/

/-- The target of an SRV record. -/
def target (ans : Ans) : Option (List UInt8) :=
  match ans.rdata with
  | .srv _ _ _ target => some target
  | .address _ | .txt _ => none

def targets (answers : List Ans) : List (List UInt8) := answers.filterMap target

/-- The SRV records. -/
def srvRecords (answers : List Ans) : List Ans := answers.filter fun ans => (target ans).isSome

/-- The server has the port, the weight and the priority of the SRV record, and its host
    is the target or an address that the answers have for the target. -/
def Gives (answers : List Ans) (ans : Ans) (server : SrvServer) : Prop :=
  ∃ target, ans.rdata = .srv server.prio server.weight server.port target ∧
    (server.host = .name target ∨ ∃ b ∈ answers, b.name = target ∧
      ∃ address, b.rdata = .address address ∧ server.host = .address address)

/-- `normalize` returns one server for each SRV record. -/
def Lossless (pairs : List SrvServer → List SrvServer) (answers : List Ans) : Prop :=
  ∃ ret ttl, normalize pairs QTYPE.SRV answers = .ok (.servers ret, ttl) ∧
    ∃ l, ret.Perm l ∧ List.Forall₂ (Gives answers) (srvRecords answers) l

/-- Every address is one of the target of an SRV record before it. -/
def Named (answers : List Ans) : Prop :=
  ∀ pre ans post address, answers = pre ++ ans :: post → ans.rdata = .address address →
    ans.name ∈ targets pre

/-! ## The table of servers -/

def keys (servers : List (List UInt8 × SrvServer)) : List (List UInt8) := servers.map Prod.fst

variable {servers r : List (List UInt8 × SrvServer)} {answers : List Ans} {ans : Ans}
  {t : List UInt8} {server : SrvServer}

theorem setServer_new (h : t ∉ keys servers) :
    setServer servers t server = servers ++ [(t, server)] := by
  refine if_neg fun hany => h ?_
  obtain ⟨e, he, heq⟩ := List.any_eq_true.1 hany
  exact List.mem_map.2 ⟨e, he, beq_iff_eq.1 heq⟩

theorem setServer_old (h : t ∈ keys servers) : setServer servers t server =
    servers.map fun e => if e.1 = t then (t, server) else e := by
  refine if_pos ?_
  obtain ⟨e, he, heq⟩ := List.mem_map.1 h
  exact List.any_eq_true.2 ⟨e, he, beq_iff_eq.2 heq⟩

theorem keys_setServer_old (h : t ∈ keys servers) :
    keys (setServer servers t server) = keys servers := by
  rw [setServer_old h, keys, List.map_map]
  refine List.map_congr_left fun e _ => ?_
  simp only [Function.comp_apply]
  split
  · rename_i he
    exact he.symm
  · rfl

theorem keys_setServer_new (h : t ∉ keys servers) :
    keys (setServer servers t server) = keys servers ++ [t] := by
  rw [setServer_new h, keys, List.map_append]
  rfl

theorem mem_keys_setServer {k : List UInt8} :
    k ∈ keys (setServer servers t server) ↔ k ∈ keys servers ∨ k = t := by
  by_cases h : t ∈ keys servers
  · rw [keys_setServer_old h]
    constructor
    · exact Or.inl
    · rintro (hk | rfl)
      · exact hk
      · exact h
  · rw [keys_setServer_new h, List.mem_append, List.mem_singleton]

theorem keys_setServer_nodup (h : (keys servers).Nodup) :
    (keys (setServer servers t server)).Nodup := by
  by_cases ht : t ∈ keys servers
  · rwa [keys_setServer_old ht]
  · rw [keys_setServer_new ht]
    exact h.append (List.nodup_singleton t) (by simpa using ht)

theorem find_eq_none : servers.find? (·.1 == t) = none ↔ t ∉ keys servers := by
  rw [List.find?_eq_none, keys, List.mem_map]
  constructor
  · rintro h ⟨e, he, heq⟩
    exact h e he (beq_iff_eq.2 heq)
  · intro h e he heq
    exact h ⟨e, he, beq_iff_eq.1 heq⟩

theorem mem_keys_of_find {e : List UInt8 × SrvServer} (h : servers.find? (·.1 == t) = some e) :
    t ∈ keys servers := by
  by_contra hkey
  rw [find_eq_none.2 hkey] at h
  cases h

/-- An address replaces the host of the one server of its name. -/
theorem setServer_found {e : List UInt8 × SrvServer} {host : Host} (h : (keys servers).Nodup)
    (he : servers.find? (·.1 == t) = some e) : setServer servers t { e.2 with host } =
      servers.map fun e => if e.1 = t then (e.1, { e.2 with host }) else e := by
  have hmem : e ∈ servers := List.mem_of_find?_eq_some he
  have het : e.1 = t := by simpa using List.find?_some he
  rw [setServer_old (List.mem_map.2 ⟨e, hmem, het⟩)]
  refine List.map_congr_left fun e' he' => ?_
  split
  · rename_i het'
    obtain rfl : e' = e := List.inj_on_of_nodup_map h he' hmem (het'.trans het.symm)
    rw [het']
  · rfl

/-! ## The loop over the answers -/

theorem srvServers_srv {prio weight port : ℕ} (h : ans.rdata = .srv prio weight port t) :
    srvServers (ans :: answers) servers =
      srvServers answers (setServer servers t ⟨.name t, port, weight, prio, ans.ttl⟩) := by
  rw [srvServers, h]

theorem srvServers_unnamed {address : String} (h : ans.rdata = .address address)
    (hf : servers.find? (·.1 == ans.name) = none) :
    srvServers (ans :: answers) servers = .error (.raised "assertion failed!") := by
  rw [srvServers, h]
  dsimp only
  rw [hf]

theorem srvServers_named {address : String} {e : List UInt8 × SrvServer}
    (h : ans.rdata = .address address) (hf : servers.find? (·.1 == ans.name) = some e) :
    srvServers (ans :: answers) servers =
      srvServers answers (setServer servers ans.name { e.2 with host := .address address }) := by
  rw [srvServers, h]
  dsimp only
  rw [hf]

theorem srvServers_txt {txt : List (List UInt8)} (h : ans.rdata = .txt txt) :
    srvServers (ans :: answers) servers = srvServers answers servers := by
  rw [srvServers, h]

/-- Every address is one of a name seen before, or of the target of an SRV record before
    it. -/
def NamedFrom (seen : Set (List UInt8)) (answers : List Ans) : Prop :=
  ∀ pre ans post address, answers = pre ++ ans :: post → ans.rdata = .address address →
    ans.name ∈ seen ∨ ans.name ∈ targets pre

theorem namedFrom_empty : NamedFrom ∅ answers ↔ Named answers := by
  constructor
  · intro h pre ans post address heq ha
    exact (h pre ans post address heq ha).resolve_left (Set.notMem_empty _)
  · intro h pre ans post address heq ha
    exact .inr (h pre ans post address heq ha)

theorem mem_targets_cons {k : List UInt8} :
    k ∈ targets (ans :: answers) ↔ target ans = some k ∨ k ∈ targets answers := by
  rw [targets, List.filterMap_cons]
  cases target ans with
  | none => simp [targets]
  | some t => simp [targets, eq_comm]

theorem namedFrom_cons {seen : Set (List UInt8)} : NamedFrom seen (ans :: answers) ↔
    (∀ address, ans.rdata = .address address → ans.name ∈ seen) ∧
      NamedFrom {k | k ∈ seen ∨ target ans = some k} answers := by
  constructor
  · intro h
    refine ⟨fun address ha => ?_, fun pre a post address heq ha => ?_⟩
    · exact (h [] ans answers address rfl ha).resolve_right List.not_mem_nil
    · rcases h (ans :: pre) a post address (by rw [heq, List.cons_append]) ha with hs | ht
      · exact .inl (.inl hs)
      · rcases mem_targets_cons.1 ht with ht | ht
        · exact .inl (.inr ht)
        · exact .inr ht
  · rintro ⟨h0, h⟩ pre a post address heq ha
    rcases List.cons_eq_append_iff.1 heq with ⟨rfl, heq⟩ | ⟨pre, rfl, heq⟩
    · obtain ⟨rfl, -⟩ := List.cons.inj heq
      exact .inl (h0 address ha)
    · have heq' : answers = pre ++ a :: post := (List.cons.inj heq).2
      rcases h pre a post address heq' ha with (hs | ht) | ht
      · exact .inl hs
      · exact .inr (mem_targets_cons.2 (.inl ht))
      · exact .inr (mem_targets_cons.2 (.inr ht))

/-- The loop has no error of Lua where every address is named. -/
theorem srvServers_iff :
    (∃ r, srvServers answers servers = .ok r) ↔ NamedFrom {k | k ∈ keys servers} answers := by
  induction answers generalizing servers with
  | nil =>
    refine iff_of_true ⟨servers, rfl⟩ fun pre ans post address heq => ?_
    simp at heq
  | cons ans answers ih =>
    rw [namedFrom_cons]
    cases hr : ans.rdata with
    | address address =>
      have ht : target ans = none := by rw [target, hr]
      cases hf : servers.find? (·.1 == ans.name) with
      | none =>
        rw [srvServers_unnamed hr hf]
        refine iff_of_false ?_ fun h => ?_
        · rintro ⟨r, hr⟩
          cases hr
        · exact find_eq_none.1 hf (h.1 address rfl)
      | some e =>
        have hkey := mem_keys_of_find hf
        rw [srvServers_named hr hf, ih, keys_setServer_old hkey]
        simp [ht, hkey]
    | srv prio weight port t =>
      have ht : target ans = some t := by rw [target, hr]
      rw [srvServers_srv hr, ih]
      simp [mem_keys_setServer, ht, eq_comm]
    | txt txt =>
      have ht : target ans = none := by rw [target, hr]
      rw [srvServers_txt hr, ih]
      simp [ht]

theorem srvServers_keys (h : srvServers answers servers = .ok r) (hn : (keys servers).Nodup) :
    (keys r).Nodup ∧ ∀ k, k ∈ keys r ↔ k ∈ keys servers ∨ k ∈ targets answers := by
  induction answers generalizing servers with
  | nil =>
    cases h
    exact ⟨hn, by simp [targets]⟩
  | cons ans answers ih =>
    simp only [mem_targets_cons]
    cases hr : ans.rdata with
    | address address =>
      have ht : target ans = none := by rw [target, hr]
      cases hf : servers.find? (·.1 == ans.name) with
      | none =>
        rw [srvServers_unnamed hr hf] at h
        cases h
      | some e =>
        have hkey := mem_keys_of_find hf
        rw [srvServers_named hr hf] at h
        obtain ⟨h1, h2⟩ := ih h (keys_setServer_nodup hn)
        rw [keys_setServer_old hkey] at h2
        exact ⟨h1, by simpa [ht] using h2⟩
    | srv prio weight port t =>
      have ht : target ans = some t := by rw [target, hr]
      rw [srvServers_srv hr] at h
      obtain ⟨h1, h2⟩ := ih h (keys_setServer_nodup hn)
      refine ⟨h1, fun k => (h2 k).trans ?_⟩
      rw [mem_keys_setServer, ht, Option.some.injEq, or_assoc, eq_comm]
    | txt txt =>
      have ht : target ans = none := by rw [target, hr]
      rw [srvServers_txt hr] at h
      obtain ⟨h1, h2⟩ := ih h hn
      exact ⟨h1, by simpa [ht] using h2⟩

/-- The entry of the table is that of the SRV record. -/
def GivesAt (all : List Ans) (ans : Ans) (e : List UInt8 × SrvServer) : Prop :=
  target ans = some e.1 ∧ Gives all ans e.2

/-- With distinct targets, each SRV record has its own entry, in order. -/
theorem srvServers_gives {all done : List Ans} (h : srvServers answers servers = .ok r)
    (hn : (keys servers ++ targets answers).Nodup) (hall : ∀ a ∈ answers, a ∈ all)
    (hs : List.Forall₂ (GivesAt all) done servers) :
    List.Forall₂ (GivesAt all) (done ++ srvRecords answers) r := by
  induction answers generalizing servers done with
  | nil =>
    cases h
    simpa [srvRecords] using hs
  | cons ans answers ih =>
    have hall' : ∀ a ∈ answers, a ∈ all := fun a ha => hall a (List.mem_cons_of_mem _ ha)
    cases hr : ans.rdata with
    | address address =>
      have ht : target ans = none := by rw [target, hr]
      have htargets : targets (ans :: answers) = targets answers := by simp [targets, ht]
      have hrecords : srvRecords (ans :: answers) = srvRecords answers := by simp [srvRecords, ht]
      rw [htargets] at hn
      rw [hrecords]
      cases hf : servers.find? (·.1 == ans.name) with
      | none =>
        rw [srvServers_unnamed hr hf] at h
        cases h
      | some e =>
        have hkey := mem_keys_of_find hf
        rw [srvServers_named hr hf] at h
        refine ih h (by rwa [keys_setServer_old hkey]) hall' ?_
        rw [setServer_found hn.of_append_left hf, List.forall₂_map_right_iff]
        refine hs.imp fun a e' hg => ?_
        split
        · rename_i hname
          obtain ⟨h1, t, h2, -⟩ := hg
          refine ⟨h1, t, h2, .inr ⟨ans, hall _ List.mem_cons_self, ?_, address, hr, rfl⟩⟩
          rw [target, h2] at h1
          rw [← hname]
          exact (Option.some.inj h1).symm
        · exact hg
    | srv prio weight port t =>
      have ht : target ans = some t := by rw [target, hr]
      have htargets : targets (ans :: answers) = t :: targets answers := by simp [targets, ht]
      have hrecords : srvRecords (ans :: answers) = ans :: srvRecords answers := by
        simp [srvRecords, ht]
      rw [htargets] at hn
      have hkey : t ∉ keys servers := by
        intro hkey
        exact (List.nodup_append.1 hn).2.2 t hkey t List.mem_cons_self rfl
      rw [srvServers_srv hr] at h
      rw [hrecords, ← List.singleton_append, ← List.append_assoc]
      refine ih h ?_ hall' ?_
      · rw [keys_setServer_new hkey, List.append_assoc, List.singleton_append]
        exact hn
      · rw [setServer_new hkey]
        refine List.rel_append hs (.cons ⟨ht, t, hr, .inl rfl⟩ .nil)
    | txt txt =>
      have ht : target ans = none := by rw [target, hr]
      have htargets : targets (ans :: answers) = targets answers := by simp [targets, ht]
      have hrecords : srvRecords (ans :: answers) = srvRecords answers := by simp [srvRecords, ht]
      rw [srvServers_txt hr] at h
      rw [htargets] at hn
      rw [hrecords]
      exact ih h hn hall' hs

/-! ## normalize -/

section
variable {pairs : List SrvServer → List SrvServer}

theorem normalize_srv_ok {ret : List SrvServer} {ttl : Option ℕ} :
    normalize pairs QTYPE.SRV answers = .ok (.servers ret, ttl) ↔
      ∃ r, srvServers answers [] = .ok r ∧ ret = pairs (r.map Prod.snd) ∧
        ttl = ret.getLast?.map SrvServer.ttl := by
  have hA : ¬ (QTYPE.SRV = QTYPE.A ∨ QTYPE.SRV = QTYPE.AAAA) := by decide
  rw [normalize, if_neg hA, if_pos rfl, Lib.bind_eq_ok]
  refine exists_congr fun r => and_congr_right fun _ => ?_
  constructor
  · intro h
    obtain ⟨h1, h2⟩ := Prod.mk.inj (Except.ok.inj h)
    obtain rfl := Resolved.servers.inj h1
    exact ⟨rfl, h2.symm⟩
  · rintro ⟨rfl, rfl⟩
    rfl

theorem length_targets (answers : List Ans) :
    (targets answers).length = (srvRecords answers).length := by
  induction answers with
  | nil => rfl
  | cons ans answers ih =>
    cases ht : target ans with
    | none => simpa [targets, srvRecords, ht] using ih
    | some t => simpa [targets, srvRecords, ht] using ih

/-- **`normalize` gives one server for each SRV record exactly when their targets are
    distinct and every address is one of a target before it.** -/
theorem normalize_lossless_iff (hp : ∀ l, (pairs l).Perm l) :
    Lossless pairs answers ↔ (targets answers).Nodup ∧ Named answers := by
  have hnamed : (∃ r, srvServers answers [] = .ok r) ↔ Named answers := by
    rw [srvServers_iff, ← namedFrom_empty]
    simp [keys]
  constructor
  · rintro ⟨ret, ttl, hnorm, l, hperm, hl⟩
    obtain ⟨r, hr, rfl, -⟩ := normalize_srv_ok.1 hnorm
    refine ⟨?_, hnamed.1 ⟨r, hr⟩⟩
    -- the table has as many keys as there are SRV records
    obtain ⟨hnodup, hkeys⟩ := srvServers_keys hr List.nodup_nil
    have hlen : (keys r).length = (targets answers).length := by
      rw [length_targets, hl.length_eq, ← hperm.length_eq, (hp _).length_eq, keys, List.length_map,
        List.length_map]
    have hsub : keys r ⊆ targets answers :=
      fun k hk => ((hkeys k).1 hk).resolve_left List.not_mem_nil
    have hsubperm : (keys r).Subperm (targets answers) := List.subperm_of_subset hnodup hsub
    exact (hsubperm.perm_of_length_le hlen.ge).nodup_iff.1 hnodup
  · rintro ⟨hnodup, hn⟩
    obtain ⟨r, hr⟩ := hnamed.2 hn
    have hnil : List.Forall₂ (GivesAt answers) [] [] := .nil
    have hgives := srvServers_gives hr hnodup (fun _ ha => ha) hnil
    refine ⟨_, _, normalize_srv_ok.2 ⟨r, hr, rfl, rfl⟩, r.map Prod.snd, hp _, ?_⟩
    rw [List.forall₂_map_right_iff]
    exact hgives.imp fun _ _ hg => hg.2

/-- An SRV record of the port `port` of the target `a`. -/
def srvRecord (port : ℕ) : Ans := ⟨SECTION.AN, [115], QTYPE.SRV, 1, 60, .srv 1 1 port [97]⟩

/-- The address of `a`. -/
def addressRecord : Ans := ⟨SECTION.AR, [97], QTYPE.A, 1, 60, .address "192.0.2.1"⟩

theorem normalize_lossless_one : Lossless id [srvRecord 80, addressRecord] ↔
    (targets [srvRecord 80, addressRecord]).Nodup ∧ Named [srvRecord 80, addressRecord] :=
  normalize_lossless_iff fun _ => .refl _

/-- Of two ports of a target, one is lost. -/
theorem normalize_not_lossless :
    ¬ ∀ pairs : List SrvServer → List SrvServer, (∀ l, (pairs l).Perm l) →
    ∀ answers, Lossless pairs answers := by
  intro h
  obtain ⟨ret, ttl, hnorm, l, hperm, hl⟩ := h id (fun _ => .refl _) [srvRecord 80, srvRecord 81]
  obtain ⟨r, hr, rfl, -⟩ := normalize_srv_ok.1 hnorm
  cases hr
  have hlen := hl.length_eq
  rw [← hperm.length_eq] at hlen
  exact absurd hlen (by decide)

end

end Dns

end Levent
