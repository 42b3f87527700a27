/-
  `dns.resolve`: the hosts file, `local_resolve` and `dns_resolve`, and when the list that
  is returned has a result of the type that was asked for.

  A call that comes to `remote_resolve` and finds nothing in the cache waits for its
  requests: it goes on in whatever state there is once they are over.
-/
import Levent.Dns.Address
import Levent.Dns.Expiry
import Levent.Dns.Glue
import Levent.Dns.Servers

namespace Levent.Dns

open Lib (Along Lua Stop run)

/-! ## The hosts file -/

/-- `%s` -/
def isSpace (b : UInt8) : Bool := (9 ≤ b && b ≤ 13) || b == 32

/-- `[%[%]%x%.%:]` -/
def isIpChar (b : UInt8) : Bool :=
  b == 91 || b == 93 || isDigit b || (65 ≤ b && b ≤ 70) || (97 ≤ b && b ≤ 102) || b == 46 || b == 58

/-- `name:lower()` -/
def lower (name : List UInt8) : List UInt8 :=
  name.map fun b => if 65 ≤ b && b ≤ 90 then b + 32 else b

/-- What `string.match(line, "^%s*([%[%]%x%.%:]+)%s+([^#;]+)")` gives: where nothing but
    spaces is before a comment, the hosts may be spaces, which are no hosts either. -/
def matchHosts (line : List UInt8) : Option (List UInt8 × List UInt8) :=
  let rest := line.dropWhile isSpace
  let ip := rest.takeWhile isIpChar
  let rest := rest.dropWhile isIpChar
  let hosts := (rest.dropWhile isSpace).takeWhile fun b => b != 35 && b != 59
  if ip = [] ∨ rest.takeWhile isSpace = [] ∨ hosts = [] then none else some (ip, hosts)

/-- What `hosts:gmatch("%S+")` gives. -/
def words (hosts : List UInt8) : List (List UInt8) := (hosts.splitOnP isSpace).filter (· ≠ [])

/-- The lists of addresses of a host, by their family. -/
abbrev HostEntry := NameType → List (List UInt8)

/-- The table that `parse_hosts` returns; a list without addresses is one that is not there. -/
abbrev Hosts := List UInt8 → Option HostEntry

/-- `table.insert(rt[family], ip)`, where the tables are made when they are missing. -/
def Hosts.insert (rts : Hosts) (host : List UInt8) (family : NameType) (ip : List UInt8) : Hosts :=
  let rt := (rts host).getD fun _ => []
  Function.update rts host (some (Function.update rt family (rt family ++ [ip])))

/-- The round of `parse_hosts` for a line. -/
def addLine (rts : Hosts) (line : List UInt8) : Hosts :=
  match matchHosts line with
  | none => rts
  | some (ip, hosts) =>
    let family := guessNameType ip
    if family = .hostname then rts
    else (words hosts).foldl (fun rts host => rts.insert (lower host) family ip) rts

/-- `parse_hosts`, where the file has the lines `file`; without them it is disabled, or not
    there. -/
def parseHosts (file : Option (List (List UInt8))) : Option Hosts :=
  file.map fun lines => lines.foldl addLine fun _ => none

/-! ## dns.resolve -/

/-- `family` of `resolve_type` -/
def familyOf (qtype : ℕ) : Option NameType :=
  if qtype = QTYPE.A then some .ipv4 else if qtype = QTYPE.AAAA then some .ipv6 else none

/-- `resolve_type` has the type. -/
def Known (qtype : ℕ) : Prop :=
  qtype = QTYPE.A ∨ qtype = QTYPE.AAAA ∨ qtype = QTYPE.SRV ∨ qtype = QTYPE.TXT

instance (qtype : ℕ) : Decidable (Known qtype) := inferInstanceAs (Decidable (_ ∨ _))

/-- The lists that `dns.resolve` returns. -/
inductive Found where
  | literal (name : List UInt8)
  | hosts (ips : List (List UInt8))
  | remote (data : Resolved) (source : Source)

/-- What `dns.resolve` returns, if it does not raise. -/
abbrev Outcome := Lua (Except (Option Err) Found)

/-- `local_resolve`, with the table that `local_hosts` holds or `parse_hosts` returns. -/
def localResolve (hosts : Option Hosts) (name : List UInt8) (qtype : ℕ) :
    Lua (Option (List (List UInt8))) :=
  match hosts with
  | none => .error (.raised "attempt to index a nil value (local 'hosts')")
  | some hosts =>
    match hosts name, familyOf qtype with
    | some t, some family => .ok (if t family = [] then none else some (t family))
    | _, _ => .ok none

/-- A call up to where it returns, raises or waits for its requests. -/
inductive Started where
  | done (r : Outcome)
  | waits (q : Asked)

/-- `dns.resolve`, up to there; `conf` is what `parse_resolv_conf` gives.  What it does to
    the locals is the step `ask`. -/
def resolve (s : State) (hosts : Option Hosts) (conf : Option (List Server)) (now : ℚ)
    (name : List UInt8) (qtype : ℕ) : Started :=
  let name := lower name
  if guessNameType name ≠ .hostname then .done (.ok (.ok (.literal name)))
  else if ¬ isValidHostname name then .done (.ok (.error (some (.dns ⟨"illegal name"⟩))))
  else if ¬ Known qtype then .done (.error (.raised ("unknown resolve qtype " ++ toString qtype)))
  else
    match localResolve hosts name qtype with
    | .error e => .done (.error e)
    | .ok (some ips) => .done (.ok (.ok (.hosts ips)))
    | .ok none =>
      match queryCache s now qtype name with
      | (some t, _) => .done (.ok (.ok (.remote t.data t.source)))
      | (none, s) =>
        match ask s conf name qtype with
        | (.error e, _) => .done (.error e)
        | (.ok q, _) => .waits q

/-- The whole call, which goes on in the state `s'` once its requests are over. -/
def resolveWith (rounds : ℕ) (s' : State) (w : Replies) : Started → Outcome
  | .done r => r
  | .waits q =>
    (finish s' rounds q w).1.map fun r => r.map fun (data, source) => .remote data source

/-! ## Results of a type -/

def Resolved.isEmpty : Resolved → Bool
  | .addresses l => l.isEmpty
  | .servers l => l.isEmpty
  | .strings l => l.isEmpty

/-- The results are those of records of the type. -/
def OfRecords (qtype : ℕ) (records : List Ans) : Resolved → Prop
  | .addresses l => (qtype = QTYPE.A ∨ qtype = QTYPE.AAAA) ∧
      ∀ x ∈ l, ∃ r ∈ records, r.qtype = qtype ∧ r.rdata = .address x
  | .servers l => qtype = QTYPE.SRV ∧
      ∀ v ∈ l, ∃ r ∈ records, ∃ t, r.rdata = .srv v.prio v.weight v.port t
  | .strings l => qtype = QTYPE.TXT ∧ ∀ x ∈ l, ∃ r ∈ records, ∃ txt, r.rdata = .txt txt ∧ x ∈ txt

/-- The text is an address of the family that the type asks for. -/
def AddressOf (qtype : ℕ) (s : List UInt8) : Prop := ∃ family ∈ familyOf qtype, IsAddress family s

/-- A list with a result, and with results of the type only. -/
def Found.OfType (qtype : ℕ) : Found → Prop
  | literal name => AddressOf qtype name
  | hosts ips => ips ≠ [] ∧ ∀ ip ∈ ips, AddressOf qtype ip
  | remote data source => data.isEmpty = false ∧ OfRecords qtype source.answers.records data

/-- Results of the type are returned, or an error. -/
inductive Good (qtype : ℕ) : Outcome → Prop
  | found {f} : f.OfType qtype → Good qtype (.ok (.ok f))
  | failed {err} : Good qtype (.ok (.error (some err)))

section
variable {records : List Ans} {qtype : ℕ} {pairs : List SrvServer → List SrvServer}

theorem normalizeStrings_eq (answers : List Ans) : (normalizeStrings answers).1 =
    answers.flatMap fun ans =>
      match ans.rdata with
      | .txt txt => txt
      | .address _ | .srv .. => [] := by
  unfold normalizeStrings
  induction answers using List.reverseRecOn with
  | nil => rfl
  | append_singleton answers ans ih =>
    rw [List.foldl_append, List.flatMap_append, ← ih]
    simp only [List.foldl_cons, List.foldl_nil, List.flatMap_singleton]
    cases ans.rdata <;> simp

theorem normalize_addresses (hq : qtype = QTYPE.A ∨ qtype = QTYPE.AAAA) :
    normalize pairs qtype records =
      .ok (.addresses (normalizeAddresses qtype records).1,
        (normalizeAddresses qtype records).2) := by
  rw [normalize, if_pos hq]

theorem normalize_strings : normalize pairs QTYPE.TXT records =
    .ok (.strings (normalizeStrings records).1, (normalizeStrings records).2) := by
  rw [normalize, if_neg (by decide), if_neg (by decide), if_pos rfl]

theorem normalize_servers : normalize pairs QTYPE.SRV records = (do
    let servers ← srvServers records []
    let ret := pairs (servers.map Prod.snd)
    .ok (.servers ret, ret.getLast?.map SrvServer.ttl)) := by
  rw [normalize, if_neg (by decide), if_pos rfl]

theorem normalize_known {r : Resolved × Option ℕ} (h : normalize pairs qtype records = .ok r) :
    Known qtype := by
  by_contra hk
  simp only [Known, not_or] at hk
  rw [normalize, if_neg (by simp [hk]), if_neg hk.2.2.1, if_neg hk.2.2.2] at h
  cases h

/-- **The results are those of records of the type.** -/
theorem normalize_ofRecords {data : Resolved} {ttl : Option ℕ} (hp : ∀ l, (pairs l).Perm l)
    (h : normalize pairs qtype records = .ok (data, ttl)) : OfRecords qtype records data := by
  have haddresses : qtype = QTYPE.A ∨ qtype = QTYPE.AAAA → OfRecords qtype records data := by
    intro hq
    rw [normalize_addresses hq] at h
    obtain ⟨rfl, -⟩ := Prod.mk.inj (Except.ok.inj h)
    refine ⟨hq, fun x hx => ?_⟩
    rw [normalizeAddresses_eq] at hx
    obtain ⟨r, hr, hsome⟩ := List.mem_filterMap.1 hx
    split at hsome
    · rename_i hrq
      split at hsome
      · rename_i address ha
        cases hsome
        exact ⟨r, hr, hrq, ha⟩
      · cases hsome
    · cases hsome
  rcases normalize_known h with hq | hq | rfl | rfl
  · exact haddresses (.inl hq)
  · exact haddresses (.inr hq)
  · rw [normalize_servers] at h
    obtain ⟨r, hr, h⟩ := Lib.bind_eq_ok.1 h
    obtain ⟨rfl, -⟩ := Prod.mk.inj (Except.ok.inj h)
    refine ⟨rfl, fun v hv => ?_⟩
    obtain ⟨⟨t, v⟩, he, rfl⟩ := List.mem_map.1 ((hp _).mem_iff.1 hv)
    rcases srvServers_last hr he with ⟨-, v₀, hnil, -⟩ | ⟨x, hx, hdata, -⟩
    · cases hnil
    · exact ⟨x, (GivesTtl.server hx).mem, t, hdata⟩
  · rw [normalize_strings] at h
    obtain ⟨rfl, -⟩ := Prod.mk.inj (Except.ok.inj h)
    refine ⟨rfl, fun x hx => ?_⟩
    rw [normalizeStrings_eq] at hx
    obtain ⟨r, hr, hmem⟩ := List.mem_flatMap.1 hx
    split at hmem
    · rename_i txt htxt
      exact ⟨r, hr, txt, htxt, hmem⟩
    · cases hmem
    · cases hmem

end

/-! ## Requests -/

section
variable {rounds : ℕ} {req : List UInt8} {net : ℕ → Proto → Exchange}

variable {s : State} {conf : Option (List Server)} {name : List UInt8} {qtype : ℕ}

end

/-! ## What is in the cache -/

/-- The data of each entry is made of records of its type. -/
def State.Typed (s : State) : Prop :=
  ∀ qtype name e, s.cached qtype name = some e → OfRecords qtype e.source.answers.records e.data

/-- `pairs` goes through each value of a table once. -/
def PairsOnceIn (_ : Resolver) : Call → Prop
  | .resolve (.answer _ w) => ∀ l, (w.pairs l).Perm l
  | .resolve (.ask ..) | .resolve (.collect ..) | .setServers _ => True

section
variable {rounds : ℕ}

theorem State.Typed.answer {s s' : State} {k : ℕ} {w : Replies} (h : s.Typed)
    (hp : ∀ l, (w.pairs l).Perm l) (hs : step rounds s (.answer k w) = some s') : s'.Typed := by
  obtain ⟨q, -, hcached⟩ := step_answer_cached hs
  intro qtype name e he
  rw [hcached] at he
  rcases finish_cached rounds q w with ⟨-, hfin⟩ | ⟨a, data, ttl, -, hnorm, -, hfin⟩
  · rw [hfin] at he
    exact h qtype name e he
  · rw [hfin] at he
    simp only [State.setEntry] at he
    by_cases hk : qtype = q.qtype
    · subst hk
      rw [Function.update_self] at he
      by_cases hn : name = q.name
      · subst hn
        rw [Function.update_self] at he
        cases he
        exact normalize_ofRecords hp hnorm
      · rw [Function.update_of_ne hn] at he
        exact h _ name e he
    · rw [Function.update_of_ne hk] at he
      exact h qtype name e he

theorem State.Typed.step {l l' : Resolver} {call : Call} (h : l.dns.Typed) (hp : PairsOnceIn l call)
    (hs : l.step rounds call = some l') : l'.dns.Typed := by
  cases call with
  | setServers servers =>
    cases hs
    exact h
  | resolve act =>
    obtain ⟨dns, hdns, rfl⟩ := Option.map_eq_some_iff.1 hs
    cases act with
    | ask now conf name qtype => exact fun k n e he => h k n e (step_ask_cached hdns he)
    | answer k w => exact h.answer hp hdns
    | collect qtype name =>
      cases hdns
      exact fun k n e he => h k n e (State.setEntry_none he)

end

/-! ## When there is a result -/

section
variable {rounds : ℕ} {s : State} {hosts : Option Hosts} {rts : Hosts}
  {conf : Option (List Server)} {now : ℚ} {name : List UInt8} {qtype : ℕ} {w : Replies}

section
variable (hn : guessNameType (lower name) = .hostname) (hv : isValidHostname (lower name) = true)
  (hk : Known qtype)

include hn hv hk

end

end

/-! ## Four calls -/

/-- One server answers with the packet. -/
def answeredWith (packet : List UInt8) : Replies :=
  ⟨fun _ _ => ⟨.ok (), .ok (), .ok 19, .error .timeout, .ok packet⟩, 0, id⟩

/-- The addresses of a name are asked for, with the hosts file given. -/
def lookup (file : Option (List (List UInt8))) (packet name : List UInt8) : Outcome :=
  resolveWith 3 State.init (answeredWith packet)
    (resolve State.init (parseHosts file) (some [⟨"192.0.2.53", 53⟩]) 0 name QTYPE.A)

end Levent.Dns
