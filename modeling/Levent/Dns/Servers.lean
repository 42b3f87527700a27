/-
  The list of name servers: `dns.set_servers`, and what the calls of
  `remote_resolve` write back.

  A call reads the list when it starts, and writes it back in another order when
  its requests are over.  `set` is not part of the program: it records the list
  that was last given to `set_servers`, or read from `resolv.conf`.
-/
import Levent.Dns.Resolve
import Mathlib.Data.List.InsertIdx

namespace Levent.Dns

open Lib (Lua Stop Along run)

/-! ## set_servers -/

def DEFAULT_PORT : ℕ := 53

/-- An element of the argument of `set_servers`: a table, or a host. -/
inductive ServerArg where
  | table (host : Option String) (port : Option ℕ)
  | name (host : String)

/-- The server that is meant, if it has a host. -/
def ServerArg.server : ServerArg → Option Server
  | table host port => host.map fun host => ⟨host, port.getD DEFAULT_PORT⟩
  | name host => some ⟨host, DEFAULT_PORT⟩

/-- The loop of `set_servers`: `dns_addrs` is filled while it goes. -/
def setServers : List ServerArg → List Server → Lua Unit × List Server
  | [], addrs => (.ok (), addrs)
  | .table none _ :: _, addrs => (.error (.raised "assertion failed!"), addrs)
  | .table (some host) port :: servers, addrs =>
    setServers servers (addrs ++ [⟨host, port.getD DEFAULT_PORT⟩])
  | .name host :: servers, addrs => setServers servers (addrs ++ [⟨host, DEFAULT_PORT⟩])

/-- A call whose elements all have hosts stores them. -/
theorem setServers_eq {servers : List ServerArg} : ∀ {l addrs : List Server},
    servers.mapM ServerArg.server = some l → setServers servers addrs = (.ok (), addrs ++ l) := by
  induction servers with
  | nil =>
    intro l addrs h
    cases h
    rw [setServers]
    exact congrArg (Prod.mk _) (List.append_nil addrs).symm
  | cons server servers ih =>
    intro l addrs h
    rw [List.mapM_cons, Option.bind_eq_bind, Option.bind_eq_some_iff] at h
    obtain ⟨x, hx, h⟩ := h
    obtain ⟨xs, hxs, h⟩ := Option.bind_eq_some_iff.1 h
    cases h
    have hgo : setServers (server :: servers) addrs = setServers servers (addrs ++ [x]) := by
      rcases server with ⟨_ | host, port⟩ | host <;> cases hx <;> rfl
    rw [hgo, ih hxs, List.append_assoc, List.singleton_append]

/-! ## get_nameservers -/

/-- `get_nameservers`, where `parse_resolv_conf` gives `conf`. -/
def getNameservers (s : State) (conf : Option (List Server)) : Lua (List Server) :=
  match s.dnsAddrs.or conf with
  | none => .error (.raised "parse resolve conf failed")
  | some servers => .ok servers

theorem getNameservers_some {s : State} {l : List Server} (h : s.dnsAddrs = some l)
    (conf : Option (List Server)) : getNameservers s conf = .ok l := by
  simp [getNameservers, h]

/-- A call that starts leaves the list as it is, or reads it. -/
theorem ask_dnsAddrs (s : State) (conf : Option (List Server)) (name : List UInt8) (qtype : ℕ) :
    (ask s conf name qtype).2.pending = s.pending ∧
      ((ask s conf name qtype).2.dnsAddrs = s.dnsAddrs ∨
        s.dnsAddrs = none ∧ (ask s conf name qtype).2.dnsAddrs = conf) ∧
      ∀ q, (ask s conf name qtype).1 = .ok q →
        (ask s conf name qtype).2.dnsAddrs = some q.nameservers := by
  simp only [ask]
  split
  · exact ⟨rfl, .inl rfl, nofun⟩
  · cases hs : s.dnsAddrs with
    | none =>
      cases conf with
      | none => exact ⟨rfl, .inl rfl, nofun⟩
      | some servers => exact ⟨rfl, .inr ⟨rfl, rfl⟩, fun q hq => by cases hq; rfl⟩
    | some servers => exact ⟨rfl, .inl rfl, fun q hq => by cases hq; rfl⟩

/-! ## The list that a call writes back -/

section
variable {rounds : ℕ} {req : List UInt8} {net : ℕ → Proto → Exchange}

/-- A round of the loop goes on with the server last, or after those that have
    answered. -/
theorem askServers_next {i : ℕ} {server : Server} {servers : List Server} {result : Option Answers}
    {err : Option Err} {valid : List Server} {amount : ℕ} {r : Option Answers × Option Err × List Server}
    (h : askServers rounds req net i (server :: servers) result err valid amount = .ok r) :
    ∃ result' err',
      askServers rounds req net (i + 1) servers result' err' (valid ++ [server]) amount = .ok r ∨
      askServers rounds req net (i + 1) servers result' err' (valid.insertIdx amount server)
        (amount + 1) = .ok r := by
  have hif : ∀ (result' : Option Answers) (err' : Option Err),
      (if err' = some .timeout then
        askServers rounds req net (i + 1) servers result' err' (valid ++ [server]) amount
      else askServers rounds req net (i + 1) servers result' err' (valid.insertIdx amount server)
        (amount + 1)) = .ok r →
      ∃ result' err',
        askServers rounds req net (i + 1) servers result' err' (valid ++ [server]) amount = .ok r ∨
        askServers rounds req net (i + 1) servers result' err' (valid.insertIdx amount server)
          (amount + 1) = .ok r := by
    intro result' err' h
    refine ⟨result', err', ?_⟩
    split at h
    · exact .inl h
    · exact .inr h
  cases result with
  | some a => exact hif _ _ h
  | none =>
    rw [askServers] at h
    obtain ⟨x, -, h⟩ := Lib.bind_eq_ok.1 h
    rcases x with e | a
    · exact hif none (some e) h
    · exact hif (some a) none h

/-- The loop over the servers puts each of them into the new list once. -/
theorem askServers_perm (servers : List Server) : ∀ {i : ℕ} {result result' : Option Answers} {err err' : Option Err}
      {valid valid' : List Server} {amount : ℕ}, amount ≤ valid.length →
      askServers rounds req net i servers result err valid amount = .ok (result', err', valid') →
      valid'.Perm (servers ++ valid) := by
  induction servers with
  | nil =>
    intro i result result' err err' valid valid' amount _ h
    cases h
    exact .refl _
  | cons server servers ih =>
    intro i result result' err err' valid valid' amount hle h
    have hcons : (servers ++ server :: valid).Perm (server :: servers ++ valid) := List.perm_middle
    obtain ⟨result₁, err₁, h | h⟩ := askServers_next h
    · have hlast : (valid ++ [server]).Perm (server :: valid) := List.perm_append_singleton _ _
      exact ((ih (by simp; omega) h).trans (hlast.append_left servers)).trans hcons
    · have hins := List.perm_insertIdx server valid hle
      have hlen : (valid.insertIdx amount server).length = valid.length + 1 := by
        rw [List.length_insertIdx, if_pos hle]
      exact ((ih (by omega) h).trans (hins.append_left servers)).trans hcons

end

/-- The requests of the waiting call `q` raise an error, so that it does not come
    to `set_nameservers`. -/
def Asked.Raises (rounds : ℕ) (q : Asked) (w : Replies) : Prop :=
  ∃ e, askServers rounds q.req w.net 0 q.nameservers none none [] 0 = .error e

/-- What comes after `set_nameservers` leaves the list as it is. -/
theorem finish_set {rounds : ℕ} {q : Asked} {w : Replies} {result : Option Answers} {err : Option Err}
    {valid : List Server} (s : State)
    (h : askServers rounds q.req w.net 0 q.nameservers none none [] 0 = .ok (result, err, valid)) :
    (finish s rounds q w).2.pending = s.pending ∧
      (finish s rounds q w).2.dnsAddrs = some valid := by
  unfold finish
  rw [h]
  dsimp only
  split
  · exact ⟨rfl, rfl⟩
  · split
    · exact ⟨rfl, rfl⟩
    · split
      · exact ⟨rfl, rfl⟩
      · unfold setCache
        split
        · exact ⟨rfl, rfl⟩
        · split <;> exact ⟨rfl, rfl⟩

/-- **A call ends** with the list it has read, in another order, or raises. -/
theorem finish_dnsAddrs (rounds : ℕ) (s : State) (q : Asked) (w : Replies) :
    (finish s rounds q w).2.pending = s.pending ∧
      (q.Raises rounds w ∧ (finish s rounds q w).2.dnsAddrs = s.dnsAddrs ∨
        ¬ q.Raises rounds w ∧
          ∃ valid, valid.Perm q.nameservers ∧ (finish s rounds q w).2.dnsAddrs = some valid) := by
  cases hask : askServers rounds q.req w.net 0 q.nameservers none none [] 0 with
  | error e =>
    unfold finish
    rw [hask]
    exact ⟨rfl, .inl ⟨⟨e, hask⟩, rfl⟩⟩
  | ok r =>
    obtain ⟨result, err, valid⟩ := r
    obtain ⟨hpending, hset⟩ := finish_set s hask
    have hperm := askServers_perm q.nameservers (Nat.zero_le _) hask
    rw [List.append_nil] at hperm
    refine ⟨hpending, .inr ⟨?_, valid, hperm, hset⟩⟩
    rintro ⟨e, he⟩
    rw [hask] at he
    cases he

/-! ## The list after a step -/

section
variable {rounds : ℕ} {s s' : State}

theorem queryCache_dnsAddrs (s : State) (now : ℚ) (qtype : ℕ) (name : List UInt8) :
    (queryCache s now qtype name).2.dnsAddrs = s.dnsAddrs ∧
      (queryCache s now qtype name).2.pending = s.pending := by
  unfold queryCache
  split
  · exact ⟨rfl, rfl⟩
  · split <;> exact ⟨rfl, rfl⟩

theorem step_ask {now : ℚ} {conf : Option (List Server)} {name : List UInt8} {qtype : ℕ}
    (h : step rounds s (.ask now conf name qtype) = some s') :
    (s'.dnsAddrs = s.dnsAddrs ∨ s.dnsAddrs = none ∧ s'.dnsAddrs = conf) ∧
      ∀ q ∈ s'.pending, q ∈ s.pending ∨ s'.dnsAddrs = some q.nameservers := by
  obtain ⟨haddrs, hpending⟩ := queryCache_dnsAddrs s now qtype name
  simp only [step] at h
  split at h
  · rename_i t s₁ heq
    rw [heq] at haddrs hpending
    cases h
    exact ⟨.inl haddrs, fun q hq => .inl (hpending ▸ hq)⟩
  · rename_i s₁ heq
    rw [heq] at haddrs hpending
    obtain ⟨h1, h2, h3⟩ := ask_dnsAddrs s₁ conf name qtype
    rw [← haddrs, ← hpending]
    split at h
    · rename_i q s₂ hask
      rw [hask] at h1 h2 h3
      cases h
      refine ⟨h2, fun q' hq' => ?_⟩
      rcases List.mem_append.1 hq' with hq' | hq'
      · exact .inl (h1 ▸ hq')
      · rw [List.mem_singleton.1 hq']
        exact .inr (h3 q rfl)
    · rename_i e s₂ hask
      rw [hask] at h1 h2
      cases h
      exact ⟨h2, fun q hq => .inl (h1 ▸ hq)⟩

theorem step_answer {k : ℕ} {w : Replies} (h : step rounds s (.answer k w) = some s') :
    ∃ q, s.pending[k]? = some q ∧ s'.pending = s.pending.eraseIdx k ∧
      (q.Raises rounds w ∧ s'.dnsAddrs = s.dnsAddrs ∨
        ¬ q.Raises rounds w ∧ ∃ valid, valid.Perm q.nameservers ∧ s'.dnsAddrs = some valid) := by
  simp only [step] at h
  split at h
  · cases h
  · rename_i q hq
    have hfin := finish_dnsAddrs rounds { s with pending := s.pending.eraseIdx k } q w
    refine ⟨q, hq, ?_⟩
    split at h
    · rename_i heq
      rw [heq] at hfin
      cases h
      exact hfin
    · cases h
    · rename_i heq
      rw [heq] at hfin
      cases h
      exact hfin

end

/-! ## Steps -/

/-- The locals of `dns.lua`, and the list that was set. -/
structure Resolver where
  dns : State
  set : Option (List Server)

def Resolver.init : Resolver := ⟨State.init, none⟩

inductive Call where
  | resolve (act : Act)
  | setServers (servers : List ServerArg)

/-- One step; when `set_servers` raises, the list is what it has stored. -/
def Resolver.step (rounds : ℕ) (s : Resolver) : Call → Option Resolver
  | .resolve act => (Dns.step rounds s.dns act).map fun dns => ⟨dns, s.set.or dns.dnsAddrs⟩
  | .setServers servers =>
    let (_, addrs) := setServers servers []
    some ⟨{ s.dns with dnsAddrs := some addrs }, (servers.mapM ServerArg.server).or (some addrs)⟩

/-- The list that a call starting now would use is the one that was set, in some
    order. -/
def Resolver.Kept (s : Resolver) : Prop :=
  ∀ l, s.set = some l → ∀ conf servers, getNameservers s.dns conf = .ok servers → servers.Perm l

/-- No call ends here that writes back another list than the one that was set. -/
def InTime (rounds : ℕ) (s : Resolver) : Call → Prop
  | .resolve (.answer k w) => ∀ q, s.dns.pending[k]? = some q →
      q.Raises rounds w ∨ ∀ l, s.set = some l → q.nameservers.Perm l
  | .resolve (.ask ..) | .resolve (.collect ..) | .setServers _ => True

/-- A list is set when there is one. -/
def Resolver.Linked (s : Resolver) : Prop := s.set.isSome = s.dns.dnsAddrs.isSome

variable {rounds : ℕ} {s s' : Resolver}

theorem Resolver.Linked.kept_iff (h : s.Linked) :
    s.Kept ↔ ∀ l servers, s.set = some l → s.dns.dnsAddrs = some servers → servers.Perm l := by
  constructor
  · intro hk l servers hl hs
    exact hk l hl none servers (getNameservers_some hs none)
  · intro hk l hl conf servers hg
    cases hs : s.dns.dnsAddrs with
    | none =>
      rw [Linked, hl, hs] at h
      cases h
    | some servers' =>
      rw [getNameservers_some hs] at hg
      cases hg
      exact hk l _ hl hs

theorem Resolver.Linked.step {call : Call} (h : s.Linked) (hs : s.step rounds call = some s') :
    s'.Linked := by
  rcases call with act | servers
  · obtain ⟨dns, hdns, rfl⟩ := Option.map_eq_some_iff.1 hs
    have hset : ∀ {addrs : Option (List Server)}, dns.dnsAddrs = addrs →
        (s.set.isSome = true → addrs.isSome = true) → (s.set.or dns.dnsAddrs).isSome = dns.dnsAddrs.isSome := by
      rintro _ rfl himp
      cases hs : s.set with
      | none => rfl
      | some l => exact (himp (hs ▸ rfl)).symm
    rcases act with ⟨now, conf, name, qtype⟩ | ⟨k, w⟩ | ⟨qtype, name⟩
    · obtain ⟨h1 | ⟨h1, h2⟩, -⟩ := step_ask hdns
      · exact hset h1 fun hsome => h ▸ hsome
      · exact hset h2 fun hsome => by rw [h, h1] at hsome; cases hsome
    · obtain ⟨q, -, -, ⟨-, h1⟩ | ⟨-, valid, -, h1⟩⟩ := step_answer hdns
      · exact hset h1 fun hsome => h ▸ hsome
      · exact hset h1 fun _ => rfl
    · cases hdns
      exact hset rfl fun hsome => h ▸ hsome
  · cases hs
    cases hm : servers.mapM ServerArg.server <;> simp [Linked]

/-- A list that takes the place of none is kept. -/
theorem perm_or {x y : Option (List Server)} :
    (∀ l servers, x = some l → y = some servers → servers.Perm l) ↔
      ∀ l servers, x.or y = some l → y = some servers → servers.Perm l := by
  cases x with
  | none =>
    refine iff_of_true nofun fun l servers hl hs => ?_
    rw [Option.none_or, hs] at hl
    cases hl
    exact .refl _
  | some l => rfl

/-- **A step keeps the list exactly when no call writes back another one.** -/
theorem inTime_iff {call : Call} (hl : s.Linked) (hk : s.Kept) (hs : s.step rounds call = some s') :
    InTime rounds s call ↔ s'.Kept := by
  rw [(hl.step hs).kept_iff]
  rw [hl.kept_iff] at hk
  rcases call with act | servers
  · obtain ⟨dns, hdns, rfl⟩ := Option.map_eq_some_iff.1 hs
    refine Iff.trans ?_ perm_or
    -- a list that stays is the one that was set, and a list that is read is set
    have hsame : dns.dnsAddrs = s.dns.dnsAddrs →
        ∀ l servers, s.set = some l → dns.dnsAddrs = some servers → servers.Perm l :=
      fun heq l servers hset hsome => hk l servers hset (heq ▸ hsome)
    rcases act with ⟨now, conf, name, qtype⟩ | ⟨k, w⟩ | ⟨qtype, name⟩
    · refine iff_of_true trivial ?_
      obtain ⟨h1 | ⟨h1, h2⟩, -⟩ := step_ask hdns
      · exact hsame h1
      · intro l servers hset hsome
        have hsome' : s.set.isSome = true := by rw [hset]; rfl
        rw [hl, h1] at hsome'
        cases hsome'
    · obtain ⟨q, hq, -, ⟨hr, h1⟩ | ⟨hr, valid, hperm, h1⟩⟩ := step_answer hdns
      · refine iff_of_true (fun q' hq' => ?_) (hsame h1)
        rw [hq] at hq'
        cases hq'
        exact .inl hr
      · constructor
        · intro hC l servers hset hsome
          rw [h1] at hsome
          cases hsome
          exact hperm.trans (((hC q hq).resolve_left hr) _ hset)
        · intro hall q' hq'
          rw [hq] at hq'
          cases hq'
          exact .inr fun l hset => hperm.symm.trans (hall l valid hset h1)
    · refine iff_of_true trivial ?_
      cases hdns
      exact hsame rfl
  · cases hs
    refine iff_of_true trivial (perm_or.1 ?_)
    intro l addrs hset hsome
    rw [setServers_eq hset] at hsome
    cases hsome
    exact .refl _

/-- **The name servers that were set stay exactly as long as no call that has read
    others ends.** -/
theorem setServers_kept_iff {calls : List Call}
    (h : run (Resolver.step rounds) Resolver.init calls = some s) :
    (∀ calls', calls' <+: calls → ∀ s', run (Resolver.step rounds) Resolver.init calls' = some s' →
      s'.Kept) ↔ Along (Resolver.step rounds) (InTime rounds) Resolver.init calls := by
  have hlinked : Resolver.init.Linked := rfl
  have hkept : Resolver.init.Kept := nofun
  exact (Lib.along_iff_forall (I := Resolver.Kept) (J := Resolver.Linked)
    (fun s call s' hl hs => hl.step hs)
    (fun s call s' hl hk hs => inTime_iff hl hk hs) hlinked hkept h).symm

/-! ## Calls that are not in flight while the list is set -/

/-- Every call in flight has read the list that was set. -/
def Resolver.Fresh (s : Resolver) : Prop :=
  ∀ q ∈ s.dns.pending, ∃ l, s.set = some l ∧ q.nameservers.Perm l

/-- The list is not set while a call is in flight. -/
def Quiet (s : Resolver) : Call → Prop
  | .setServers _ => s.dns.pending = []
  | .resolve _ => True

theorem Resolver.Fresh.inTime (h : s.Fresh) (call : Call) : InTime rounds s call := by
  rcases call with (⟨now, conf, name, qtype⟩ | ⟨k, w⟩ | ⟨qtype, name⟩) | servers
  · trivial
  · intro q hq
    obtain ⟨l, hl, hperm⟩ := h q (List.mem_of_getElem? hq)
    refine .inr fun l' hl' => ?_
    rw [hl] at hl'
    cases hl'
    exact hperm
  · trivial
  · trivial

theorem Resolver.Fresh.step {call : Call} (hl : s.Linked) (hf : s.Fresh) (hk : s'.Kept)
    (hC : Quiet s call) (hs : s.step rounds call = some s') : s'.Fresh := by
  have hl' := hl.step hs
  have hk' := hl'.kept_iff.1 hk
  rcases call with act | servers
  · obtain ⟨dns, hdns, rfl⟩ := Option.map_eq_some_iff.1 hs
    have hold : ∀ q ∈ s.dns.pending, ∃ l, s.set.or dns.dnsAddrs = some l ∧ q.nameservers.Perm l := by
      intro q hq
      obtain ⟨l, hset, hperm⟩ := hf q hq
      exact ⟨l, by rw [hset, Option.some_or], hperm⟩
    intro q hq
    rcases act with ⟨now, conf, name, qtype⟩ | ⟨k, w⟩ | ⟨qtype, name⟩
    · rcases (step_ask hdns).2 q hq with hq | hq
      · exact hold q hq
      · -- the list that a new call has read is the one in place
        obtain ⟨l, hset⟩ : ∃ l, s.set.or dns.dnsAddrs = some l :=
          Option.isSome_iff_exists.1 (hl'.trans (hq ▸ rfl))
        exact ⟨l, hset, hk' l _ hset hq⟩
    · obtain ⟨-, -, hpending, -⟩ := step_answer hdns
      rw [hpending] at hq
      exact hold q (List.mem_of_mem_eraseIdx hq)
    · cases hdns
      exact hold q hq
  · cases hs
    intro q hq
    rw [show s.dns.pending = [] from hC] at hq
    cases hq

/-- Calls of `remote_resolve` among themselves neither drop nor duplicate a server. -/
theorem inTime_of_quiet {calls : List Call}
    (h : run (Resolver.step rounds) Resolver.init calls = some s)
    (hC : Along (Resolver.step rounds) Quiet Resolver.init calls) :
    Along (Resolver.step rounds) (InTime rounds) Resolver.init calls := by
  refine Along.of_inv (I := fun s => s.Linked ∧ s.Kept ∧ s.Fresh) ?_ ⟨rfl, nofun, nofun⟩ hC h
  rintro s call s' ⟨hl, hk, hf⟩ hC hs
  have hk' : s'.Kept := (inTime_iff hl hk hs).1 (hf.inTime call)
  exact ⟨⟨hl.step hs, hk', hf.step hl hk' hC hs⟩, hf.inTime call⟩

/-! ## Two runs -/

/-- The servers are set to `192.0.2.1`, and a call for the A records of `a` asks
    it. -/
def asksFirst : List Call :=
  [.setServers [.name "192.0.2.1"], .resolve (.ask 0 none [97] 1)]

/-- The only request of the call gets no answer in time. -/
def timesOut : Call :=
  .resolve (.answer 0 ⟨fun _ _ => ⟨.ok (), .ok (), .ok 19, .error .timeout, .error .timeout⟩, 0, id⟩)

/-- While it waits, the servers are set to `192.0.2.2`; then it writes back the list
    with `192.0.2.1`. -/
theorem setServers_not_kept : ∃ s, run (Resolver.step 1) Resolver.init
    (asksFirst ++ [.setServers [.table (some "192.0.2.2") none], timesOut]) = some s ∧ ¬ s.Kept := by
  refine ⟨_, rfl, fun hk => ?_⟩
  have hperm := hk [⟨"192.0.2.2", 53⟩] rfl none _ rfl
  have hhead : "192.0.2.1" = "192.0.2.2" :=
    congrArg Server.host (List.singleton_perm_singleton.1 hperm)
  revert hhead
  decide

theorem setServers_kept_timesOut : ∃ s, run (Resolver.step 1) Resolver.init
    (asksFirst ++ [timesOut]) = some s ∧
      ((∀ calls', calls' <+: asksFirst ++ [timesOut] →
        ∀ s', run (Resolver.step 1) Resolver.init calls' = some s' → s'.Kept) ↔
          Along (Resolver.step 1) (InTime 1) Resolver.init (asksFirst ++ [timesOut])) :=
  ⟨_, rfl, setServers_kept_iff rfl⟩

end Levent.Dns
