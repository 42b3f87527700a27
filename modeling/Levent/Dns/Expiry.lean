/-
  How long an entry of the cache of `dns.lua` is served, and how long the records are
  valid that its data was made from.
-/
import Levent.Dns.Match
import Levent.Dns.Records

namespace Levent.Dns

open Lib (Along run)

/-! ## The records of a list of results -/

def isAddress (ans : Ans) : Bool :=
  match ans.rdata with
  | .address _ => true
  | .srv .. | .txt _ => false

/-- The SRV record is the last one of its target. -/
def LastOfTarget (answers : List Ans) (ans : Ans) : Prop :=
  ∃ pre post t, answers = pre ++ ans :: post ∧ target ans = some t ∧ t ∉ targets post

/-- The data of the record is in the list that `normalize` returns. -/
inductive Used : ℕ → List Ans → Ans → Prop
  | address {qtype answers ans} : qtype = QTYPE.A ∨ qtype = QTYPE.AAAA → ans ∈ answers →
      ans.qtype = qtype → Used qtype answers ans
  | strings {answers ans txt} : ans ∈ answers → ans.rdata = .txt txt → txt ≠ [] →
      Used QTYPE.TXT answers ans
  | server {answers ans} : LastOfTarget answers ans → Used QTYPE.SRV answers ans
  /-- its address is the last one that is given for the target -/
  | host {pre post ans} : isAddress ans = true → ans.name ∉ targets post →
      (∀ b ∈ post, b.name = ans.name → isAddress b = false) →
      Used QTYPE.SRV (pre ++ ans :: post) ans

/-- The ttl of the record may be the one that `normalize` returns: which SRV record that
    is depends on the order of `pairs`. -/
inductive GivesTtl : ℕ → List Ans → Ans → Prop
  | address {qtype pre ans post} : qtype = QTYPE.A ∨ qtype = QTYPE.AAAA → ans.qtype = qtype →
      (∀ b ∈ post, b.qtype ≠ qtype) → GivesTtl qtype (pre ++ ans :: post) ans
  | strings {pre ans post txt} : ans.rdata = .txt txt → (∀ b ∈ post, ∀ txt, b.rdata ≠ .txt txt) →
      GivesTtl QTYPE.TXT (pre ++ ans :: post) ans
  | server {answers ans} : LastOfTarget answers ans → GivesTtl QTYPE.SRV answers ans

/-- The ttl that `normalize` returns is the least of the records whose data it returns. -/
def LeastTtl (qtype : ℕ) (answers : List Ans) : Prop :=
  ∀ x, GivesTtl qtype answers x → ∀ r, Used qtype answers r → x.ttl ≤ r.ttl

/-! ## The ttl of normalize -/

section
variable {answers : List Ans} {qtype : ℕ}

theorem normalizeAddresses_ttl {ttl : ℕ} (hq : qtype = QTYPE.A ∨ qtype = QTYPE.AAAA)
    (h : (normalizeAddresses qtype answers).2 = some ttl) :
    ∃ x, GivesTtl qtype answers x ∧ x.ttl = ttl := by
  unfold normalizeAddresses at h
  induction answers using List.reverseRecOn with
  | nil => cases h
  | append_singleton answers ans ih =>
    rw [List.foldl_append] at h
    simp only [List.foldl_cons, List.foldl_nil] at h
    by_cases ha : ans.qtype = qtype
    · rw [if_pos ha] at h
      refine ⟨ans, .address hq ha fun b hb => (List.not_mem_nil hb).elim, ?_⟩
      split at h <;> exact Option.some.inj h
    · rw [if_neg ha] at h
      obtain ⟨x, hx, rfl⟩ := ih h
      cases hx with
      | @address _ pre x post _ hx hpost =>
        refine ⟨x, ?_, rfl⟩
        rw [List.append_assoc, List.cons_append]
        refine .address hq hx fun b hb => ?_
        rcases List.mem_append.1 hb with hb | hb
        · exact hpost b hb
        · rwa [List.mem_singleton.1 hb]
      | strings => rcases hq with hq | hq <;> cases hq
      | server => rcases hq with hq | hq <;> cases hq

theorem normalizeStrings_ttl {ttl : ℕ} (h : (normalizeStrings answers).2 = some ttl) :
    ∃ x, GivesTtl QTYPE.TXT answers x ∧ x.ttl = ttl := by
  unfold normalizeStrings at h
  induction answers using List.reverseRecOn with
  | nil => cases h
  | append_singleton answers ans ih =>
    rw [List.foldl_append] at h
    simp only [List.foldl_cons, List.foldl_nil] at h
    have hkeep : (∀ txt, ans.rdata ≠ .txt txt) → (∃ x, GivesTtl QTYPE.TXT answers x ∧ x.ttl = ttl) →
        ∃ x, GivesTtl QTYPE.TXT (answers ++ [ans]) x ∧ x.ttl = ttl := by
      rintro ha ⟨x, hx, rfl⟩
      refine ⟨x, ?_, rfl⟩
      generalize hq : QTYPE.TXT = q at hx
      cases hx with
      | address hq' => rcases hq' with rfl | rfl <;> cases hq
      | @strings pre x post txt hx hpost =>
        rw [List.append_assoc, List.cons_append]
        refine .strings hx fun b hb => ?_
        rcases List.mem_append.1 hb with hb | hb
        · exact hpost b hb
        · rwa [List.mem_singleton.1 hb]
      | server => cases hq
    cases ha : ans.rdata with
    | txt txt =>
      rw [ha] at h
      exact ⟨ans, .strings ha fun b hb => (List.not_mem_nil hb).elim, Option.some.inj h⟩
    | address address =>
      rw [ha] at h
      exact hkeep (by simp [ha]) (ih h)
    | srv prio weight port t =>
      rw [ha] at h
      exact hkeep (by simp [ha]) (ih h)

theorem mem_setServer {servers : List (List UInt8 × SrvServer)} {t : List UInt8}
    {server : SrvServer} {e : List UInt8 × SrvServer} (h : e ∈ setServer servers t server) :
    e = (t, server) ∨ e.1 ≠ t ∧ e ∈ servers := by
  by_cases ht : t ∈ keys servers
  · rw [setServer_old ht] at h
    obtain ⟨e', he', rfl⟩ := List.mem_map.1 h
    by_cases hk : e'.1 = t
    · rw [if_pos hk]
      exact .inl rfl
    · rw [if_neg hk]
      exact .inr ⟨hk, he'⟩
  · rw [setServer_new ht] at h
    rcases List.mem_append.1 h with he | he
    · refine .inr ⟨?_, he⟩
      rintro rfl
      exact ht (List.mem_map_of_mem he)
    · exact .inl (List.mem_singleton.1 he)

theorem LastOfTarget.cons {ans x : Ans} (h : LastOfTarget answers x) :
    LastOfTarget (ans :: answers) x := by
  obtain ⟨pre, post, t, rfl, h1, h2⟩ := h
  exact ⟨ans :: pre, post, t, rfl, h1, h2⟩

/-- An entry of the table is one from before, or has the fields and the ttl of the last
    SRV record of its target. -/
theorem srvServers_last {servers r : List (List UInt8 × SrvServer)} {t : List UInt8} {v : SrvServer}
    (h : srvServers answers servers = .ok r) (hv : (t, v) ∈ r) :
    (t ∉ targets answers ∧ ∃ v₀, (t, v₀) ∈ servers ∧ v = { v₀ with host := v.host }) ∨
      ∃ x, LastOfTarget answers x ∧ x.rdata = .srv v.prio v.weight v.port t ∧ x.ttl = v.ttl := by
  induction answers generalizing servers with
  | nil =>
    cases h
    exact .inl ⟨List.not_mem_nil, v, hv, rfl⟩
  | cons ans answers ih =>
    cases hr : ans.rdata with
    | address address =>
      have ht : target ans = none := by rw [target, hr]
      cases hf : servers.find? (·.1 == ans.name) with
      | none =>
        rw [srvServers_unnamed hr hf] at h
        cases h
      | some e =>
        rw [srvServers_named hr hf] at h
        rcases ih h with ⟨hnot, v₀, hmem, heq⟩ | ⟨x, hx, h1⟩
        · refine .inl ⟨by simpa [mem_targets_cons, ht] using hnot, ?_⟩
          rcases mem_setServer hmem with he | ⟨-, he⟩
          · obtain ⟨rfl, rfl⟩ := Prod.mk.inj he
            have he1 : e.1 = ans.name := by simpa using List.find?_some hf
            exact ⟨e.2, he1 ▸ List.mem_of_find?_eq_some hf, heq⟩
          · exact ⟨v₀, he, heq⟩
        · exact .inr ⟨x, hx.cons, h1⟩
    | srv prio weight port t' =>
      have ht : target ans = some t' := by rw [target, hr]
      rw [srvServers_srv hr] at h
      rcases ih h with ⟨hnot, v₀, hmem, heq⟩ | ⟨x, hx, h1⟩
      · rcases mem_setServer hmem with he | ⟨hne, he⟩
        · obtain ⟨rfl, rfl⟩ := Prod.mk.inj he
          refine .inr ⟨ans, ⟨[], answers, t, rfl, ht, hnot⟩, ?_⟩
          rw [heq]
          exact ⟨hr, rfl⟩
        · refine .inl ⟨fun hmem' => ?_, v₀, he, heq⟩
          rcases mem_targets_cons.1 hmem' with ht' | hmem'
          · exact hne (Option.some.inj (ht'.symm.trans ht))
          · exact hnot hmem'
      · exact .inr ⟨x, hx.cons, h1⟩
    | txt txt =>
      have ht : target ans = none := by rw [target, hr]
      rw [srvServers_txt hr] at h
      rcases ih h with ⟨hnot, hold⟩ | ⟨x, hx, h1⟩
      · exact .inl ⟨by simpa [mem_targets_cons, ht] using hnot, hold⟩
      · exact .inr ⟨x, hx.cons, h1⟩

/-- **The ttl of the results is that of a record.** -/
theorem normalize_ttl {pairs : List SrvServer → List SrvServer} {data : Resolved} {ttl : ℕ}
    (hp : ∀ l, (pairs l).Perm l) (h : normalize pairs qtype answers = .ok (data, some ttl)) :
    ∃ x, GivesTtl qtype answers x ∧ x.ttl = ttl := by
  unfold normalize at h
  split at h
  · rename_i hq
    exact normalizeAddresses_ttl hq (Prod.mk.inj (Except.ok.inj h)).2
  · split at h
    · rename_i hq
      subst hq
      obtain ⟨r, hr, h⟩ := Lib.bind_eq_ok.1 h
      obtain ⟨-, hlast⟩ := Prod.mk.inj (Except.ok.inj h)
      obtain ⟨v, hv, rfl⟩ := Option.map_eq_some_iff.1 hlast
      have hmem : v ∈ r.map Prod.snd := (hp _).mem_iff.1 (List.mem_of_getLast? hv)
      obtain ⟨⟨t, v⟩, he, rfl⟩ := List.mem_map.1 hmem
      rcases srvServers_last hr he with ⟨-, v₀, hnil, -⟩ | ⟨x, hx, -, hxttl⟩
      · cases hnil
      · exact ⟨x, .server hx, hxttl⟩
    · split at h
      · rename_i hq
        subst hq
        exact normalizeStrings_ttl (Prod.mk.inj (Except.ok.inj h)).2
      · cases h

end

/-! ## What a call stores -/

/-- The entry that the end of a call puts into the cache. -/
def stores (rounds : ℕ) (q : Asked) (w : Replies) : Option Entry :=
  (finish State.init rounds q w).2.cached q.qtype q.name

/-- The end of a call stores an entry whatever is in the cache, or none. -/
theorem finish_cached (rounds : ℕ) (q : Asked) (w : Replies) :
    (stores rounds q w = none ∧ ∀ s, (finish s rounds q w).2.cached = s.cached) ∨
      ∃ a data ttl, q.Yields rounds w a ∧
        normalize w.pairs q.qtype a.records = .ok (data, some ttl) ∧
        stores rounds q w = some ⟨w.now + ttl, data, ⟨q.tid, a⟩⟩ ∧
        ∀ s, (finish s rounds q w).2.cached =
          (s.setEntry q.qtype q.name (some ⟨w.now + ttl, data, ⟨q.tid, a⟩⟩)).cached := by
  unfold stores
  cases hask : askServers rounds q.req w.net 0 q.nameservers none none [] 0 with
  | error e =>
    left
    simp only [finish, hask]
    exact ⟨rfl, fun _ => trivial⟩
  | ok r =>
    obtain ⟨result, err, valid⟩ := r
    cases result with
    | none =>
      left
      simp only [finish, hask]
      exact ⟨rfl, fun _ => trivial⟩
    | some a =>
      by_cases hrec : a.records = []
      · left
        simp only [finish, hask, if_pos hrec]
        exact ⟨rfl, fun _ => trivial⟩
      · cases hnorm : normalize w.pairs q.qtype a.records with
        | error e =>
          left
          simp only [finish, hask, if_neg hrec, hnorm]
          exact ⟨rfl, fun _ => trivial⟩
        | ok r =>
          obtain ⟨data, ttl⟩ := r
          simp only [finish, hask, if_neg hrec, hnorm]
          rcases ttl with _ | ttl
          · exact .inl ⟨rfl, fun _ => rfl⟩
          · by_cases hpos : 0 < ttl
            · right
              obtain ⟨i, hi⟩ := (askServers_none _ _ _ _ _ _ a).1 ⟨err, valid, hask⟩
              simp only [Nat.zero_add] at hi
              refine ⟨a, data, ttl, ⟨⟨i, hi⟩, hrec, _, hnorm⟩, hnorm, ?_, fun s => ?_⟩
              · simp [setCache, hpos, State.setEntry]
              · simp [setCache, hpos, State.setEntry]
            · left
              simp [setCache, hpos, State.init]

/-! ## Runs -/

/-- Data served from the cache: when it was stored and served, and the records it was made
    from. -/
structure Served where
  qtype : ℕ
  stored : ℚ
  now : ℚ
  records : List Ans
  deriving DecidableEq

/-- No record has expired whose data is served. -/
def Served.Fresh (x : Served) : Prop := ∀ r, Used x.qtype x.records r → x.now ≤ x.stored + r.ttl

/-- The locals of `dns.lua`, with when each entry was stored and what has been served from
    the cache. -/
structure Clocked where
  dns : State
  storedAt : ℕ → List UInt8 → ℚ
  served : List Served

def Clocked.init : Clocked := ⟨State.init, fun _ _ => 0, []⟩

def Clocked.step (rounds : ℕ) (s : Clocked) (act : Act) : Option Clocked :=
  (Dns.step rounds s.dns act).map fun dns =>
    match act with
    | .ask now _ name qtype =>
      let hit := (queryCache s.dns now qtype name).1
      let served := hit.map fun t => ⟨qtype, s.storedAt qtype name, now, t.source.answers.records⟩
      { s with dns, served := s.served ++ served.toList }
    | .answer k w =>
      match s.dns.pending[k]? with
      | some q =>
        if (stores rounds q w).isSome then
          let storedAt :=
            Function.update s.storedAt q.qtype (Function.update (s.storedAt q.qtype) q.name w.now)
          { s with dns, storedAt }
        else { s with dns }
      | none => { s with dns }
    | .collect .. => { s with dns }

/-- `pairs` goes through each value of a table once. -/
def PairsOnce (_ : Clocked) : Act → Prop
  | .answer _ w => ∀ l, (w.pairs l).Perm l
  | .ask .. | .collect .. => True

/-- The answers that a call accepts have their least ttl where `normalize` takes it. -/
def AnswersLeast (rounds : ℕ) (s : Clocked) : Act → Prop
  | .answer k w => ∀ q, s.dns.pending[k]? = some q → ∀ a, q.Yields rounds w a →
      LeastTtl q.qtype a.records
  | .ask .. | .collect .. => True

/-- The entries of the cache expire before the records of their data, and nothing else has
    been served. -/
structure Clocked.Inv (s : Clocked) : Prop where
  cached : ∀ qtype name e, s.dns.cached qtype name = some e →
    ∀ r, Used qtype e.source.answers.records r → e.expired ≤ s.storedAt qtype name + r.ttl
  served : ∀ x ∈ s.served, x.Fresh

section
variable {rounds : ℕ} {s s' : Clocked}

/-- What is left when an entry is taken out was there. -/
theorem State.setEntry_none {s : State} {qtype k : ℕ} {name n : List UInt8} {e : Entry}
    (h : (s.setEntry qtype name none).cached k n = some e) : s.cached k n = some e := by
  by_cases hk : k = qtype
  · subst hk
    by_cases hn : n = name
    · subst hn
      simp [State.setEntry] at h
    · simpa [State.setEntry, Function.update_of_ne hn] using h
  · simpa [State.setEntry, Function.update_of_ne hk] using h

theorem queryCache_cached {s : State} {now : ℚ} {qtype : ℕ} {name : List UInt8}
    {k : ℕ} {n : List UInt8} {e : Entry}
    (h : (queryCache s now qtype name).2.cached k n = some e) :
    s.cached k n = some e := by
  unfold queryCache at h
  split at h
  · exact h
  · split at h
    · exact State.setEntry_none h
    · exact h

theorem queryCache_hit {s : State} {now : ℚ} {qtype : ℕ} {name : List UInt8} {t : Entry}
    (h : (queryCache s now qtype name).1 = some t) :
    s.cached qtype name = some t ∧ now ≤ t.expired := by
  unfold queryCache at h
  split at h
  · cases h
  · rename_i e he
    split at h
    · cases h
    · rename_i hlt
      cases h
      exact ⟨he, not_lt.1 hlt⟩

theorem ask_cached (s : State) (conf : Option (List Server)) (name : List UInt8) (qtype : ℕ) :
    (ask s conf name qtype).2.cached = s.cached := by
  unfold ask
  dsimp only
  split
  · rfl
  · split <;> rfl

/-- A call that starts adds nothing to the cache. -/
theorem step_ask_cached {s s' : State} {now : ℚ} {conf : Option (List Server)} {name : List UInt8}
    {qtype k : ℕ} {n : List UInt8} {e : Entry}
    (h : step rounds s (.ask now conf name qtype) = some s') (he : s'.cached k n = some e) :
    s.cached k n = some e := by
  have hq : ∀ e, (queryCache s now qtype name).2.cached k n = some e → s.cached k n = some e :=
    fun _ => queryCache_cached
  simp only [step] at h
  split at h
  · rename_i heq
    cases h
    rw [heq] at hq
    exact hq e he
  · rename_i s₁ heq
    have ha := ask_cached s₁ conf name qtype
    rw [heq] at hq
    split at h <;> rename_i hask <;> cases h <;> rw [hask] at ha
    · exact hq e ((congrFun (congrFun ha k) n).symm.trans he)
    · exact hq e ((congrFun (congrFun ha k) n).symm.trans he)

theorem step_answer_cached {s s' : State} {k : ℕ} {w : Replies}
    (h : step rounds s (.answer k w) = some s') :
    ∃ q, s.pending[k]? = some q ∧
      s'.cached = (finish { s with pending := s.pending.eraseIdx k } rounds q w).2.cached := by
  simp only [step] at h
  split at h
  · cases h
  · rename_i q hq
    refine ⟨q, hq, ?_⟩
    split at h <;> rename_i heq
    · cases h
      rw [heq]
    · cases h
    · cases h
      rw [heq]

theorem Clocked.Inv.step {act : Act} (h : s.Inv) (hp : PairsOnce s act)
    (hl : AnswersLeast rounds s act) (hs : s.step rounds act = some s') : s'.Inv := by
  obtain ⟨dns, hdns, rfl⟩ := Option.map_eq_some_iff.1 hs
  cases act with
  | ask now conf name qtype =>
    refine ⟨fun k n e he => h.cached k n e (step_ask_cached hdns he), fun x hx => ?_⟩
    rcases List.mem_append.1 hx with hx | hx
    · exact h.served x hx
    · obtain ⟨t, ht, rfl⟩ := Option.map_eq_some_iff.1 (Option.mem_toList.1 hx)
      obtain ⟨hc, hle⟩ := queryCache_hit ht
      intro r hr
      exact hle.trans (h.cached qtype name t hc r hr)
  | answer k w =>
    obtain ⟨q, hq, hcached⟩ := step_answer_cached hdns
    simp only [hq]
    rcases finish_cached rounds q w with ⟨hnone, hfin⟩ | ⟨a, data, ttl, hy, hnorm, hsome, hfin⟩
    · simp only [hnone, Option.isSome_none, Bool.false_eq_true, if_false]
      refine ⟨fun k n e he => h.cached k n e ?_, h.served⟩
      rw [hcached, hfin] at he
      exact he
    · simp only [hsome, Option.isSome_some, if_true]
      refine ⟨fun k n e he r hr => ?_, h.served⟩
      rw [hcached, hfin] at he
      simp only [State.setEntry] at he
      dsimp only
      by_cases hk : k = q.qtype
      · subst hk
        rw [Function.update_self] at he ⊢
        by_cases hn : n = q.name
        · subst hn
          rw [Function.update_self] at he ⊢
          cases he
          -- the entry expires with the record that `normalize` has taken the ttl of
          obtain ⟨x, hx, rfl⟩ := normalize_ttl hp hnorm
          have hle : ((x.ttl : ℕ) : ℚ) ≤ r.ttl := Nat.cast_le.2 (hl q hq a hy x hx r hr)
          exact add_le_add_right hle w.now
        · rw [Function.update_of_ne hn] at he ⊢
          exact h.cached _ n e he r hr
      · rw [Function.update_of_ne hk] at he ⊢
        exact h.cached k n e he r hr
  | collect qtype name =>
    cases hdns
    exact ⟨fun k n e he => h.cached k n e (State.setEntry_none he), h.served⟩

theorem Clocked.Inv.init : Clocked.init.Inv := by
  constructor
  · intro qtype name e h
    cases h
  · intro x hx
    cases hx

/-- **Nothing is served that has expired**, if all answers have their least ttl where
    `normalize` takes it. -/
theorem served_fresh {acts : List Act} (h : run (Clocked.step rounds) Clocked.init acts = some s)
    (hp : Along (Clocked.step rounds) PairsOnce Clocked.init acts)
    (hl : Along (Clocked.step rounds) (AnswersLeast rounds) Clocked.init acts) :
    ∀ x ∈ s.served, x.Fresh := by
  have hinv : s.Inv := Lib.run_inv (C := fun s act => PairsOnce s act ∧ AnswersLeast rounds s act)
    (fun s act s' hi hC hs => hi.step hC.1 hC.2 hs) Clocked.Inv.init (hp.and hl) h
  exact hinv.served

end

/-! ## Two runs -/

theorem GivesTtl.mem {qtype : ℕ} {answers : List Ans} {x : Ans} (h : GivesTtl qtype answers x) :
    x ∈ answers := by
  cases h with
  | address | strings => simp
  | server h =>
    obtain ⟨pre, post, t, rfl, -⟩ := h
    simp

theorem Used.mem {qtype : ℕ} {answers : List Ans} {r : Ans}
    (h : Used qtype answers r) : r ∈ answers := by
  cases h with
  | address _ h | strings h => exact h
  | server h =>
    obtain ⟨pre, post, t, rfl, -⟩ := h
    simp
  | host => simp

/-- The records of the packet have the ttl 60 and the ttl 300. -/
def mixedPacket : List UInt8 :=
  [0, 1, 0x81, 0x80, 0, 1, 0, 2, 0, 0, 0, 0] ++ [1, 97, 0, 0, 1, 0, 1] ++
    [0xc0, 12, 0, 1, 0, 1, 0, 0, 0, 60, 0, 4, 192, 0, 2, 1] ++
    [0xc0, 12, 0, 1, 0, 1, 0, 0, 1, 44, 0, 4, 192, 0, 2, 2]

/-- The addresses of `a` are asked for, and again after as many seconds. -/
def askAgain (packet : List UInt8) (now : ℚ) : List Act := oneCall packet ++ [.ask now none [97] 1]

theorem pairsOnce_askAgain (packet : List UInt8) (now : ℚ) :
    Along (Clocked.step 3) PairsOnce Clocked.init (askAgain packet now) := by
  refine .of_forall fun s act hact => ?_
  simp only [askAgain, oneCall, List.cons_append, List.nil_append, List.mem_cons, List.not_mem_nil,
    or_false] at hact
  rcases hact with rfl | rfl | rfl
  · trivial
  · exact fun l => .refl l
  · trivial

/-- The record of `honestPacket`. -/
def honestRecord : Ans := ⟨SECTION.AN, [97], 1, 1, 60, .address "192.0.2.1"⟩

/-- After 100 seconds, an address is served whose record was valid for 60. -/
theorem served_not_fresh :
    ∃ s, run (Clocked.step 3) Clocked.init (askAgain mixedPacket 100) = some s ∧
    Along (Clocked.step 3) PairsOnce Clocked.init (askAgain mixedPacket 100) ∧
      ¬ ∀ x ∈ s.served, x.Fresh := by
  have hserved : (run (Clocked.step 3) Clocked.init (askAgain mixedPacket 100)).map Clocked.served =
      some [⟨1, 0, 100,
        [honestRecord, { honestRecord with ttl := 300, rdata := .address "192.0.2.2" }]⟩] := by
    decide +kernel
  obtain ⟨s, hs, hserved⟩ := Option.map_eq_some_iff.1 hserved
  refine ⟨s, hs, pairsOnce_askAgain _ _, fun h => ?_⟩
  rw [hserved] at h
  have hused : (100 : ℚ) ≤ 0 + (60 : ℕ) :=
    h _ List.mem_cons_self honestRecord (.address (.inl rfl) List.mem_cons_self rfl)
  exact absurd hused (by decide +kernel)

/-- A response with one record is served while it is valid. -/
theorem served_fresh_honest : ∃ s,
    run (Clocked.step 3) Clocked.init (askAgain honestPacket 30) = some s ∧
      s.served = [⟨1, 0, 30, [honestRecord]⟩] ∧ ∀ x ∈ s.served, x.Fresh := by
  have hserved : (run (Clocked.step 3) Clocked.init (askAgain honestPacket 30)).map Clocked.served =
      some [⟨1, 0, 30, [honestRecord]⟩] := by
    decide +kernel
  obtain ⟨s, hs, hserved⟩ := Option.map_eq_some_iff.1 hserved
  refine ⟨s, hs, hserved, served_fresh hs (pairsOnce_askAgain _ _) ?_⟩
  refine ⟨trivial, fun s₁ h1 =>
    ⟨fun q hq a ha x hx r hr => ?_, fun s₂ _ => ⟨trivial, fun _ _ => trivial⟩⟩⟩
  cases h1
  cases hq
  obtain ⟨⟨i, hi⟩, -, -⟩ := ha
  have hask : askServer 3 [0, 1, 1, 0, 0, 1, 0, 0, 0, 0, 0, 0, 1, 97, 0, 0, 1, 0, 1]
      (fun _ => ⟨.ok (), .ok (), .ok 19, .error .timeout, .ok honestPacket⟩) =
        .ok (.ok ⟨1, 0, [97], 1, [honestRecord]⟩) := by
    decide
  have ha : a = ⟨1, 0, [97], 1, [honestRecord]⟩ :=
    Except.ok.inj (Except.ok.inj (hi.gives.symm.trans hask))
  rw [ha] at hx hr
  rw [List.mem_singleton.1 hx.mem, List.mem_singleton.1 hr.mem]

end Levent.Dns
