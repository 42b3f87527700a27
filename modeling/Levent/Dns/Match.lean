/-
  Whether the data that `remote_resolve` returns and caches is that of a
  response to its request: it is when the responses that are accepted are.
-/
import Levent.Dns.Resolve

namespace Levent.Dns

open Lib (Lua Stop Along run toBytes)

/-- The response has the id of the request, and echoes its name and type. -/
structure Source.Matches (x : Source) (name : List UInt8) (qtype : ℕ) : Prop where
  tid : x.answers.tid = x.sent
  qname : x.answers.qname = concatDots (nameLabels name)
  qtype : x.answers.qtype = qtype

/-- All data returned and cached is that of responses to its requests. -/
structure State.Sound (s : State) : Prop where
  returned : ∀ r ∈ s.log, r.source.Matches r.name r.qtype
  cached : ∀ qtype name e, s.cached qtype name = some e → e.source.Matches name qtype

variable {rounds : ℕ} {s s' : State}

/-! ## The servers -/

/-- The server `i` of `n` is the first whose packets give answers, the answers
    `a`. -/
structure Accepted (rounds : ℕ) (req : List UInt8) (net : ℕ → Proto → Exchange) (n i : ℕ)
    (a : Answers) : Prop where
  lt : i < n
  before : ∀ j < i, ∃ e, askServer rounds req (net j) = .ok (.error e)
  gives : askServer rounds req (net i) = .ok (.ok a)

section
variable {req : List UInt8} {net : ℕ → Proto → Exchange}

theorem accepted_succ {n i : ℕ} {a : Answers} {e : Err}
    (h0 : askServer rounds req (net i) = .ok (.error e)) :
    (∃ j, Accepted rounds req (fun j => net (i + j)) (n + 1) j a) ↔
      ∃ j, Accepted rounds req (fun j => net (i + 1 + j)) n j a := by
  constructor
  · rintro ⟨_ | j, hj⟩
    · have := hj.gives
      rw [Nat.add_zero, h0] at this; cases this
    · refine ⟨j, Nat.lt_of_succ_lt_succ hj.lt, fun k hk => ?_, ?_⟩
      · have := hj.before (k + 1) (by omega)
        rwa [show i + (k + 1) = i + 1 + k by omega] at this
      · have := hj.gives
        rwa [show i + (j + 1) = i + 1 + j by omega] at this
  · rintro ⟨j, hj⟩
    refine ⟨j + 1, Nat.succ_lt_succ hj.lt, fun k hk => ?_, ?_⟩
    · cases k with
      | zero => exact ⟨e, h0⟩
      | succ k =>
        have := hj.before k (by omega)
        rwa [show i + 1 + k = i + (k + 1) by omega] at this
    · have := hj.gives
      rwa [show i + 1 + j = i + (j + 1) by omega] at this

/-- Answers that are found stay. -/
theorem askServers_some (servers : List Server) :
    ∀ (i : ℕ) (a : Answers) (valid : List Server) (amount : ℕ), ∃ valid',
      askServers rounds req net i servers (some a) none valid amount = .ok (some a, none, valid') := by
  induction servers with
  | nil => exact fun i a valid amount => ⟨valid, rfl⟩
  | cons server servers ih =>
    intro i a valid amount
    rw [askServers]
    exact ih (i + 1) a _ (amount + 1)

/-- **The loop over the servers** gives the answers of the first server that has
    some. -/
theorem askServers_none (net : ℕ → Proto → Exchange) (servers : List Server) :
    ∀ (i : ℕ) (err : Option Err) (valid : List Server) (amount : ℕ) (a : Answers),
      (∃ err' valid', askServers rounds req net i servers none err valid amount =
        .ok (some a, err', valid')) ↔
      ∃ j, Accepted rounds req (fun j => net (i + j)) servers.length j a := by
  induction servers with
  | nil =>
    intro i err valid amount a
    refine iff_of_false ?_ ?_
    · rintro ⟨err', valid', h⟩; cases h
    · rintro ⟨j, hj⟩; exact absurd hj.lt (Nat.not_lt_zero j)
  | cons server servers ih =>
    intro i err valid amount a
    rw [askServers, List.length_cons]
    cases hask : askServer rounds req (net i) with
    | error e =>
      refine iff_of_false ?_ ?_
      · rintro ⟨err', valid', h⟩; cases h
      · rintro ⟨_ | j, hj⟩
        · have := hj.gives
          rw [Nat.add_zero, hask] at this; cases this
        · obtain ⟨e', he'⟩ := hj.before 0 (Nat.succ_pos j)
          rw [Nat.add_zero, hask] at he'; cases he'
    | ok r =>
      cases r with
      | ok b =>
        obtain ⟨valid', hv⟩ : ∃ valid', askServers rounds req net (i + 1) servers (some b) none
            (valid.insertIdx amount server) (amount + 1) = .ok (some b, none, valid') :=
          askServers_some servers _ _ _ _
        change (∃ err' valid'', askServers rounds req net (i + 1) servers (some b) none _ _ = _) ↔ _
        rw [hv]
        constructor
        · rintro ⟨err', valid'', h⟩
          obtain rfl : b = a := by simpa using (Prod.mk.inj (Except.ok.inj h)).1
          exact ⟨0, Nat.succ_pos _, fun j hj => absurd hj (Nat.not_lt_zero j), hask⟩
        · rintro ⟨_ | j, hj⟩
          · have := hj.gives
            rw [Nat.add_zero, hask] at this
            obtain rfl : b = a := by simpa using this
            exact ⟨none, valid', rfl⟩
          · obtain ⟨e', he'⟩ := hj.before 0 (Nat.succ_pos j)
            rw [Nat.add_zero, hask] at he'; cases he'
      | error e =>
        rw [accepted_succ hask]
        by_cases ht : e = .timeout
        · subst ht
          exact ih (i + 1) _ _ _ a
        · change (∃ err' valid', (if some e = some Err.timeout then _ else _) = _) ↔ _
          rw [if_neg (fun h => ht (Option.some.inj h))]
          exact ih (i + 1) _ _ _ a

end

/-! ## A call -/

/-- The waiting call `q` is accepted answers with data: some records, of which
    the results are chosen. -/
def Asked.Yields (rounds : ℕ) (q : Asked) (w : Replies) (a : Answers) : Prop :=
  (∃ i, Accepted rounds q.req w.net q.nameservers.length i a) ∧ a.records ≠ [] ∧
    ∃ r, normalize w.pairs q.qtype a.records = .ok r

theorem setEntry_none {qtype qtype' : ℕ} {name name' : List UInt8} {e : Entry}
    (h : (s.setEntry qtype name none).cached qtype' name' = some e) :
    s.cached qtype' name' = some e := by
  by_cases hq : qtype' = qtype
  · by_cases hn : name' = name
    · subst hq hn
      simp [State.setEntry] at h
    · subst hq
      simpa [State.setEntry, Function.update_of_ne hn] using h
  · simpa [State.setEntry, Function.update_of_ne hq] using h

/-- A call for the A records of `a`, whose request is answered with `packet`. -/
def oneCall (packet : List UInt8) : List Act :=
  [.ask 0 (some [⟨"192.0.2.53", 53⟩]) [97] 1,
    .answer 0 ⟨fun _ _ => ⟨.ok (), .ok (), .ok 19, .error .timeout, .ok packet⟩, 0, id⟩]

/-- The response of the server that was asked. -/
def honestPacket : List UInt8 :=
  [0, 1, 0x81, 0x80, 0, 1, 0, 1, 0, 0, 0, 0] ++ [1, 97, 0, 0, 1, 0, 1] ++
    [0xc0, 12, 0, 1, 0, 1, 0, 0, 0, 60, 0, 4, 192, 0, 2, 1]

end Levent.Dns
