/-
  The order in which `remote_resolve` writes the list of name servers back: those
  that did not answer in time come last.

  A server is told from the others by its place in the list, since the same one
  may stand there twice.
-/
import Levent.Dns.Servers

namespace Levent.Dns

open Lib (Lua)

/-! ## Outcomes -/

/-- The request gave answers. -/
def answered : Lua (Except Err Answers) → Bool
  | .ok (.ok _) => true
  | _ => false

/-- The request ended by the timeout. -/
def late : Lua (Except Err Answers) → Bool
  | .ok (.error .timeout) => true
  | _ => false

/-- The server at the place `i` was asked, because those before it had not answered,
    and did not answer in time. -/
def timedOut (rounds : ℕ) (req : List UInt8) (net : ℕ → Proto → Exchange) (i : ℕ) : Bool :=
  (List.range i).all (fun j => !answered (askServer rounds req (net j))) &&
    late (askServer rounds req (net i))

/-! ## The list with some elements last -/

section
variable {α : Type*} (p : ℕ → Bool)

/-- The elements of `l` whose places, counted from `i`, satisfy `p`. -/
def places (i : ℕ) (l : List α) : List α := ((l.zipIdx i).filter fun e => p e.2).map Prod.fst

/-- The elements of `l` with those at the places `p` last. -/
def ordered (l : List α) : List α := places (fun i => !p i) 0 l ++ places p 0 l

theorem places_cons (i : ℕ) (x : α) (l : List α) :
    places p i (x :: l) = if p i then x :: places p (i + 1) l else places p (i + 1) l := by
  unfold places
  rw [List.zipIdx_cons, List.filter_cons]
  split <;> rfl

/-- Nothing is lost or repeated. -/
theorem ordered_perm (l : List α) : (ordered p l).Perm l := by
  have hperm := (List.filter_append_perm (fun e : α × ℕ => p e.2) l.zipIdx).map Prod.fst
  rw [List.map_append, List.zipIdx_map_fst] at hperm
  exact List.perm_append_comm.trans hperm

theorem insertIdx_append (front back : List α) (x : α) :
    (front ++ back).insertIdx front.length x = front ++ x :: back := by
  induction front with
  | nil => rfl
  | cons y front ih => rw [List.cons_append, List.length_cons, List.insertIdx_succ_cons, ih]; rfl

end

/-! ## The loop -/

section
variable {rounds : ℕ} {req : List UInt8} {net : ℕ → Proto → Exchange}

/-- `result` and `err` when the servers before the place `i` have been asked. -/
inductive Asking (rounds : ℕ) (req : List UInt8) (net : ℕ → Proto → Exchange) (i : ℕ) :
    Option Answers → Option Err → Prop
  | trying {err : Option Err} : (∀ j < i, answered (askServer rounds req (net j)) = false) →
      Asking rounds req net i none err
  | ended {a : Answers} {j : ℕ} : j < i → answered (askServer rounds req (net j)) = true →
      Asking rounds req net i (some a) none

theorem timedOut_trying {i : ℕ} (h : ∀ j < i, answered (askServer rounds req (net j)) = false) :
    timedOut rounds req net i = late (askServer rounds req (net i)) := by
  have hall : (List.range i).all (fun j => !answered (askServer rounds req (net j))) = true := by
    rw [List.all_eq_true]
    intro j hj
    rw [h j (List.mem_range.1 hj)]
    rfl
  rw [timedOut, hall, Bool.true_and]

theorem timedOut_over {i j : ℕ} (hj : j < i) (h : answered (askServer rounds req (net j)) = true) :
    timedOut rounds req net i = false := by
  rw [timedOut, Bool.and_eq_false_iff]
  left
  rw [List.all_eq_false]
  exact ⟨j, List.mem_range.2 hj, by simp [h]⟩

/-- **A round** puts the server last exactly if it timed out. -/
theorem askServers_round {i : ℕ} {server : Server} {servers : List Server} {result : Option Answers}
    {err : Option Err} {valid : List Server} {amount : ℕ}
    {r : Option Answers × Option Err × List Server} (hA : Asking rounds req net i result err)
    (h : askServers rounds req net i (server :: servers) result err valid amount = .ok r) :
    ∃ result' err', Asking rounds req net (i + 1) result' err' ∧
      if timedOut rounds req net i then
        askServers rounds req net (i + 1) servers result' err' (valid ++ [server]) amount = .ok r
      else askServers rounds req net (i + 1) servers result' err' (valid.insertIdx amount server)
        (amount + 1) = .ok r := by
  cases hA with
  | @ended a j hj hans =>
    refine ⟨some a, none, .ended (Nat.lt_succ_of_lt hj) hans, ?_⟩
    rw [timedOut_over hj hans]
    exact h
  | @trying err htry =>
    rw [askServers] at h
    obtain ⟨x, hx, h⟩ := Lib.bind_eq_ok.1 h
    rw [timedOut_trying htry]
    rcases x with e | a
    · refine ⟨none, some e, .trying fun j hj => ?_, ?_⟩
      · rcases Nat.lt_succ_iff_lt_or_eq.1 hj with hj | rfl
        · exact htry j hj
        · rw [hx]
          rfl
      · rw [hx]
        by_cases he : e = .timeout
        · subst he
          exact h
        · have hlate : late (.ok (.error e)) = false := by
            cases e with
            | timeout => exact absurd rfl he
            | dns e => rfl
            | other msg => rfl
          have hne : (some e : Option Err) ≠ some .timeout := fun h => he (Option.some_inj.1 h)
          have hlast : (if (some e : Option Err) = some .timeout then
              askServers rounds req net (i + 1) servers none (some e) (valid ++ [server]) amount
            else askServers rounds req net (i + 1) servers none (some e) (valid.insertIdx amount server)
              (amount + 1)) = .ok r := h
          rw [if_neg hne] at hlast
          rw [hlate, if_neg Bool.false_ne_true]
          exact hlast
    · refine ⟨some a, none, .ended (Nat.lt_succ_self i) (hx ▸ rfl), ?_⟩
      rw [hx]
      exact h

/-- The loop keeps those that timed out behind the others, and both in their order. -/
theorem askServers_order (servers : List Server) :
    ∀ {i : ℕ} {result result' : Option Answers} {err err' : Option Err}
      {front back valid : List Server}, Asking rounds req net i result err →
      askServers rounds req net i servers result err (front ++ back) front.length =
        .ok (result', err', valid) →
      valid = (front ++ places (fun i => !timedOut rounds req net i) i servers) ++
        (back ++ places (timedOut rounds req net) i servers) := by
  induction servers with
  | nil =>
    intro i result result' err err' front back valid _ h
    cases h
    show front ++ back = (front ++ []) ++ (back ++ [])
    rw [List.append_nil, List.append_nil]
  | cons server servers ih =>
    intro i result result' err err' front back valid hA h
    obtain ⟨result₁, err₁, hA, h⟩ := askServers_round hA h
    rw [places_cons, places_cons]
    cases ht : timedOut rounds req net i with
    | true =>
      rw [ht, if_pos rfl, List.append_assoc] at h
      rw [ih hA h]
      simp
    | false =>
      rw [ht, if_neg Bool.false_ne_true, insertIdx_append, List.append_cons] at h
      have hlen : front.length + 1 = (front ++ [server]).length := by simp
      rw [hlen] at h
      rw [ih hA h]
      simp

end

/-! ## The list that is written back -/

/-- **The list is written back with the servers that timed out last**, in the order
    they had. -/
theorem finish_order {rounds : ℕ} {q : Asked} {w : Replies} (s : State) (h : ¬ q.Raises rounds w) :
    (finish s rounds q w).2.dnsAddrs = some (ordered (timedOut rounds q.req w.net) q.nameservers) ∧
      (ordered (timedOut rounds q.req w.net) q.nameservers).Perm q.nameservers := by
  refine ⟨?_, ordered_perm _ _⟩
  cases hask : askServers rounds q.req w.net 0 q.nameservers none none [] 0 with
  | error e => exact absurd ⟨e, hask⟩ h
  | ok r =>
    obtain ⟨result, err, valid⟩ := r
    have horder := askServers_order q.nameservers (.trying (by simp))
      (show askServers rounds q.req w.net 0 q.nameservers none none ([] ++ []) ([] : List Server).length =
        .ok (result, err, valid) from hask)
    rw [(finish_set s hask).2, horder]
    rfl

/-- The first of two servers does not answer in time, and the other cannot be reached. -/
def firstLate : Replies where
  net i _ := ⟨.ok (), .ok (), .ok 1, .error .timeout,
    .error (if i = 0 then .timeout else .other "Connection refused")⟩
  now := 0
  pairs := id

theorem finish_order_firstLate :
    (finish State.init 1 ⟨[97], 1, 1, [0], [⟨"192.0.2.1", 53⟩, ⟨"192.0.2.2", 53⟩]⟩ firstLate).2.dnsAddrs =
      some [⟨"192.0.2.2", 53⟩, ⟨"192.0.2.1", 53⟩] := by
  refine (finish_order State.init ?_).1
  rintro ⟨e, he⟩
  cases he

end Levent.Dns
