/-
  `op_reply` of `lua-mongo.c`: the documents of a reply are put into the table of a
  cursor.

  An address is counted from the start of the reply.  The counters of the table are not
  cut off to an `int`: this takes a table of 2^31 documents.
-/
import Levent.Bson.Decode
import Levent.Lib.Orbit
import Mathlib.Data.Int.Interval

namespace Levent.Mongo

open Lib (ofLe ofLe_lt signed signed_range unsigned Goes Halts)
open Bson (Bytes Stop INT_MAX)
open Relation (ReflTransGen TransGen)

/-! ## The table -/

/-- The pointer to a document of the reply, or a value from before. -/
inductive Entry (V : Type) where
  | doc (p : ℤ)
  | old (v : V)

structure Table (κ V : Type) where
  ints : ℤ → Option (Entry V)
  others : κ → Option (Entry V)

variable {κ V : Type}

/-- `lua_rawseti` -/
def Table.seti (t : Table κ V) (i : ℤ) (v : Option (Entry V)) : Table κ V :=
  { t with ints := fun k => if k = i then v else t.ints k }

/-! ## Reading a reply -/

/-- `sizeof(*reply)` -/
def HEADER : ℕ := 32

def REPLY_QUERYFAILURE : ℕ := 2

def INVALID_RESULT : Stop := .error "Invalid result bson document"

/-- The `int32_t` at an address. -/
def int32At (data : Bytes) (p : ℤ) : ℤ := signed 4 (ofLe ((data.drop p.toNat).take 4))

/-- `get_length`, which the pointer may be outside of the reply for. -/
def getLength (data : Bytes) (p : ℤ) : Except Stop ℤ :=
  if 0 ≤ p ∧ p + 4 ≤ data.length then .ok (int32At data p) else .error .undefined

/-- The loop over the documents: the bytes that are left, and the next index. -/
def documents (data : Bytes) : ℕ → ℤ → ℤ → ℕ → Table κ V → Except Stop (ℤ × ℕ × Table κ V)
  | 0, _, _, _, _ => .error .unfinished
  | fuel + 1, doc, sz, i, t =>
    if 4 < sz then do
      let t := t.seti i (some (.doc doc))
      let len ← getLength data doc
      if sz - len ≤ INT_MAX then documents data fuel (doc + len) (sz - len) (i + 1) t
      else .error .undefined
    else .ok (sz, i, t)

/-- `n` rounds of the loop that sets nil. -/
def clearFrom : ℕ → ℕ → Table κ V → Table κ V
  | 0, _, t => t
  | n + 1, i, t => clearFrom n (i + 1) (t.seti i none)

/-- What is returned. -/
inductive Reply where
  /-- false -/
  | short
  /-- false, the request and the error document -/
  | failure (id doc : ℤ)
  /-- false and the request -/
  | mismatch (id : ℤ)
  /-- true, the request, the first document, the cursor and where the documents start -/
  | success (id : ℤ) (doc : Option ℤ) (cursor : Option Bytes) (starting : ℤ)

/-- The values at the end of `op_reply`. -/
def succeed (data : Bytes) : Reply :=
  let cursor := (data.drop 16).take 8
  .success (int32At data 4) (if int32At data 28 = 0 then none else some HEADER)
    (if int32At data 16 = 0 ∧ int32At data 20 = 0 then none else some cursor) (int32At data 24)

/-- The size of the data, as an `int`. -/
def dataSize (data : Bytes) : ℤ := signed 4 (unsigned 4 (data.length - HEADER))

/-- The server reports an error. -/
def failed (data : Bytes) : Bool := unsigned 4 (int32At data 12) &&& REPLY_QUERYFAILURE ≠ 0

/-- `op_reply`, where `rawlen` is `lua_rawlen`. -/
def opReply (rawlen : (ℤ → Option (Entry V)) → ℕ) (fuel : ℕ) (data : Bytes) (result : Option (Table κ V)) :
    Except Stop (Reply × Option (Table κ V)) :=
  if data.length < HEADER then .ok (.short, result)
  else if failed data then .ok (.failure (int32At data 4) HEADER, result)
  else
    let number := int32At data 28
    let sz := dataSize data
    match result with
    | some t => do
      let (sz, i, t) ← documents data fuel HEADER sz 1 t
      if (i : ℤ) ≠ number + 1 then .ok (.mismatch (int32At data 4), some t)
      else
        let c := rawlen t.ints
        let t := clearFrom (c + 1 - i) i t
        if sz ≠ 0 then .error INVALID_RESULT else .ok (succeed data, some t)
    | none => do
      let sz ← if 4 ≤ sz then do
          let len ← getLength data HEADER
          pure (signed 4 (unsigned 4 (sz - len)))
        else pure sz
      if sz ≠ 0 then .error INVALID_RESULT else .ok (succeed data, none)

/-! ## What a reply is read as -/

/-- The documents at `ps` follow each other from `p` to the end of the reply, each with the
    length it declares. -/
def Tiles (data : Bytes) : ℤ → List ℤ → Prop
  | p, [] => p = data.length
  | p, q :: ps => q = p ∧ p + 4 ≤ data.length ∧ 0 < int32At data p ∧ Tiles data (p + int32At data p) ps

/-- The table has `number` documents that tile the data, and nothing else. -/
def Batch (data : Bytes) (number : ℤ) (t : Table κ V) : Prop :=
  ∃ ps, Tiles data HEADER ps ∧ (ps.length : ℤ) = number ∧
    (∀ k : ℕ, t.ints (k + 1) = ps[k]?.map .doc) ∧ (∀ k ≤ 0, t.ints k = none) ∧ ∀ k, t.others k = none

/-- `op_reply` ends, and where it reports success the table is the batch. -/
def Reads (rawlen : (ℤ → Option (Entry V)) → ℕ) (data : Bytes) (result : Option (Table κ V)) : Prop :=
  ∃ r, (∃ n, ∀ fuel ≥ n, opReply rawlen fuel data result = r) ∧ r ≠ .error .undefined ∧
    r ≠ .error .unfinished ∧ ∀ id doc cursor starting t,
      r = .ok (.success id doc cursor starting, some t) → Batch data (int32At data 28) t

/-! ## The way through the documents -/

/-- Where the loop ends. -/
def dataEnd (data : Bytes) : ℤ := HEADER + dataSize data

/-- From a document to the next one. -/
def docNext (data : Bytes) (p : ℤ) : Option ℤ :=
  if 4 < dataEnd data - p ∧ 0 ≤ p then some (p + int32At data p) else none

def Reached (data : Bytes) (p : ℤ) : Prop := ReflTransGen (Goes (docNext data)) HEADER p

/-- The rounds of the loop from `p` are at `ps`, and it ends at `q`. -/
inductive Walk (data : Bytes) : ℤ → List ℤ → ℤ → Prop
  | done {p : ℤ} : dataEnd data - p ≤ 4 → Walk data p [] p
  | step {p q : ℤ} {ps : List ℤ} : 4 < dataEnd data - p → 0 ≤ p →
      dataEnd data - (p + int32At data p) ≤ INT_MAX → Walk data (p + int32At data p) ps q →
      Walk data p (p :: ps) q

/-- The documents at `ps` at the indices from `i` on. -/
def Table.fill (t : Table κ V) (i : ℕ) : List ℤ → Table κ V
  | [] => t
  | p :: ps => (t.seti i (some (.doc p))).fill (i + 1) ps

/-- With the documents in it, the table has only integer keys up to its length. -/
def Table.Clears (rawlen : (ℤ → Option (Entry V)) → ℕ) (t : Table κ V) (ps : List ℤ) : Prop :=
  (∀ k, t.others k = none) ∧
    ∀ k, t.ints k ≠ none → 1 ≤ k ∧ (k ≤ ps.length ∨ k ≤ rawlen (t.fill 1 ps).ints)

/-- The lengths lead to no address twice and to none before the reply; where they lead
    through `number` documents to the end, they are positive, and the table is cleared. -/
structure Sound (rawlen : (ℤ → Option (Entry V)) → ℕ) (data : Bytes) (t : Table κ V) : Prop where
  inside : ∀ p, Reached data p → 0 ≤ p ∧ dataEnd data - p ≤ INT_MAX
  once : ∀ p, Reached data p → ¬ TransGen (Goes (docNext data)) p p
  tiles : ∀ ps, Walk data HEADER ps (dataEnd data) → (ps.length : ℤ) = int32At data 28 →
    dataEnd data = data.length ∧ (∀ p ∈ ps, 0 < int32At data p) ∧ t.Clears rawlen ps

/-! ## The tables -/

variable {t : Table κ V} {data : Bytes} {p q : ℤ} {ps : List ℤ} {rawlen : (ℤ → Option (Entry V)) → ℕ}

theorem fill_others (t : Table κ V) (i : ℕ) (ps : List ℤ) : (t.fill i ps).others = t.others := by
  induction ps generalizing t i with
  | nil => rfl
  | cons p ps ih => exact ih _ _

theorem fill_ints_of_lt {i : ℕ} {k : ℤ} (h : k < i) : (t.fill i ps).ints k = t.ints k := by
  induction ps generalizing t i with
  | nil => rfl
  | cons p ps ih =>
    rw [Table.fill, ih (by push_cast; omega)]
    exact if_neg (by omega)

theorem fill_ints_of_ge {i : ℕ} {k : ℤ} (h : i + ps.length ≤ k) : (t.fill i ps).ints k = t.ints k := by
  induction ps generalizing t i with
  | nil => rfl
  | cons p ps ih =>
    rw [List.length_cons] at h
    push_cast at h
    rw [Table.fill, ih (by push_cast; omega)]
    exact if_neg (by omega)

theorem fill_ints {i k : ℕ} (h : k < ps.length) : (t.fill i ps).ints (i + k) = some (.doc ps[k]) := by
  induction ps generalizing t i k with
  | nil => cases h
  | cons p ps ih =>
    cases k with
    | zero =>
      rw [Table.fill, fill_ints_of_lt (by push_cast; omega)]
      exact if_pos (by simp)
    | succ k =>
      have := ih (t := t.seti i (some (.doc p))) (i := i + 1) (Nat.lt_of_succ_lt_succ h)
      rw [Table.fill, List.getElem_cons_succ, ← this]
      congr 1
      push_cast
      ring

theorem clearFrom_others (n i : ℕ) (t : Table κ V) : (clearFrom n i t).others = t.others := by
  induction n generalizing i t with
  | zero => rfl
  | succ n ih => exact ih _ _

theorem clearFrom_ints {n i : ℕ} {k : ℤ} :
    (clearFrom n i t).ints k = if (i : ℤ) ≤ k ∧ k < i + n then none else t.ints k := by
  induction n generalizing i t with
  | zero => rw [clearFrom, if_neg (by push_cast; omega)]
  | succ n ih =>
    rw [clearFrom, ih]
    by_cases hk : k = i
    · subst hk
      rw [if_neg (by push_cast; omega), if_pos (by push_cast; omega)]
      exact if_pos rfl
    · have hset : (t.seti i none).ints k = t.ints k := if_neg hk
      rw [hset]
      by_cases hin : (i : ℤ) ≤ k ∧ k < i + (n + 1 : ℕ)
      · rw [if_pos hin, if_pos]
        push_cast at hin ⊢
        omega
      · rw [if_neg hin, if_neg]
        push_cast at hin ⊢
        omega

/-! ## The loop -/

theorem documents_walk (h : Walk data p ps q) (hend : dataEnd data ≤ data.length) :
    ∀ {fuel : ℕ} {i : ℕ} {t : Table κ V}, ps.length < fuel →
      documents data fuel p (dataEnd data - p) i t = .ok (dataEnd data - q, i + ps.length, t.fill i ps) := by
  induction h with
  | done h =>
    intro fuel i t hf
    cases fuel with
    | zero => cases hf
    | succ fuel => exact if_neg (by omega)
  | @step p q ps h4 h0 hmax _ ih =>
    intro fuel i t hf
    cases fuel with
    | zero => cases hf
    | succ fuel =>
      have hlen : getLength data p = .ok (int32At data p) := if_pos ⟨h0, by omega⟩
      have hsub : dataEnd data - p - int32At data p = dataEnd data - (p + int32At data p) := by ring
      rw [documents, if_pos h4]
      refine Lib.bind_eq_ok.2 ⟨_, hlen, ?_⟩
      rw [hsub, if_pos hmax, ih (Nat.lt_of_succ_lt_succ hf)]
      simp only [Table.fill, List.length_cons]
      congr 3
      omega

theorem walk_of_documents {fuel : ℕ} {i : ℕ} {r : ℤ × ℕ × Table κ V}
    (h : documents data fuel p (dataEnd data - p) i t = .ok r) : ∃ ps q, Walk data p ps q ∧ ps.length < fuel := by
  induction fuel generalizing p i t with
  | zero => cases h
  | succ fuel ih =>
    rw [documents] at h
    split at h
    · rename_i h4
      obtain ⟨len, hlen, h⟩ := Lib.bind_eq_ok.1 h
      unfold getLength at hlen
      split at hlen
      · rename_i hin
        cases hlen
        have hsub : dataEnd data - p - int32At data p = dataEnd data - (p + int32At data p) := by ring
        rw [hsub] at h
        split at h
        · rename_i hmax
          obtain ⟨ps, q, hw, hf⟩ := ih h
          exact ⟨p :: ps, q, .step h4 hin.1 hmax hw, Nat.succ_lt_succ hf⟩
        · cases h
      · cases hlen
    · exact ⟨[], p, .done (by omega), Nat.succ_pos _⟩

/-- The loop raises no error. -/
theorem documents_error {fuel : ℕ} {doc sz : ℤ} {i : ℕ} {e : Stop}
    (h : documents data fuel doc sz i t = .error e) : e = .undefined ∨ e = .unfinished := by
  induction fuel generalizing doc sz i t with
  | zero =>
    cases h
    exact Or.inr rfl
  | succ fuel ih =>
    rw [documents] at h
    split at h
    · unfold getLength at h
      split at h
      · simp only [bind, Except.bind] at h
        split at h
        · exact ih h
        · cases h
          exact Or.inl rfl
      · cases h
        exact Or.inl rfl
    · cases h

/-! ## The rounds of the loop -/

/-- The round from a document to the next one, if the loop goes on and what it does is defined. -/
def docStep (data : Bytes) (p : ℤ) : Option ℤ :=
  if 4 < dataEnd data - p ∧ (0 ≤ p ∧ p + 4 ≤ data.length) ∧
      dataEnd data - (p + int32At data p) ≤ INT_MAX then
    some (p + int32At data p)
  else none

/-- The loop is not over as long as it has rounds. -/
theorem documents_unfinished {fuel i : ℕ} :
    documents data fuel p (dataEnd data - p) i t = .error .unfinished ↔
      Lib.orbit (docStep data) fuel p ≠ none := by
  have hundef : (.error .undefined : Except Stop (ℤ × ℕ × Table κ V)) ≠ .error .unfinished := by
    intro h
    cases h
  induction fuel generalizing p i t with
  | zero => exact iff_of_true rfl (Option.some_ne_none p)
  | succ fuel ih =>
    have hsub : dataEnd data - p - int32At data p = dataEnd data - (p + int32At data p) := by ring
    rw [documents, Lib.orbit, docStep]
    by_cases h4 : 4 < dataEnd data - p
    · rw [if_pos h4]
      by_cases hin : 0 ≤ p ∧ p + 4 ≤ data.length
      · rw [getLength, if_pos hin]
        simp only [bind, Except.bind]
        rw [hsub]
        by_cases hmax : dataEnd data - (p + int32At data p) ≤ INT_MAX
        · rw [if_pos hmax, if_pos ⟨h4, hin, hmax⟩]
          exact ih
        · rw [if_neg hmax, if_neg fun h => hmax h.2.2]
          exact iff_of_false hundef (not_not.2 rfl)
      · rw [getLength, if_neg hin, if_neg fun h => hin h.2.1]
        exact iff_of_false hundef (not_not.2 rfl)
    · rw [if_neg h4, if_neg fun h => h4 h.1]
      refine iff_of_false ?_ (not_not.2 rfl)
      intro h
      cases h

/-- More fuel changes nothing where there is enough. -/
theorem documents_more {fuel i : ℕ} {doc sz : ℤ} (h : documents data fuel doc sz i t ≠ .error .unfinished)
    (n : ℕ) : documents data (fuel + n) doc sz i t = documents data fuel doc sz i t := by
  induction fuel generalizing doc sz i t with
  | zero => exact absurd rfl h
  | succ fuel ih =>
    rw [Nat.succ_add]
    rw [documents] at h ⊢
    rw [documents]
    split at h
    · rename_i h4
      rw [if_pos h4, if_pos h4]
      cases hlen : getLength data doc with
      | error e => rfl
      | ok len =>
        rw [hlen] at h
        simp only [bind, Except.bind] at h ⊢
        split at h
        · rename_i hmax
          rw [if_pos hmax, if_pos hmax]
          exact ih h
        · rename_i hmax
          rw [if_neg hmax, if_neg hmax]
    · rename_i h4
      rw [if_neg h4, if_neg h4]

/-- **The loop has no more rounds than there are bytes**, or it does not end. -/
theorem documents_fuel {fuel fuel' i : ℕ} (hf : data.length < fuel) (hf' : data.length < fuel') :
    documents data fuel p (dataEnd data - p) i t = documents data fuel' p (dataEnd data - p) i t := by
  have hA : ∀ a b, Goes (docStep data) a b → a ∈ Finset.Ico (0 : ℤ) data.length := by
    intro a b hab
    unfold Goes docStep at hab
    split at hab
    · rename_i h
      exact Finset.mem_Ico.2 ⟨h.2.1.1, by omega⟩
    · cases hab
  have hcard : (Finset.Ico (0 : ℤ) data.length).card = data.length := by simp
  by_cases hh : Halts (docStep data) p
  · have hend : documents data (data.length + 1) p (dataEnd data - p) i t ≠ .error .unfinished := by
      rw [Ne, documents_unfinished, not_not]
      exact hh.orbit_card _ hA (by omega)
    obtain ⟨m, rfl⟩ := Nat.exists_eq_add_of_lt hf
    obtain ⟨n, rfl⟩ := Nat.exists_eq_add_of_lt hf'
    rw [Nat.add_right_comm, documents_more hend, Nat.add_right_comm, documents_more hend]
  · have hall : ∀ n, documents data n p (dataEnd data - p) i t = .error .unfinished := fun n =>
      documents_unfinished.2 fun hn => hh ⟨n, hn⟩
    rw [hall, hall]

/-! ## Where the loop comes to -/

theorem goes_iff {a b : ℤ} :
    Goes (docNext data) a b ↔ 4 < dataEnd data - a ∧ 0 ≤ a ∧ b = a + int32At data a := by
  unfold Goes docNext
  split
  · rename_i h
    rw [Option.some.injEq, eq_comm]
    simp [h]
  · rename_i h
    constructor
    · intro h'
      cases h'
    · rintro ⟨h1, h2, -⟩
      exact (h ⟨h1, h2⟩).elim

theorem Walk.halts (h : Walk data p ps q) : Halts (docNext data) p := by
  induction h with
  | done h =>
    refine ⟨1, ?_⟩
    rw [Lib.orbit, docNext, if_neg (by omega)]
    rfl
  | step h4 h0 _ _ ih => exact (Lib.halts_iff (goes_iff.2 ⟨h4, h0, rfl⟩)).2 ih

theorem Walk.inside (h : Walk data p ps q) (h0 : 0 ≤ p) (h1 : dataEnd data - p ≤ INT_MAX) :
    ∀ b, ReflTransGen (Goes (docNext data)) p b → 0 ≤ b ∧ dataEnd data - b ≤ INT_MAX := by
  induction h with
  | done h =>
    intro b hb
    rcases ReflTransGen.cases_head hb with rfl | ⟨c, hc, -⟩
    · exact ⟨h0, h1⟩
    · have := (goes_iff.1 hc).1
      omega
  | step h4 _ hmax hw ih =>
    intro b hb
    rcases ReflTransGen.cases_head hb with rfl | ⟨c, hc, hb⟩
    · exact ⟨h0, h1⟩
    · obtain ⟨-, -, rfl⟩ := goes_iff.1 hc
      refine ih ?_ hmax b hb
      cases hw with
      | done hle => omega
      | step _ hnn => exact hnn

theorem walk_of_halts (h : Halts (docNext data) p) :
    (∀ b, ReflTransGen (Goes (docNext data)) p b → 0 ≤ b ∧ dataEnd data - b ≤ INT_MAX) →
      ∃ ps q, Walk data p ps q := by
  refine h.induction (P := fun p => (∀ b, ReflTransGen (Goes (docNext data)) p b →
    0 ≤ b ∧ dataEnd data - b ≤ INT_MAX) → ∃ ps q, Walk data p ps q) fun p ih hin => ?_
  by_cases h4 : 4 < dataEnd data - p
  · have h0 := (hin p .refl).1
    have hgo : Goes (docNext data) p (p + int32At data p) := goes_iff.2 ⟨h4, h0, rfl⟩
    obtain ⟨ps, q, hw⟩ := ih _ hgo fun b hb => hin b (.head hgo hb)
    exact ⟨p :: ps, q, .step h4 h0 (hin _ (.single hgo)).2 hw⟩
  · exact ⟨[], p, .done (by omega)⟩

/-- The loop ends where it stays inside and comes to no address twice. -/
theorem walk_iff (h0 : 0 ≤ p) (h1 : dataEnd data - p ≤ INT_MAX) :
    (∃ ps q, Walk data p ps q) ↔
      (∀ b, ReflTransGen (Goes (docNext data)) p b → 0 ≤ b ∧ dataEnd data - b ≤ INT_MAX) ∧
        ∀ b, ReflTransGen (Goes (docNext data)) p b → ¬ TransGen (Goes (docNext data)) b b := by
  have hA : ∀ a b, Goes (docNext data) a b → a ∈ Finset.Icc 0 (dataEnd data) := by
    intro a b hab
    obtain ⟨h4, h0, -⟩ := goes_iff.1 hab
    exact Finset.mem_Icc.2 ⟨h0, by omega⟩
  rw [← Lib.halts_iff_not_cycle _ hA]
  constructor
  · rintro ⟨ps, q, hw⟩
    exact ⟨hw.inside h0 h1, hw.halts⟩
  · rintro ⟨hin, hh⟩
    exact walk_of_halts hh hin

theorem Walk.reached (h : Walk data p ps q) : ∀ d ∈ ps, ReflTransGen (Goes (docNext data)) p d ∧
    4 < dataEnd data - d := by
  induction h with
  | done h =>
    intro d hd
    cases hd
  | step h4 h0 _ _ ih =>
    intro d hd
    rcases List.mem_cons.1 hd with rfl | hd
    · exact ⟨.refl, h4⟩
    · obtain ⟨h1, h2⟩ := ih d hd
      exact ⟨.head (goes_iff.2 ⟨h4, h0, rfl⟩) h1, h2⟩

/-! ## Tilings -/

theorem Walk.tiles (h : Walk data p ps q) (hend : dataEnd data = data.length) (hq : q = dataEnd data)
    (hpos : ∀ d ∈ ps, 0 < int32At data d) : Tiles data p ps := by
  induction h with
  | done h => exact hq.trans hend
  | step h4 h0 _ _ ih =>
    exact ⟨rfl, by omega, hpos _ List.mem_cons_self, ih hq fun d hd => hpos d (List.mem_cons_of_mem _ hd)⟩

theorem Tiles.walk (ht : Tiles data p ps) (h : Walk data p ps q) :
    q = data.length ∧ ∀ d ∈ ps, 0 < int32At data d := by
  induction h with
  | done h => exact ⟨ht, by simp⟩
  | step _ _ _ _ ih =>
    obtain ⟨-, -, hpos, ht⟩ := ht
    obtain ⟨h1, h2⟩ := ih ht
    refine ⟨h1, fun d hd => ?_⟩
    rcases List.mem_cons.1 hd with rfl | hd
    · exact hpos
    · exact h2 d hd

/-! ## Replies -/

theorem dataSize_le (h : HEADER ≤ data.length) : dataSize data ≤ data.length - HEADER := by
  unfold dataSize signed unsigned
  have h0 : (0 : ℤ) ≤ (data.length : ℤ) - HEADER := by omega
  have hmod := Int.emod_nonneg ((data.length : ℤ) - HEADER) (show (256 ^ 4 : ℤ) ≠ 0 by norm_num)
  have hle : ((data.length : ℤ) - HEADER) % 256 ^ 4 ≤ data.length - HEADER := by omega
  split <;> omega

theorem dataSize_lt (data : Bytes) : dataSize data ≤ INT_MAX := by
  have := (signed_range (Lib.unsigned_lt 4 ((data.length : ℤ) - HEADER))).2
  have hmax : INT_MAX = 2 ^ 31 - 1 := rfl
  unfold dataSize
  omega

/-- What comes of a reply when the loop has ended. -/
def outcome (rawlen : (ℤ → Option (Entry V)) → ℕ) (data : Bytes) (t : Table κ V) (ps : List ℤ) (q : ℤ) :
    Except Stop (Reply × Option (Table κ V)) :=
  let t' := t.fill 1 ps
  if (ps.length : ℤ) ≠ int32At data 28 then .ok (.mismatch (int32At data 4), some t')
  else if q ≠ dataEnd data then .error INVALID_RESULT
  else .ok (succeed data, some (clearFrom (rawlen t'.ints - ps.length) (1 + ps.length) t'))

theorem outcome_mismatch (hn : (ps.length : ℤ) ≠ int32At data 28) :
    outcome rawlen data t ps q = .ok (.mismatch (int32At data 4), some (t.fill 1 ps)) := if_pos hn

theorem outcome_rest (hn : (ps.length : ℤ) = int32At data 28) (hq : q ≠ dataEnd data) :
    outcome rawlen data t ps q = .error INVALID_RESULT := (if_neg (not_not.2 hn)).trans (if_pos hq)

theorem outcome_accepted (hn : (ps.length : ℤ) = int32At data 28) :
    outcome rawlen data t ps (dataEnd data) = .ok (succeed data,
      some (clearFrom (rawlen (t.fill 1 ps).ints - ps.length) (1 + ps.length) (t.fill 1 ps))) :=
  (if_neg (not_not.2 hn)).trans (if_neg (not_not.2 rfl))

theorem outcome_ends (rawlen : (ℤ → Option (Entry V)) → ℕ) (data : Bytes) (t : Table κ V) (ps : List ℤ)
    (q : ℤ) : outcome rawlen data t ps q ≠ .error .undefined ∧
      outcome rawlen data t ps q ≠ .error .unfinished := by
  unfold outcome
  dsimp only
  split
  · exact ⟨nofun, nofun⟩
  · split
    · exact ⟨nofun, nofun⟩
    · exact ⟨nofun, nofun⟩

theorem opReply_walk (hlen : HEADER ≤ data.length) (hfail : failed data = false) (h : Walk data HEADER ps q)
    {fuel : ℕ} (hf : ps.length < fuel) : opReply rawlen fuel data (some t) = outcome rawlen data t ps q := by
  have hend : dataEnd data ≤ data.length := by
    have := dataSize_le hlen
    unfold dataEnd
    omega
  have hloop := documents_walk h hend hf (i := 1) (t := t)
  rw [show dataEnd data - HEADER = dataSize data from add_sub_cancel_left _ _] at hloop
  unfold opReply outcome
  rw [if_neg (by omega), hfail]
  simp only [Bool.false_eq_true, if_false]
  rw [hloop]
  show (if ((1 + ps.length : ℕ) : ℤ) ≠ int32At data 28 + 1 then _ else _) = _
  by_cases hn : (ps.length : ℤ) = int32At data 28
  · rw [if_neg (by push_cast; omega), if_neg (not_not.2 hn)]
    have hc : rawlen (t.fill 1 ps).ints + 1 - (1 + ps.length) = rawlen (t.fill 1 ps).ints - ps.length := by omega
    by_cases hq : q = dataEnd data
    · rw [if_neg (by omega), if_neg (not_not.2 hq)]
      simp only [hc]
    · rw [if_pos (by omega), if_pos hq]
  · rw [if_pos (by push_cast; omega), if_pos hn]

/-- **As much fuel as there are bytes** is enough for `op_reply`, if any is. -/
theorem opReply_fuel {fuel fuel' : ℕ} {result : Option (Table κ V)} (hf : data.length < fuel)
    (hf' : data.length < fuel') :
    opReply rawlen fuel data result = opReply rawlen fuel' data result := by
  unfold opReply
  cases result with
  | none => rfl
  | some t =>
    have hloop : documents data fuel HEADER (dataSize data) 1 t =
        documents data fuel' HEADER (dataSize data) 1 t := by
      rw [show dataSize data = dataEnd data - HEADER from (add_sub_cancel_left _ _).symm]
      exact documents_fuel hf hf'
    dsimp only
    rw [hloop]

/-- A loop that does not end is not followed by anything. -/
theorem walk_of_opReply {fuel : ℕ} (hlen : HEADER ≤ data.length) (hfail : failed data = false)
    (h1 : opReply rawlen fuel data (some t) ≠ .error .undefined)
    (h2 : opReply rawlen fuel data (some t) ≠ .error .unfinished) :
    ∃ ps q, Walk data HEADER ps q ∧ ps.length < fuel := by
  unfold opReply at h1 h2
  rw [if_neg (by omega), hfail] at h1 h2
  cases hloop : documents data fuel HEADER (dataSize data) 1 t with
  | ok r =>
    have hsz : dataSize data = dataEnd data - HEADER := (add_sub_cancel_left _ _).symm
    rw [hsz] at hloop
    exact walk_of_documents hloop
  | error e =>
    simp only [Bool.false_eq_true, if_false, hloop, bind, Except.bind] at h1 h2
    rcases documents_error hloop with rfl | rfl
    · exact (h1 rfl).elim
    · exact (h2 rfl).elim

/-- The table of an accepted reply, at the integers that are no index of a document. -/
theorem accepted_ints (t : Table κ V) (ps : List ℤ) (c : ℕ) {k : ℤ} (h : k < 1 ∨ ps.length < k) :
    (clearFrom (c - ps.length) (1 + ps.length) (t.fill 1 ps)).ints k =
      if ps.length < k ∧ k ≤ c then none else t.ints k := by
  have hfill : (t.fill 1 ps).ints k = t.ints k := by
    rcases h with h | h
    · exact fill_ints_of_lt (by push_cast; omega)
    · exact fill_ints_of_ge (by push_cast; omega)
  rw [clearFrom_ints, hfill]
  by_cases hk : ps.length < k ∧ k ≤ c
  · rw [if_pos hk, if_pos (by push_cast; omega)]
  · rw [if_neg hk, if_neg (by push_cast; omega)]

/-- At the index of a document. -/
theorem accepted_doc (t : Table κ V) (ps : List ℤ) (c : ℕ) {k : ℕ} (h : k < ps.length) :
    (clearFrom (c - ps.length) (1 + ps.length) (t.fill 1 ps)).ints (k + 1) = some (.doc ps[k]) := by
  rw [clearFrom_ints, if_neg (by push_cast; omega), add_comm]
  exact fill_ints (i := 1) h

theorem batch_iff (h : Walk data HEADER ps (dataEnd data)) (hn : (ps.length : ℤ) = int32At data 28) :
    Batch data (int32At data 28) (clearFrom (rawlen (t.fill 1 ps).ints - ps.length) (1 + ps.length) (t.fill 1 ps)) ↔
      dataEnd data = data.length ∧ (∀ p ∈ ps, 0 < int32At data p) ∧ t.Clears rawlen ps := by
  constructor
  · rintro ⟨ps', ht, hn', hpos, hneg, hothers⟩
    have hlen : ps'.length = ps.length := by omega
    have hps : ps' = ps := by
      refine List.ext_getElem hlen fun k h1 h2 => ?_
      have := hpos k
      rw [accepted_doc t ps _ h2, List.getElem?_eq_getElem h1] at this
      exact (Entry.doc.inj (Option.some.inj this)).symm
    subst hps
    obtain ⟨hq, hall⟩ := ht.walk h
    refine ⟨hq, hall, ?_, ?_⟩
    · intro k
      have := hothers k
      rwa [clearFrom_others, fill_others] at this
    · intro k hk
      by_contra hcon
      by_cases h1 : 1 ≤ k
      · obtain ⟨j, rfl⟩ : ∃ j : ℕ, k = j + 1 := ⟨(k - 1).toNat, by omega⟩
        have hj : ps'.length ≤ j := by
          by_contra hlt
          exact hcon ⟨h1, Or.inl (by omega)⟩
        have := hpos j
        rw [accepted_ints t ps' _ (Or.inr (by omega)), List.getElem?_eq_none hj, if_neg] at this
        · exact hk this
        · rintro ⟨-, hc⟩
          exact hcon ⟨h1, Or.inr hc⟩
      · have := hneg k (by omega)
        rw [accepted_ints t ps' _ (Or.inl (by omega)), if_neg (by omega)] at this
        exact hk this
  · rintro ⟨hend, hall, hothers, hints⟩
    refine ⟨ps, h.tiles hend rfl hall, hn, fun k => ?_, fun k hk => ?_, fun k => ?_⟩
    · rcases lt_or_ge k ps.length with hk | hk
      · rw [accepted_doc t ps _ hk, List.getElem?_eq_getElem hk]
        rfl
      · rw [accepted_ints t ps _ (Or.inr (by omega)), List.getElem?_eq_none hk]
        split
        · rfl
        · rename_i hc
          by_contra hsome
          rcases (hints _ hsome).2 with h1 | h1
          · omega
          · exact hc ⟨by omega, h1⟩
    · rw [accepted_ints t ps _ (Or.inl (by omega)), if_neg (by omega)]
      by_contra hsome
      have := (hints k hsome).1
      omega
    · rw [clearFrom_others, fill_others]
      exact hothers k

/-! ## Reading a reply -/

theorem header_inside (data : Bytes) : (0 : ℤ) ≤ HEADER ∧ dataEnd data - HEADER ≤ INT_MAX := by
  have := dataSize_lt data
  unfold dataEnd
  omega

theorem sound_of_reads (h : Reads rawlen data (some t)) (hlen : HEADER ≤ data.length)
    (hfail : failed data = false) : Sound rawlen data t := by
  obtain ⟨r, ⟨n, hr⟩, h1, h2, hbatch⟩ := h
  rw [← hr n le_rfl] at h1 h2
  obtain ⟨h0, hmax⟩ := header_inside data
  obtain ⟨ps, q, hw, -⟩ := walk_of_opReply hlen hfail h1 h2
  obtain ⟨hin, honce⟩ := (walk_iff h0 hmax).1 ⟨ps, q, hw⟩
  refine ⟨hin, honce, fun ps hw hn => ?_⟩
  have hout : opReply rawlen (max n (ps.length + 1)) data (some t) = outcome rawlen data t ps (dataEnd data) :=
    opReply_walk hlen hfail hw (Nat.lt_of_lt_of_le (Nat.lt_succ_self _) (le_max_right _ _))
  rw [hr _ (le_max_left _ _), outcome_accepted hn] at hout
  exact (batch_iff hw hn).1 (hbatch _ _ _ _ _ hout)

theorem Reads.of_error {result : Option (Table κ V)} {n : ℕ}
    (h : ∀ fuel ≥ n, opReply rawlen fuel data result = .error INVALID_RESULT) :
    Reads rawlen data result := by
  refine ⟨_, ⟨n, h⟩, ?_, ?_, ?_⟩
  · intro h
    cases h
  · intro h
    cases h
  · intro id doc cursor starting t h
    cases h

theorem Reads.of_ok {result result' : Option (Table κ V)} {reply : Reply} {n : ℕ}
    (h : ∀ fuel ≥ n, opReply rawlen fuel data result = .ok (reply, result'))
    (hb : ∀ id doc cursor starting t, reply = .success id doc cursor starting → result' = some t →
      Batch data (int32At data 28) t) : Reads rawlen data result := by
  refine ⟨_, ⟨n, h⟩, ?_, ?_, ?_⟩
  · intro h
    cases h
  · intro h
    cases h
  · intro id doc cursor starting t h
    obtain ⟨h1, h2⟩ := Prod.mk.inj (Except.ok.inj h)
    exact hb id doc cursor starting t h1 h2

/-- Without a result table the loop is not run. -/
theorem reads_none (hlen : HEADER ≤ data.length) (hfail : failed data = false) :
    Reads rawlen data (none : Option (Table κ V)) := by
  have hsize := dataSize_le hlen
  have hout : ∃ sz, ∀ fuel, opReply rawlen fuel data (none : Option (Table κ V)) =
      if sz ≠ (0 : ℤ) then .error INVALID_RESULT else .ok (succeed data, none) := by
    by_cases h4 : 4 ≤ dataSize data
    · have hget : getLength data HEADER = .ok (int32At data HEADER) := if_pos ⟨by omega, by omega⟩
      refine ⟨signed 4 (unsigned 4 (dataSize data - int32At data HEADER)), fun fuel => ?_⟩
      rw [opReply, if_neg (by omega), hfail, if_neg (by decide)]
      simp only [if_pos h4, hget]
      rfl
    · refine ⟨dataSize data, fun fuel => ?_⟩
      rw [opReply, if_neg (by omega), hfail, if_neg (by decide)]
      simp only [if_neg h4]
      rfl
  obtain ⟨sz, hout⟩ := hout
  by_cases hsz : sz = 0
  · refine Reads.of_ok (n := 0) (fun fuel _ => (hout fuel).trans (if_neg (not_not.2 hsz))) ?_
    intro id doc cursor starting t _ ht
    cases ht
  · exact Reads.of_error (n := 0) fun fuel _ => (hout fuel).trans (if_pos hsz)

theorem reads_of_sound (h : Sound rawlen data t) (hlen : HEADER ≤ data.length) (hfail : failed data = false) :
    Reads rawlen data (some t) := by
  obtain ⟨h0, hmax⟩ := header_inside data
  obtain ⟨ps, q, hw⟩ := (walk_iff h0 hmax).2 ⟨h.inside, h.once⟩
  have hout : ∀ fuel ≥ ps.length + 1, opReply rawlen fuel data (some t) = outcome rawlen data t ps q :=
    fun fuel hf => opReply_walk hlen hfail hw hf
  by_cases hn : (ps.length : ℤ) = int32At data 28
  · by_cases hq : q = dataEnd data
    · subst hq
      refine Reads.of_ok (fun fuel hf => (hout fuel hf).trans (outcome_accepted hn)) ?_
      rintro id doc cursor starting t' _ ht
      cases ht
      exact (batch_iff hw hn).2 (h.tiles ps hw hn)
    · exact Reads.of_error fun fuel hf => (hout fuel hf).trans (outcome_rest hn hq)
  · refine Reads.of_ok (fun fuel hf => (hout fuel hf).trans (outcome_mismatch hn)) ?_
    intro id doc cursor starting t' h
    cases h

/-- `op_reply` ends, with a table or without one. -/
def Ends (data : Bytes) (table : Bool) : Prop :=
  HEADER ≤ data.length → failed data = false → table = true → ∀ p, Reached data p →
    (0 ≤ p ∧ dataEnd data - p ≤ INT_MAX) ∧ ¬ TransGen (Goes (docNext data)) p p

/-- It does, with as much fuel as there are bytes, where the lengths lead to no address
    twice and to none before the reply. -/
theorem opReply_ends (rawlen : (ℤ → Option (Entry V)) → ℕ) {result : Option (Table κ V)} {fuel : ℕ}
    (hf : data.length < fuel) :
    (opReply rawlen fuel data result ≠ .error .undefined ∧
      opReply rawlen fuel data result ≠ .error .unfinished) ↔ Ends data result.isSome := by
  obtain ⟨h0, hmax⟩ := header_inside data
  constructor
  · rintro ⟨h1, h2⟩ hlen hfail htable p hp
    obtain ⟨t, rfl⟩ := Option.isSome_iff_exists.1 htable
    obtain ⟨ps, q, hw, -⟩ := walk_of_opReply hlen hfail h1 h2
    obtain ⟨hin, honce⟩ := (walk_iff h0 hmax).1 ⟨ps, q, hw⟩
    exact ⟨hin p hp, honce p hp⟩
  · intro h
    rcases lt_or_ge data.length HEADER with hlen | hlen
    · rw [opReply, if_pos hlen]
      exact ⟨nofun, nofun⟩
    · cases hfail : failed data with
      | true =>
        rw [opReply, if_neg (by omega), if_pos hfail]
        exact ⟨nofun, nofun⟩
      | false =>
        cases result with
        | none =>
          have hreads : Reads rawlen data (none : Option (Table κ V)) := reads_none hlen hfail
          obtain ⟨r, ⟨n, hr⟩, h1, h2, -⟩ := hreads
          rw [opReply_fuel hf (lt_max_of_lt_right (b := n) hf), hr _ (le_max_left _ _)]
          exact ⟨h1, h2⟩
        | some t =>
          have hall := h hlen hfail rfl
          obtain ⟨ps, q, hw⟩ := (walk_iff h0 hmax).2 ⟨fun p hp => (hall p hp).1, fun p hp => (hall p hp).2⟩
          rw [opReply_fuel hf (lt_max_of_lt_right (b := ps.length + 1) hf),
            opReply_walk hlen hfail hw (lt_max_of_lt_left (Nat.lt_succ_self _))]
          exact outcome_ends ..

/-- `op_reply` ends, and its success is a batch, if and only if the lengths lead through the
    data as they do where all of them are positive. -/
theorem opReply_reads_iff (rawlen : (ℤ → Option (Entry V)) → ℕ) (data : Bytes) (result : Option (Table κ V)) :
    Reads rawlen data result ↔ (HEADER ≤ data.length → failed data = false →
      ∀ t, result = some t → Sound rawlen data t) := by
  constructor
  · rintro h hlen hfail t rfl
    exact sound_of_reads h hlen hfail
  · intro h
    rcases lt_or_ge data.length HEADER with hlen | hlen
    · refine Reads.of_ok (n := 0) (fun fuel _ => if_pos hlen) ?_
      intro id doc cursor starting t h
      cases h
    · cases hfail : failed data with
      | true =>
        refine Reads.of_ok (n := 0) (fun fuel _ => (if_neg (by omega)).trans (if_pos hfail)) ?_
        intro id doc cursor starting t h
        cases h
      | false =>
        cases result with
        | none => exact reads_none hlen hfail
        | some t => exact reads_of_sound (h hlen hfail t rfl) hlen hfail

/-- A document of length 0: the loop stays at it and fills the table. -/
theorem opReply_not_reads : ¬ ∀ (rawlen : (ℤ → Option (Entry Unit)) → ℕ) (data : Bytes)
    (result : Option (Table Unit Unit)), Reads rawlen data result := by
  intro h
  have hs := sound_of_reads (h (fun _ => 0) (List.replicate 28 0 ++ [1, 0, 0, 0, 0, 0, 0, 0, 0])
    (some ⟨fun _ => none, fun _ => none⟩)) (by decide) (by decide)
  exact hs.once HEADER .refl (.single (goes_iff.2 ⟨by decide, by decide, by decide⟩))

/-! ## Cursors -/

/-- `n` is a border, as `lua_rawlen` gives one. -/
def Border (f : ℤ → Option (Entry V)) (n : ℕ) : Prop := (n = 0 ∨ f n ≠ none) ∧ f (n + 1) = none

/-- The integers from 1 to `m` are keys, and no other values are. -/
def Sequence (t : Table κ V) (m : ℕ) : Prop :=
  (∀ k, t.others k = none) ∧ ∀ k, t.ints k ≠ none ↔ 1 ≤ k ∧ k ≤ m

/-- A sequence with documents in it is a sequence. -/
theorem Sequence.fill {m : ℕ} (h : Sequence t m) (ps : List ℤ) : Sequence (t.fill 1 ps) (max m ps.length) := by
  obtain ⟨hothers, hints⟩ := h
  refine ⟨fun k => (congrFun (fill_others t 1 ps) k).trans (hothers k), fun k => ?_⟩
  rcases lt_or_ge k 1 with hk | hk
  · rw [fill_ints_of_lt (by push_cast; omega), hints]
    omega
  · obtain ⟨j, rfl⟩ : ∃ j : ℕ, k = j + 1 := ⟨(k - 1).toNat, by omega⟩
    rcases lt_or_ge j ps.length with hj | hj
    · rw [add_comm]
      have := fill_ints (t := t) (i := 1) hj
      push_cast at this
      rw [this]
      exact iff_of_true (by simp) (by omega)
    · rw [fill_ints_of_ge (by push_cast; omega), hints]
      omega

/-- A sequence has one border. -/
theorem Sequence.border {m n : ℕ} (h : Sequence t m) (hb : Border t.ints n) : n = m := by
  obtain ⟨h0, h1⟩ := hb
  have hnext : ¬ ((1 : ℤ) ≤ n + 1 ∧ (n : ℤ) + 1 ≤ m) := fun hk => (h.2 _).2 hk h1
  rcases h0 with rfl | h0
  · omega
  · have := (h.2 _).1 h0
    omega

section
variable (hrawlen : ∀ (t : Table κ V) m, Sequence t m → Border t.ints (rawlen t.ints))
include hrawlen

/-- The condition on the table is met by the sequences. -/
theorem Sequence.clears {m : ℕ} (h : Sequence t m) (ps : List ℤ) : t.Clears rawlen ps := by
  have hlen := (h.fill ps).border (hrawlen _ _ (h.fill ps))
  refine ⟨h.1, fun k hk => ?_⟩
  have := (h.2 k).1 hk
  rw [hlen]
  omega

/-- What is left of a sequence when a reply is accepted, whatever lengths are in it. -/
theorem Sequence.accepted {m : ℕ} (h : Sequence t m) (ps : List ℤ) :
    Sequence (clearFrom (rawlen (t.fill 1 ps).ints - ps.length) (1 + ps.length) (t.fill 1 ps)) ps.length := by
  have hlen := (h.fill ps).border (hrawlen _ _ (h.fill ps))
  refine ⟨fun k => ?_, fun k => ?_⟩
  · rw [clearFrom_others, fill_others]
    exact h.1 k
  · by_cases hk : k < 1 ∨ ps.length < k
    · rw [accepted_ints t ps _ hk, hlen]
      split
      · exact iff_of_false (by simp) (by omega)
      · rw [h.2]
        omega
    · obtain ⟨j, rfl⟩ : ∃ j : ℕ, k = j + 1 := ⟨(k - 1).toNat, by omega⟩
      rw [accepted_doc t ps _ (by omega)]
      exact iff_of_true (by simp) (by omega)

end

/-- The table of a cursor: `mongo_cursor:hasNext` hands it over again after a success only. -/
inductive Cursor (rawlen : (ℤ → Option (Entry V)) → ℕ) : Table κ V → Prop
  | start : Cursor rawlen ⟨fun _ => none, fun _ => none⟩
  | next {t t' : Table κ V} {fuel : ℕ} {data : Bytes} {id : ℤ} {doc cursor starting} : Cursor rawlen t →
      opReply rawlen fuel data (some t) = .ok (.success id doc cursor starting, some t') → Cursor rawlen t'

theorem opReply_success {fuel : ℕ} {id starting : ℤ} {doc : Option ℤ} {cursor : Option Bytes} {t' : Table κ V}
    (h : opReply rawlen fuel data (some t) = .ok (.success id doc cursor starting, some t')) :
    ∃ ps, Walk data HEADER ps (dataEnd data) ∧ (ps.length : ℤ) = int32At data 28 ∧
      t' = clearFrom (rawlen (t.fill 1 ps).ints - ps.length) (1 + ps.length) (t.fill 1 ps) := by
  have hlen : HEADER ≤ data.length := by
    by_contra hlt
    rw [opReply, if_pos (by omega)] at h
    cases (Prod.mk.inj (Except.ok.inj h)).1
  have hfail : failed data = false := by
    by_contra hf
    rw [opReply, if_neg (by omega), if_pos (by simpa using hf)] at h
    cases (Prod.mk.inj (Except.ok.inj h)).1
  have h1 : opReply rawlen fuel data (some t) ≠ .error .undefined := by
    rw [h]
    intro h'
    cases h'
  have h2 : opReply rawlen fuel data (some t) ≠ .error .unfinished := by
    rw [h]
    intro h'
    cases h'
  obtain ⟨ps, q, hw, hf⟩ := walk_of_opReply hlen hfail h1 h2
  rw [opReply_walk hlen hfail hw hf] at h
  by_cases hn : (ps.length : ℤ) = int32At data 28
  · by_cases hq : q = dataEnd data
    · subst hq
      rw [outcome_accepted hn] at h
      obtain ⟨-, h2⟩ := Prod.mk.inj (Except.ok.inj h)
      exact ⟨ps, hw, hn, (Option.some.inj h2).symm⟩
    · rw [outcome_rest hn hq] at h
      cases h
  · rw [outcome_mismatch hn] at h
    cases (Prod.mk.inj (Except.ok.inj h)).1

/-- A cursor's table is always a sequence. -/
theorem Cursor.sequence (hrawlen : ∀ (t : Table κ V) m, Sequence t m → Border t.ints (rawlen t.ints))
    (h : Cursor rawlen t) : ∃ m, Sequence t m := by
  induction h with
  | start =>
    refine ⟨0, fun _ => rfl, fun k => iff_of_false (fun h => h rfl) ?_⟩
    omega
  | next _ hr ih =>
    obtain ⟨m, hm⟩ := ih
    obtain ⟨ps, -, -, rfl⟩ := opReply_success hr
    exact ⟨ps.length, hm.accepted hrawlen ps⟩

/-- Where every length is positive, a reply is read into the table of a cursor. -/
theorem Cursor.sound (hrawlen : ∀ (t : Table κ V) m, Sequence t m → Border t.ints (rawlen t.ints))
    (h : Cursor rawlen t) (hend : dataEnd data = data.length)
    (hpos : ∀ p, Reached data p → 4 < dataEnd data - p → 0 < int32At data p) : Sound rawlen data t := by
  obtain ⟨h0, hmax⟩ := header_inside data
  have hstep : ∀ p b, Reached data p → Goes (docNext data) p b → p < b := by
    intro p b hp hb
    obtain ⟨h4, -, rfl⟩ := goes_iff.1 hb
    have := hpos p hp h4
    omega
  have hge : ∀ p, Reached data p → (HEADER : ℤ) ≤ p := by
    intro p hp
    induction hp with
    | refl => exact le_rfl
    | tail hb hgo ih => exact ih.trans (hstep _ _ hb hgo).le
  refine ⟨fun p hp => ?_, fun p hp hcycle => ?_, fun ps hw _ => ⟨hend, fun p hp => ?_, ?_⟩⟩
  · have := hge p hp
    omega
  · have hlt : ∀ b, TransGen (Goes (docNext data)) p b → p < b := by
      intro b hb
      induction hb with
      | single hgo => exact hstep _ _ hp hgo
      | tail hb hgo ih => exact ih.trans (hstep _ _ (hp.trans hb.to_reflTransGen) hgo)
    exact lt_irrefl _ (hlt p hcycle)
  · obtain ⟨h1, h2⟩ := hw.reached p hp
    exact hpos p h1 h2
  · obtain ⟨m, hm⟩ := h.sequence hrawlen
    exact hm.clears hrawlen ps

end Levent.Mongo
