/-
  The receiving side of a connection: what `Socket:recv` returns, chunk by chunk,
  and `util.read_full` of `socket_util.lua`.

  A read that waits for bytes that never come does not end.
-/
import Levent.Lib.Pack

namespace Levent

open Lib (Lua)

/-- What happens after the last chunk: nothing, the peer closes, or an error. -/
inductive Ending where
  | silence
  | closed
  | failed (err : ℕ)
  deriving DecidableEq

/-- The bytes that arrive on a connection, in chunks. -/
structure Conn where
  chunks : List (List UInt8)
  ending : Ending
  deriving DecidableEq

/-- `conn:recv(length)`: some bytes of the next chunk, or an error. -/
def Conn.recv (conn : Conn) (length : ℕ) : Lua (Except ℕ (List UInt8) × Conn) :=
  match conn.chunks with
  | chunk :: chunks =>
    .ok (.ok (chunk.take length),
      { conn with chunks := if chunk.length ≤ length then chunks else chunk.drop length :: chunks })
  | [] =>
    match conn.ending with
    | .silence => .error .unfinished
    | .closed => .ok (.ok [], conn)
    | .failed err => .ok (.error err, conn)

/-- `recv(k)`, called again and again, returns the strings `strs`. -/
inductive Conn.Recvs (k : ℕ) : Conn → List (List UInt8) → Conn → Prop
  | nil {conn} : Recvs k conn [] conn
  | cons {conn conn₁ conn' s strs} : conn.recv k = .ok (.ok s, conn₁) → Recvs k conn₁ strs conn' →
      Recvs k conn (s :: strs) conn'

/-- The results of `util.read_full`: the bytes, fewer bytes and `true` at the end
    of the stream, or an error. -/
inductive ReadFull where
  | full (reply : List UInt8)
  | eof (reply : List UInt8)
  | failed (err : ℕ)
  deriving DecidableEq

/-- The loop of `util.read_full`: a round receives a byte at least. -/
def readFullLoop (length : ℕ) : ℕ → List UInt8 → Conn → Lua (ReadFull × Conn)
  | 0, _, _ => .error .unfinished
  | n + 1, reply, conn =>
    if reply.length < length then do
      let (ret, conn) ← conn.recv (length - reply.length)
      match ret with
      | .error err => .ok (.failed err, conn)
      | .ok ret =>
        if ret.length = 0 then .ok (.eof reply, conn)
        else readFullLoop length n (reply ++ ret) conn
    else .ok (.full reply, conn)

/-- `util.read_full` -/
def readFull (conn : Conn) (length : ℕ) : Lua (ReadFull × Conn) :=
  readFullLoop length (length + 1) [] conn

/-- The first result. -/
def ReadFull.reply : ReadFull → Option (List UInt8)
  | .full reply => some reply
  | .eof reply => some reply
  | .failed _ => none

/-- The string for `string.unpack`, when all results are its last arguments: at
    the end of the stream the second one is taken for the position. -/
def ReadFull.unpackArg : ReadFull → Lua (List UInt8)
  | .full reply => .ok reply
  | .eof _ => .error (.raised "bad argument #3 to 'unpack' (number expected, got boolean)")
  | .failed _ => .error (.raised "bad argument #2 to 'unpack' (string expected, got nil)")

/-! ## The bytes of a connection -/

/-- The chunks, of which none is empty, are the bytes `bs` cut somehow. -/
structure Conn.Holds (conn : Conn) (bs : List UInt8) : Prop where
  bytes : conn.chunks.flatten = bs
  nonempty : ∀ chunk ∈ conn.chunks, chunk ≠ []

variable {conn : Conn} {bs rest : List UInt8}

theorem Conn.Holds.nil (h : conn.Holds []) : conn.chunks = [] := by
  cases hc : conn.chunks with
  | nil => rfl
  | cons chunk chunks =>
    have hne := h.nonempty chunk (hc ▸ List.mem_cons_self)
    have hb := h.bytes
    rw [hc, List.flatten_cons] at hb
    exact absurd (List.append_eq_nil_iff.1 hb).1 hne

/-- **One `recv`** returns some of the bytes, and leaves the others. -/
theorem Conn.Holds.recv (h : conn.Holds bs) (hbs : bs ≠ []) {n : ℕ} (hn : 0 < n) :
    ∃ ret rest conn', conn.recv n = .ok (.ok ret, conn') ∧ bs = ret ++ rest ∧ ret ≠ [] ∧
      ret.length ≤ n ∧ conn'.Holds rest ∧ conn'.ending = conn.ending := by
  obtain ⟨chunks, ending⟩ := conn
  cases chunks with
  | nil => exact absurd h.bytes.symm hbs
  | cons chunk chunks =>
    have hne := h.nonempty chunk List.mem_cons_self
    have htail : ∀ c ∈ chunks, c ≠ [] := fun c hc => h.nonempty c (List.mem_cons_of_mem _ hc)
    have hbytes := h.bytes
    rw [List.flatten_cons] at hbytes
    have htake : chunk.take n ≠ [] := by
      rw [Ne, List.take_eq_nil_iff, not_or]; exact ⟨by omega, hne⟩
    refine ⟨chunk.take n, chunk.drop n ++ chunks.flatten, _, rfl, ?_, htake,
      List.length_take_le n _, ?_, rfl⟩
    · rw [← List.append_assoc, List.take_append_drop, hbytes]
    · dsimp only
      split
      · rename_i hle
        exact ⟨by rw [List.drop_of_length_le hle, List.nil_append], htail⟩
      · rename_i hle
        refine ⟨List.flatten_cons, fun c hc => ?_⟩
        rcases List.mem_cons.1 hc with rfl | hc
        · rw [Ne, List.drop_eq_nil_iff]; exact hle
        · exact htail c hc

section
variable {conn' conn'' : Conn} {strs strs' : List (List UInt8)} {k : ℕ}

/-- One of two sequences of calls is the beginning of the other. -/
theorem Conn.Recvs.append_or (h : conn.Recvs k strs conn') (h' : conn.Recvs k strs' conn'') :
    (∃ more, strs' = strs ++ more) ∨ ∃ more, strs = strs' ++ more := by
  induction h generalizing strs' with
  | nil => exact Or.inl ⟨strs', rfl⟩
  | @cons conn conn₁ conn' s strs hs h ih =>
    cases h' with
    | nil => exact Or.inr ⟨s :: strs, rfl⟩
    | cons hs' h' =>
      rw [hs] at hs'
      cases hs'
      rcases ih h' with ⟨more, rfl⟩ | ⟨more, rfl⟩
      · exact Or.inl ⟨more, rfl⟩
      · exact Or.inr ⟨more, rfl⟩

/-- Chunks of at most `k` bytes are what `recv(k)` returns. -/
theorem Conn.Recvs.chunks (h : conn.Recvs k strs conn') (hne : ∀ s ∈ strs, s ≠ [])
    (hlen : ∀ chunk ∈ conn.chunks, chunk.length ≤ k) :
    conn.chunks = strs ++ conn'.chunks ∧ conn'.ending = conn.ending := by
  induction h with
  | nil => exact ⟨rfl, rfl⟩
  | @cons conn conn₁ conn' s strs hs h ih =>
    obtain ⟨chunks, ending⟩ := conn
    have hs₀ := hne s List.mem_cons_self
    cases chunks with
    | nil =>
      cases ending <;> cases hs
      exact absurd rfl hs₀
    | cons chunk chunks =>
      have hle := hlen chunk List.mem_cons_self
      rw [Conn.recv] at hs
      simp only [List.take_of_length_le hle, if_pos hle] at hs
      cases hs
      obtain ⟨hchunks, hend⟩ := ih (fun s hs => hne s (List.mem_cons_of_mem _ hs))
        (fun c hc => hlen c (List.mem_cons_of_mem _ hc))
      exact ⟨congrArg _ hchunks, hend⟩

end

theorem readFullLoop_holds {length n : ℕ} {reply : List UInt8} (h : conn.Holds (bs ++ rest))
    (hlen : reply.length + bs.length = length) (hn : bs.length < n) :
    ∃ conn', readFullLoop length n reply conn = .ok (.full (reply ++ bs), conn') ∧
      conn'.Holds rest ∧ conn'.ending = conn.ending := by
  induction n generalizing reply bs conn with
  | zero => omega
  | succ n ih =>
    rw [readFullLoop]
    by_cases hbs : bs = []
    · subst hbs
      rw [if_neg (by simp at hlen; omega), List.append_nil]
      exact ⟨conn, rfl, h, rfl⟩
    · have hpos := List.length_pos_iff.2 hbs
      obtain ⟨ret, rest', conn', hrecv, heq, hret, hle, hholds, hend⟩ :=
        h.recv (by simp [hbs]) (show 0 < length - reply.length by omega)
      -- what is received is a part of what is asked for
      obtain ⟨bs', rfl⟩ : ∃ bs', bs = ret ++ bs' := by
        have hpre : ret <+: bs :=
          List.prefix_of_prefix_length_le (heq ▸ List.prefix_append ret rest')
            (List.prefix_append bs rest) (by omega)
        exact ⟨_, hpre.choose_spec.symm⟩
      obtain rfl : rest' = bs' ++ rest := by
        rw [List.append_assoc] at heq
        exact (List.append_cancel_left heq).symm
      have hpos' := List.length_pos_iff.2 hret
      rw [List.length_append] at hlen hn
      have hlen' : (reply ++ ret).length + bs'.length = length := by
        rw [List.length_append]; omega
      obtain ⟨conn'', hloop, hholds', hend'⟩ := ih hholds hlen' (by omega)
      rw [if_pos (by omega), hrecv]
      simp only [bind, Except.bind]
      rw [if_neg (by omega), hloop, List.append_assoc]
      exact ⟨conn'', rfl, hholds', hend'.trans hend⟩

/-- **`util.read_full` reads exactly the bytes asked for**, however they are cut. -/
theorem readFull_holds (h : conn.Holds (bs ++ rest)) :
    ∃ conn', readFull conn bs.length = .ok (.full bs, conn') ∧ conn'.Holds rest ∧
      conn'.ending = conn.ending :=
  readFullLoop_holds h (by simp) (Nat.lt_succ_self _)

/-! ## The end of the stream -/

/-- What `util.read_full` gives when the bytes are not enough. -/
def Ending.result (reply : List UInt8) : Ending → Lua ReadFull
  | .silence => .error .unfinished
  | .closed => .ok (.eof reply)
  | .failed err => .ok (.failed err)

theorem readFullLoop_short {length n : ℕ} {reply : List UInt8} (h : conn.Holds bs)
    (hlen : reply.length + bs.length < length) (hn : bs.length < n) :
    ∃ conn', readFullLoop length n reply conn = (conn.ending.result (reply ++ bs)).map (·, conn') ∧
      conn'.Holds [] ∧ conn'.ending = conn.ending := by
  induction n generalizing reply bs conn with
  | zero => omega
  | succ n ih =>
    rw [readFullLoop, if_pos (by omega)]
    by_cases hbs : bs = []
    · subst hbs
      obtain ⟨chunks, ending⟩ := conn
      obtain rfl : chunks = [] := h.nil
      rw [List.append_nil]
      refine ⟨⟨[], ending⟩, ?_, h, rfl⟩
      cases ending <;> rfl
    · obtain ⟨ret, rest, conn₁, hrecv, rfl, hret, hle, h₁, hend⟩ :=
        h.recv hbs (n := length - reply.length) (by omega)
      have hpos := List.length_pos_iff.2 hret
      rw [List.length_append] at hlen hn
      have hlen' : (reply ++ ret).length + rest.length < length := by
        rw [List.length_append]
        omega
      obtain ⟨conn', hloop, h', hend'⟩ := ih h₁ hlen' (by omega)
      refine ⟨conn', ?_, h', hend'.trans hend⟩
      rw [hrecv]
      simp only [bind, Except.bind]
      rw [if_neg (by omega), hloop, hend, List.append_assoc]

/-- **At the end of the stream**, `util.read_full` returns what there is, or fails. -/
theorem readFull_short {length : ℕ} (h : conn.Holds bs) (hlen : bs.length < length) :
    ∃ conn', readFull conn length = (conn.ending.result bs).map (·, conn') ∧
      conn'.Holds [] ∧ conn'.ending = conn.ending :=
  readFullLoop_short h
    (show ([] : List UInt8).length + bs.length < length by simpa using hlen) (by omega)

/-! ## What is read -/

/-- Every round but the last receives a byte, so that `length` of them are enough. -/
theorem readFullLoop_fuel {length n m : ℕ} {reply : List UInt8} (hn : length - reply.length < n)
    (hle : n ≤ m) : readFullLoop length m reply conn = readFullLoop length n reply conn := by
  induction n generalizing m reply conn with
  | zero => omega
  | succ n ih =>
    obtain ⟨m, rfl⟩ := Nat.exists_eq_succ_of_ne_zero (show m ≠ 0 by omega)
    rw [readFullLoop, readFullLoop]
    split
    · rename_i hlt
      cases conn.recv (length - reply.length) with
      | error e => rfl
      | ok r =>
        obtain ⟨ret, conn'⟩ := r
        cases ret with
        | error err => rfl
        | ok ret =>
          simp only [bind, Except.bind]
          split
          · rfl
          · have hlen : (reply ++ ret).length = reply.length + ret.length := List.length_append
            exact ih (by omega) (by omega)
    · rfl

/-- **`util.read_full` is exact**: it takes the next `length` bytes and no others, or
    all there are and how they end, after at most `length` pieces. -/
theorem readFull_exact (h : conn.Holds bs) (length : ℕ) :
    (length ≤ bs.length → ∃ conn', readFull conn length = .ok (.full (bs.take length), conn') ∧
      conn'.Holds (bs.drop length) ∧ conn'.ending = conn.ending) ∧
    (bs.length < length → (conn.ending = .closed →
        ∃ conn', readFull conn length = .ok (.eof bs, conn') ∧ conn'.Holds []) ∧
      (∀ err, conn.ending = .failed err →
        ∃ conn', readFull conn length = .ok (.failed err, conn') ∧ conn'.Holds []) ∧
      (conn.ending = .silence → readFull conn length = .error .unfinished)) ∧
    ∀ n, length < n → readFullLoop length n [] conn = readFull conn length := by
  refine ⟨fun hle => ?_, fun hlt => ?_, fun n hn => readFullLoop_fuel (by simp) hn⟩
  · rw [← List.take_append_drop length bs] at h
    have hfull := readFull_holds h
    rwa [List.length_take, Nat.min_eq_left hle] at hfull
  · obtain ⟨conn', hread, hrest, -⟩ := readFull_short h hlt
    refine ⟨fun hend => ⟨conn', ?_, hrest⟩, fun err hend => ⟨conn', ?_, hrest⟩, fun hend => ?_⟩
    all_goals
      rw [hread, hend]
      rfl

/-- A frame of three bytes in two pieces, and a byte after it. -/
theorem readFull_exact_pieces :
    ∃ conn', readFull ⟨[[1], [2, 3, 4]], .closed⟩ 3 = .ok (.full [1, 2, 3], conn') ∧
      conn'.Holds [4] := by
  have h : Conn.Holds ⟨[[1], [2, 3, 4]], .closed⟩ [1, 2, 3, 4] := ⟨rfl, by decide⟩
  obtain ⟨conn', hread, hrest, -⟩ := (readFull_exact h 3).1 (by decide)
  exact ⟨conn', hread, hrest⟩

end Levent
