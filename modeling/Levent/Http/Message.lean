/-
  `util.read_message` of `http/util.lua`: it reads one message from a connection
  and returns the bytes that were received after it (`left`), which the callers
  (`server:handle_conn`, `client:get_response`) give to the next call.

  The vendored parser is a parameter.  What is assumed of it (`Parser.Pauses`) is
  that it consumes the bytes up to the end of the first message, or all of them.
-/
import Levent.Stream

namespace Levent.Http

open Lib (Lua)

/-- A parser of `levent.http.c`, with its states `σ` and the tables `μ` it fills.
    `execute` gives the number of bytes consumed and, on a failure, its code. -/
structure Parser (σ μ : Type) where
  execute : σ → List UInt8 → μ → σ × μ × ℕ × Option ℕ
  /-- the table `{}` -/
  empty : μ
  /-- the field `complete` -/
  complete : μ → Bool
  /-- `c.http_errno_name` -/
  errnoName : ℕ → String

variable {σ μ : Type}

/-- A connection with its parser.  `fed` records the bytes that the parser has
    consumed. -/
structure Io (σ : Type) where
  conn : Conn
  parser : σ
  fed : List UInt8
  deriving DecidableEq

inductive ReadError where
  | recv (err : ℕ)
  | parse (name : String)
  deriving DecidableEq

/-- `msg, left, table.concat(raw)` or `nil, err` -/
abbrev ReadResult (μ : Type) := Except ReadError (μ × Option (List UInt8) × List UInt8)

/-- The string of a round: the bytes left over, if there are some, or what
    `conn:recv(4096)` returns. -/
def nextString (left : Option (List UInt8)) (conn : Conn) : Lua (Except ℕ (List UInt8) × Conn) :=
  match left with
  | some left => .ok (.ok left, conn)
  | none => conn.recv 4096

/-- The loop of `util.read_message`. -/
def readLoop (P : Parser σ μ) : ℕ → μ → Option (List UInt8) → List UInt8 → Io σ →
    Lua (ReadResult μ × Io σ)
  | 0, _, _, _, _ => .error .unfinished
  | n + 1, msg, left, raw, io =>
    if P.complete msg then .ok (.ok (msg, left, raw), io)
    else do
      let (s, conn) ← nextString left io.conn
      match s with
      | .error err => .ok (.error (.recv err), { io with conn })
      | .ok s =>
        let (parser, msg, parsed, err) := P.execute io.parser s msg
        let io : Io σ := ⟨conn, parser, io.fed ++ s.take parsed⟩
        match err with
        | some err => .ok (.error (.parse (P.errnoName err)), io)
        | none =>
          -- socket closed by peer
          if s.length = 0 then .ok (.ok (msg, left, raw), io)
          else if parsed < s.length then
            readLoop P n msg (some (s.drop parsed)) (raw ++ s.take parsed) io
          else readLoop P n msg left (raw ++ s) io

/-- `util.read_message` -/
def readMessage (P : Parser σ μ) (n : ℕ) (left : Option (List UInt8)) (io : Io σ) :
    Lua (ReadResult μ × Io σ) :=
  readLoop P n P.empty left [] io

/-- `k` calls of `util.read_message` on one parser, each given the bytes that the
    call before it has left. -/
def readMessages (P : Parser σ μ) (n : ℕ) : ℕ → Option (List UInt8) → Io σ →
    Lua (Except ReadError (List (μ × List UInt8)) × Io σ)
  | 0, _, io => .ok (.ok [], io)
  | k + 1, left, io => do
    match ← readMessage P n left io with
    | (.error err, io) => .ok (.error err, io)
    | (.ok (msg, left, raw), io) =>
      match ← readMessages P n k left io with
      | (.error err, io) => .ok (.error err, io)
      | (.ok msgs, io) => .ok (.ok ((msg, raw) :: msgs), io)

/-! ## The parser -/

/-- What is assumed of a parser on the messages `M`: in the states `reads acc` it
    has consumed the bytes `acc` of a message, of which it makes `table acc`; it
    consumes all bytes up to the end of the message and pauses there. -/
structure Parser.Pauses (P : Parser σ μ) (M : List UInt8 → Prop) (table : List UInt8 → μ)
    (reads : List UInt8 → σ → Prop) : Prop where
  nonempty : ¬ M []
  empty : table [] = P.empty
  whole : ∀ {m}, M m → P.complete (table m) = true
  part : ∀ {acc s}, M (acc ++ s) → s ≠ [] → P.complete (table acc) = false
  more : ∀ {acc s rest p}, reads acc p → M (acc ++ (s ++ rest)) → s ≠ [] → rest ≠ [] →
    ∃ p', P.execute p s (table acc) = (p', table (acc ++ s), s.length, none) ∧ reads (acc ++ s) p'
  last : ∀ {acc s rest p}, reads acc p → M (acc ++ s) → s ≠ [] →
    ∃ p', P.execute p (s ++ rest) (table acc) = (p', table (acc ++ s), s.length, none) ∧
      reads [] p'

/-- The chunks are the stream, cut as `conn:recv(4096)` returns it. -/
structure Cut (chunks : List (List UInt8)) (stream : List UInt8) : Prop where
  bytes : chunks.flatten = stream
  nonempty : ∀ chunk ∈ chunks, chunk ≠ []
  length : ∀ chunk ∈ chunks, chunk.length ≤ 4096

variable {P : Parser σ μ} {M : List UInt8 → Prop} {table : List UInt8 → μ}
  {reads : List UInt8 → σ → Prop} {n k : ℕ} {msg : μ} {left : Option (List UInt8)}
  {acc m s raw fed rest stream : List UInt8} {chunk : List UInt8} {chunks : List (List UInt8)}
  {ms : List (List UInt8)} {p : σ} {io io' : Io σ} {ending : Ending}

/-! ## One message -/

/-- A round that has the string `s`, of which the parser consumes `parsed` bytes. -/
theorem readLoop_round (io' : Io σ) (hmsg : P.complete msg = false)
    (hs : nextString left io.conn = .ok (.ok s, io'.conn)) (hne : s ≠ []) {parsed : ℕ} {msg' : μ}
    (hx : P.execute io.parser s msg = (io'.parser, msg', parsed, none))
    (hfed : io'.fed = io.fed ++ s.take parsed) :
    readLoop P (n + 1) msg left raw io =
      if parsed < s.length then readLoop P n msg' (some (s.drop parsed)) (raw ++ s.take parsed) io'
      else readLoop P n msg' left (raw ++ s) io' := by
  obtain ⟨conn, parser, fed⟩ := io'
  obtain rfl := hfed
  rw [readLoop, if_neg (by simp [hmsg]), hs]
  simp only [bind, Except.bind, hx]
  rw [if_neg (by simp [hne])]

theorem readLoop_complete (hmsg : P.complete msg = true) (hn : 1 ≤ n) :
    readLoop P n msg left raw io = .ok (.ok (msg, left, raw), io) := by
  obtain ⟨n, rfl⟩ : ∃ k, n = k + 1 := ⟨n - 1, by omega⟩
  rw [readLoop, if_pos hmsg]

/-- The message ends in the string of this round. -/
theorem readLoop_last (hP : P.Pauses M table reads) (hm : M (acc ++ s)) (hs : s ≠ [])
    (hp : reads acc io.parser) {conn : Conn}
    (hnext : nextString left io.conn = .ok (.ok (s ++ rest), conn)) :
    ∃ p', reads [] p' ∧ ∀ n raw, 2 ≤ n → readLoop P n (table acc) left raw io =
      .ok (.ok (table (acc ++ s), if rest = [] then left else some rest, raw ++ s),
        ⟨conn, p', io.fed ++ s⟩) := by
  obtain ⟨p', hx, hp'⟩ := hP.last hp hm hs
  refine ⟨p', hp', ?_⟩
  intro n raw hn
  obtain ⟨n, rfl⟩ : ∃ k, n = k + 1 := ⟨n - 1, by omega⟩
  rw [readLoop_round ⟨conn, p', io.fed ++ s⟩ (hP.part hm hs) hnext (by simp [hs]) hx (by simp)]
  have hdone : P.complete (table (acc ++ s)) = true := hP.whole hm
  by_cases hrest : rest = []
  · subst hrest
    rw [if_neg (by simp), if_pos rfl, List.append_nil]
    exact readLoop_complete hdone (by omega)
  · have hpos := List.length_pos_iff.2 hrest
    rw [if_pos (by simp; omega), if_neg hrest, List.take_left, List.drop_left]
    exact readLoop_complete hdone (by omega)

/-- **With no bytes left over** strings are received up to the one that the
    message ends in, and what follows the message there is left over. -/
theorem readLoop_none {conn : Conn} (raw fed : List UInt8) (hP : P.Pauses M table reads)
    (hm : M (acc ++ s)) (hs : s ≠ []) (hconn : conn.Holds (s ++ rest)) (hp : reads acc p) :
    ∃ pre x y conn' rest' p', conn.Recvs 4096 (pre ++ [x ++ y]) conn' ∧
      s = pre.flatten ++ x ∧ x ≠ [] ∧ (∀ c ∈ pre, c ≠ []) ∧ rest = y ++ rest' ∧ conn'.Holds rest' ∧
      reads [] p' ∧ ∀ n, pre.length + 2 ≤ n →
        readLoop P n (table acc) none raw ⟨conn, p, fed⟩ =
          .ok (.ok (table (acc ++ s), if y = [] then none else some y, raw ++ s),
            ⟨conn', p', fed ++ s⟩) := by
  induction hlen : s.length using Nat.strongRecOn generalizing acc s raw fed p conn with
  | ind k ih =>
    subst hlen
    obtain ⟨ret, rest', conn₁, hrecv, heq, hret, -, hconn₁, -⟩ :=
      hconn.recv (by simp [hs]) (show 0 < 4096 by decide)
    by_cases hend : ∃ y, ret = s ++ y
    · -- the message ends in this string
      obtain ⟨y, rfl⟩ := hend
      have hp₀ : reads acc (Io.mk conn p fed).parser := hp
      have hnext : nextString none (Io.mk conn p fed).conn = .ok (.ok (s ++ y), conn₁) := hrecv
      obtain ⟨p', hp', hloop⟩ := readLoop_last hP hm hs hp₀ hnext
      rw [List.append_assoc] at heq
      refine ⟨[], s, y, conn₁, rest', p', .cons hrecv .nil, rfl, hs, nofun,
        List.append_cancel_left heq, hconn₁, hp', ?_⟩
      intro n hn
      exact hloop n raw hn
    · -- the string is a part of the message
      obtain ⟨s', rfl, htail⟩ : ∃ s', s = ret ++ s' ∧ rest' = s' ++ rest := by
        rcases List.append_eq_append_iff.1 heq.symm with ⟨s', h1, h2⟩ | ⟨y, h1, h2⟩
        · exact ⟨s', h1, h2⟩
        · exact absurd ⟨y, h1⟩ hend
      have hs' : s' ≠ [] := by
        rintro rfl
        exact hend ⟨[], by simp⟩
      obtain ⟨p₁, hx, hp₁⟩ := hP.more hp hm hret hs'
      have hpart := hP.part hm hs
      have hshort : s'.length < (ret ++ s').length := by
        have hpos := List.length_pos_iff.2 hret
        rw [List.length_append]
        omega
      rw [← List.append_assoc] at hm
      obtain ⟨pre, x, y, conn', rest', p', hrecvs, rfl, hx', hpre, rfl, hconn', hp', hloop⟩ :=
        ih s'.length hshort (raw ++ ret) (fed ++ ret) hm hs' (htail ▸ hconn₁) hp₁ rfl
      refine ⟨ret :: pre, x, y, conn', rest', p', .cons hrecv hrecvs, by simp, hx', ?_, rfl, hconn',
        hp', ?_⟩
      · intro c hc
        rcases List.mem_cons.1 hc with rfl | hc
        · exact hret
        · exact hpre c hc
      · intro n hn
        rw [List.length_cons] at hn
        obtain ⟨n, rfl⟩ : ∃ k, n = k + 1 := ⟨n - 1, by omega⟩
        have hnext : nextString none (Io.mk conn p fed).conn = .ok (.ok ret, conn₁) := hrecv
        rw [readLoop_round ⟨conn₁, p₁, fed ++ ret⟩ hpart hnext hret hx (by simp),
          if_neg (lt_irrefl _), hloop n (by omega)]
        simp only [List.append_assoc]

/-- **One message**, of a connection that begins with it. -/
theorem readMessage_holds {conn : Conn} (fed : List UInt8) (hP : P.Pauses M table reads) (hm : M m)
    (hconn : conn.Holds (m ++ rest)) (hp : reads [] p) :
    ∃ pre x y conn' rest' p', conn.Recvs 4096 (pre ++ [x ++ y]) conn' ∧
      m = pre.flatten ++ x ∧ x ≠ [] ∧ (∀ c ∈ pre, c ≠ []) ∧ rest = y ++ rest' ∧ conn'.Holds rest' ∧
      reads [] p' ∧ ∀ n, pre.length + 2 ≤ n →
        readMessage P n none ⟨conn, p, fed⟩ =
          .ok (.ok (table m, if y = [] then none else some y, m), ⟨conn', p', fed ++ m⟩) := by
  have hne : m ≠ [] := by
    rintro rfl
    exact hP.nonempty hm
  have hm₀ : M ([] ++ m) := hm
  obtain ⟨pre, x, y, conn', rest', p', h⟩ := readLoop_none [] fed hP hm₀ hne hconn hp
  refine ⟨pre, x, y, conn', rest', p', ?_⟩
  rw [hP.empty] at h
  exact h

/-- The same, for chunks that `conn:recv(4096)` returns as they are. -/
theorem readMessage_none (ending : Ending) (fed : List UInt8) (hP : P.Pauses M table reads)
    (hm : M m) (hcut : Cut chunks (m ++ rest)) (hp : reads [] p) :
    ∃ pre x y post p', chunks = pre ++ (x ++ y) :: post ∧ m = pre.flatten ++ x ∧ x ≠ [] ∧
      rest = y ++ post.flatten ∧ Cut post post.flatten ∧ reads [] p' ∧ ∀ n, chunks.length + 1 ≤ n →
        readMessage P n none ⟨⟨chunks, ending⟩, p, fed⟩ =
          .ok (.ok (table m, if y = [] then none else some y, m), ⟨⟨post, ending⟩, p', fed ++ m⟩) := by
  have hconn : Conn.Holds ⟨chunks, ending⟩ (m ++ rest) := ⟨hcut.bytes, hcut.nonempty⟩
  obtain ⟨pre, x, y, ⟨post, ending'⟩, rest', p', hrecvs, hx, hxne, hpre, hrest, hconn', hp', hread⟩ :=
    readMessage_holds fed hP hm hconn hp
  have hne : ∀ s ∈ pre ++ [x ++ y], s ≠ [] := by
    intro s hs
    rcases List.mem_append.1 hs with hs | hs
    · exact hpre s hs
    · rw [List.mem_singleton.1 hs]
      simp [hxne]
  obtain ⟨hchunks, hend⟩ := hrecvs.chunks hne hcut.length
  rw [List.append_assoc] at hchunks
  obtain rfl : chunks = pre ++ (x ++ y) :: post := hchunks
  obtain rfl : ending' = ending := hend
  refine ⟨pre, x, y, post, p', rfl, hx, hxne, hrest.trans (by rw [← hconn'.bytes]), ⟨rfl, ?_, ?_⟩, hp', ?_⟩
  · exact hconn'.nonempty
  · intro c hc
    exact hcut.length c (List.mem_append_right _ (List.mem_cons_of_mem _ hc))
  · intro n hn
    refine hread n ?_
    rw [List.length_append, List.length_cons] at hn
    omega

/-- **With bytes left over** nothing is received any more, and bytes are left
    over again. -/
theorem readLoop_some {l : List UInt8} {r : ReadResult μ}
    (h : readLoop P n msg (some l) raw io = .ok (r, io')) :
    io'.conn = io.conn ∧ ∀ msg left raw, r = .ok (msg, left, raw) → ∃ l', left = some l' := by
  induction n generalizing msg l raw io with
  | zero => cases h
  | succ n ih =>
    rw [readLoop] at h
    split at h
    · cases h
      exact ⟨rfl, by rintro _ _ _ ⟨⟩; exact ⟨l, rfl⟩⟩
    · simp only [nextString, bind, Except.bind] at h
      cases herr : (P.execute io.parser l msg).2.2.2 with
      | some err =>
        simp only [herr] at h
        cases h
        exact ⟨rfl, by rintro _ _ _ ⟨⟩⟩
      | none =>
        simp only [herr] at h
        split at h
        · cases h
          exact ⟨rfl, by rintro _ _ _ ⟨⟩; exact ⟨l, rfl⟩⟩
        · split at h
          · have hconn := ih h
            exact hconn
          · have hconn := ih h
            exact hconn

/-! ## A stream of messages -/

/-- The messages as `util.read_message` returns them, with their bytes. -/
def tables (table : List UInt8 → μ) (ms : List (List UInt8)) : List (μ × List UInt8) :=
  ms.map fun m => (table m, m)

/-- No message ends strictly inside a chunk, except inside the last one. -/
def EndsLast (ms chunks : List (List UInt8)) : Prop :=
  ∀ ms₁ ms₂ pre x y post, ms = ms₁ ++ ms₂ → chunks = pre ++ (x ++ y) :: post →
    ms₁.flatten = pre.flatten ++ x → x ≠ [] → y ≠ [] → post = []

/-- After one message the others are read. -/
theorem readMessages_succ {left' : Option (List UInt8)} {io'' : Io σ}
    {msgs : List (μ × List UInt8)}
    (h : readMessage P n left io = .ok (.ok (msg, left', raw), io')) :
    readMessages P n (k + 1) left io = .ok (.ok ((msg, raw) :: msgs), io'') ↔
      readMessages P n k left' io' = .ok (.ok msgs, io'') := by
  rw [readMessages, h]
  simp only [bind, Except.bind]
  cases hk : readMessages P n k left' io' with
  | error e => simp
  | ok r =>
    obtain ⟨r, io''⟩ := r
    cases r with
    | error err => simp
    | ok msgs => simp

/-- With bytes left over nothing is received in all the calls. -/
theorem readMessages_some {l : List UInt8} {r : Except ReadError (List (μ × List UInt8))}
    (h : readMessages P n k (some l) io = .ok (r, io')) : io'.conn = io.conn := by
  induction k generalizing l io io' r with
  | zero => cases h; rfl
  | succ k ih =>
    rw [readMessages] at h
    obtain ⟨⟨r₁, io₁⟩, h₁, h⟩ := Lib.bind_eq_ok.1 h
    obtain ⟨hconn, hleft⟩ := readLoop_some h₁
    cases r₁ with
    | error err => cases h; exact hconn
    | ok r₁ =>
      obtain ⟨msg, left, raw⟩ := r₁
      obtain ⟨l', rfl⟩ := hleft _ _ _ rfl
      obtain ⟨⟨r₂, io₂⟩, h₂, h⟩ := Lib.bind_eq_ok.1 h
      have hconn₂ := ih h₂
      cases r₂ <;> cases h <;> exact hconn₂.trans hconn

/-- **Messages that are all left over** are read from there. -/
theorem readMessages_left (hP : P.Pauses M table reads) (hms : ∀ m ∈ ms, M m)
    (hp : reads [] io.parser) (hn : 2 ≤ n) :
    ∃ p', readMessages P n ms.length (some ms.flatten) io =
      .ok (.ok (tables table ms), ⟨io.conn, p', io.fed ++ ms.flatten⟩) := by
  induction ms generalizing io with
  | nil =>
    obtain ⟨conn, p, fed⟩ := io
    exact ⟨p, by simp [readMessages, tables]⟩
  | cons m ms ih =>
    have hm := hms m List.mem_cons_self
    have hms' : ∀ m' ∈ ms, M m' := fun m' h => hms m' (List.mem_cons_of_mem _ h)
    have hne : ∀ m', M m' → m' ≠ [] := by
      rintro m' hm' rfl
      exact hP.nonempty hm'
    have hnext : nextString (some (m :: ms).flatten) io.conn = .ok (.ok (m ++ ms.flatten), io.conn) :=
      rfl
    have hm₀ : M ([] ++ m) := hm
    obtain ⟨p₁, hp₁, hread⟩ := readLoop_last hP hm₀ (hne m hm) hp hnext
    replace hread := hread n [] hn
    rw [hP.empty, List.nil_append] at hread
    by_cases hlast : ms.flatten = []
    · -- the last message stays in `left`, and no call follows
      obtain rfl : ms = [] := by
        cases ms with
        | nil => rfl
        | cons m' ms =>
          exact absurd (List.append_eq_nil_iff.1 hlast).1 (hne m' (hms' m' List.mem_cons_self))
      refine ⟨p₁, ?_⟩
      rw [show io.fed ++ [m].flatten = io.fed ++ m by simp]
      exact (readMessages_succ (k := 0) hread).2 rfl
    · rw [if_neg hlast] at hread
      have hp₂ : reads [] (Io.mk io.conn p₁ (io.fed ++ m)).parser := hp₁
      obtain ⟨p', h⟩ := ih hms' hp₂
      refine ⟨p', ?_⟩
      rw [List.flatten_cons, ← List.append_assoc]
      exact (readMessages_succ hread).2 h

section
variable {pre post pre' post' : List (List UInt8)} {x y x' y' a : List UInt8}

/-- A position after the message that ends in the chunk after `pre` is not in
    the chunks `pre`. -/
theorem exists_after (hm : m = pre.flatten ++ x) (heq : m ++ a = pre'.flatten ++ x') (hy' : y' ≠ [])
    (hchunks : pre ++ chunk :: post = pre' ++ (x' ++ y') :: post') :
    ∃ cs, pre' = pre ++ cs ∧ chunk :: post = cs ++ (x' ++ y') :: post' := by
  rcases List.append_eq_append_iff.1 hchunks with ⟨cs, h1, h2⟩ | ⟨cs, h1, h2⟩
  · exact ⟨cs, h1, h2⟩
  · cases cs with
    | nil => exact ⟨[], by simpa using h1.symm, by simpa using h2.symm⟩
    | cons c cs =>
      obtain ⟨rfl, rfl⟩ := List.cons.inj h2
      have hpos := List.length_pos_iff.2 hy'
      have hlen := congrArg List.length heq
      rw [hm, h1] at hlen
      simp only [List.length_append, List.flatten_append, List.flatten_cons] at hlen
      omega

/-- In the last chunk messages may end anywhere. -/
theorem endsLast_last (hm : m = pre.flatten ++ x) :
    EndsLast (m :: ms) (pre ++ [x ++ y]) := by
  intro ms₁ ms₂ pre' x' y' post' hms hchunks heq hx' hy'
  cases ms₁ with
  | nil => exact absurd (List.append_eq_nil_iff.1 heq.symm).2 hx'
  | cons m' ms₁ =>
    obtain ⟨rfl, -⟩ := List.cons.inj hms
    obtain ⟨cs, -, hcs⟩ := exists_after hm heq hy' hchunks
    have hlen := congrArg List.length hcs
    rw [List.length_append, List.length_cons, List.length_cons, List.length_nil] at hlen
    exact List.length_eq_zero_iff.1 (by omega)

/-- The condition on the chunks after the one that the first message ends with. -/
theorem endsLast_cons (hm : m = pre.flatten ++ x) :
    EndsLast (m :: ms) (pre ++ x :: post) ↔ EndsLast ms post := by
  constructor
  · rintro h ms₁ ms₂ pre' x' y' post' rfl rfl heq hx' hy'
    refine h (m :: ms₁) ms₂ (pre ++ x :: pre') x' y' post' rfl (by simp) ?_ hx' hy'
    simp [hm, heq]
  · intro h ms₁ ms₂ pre' x' y' post' hms hchunks heq hx' hy'
    cases ms₁ with
    | nil => exact absurd (List.append_eq_nil_iff.1 heq.symm).2 hx'
    | cons m' ms₁ =>
      obtain ⟨rfl, rfl⟩ := List.cons.inj hms
      obtain ⟨cs, rfl, hcs⟩ := exists_after hm heq hy' hchunks
      cases cs with
      | nil =>
        -- the position would be inside the message
        obtain ⟨rfl, rfl⟩ := List.cons.inj hcs
        have hpos := List.length_pos_iff.2 hy'
        have hlen := congrArg List.length heq
        rw [hm] at hlen
        simp only [List.length_append, List.flatten_append, List.flatten_cons] at hlen
        simp only [List.flatten_nil, List.length_nil] at hlen
        omega
      | cons c cs =>
        obtain ⟨rfl, rfl⟩ := List.cons.inj hcs
        refine h ms₁ ms₂ cs x' y' post' rfl rfl ?_ hx' hy'
        rw [List.flatten_cons, hm] at heq
        simpa using heq

end

/-! ## The rounds -/

/-- More rounds do not change what is read. -/
theorem readLoop_mono {n' : ℕ} {r : ReadResult μ × Io σ}
    (h : readLoop P n msg left raw io = .ok r) (hn : n ≤ n') :
    readLoop P n' msg left raw io = .ok r := by
  induction n generalizing n' msg left raw io with
  | zero => cases h
  | succ n ih =>
    obtain ⟨n', rfl⟩ : ∃ k, n' = k + 1 := ⟨n' - 1, by omega⟩
    rw [readLoop] at h ⊢
    split at h
    · rw [if_pos ‹_›]
      exact h
    · rw [if_neg ‹_›]
      obtain ⟨⟨s, conn⟩, hs, h⟩ := Lib.bind_eq_ok.1 h
      rw [hs]
      refine Lib.bind_eq_ok.2 ⟨_, rfl, ?_⟩
      cases s with
      | error err => exact h
      | ok s =>
        simp only at h ⊢
        split at h
        · exact h
        · split at h
          · rw [if_pos ‹_›]
            exact h
          · rw [if_neg ‹_›]
            split at h
            · rw [if_pos ‹_›]
              exact ih h (by omega)
            · rw [if_neg ‹_›]
              exact ih h (by omega)

theorem readMessages_mono {n' : ℕ} {r : Except ReadError (List (μ × List UInt8)) × Io σ}
    (h : readMessages P n k left io = .ok r) (hn : n ≤ n') :
    readMessages P n' k left io = .ok r := by
  induction k generalizing left io r with
  | zero => exact h
  | succ k ih =>
    rw [readMessages] at h ⊢
    obtain ⟨⟨r₁, io₁⟩, h₁, h⟩ := Lib.bind_eq_ok.1 h
    refine Lib.bind_eq_ok.2 ⟨_, readLoop_mono h₁ hn, ?_⟩
    cases r₁ with
    | error err => exact h
    | ok r₁ =>
      obtain ⟨⟨r₂, io₂⟩, h₂, h⟩ := Lib.bind_eq_ok.1 h
      exact Lib.bind_eq_ok.2 ⟨_, ih h₂, h⟩

/-! ## All messages -/

/-- The messages are returned in order, and every byte is received, and consumed
    once. -/
def ReadsAll (P : Parser σ μ) (table : List UInt8 → μ) (ms : List (List UInt8)) (io : Io σ) : Prop :=
  ∃ n io', readMessages P n ms.length none io = .ok (.ok (tables table ms), io') ∧
    io'.fed = io.fed ++ ms.flatten ∧ io'.conn.chunks = []

/-- After a message that ends with its chunk the others are read from the next
    chunks. -/
theorem readsAll_cons {io' : Io σ}
    (hread : ∀ n, k ≤ n → readMessage P n none io = .ok (.ok (table m, none, m), io'))
    (hfed : io'.fed = io.fed ++ m) :
    ReadsAll P table (m :: ms) io ↔ ReadsAll P table ms io' := by
  constructor
  · rintro ⟨n, io'', h, hfed', hchunks⟩
    refine ⟨max n k, io'', ?_, by rw [hfed', hfed, List.flatten_cons, List.append_assoc], hchunks⟩
    exact (readMessages_succ (hread _ (le_max_right n k))).1 (readMessages_mono h (le_max_left n k))
  · rintro ⟨n, io'', h, hfed', hchunks⟩
    refine ⟨max n k, io'', ?_, by rw [hfed', hfed, List.flatten_cons, List.append_assoc], hchunks⟩
    exact (readMessages_succ (hread _ (le_max_right n k))).2 (readMessages_mono h (le_max_left n k))

/-- After a message that ends inside its chunk nothing is received any more: the
    others are read exactly when they are all left over. -/
theorem readsAll_left {io' : Io σ} (hP : P.Pauses M table reads) (hms : ∀ m ∈ ms, M m)
    (hread : ∀ n, k ≤ n → readMessage P n none io = .ok (.ok (table m, some s, m), io'))
    (hfed : io'.fed = io.fed ++ m) (hp : reads [] io'.parser)
    (hstream : ms.flatten = s ++ io'.conn.chunks.flatten) :
    ReadsAll P table (m :: ms) io ↔ io'.conn.chunks = [] := by
  constructor
  · rintro ⟨n, io'', h, -, hchunks⟩
    have h' := (readMessages_succ (hread _ (le_max_right n k))).1 (readMessages_mono h (le_max_left n k))
    rw [← readMessages_some h']
    exact hchunks
  · intro hchunks
    rw [hchunks, List.flatten_nil, List.append_nil] at hstream
    obtain ⟨p', h⟩ := readMessages_left hP hms hp (le_max_left 2 k)
    rw [hstream] at h
    refine ⟨max 2 k, _, (readMessages_succ (hread _ (le_max_right 2 k))).2 h, ?_, hchunks⟩
    rw [List.flatten_cons, hfed, hstream, List.append_assoc]

/-- **`util.read_message` reads a stream of messages exactly when** no message
    ends strictly inside a chunk that is received before the last one. -/
theorem readMessages_iff (hP : P.Pauses M table reads) (hms : ∀ m ∈ ms, M m)
    (hcut : Cut chunks ms.flatten) (hp : reads [] p) :
    ReadsAll P table ms ⟨⟨chunks, ending⟩, p, fed⟩ ↔ EndsLast ms chunks := by
  induction ms generalizing chunks p fed with
  | nil =>
    have hholds : Conn.Holds ⟨chunks, ending⟩ [] := ⟨hcut.bytes, hcut.nonempty⟩
    obtain rfl : chunks = [] := hholds.nil
    refine iff_of_true ⟨0, _, rfl, by simp, rfl⟩ ?_
    intro ms₁ ms₂ pre x y post _ hchunks
    simp at hchunks
  | cons m ms ih =>
    have hms' : ∀ m' ∈ ms, M m' := fun m' h => hms m' (List.mem_cons_of_mem _ h)
    obtain ⟨pre, x, y, post, p', rfl, hx, hxne, hpost, hcut', hp', hread⟩ :=
      readMessage_none ending fed hP (hms m List.mem_cons_self) hcut hp
    by_cases hy : y = []
    · subst hy
      rw [List.nil_append] at hpost
      rw [← hpost] at hcut'
      rw [List.append_nil] at hread ⊢
      rw [endsLast_cons hx, readsAll_cons hread rfl]
      exact ih hms' hcut' hp'
    · rw [if_neg hy] at hread
      rw [readsAll_left hP hms' hread rfl hp' hpost]
      constructor
      · rintro (rfl : post = [])
        exact endsLast_last hx
      · intro h
        exact h [m] ms pre x y post rfl rfl (by simp [hx]) hxne hy

/-! ## Messages without a body -/

/-- The bytes end with an empty line. -/
def headEnds (bs : List UInt8) : Bool := [13, 10, 13, 10].isSuffixOf bs

/-- The beginning of a message and its number of bytes in `s`, up to the first
    empty line after `acc`. -/
def scanHead : List UInt8 → List UInt8 → List UInt8 × ℕ
  | acc, [] => (acc, 0)
  | acc, b :: s =>
    if headEnds (acc ++ [b]) then (acc ++ [b], 1)
    else ((scanHead (acc ++ [b]) s).1, (scanHead (acc ++ [b]) s).2 + 1)

/-- A parser for messages without a body, which makes `table bs` of the bytes `bs`
    of a message. -/
def tableParser (table : List UInt8 → μ) (complete : μ → Bool) : Parser (List UInt8) μ where
  execute acc s _ :=
    let (bs, parsed) := scanHead acc s
    (if headEnds bs then [] else bs, table bs, parsed, none)
  empty := table []
  complete := complete
  errnoName _ := ""

/-- A parser whose table is the bytes of the message. -/
def headParser : Parser (List UInt8) (List UInt8) := tableParser id headEnds

/-- A head: an empty line, and none before. -/
def IsHead (m : List UInt8) : Prop :=
  headEnds m ∧ ∀ acc s, m = acc ++ s → s ≠ [] → headEnds acc = false

theorem scanHead_more (h : ∀ s₁ s₂, s = s₁ ++ s₂ → s₁ ≠ [] → headEnds (acc ++ s₁) = false) :
    scanHead acc s = (acc ++ s, s.length) := by
  induction s generalizing acc with
  | nil => simp [scanHead]
  | cons b s ih =>
    have hb := h [b] s rfl (by simp)
    have hs : scanHead (acc ++ [b]) s = (acc ++ [b] ++ s, s.length) := ih (by
      rintro s₁ s₂ rfl hne
      simpa using h (b :: s₁) s₂ rfl (by simp))
    simp [scanHead, hb, hs]

theorem scanHead_last (hne : s ≠ []) (hend : headEnds (acc ++ s) = true)
    (h : ∀ s₁ s₂, s = s₁ ++ s₂ → s₂ ≠ [] → headEnds (acc ++ s₁) = false) (rest : List UInt8) :
    scanHead acc (s ++ rest) = (acc ++ s, s.length) := by
  induction s generalizing acc with
  | nil => exact absurd rfl hne
  | cons b s ih =>
    by_cases hs : s = []
    · subst hs
      simp [scanHead, hend]
    · have hb := h [b] s rfl hs
      have hs : scanHead (acc ++ [b]) (s ++ rest) = (acc ++ [b] ++ s, s.length) := by
        refine ih hs (by simpa using hend) ?_
        rintro s₁ s₂ rfl hne
        simpa using h (b :: s₁) s₂ rfl hne
      simp [scanHead, hb, hs]

theorem tableParser_pauses {complete : μ → Bool} (h : ∀ bs, complete (table bs) = headEnds bs) :
    (tableParser table complete).Pauses IsHead table (fun acc p => acc = p) where
  nonempty h := by have := h.1; revert this; decide
  empty := rfl
  whole hm := (h _).trans hm.1
  part hm hs := (h _).trans (hm.2 _ _ rfl hs)
  more := by
    rintro acc s rest _ rfl hm hs hrest
    have hscan : scanHead acc s = (acc ++ s, s.length) := scanHead_more (by
      rintro s₁ s₂ rfl -
      exact hm.2 (acc ++ s₁) (s₂ ++ rest) (by simp) (by simp [hrest]))
    have hopen : headEnds (acc ++ s) = false := hm.2 (acc ++ s) rest (by simp) hrest
    exact ⟨acc ++ s, by simp [tableParser, hscan, hopen], rfl⟩
  last := by
    rintro acc s rest _ rfl hm hs
    have hscan := scanHead_last hs hm.1 (by
      rintro s₁ s₂ rfl hne
      exact hm.2 (acc ++ s₁) s₂ (by simp) hne) rest
    have hdone : headEnds (acc ++ s) = true := hm.1
    exact ⟨[], by simp [tableParser, hscan, hdone], rfl⟩

theorem headParser_pauses : headParser.Pauses IsHead id (fun acc p => acc = p) :=
  tableParser_pauses fun _ => rfl

/-- `GET /c HTTP/1.1` -/
def get (c : UInt8) : List UInt8 :=
  [71, 69, 84, 32, 47, c, 32, 72, 84, 84, 80, 47, 49, 46, 49, 13, 10, 13, 10]

instance (m : List UInt8) : Decidable (IsHead m) :=
  decidable_of_iff (headEnds m ∧ ∀ k < m.length, headEnds (m.take k) = false) <| by
    constructor
    · rintro ⟨hm, h⟩
      refine ⟨hm, ?_⟩
      rintro acc s rfl hs
      have hpos := List.length_pos_iff.2 hs
      simpa using h acc.length (by simp; omega)
    · rintro ⟨hm, h⟩
      refine ⟨hm, fun k hk => h _ _ (List.take_append_drop k m).symm ?_⟩
      rw [Ne, List.drop_eq_nil_iff]
      omega

/-- Three requests in two chunks: the third call returns the second request
    again, and the second chunk is never received. -/
theorem readMessages_not_all :
    Cut [get 97 ++ get 98, get 99] [get 97, get 98, get 99].flatten ∧
      (∀ m ∈ [get 97, get 98, get 99], IsHead m) ∧
      ¬ ReadsAll headParser id [get 97, get 98, get 99]
        ⟨⟨[get 97 ++ get 98, get 99], .silence⟩, [], []⟩ := by
  refine ⟨⟨by decide, by decide, by decide⟩, by decide, ?_⟩
  rintro ⟨n, io, h, -, hchunks⟩
  have h₁ := readMessages_mono h (le_max_left n 3)
  have h₂ : readMessages headParser 3 3 none ⟨⟨[get 97 ++ get 98, get 99], .silence⟩, [], []⟩ =
      .ok (.ok (tables id [get 97, get 98, get 98]),
        ⟨⟨[get 99], .silence⟩, [], get 97 ++ get 98 ++ get 98⟩) := by decide +kernel
  have h₃ := readMessages_mono h₂ (le_max_right n 3)
  obtain ⟨-, rfl⟩ := Prod.mk.inj (Except.ok.inj (h₁.symm.trans h₃))
  simp at hchunks

/-- With a cut between the second request and the third they are all read. -/
theorem readMessages_iff_pipelined :
    ReadsAll headParser id [get 97, get 98] ⟨⟨[get 97, get 98], .silence⟩, [], []⟩ ↔
      EndsLast [get 97, get 98] [get 97, get 98] :=
  readMessages_iff headParser_pauses (by decide) ⟨by decide, by decide, by decide⟩ rfl

end Levent.Http
