/-
  Responses that end too early: what `util.read_message`, `client:get_response` and
  `http.get` do when the peer closes the connection, or `recv` fails, before a response
  is complete.

  The vendored parser is a parameter.  What is assumed of it (`Parser.Receives`) is what
  `http_parser_execute` does in the state `s_start_res`, in which it passes over line
  ends, and on the empty string, which tells it that the stream has ended.
-/
import Levent.Http.Reconnect
import Mathlib.Data.List.TakeWhile

namespace Levent.Http

open Lib (Lua)

def HTTP_MAX_HEADER_SIZE : ℕ := 80 * 1024

/-- `ch == CR || ch == LF` -/
def isEol (b : UInt8) : Bool := b = 13 || b = 10

/-- Bytes that leave the parser in the state `s_start_res`. -/
def Blank (bs : List UInt8) : Prop := (∀ b ∈ bs, isEol b) ∧ bs.length ≤ HTTP_MAX_HEADER_SIZE

instance (bs : List UInt8) : Decidable (Blank bs) := inferInstanceAs (Decidable (_ ∧ _))

/-- A message that `on_message_complete` has not been called for. -/
def Msg.Open (msg : Msg) : Prop := msg.complete = false ∧ msg.headers = none

/-- What is assumed of a parser for responses: in the states `reads acc` it has consumed
    the bytes `acc`, without an error and without a response that is complete. -/
structure Parser.Receives {σ : Type} (P : Parser σ Msg) (p₀ : σ) (reads : List UInt8 → σ → Prop) :
    Prop where
  complete : ∀ msg, P.complete msg = msg.complete
  empty : P.empty.Open
  new : reads [] p₀
  more : ∀ {acc s p msg p' msg' parsed}, reads acc p → msg.Open → s ≠ [] →
    P.execute p s msg = (p', msg', parsed, none) → msg'.complete = false →
    msg'.Open ∧ parsed = s.length ∧ reads (acc ++ s) p'
  blank : ∀ {acc s p msg}, reads acc p → msg.Open → s ≠ [] → Blank (acc ++ s) →
    ∃ p' msg', P.execute p s msg = (p', msg', s.length, none) ∧ msg'.complete = false
  eofBlank : ∀ {acc p msg}, reads acc p → msg.Open → Blank acc → P.execute p [] msg = (p, msg, 0, none)
  /-- `HPE_INVALID_EOF_STATE`, or a body that ends with the stream -/
  eofOpen : ∀ {acc p msg p' msg' parsed}, reads acc p → msg.Open → ¬ Blank acc →
    P.execute p [] msg = (p', msg', parsed, none) → msg'.complete = true

/-- What `send_request` returns instead of a response. -/
inductive RequestError where
  | connect (err : ℕ)
  | send (err : ℕ)
  | response (err : ReadError)
  deriving DecidableEq

variable {σ : Type} (P : Parser σ Msg) (p₀ : σ)

/-- `send_request` of `http.get` and `http.post`: what `create_connection` returns, and
    the error of `sendall`. -/
def sendRequest (n : ℕ) (opened : Except ℕ Conn) (err : Option ℕ) :
    Lua (Except RequestError Response) :=
  match opened, err with
  | .error err, _ => .ok (.error (.connect err))
  | .ok _, some err => .ok (.error (.send err))
  | .ok conn, none =>
    match (HttpClient.new.send (.ok conn) none).getResponse P p₀ n with
    | none => .error .unfinished
    | some (.response rsp, _) => .ok (.ok rsp)
    | some (.failed err, _) => .ok (.error (.response err))
    | some (.raised msg, _) => .error (.raised msg)

/-- A response is complete after one of the strings. -/
def Parser.completes : σ → Msg → List (List UInt8) → Bool
  | _, _, [] => false
  | p, msg, s :: ss =>
    let (p', msg', _, err) := P.execute p s msg
    err.isNone && (P.complete msg' || completes p' msg' ss)

/-- What `recv` returns: the chunks, and the empty string when the peer has closed. -/
def Conn.strings (conn : Conn) : List (List UInt8) :=
  conn.chunks ++ if conn.ending = .closed then [[]] else []

/-- A stream that ends before one response is complete. -/
structure Broken (conn : Conn) : Prop where
  ends : conn.ending ≠ .silence
  cut : Cut conn.chunks conn.chunks.flatten
  incomplete : P.completes p₀ P.empty (Conn.strings conn) = false

/-- `get_response` of a client with that connection returns nil and an error, given
    enough rounds, and so do `http.get` and `http.post`. -/
def Reports (conn : Conn) : Prop :=
  ∃ n₀, ∀ n, n₀ ≤ n → ∃ err cli,
    (HttpClient.new.send (.ok conn) none).getResponse P p₀ n = some (.failed err, cli) ∧
    sendRequest P p₀ n (.ok conn) none = .ok (.error (.response err))

variable {P : Parser σ Msg} {p₀ p : σ} {reads : List UInt8 → σ → Prop} {acc s raw fed : List UInt8}
  {msg : Msg} {conn : Conn} {chunks : List (List UInt8)} {ending : Ending} {n : ℕ}

theorem Blank.of_append {rest : List UInt8} (h : Blank (acc ++ rest)) : Blank acc := by
  refine ⟨fun b hb => h.1 b (List.mem_append_left _ hb), ?_⟩
  have hlen := h.2
  rw [List.length_append] at hlen
  omega

theorem Cut.tail {stream : List UInt8} (h : Cut (s :: chunks) stream) : Cut chunks chunks.flatten where
  bytes := rfl
  nonempty c hc := h.nonempty c (List.mem_cons_of_mem _ hc)
  length c hc := h.length c (List.mem_cons_of_mem _ hc)

/-- A chunk is received as it is. -/
theorem Cut.nextString {stream : List UInt8} (h : Cut (s :: chunks) stream) (ending : Ending) :
    Http.nextString none (⟨s :: chunks, ending⟩ : Conn) = .ok (.ok s, ⟨chunks, ending⟩) := by
  have hlen : s.length ≤ 4096 := h.length s List.mem_cons_self
  simp [Http.nextString, Conn.recv, hlen, List.take_of_length_le hlen]

/-- How a read of a stream that ends too early ends: with a message that is not complete,
    if the peer has closed in `s_start_res`, or with an error. -/
inductive EndsEarly (blank : Prop) : Lua (ReadResult Msg × Io σ) → Prop
  | unread {msg raw io} : blank → msg.Open → EndsEarly blank (.ok (.ok (msg, none, raw), io))
  | failed {err io} : ¬ blank → EndsEarly blank (.ok (.error err, io))

/-- After the last chunk. -/
theorem readLoop_ended (hP : P.Receives p₀ reads) (hp : reads acc p) (hmsg : msg.Open)
    (hends : ending ≠ .silence) (hinc : P.completes p msg (Conn.strings ⟨[], ending⟩) = false) :
    EndsEarly (ending = .closed ∧ Blank acc)
      (readLoop P (n + 1) msg none raw ⟨⟨[], ending⟩, p, fed⟩) := by
  rw [readLoop, (hP.complete msg).trans hmsg.1]
  cases ending with
  | silence => exact absurd rfl hends
  | failed err => exact .failed fun h => by cases h.1
  | closed =>
    by_cases hb : Blank acc
    · have hx := hP.eofBlank hp hmsg hb
      simp only [nextString, Conn.recv, bind, Except.bind, hx]
      exact .unread ⟨trivial, hb⟩ hmsg
    · rcases hx : P.execute p [] msg with ⟨p', msg', parsed, err⟩
      cases err with
      | some err =>
        simp only [nextString, Conn.recv, bind, Except.bind, hx]
        exact .failed fun h => hb h.2
      | none =>
        -- the body has ended with the stream, and the response is complete
        have hdone := hP.eofOpen hp hmsg hb hx
        simp [Conn.strings, Parser.completes, hx, hP.complete, hdone] at hinc

theorem readLoop_broken (hP : P.Receives p₀ reads) (hp : reads acc p) (hmsg : msg.Open)
    (hends : ending ≠ .silence) (hcut : Cut chunks chunks.flatten)
    (hinc : P.completes p msg (Conn.strings ⟨chunks, ending⟩) = false) (hn : chunks.length < n) :
    EndsEarly (ending = .closed ∧ Blank (acc ++ chunks.flatten))
      (readLoop P n msg none raw ⟨⟨chunks, ending⟩, p, fed⟩) := by
  induction chunks generalizing n acc p msg raw fed with
  | nil =>
    obtain ⟨n, rfl⟩ : ∃ k, n = k + 1 := ⟨n - 1, by omega⟩
    rw [List.flatten_nil, List.append_nil]
    exact readLoop_ended hP hp hmsg hends hinc
  | cons s chunks ih =>
    obtain ⟨n, rfl⟩ : ∃ k, n = k + 1 := ⟨n - 1, by omega⟩
    have hopen : P.complete msg = false := (hP.complete msg).trans hmsg.1
    have hne : s ≠ [] := hcut.nonempty s List.mem_cons_self
    have hnext := hcut.nextString ending
    rw [List.flatten_cons, ← List.append_assoc]
    rcases hx : P.execute p s msg with ⟨p', msg', parsed, err⟩
    cases err with
    | some err =>
      rw [readLoop, hopen]
      simp only [hnext, bind, Except.bind, hx]
      refine .failed fun h => ?_
      obtain ⟨p₁, msg₁, hx₁, -⟩ := hP.blank hp hmsg hne h.2.of_append
      rw [hx] at hx₁
      cases hx₁
    | none =>
      simp only [Conn.strings, List.cons_append, Parser.completes, hx, Option.isNone_none,
        Bool.true_and, Bool.or_eq_false_iff] at hinc
      obtain ⟨hmsg', rfl, hp'⟩ := hP.more hp hmsg hne hx ((hP.complete msg').symm.trans hinc.1)
      have hround : readLoop P (n + 1) msg none raw ⟨⟨s :: chunks, ending⟩, p, fed⟩ =
          readLoop P n msg' none (raw ++ s) ⟨⟨chunks, ending⟩, p', fed ++ s⟩ := by
        rw [readLoop_round ⟨⟨chunks, ending⟩, p', fed ++ s⟩ hopen hnext hne hx (by simp),
          if_neg (lt_irrefl _)]
      rw [hround]
      rw [List.length_cons] at hn
      exact ih hp' hmsg' hcut.tail hinc.2 (by omega)

theorem getResponse_failed {err : ReadError} {io : Io σ}
    (h : readLoop P n P.empty none [] ⟨conn, p₀, []⟩ = .ok (.error err, io)) :
    ∃ cli, (HttpClient.new.send (.ok conn) none).getResponse P p₀ n = some (.failed err, cli) := by
  have hread : readMessage P n none ⟨conn, p₀, []⟩ = .ok (.error err, io) := h
  refine ⟨⟨some (Link.close ⟨conn, false⟩), some io.parser, none⟩, ?_⟩
  simp [HttpClient.getResponse, HttpClient.send, HttpClient.new, hread]

theorem getResponse_raised {io : Io σ} (hmsg : msg.headers = none)
    (h : readLoop P n P.empty none [] ⟨conn, p₀, []⟩ = .ok (.ok (msg, none, raw), io)) :
    ∃ cli, (HttpClient.new.send (.ok conn) none).getResponse P p₀ n =
      some (.raised "bad argument #1 to 'for iterator' (table expected, got nil)", cli) := by
  have hread : readMessage P n none ⟨conn, p₀, []⟩ = .ok (.ok (msg, none, raw), io) := h
  refine ⟨⟨some ⟨io.conn, false⟩, some io.parser, none⟩, ?_⟩
  simp [HttpClient.getResponse, HttpClient.send, HttpClient.new, hread, Response.new, hmsg]

/-- `get_response` reports the error, or raises since there are no headers. -/
theorem getResponse_broken (hP : P.Receives p₀ reads) (h : Broken P p₀ conn)
    (hn : conn.chunks.length < n) :
    (¬ (conn.ending = .closed ∧ Blank conn.chunks.flatten) ∧ ∃ err cli,
      (HttpClient.new.send (.ok conn) none).getResponse P p₀ n = some (.failed err, cli)) ∨
    (conn.ending = .closed ∧ Blank conn.chunks.flatten) ∧ ∃ cli,
      (HttpClient.new.send (.ok conn) none).getResponse P p₀ n =
        some (.raised "bad argument #1 to 'for iterator' (table expected, got nil)", cli) := by
  have hread : EndsEarly (conn.ending = .closed ∧ Blank conn.chunks.flatten)
      (readLoop P n P.empty none [] ⟨conn, p₀, []⟩) :=
    readLoop_broken hP hP.new hP.empty h.ends h.cut h.incomplete hn
  generalize hx : readLoop P n P.empty none [] ⟨conn, p₀, []⟩ = x at hread
  cases hread with
  | failed hb => exact .inl ⟨hb, _, getResponse_failed hx⟩
  | unread hb hmsg => exact .inr ⟨hb, getResponse_raised hmsg.2 hx⟩

/-- **A response that ends too early is reported** if and only if `recv` has failed, or the
    parser has left the state `s_start_res`. -/
theorem reports_iff (hP : P.Receives p₀ reads) (h : Broken P p₀ conn) :
    Reports P p₀ conn ↔ conn.ending ≠ .closed ∨ ¬ Blank conn.chunks.flatten := by
  rw [← not_and_or]
  constructor
  · rintro ⟨n₀, hall⟩
    obtain ⟨err, cli, hget, -⟩ := hall (max n₀ (conn.chunks.length + 1)) (le_max_left ..)
    rcases getResponse_broken hP h (lt_of_lt_of_le (Nat.lt_succ_self _) (le_max_right n₀ _))
      with ⟨hb, -⟩ | ⟨-, cli', hget'⟩
    · exact hb
    · rw [hget] at hget'
      cases hget'
  · intro hb
    refine ⟨conn.chunks.length + 1, fun n hn => ?_⟩
    rcases getResponse_broken hP h hn with ⟨-, err, cli, hget⟩ | ⟨hb', -⟩
    · exact ⟨err, cli, hget, by rw [sendRequest, hget]⟩
    · exact absurd hb' hb

/-! ## A parser for responses without a body -/

def HPE_INVALID_EOF_STATE : ℕ := 11
def HPE_HEADER_OVERFLOW : ℕ := 12

/-- The bytes after the line ends that `s_start_res` passes over. -/
def afterBlank (bs : List UInt8) : List UInt8 := bs.dropWhile isEol

/-- The number of bytes of `s` up to the empty line that ends the response. -/
def responseLength : List UInt8 → List UInt8 → Option ℕ
  | _, [] => none
  | acc, b :: s =>
    if headEnds (afterBlank (acc ++ [b])) then some 1
    else (responseLength (acc ++ [b]) s).map (· + 1)

/-- A parser for responses without a body; its state is the bytes consumed. -/
def bareResponses : Parser (List UInt8) Msg where
  execute acc s msg :=
    if s = [] then (acc, msg, 0, if Blank acc then none else some HPE_INVALID_EOF_STATE)
    else
      match responseLength acc s with
      | some k => ([], ⟨true, (bareTable (afterBlank (acc ++ s.take k))).statusCode, some []⟩, k, none)
      | none =>
        if HTTP_MAX_HEADER_SIZE < (acc ++ s).length then (acc, msg, 0, some HPE_HEADER_OVERFLOW)
        else (acc ++ s, { msg with complete := false }, s.length, none)
  empty := ⟨false, none, none⟩
  complete := Msg.complete
  errnoName err :=
    if err = HPE_INVALID_EOF_STATE then "HPE_INVALID_EOF_STATE" else "HPE_HEADER_OVERFLOW"

theorem responseLength_blank (h : ∀ b ∈ acc ++ s, isEol b) : responseLength acc s = none := by
  induction s generalizing acc with
  | nil => rfl
  | cons b s ih =>
    rw [List.append_cons] at h
    have hblank : afterBlank (acc ++ [b]) = [] :=
      List.dropWhile_eq_nil_iff.2 fun c hc => h c (List.mem_append_left _ hc)
    rw [responseLength, hblank, ih h]
    rfl

theorem bareResponses_receives : bareResponses.Receives [] fun acc p => acc = p where
  complete _ := rfl
  empty := ⟨rfl, rfl⟩
  new := rfl
  more := by
    rintro acc s p msg p' msg' parsed rfl hmsg hs hx hinc
    simp only [bareResponses, if_neg hs] at hx
    split at hx
    · cases hx
      cases hinc
    · split at hx
      · cases hx
      · cases hx
        exact ⟨⟨rfl, hmsg.2⟩, rfl, rfl⟩
  blank := by
    rintro acc s p msg rfl hmsg hs hb
    refine ⟨acc ++ s, { msg with complete := false }, ?_, rfl⟩
    simp only [bareResponses, if_neg hs, responseLength_blank hb.1, if_neg (not_lt.2 hb.2)]
  eofBlank := by
    rintro acc p msg rfl - hb
    simp [bareResponses, hb]
  eofOpen := by
    rintro acc p msg p' msg' parsed rfl - hb hx
    simp [bareResponses, hb] at hx

/-- The peer closes in the status line. -/
theorem reports_iff_status :
    Reports bareResponses [] ⟨[ascii "HTTP/1.1 2"], .closed⟩ ↔
      Ending.closed ≠ .closed ∨ ¬ Blank [ascii "HTTP/1.1 2"].flatten :=
  reports_iff bareResponses_receives
    ⟨by decide, ⟨rfl, by decide, by decide⟩, by decide +kernel⟩

/-- The peer closes at once. -/
theorem not_reports_closed :
    Broken bareResponses [] ⟨[], .closed⟩ ∧ ¬ Reports bareResponses [] ⟨[], .closed⟩ ∧
      sendRequest bareResponses [] 1 (.ok ⟨[], .closed⟩) none =
        .error (.raised "bad argument #1 to 'for iterator' (table expected, got nil)") := by
  have hbroken : Broken bareResponses [] ⟨[], .closed⟩ :=
    ⟨by decide, ⟨rfl, by decide, by decide⟩, by decide +kernel⟩
  have hblank : Blank [] := ⟨List.forall_mem_nil _, Nat.zero_le _⟩
  refine ⟨hbroken, ?_, ?_⟩
  · rintro ⟨n, hall⟩
    obtain ⟨err, cli, hget, -⟩ := hall (n + 1) (Nat.le_succ n)
    rcases getResponse_broken bareResponses_receives hbroken (Nat.succ_pos n)
      with ⟨hb, -⟩ | ⟨-, cli', hget'⟩
    · exact hb ⟨rfl, hblank⟩
    · rw [hget] at hget'
      cases hget'
  · simp [sendRequest, HttpClient.getResponse, HttpClient.new, HttpClient.send, readLoop, bareResponses,
      nextString, Conn.recv, Response.new, readMessage, bind, Except.bind, hblank]

end Levent.Http
