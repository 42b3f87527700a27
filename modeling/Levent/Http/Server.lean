/-
  `http/server.lua`: `register`, `handle_one_request` and the loop of `handle_conn`.

  The requests of a connection are read by `util.read_message`, with the vendored parser
  and its `parse_url` as parameters.  A handler is given the table of its request, which
  `handle_conn` reads again afterwards.  `sent` records what `conn:sendall` is called with,
  whose result nobody looks at.
-/
import Levent.Http.Parser
import Levent.Http.Pack

namespace Levent.Http

open Lib (Lua)

/-! ## The server -/

/-- What `parse_url` returns, of what `handle_conn` uses. -/
structure Url where
  host : Option (List UInt8)
  port : Option ℕ
  requestPath : Option (List UInt8)
  queryString : Option (List UInt8)
  userinfo : Option (List UInt8)

/-- The table of a request, with what `handle_conn` puts into it. -/
structure ServerRequest where
  table : Table
  url : Url
  remoteHost : List UInt8
  remotePort : ℕ

/-- A handler leaves a response and the table of the request, and may fail, with the error that
    `xpcall` returns.  It is a function of the two, and the data of the response, or the error,
    is a text or a table of strings: `pack` raises for any other, outside of the `xpcall`. -/
abbrev Handler := ResponseWriter → ServerRequest → ResponseWriter × ServerRequest × Option Data

/-- The handlers of a server. -/
abbrev Handlers := List UInt8 → Option Handler

/-- `server:register`; the handlers before the repeated one stay. -/
def Handlers.register (handlers : Handlers) : List (List UInt8 × Handler) → Lua Handlers
  | [] => .ok handlers
  | (k, v) :: more =>
    if (handlers k).isSome then
      .error (.raised ("repeated register:" ++ String.ofList (k.map fun c => Char.ofNat c.toNat)))
    else Handlers.register (Function.update handlers k (some v)) more

/-- `server:handle_one_request` -/
def Handlers.handleOneRequest (handlers : Handlers) (msg : ServerRequest) :
    Lua (ResponseWriter × ServerRequest) := do
  let rsp := ResponseWriter.new
  match msg.url.requestPath.bind handlers with
  | none => return (← rsp.setCode 404, msg)
  | some handler =>
    match handler rsp msg with
    | (rsp, msg, none) => return (rsp, msg)
    | (rsp, msg, some err) => return ((← rsp.setCode 502).setData (some err), msg)

/-- What a server runs with: `date i` is the date of its response number `i` on a connection. -/
structure Host (σ : Type) where
  parser : Parser σ Table
  parseUrl : List UInt8 → Option Url
  order : Order
  date : ℕ → List UInt8
  remoteHost : List UInt8
  remotePort : ℕ
  handlers : Handlers

/-- A connection that is served: `cached` has the bytes that the last request has left. -/
structure Serving (σ : Type) where
  io : Io σ
  cached : Option (List UInt8)
  sent : List (List UInt8)
  closed : Bool
  deriving DecidableEq

variable {σ : Type}

/-- A connection is accepted: `c.new` returns `new`. -/
def Serving.accept (conn : Conn) (new : σ) : Serving σ := ⟨⟨conn, new, []⟩, none, [], false⟩

namespace Host

variable (H : Host σ)

/-- The response to a complete message, unless its url is not valid. -/
def respond (msg : Table) : Lua (Option (ResponseWriter × ServerRequest)) :=
  match msg.requestUrl with
  | none => .error (.raised "bad argument #1 to 'parse_url' (string expected, got nil)")
  | some url =>
    match H.parseUrl url with
    | none => .ok none
    | some url => do
      let r ← H.handlers.handleOneRequest ⟨msg, url, H.remoteHost, H.remotePort⟩
      return some r

/-- The bytes of the response number `i`. -/
def text (i : ℕ) (rsp : ResponseWriter) : List UInt8 := (rsp.pack H.order (H.date i)).1.text

/-- A round of the loop of `handle_conn`, and whether there is another one. -/
def round (n : ℕ) (s : Serving σ) : Lua (Serving σ × Bool) := do
  match ← readMessage H.parser n s.cached s.io with
  | (.error _, io) => return ({ s with io }, false)
  | (.ok (msg, left, _), io) =>
    if H.parser.complete msg = false then return ({ s with io }, false)
    else
      match ← H.respond msg with
      | none => return ({ s with io }, false)
      | some (rsp, msg) =>
        let sent := s.sent ++ [H.text s.sent.length rsp]
        if msg.table.keepalive = some true then return ({ s with io, sent, cached := left }, true)
        else return ({ s with io, sent }, false)

/-- At most `k` rounds. -/
def rounds (n : ℕ) : ℕ → Serving σ → Lua (Serving σ × Bool)
  | 0, s => .ok (s, true)
  | k + 1, s => do
    match ← H.round n s with
    | (s, true) => rounds n k s
    | (s, false) => return (s, false)

/-- `server:handle_conn` -/
def handleConn (n k : ℕ) (s : Serving σ) : Lua (Serving σ) := do
  match ← H.rounds n k s with
  | (_, true) => .error .unfinished
  | (s, false) => return { s with closed := true }

/-! ## What is answered -/

/-- The response to a request, and whether the connection is kept after it. -/
def answer (msg : Table) : Option (ResponseWriter × Bool) :=
  match H.respond msg with
  | .ok (some (rsp, msg)) => some (rsp, msg.table.keepalive = some true)
  | _ => none

/-- The responses to requests, from the number `i` on, up to the first after which the
    connection is not kept. -/
def responses : ℕ → List Table → List (List UInt8)
  | _, [] => []
  | i, msg :: msgs =>
    match H.answer msg with
    | none => []
    | some (rsp, true) => H.text i rsp :: responses (i + 1) msgs
    | some (rsp, false) => [H.text i rsp]

/-- The connection is kept after the request. -/
def Kept (msg : Table) : Prop := ∃ rsp, H.answer msg = some (rsp, true)

/-- What is assumed of the parser: it pauses after a request, which has a url, and the empty
    string, which tells it that the stream has ended, completes none. -/
structure Parses (M : List UInt8 → Prop) (table : List UInt8 → Table) (reads : List UInt8 → σ → Prop) : Prop where
  pauses : H.parser.Pauses M table reads
  url : ∀ m, M m → (table m).requestUrl.isSome
  fresh : H.parser.complete H.parser.empty = false
  eof : ∀ p, reads [] p → H.parser.complete (H.parser.execute p [] H.parser.empty).2.1 = false

/-- How the requests `ms` come on a connection: each that the connection is kept after in
    chunks of its own, and then the end of the stream, or a request after which it is not kept. -/
inductive Comes (M : List UInt8 → Prop) (table : List UInt8 → Table) : Conn → List (List UInt8) → Prop
  | ends {ending} : ending ≠ .silence → Comes M table ⟨[], ending⟩ []
  | last {chunks ending m rest} : Cut chunks (m ++ rest) → M m → ¬ H.Kept (table m) →
      Comes M table ⟨chunks, ending⟩ [m]
  | kept {group chunks ending m ms} : Cut group m → M m → H.Kept (table m) → Comes M table ⟨chunks, ending⟩ ms →
      Comes M table ⟨group ++ chunks, ending⟩ (m :: ms)

variable {H : Host σ} {M : List UInt8 → Prop} {table : List UInt8 → Table} {reads : List UInt8 → σ → Prop}
  {n k : ℕ} {s : Serving σ} {msg : Table} {conn : Conn} {m : List UInt8} {ms : List (List UInt8)}

/-! ## Handlers -/

/-- Handlers that are registered: no path is given twice or has one already, and the others stay. -/
theorem register_ok {handlers handlers' : Handlers} {l : List (List UInt8 × Handler)}
    (h : handlers.register l = .ok handlers') :
    (l.map Prod.fst).Nodup ∧ (∀ e ∈ l, handlers e.1 = none) ∧
      ∀ path, handlers' path = ((l.find? (·.1 = path)).map Prod.snd).or (handlers path) := by
  induction l generalizing handlers with
  | nil =>
    cases h
    exact ⟨List.nodup_nil, nofun, fun path => rfl⟩
  | cons e l ih =>
    obtain ⟨k, v⟩ := e
    rw [Handlers.register] at h
    cases hk : handlers k with
    | some v' =>
      rw [hk] at h
      cases h
    | none =>
      rw [hk, if_neg (by simp)] at h
      obtain ⟨hnodup, hnone, hget⟩ := ih h
      have hne : ∀ e ∈ l, e.1 ≠ k ∧ handlers e.1 = none := by
        intro e he
        have hne : e.1 ≠ k := by
          intro heq
          have hsome := hnone e he
          rw [heq, Function.update_self] at hsome
          cases hsome
        have hold := hnone e he
        rw [Function.update_of_ne hne] at hold
        exact ⟨hne, hold⟩
      refine ⟨?_, List.forall_mem_cons.2 ⟨hk, fun e he => (hne e he).2⟩, fun path => ?_⟩
      · rw [List.map_cons, List.nodup_cons]
        refine ⟨fun hmem => ?_, hnodup⟩
        obtain ⟨e, he, heq⟩ := List.mem_map.1 hmem
        exact (hne e he).1 heq
      · rw [hget path]
        by_cases hpath : path = k
        · subst hpath
          have hfind : l.find? (·.1 = path) = none := by
            rw [List.find?_eq_none]
            exact fun e he heq => (hne e he).1 (of_decide_eq_true heq)
          rw [hfind, List.find?_cons_of_pos (by simp), Function.update_self]
          rfl
        · rw [Function.update_of_ne hpath, List.find?_cons_of_neg (by simpa using Ne.symm hpath)]

/-! ## One request -/

/-- No request makes `handle_one_request` raise. -/
theorem handleOneRequest_ok (handlers : Handlers) (msg : ServerRequest) :
    ∃ r, handlers.handleOneRequest msg = .ok r := by
  unfold Handlers.handleOneRequest
  cases msg.url.requestPath.bind handlers with
  | none => exact ⟨_, rfl⟩
  | some handler =>
    dsimp only
    rcases handler .new msg with ⟨rsp, req, err⟩
    cases err with
    | none => exact ⟨_, rfl⟩
    | some err => exact ⟨_, rfl⟩

theorem respond_ok (h : msg.requestUrl.isSome) : ∃ r, H.respond msg = .ok r := by
  obtain ⟨url, hurl⟩ := Option.isSome_iff_exists.1 h
  unfold respond
  rw [hurl]
  dsimp only
  cases H.parseUrl url with
  | none => exact ⟨none, rfl⟩
  | some url =>
    obtain ⟨r, hr⟩ := handleOneRequest_ok H.handlers ⟨msg, url, H.remoteHost, H.remotePort⟩
    dsimp only
    rw [hr]
    exact ⟨some r, rfl⟩

/-- What a round makes of a request that is read. -/
theorem round_read {left : Option (List UInt8)} {raw : List UInt8} {io : Io σ}
    (hread : ∀ n, k ≤ n → readMessage H.parser n s.cached s.io = .ok (.ok (msg, left, raw), io))
    (hmsg : H.parser.complete msg = true) (hurl : msg.requestUrl.isSome) :
    (H.answer msg = none → ∀ n, k ≤ n → H.round n s = .ok ({ s with io }, false)) ∧
      ∀ rsp keep, H.answer msg = some (rsp, keep) → ∃ s', s'.io = io ∧
        s'.sent = s.sent ++ [H.text s.sent.length rsp] ∧ (keep = true → s'.cached = left) ∧
        ∀ n, k ≤ n → H.round n s = .ok (s', keep) := by
  obtain ⟨r, hr⟩ := respond_ok (H := H) hurl
  unfold answer round
  rw [hr]
  cases r with
  | none =>
    refine ⟨fun _ n hn => ?_, nofun⟩
    rw [hread n hn]
    simp [bind, Except.bind, hmsg, hr]
    rfl
  | some r =>
    obtain ⟨rsp, req⟩ := r
    refine ⟨nofun, fun rsp' keep h => ?_⟩
    obtain ⟨rfl, rfl⟩ := Prod.mk.inj (Option.some.inj h)
    by_cases hkeep : req.table.keepalive = some true
    · refine ⟨⟨io, left, s.sent ++ [H.text s.sent.length rsp], s.closed⟩, rfl, rfl, fun _ => rfl, fun n hn => ?_⟩
      rw [hread n hn]
      simp [bind, Except.bind, hmsg, hr, hkeep]
      rfl
    · refine ⟨⟨io, s.cached, s.sent ++ [H.text s.sent.length rsp], s.closed⟩, rfl, rfl, fun h => ?_, fun n hn => ?_⟩
      · exact absurd (of_decide_eq_true h) hkeep
      · rw [hread n hn]
        simp [bind, Except.bind, hmsg, hr, hkeep]
        rfl

/-- A round at the end of the stream. -/
theorem round_ended {ending : Ending} (hP : H.Parses M table reads) (hs : s.cached = none)
    (hconn : s.io.conn = ⟨[], ending⟩) (hends : ending ≠ .silence) (hp : reads [] s.io.parser) :
    ∃ s', s'.sent = s.sent ∧ ∀ n ≥ 1, H.round n s = .ok (s', false) := by
  have hread : ∃ r io, (∀ n, readMessage H.parser (n + 1) s.cached s.io = .ok (r, io)) ∧
      ∀ msg left raw, r = .ok (msg, left, raw) → H.parser.complete msg = false := by
    cases ending with
    | silence => exact absurd rfl hends
    | failed err =>
      have hrecv : nextString s.cached s.io.conn = .ok (.error err, ⟨[], .failed err⟩) := by
        rw [hs, hconn]
        rfl
      refine ⟨.error (.recv err), ⟨⟨[], .failed err⟩, s.io.parser, s.io.fed⟩, fun n => ?_, fun msg left raw h => ?_⟩
      · rw [readMessage, readLoop, if_neg (by simp [hP.fresh]), hrecv]
        rfl
      · cases h
    | closed =>
      have hrecv : nextString s.cached s.io.conn = .ok (.ok [], ⟨[], .closed⟩) := by
        rw [hs, hconn]
        rfl
      have heof := hP.eof _ hp
      rcases hx : H.parser.execute s.io.parser [] H.parser.empty with ⟨p', msg', parsed, err⟩
      rw [hx] at heof
      cases err with
      | some err =>
        refine ⟨.error (.parse (H.parser.errnoName err)), ⟨⟨[], .closed⟩, p', s.io.fed⟩, fun n => ?_,
          fun msg left raw h => ?_⟩
        · rw [readMessage, readLoop, if_neg (by simp [hP.fresh]), hrecv]
          simp [bind, Except.bind, hx]
        · cases h
      | none =>
        refine ⟨.ok (msg', s.cached, []), ⟨⟨[], .closed⟩, p', s.io.fed⟩, fun n => ?_, fun msg left raw h => ?_⟩
        · rw [readMessage, readLoop, if_neg (by simp [hP.fresh]), hrecv]
          simp [bind, Except.bind, hx]
        · cases h
          exact heof
  obtain ⟨r, io, hread, hr⟩ := hread
  refine ⟨{ s with io }, rfl, fun n hn => ?_⟩
  obtain ⟨n, rfl⟩ := Nat.exists_eq_succ_of_ne_zero (Nat.ne_zero_of_lt hn)
  rw [round, hread]
  cases r with
  | error err => rfl
  | ok r =>
    obtain ⟨msg, left, raw⟩ := r
    simp only [bind, Except.bind, hr msg left raw rfl]
    rfl

/-! ## A connection -/

/-- A message ends at one place of the chunks. -/
theorem end_unique {pre post pre' post' : List (List UInt8)} {x y x' y' : List UInt8}
    (hchunks : pre ++ (x ++ y) :: post = pre' ++ (x' ++ y') :: post') (hm : pre.flatten ++ x = pre'.flatten ++ x')
    (hx : x ≠ []) (hx' : x' ≠ []) : x = x' ∧ y = y' ∧ post = post' := by
  rcases List.append_eq_append_iff.1 hchunks with ⟨z, rfl, hz⟩ | ⟨z, rfl, hz⟩
  · rw [List.flatten_append, List.append_assoc, List.append_cancel_left_eq] at hm
    cases z with
    | nil =>
      obtain rfl : x = x' := hm
      obtain ⟨h1, h2⟩ := List.cons.inj hz
      exact ⟨rfl, List.append_cancel_left h1, h2⟩
    | cons c z =>
      obtain ⟨rfl, -⟩ := List.cons.inj hz
      simp only [List.flatten_cons, List.append_assoc, List.self_eq_append_right, List.append_eq_nil_iff] at hm
      exact absurd hm.2.2 hx'
  · rw [List.flatten_append, List.append_assoc, List.append_cancel_left_eq] at hm
    cases z with
    | nil =>
      obtain rfl : x = x' := hm
      obtain ⟨h1, h2⟩ := List.cons.inj hz
      exact ⟨rfl, List.append_cancel_left h1.symm, h2.symm⟩
    | cons c z =>
      obtain ⟨rfl, -⟩ := List.cons.inj hz
      simp only [List.flatten_cons, List.append_assoc, List.append_right_eq_self, List.append_eq_nil_iff] at hm
      exact absurd hm.2.2 hx

/-- A message that comes in chunks of its own ends with the last of them. -/
theorem ends_with_group {group chunks pre post : List (List UInt8)} {x y : List UInt8} (hgroup : Cut group m)
    (hchunks : group ++ chunks = pre ++ (x ++ y) :: post) (hm : m = pre.flatten ++ x) (hx : x ≠ []) :
    y = [] ∧ post = chunks := by
  rcases List.eq_nil_or_concat group with rfl | ⟨init, c, rfl⟩
  · rw [← hgroup.bytes, List.flatten_nil] at hm
    exact absurd (List.append_eq_nil_iff.1 hm.symm).2 hx
  · have hc : c ≠ [] := hgroup.nonempty c (by simp)
    have hbytes : init.flatten ++ c = pre.flatten ++ x := by
      rw [← hm, ← hgroup.bytes]
      simp
    rw [List.concat_eq_append, List.append_assoc, List.singleton_append, ← List.append_nil c] at hchunks
    obtain ⟨-, h1, h2⟩ := end_unique hchunks hbytes hc hx
    exact ⟨h1.symm, h2.symm⟩

theorem Comes.cut (h : H.Comes M table conn ms) : Cut conn.chunks conn.chunks.flatten := by
  induction h with
  | ends => exact ⟨rfl, nofun, nofun⟩
  | last hcut => exact ⟨rfl, hcut.nonempty, hcut.length⟩
  | kept hgroup _ _ _ ih =>
    refine ⟨rfl, fun c hc => ?_, fun c hc => ?_⟩
    · rcases List.mem_append.1 hc with hc | hc
      · exact hgroup.nonempty c hc
      · exact ih.nonempty c hc
    · rcases List.mem_append.1 hc with hc | hc
      · exact hgroup.length c hc
      · exact ih.length c hc

/-- The rounds that answer the requests of a connection. -/
theorem rounds_comes (hP : H.Parses M table reads) (h : H.Comes M table conn ms) (hconn : s.io.conn = conn)
    (hs : s.cached = none) (hp : reads [] s.io.parser) :
    ∃ n₀ s', s'.sent = s.sent ++ H.responses s.sent.length (ms.map table) ∧
      ∀ n ≥ n₀, ∀ k > ms.length, H.rounds n k s = .ok (s', false) := by
  induction h generalizing s with
  | ends hends =>
    obtain ⟨s', hsent, hround⟩ := round_ended hP hs hconn hends hp
    refine ⟨1, s', by rw [hsent]; exact (List.append_nil _).symm, fun n hn k hk => ?_⟩
    obtain ⟨k, rfl⟩ := Nat.exists_eq_succ_of_ne_zero (Nat.ne_zero_of_lt hk)
    rw [rounds, hround n hn]
    rfl
  | @last chunks ending m rest hcut hm hkept =>
    obtain ⟨pre, x, y, post, p', -, -, -, -, -, -, hread⟩ := readMessage_none ending s.io.fed hP.pauses hm hcut hp
    have hio : s.io = ⟨⟨chunks, ending⟩, s.io.parser, s.io.fed⟩ := by rw [← hconn]
    rw [← hio, ← hs] at hread
    obtain ⟨hnone, hsome⟩ := round_read hread (hP.pauses.whole hm) (hP.url m hm)
    rw [List.map_singleton, responses]
    cases ha : H.answer (table m) with
    | none =>
      refine ⟨chunks.length + 1, ⟨⟨⟨post, ending⟩, p', s.io.fed ++ m⟩, s.cached, s.sent, s.closed⟩,
        (List.append_nil _).symm, fun n hn k hk => ?_⟩
      obtain ⟨k, rfl⟩ := Nat.exists_eq_succ_of_ne_zero (Nat.ne_zero_of_lt hk)
      rw [rounds, hnone ha n hn]
      rfl
    | some a =>
      obtain ⟨rsp, keep⟩ := a
      obtain ⟨s', -, hsent, -, hround⟩ := hsome rsp keep ha
      cases keep with
      | true => exact absurd ⟨rsp, ha⟩ hkept
      | false =>
        refine ⟨chunks.length + 1, s', hsent, fun n hn k hk => ?_⟩
        obtain ⟨k, rfl⟩ := Nat.exists_eq_succ_of_ne_zero (Nat.ne_zero_of_lt hk)
        rw [rounds, hround n hn]
        rfl
  | @kept group chunks ending m ms hgroup hm hkept hcomes ih =>
    have hall := (Comes.kept hgroup hm hkept hcomes).cut
    rw [List.flatten_append, hgroup.bytes] at hall
    obtain ⟨pre, x, y, post, p', hpre, hx, hxne, -, -, hp', hread⟩ :=
      readMessage_none ending s.io.fed hP.pauses hm hall hp
    obtain ⟨rfl, rfl⟩ := ends_with_group hgroup hpre hx hxne
    have hio : s.io = ⟨⟨group ++ post, ending⟩, s.io.parser, s.io.fed⟩ := by rw [← hconn]
    rw [← hio, ← hs, if_pos rfl] at hread
    obtain ⟨rsp, ha⟩ := hkept
    obtain ⟨s₁, hio₁, hsent₁, hcached, hround⟩ :=
      (round_read hread (hP.pauses.whole hm) (hP.url m hm)).2 rsp true ha
    obtain ⟨n₀, s', hsent, hrounds⟩ := ih (s := s₁) (by rw [hio₁]) ((hcached rfl).trans hs) (by rw [hio₁]; exact hp')
    refine ⟨max n₀ ((group ++ post).length + 1), s', ?_, fun n hn k hk => ?_⟩
    · rw [hsent, hsent₁, List.map_cons, responses, ha, List.length_append, List.append_assoc]
      rfl
    · obtain ⟨k, rfl⟩ := Nat.exists_eq_succ_of_ne_zero (Nat.ne_zero_of_lt hk)
      rw [rounds, hround n ((le_max_right _ _).trans hn)]
      exact hrounds n ((le_max_left _ _).trans hn) k (Nat.lt_of_succ_lt_succ hk)

/-- **The requests of a connection are answered in order**, each once, up to the first after which the
    connection is not kept or the end of the stream, and then the connection is closed: if every
    request that it is kept after comes in chunks of its own. -/
theorem handleConn_responses {new : σ} (hP : H.Parses M table reads) (h : H.Comes M table conn ms)
    (hnew : reads [] new) :
    ∃ n₀ s, s.closed = true ∧ s.sent = H.responses 0 (ms.map table) ∧
      ∀ n ≥ n₀, ∀ k > ms.length, H.handleConn n k (.accept conn new) = .ok s := by
  obtain ⟨n₀, s, hsent, hrounds⟩ := rounds_comes (s := .accept conn new) hP h rfl rfl hnew
  refine ⟨n₀, { s with closed := true }, rfl, hsent, fun n hn k hk => ?_⟩
  rw [handleConn, hrounds n hn k hk]
  rfl

/-- The table of a request `GET /c HTTP/1.1` without header fields. -/
def pageTable (bs : List UInt8) : Table :=
  if bs = [] then .empty
  else if headEnds bs then
    { Table.empty with
      complete := some true
      isRequest := some true
      method := some "GET"
      requestUrl := some ((bs.drop 4).take 2)
      headers := some fun _ => none
      keepalive := some true
      httpMajor := some 1
      httpMinor := some 1 }
  else { Table.empty with complete := some false }

/-- A server with the page `/a`. -/
def pageHost : Host (List UInt8) where
  parser := tableParser pageTable fun t => t.complete = some true
  parseUrl url := some ⟨none, none, some url, none, none⟩
  order := ⟨id, fun _ => .refl _⟩
  date _ := ascii "Sun, 06 Nov 1994 08:49:37 GMT"
  remoteHost := ascii "127.0.0.1"
  remotePort := 4000
  handlers path :=
    if path = ascii "/a" then some fun rsp msg => (rsp.setData (some (.text (ascii "page"))), msg, none) else none

theorem pageHost_parses : pageHost.Parses IsHead pageTable fun acc p => acc = p where
  pauses := by
    refine tableParser_pauses fun bs => ?_
    unfold pageTable
    by_cases hbs : bs = []
    · subst hbs
      rfl
    · rw [if_neg hbs]
      cases headEnds bs <;> rfl
  url m hm := by
    have hne : m ≠ [] := by
      rintro rfl
      exact absurd hm.1 (by decide)
    rw [pageTable, if_neg hne, if_pos hm.1]
    rfl
  fresh := rfl
  eof p hp := by
    subst hp
    rfl

theorem pageHost_kept {m : List UInt8} (hm : IsHead m) : pageHost.Kept (pageTable m) := by
  have hne : m ≠ [] := by
    rintro rfl
    exact absurd hm.1 (by decide)
  rw [Kept, answer, respond, pageTable, if_neg hne, if_pos hm.1]
  by_cases hpath : (m.drop 4).take 2 = ascii "/a"
  · refine ⟨ResponseWriter.new.setData (some (.text (ascii "page"))), ?_⟩
    simp [pageHost, Handlers.handleOneRequest, hpath]
    rfl
  · obtain ⟨rsp, hrsp⟩ : ∃ rsp, ResponseWriter.new.setCode 404 = .ok rsp := ⟨_, rfl⟩
    refine ⟨rsp, ?_⟩
    simp [pageHost, Handlers.handleOneRequest, hpath, hrsp]

theorem handleConn_responses_page :
    ∃ n₀ s, s.closed = true ∧ s.sent = pageHost.responses 0 [pageTable (get 97)] ∧
      ∀ n ≥ n₀, ∀ k > 1, pageHost.handleConn n k (.accept ⟨[get 97], .closed⟩ []) = .ok s := by
  have hcomes : pageHost.Comes IsHead pageTable ⟨[get 97] ++ [], .closed⟩ [get 97] :=
    .kept ⟨rfl, by decide, by decide⟩ (by decide) (pageHost_kept (by decide)) (.ends (by decide))
  exact handleConn_responses pageHost_parses hcomes rfl

/-! ## Requests that are left over -/

/-- What is read of requests that are left over: the last of them is read again and again. -/
def repeated : ℕ → List (List UInt8) → List (List UInt8)
  | 0, _ => []
  | _ + 1, [] => []
  | k + 1, [m] => m :: repeated k [m]
  | k + 1, m :: ms => m :: repeated k ms

theorem repeated_singleton (k : ℕ) (m : List UInt8) : repeated k [m] = List.replicate k m := by
  induction k with
  | zero => rfl
  | succ k ih => rw [repeated, ih, List.replicate_succ]

theorem repeated_concat (k : ℕ) (ms : List (List UInt8)) (m : List UInt8) :
    repeated (ms.length + 1 + k) (ms ++ [m]) = ms ++ List.replicate (k + 1) m := by
  induction ms with
  | nil =>
    rw [List.nil_append, repeated_singleton, List.length_nil, zero_add, add_comm, List.nil_append]
  | cons m' ms ih =>
    have hlen : (m' :: ms).length + 1 + k = ms.length + 1 + k + 1 := by
      rw [List.length_cons]
      omega
    rw [hlen, List.cons_append, List.cons_append, ← ih]
    cases ms <;> rfl

/-- The message that the bytes left over begin with. -/
theorem readMessage_left {rest : List UInt8} {io : Io σ} {P : Parser σ Table} (hP : P.Pauses M table reads) (hm : M m)
    (hp : reads [] io.parser) :
    ∃ p', reads [] p' ∧ ∀ n, 2 ≤ n → readMessage P n (some (m ++ rest)) io =
      .ok (.ok (table m, some (if rest = [] then m else rest), m), ⟨io.conn, p', io.fed ++ m⟩) := by
  have hne : m ≠ [] := by
    rintro rfl
    exact hP.nonempty hm
  have hm₀ : M ([] ++ m) := hm
  have hnext : nextString (some (m ++ rest)) io.conn = .ok (.ok (m ++ rest), io.conn) := rfl
  obtain ⟨p', hp', hread⟩ := readLoop_last hP hm₀ hne hp hnext
  refine ⟨p', hp', fun n hn => ?_⟩
  have hloop := hread n [] hn
  rw [hP.empty] at hloop
  rw [readMessage, hloop]
  by_cases hrest : rest = []
  · subst hrest
    simp
  · rw [if_neg hrest, if_neg hrest]
    rfl

/-- Rounds that answer requests that are left over: nothing is received in them. -/
theorem rounds_left (hP : H.Parses M table reads) (hms : ∀ m ∈ ms, M m ∧ H.Kept (table m)) (hne : ms ≠ [])
    (hs : s.cached = some ms.flatten) (hp : reads [] s.io.parser) (hn : 2 ≤ n) (k : ℕ) :
    ∃ s', H.rounds n k s = .ok (s', true) ∧ s'.io.conn = s.io.conn ∧
      s'.sent = s.sent ++ H.responses s.sent.length ((repeated k ms).map table) := by
  induction k generalizing s ms with
  | zero => exact ⟨s, rfl, rfl, (List.append_nil _).symm⟩
  | succ k ih =>
    cases ms with
    | nil => exact absurd rfl hne
    | cons m ms =>
      obtain ⟨⟨hm, rsp, ha⟩, hrest⟩ := List.forall_mem_cons.1 hms
      obtain ⟨p', hp', hread⟩ := readMessage_left hP.pauses hm hp
      rw [← List.flatten_cons, ← hs] at hread
      obtain ⟨s₁, hio, hsent, hcached, hround⟩ := (round_read hread (hP.pauses.whole hm) (hP.url m hm)).2 rsp true ha
      have hp₁ : reads [] s₁.io.parser := by rwa [hio]
      have hcons : ∀ ms', H.responses s.sent.length (table m :: ms') =
          H.text s.sent.length rsp :: H.responses s₁.sent.length ms' := by
        intro ms'
        rw [responses, ha, hsent, List.length_append]
        rfl
      have hnext : ∃ ms', (∀ m ∈ ms', M m ∧ H.Kept (table m)) ∧ ms' ≠ [] ∧ s₁.cached = some ms'.flatten ∧
          repeated (k + 1) (m :: ms) = m :: repeated k ms' := by
        cases ms with
        | nil => exact ⟨[m], hms, List.cons_ne_nil _ _, by rw [hcached rfl]; simp, rfl⟩
        | cons m' ms =>
          have hne' : m' ≠ [] := by
            rintro rfl
            exact hP.pauses.nonempty (hrest [] List.mem_cons_self).1
          refine ⟨m' :: ms, hrest, List.cons_ne_nil _ _, ?_, rfl⟩
          rw [hcached rfl, if_neg]
          rw [List.flatten_cons, List.append_eq_nil_iff]
          exact fun h => hne' h.1
      obtain ⟨ms', hms', hne', hcached', hrep⟩ := hnext
      obtain ⟨s', hrounds, hconn, hsent'⟩ := ih hms' hne' hcached' hp₁
      refine ⟨s', ?_, hconn.trans (by rw [hio]), ?_⟩
      · rw [rounds, hround n hn]
        exact hrounds
      · rw [hsent', hrep, List.map_cons, hcons, hsent, List.append_assoc]
        rfl

/-- **Requests in one chunk are answered for ever**: when one that the connection is kept after ends in a
    chunk with others in it, the last of these is answered again and again, and what comes after
    the chunk is never received.  The copies differ in their dates only. -/
theorem handleConn_repeats {pre post : List (List UInt8)} {x : List UInt8} (hP : H.Parses M table reads)
    (hs : s.cached = none) (hp : reads [] s.io.parser)
    (hconn : s.io.conn.chunks = pre ++ (x ++ (ms ++ [m]).flatten) :: post)
    (hcut : Cut s.io.conn.chunks s.io.conn.chunks.flatten) (hx : x ≠ []) (hfirst : M (pre.flatten ++ x))
    (hkept : H.Kept (table (pre.flatten ++ x))) (hms : ∀ m' ∈ ms ++ [m], M m' ∧ H.Kept (table m')) :
    ∃ n₀, ∀ n ≥ n₀, ∀ k, H.handleConn n k s = .error .unfinished ∧
      ∃ s', H.rounds n (ms.length + 2 + k) s = .ok (s', true) ∧ s'.io.conn.chunks = post ∧
        s'.sent = s.sent ++ H.responses s.sent.length
          (((pre.flatten ++ x) :: ms ++ List.replicate (k + 1) m).map table) := by
  obtain ⟨⟨⟨chunks, ending⟩, p, fed⟩, cached, sent, closed⟩ := s
  dsimp only at hs hp hconn hcut
  obtain ⟨rsp, ha⟩ := hkept
  have hne : ms ++ [m] ≠ [] := by simp
  have hbytes : chunks.flatten = pre.flatten ++ x ++ ((ms ++ [m]).flatten ++ post.flatten) := by
    rw [hconn, List.flatten_append, List.flatten_cons, List.append_assoc, List.append_assoc]
  rw [hbytes] at hcut
  obtain ⟨pre', x', y, post', p', hpre, hx', hxne, -, -, hp', hread⟩ :=
    readMessage_none ending fed hP.pauses hfirst hcut hp
  obtain ⟨rfl, rfl, rfl⟩ := end_unique (hconn.symm.trans hpre) hx' hx hxne
  have hleft : (ms ++ [m]).flatten ≠ [] := by
    intro hnil
    have hm := (hms m (by simp)).1
    rw [List.flatten_eq_nil_iff.1 hnil m (by simp)] at hm
    exact hP.pauses.nonempty hm
  rw [if_neg hleft, ← hs] at hread
  obtain ⟨s₁, hio, hsent, hcached, hround⟩ := (round_read (s := ⟨⟨⟨chunks, ending⟩, p, fed⟩, cached, sent, closed⟩)
    hread (hP.pauses.whole hfirst) (hP.url _ hfirst)).2 rsp true ha
  have hp₁ : reads [] s₁.io.parser := by rwa [hio]
  refine ⟨max (chunks.length + 1) 2, fun n hn k => ?_⟩
  have hstep : ∀ k, H.rounds n (k + 1) ⟨⟨⟨chunks, ending⟩, p, fed⟩, cached, sent, closed⟩ = H.rounds n k s₁ := by
    intro k
    rw [rounds, hround n ((le_max_left _ _).trans hn)]
    rfl
  have hrest := rounds_left hP hms hne (hcached rfl) hp₁ ((le_max_right _ _).trans hn)
  constructor
  · cases k with
    | zero => rfl
    | succ k =>
      obtain ⟨s', hrounds, -, -⟩ := hrest k
      rw [handleConn, hstep, hrounds]
      rfl
  · obtain ⟨s', hrounds, hconn', hsent'⟩ := hrest (ms.length + 1 + k)
    have hk : ms.length + 2 + k = ms.length + 1 + k + 1 := by omega
    refine ⟨s', ?_, by rw [hconn', hio], ?_⟩
    · rw [hk, hstep, hrounds]
    · rw [hsent', repeated_concat, hsent, List.cons_append, List.map_cons, responses, ha, List.length_append,
        List.append_assoc]
      rfl

theorem handleConn_repeats_page :
    ∃ n₀, ∀ n ≥ n₀, ∀ k,
      pageHost.handleConn n k (.accept ⟨[get 97 ++ get 98, get 99], .silence⟩ []) = .error .unfinished ∧
      ∃ s', pageHost.rounds n (2 + k) (.accept ⟨[get 97 ++ get 98, get 99], .silence⟩ []) = .ok (s', true) ∧
        s'.io.conn.chunks = [get 99] ∧ s'.sent = [] ++ pageHost.responses 0
          ((get 97 :: List.replicate (k + 1) (get 98)).map pageTable) := by
  have hheads : ∀ m' ∈ [get 98], IsHead m' ∧ pageHost.Kept (pageTable m') := by
    intro m' hm'
    obtain rfl := List.mem_singleton.1 hm'
    exact ⟨by decide, pageHost_kept (by decide)⟩
  have hconn : [get 97 ++ get 98, get 99] = [] ++ (get 97 ++ ([] ++ [get 98]).flatten) :: [get 99] := rfl
  have hcut : Cut [get 97 ++ get 98, get 99] [get 97 ++ get 98, get 99].flatten := ⟨rfl, by decide, by decide⟩
  have hfirst : IsHead (([] : List (List UInt8)).flatten ++ get 97) := by decide
  exact handleConn_repeats (s := .accept ⟨[get 97 ++ get 98, get 99], .silence⟩ []) pageHost_parses rfl rfl hconn hcut
    (by decide) hfirst (pageHost_kept hfirst) hheads

end Host

end Levent.Http
