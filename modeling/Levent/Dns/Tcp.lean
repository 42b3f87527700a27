/-
  `request` of `dns.lua` over TCP, on the pieces that a response comes in.

  A response is preceded by its length in two bytes; `request` takes one piece for
  the length, and one for the response.
-/
import Levent.Dns.Resolve
import Levent.Stream

namespace Levent

open Lib (Lua toBytes packI unpackI)

/-! ## Pieces -/

/-- The piece that comes next; at the end of the stream it is empty. -/
def Conn.first (conn : Conn) : List UInt8 := conn.chunks.headD []

/-- The piece that comes after the first `n` bytes of the next one: the rest of it, or
    the one after it. -/
def Conn.after (conn : Conn) (n : ℕ) : List UInt8 :=
  if conn.first.length ≤ n then conn.chunks.tail.headD [] else conn.first.drop n

section
variable {conn : Conn} {bs rest : List UInt8}

/-- A call of `recv` takes what it can of the next piece. -/
theorem Conn.recv_first (h : conn.chunks ≠ [] ∨ conn.ending = .closed) (n : ℕ) :
    ∃ conn', conn.recv n = .ok (.ok (conn.first.take n), conn') := by
  obtain ⟨chunks, ending⟩ := conn
  cases chunks with
  | nil =>
    obtain rfl : ending = .closed := h.resolve_left fun hne => hne rfl
    exact ⟨_, by rw [recv, first, List.headD_nil, List.take_nil]⟩
  | cons chunk chunks => exact ⟨_, rfl⟩

/-- Without a next piece there is nothing to take. -/
theorem Conn.recv_nil (h : conn.chunks = []) (hend : conn.ending ≠ .closed) (n : ℕ) (bs : List UInt8)
    (conn' : Conn) : conn.recv n ≠ .ok (.ok bs, conn') := by
  obtain ⟨chunks, ending⟩ := conn
  subst h
  intro hrecv
  cases ending with
  | silence => cases hrecv
  | closed => exact hend rfl
  | failed err => cases hrecv

theorem Conn.Holds.first_nil (h : conn.Holds bs) : conn.first = [] ↔ conn.chunks = [] := by
  cases hc : conn.chunks with
  | nil => simp [first, hc]
  | cons chunk chunks =>
    have hne := h.nonempty chunk (hc ▸ List.mem_cons_self)
    simp [first, hc, hne]

theorem Conn.Holds.first_prefix (h : conn.Holds bs) : conn.first <+: bs := by
  rw [← h.bytes, first]
  cases conn.chunks with
  | nil => exact List.nil_prefix
  | cons chunk chunks => exact List.prefix_append chunk chunks.flatten

/-- What the next piece has is received at once. -/
theorem Conn.Holds.recv_whole (h : conn.Holds (bs ++ rest)) (hbs : bs ≠ [])
    (hle : bs.length ≤ conn.first.length) :
    ∃ conn', conn.recv bs.length = .ok (.ok bs, conn') ∧ conn'.Holds rest ∧
      conn'.ending = conn.ending ∧ conn'.first = conn.after bs.length := by
  obtain ⟨chunks, ending⟩ := conn
  cases chunks with
  | nil => exact absurd (List.length_eq_zero_iff.1 (Nat.le_zero.1 hle)) hbs
  | cons chunk chunks =>
    have hbytes := h.bytes
    have htail : ∀ c ∈ chunks, c ≠ [] := fun c hc => h.nonempty c (List.mem_cons_of_mem _ hc)
    obtain ⟨more, rfl⟩ : bs <+: chunk := List.prefix_of_prefix_length_le
      (List.prefix_append bs rest) h.first_prefix hle
    rw [List.flatten_cons, List.append_assoc] at hbytes
    have hrest := List.append_cancel_left hbytes
    simp only [Conn.recv, Conn.after, first, List.headD_cons, List.tail_cons, List.take_left, List.drop_left]
    by_cases hmore : more = []
    · subst hmore
      rw [List.append_nil, if_pos le_rfl, if_pos le_rfl]
      exact ⟨_, rfl, ⟨hrest, htail⟩, rfl, rfl⟩
    · have hlt : ¬ (bs ++ more).length ≤ bs.length := by
        have := List.length_pos_iff.2 hmore
        rw [List.length_append]
        omega
      rw [if_neg hlt, if_neg hlt]
      refine ⟨_, rfl, ⟨hrest, fun c hc => ?_⟩, rfl, rfl⟩
      rcases List.mem_cons.1 hc with rfl | hc
      · exact hmore
      · exact htail c hc

end

namespace Dns

/-! ## The response -/

/-- The length of a response, and the response. -/
def tcpMessage (body : List UInt8) : List UInt8 := toBytes 2 body.length ++ body

/-- What `request` receives over TCP, for `unpack_response`. -/
def recvResponse (conn : Conn) : Lua (Except ℕ (List UInt8)) := do
  let (header, conn) ← conn.recv 2
  match header with
  | .error err => .ok (.error err)
  | .ok header => do
    let (len, _) ← unpackI header 2 1
    let (resp, _) ← conn.recv len
    .ok resp

/-- An error of the kernel. -/
def Err.errno (err : ℕ) : Err := .other (toString err)

/-- What `request` makes of it. -/
def respond (rounds : ℕ) : Except ℕ (List UInt8) → Lua (Except Err Answers)
  | .error err => .ok (.error (.errno err))
  | .ok resp => do
    match ← unpackResponse resp rounds with
    | .error e => .ok (.error (.dns e))
    | .ok answers => .ok (.ok answers)

/-- `request` over TCP: the socket calls before the response give `x`, and the response
    comes on `conn`. -/
def requestTcp (rounds : ℕ) (chunk : List UInt8) (x : Exchange) (conn : Conn) :
    Lua (Except Err Answers) :=
  match x.socket with
  | .error err => .ok (.error err)
  | .ok _ =>
    match x.connect with
    | .error err => .ok (.error err)
    | .ok _ => do
      let header ← packI 2 2 chunk.length
      match x.send with
      | .error err => .ok (.error err)
      | .ok sent =>
        if sent ≠ (header ++ chunk).length then .ok (.error (.dns ⟨"send failed"⟩))
        else do
          let resp ← recvResponse conn
          respond rounds resp

/-- The request has been sent. -/
structure Exchange.Sent (x : Exchange) (chunk : List UInt8) : Prop where
  socket : x.socket = .ok ()
  connect : x.connect = .ok ()
  length : chunk.length < 65536
  send : x.send = .ok (chunk.length + 2)

variable {rounds : ℕ} {chunk body bs rest : List UInt8} {x : Exchange} {conn conn' : Conn}

/-- It is `request`, with the results of the two calls of `recv`. -/
theorem requestTcp_eq {header resp : List UInt8} {conn'' : Conn} {len : ℕ} {pos : ℤ}
    (h : conn.recv 2 = .ok (.ok header, conn')) (hlen : unpackI header 2 1 = .ok (len, pos))
    (h' : conn'.recv len = .ok (.ok resp, conn'')) :
    requestTcp rounds chunk x conn =
      request rounds chunk .tcp { x with header := .ok header, resp := .ok resp } := by
  have hresp : recvResponse conn = .ok (.ok resp) := by
    simp only [recvResponse, h, h', hlen, bind, Except.bind]
  rw [requestTcp, request]
  cases x.socket with
  | error err => rfl
  | ok _ =>
    cases x.connect with
    | error err => rfl
    | ok _ =>
      cases packI 2 2 chunk.length with
      | error e => rfl
      | ok packed =>
        cases x.send with
        | error err => rfl
        | ok sent =>
          simp only [bind, Except.bind, hresp, hlen, respond]
          rfl

/-! ## Whole responses -/

theorem unpackI_tcp {len : ℕ} (hlen : len ≤ 65535) : unpackI (toBytes 2 len) 2 1 = .ok (len, 3) :=
  Lib.unpackI_toBytes (i := 0) (show len < 256 ^ 2 by omega) (by decide) (List.prefix_refl _)

/-- Less than two bytes are not a length. -/
theorem recvResponse_short {header : List UInt8} (h : conn.recv 2 = .ok (.ok header, conn'))
    (hlen : header.length < 2) : recvResponse conn = .error Lib.tooShort := by
  have hunpack : unpackI header 2 1 = .error Lib.tooShort := by
    rw [unpackI, show (1 : ℤ) = (0 : ℕ) + 1 from rfl,
      Lib.unpackAt_eq (Lib.posrelat_succ 0 _) (Nat.zero_le _)]
    exact if_neg (by omega)
  simp only [recvResponse, h, hunpack, bind, Except.bind]

/-- With the length, the next call receives the response. -/
theorem recvResponse_next {len : ℕ} (hlen : len ≤ 65535)
    (h : conn.recv 2 = .ok (.ok (toBytes 2 len), conn')) :
    recvResponse conn = (conn'.recv len).map Prod.fst := by
  simp only [recvResponse, h, unpackI_tcp hlen, bind, Except.bind]
  cases conn'.recv len <;> rfl

/-- The length and the response come in one piece each, or in one. -/
structure Whole (conn : Conn) (len : ℕ) : Prop where
  header : 2 ≤ conn.first.length
  resp : len ≤ (conn.after 2).length
  -- to receive nothing, `recv` waits for something
  ready : len = 0 → conn.after 2 ≠ [] ∨ conn.ending = .closed

/-- A piece that comes before the length is over is too short for it. -/
theorem recvResponse_cut (hne : conn.chunks ≠ [] ∨ conn.ending = .closed) (hlt : conn.first.length < 2) :
    recvResponse conn = .error Lib.tooShort := by
  obtain ⟨conn', hrecv⟩ := Conn.recv_first hne 2
  refine recvResponse_short hrecv ?_
  rw [List.length_take]
  omega

/-- What comes in one piece after the length is taken for the response. -/
theorem recvResponse_second {len : ℕ} (hlen : len ≤ 65535) (h : conn.Holds (toBytes 2 len ++ bs))
    (h2 : 2 ≤ conn.first.length) :
    ∃ conn' : Conn, conn'.Holds bs ∧ conn'.ending = conn.ending ∧ conn'.first = conn.after 2 ∧
      recvResponse conn = (conn'.recv len).map Prod.fst := by
  have hlength := Lib.toBytes_length 2 len
  have hne : toBytes 2 len ≠ [] := List.ne_nil_of_length_eq_add_one hlength
  obtain ⟨conn', hrecv, hholds, hend, hfirst⟩ := h.recv_whole hne (by rw [hlength]; exact h2)
  rw [hlength] at hrecv hfirst
  exact ⟨conn', hholds, hend, hfirst, recvResponse_next hlen hrecv⟩

/-- **A response is received as it was sent exactly if it is not cut.** -/
theorem recvResponse_iff (hlen : body.length ≤ 65535) (h : conn.Holds (tcpMessage body ++ rest)) :
    recvResponse conn = .ok (.ok body) ↔ Whole conn body.length := by
  rw [tcpMessage, List.append_assoc] at h
  by_cases h2 : 2 ≤ conn.first.length
  · obtain ⟨conn', hholds, hend, hfirst, hresp⟩ := recvResponse_second hlen h h2
    by_cases hready : conn'.chunks ≠ [] ∨ conn'.ending = .closed
    · obtain ⟨conn'', hrecv⟩ := Conn.recv_first hready body.length
      rw [hresp, hrecv, Except.map]
      constructor
      · intro heq
        have htake : conn'.first.take body.length = body := Except.ok.inj (Except.ok.inj heq)
        refine ⟨h2, ?_, fun _ => hready.imp (fun hc => ?_) (hend ▸ ·)⟩
        · rw [← hfirst, ← congrArg List.length htake, List.length_take]
          exact Nat.min_le_right _ _
        · exact hfirst ▸ fun hnil => hc (hholds.first_nil.1 hnil)
      · intro hw
        have hpre : body <+: conn'.first := List.prefix_of_prefix_length_le
          (List.prefix_append body rest) hholds.first_prefix (hfirst ▸ hw.resp)
        exact congrArg _ (congrArg _ (List.prefix_iff_eq_take.1 hpre).symm)
    · rw [not_or, not_not] at hready
      refine iff_of_false (fun heq => ?_) fun hw => ?_
      · rw [hresp] at heq
        cases hrecv : conn'.recv body.length with
        | error e => rw [hrecv] at heq; cases heq
        | ok r =>
          obtain ⟨ret, conn''⟩ := r
          rw [hrecv] at heq
          cases heq
          exact Conn.recv_nil hready.1 hready.2 _ _ _ hrecv
      · have hnil := hholds.first_nil.2 hready.1
        have hresp := hw.resp
        rw [← hfirst, hnil] at hresp
        rcases hw.ready (Nat.le_zero.1 hresp) with hne | hclosed
        · exact hne (hfirst ▸ hnil)
        · exact hready.2 (hend ▸ hclosed)
  · have hne : conn.chunks ≠ [] := by
      intro hnil
      have hbytes := congrArg List.length h.bytes
      simp [hnil] at hbytes
      omega
    rw [recvResponse_cut (.inl hne) (by omega)]
    exact iff_of_false nofun fun hw => h2 hw.header

/-! ## Responses that end early -/

theorem requestTcp_sent (hx : x.Sent chunk) :
    requestTcp rounds chunk x conn = recvResponse conn >>= respond rounds := by
  have hpack : packI 2 2 chunk.length = .ok (toBytes 2 chunk.length) := if_pos hx.length
  have hsent : ¬ chunk.length + 2 ≠ (toBytes 2 chunk.length ++ chunk).length := by
    rw [List.length_append, Lib.toBytes_length]
    omega
  simp only [requestTcp, hx.socket, hx.connect, hpack, hx.send, bind, Except.bind, if_neg hsent]

theorem respond_error {resp : List UInt8} : (∃ err, respond rounds (.ok resp) = .ok (.error err)) ↔
    ∃ e, unpackResponse resp rounds = .ok (.error e) := by
  rw [respond]
  cases unpackResponse resp rounds with
  | error e => exact iff_of_false (by rintro ⟨err, h⟩; cases h) (by rintro ⟨e, h⟩; cases h)
  | ok r =>
    cases r with
    | error e => exact iff_of_true ⟨_, rfl⟩ ⟨e, rfl⟩
    | ok answers => exact iff_of_false (by rintro ⟨err, h⟩; cases h) (by rintro ⟨e, h⟩; cases h)

/-- **What there is of a response that ends early is decoded**, unless it ends in the
    length. -/
theorem requestTcp_early (hx : x.Sent chunk) (hlen : body.length ≤ 65535) (h : conn.Holds bs)
    (hpre : bs <+: tcpMessage body) (hend : conn.ending = .closed) :
    (∃ err, requestTcp rounds chunk x conn = .ok (.error err)) ↔
      2 ≤ conn.first.length ∧ ∃ e, unpackResponse (conn.after 2) rounds = .ok (.error e) := by
  rw [requestTcp_sent hx]
  by_cases h2 : 2 ≤ conn.first.length
  · have hlength := Lib.toBytes_length 2 body.length
    obtain ⟨more, rfl⟩ : toBytes 2 body.length <+: bs :=
      List.prefix_of_prefix_length_le (List.prefix_append _ body) hpre
        (hlength ▸ h2.trans h.first_prefix.length_le)
    obtain ⟨conn', hholds, hend', hfirst, hresp⟩ := recvResponse_second hlen h h2
    obtain ⟨conn'', hrecv⟩ := Conn.recv_first (.inr (hend'.trans hend)) body.length
    -- there is not more than the response
    have hle : conn'.first.length ≤ body.length :=
      (hholds.first_prefix.trans ((List.prefix_append_right_inj _).1 hpre)).length_le
    rw [hresp, hrecv, List.take_of_length_le hle, hfirst]
    exact respond_error.trans (and_iff_right h2).symm
  · rw [recvResponse_cut (.inr hend) (by omega)]
    refine iff_of_false ?_ fun hand => h2 hand.1
    rintro ⟨err, herr⟩
    cases herr

/-! ## Requests over TCP -/

/-- **A response over TCP is decoded as it was sent exactly if it is not cut**; if it
    ends early, an error is returned exactly if the decoder returns one for the piece
    after the length. -/
theorem requestTcp_iff (rounds : ℕ) {body : List UInt8} (hx : x.Sent chunk)
    (hlen : body.length ≤ 65535) :
    (∀ conn rest, conn.Holds (tcpMessage body ++ rest) →
      (recvResponse conn = .ok (.ok body) ↔ Whole conn body.length)) ∧
    ∀ conn bs, conn.Holds bs → bs <+: tcpMessage body → bs ≠ tcpMessage body →
      conn.ending = .closed → ((∃ err, requestTcp rounds chunk x conn = .ok (.error err)) ↔
        2 ≤ conn.first.length ∧ ∃ e, unpackResponse (conn.after 2) rounds = .ok (.error e)) :=
  ⟨fun _ _ h => recvResponse_iff hlen h, fun _ _ h hpre _ hend => requestTcp_early hx hlen h hpre hend⟩

/-- A response that comes at once is decoded, and one that ends after its length is an
    error. -/
theorem requestTcp_iff_pieces :
    recvResponse ⟨[[0, 1, 7]], .silence⟩ = .ok (.ok [7]) ∧
      ∃ err, requestTcp 1 [1] ⟨.ok (), .ok (), .ok 3, .ok [], .ok []⟩ ⟨[[0, 1]], .closed⟩ =
        .ok (.error err) := by
  have hx : Exchange.Sent ⟨.ok (), .ok (), .ok 3, .ok [], .ok []⟩ [1] := ⟨rfl, rfl, by decide, rfl⟩
  have hlen : [(7 : UInt8)].length ≤ 65535 := by decide
  obtain ⟨hwhole, hearly⟩ := requestTcp_iff 1 hx hlen
  exact ⟨(hwhole _ [] ⟨rfl, by decide⟩).2 ⟨by decide, by decide, nofun⟩,
    (hearly _ [0, 1] ⟨rfl, by decide⟩ ⟨[7], rfl⟩ (by decide) rfl).2 ⟨by decide, ⟨"truncated"⟩, rfl⟩⟩

/-- The length comes in two pieces. -/
theorem requestTcp_cut : ∃ (conn : Conn) (body : List UInt8), conn.Holds (tcpMessage body) ∧
    body.length ≤ 65535 ∧ recvResponse conn = .error Lib.tooShort :=
  ⟨⟨[[0], [1, 7]], .silence⟩, [7], ⟨rfl, by decide⟩, by decide, recvResponse_cut (.inl nofun) (by decide)⟩

end Dns

end Levent
