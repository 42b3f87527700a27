/-
  `ws.client` of `http/websocket.lua` after its request is sent: it takes the
  response, checks it and starts `run` on the connection.

  The bytes that `util.read_message` has received after the response are in
  `cached` of the client, which goes out of use here: the reader gets the frames
  exactly when there are none (`wsClient_receives_iff`).
-/
import Levent.Http.Client
import Levent.WebSocket.Receive

namespace Levent.WebSocket

open Lib (Lua)
open Http

/-- `ReadError` as `assert` raises it. -/
def errorMessage : ReadError → String
  | .recv err => toString err
  | .parse name => name

/-- `assert(v, message)` -/
def luaAssert (v : Bool) (message : String) : Lua Unit :=
  if v then .ok () else .error (.raised message)

/-- A value of a header field as a message. -/
def fieldMessage (v : Option (List UInt8)) : String :=
  (v.map fun s => String.ofList (s.map fun c => Char.ofNat c.toNat)).getD "nil"

/-- The checks of the response, where `accept` is
    `crypto.base64(get_sha1(key, config.WebSocket.GUID))`. -/
def checkResponse (accept : List UInt8) (response : Response) : Lua Unit := do
  let code := response.statusCode
  luaAssert (code = some 101) ((code.map toString).getD "nil")
  let connection := response.headers (ascii "Connection")
  luaAssert (connection.any fun v => lower v = ascii "upgrade") (fieldMessage connection)
  let upgrade := response.headers (ascii "Upgrade")
  luaAssert (upgrade.any fun v => lower v = ascii "websocket") (fieldMessage upgrade)
  luaAssert ((response.headers (ascii "Sec-Websocket-Accept")).any (· = accept)) "assertion failed!"

variable {σ : Type}

/-- `ws.client` on the client that has sent the request: the state in which it
    spawns `run`. -/
def wsClient (P : Parser σ Msg) (new : σ) (accept : List UInt8) (n : ℕ) (cli : Client σ) :
    Lua Reader := do
  let (response, cli) ← cli.getResponse P new n
  match response with
  | .error err => .error (.raised (errorMessage err))
  | .ok response =>
    checkResponse accept response
    .ok (Reader.start cli.conn)

/-- `k` calls of `read`. -/
def readFrames : ℕ → Conn → Lua (List (Bool × ℕ × Option (List UInt8)) × Conn)
  | 0, conn => .ok ([], conn)
  | k + 1, conn => do
    let (f, conn) ← read conn
    let (fs, conn) ← readFrames k conn
    .ok (f :: fs, conn)

/-! ## Responses and frames -/

/-- The response agrees to the upgrade. -/
structure IsUpgrade (accept : List UInt8) (msg : Msg) : Prop where
  code : msg.statusCode = some 101
  headers : ∃ fields, msg.headers = some fields ∧
    (∃ v ∈ cheaders fields (ascii "Connection"), lower v = ascii "upgrade") ∧
    (∃ v ∈ cheaders fields (ascii "Upgrade"), lower v = ascii "websocket") ∧
    accept ∈ cheaders fields (ascii "Sec-Websocket-Accept")

/-- The results of `read` for a frame. -/
def Frame.results (f : Frame) : Bool × ℕ × Option (List UInt8) := (f.fin, f.opcode, some f.payload)

/-- `ws.client` starts a reader that is at the first of the bytes `bs`, and reads
    the frames `fs` and nothing more. -/
def Receives (P : Parser σ Msg) (new : σ) (accept : List UInt8) (conn : Conn) (bs : List UInt8)
    (fs : List Frame) : Prop :=
  ∃ n r, wsClient P new accept n (Client.new conn) = .ok r ∧ r.conn.Holds bs ∧
    ∃ conn', readFrames fs.length r.conn = .ok (fs.map Frame.results, conn') ∧ conn'.chunks = []

/-- The bytes `bs` end with a string that `recv(4096)` returns. -/
def EndsWithRecv (conn : Conn) (bs : List UInt8) : Prop :=
  ∃ strs conn', conn.Recvs 4096 strs conn' ∧ strs.flatten = bs

variable {P : Parser σ Msg} {M : List UInt8 → Prop} {table : List UInt8 → Msg}
  {reads : List UInt8 → σ → Prop} {new : σ} {accept m raw rest : List UInt8} {n : ℕ} {conn conn' : Conn}
  {bss : List (List UInt8)} {fs : List Frame} {msg : Msg} {left : Option (List UInt8)} {io : Io σ}
  {r : Reader}

/-! ## The reader -/

theorem readFrames_holds (henc : Encoded fs bss) (h : conn.Holds bss.flatten) :
    ∃ conn', readFrames fs.length conn = .ok (fs.map Frame.results, conn') ∧ conn'.chunks = [] := by
  induction henc generalizing conn with
  | nil => exact ⟨conn, rfl, h.nil⟩
  | cons hf henc ih =>
    obtain ⟨conn₁, hread, h₁, -⟩ := read_holds hf h
    obtain ⟨conn', hreads, h'⟩ := ih h₁
    refine ⟨conn', ?_, h'⟩
    rw [List.length_cons, readFrames, hread]
    simp only [bind, Except.bind]
    rw [hreads]
    rfl

theorem checkResponse_ok (h : IsUpgrade accept msg) (raw : List UInt8) :
    ∃ response, Response.new msg raw = .ok response ∧ checkResponse accept response = .ok () := by
  obtain ⟨hcode, fields, hfields, ⟨v, hv, hv'⟩, ⟨w, hw, hw'⟩, haccept⟩ := h
  rw [Response.new, hfields]
  refine ⟨_, rfl, ?_⟩
  rw [Option.mem_def] at hv hw haccept
  simp [checkResponse, luaAssert, hcode, hv, hv', hw, hw', haccept, bind, Except.bind]

/-- **The reader has the connection**, and not what is left over. -/
theorem wsClient_ok (h : readMessage P n none ⟨conn, new, []⟩ = .ok (.ok (msg, left, raw), io))
    (hmsg : IsUpgrade accept msg) :
    wsClient P new accept n (Client.new conn) = .ok (Reader.start io.conn) := by
  obtain ⟨response, hnew, hcheck⟩ := checkResponse_ok hmsg raw
  rw [wsClient, Client.getResponse]
  simp only [Client.new, Option.getD_none, bind, Except.bind]
  rw [h]
  simp only
  rw [hnew]
  simp only
  rw [hcheck]

theorem wsClient_mono {n' : ℕ} (h : wsClient P new accept n (Client.new conn) = .ok r) (hn : n ≤ n') :
    wsClient P new accept n' (Client.new conn) = .ok r := by
  rw [wsClient, Client.getResponse] at h ⊢
  obtain ⟨a, h₁, h⟩ := Lib.bind_eq_ok.1 h
  obtain ⟨⟨res, io⟩, h₂, h₁⟩ := Lib.bind_eq_ok.1 h₁
  refine Lib.bind_eq_ok.2 ⟨a, Lib.bind_eq_ok.2 ⟨(res, io), readLoop_mono h₂ hn, h₁⟩, h⟩

/-- The bytes end in the last of the strings, and are followed by `y` there. -/
theorem endsWithRecv_iff {pre : List (List UInt8)} {x y : List UInt8}
    (h : conn.Recvs 4096 (pre ++ [x ++ y]) conn') (hx : x ≠ []) :
    EndsWithRecv conn (pre.flatten ++ x) ↔ y = [] := by
  constructor
  · rintro ⟨strs, conn'', hstrs, heq⟩
    have hlen := congrArg List.length heq
    have hpos := List.length_pos_iff.2 hx
    rw [List.length_append] at hlen
    rcases h.append_or hstrs with ⟨more, rfl⟩ | ⟨more, hmore⟩
    · simp only [List.flatten_append, List.flatten_cons, List.flatten_nil, List.append_nil,
        List.length_append] at hlen
      exact List.length_eq_zero_iff.1 (by omega)
    · -- the strings `strs` are too short, unless they are all
      rcases List.eq_nil_or_concat more with rfl | ⟨more, last, rfl⟩
      · rw [List.append_nil] at hmore
        subst hmore
        simp only [List.flatten_append, List.flatten_cons, List.flatten_nil, List.append_nil,
          List.length_append] at hlen
        exact List.length_eq_zero_iff.1 (by omega)
      · rw [List.concat_eq_append, ← List.append_assoc] at hmore
        obtain ⟨rfl, -⟩ := List.append_inj' hmore rfl
        rw [List.flatten_append, List.length_append] at hlen
        omega
  · rintro rfl
    exact ⟨_, conn', h, by simp⟩

/-- A reader that begins with the frames: nothing of them was left over. -/
theorem Receives.endsWithRecv (h : Receives P new accept conn bss.flatten fs)
    (hP : P.Pauses M table reads) (hnew : reads [] new) (hm : M m) (hmsg : IsUpgrade accept (table m))
    (hconn : conn.Holds (m ++ bss.flatten)) : EndsWithRecv conn m := by
  obtain ⟨n, r, hr, hholds, -⟩ := h
  obtain ⟨pre, x, y, conn', rest, p', hrecvs, rfl, hx, -, hrest, hconn', -, hread⟩ :=
    readMessage_holds [] hP hm hconn hnew
  have hr' := wsClient_mono hr (le_max_left n (pre.length + 2))
  rw [wsClient_ok (hread _ (le_max_right n _)) hmsg] at hr'
  obtain rfl := Except.ok.inj hr'
  have hbytes : bss.flatten = rest := hholds.bytes.symm.trans hconn'.bytes
  rw [hbytes] at hrest
  exact (endsWithRecv_iff hrecvs hx).2 (List.append_left_eq_self.1 hrest.symm)

/-- **The frames reach the reader exactly when** the response ends with a string
    that `recv` returns. -/
theorem wsClient_receives_iff (hP : P.Pauses M table reads) (hnew : reads [] new) (hm : M m)
    (hmsg : IsUpgrade accept (table m)) (henc : Encoded fs bss)
    (hconn : conn.Holds (m ++ bss.flatten)) :
    Receives P new accept conn bss.flatten fs ↔ EndsWithRecv conn m := by
  constructor
  · intro h
    exact h.endsWithRecv hP hnew hm hmsg hconn
  · intro h
    obtain ⟨pre, x, y, conn', rest, p', hrecvs, rfl, hx, -, hrest, hconn', -, hread⟩ :=
      readMessage_holds [] hP hm hconn hnew
    obtain rfl := (endsWithRecv_iff hrecvs hx).1 h
    rw [List.nil_append] at hrest
    rw [← hrest] at hconn'
    exact ⟨_, _, wsClient_ok (hread _ le_rfl) hmsg, hconn', readFrames_holds henc hconn'⟩

/-! ## A response -/

/-- The lines of a head. -/
def headLines (bs : List UInt8) : List (List UInt8) := bs.filter (· ≠ 13) |>.splitOn 10

/-- A header field: its name, and its value without the space before it. -/
def headField (line : List UInt8) : Option (List UInt8 × List UInt8) :=
  if 58 ∈ line then
    let name := line.takeWhile (· ≠ 58)
    some (name, line.drop (name.length + 2))
  else none

/-- What a parser makes of the bytes of a response without a body. -/
def responseTable (bs : List UInt8) : Msg :=
  if headEnds bs then
    ⟨true, some ((((bs.drop 9).take 3).foldl fun n c => 10 * n + (c.toNat - 48)) 0),
      some ((headLines bs).tail.filterMap headField)⟩
  else ⟨false, none, none⟩

def responseParser : Parser (List UInt8) Msg := tableParser responseTable Msg.complete

theorem responseParser_pauses :
    responseParser.Pauses IsHead responseTable (fun acc p => acc = p) := by
  refine tableParser_pauses ?_
  intro bs
  rw [responseTable]
  cases headEnds bs <;> rfl

/-- A response that agrees to the upgrade, for the key whose `accept` is `abc=`. -/
def switching : List UInt8 :=
  ascii "HTTP/1.1 101 Switching Protocols\r\nUpgrade: websocket\r\nCONNECTION: Upgrade\r\n" ++
    ascii "sec-websocket-accept: abc=\r\n\r\n"

theorem isHead_switching : IsHead switching := by decide +kernel

theorem isUpgrade_switching : IsUpgrade (ascii "abc=") (responseTable switching) := by
  have htable : responseTable switching = ⟨true, some 101, some
      [(ascii "Upgrade", ascii "websocket"), (ascii "CONNECTION", ascii "Upgrade"),
        (ascii "sec-websocket-accept", ascii "abc=")]⟩ := by decide +kernel
  rw [htable]
  exact ⟨rfl, _, rfl, ⟨ascii "Upgrade", by decide +kernel, by decide +kernel⟩,
    ⟨ascii "websocket", by decide +kernel, by decide +kernel⟩, by decide +kernel⟩

/-- A text. -/
def textFrame : Frame := ⟨true, TEXT, [72], TEXT_lt, by decide⟩

theorem encoded_textFrame : Encoded [textFrame] [[0x81, 1, 72]] :=
  .cons ⟨none, _, _, .short (by decide), by decide⟩ .nil

/-- The response and the first frame arrive together: the reader never sees the
    frame. -/
theorem wsClient_not_receives :
    IsHead switching ∧ IsUpgrade (ascii "abc=") (responseTable switching) ∧
      Encoded [textFrame] [[0x81, 1, 72]] ∧
      ¬ Receives responseParser [] (ascii "abc=") ⟨[switching ++ [0x81, 1, 72]], .silence⟩
        [[0x81, 1, 72]].flatten [textFrame] := by
  refine ⟨isHead_switching, isUpgrade_switching, encoded_textFrame, ?_⟩
  intro h
  have hrecvs : Conn.Recvs 4096 ⟨[switching ++ [0x81, 1, 72]], .silence⟩
      ([] ++ [switching ++ [0x81, 1, 72]]) ⟨[], .silence⟩ := .cons (by decide +kernel) .nil
  have hends := h.endsWithRecv responseParser_pauses rfl isHead_switching isUpgrade_switching
    ⟨by simp, by simp⟩
  exact absurd ((endsWithRecv_iff hrecvs (by decide)).1 hends) (by simp)

/-- The frame comes later, in two pieces. -/
theorem wsClient_receives_iff_switching :
    Receives responseParser [] (ascii "abc=") ⟨[switching, [0x81, 1], [72]], .silence⟩
        [[0x81, 1, 72]].flatten [textFrame] ↔
      EndsWithRecv ⟨[switching, [0x81, 1], [72]], .silence⟩ switching :=
  wsClient_receives_iff responseParser_pauses rfl isHead_switching isUpgrade_switching
    encoded_textFrame ⟨by simp, by decide +kernel⟩

end Levent.WebSocket
