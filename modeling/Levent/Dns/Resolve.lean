/-
  `remote_resolve` of `dns.lua`: the request, the loop over the name servers
  with the retry over TCP, the choice of the results and the cache.

  Several coroutines may be in `remote_resolve`, and each waits only for its
  requests: the step `ask` is a call up to its first request, `answer` what it
  does once its requests are over.  `Source` and `log` are not part of the
  program: they record the response that data was made from.
-/
import Levent.Dns.Encoding
import Levent.Lib.Run
import Mathlib.Data.Rat.Defs

namespace Levent

open Lib (Lua Stop Along run toBytes packI packS unpackI)

namespace Dns

/-! ## Requests -/

structure Server where
  host : String
  port : ℕ

/-- The errors that `request` returns: `other` are those of the kernel and the
    exceptions thrown at the coroutine. -/
inductive Err where
  | dns (e : DnsError)
  | timeout
  | other (msg : String)
  deriving DecidableEq

inductive Proto where
  | udp
  | tcp
  deriving DecidableEq

/-- What the calls on the socket of one request give: `header` is the length
    before a response over TCP. -/
structure Exchange where
  socket : Except Err Unit
  connect : Except Err Unit
  send : Except Err ℕ
  header : Except Err (List UInt8)
  resp : Except Err (List UInt8)

/-- `[_%w%-]` -/
def isLabelChar (b : UInt8) : Bool :=
  b == 95 || b == 45 || (48 ≤ b && b ≤ 57) || (65 ≤ b && b ≤ 90) || (97 ≤ b && b ≤ 122)

/-- What `name:gmatch("([_%w%-]+)%.?")` gives. -/
def nameLabels (name : List UInt8) : List (List UInt8) :=
  (name.splitOnP fun b => !isLabelChar b).filter (· ≠ [])

/-- `pack_header` for a request of one question -/
def packHeader (tid flags qdcount : ℕ) : Lua (List UInt8) := do
  let tid ← packI 2 2 tid
  let flags ← packI 3 2 flags
  let qdcount ← packI 4 2 qdcount
  .ok (tid ++ flags ++ qdcount ++ (toBytes 2 0 ++ toBytes 2 0 ++ toBytes 2 0))

/-- `pack_question` -/
def packQuestion (name : List UInt8) (qtype qclass : ℕ) : Lua (List UInt8) := do
  let labels ← (nameLabels name).mapM (packS 1)
  let qtype ← packI 2 2 qtype
  let qclass ← packI 3 2 qclass
  .ok (labels.flatten ++ [0] ++ (qtype ++ qclass))

/-- `request`, whose socket calls give `x`. -/
def request (rounds : ℕ) (chunk : List UInt8) (type : Proto) (x : Exchange) :
    Lua (Except Err Answers) :=
  match x.socket with
  | .error err => .ok (.error err)
  | .ok _ =>
    match x.connect with
    | .error err => .ok (.error err)
    | .ok _ => do
      let chunk ← match type with
        | .tcp => do
          let header ← packI 2 2 chunk.length
          .ok (header ++ chunk)
        | .udp => .ok chunk
      match x.send with
      | .error err => .ok (.error err)
      | .ok sent =>
        if sent ≠ chunk.length then .ok (.error (.dns ⟨"send failed"⟩))
        else do
          if type = .tcp then
            match x.header with
            | .error err => return .error err
            | .ok header => let _ ← unpackI header 2 1
          match x.resp with
          | .error err => .ok (.error err)
          | .ok resp =>
            match ← unpackResponse resp rounds with
            | .error e => .ok (.error (.dns e))
            | .ok answers => .ok (.ok answers)

/-- The requests to one server. -/
def askServer (rounds : ℕ) (req : List UInt8) (net : Proto → Exchange) : Lua (Except Err Answers) := do
  let r ← request rounds req .udp (net .udp)
  match r with
  | .error (.dns e) =>
    if e.info = "truncated" then request rounds req .tcp (net .tcp) else .ok r
  | _ => .ok r

/-! ## Results -/

inductive Host where
  | name (name : List UInt8)
  | address (address : String)
  deriving DecidableEq

structure SrvServer where
  host : Host
  port : ℕ
  weight : ℕ
  prio : ℕ
  ttl : ℕ
  deriving DecidableEq

/-- The lists that `remote_resolve` returns. -/
inductive Resolved where
  | addresses (l : List String)
  | servers (l : List SrvServer)
  | strings (l : List (List UInt8))
  deriving DecidableEq

/-- `normalize` of `resolve_type` for the addresses of type `qtype` -/
def normalizeAddresses (qtype : ℕ) (answers : List Ans) : List String × Option ℕ :=
  answers.foldl (fun r ans =>
    if ans.qtype = qtype then
      match ans.rdata with
      | .address address => (r.1 ++ [address], some ans.ttl)
      | _ => (r.1, some ans.ttl)
    else r) ([], none)

/-- `servers[target] = server` -/
def setServer (servers : List (List UInt8 × SrvServer)) (target : List UInt8) (server : SrvServer) :
    List (List UInt8 × SrvServer) :=
  if servers.any (·.1 == target) then
    servers.map fun e => if e.1 = target then (target, server) else e
  else servers ++ [(target, server)]

/-- The loop of `normalize` for SRV records over the answers. -/
def srvServers : List Ans → List (List UInt8 × SrvServer) → Lua (List (List UInt8 × SrvServer))
  | [], servers => .ok servers
  | ans :: answers, servers =>
    match ans.rdata with
    | .srv prio weight port target =>
      srvServers answers (setServer servers target ⟨.name target, port, weight, prio, ans.ttl⟩)
    | .address address =>
      match servers.find? (·.1 == ans.name) with
      | none => .error (.raised "assertion failed!")
      | some (_, server) =>
        srvServers answers (setServer servers ans.name { server with host := .address address })
    | .txt _ => srvServers answers servers

/-- The loop of `normalize` for TXT records. -/
def normalizeStrings (answers : List Ans) : List (List UInt8) × Option ℕ :=
  answers.foldl (fun r ans =>
    match ans.rdata with
    | .txt txt => (r.1 ++ txt, some ans.ttl)
    | _ => r) ([], none)

/-- `resolve_type[qtype].normalize`: the results with their ttl.  `pairs` is the
    order in which `pairs` goes through a table. -/
def normalize (pairs : List SrvServer → List SrvServer) (qtype : ℕ) (answers : List Ans) :
    Lua (Resolved × Option ℕ) :=
  if qtype = QTYPE.A ∨ qtype = QTYPE.AAAA then
    let (ret, ttl) := normalizeAddresses qtype answers
    .ok (.addresses ret, ttl)
  else if qtype = QTYPE.SRV then do
    let servers ← srvServers answers []
    let ret := pairs (servers.map Prod.snd)
    .ok (.servers ret, ret.getLast?.map SrvServer.ttl)
  else if qtype = QTYPE.TXT then
    let (ret, ttl) := normalizeStrings answers
    .ok (.strings ret, ttl)
  else .error (.raised "attempt to index a nil value (field '?')")

/-! ## The state -/

/-- The response that data was made from, and the id of its request. -/
structure Source where
  sent : ℕ
  answers : Answers

structure Entry where
  expired : ℚ
  data : Resolved
  source : Source

/-- A call of `remote_resolve` that waits for its requests. -/
structure Asked where
  name : List UInt8
  qtype : ℕ
  tid : ℕ
  req : List UInt8
  nameservers : List Server

/-- Data that a call has returned. -/
structure Returned where
  name : List UInt8
  qtype : ℕ
  data : Resolved
  source : Source

/-- The locals of `dns.lua`, the calls in `remote_resolve`, and the data
    returned; `nextTid` is an integer of 64 bits, given as an unsigned one. -/
structure State where
  cached : ℕ → List UInt8 → Option Entry
  dnsAddrs : Option (List Server)
  nextTid : ℕ
  pending : List Asked
  log : List Returned

def State.init : State := ⟨fun _ _ => none, none, 1, [], []⟩

def State.setEntry (s : State) (qtype : ℕ) (name : List UInt8) (e : Option Entry) : State :=
  { s with cached := Function.update s.cached qtype (Function.update (s.cached qtype) name e) }

variable (s : State)

/-- `query_cache` -/
def queryCache (now : ℚ) (qtype : ℕ) (name : List UInt8) : Option Entry × State :=
  match s.cached qtype name with
  | none => (none, s)
  | some t => if t.expired < now then (none, s.setEntry qtype name none) else (some t, s)

/-- `set_cache` -/
def setCache (now : ℚ) (qtype : ℕ) (name : List UInt8) (ttl : Option ℕ) (data : Resolved)
    (source : Source) : State :=
  match ttl with
  | none => s
  | some ttl => if 0 < ttl then s.setEntry qtype name (some ⟨now + ttl, data, source⟩) else s

/-! ## remote_resolve -/

/-- The request of a call, and its name servers; `conf` is what
    `parse_resolv_conf` gives. -/
def ask (conf : Option (List Server)) (name : List UInt8) (qtype : ℕ) : Lua Asked × State :=
  let tid := s.nextTid
  let s := { s with nextTid := (s.nextTid + 1) % 2 ^ 64 }
  let req := do
    let header ← packHeader tid 0x100 1
    let question ← packQuestion name qtype 1
    .ok (header ++ question)
  match req with
  | .error e => (.error e, s)
  | .ok req =>
    match s.dnsAddrs.or conf with
    | none => (.error (.raised "parse resolve conf failed"), s)
    | some servers => (.ok ⟨name, qtype, tid, req, servers⟩, { s with dnsAddrs := some servers })

/-- The loop over the name servers, from the server `i` on, to which the
    requests give `net i`. -/
def askServers (rounds : ℕ) (req : List UInt8) (net : ℕ → Proto → Exchange) :
    ℕ → List Server → Option Answers → Option Err → List Server → ℕ →
    Lua (Option Answers × Option Err × List Server)
  | _, [], result, err, valid, _ => .ok (result, err, valid)
  | i, server :: servers, result, err, valid, amount => do
    let (result, err) ← match result with
      | some a => .ok (some a, err)
      | none => do
        match ← askServer rounds req (net i) with
        | .ok a => .ok (some a, none)
        | .error e => .ok (none, some e)
    if err = some .timeout then
      askServers rounds req net (i + 1) servers result err (valid ++ [server]) amount
    else
      askServers rounds req net (i + 1) servers result err (valid.insertIdx amount server) (amount + 1)

/-- What the world does while and after a call waits for its requests. -/
structure Replies where
  net : ℕ → Proto → Exchange
  now : ℚ
  pairs : List SrvServer → List SrvServer

/-- The end of the call `q` of `remote_resolve`. -/
def finish (rounds : ℕ) (q : Asked) (w : Replies) :
    Lua (Except (Option Err) (Resolved × Source)) × State :=
  match askServers rounds q.req w.net 0 q.nameservers none none [] 0 with
  | .error e => (.error e, s)
  | .ok (result, err, valid) =>
    let s := { s with dnsAddrs := some valid }
    match result with
    | none => (.ok (.error err), s)
    | some a =>
      if a.records = [] then (.ok (.error (some (.dns ⟨"no answers"⟩))), s)
      else
        match normalize w.pairs q.qtype a.records with
        | .error e => (.error e, s)
        | .ok (data, ttl) =>
          (.ok (.ok (data, ⟨q.tid, a⟩)), setCache s w.now q.qtype q.name ttl data ⟨q.tid, a⟩)

/-! ## Steps -/

inductive Act where
  /-- `remote_resolve` is called -/
  | ask (now : ℚ) (conf : Option (List Server)) (name : List UInt8) (qtype : ℕ)
  /-- the requests of the waiting call `k` are over -/
  | answer (k : ℕ) (w : Replies)
  /-- a cached entry is collected: the cache is weak -/
  | collect (qtype : ℕ) (name : List UInt8)

/-- One step; a call whose decoding does not end holds up the process. -/
def step (rounds : ℕ) (s : State) : Act → Option State
  | .ask now conf name qtype =>
    match queryCache s now qtype name with
    | (some t, s) => some { s with log := s.log ++ [⟨name, qtype, t.data, t.source⟩] }
    | (none, s) =>
      match ask s conf name qtype with
      | (.ok q, s) => some { s with pending := s.pending ++ [q] }
      | (.error _, s) => some s
  | .answer k w =>
    match s.pending[k]? with
    | none => none
    | some q =>
      match finish { s with pending := s.pending.eraseIdx k } rounds q w with
      | (.ok (.ok (data, source)), s) =>
        some { s with log := s.log ++ [⟨q.name, q.qtype, data, source⟩] }
      | (.error .unfinished, _) => none
      | (_, s) => some s
  | .collect qtype name => some (s.setEntry qtype name none)

end Dns

end Levent
