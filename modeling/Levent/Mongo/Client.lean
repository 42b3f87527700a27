/-
  Coroutines that share one client of `ext/mongo/init.lua`: `findOne`, `runCommand` and
  the cursor's `hasNext`, with `get_reply`, `Socket:send` and `Socket:recv` of
  `socket.lua`, and the two watchers of the socket.

  A coroutine gives up control inside `_wait` only; the socket has no timeout.  The
  server takes whole messages from the bytes that are sent, one after another, and
  answers each with a reply.  `answers`, `ended` and `taken` are records, and nothing
  that is computed depends on them.  `recv` takes the bytes it asks for on the C stack,
  which is taken to be large enough.
-/
import Levent.Mongo.Request
import Levent.Runtime.State
import Levent.Lib.Run

namespace Levent.Mongo

open Lib (Along Goes run signed unsigned)
open Bson (Bytes Stop)

/-! ## Replies -/

/-- What `driver.reply` returns, given a table or not: it does not depend on what is in the
    table (`opReply_table`), nor on the fuel, if that is more than there are bytes
    (`opReply_fuel`). -/
def driverReply (fuel : ℕ) (data : Bytes) (table : Bool) : Except Stop Reply :=
  (opReply (κ := Empty) (V := Empty) (fun _ => 0) fuel data
    (if table then some ⟨fun _ => none, fun _ => none⟩ else none)).map Prod.fst

/-- The second result of `driver.reply`. -/
def Reply.id : Reply → Option ℤ
  | .short => none
  | .failure id _ => some id
  | .mismatch id => some id
  | .success id _ _ _ => some id

/-- The third result of `driver.reply`. -/
def Reply.doc : Reply → Option ℤ
  | .short => none
  | .failure _ doc => some doc
  | .mismatch _ => none
  | .success _ doc _ _ => doc

/-- How a call ends. -/
inductive Result where
  /-- `bson_decode(doc)` is returned -/
  | decodes (doc : Option ℤ)
  /-- `hasNext` returns -/
  | hasNext (more : Bool)
  /-- `hasNext` raises the error of the document, or "Reply from mongod error" -/
  | error (doc : Option ℤ)
  /-- the assertion "Reply from mongod error" fails -/
  | assertion
  /-- the driver raises; or it does not return, or reads what is no part of the reply -/
  | failed (e : Stop)
  /-- the driver is given nil, for `recv` has failed -/
  | noReply
  deriving DecidableEq

/-- The driver returns or raises, and reads nothing but the reply. -/
def Result.defined : Result → Bool
  | .failed .undefined | .failed .unfinished => false
  | _ => true

/-- What `hasNext` does with a reply to its own request. -/
def Reply.hasNext : Reply → Result
  | .success _ doc _ _ => .hasNext doc.isSome
  | r => .error r.doc

/-- The end of `findOne`, `runCommand` and `hasNext`, for the request `id` and the reply without
    its length. -/
def result (fuel : ℕ) (id : ℤ) (hasNext table : Bool) (data : Bytes) : Result :=
  match driverReply fuel data table with
  | .error e => .failed e
  | .ok r => if r.id ≠ some id then .assertion else if hasNext then r.hasNext else .decodes r.doc

/-! ## Cursors -/

/-- What `mongo_collection:find` returns: `document` if its table is not nil. -/
structure Find where
  fullName : Bytes
  query : Bytes
  selector : Option Bytes
  ptr : Option ℕ
  data : Option Bytes
  cursor : Option Bytes
  document : Bool

/-- There is nothing more to be had. -/
def Find.over (f : Find) : Find := { f with document := false, data := none, cursor := none }

/-- What `hasNext` makes of a reply to its own request. -/
def Find.took (f : Find) (data : Bytes) : Reply → Find
  | .success _ (some _) cursor _ => { f with data := some data, ptr := some 1, cursor }
  | _ => f.over

/-! ## Calls -/

/-- A call that makes a request: that of `hasNext` is for a cursor. -/
structure Call where
  id : ℤ
  pack : Bytes
  cursor : Option ℕ
  deriving DecidableEq

/-- Where a call is: in `sock:send`, in `sock:recv(4)`, or in `read_full` with the four bytes,
    the length that they give and what is read; or in the driver, which does not return or
    does what nobody knows. -/
inductive Phase where
  | sending
  | length
  | body (head : Bytes) (length : ℤ) (reply : Bytes)
  | lost (taken : Bytes)
  deriving DecidableEq

/-- The call is in `recv`. -/
def Phase.reads : Phase → Bool
  | .length | .body _ _ _ => true
  | .sending | .lost _ => false

/-- The locals of a call; `table` if `get_reply` is given a table. -/
structure Job where
  call : Call
  table : Bool
  phase : Phase
  deriving DecidableEq

/-- The bytes that the call has received. -/
def Job.taken (j : Job) : Bytes :=
  match j.phase with
  | .body head _ reply => head ++ reply
  | .lost taken => taken
  | .sending | .length => []

/-- A call that has ended, and the bytes that it has received. -/
structure Ended where
  call : Call
  taken : Bytes
  result : Result

/-- A client and its socket: `wcb` and `rcb` are the coroutines that the watchers wake, `cur` the
    one that runs in a call; `wire` has what the server has not taken, `inbox` what it has sent and
    nobody has received. -/
structure Client where
  id : ℤ
  finds : ℕ → Find
  wcb : Option Co
  rcb : Option Co
  cur : Option Co
  job : Co → Option Job
  wire : Bytes
  inbox : Bytes
  answers : List (Bytes × Bytes)
  ended : List Ended

/-- `mongo.client`, and the cursors that `find` makes of it. -/
def Client.init (finds : ℕ → Bytes × Bytes × Option Bytes) : Client where
  id := 0
  finds k := ⟨(finds k).1, (finds k).2.1, (finds k).2.2, none, none, none, true⟩
  wcb := none
  rcb := none
  cur := none
  job _ := none
  wire := []
  inbox := []
  answers := []
  ended := []

def emptyBson : Bytes := Bson.document []

/-- The calls. -/
inductive Op where
  | findOne (fullName : Bytes) (query selector : Option Bytes)
  | runCommand (cmd bsonCmd : Bytes)
  | hasNext (k : ℕ)

namespace Client

variable (s : Client) (c : Co)

def setJob (j : Option Job) : Client := { s with job := Function.update s.job c j }

/-- `genId` -/
def genId : ℤ := signed 8 (unsigned 8 (s.id + 1))

/-- A request is about to be sent. -/
def request (call : Call) : Client :=
  { s.setJob c (some ⟨call, false, .sending⟩) with cur := some c }

/-- `hasNext` -/
def hasNext (k : ℕ) : Client :=
  let f := s.finds k
  if f.ptr.isSome then s
  else if f.document = false then s
  else
    let id := s.genId
    let s := { s with id }
    match f.data, f.cursor with
    | none, _ => s.request c ⟨id, opQuery id 0 f.fullName 0 0 f.query f.selector, some k⟩
    | some _, some cursor =>
      match opGetMore id f.fullName 0 cursor with
      | .ok pack => s.request c ⟨id, pack, some k⟩
      | .error e => { s with ended := s.ended ++ [⟨⟨id, [], some k⟩, [], .failed e⟩] }
    | some _, none =>
      { s with finds := Function.update s.finds k { f with document := false, data := none } }

/-- A call begins. -/
def call : Op → Client
  | .findOne fullName query selector =>
    let id := s.genId
    { s with id }.request c ⟨id, opQuery id 0 fullName 0 1 (query.getD emptyBson) selector, none⟩
  | .runCommand cmd bsonCmd =>
    let id := s.genId
    { s with id }.request c ⟨id, opQuery id 0 cmd 0 1 bsonCmd none, none⟩
  | .hasNext k => s.hasNext c k

/-- `get_reply` begins: `sock:send` has returned, or failed. -/
def getReply (j : Job) : Client :=
  let table := (j.call.cursor.map fun k => (s.finds k).document).getD false
  s.setJob c (some { j with table, phase := .length })

/-- The call ends, if the driver does. -/
def ends (j : Job) (taken : Bytes) (r : Result) : Client :=
  if r.defined then
    { s.setJob c none with
      cur := none
      ended := s.ended ++ [⟨j.call, taken, r⟩] }
  else s.setJob c (some { j with phase := .lost taken })

/-- The cursors after a reply. -/
def took (j : Job) (data : Bytes) : ℕ → Find :=
  match j.call.cursor, driverReply (data.length + 1) data j.table with
  | some k, .ok r =>
    if r.id = some j.call.id then Function.update s.finds k ((s.finds k).took data r) else s.finds
  | _, _ => s.finds

/-- The reply is read. -/
def finish (j : Job) (head reply : Bytes) : Client :=
  { s with finds := s.took j reply }.ends c j (head ++ reply)
    (result (reply.length + 1) j.call.id j.call.cursor.isSome j.table reply)

/-- The loop of `util.read_full`. -/
def readFull (j : Job) (head : Bytes) (length : ℤ) (reply : Bytes) : Client :=
  if reply.length < length then s.setJob c (some { j with phase := .body head length reply })
  else s.finish c j head reply

/-- `recv` has returned. -/
def received (j : Job) (ret : Bytes) : Client :=
  match j.phase with
  | .body head length reply => s.readFull c j head length (reply ++ ret)
  | _ =>
    match replyLength ret with
    | .ok length => s.readFull c j ret length []
    | .error e => s.ends c j ret (.failed e)

/-- `_wait` for something to read, whose errors are caught: the assertion of `Watcher:start`
    fails if the watcher has a callback, and `recv` returns nil. -/
def waitRead (j : Job) : Client :=
  match s.rcb with
  | none => { s with rcb := some c, cur := none }
  | some _ => s.ends c j j.taken .noReply

/-- `_wait` until something can be sent; nothing is if that fails. -/
def waitWrite (j : Job) : Client :=
  match s.wcb with
  | none => { s with wcb := some c, cur := none }
  | some _ => s.getReply c j

/-- The number of bytes that `recv` is called with. -/
def asked (j : Job) : ℤ :=
  match j.phase with
  | .sending | .lost _ => 0
  | .length => 4
  | .body _ length reply => length - reply.length

end Client

/-- A coroutine calls; the kernel takes `n` bytes of a request, or none; it gives `n` bytes to
    `recv`, or none; a watcher fires; the server answers; `next` moves a cursor, to its
    end if `last`. -/
inductive Act where
  | call (c : Co) (op : Op)
  | sent (n : ℕ)
  | sendBlocks
  | recv (n : ℕ)
  | recvBlocks
  | writable
  | readable
  | answer (reply : Bytes)
  | next (k : ℕ) (last : Bool)

/-- One step; `none` if the action is not possible. -/
def Client.step (s : Client) (a : Act) : Option Client :=
  match a with
  | .call c op => if s.cur = none ∧ s.job c = none then some (s.call c op) else none
  | .sent n => do
    let c ← s.cur
    let j ← s.job c
    if j.phase = .sending ∧ 0 < n ∧ n ≤ j.call.pack.length then
      some ({ s with wire := s.wire ++ j.call.pack.take n }.getReply c j)
    else none
  | .sendBlocks => do
    let c ← s.cur
    let j ← s.job c
    if j.phase = .sending then some (s.waitWrite c j) else none
  | .recv n => do
    let c ← s.cur
    let j ← s.job c
    if 0 < n ∧ n ≤ asked j ∧ n ≤ s.inbox.length then
      some ({ s with inbox := s.inbox.drop n }.received c j (s.inbox.take n))
    else none
  | .recvBlocks => do
    let c ← s.cur
    let j ← s.job c
    if j.phase.reads then some (s.waitRead c j) else none
  | .writable => do
    let c ← s.wcb
    if s.cur = none then some { s with wcb := none, cur := some c } else none
  | .readable => do
    let c ← s.rcb
    if s.cur = none then some { s with rcb := none, cur := some c } else none
  | .answer reply => do
    let (m, wire) ← nextMessage s.wire
    if IsReply m reply then
      some { s with wire, inbox := s.inbox ++ reply, answers := s.answers ++ [(m, reply)] }
    else none
  | .next k last => do
    let ptr ← (s.finds k).ptr
    if s.cur = none then
      some { s with
        finds := Function.update s.finds k
          { s.finds k with ptr := if last then none else some (ptr + 1) } }
    else none

/-! ## Every call has its own reply -/

/-- The call has received the whole reply to its own request, and it ends with what it
    makes of it, however much fuel the driver has from then on. -/
structure Ended.Own (answers : List (Bytes × Bytes)) (e : Ended) : Prop where
  reply : (e.call.pack, e.taken) ∈ answers
  id : int32At e.taken 8 = e.call.id
  result : ∃ table, ∀ fuel > e.taken.length, e.result =
    Mongo.result fuel e.call.id e.call.cursor.isSome table (e.taken.drop 4)
  defined : e.result.defined
  accepted : e.result ≠ .assertion

/-- How far the exchange of a call that reads has come: its request is on the wire, or its reply
    is there and a part of it may be received; the driver can read that reply. -/
inductive Exchange (wire inbox : Bytes) (answers : List (Bytes × Bytes)) (j : Job) : Prop
  | asked : j.phase = .length → wire = j.call.pack → wire.length < 2 ^ 31 → inbox = [] →
      Exchange wire inbox answers j
  | answered : j.phase = .length → wire = [] → (j.call.pack, inbox) ∈ answers →
      IsReply j.call.pack inbox → Ends (inbox.drop 4) j.table → Exchange wire inbox answers j
  | reading {reply part : Bytes} :
      j.phase = .body (reply.take 4) (reply.length - 4) part → wire = [] →
      (j.call.pack, reply) ∈ answers → IsReply j.call.pack reply → Ends (reply.drop 4) j.table →
      part ++ inbox = reply.drop 4 → inbox ≠ [] → Exchange wire inbox answers j

/-- **What a shared client promises**: each call that has ended has had its own reply; each that
    is sent and has not ended will, for nothing else is on the connection; nothing is left there
    when no call reads. -/
structure Client.Served (s : Client) : Prop where
  own : ∀ e ∈ s.ended, e.Own s.answers
  reads : ∀ c j, s.job c = some j → j.phase ≠ .sending → Exchange s.wire s.inbox s.answers j
  left : (∀ c j, s.job c = some j → j.phase = .sending) → s.inbox = []

/-- No other call is between its send and its end. -/
def Client.Quiet (s : Client) (c : Co) : Prop :=
  ∀ c' j, c' ≠ c → s.job c' = some j → j.phase = .sending

/-- The condition on a step: the number of a request has 31 bits; a request is sent whole, while
    no other call reads, and only one waits for that; the length of a reply is received whole;
    the driver comes to the end of a reply, when it puts the documents into a table. -/
def Client.Clear (s : Client) : Act → Prop
  | .call _ _ => s.id + 1 < 2 ^ 31
  | .sent n => ∀ c j, s.cur = some c → s.job c = some j →
      n = j.call.pack.length ∧ n < 2 ^ 31 ∧ s.Quiet c
  | .sendBlocks => s.wcb = none
  | .recv n => ∀ c j, s.cur = some c → s.job c = some j → j.phase = .length → n = 4
  | .answer reply => ∀ c j, s.job c = some j → j.phase ≠ .sending → Ends (reply.drop 4) j.table
  | _ => True

/-! ## The replies of the driver -/

variable {fuel fuel' n : ℕ} {s s' : Client} {c c' : Co} {j j' : Job} {a : Act} {as : List Act}
  {data m reply wire inbox : Bytes} {table : Bool} {r : Reply}
  {answers : List (Bytes × Bytes)} {job : Co → Option Job} {finds : ℕ → Find}

section
variable {κ V : Type} {t t' : Table κ V} {rawlen rawlen' : (ℤ → Option (Entry V)) → ℕ}

theorem documents_table (fuel : ℕ) (doc sz : ℤ) (i : ℕ) (t t' : Table κ V) :
    (documents data fuel doc sz i t).map (fun x => (x.1, x.2.1)) =
      (documents data fuel doc sz i t').map fun x => (x.1, x.2.1) := by
  induction fuel generalizing doc sz i t t' with
  | zero => rfl
  | succ fuel ih =>
    rw [documents, documents]
    split
    · cases getLength data doc with
      | error e => rfl
      | ok len =>
        simp only [bind, Except.bind]
        split
        · exact ih _ _ _ _ _
        · rfl
    · rfl

/-- **What `op_reply` returns** does not depend on what the table holds. -/
theorem opReply_table (rawlen rawlen' : (ℤ → Option (Entry V)) → ℕ) (fuel : ℕ) (data : Bytes)
    (t t' : Table κ V) :
    (opReply rawlen fuel data (some t)).map Prod.fst =
      (opReply rawlen' fuel data (some t')).map Prod.fst := by
  have hdocs : (documents data fuel HEADER (dataSize data) 1 t).map (fun x => (x.1, x.2.1)) =
      (documents data fuel HEADER (dataSize data) 1 t').map fun x => (x.1, x.2.1) :=
    documents_table _ _ _ _ t t'
  rw [opReply, opReply]
  split
  · rfl
  · split
    · rfl
    · simp only [bind, Except.bind]
      cases hx : documents data fuel HEADER (dataSize data) 1 t with
      | error e =>
        cases hy : documents data fuel HEADER (dataSize data) 1 t' with
        | error e' =>
          rw [hx, hy] at hdocs
          cases hdocs
          rfl
        | ok y =>
          rw [hx, hy] at hdocs
          cases hdocs
      | ok x =>
        cases hy : documents data fuel HEADER (dataSize data) 1 t' with
        | error e' =>
          rw [hx, hy] at hdocs
          cases hdocs
        | ok y =>
          rw [hx, hy] at hdocs
          obtain ⟨hsz, hi⟩ := Prod.mk.inj (Except.ok.inj hdocs)
          simp only at hsz hi ⊢
          rw [hsz, hi]
          split
          · rfl
          · split <;> rfl

/-- What a reply is read as. -/
theorem opReply_ok {result result' : Option (Table κ V)}
    (h : opReply rawlen fuel data result = .ok (r, result')) (hlen : HEADER ≤ data.length) :
    r = .failure (int32At data 4) HEADER ∨ r = .mismatch (int32At data 4) ∨ r = succeed data := by
  rw [opReply, if_neg (by omega)] at h
  split at h
  · cases h
    exact .inl rfl
  · cases result with
    | none =>
      have hrest : ∀ sz : ℤ, (if sz ≠ 0 then .error INVALID_RESULT else
          .ok (succeed data, none) : Except Stop (Reply × Option (Table κ V))) = .ok (r, result') →
        r = succeed data := by
        intro sz h
        split at h
        · cases h
        · cases h
          rfl
      dsimp only at h
      split at h
      · obtain ⟨len, -, h⟩ := Lib.bind_eq_ok.1 h
        exact .inr (.inr (hrest _ h))
      · exact .inr (.inr (hrest _ h))
    | some t =>
      obtain ⟨x, -, h⟩ := Lib.bind_eq_ok.1 h
      dsimp only at h
      split at h
      · cases h
        exact .inr (.inl rfl)
      · split at h
        · cases h
        · cases h
          exact .inr (.inr rfl)

end

theorem driverReply_ok (h : driverReply fuel data table = .ok r) (hlen : HEADER ≤ data.length) :
    r = .failure (int32At data 4) HEADER ∨ r = .mismatch (int32At data 4) ∨ r = succeed data := by
  rw [driverReply] at h
  split at h
  all_goals
    generalize hx : opReply _ _ _ _ = x at h
    cases x with
    | error e => cases h
    | ok x =>
      cases h
      exact opReply_ok hx hlen

/-- The reply names the request that it answers. -/
theorem driverReply_id (h : driverReply fuel data table = .ok r) (hlen : HEADER ≤ data.length) :
    r.id = some (int32At data 4) := by
  rcases driverReply_ok h hlen with rfl | rfl | rfl <;> rfl

/-- The assertion holds for a reply to the request. -/
theorem result_ne_assertion {id : ℤ} (hid : int32At data 4 = id) (hlen : HEADER ≤ data.length)
    (hasNext table : Bool) :
    result fuel id hasNext table data ≠ .assertion := by
  rw [result]
  cases h : driverReply fuel data table with
  | error e => nofun
  | ok r =>
    simp only
    rw [driverReply_id h hlen, hid, if_neg (not_not.2 rfl)]
    cases hasNext with
    | false => nofun
    | true =>
      rw [if_pos rfl]
      cases r <;> nofun

theorem result_fuel (hf : data.length < fuel) (hf' : data.length < fuel') (id : ℤ)
    (hasNext table : Bool) :
    result fuel id hasNext table data = result fuel' id hasNext table data := by
  rw [result, result, driverReply, driverReply, opReply_fuel hf hf']

/-- The driver returns or raises where the loop ends. -/
theorem result_defined (h : Ends data table) (hf : data.length < fuel) (id : ℤ) (hasNext : Bool) :
    (result fuel id hasNext table data).defined := by
  have hends : Ends data (if table then some (⟨fun _ => none, fun _ => none⟩ : Table Empty Empty)
      else none).isSome := by
    cases table with
    | false => exact h
    | true => exact h
  obtain ⟨h1, h2⟩ := (opReply_ends (fun _ => 0) hf).2 hends
  rw [result]
  cases hr : driverReply fuel data table with
  | error e =>
    rw [driverReply] at hr
    generalize opReply _ _ _ _ = x at hr h1 h2
    cases x with
    | ok x => cases hr
    | error e' =>
      cases hr
      cases e with
      | error msg => rfl
      | undefined => exact absurd rfl h1
      | unfinished => exact absurd rfl h2
  | ok r =>
    dsimp only
    split
    · rfl
    · cases hasNext with
      | false => rfl
      | true =>
        rw [if_pos rfl]
        cases r <;> rfl

/-- The name of a cursor has eight bytes. -/
theorem took_cursor {f : Find} (h : driverReply fuel data table = .ok r)
    (hlen : HEADER ≤ data.length) {cid : Bytes} (hcid : (f.took data r).cursor = some cid) :
    cid.length = 8 := by
  rcases driverReply_ok h hlen with rfl | rfl | rfl
  · cases hcid
  · cases hcid
  · rw [succeed] at hcid
    split at hcid
    · cases hcid
    · change (if _ then none else some ((data.drop 16).take 8)) = some cid at hcid
      split at hcid
      · cases hcid
      · cases hcid
        rw [List.length_take, List.length_drop]
        have : HEADER = 32 := rfl
        omega

/-! ## What is on the connection -/

/-- The calls other than that of `c` have not been sent. -/
def OthersSend (job : Co → Option Job) (c : Co) : Prop :=
  ∀ c' j, c' ≠ c → job c' = some j → j.phase = .sending

/-- What is on the connection is that of the call that reads. -/
inductive Conn (job : Co → Option Job) (wire inbox : Bytes) (answers : List (Bytes × Bytes)) : Prop
  | idle : (∀ c j, job c = some j → j.phase = .sending) → wire = [] → inbox = [] →
      Conn job wire inbox answers
  | reading {c : Co} {j : Job} : job c = some j → OthersSend job c → Exchange wire inbox answers j →
      Conn job wire inbox answers

theorem Exchange.phase (h : Exchange wire inbox answers j) : j.phase ≠ .sending := by
  cases h with
  | asked hp => simp [hp]
  | answered hp => simp [hp]
  | reading hp => simp [hp]

/-- There is one call at most that reads. -/
theorem Conn.exchange (h : Conn job wire inbox answers) (hj : job c = some j)
    (hp : j.phase ≠ .sending) :
    OthersSend job c ∧ Exchange wire inbox answers j := by
  cases h with
  | idle hsend => exact absurd (hsend c j hj) hp
  | @reading c' j' hj' hothers hex =>
    by_cases hc : c = c'
    · subst hc
      rw [hj'] at hj
      cases hj
      exact ⟨hothers, hex⟩
    · exact absurd (hothers c j hc hj) hp

/-- Nothing is on the connection when no call reads. -/
theorem Conn.empty (h : Conn job wire inbox answers)
    (hsend : ∀ c j, job c = some j → j.phase = .sending) :
    wire = [] ∧ inbox = [] := by
  cases h with
  | idle _ hwire hinbox => exact ⟨hwire, hinbox⟩
  | reading hj _ hex => exact absurd (hsend _ _ hj) hex.phase

/-- A call that is not sent yet changes nothing. -/
theorem Conn.request (h : Conn job wire inbox answers) (hc : job c = none)
    (hp : j.phase = .sending) :
    Conn (Function.update job c (some j)) wire inbox answers := by
  have hnew : ∀ c₁ j₁, Function.update job c (some j) c₁ = some j₁ →
      (job c₁ = some j₁ → j₁.phase = .sending) → j₁.phase = .sending := by
    intro c₁ j₁ hj₁ hold
    by_cases hcc : c₁ = c
    · subst hcc
      rw [Function.update_self] at hj₁
      cases hj₁
      exact hp
    · rw [Function.update_of_ne hcc] at hj₁
      exact hold hj₁
  cases h with
  | idle hsend hwire hinbox =>
    exact .idle (fun c₁ j₁ hj₁ => hnew c₁ j₁ hj₁ (hsend c₁ j₁)) hwire hinbox
  | @reading c' j' hj' hothers hex =>
    have hne : c' ≠ c := by
      rintro rfl
      rw [hc] at hj'
      cases hj'
    refine .reading (c := c') (j := j') ?_
      (fun c₁ j₁ hc₁ hj₁ => hnew c₁ j₁ hj₁ (hothers c₁ j₁ hc₁)) hex
    rw [Function.update_of_ne hne]
    exact hj'

theorem OthersSend.update (h : OthersSend job c) (x : Option Job) :
    OthersSend (Function.update job c x) c := by
  intro c' j' hc hj
  rw [Function.update_of_ne hc] at hj
  exact h c' j' hc hj

/-- The call of `c` reads, or has ended. -/
theorem OthersSend.reading (h : OthersSend job c) (hex : Exchange wire inbox answers j) :
    Conn (Function.update job c (some j)) wire inbox answers :=
  .reading (Function.update_self c _ job) (h.update _) hex

theorem OthersSend.ended (h : OthersSend job c) :
    Conn (Function.update job c none) [] [] answers := by
  refine .idle (fun c' j' hj => ?_) rfl rfl
  by_cases hc : c' = c
  · subst hc
    rw [Function.update_self] at hj
    cases hj
  · exact h.update none c' j' hc hj

/-! ## The invariant -/

/-- The names of cursors, which the server has given, have eight bytes. -/
def Named (finds : ℕ → Find) : Prop := ∀ k cid, (finds k).cursor = some cid → cid.length = 8

theorem Named.update (h : Named finds) {k : ℕ} {f : Find}
    (hf : ∀ cid, f.cursor = some cid → cid.length = 8) :
    Named (Function.update finds k f) := by
  intro k' cid hcid
  by_cases hk : k' = k
  · subst hk
    rw [Function.update_self] at hcid
    exact hf cid hcid
  · rw [Function.update_of_ne hk] at hcid
    exact h k' cid hcid

/-- What holds in every state: the watchers wake calls that wait for them. -/
structure Client.Inv (s : Client) : Prop where
  id : 0 ≤ s.id
  request : ∀ c j, s.job c = some j → IsRequest j.call.pack j.call.id
  writer : ∀ c, s.wcb = some c → s.cur ≠ some c ∧ ∃ j, s.job c = some j ∧ j.phase = .sending
  reader : ∀ c, s.rcb = some c → s.cur ≠ some c ∧ ∃ j, s.job c = some j ∧ j.phase ≠ .sending
  cursor : Named s.finds
  conn : Conn s.job s.wire s.inbox s.answers
  own : ∀ e ∈ s.ended, e.Own s.answers

theorem init_inv (finds : ℕ → Bytes × Bytes × Option Bytes) : (Client.init finds).Inv where
  id := le_rfl
  request := nofun
  writer := nofun
  reader := nofun
  cursor := nofun
  conn := .idle nofun rfl rfl
  own := nofun

theorem genId_eq (h0 : 0 ≤ s.id) (hid : s.id + 1 < 2 ^ 31) : s.genId = s.id + 1 := by
  rw [Client.genId]
  exact Lib.signed_unsigned (by omega) (by omega)

/-- A call that makes a request. -/
theorem Client.Inv.makes (h : s.Inv) (hc : s.job c = none) (hid : s.id + 1 < 2 ^ 31)
    (opcode : ℕ) (body : Bytes) (k : Option ℕ) :
    ({ s with id := s.genId }.request c ⟨s.genId, message s.genId opcode body, k⟩).Inv := by
  have hgen := genId_eq h.id hid
  have hpos := h.id
  have hother : ∀ {c' j'}, s.job c' = some j' → c' ≠ c := by
    rintro c' j' hj' rfl
    rw [hc] at hj'
    cases hj'
  have hwait : ∀ {c' j'}, s.job c' = some j' → some c ≠ some c' ∧
      Function.update s.job c
        (some ⟨⟨s.genId, message s.genId opcode body, k⟩, false, .sending⟩) c' = some j' := by
    intro c' j' hj'
    have hne := hother hj'
    exact ⟨fun heq => hne (Option.some.inj heq).symm, by rw [Function.update_of_ne hne, hj']⟩
  refine ⟨?_, ?_, ?_, ?_, h.cursor, h.conn.request hc rfl, h.own⟩
  · change 0 ≤ s.genId
    omega
  · intro c' j' hj'
    by_cases hcc : c' = c
    · subst hcc
      change Function.update _ _ _ _ = _ at hj'
      rw [Function.update_self] at hj'
      cases hj'
      exact message_request (by omega) (by omega) opcode body
    · change Function.update _ _ _ _ = _ at hj'
      rw [Function.update_of_ne hcc] at hj'
      exact h.request c' j' hj'
  · intro c' hw
    obtain ⟨-, j', hj', hp⟩ := h.writer c' hw
    obtain ⟨hne, hupd⟩ := hwait hj'
    exact ⟨hne, j', hupd, hp⟩
  · intro c' hr
    obtain ⟨-, j', hj', hp⟩ := h.reader c' hr
    obtain ⟨hne, hupd⟩ := hwait hj'
    exact ⟨hne, j', hupd, hp⟩

theorem Client.Inv.hasNext (h : s.Inv) (hc : s.job c = none) (hid : s.id + 1 < 2 ^ 31) (k : ℕ) :
    (s.hasNext c k).Inv := by
  have hgen := genId_eq h.id hid
  have hpos := h.id
  rw [Client.hasNext]
  dsimp only
  split
  · exact h
  · split
    · exact h
    · split
      · exact h.makes hc hid OP_QUERY _ (some k)
      · rename_i cid _ hcid
        -- the name of the cursor is in order
        rw [opGetMore, if_neg (not_not.2 (h.cursor k cid hcid))]
        exact h.makes hc hid OP_GET_MORE _ (some k)
      · refine ⟨?_, h.request, h.writer, h.reader, h.cursor.update (h.cursor k), h.conn, h.own⟩
        change 0 ≤ s.genId
        omega

theorem Client.Inv.call (h : s.Inv) (hc : s.job c = none) (hid : s.id + 1 < 2 ^ 31) (op : Op) :
    (s.call c op).Inv := by
  cases op with
  | findOne fullName query selector => exact h.makes hc hid OP_QUERY _ none
  | runCommand cmd bsonCmd => exact h.makes hc hid OP_QUERY _ none
  | hasNext k => exact h.hasNext hc hid k

/-- The call that runs goes on, or ends. -/
theorem Client.Inv.move (h : s.Inv) (hcur : s.cur = some c)
    (hj : s.job c = some j) {x : Option Job} (hid : s'.id = s.id) (hwcb : s'.wcb = s.wcb)
    (hrcb : s'.rcb = s.rcb) (hcur' : s'.cur = s.cur ∨ s'.cur = none)
    (hjob : s'.job = Function.update s.job c x) (hx : ∀ j' ∈ x, j'.call = j.call)
    (hfinds : Named s'.finds) (hconn : Conn s'.job s'.wire s'.inbox s'.answers)
    (hown : ∀ e ∈ s'.ended, e.Own s'.answers) : s'.Inv := by
  have hwait : ∀ {c'}, s.cur ≠ some c' → s'.cur ≠ some c' ∧ s'.job c' = s.job c' := by
    intro c' hne
    have hcc : c' ≠ c := fun hcc => hne (hcc ▸ hcur)
    refine ⟨?_, by rw [hjob, Function.update_of_ne hcc]⟩
    rcases hcur' with heq | heq
    · rwa [heq]
    · rw [heq]
      nofun
  refine ⟨hid ▸ h.id, fun c' j' hj' => ?_, fun c' hw => ?_, fun c' hr => ?_, hfinds, hconn, hown⟩
  · rw [hjob] at hj'
    by_cases hcc : c' = c
    · subst hcc
      rw [Function.update_self] at hj'
      rw [hx j' hj']
      exact h.request c' j hj
    · rw [Function.update_of_ne hcc] at hj'
      exact h.request c' j' hj'
  · obtain ⟨hne, j', hj', hp⟩ := h.writer c' (hwcb ▸ hw)
    obtain ⟨hne', heq⟩ := hwait hne
    exact ⟨hne', j', heq.trans hj', hp⟩
  · obtain ⟨hne, j', hj', hp⟩ := h.reader c' (hrcb ▸ hr)
    obtain ⟨hne', heq⟩ := hwait hne
    exact ⟨hne', j', heq.trans hj', hp⟩

/-- **A request is sent**: nothing else is on the connection. -/
theorem Client.Inv.sent (h : s.Inv) (hcur : s.cur = some c) (hj : s.job c = some j)
    (hp : j.phase = .sending) (hn : n = j.call.pack.length) (hlt : n < 2 ^ 31)
    (hquiet : s.Quiet c) :
    ({ s with wire := s.wire ++ j.call.pack.take n }.getReply c j).Inv := by
  have hsend : ∀ c' j', s.job c' = some j' → j'.phase = .sending := by
    intro c' j' hj'
    by_cases hc : c' = c
    · subst hc
      rw [hj] at hj'
      cases hj'
      exact hp
    · exact hquiet c' j' hc hj'
  obtain ⟨hwire, hinbox⟩ := h.conn.empty hsend
  have hothers : OthersSend s.job c := hquiet
  have htake : s.wire ++ j.call.pack.take n = j.call.pack := by
    rw [hwire, List.nil_append, hn, List.take_length]
  refine h.move hcur hj rfl rfl rfl (.inl rfl) rfl ?_ h.cursor
    (hothers.reading (.asked rfl htake ?_ hinbox)) h.own
  · rintro j' ⟨⟩
    rfl
  · change (s.wire ++ j.call.pack.take n).length < 2 ^ 31
    rw [htake, ← hn]
    exact hlt

/-- The loop of `util.read_full`, when `part` of the reply is received. -/
theorem Client.Inv.readFull (h : s.Inv) (hcur : s.cur = some c) (hj : s.job c = some j)
    (hothers : OthersSend s.job c) (hwire : s.wire = []) (hmem : (j.call.pack, reply) ∈ s.answers)
    (hreply : IsReply j.call.pack reply) (hends : Ends (reply.drop 4) j.table) {part : Bytes}
    (hpart : part ++ inbox = reply.drop 4) :
    ({ s with inbox }.readFull c j (reply.take 4) (reply.length - 4) part).Inv := by
  have h4 : 4 ≤ reply.length := (Nat.le_add_left 4 HEADER).trans hreply.1
  have hlen := congrArg List.length hpart
  rw [List.length_append, List.length_drop] at hlen
  rw [Client.readFull]
  split
  · rename_i hlt
    have hmore : inbox ≠ [] := by
      rintro rfl
      rw [List.length_nil] at hlen
      omega
    refine h.move hcur hj rfl rfl rfl (.inl rfl) rfl ?_ h.cursor
      (hothers.reading (.reading rfl hwire hmem hreply hends hpart hmore)) h.own
    rintro j' ⟨⟩
    rfl
  · -- all is received
    obtain rfl : inbox = [] := List.length_eq_zero_iff.1 (by omega)
    rw [List.append_nil] at hpart
    have htaken : reply.take 4 ++ part = reply := by rw [hpart, List.take_append_drop]
    have hbody : HEADER ≤ part.length := by
      have := hreply.1
      omega
    have hid : int32At reply 8 = j.call.id := hreply.2.2.2.trans (h.request c j hj).id
    have hbodyId : int32At part 4 = j.call.id := by
      rw [hpart, ← hid]
      exact int32At_drop reply 4 4
    have hdef := result_defined (hpart ▸ hends) (Nat.lt_succ_self part.length) j.call.id
      j.call.cursor.isSome
    rw [Client.finish, Client.ends, if_pos hdef]
    refine h.move hcur hj rfl rfl rfl (.inr rfl) rfl (x := none) nofun ?_ ?_ ?_
    · change Named (s.took j part)
      rw [Client.took]
      split
      · rename_i hdriver
        split
        · exact h.cursor.update fun cid hcid => took_cursor hdriver hbody hcid
        · exact h.cursor
      · exact h.cursor
    · change Conn (Function.update s.job c none) s.wire [] s.answers
      rw [hwire]
      exact hothers.ended
    · intro e he
      rcases List.mem_append.1 he with he | he
      · exact h.own e he
      · obtain rfl := List.mem_singleton.1 he
        refine ⟨?_, ?_, ⟨j.table, fun fuel hf => ?_⟩, hdef, result_ne_assertion hbodyId hbody _ _⟩
        · rwa [htaken]
        · rwa [htaken]
        · have hpartLen : part.length ≤ reply.length := by
            rw [hpart, List.length_drop]
            exact Nat.sub_le _ _
          rw [htaken] at hf
          have hf' : part.length < fuel := hpartLen.trans_lt hf
          rw [htaken, ← hpart]
          exact result_fuel (Nat.lt_succ_self _) hf' ..

/-- **Bytes are received**: they are of the reply to the call. -/
theorem Client.Inv.recv (h : s.Inv) (hcur : s.cur = some c)
    (hj : s.job c = some j) (hpos : 0 < n) (hask : n ≤ asked j) (hin : n ≤ s.inbox.length)
    (hfour : j.phase = .length → n = 4) :
    ({ s with inbox := s.inbox.drop n }.received c j (s.inbox.take n)).Inv := by
  have hp : j.phase ≠ .sending := by
    intro hp
    rw [asked, hp] at hask
    dsimp only at hask
    omega
  obtain ⟨hothers, hex⟩ := h.conn.exchange hj hp
  cases hex with
  | asked _ _ _ hinbox =>
    rw [hinbox, List.length_nil] at hin
    omega
  | answered hlength hwire hmem hreply hends =>
    rw [Client.received, hlength]
    dsimp only
    rw [hfour hlength, replyLength_reply hreply]
    exact h.readFull hcur hj hothers hwire hmem hreply hends (List.nil_append _)
  | @reading reply part hbody hwire hmem hreply hends hpart =>
    rw [Client.received, hbody]
    refine h.readFull hcur hj hothers hwire hmem hreply hends ?_
    rw [List.append_assoc, List.take_append_drop]
    exact hpart

/-- No other coroutine waits to receive. -/
theorem Client.Inv.rcb_none (h : s.Inv) (hcur : s.cur = some c) (hj : s.job c = some j)
    (hp : j.phase ≠ .sending) : s.rcb = none := by
  cases hr : s.rcb with
  | none => rfl
  | some c' =>
    obtain ⟨hne, j', hj', hp'⟩ := h.reader c' hr
    obtain ⟨hothers, -⟩ := h.conn.exchange hj hp
    by_cases hc : c' = c
    · exact absurd (hc ▸ hcur) hne
    · exact absurd (hothers c' j' hc hj') hp'

/-- **The server answers** the one request there is. -/
theorem Client.Inv.answer (h : s.Inv) (hnext : nextMessage s.wire = some (m, wire))
    (hreply : IsReply m reply)
    (hends : ∀ c j, s.job c = some j → j.phase ≠ .sending → Ends (reply.drop 4) j.table) :
    Client.Inv
      { s with wire, inbox := s.inbox ++ reply, answers := s.answers ++ [(m, reply)] } := by
  have hwire : s.wire ≠ [] := by
    intro hnil
    rw [hnil] at hnext
    cases hnext
  have hconn : Conn s.job wire (s.inbox ++ reply) (s.answers ++ [(m, reply)]) := by
    cases h.conn with
    | idle _ hnil => exact absurd hnil hwire
    | @reading c j hj hothers hex =>
      cases hex with
      | asked hp hpack hlt hinbox =>
        rw [hpack] at hnext hlt
        rw [nextMessage_request (h.request c j hj) hlt] at hnext
        cases hnext
        rw [hinbox, List.nil_append]
        exact .reading hj hothers
          (.answered hp rfl (List.mem_append_right _ (List.mem_singleton_self _)) hreply
            (hends c j hj (by simp [hp])))
      | answered _ hnil => exact absurd hnil hwire
      | reading _ hnil => exact absurd hnil hwire
  refine ⟨h.id, h.request, h.writer, h.reader, h.cursor, hconn, fun e he => ?_⟩
  obtain ⟨hmem, hid, hresult, hdef, hne⟩ := h.own e he
  exact ⟨List.mem_append_left _ hmem, hid, hresult, hdef, hne⟩

/-- **One step** that is clear keeps the invariant. -/
theorem step_inv (h : s.Inv) (hclear : s.Clear a) (hstep : s.step a = some s') : s'.Inv := by
  cases a with
  | call c op =>
    obtain ⟨⟨-, hc⟩, hs⟩ := Option.ite_none_right_eq_some.1 hstep
    cases hs
    exact h.call hc hclear op
  | sent n =>
    obtain ⟨c, hcur, hstep⟩ := Option.bind_eq_some_iff.1 hstep
    obtain ⟨j, hj, hstep⟩ := Option.bind_eq_some_iff.1 hstep
    obtain ⟨⟨hp, -, -⟩, hs⟩ := Option.ite_none_right_eq_some.1 hstep
    cases hs
    obtain ⟨hn, hlt, hquiet⟩ := hclear c j hcur hj
    exact h.sent hcur hj hp hn hlt hquiet
  | sendBlocks =>
    obtain ⟨c, hcur, hstep⟩ := Option.bind_eq_some_iff.1 hstep
    obtain ⟨j, hj, hstep⟩ := Option.bind_eq_some_iff.1 hstep
    obtain ⟨hp, hs⟩ := Option.ite_none_right_eq_some.1 hstep
    cases hs
    have hwcb : s.wcb = none := hclear
    rw [Client.waitWrite, hwcb]
    refine ⟨h.id, h.request, ?_, fun c' hr => ⟨nofun, (h.reader c' hr).2⟩, h.cursor, h.conn, h.own⟩
    rintro c' ⟨⟩
    exact ⟨nofun, j, hj, hp⟩
  | recv n =>
    obtain ⟨c, hcur, hstep⟩ := Option.bind_eq_some_iff.1 hstep
    obtain ⟨j, hj, hstep⟩ := Option.bind_eq_some_iff.1 hstep
    obtain ⟨⟨hpos, hask, hin⟩, hs⟩ := Option.ite_none_right_eq_some.1 hstep
    cases hs
    exact h.recv hcur hj hpos hask hin (hclear c j hcur hj)
  | recvBlocks =>
    obtain ⟨c, hcur, hstep⟩ := Option.bind_eq_some_iff.1 hstep
    obtain ⟨j, hj, hstep⟩ := Option.bind_eq_some_iff.1 hstep
    obtain ⟨hreads, hs⟩ := Option.ite_none_right_eq_some.1 hstep
    cases hs
    have hp : j.phase ≠ .sending := by
      intro hp
      rw [hp] at hreads
      cases hreads
    rw [Client.waitRead, h.rcb_none hcur hj hp]
    refine ⟨h.id, h.request, fun c' hw => ⟨nofun, (h.writer c' hw).2⟩, ?_, h.cursor, h.conn, h.own⟩
    rintro c' ⟨⟩
    exact ⟨nofun, j, hj, hp⟩
  | writable =>
    obtain ⟨c, hwcb, hstep⟩ := Option.bind_eq_some_iff.1 hstep
    obtain ⟨-, hs⟩ := Option.ite_none_right_eq_some.1 hstep
    cases hs
    obtain ⟨-, j, hj, hp⟩ := h.writer c hwcb
    refine ⟨h.id, h.request, nofun, fun c' hr => ?_, h.cursor, h.conn, h.own⟩
    obtain ⟨-, j', hj', hp'⟩ := h.reader c' hr
    refine ⟨?_, j', hj', hp'⟩
    rintro ⟨⟩
    rw [hj] at hj'
    cases hj'
    exact hp' hp
  | readable =>
    obtain ⟨c, hrcb, hstep⟩ := Option.bind_eq_some_iff.1 hstep
    obtain ⟨-, hs⟩ := Option.ite_none_right_eq_some.1 hstep
    cases hs
    obtain ⟨-, j, hj, hp⟩ := h.reader c hrcb
    refine ⟨h.id, h.request, fun c' hw => ?_, nofun, h.cursor, h.conn, h.own⟩
    obtain ⟨-, j', hj', hp'⟩ := h.writer c' hw
    refine ⟨?_, j', hj', hp'⟩
    rintro ⟨⟩
    rw [hj] at hj'
    cases hj'
    exact hp hp'
  | answer reply =>
    obtain ⟨x, hnext, hstep⟩ := Option.bind_eq_some_iff.1 hstep
    obtain ⟨hreply, hs⟩ := Option.ite_none_right_eq_some.1 hstep
    cases hs
    exact h.answer hnext hreply hclear
  | next k last =>
    obtain ⟨ptr, -, hstep⟩ := Option.bind_eq_some_iff.1 hstep
    obtain ⟨-, hs⟩ := Option.ite_none_right_eq_some.1 hstep
    cases hs
    exact ⟨h.id, h.request, h.writer, h.reader, h.cursor.update (h.cursor k), h.conn, h.own⟩

/-! ## Every run -/

/-- **In every run whose steps are clear**, each call that has ended has had the reply to its own
    request, and leaves nothing of it. -/
theorem requests_served {finds : ℕ → Bytes × Bytes × Option Bytes}
    (hrun : run Client.step (.init finds) as = some s)
    (hclear : Along Client.step Client.Clear (.init finds) as) : s.Served := by
  have h : s.Inv := Lib.run_inv (fun _ _ _ h hc hstep => step_inv h hc hstep) (init_inv finds) hclear hrun
  exact ⟨h.own, fun c j hj hp => (h.conn.exchange hj hp).2, fun hsend => (h.conn.empty hsend).2⟩

/-- A reply to the first request, which has no documents. -/
def firstReply : Bytes :=
  int32 36 ++ int32 7 ++ int32 1 ++ int32 1 ++ int32 0 ++ int32 0 ++ int32 0 ++ int32 0 ++ int32 0

theorem firstReply_ends (table : Bool) : Ends (firstReply.drop 4) table := by
  -- there is nothing after the header
  have hstop : ∀ b, ¬ Goes (docNext (firstReply.drop 4)) HEADER b := fun b hb =>
    absurd (goes_iff.1 hb).1 (by decide)
  intro _ _ _ p hp
  rcases Relation.ReflTransGen.cases_head hp with rfl | ⟨b, hb, -⟩
  · refine ⟨header_inside _, fun hcycle => ?_⟩
    obtain ⟨b, hb, -⟩ := Relation.TransGen.head'_iff.1 hcycle
    exact hstop b hb
  · exact absurd hb (hstop b)

def noFinds : ℕ → Bytes × Bytes × Option Bytes := fun _ => ([], [], none)

/-- A coroutine asks, waits, and receives the reply in two parts. -/
def oneCall : List Act :=
  [.call 1 (.findOne [] none none), .sent 34, .recvBlocks, .answer firstReply, .readable,
    .recv 4, .recv 20, .recv 12]

set_option maxRecDepth 4000 in
theorem requests_served_oneCall :
    ∃ t, run Client.step (.init noFinds) oneCall = some t ∧
      t.ended.map (·.result) = [.decodes none] ∧ t.Served := by
  have hrun : run Client.step (.init noFinds) oneCall = some _ := rfl
  refine ⟨_, hrun, by decide +kernel, requests_served hrun ?_⟩
  have hone : (Client.init noFinds).id + 1 < 2 ^ 31 := by decide
  refine .cons hone rfl (.cons ?_ rfl (.cons trivial rfl (.cons ?_ rfl (.cons trivial rfl
    (.cons ?_ rfl (.cons ?_ rfl (.cons ?_ rfl trivial)))))))
  · rintro c j ⟨⟩ ⟨⟩
    refine ⟨by decide, by decide, fun c' j' hc hj' => ?_⟩
    change Function.update _ _ _ _ = _ at hj'
    rw [Function.update_of_ne hc] at hj'
    cases hj'
  · exact fun _ j _ _ => firstReply_ends j.table
  · exact fun _ _ _ _ _ => rfl
  · rintro c j ⟨⟩ ⟨⟩ hp
    cases hp
  · rintro c j ⟨⟩ ⟨⟩ hp
    cases hp

/-- The same is asked by two coroutines, one after another. -/
def twoCalls : List Act :=
  [.call 1 (.findOne [] none none), .sent 34, .recvBlocks, .call 2 (.findOne [] none none),
    .sent 34, .recvBlocks]

/-- The second one is refused the watcher, and raises an error without a reply. -/
theorem requests_not_served :
    ∃ t, run Client.step (.init noFinds) twoCalls = some t ∧
      t.ended.map (·.result) = [.noReply] ∧ ¬ t.Served := by
  have hrun : run Client.step (.init noFinds) twoCalls = some _ := rfl
  refine ⟨_, hrun, by decide, fun h => ?_⟩
  cases (h.own _ List.mem_cons_self).reply

end Levent.Mongo
