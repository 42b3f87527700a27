/-
  `lua-http-parser.c`: the callbacks of the vendored parser put a message into a
  Lua table.  The lines of the header go to the entries 1, 2, ... of the table,
  a name and its value by turns, until `on_message_complete` makes `headers` of
  them.

  What is assumed of the vendored parser is the order of its callbacks
  (`Message.Emits`); it may give the data of each in any number of pieces.
-/
import Levent.Http.Client

namespace Levent.Http

open Lib (Lua)

/-! ## Callbacks -/

/-- The fields of `http_parser` that the callbacks read, with the results of
    `http_method_str` and `http_should_keep_alive`. -/
structure HttpParser where
  httpMajor : ℕ
  httpMinor : ℕ
  method : String
  statusCode : ℕ
  upgrade : Bool
  keepAlive : Bool

/-- The table of a message; `entries` are those with the keys 1, 2, ... -/
structure Table where
  complete : Option Bool
  isRequest : Option Bool
  method : Option String
  requestUrl : Option (List UInt8)
  status : Option (List UInt8)
  statusCode : Option ℕ
  headers : Option Headers
  body : Option (List UInt8)
  keepalive : Option Bool
  upgrade : Option Bool
  httpMajor : Option ℕ
  httpMinor : Option ℕ
  entries : List (List UInt8)

/-- `{}` -/
def Table.empty : Table :=
  ⟨none, none, none, none, none, none, none, none, none, none, none, none, []⟩

/-- A field gets its first piece, or one more. -/
def extend (old : Option (List UInt8)) (data : List UInt8) : List UInt8 :=
  match old with
  | none => data
  | some s => s ++ data

variable (t : Table)

/-- `on_message_begin` -/
def onMessageBegin : Table := { t with complete := some false }

/-- `on_url` -/
def onUrl (data : List UInt8) : Table :=
  { t with requestUrl := some (extend t.requestUrl data), isRequest := some true }

/-- `on_status` -/
def onStatus (data : List UInt8) : Table := { t with status := some (extend t.status data) }

/-- `on_body` -/
def onBody (data : List UInt8) : Table := { t with body := some (extend t.body data) }

/-- A piece of a header line begins a new entry, or goes to the last one; the entry 0
    is nil. -/
def onEntry (fresh : Bool) (data : List UInt8) : Lua Table :=
  if fresh then .ok { t with entries := t.entries ++ [data] }
  else
    match t.entries.getLast? with
    | some last => .ok { t with entries := t.entries.dropLast ++ [last ++ data] }
    | none => .error (.raised "attempt to concatenate a nil value")

/-- `on_header_field` -/
def onHeaderField (data : List UInt8) : Lua Table := onEntry t (t.entries.length % 2 = 0) data

/-- `on_header_value` -/
def onHeaderValue (data : List UInt8) : Lua Table := onEntry t (t.entries.length % 2 ≠ 0) data

/-- `on_headers_complete` -/
def onHeadersComplete (parser : HttpParser) : Table :=
  let t := { t with httpMajor := some parser.httpMajor, httpMinor := some parser.httpMinor }
  if t.isRequest = some true then { t with method := some parser.method }
  else { t with statusCode := some parser.statusCode }

/-- The loop of `on_message_complete`: the entries go to `headers`, two by two. -/
def composeHeaders (headers : Headers) : List (List UInt8) → Headers × List (List UInt8)
  | field :: value :: entries => composeHeaders (Function.update headers field (some value)) entries
  | entries => (headers, entries)

/-- `on_message_complete` -/
def onMessageComplete (parser : HttpParser) : Table :=
  if t.entries.length % 2 ≠ 0 then t
  else
    let (headers, entries) := composeHeaders (t.headers.getD fun _ => none) t.entries
    { t with
      headers := some headers
      entries := entries
      upgrade := if parser.upgrade then some true else t.upgrade
      keepalive := some parser.keepAlive
      complete := some true }

/-- A callback, with what the parser gives it. -/
inductive Callback where
  | messageBegin
  | url (data : List UInt8)
  | status (data : List UInt8)
  | headerField (data : List UInt8)
  | headerValue (data : List UInt8)
  | headersComplete (parser : HttpParser)
  | body (data : List UInt8)
  | messageComplete (parser : HttpParser)

def Callback.run : Callback → Lua Table
  | .messageBegin => .ok (onMessageBegin t)
  | .url data => .ok (onUrl t data)
  | .status data => .ok (onStatus t data)
  | .headerField data => onHeaderField t data
  | .headerValue data => onHeaderValue t data
  | .headersComplete parser => .ok (onHeadersComplete t parser)
  | .body data => .ok (onBody t data)
  | .messageComplete parser => .ok (onMessageComplete t parser)

/-- The callbacks of a message, one after another. -/
def build (cbs : List Callback) : Lua Table := cbs.foldlM Callback.run t

/-! ## Messages -/

/-- A message as the parser finds it: its data, and the parser's fields where the
    header and the message end. -/
structure Message where
  url : Option (List UInt8)
  status : Option (List UInt8)
  headers : List (List UInt8 × List UInt8)
  head : HttpParser
  body : Option (List UInt8)
  trailers : List (List UInt8 × List UInt8)
  tail : HttpParser

/-- `data` in one or more pieces. -/
structure Pieces (pieces : List (List UInt8)) (data : List UInt8) : Prop where
  nonempty : pieces ≠ []
  flatten : pieces.flatten = data

/-- Data that is there comes in pieces to its callback. -/
inductive Cuts (cb : List UInt8 → Callback) : Option (List UInt8) → List Callback → Prop
  | absent : Cuts cb none []
  | given {pieces data} : Pieces pieces data → Cuts cb (some data) (pieces.map cb)

/-- Each line comes as pieces of its name, then pieces of its value. -/
inductive Lines : List (List UInt8 × List UInt8) → List Callback → Prop
  | nil : Lines [] []
  | cons {fields values field value lines cbs} : Pieces fields field → Pieces values value →
      Lines lines cbs → Lines ((field, value) :: lines)
        (fields.map .headerField ++ (values.map .headerValue ++ cbs))

/-- The callbacks `cbs` are those of the message, its data cut somehow. -/
inductive Message.Emits (m : Message) : List Callback → Prop
  | mk {us ss hs bs ts} : Cuts .url m.url us → Cuts .status m.status ss → Lines m.headers hs →
      Cuts .body m.body bs → Lines m.trailers ts →
      Emits m (.messageBegin :: (us ++ (ss ++ (hs ++ (.headersComplete m.head ::
        (bs ++ (ts ++ [.messageComplete m.tail])))))))

/-- The last value of a name. -/
def lastValue (lines : List (List UInt8 × List UInt8)) : Headers := fun name =>
  lines.reverse.lookup name

/-- The table of a message. -/
def Message.table (m : Message) : Table where
  complete := some true
  isRequest := m.url.map fun _ => true
  method := m.url.map fun _ => m.head.method
  requestUrl := m.url
  status := m.status
  statusCode := if m.url.isSome then none else some m.head.statusCode
  headers := some (lastValue (m.headers ++ m.trailers))
  body := m.body
  keepalive := some m.tail.keepAlive
  upgrade := if m.tail.upgrade then some true else none
  httpMajor := some m.head.httpMajor
  httpMinor := some m.head.httpMinor
  entries := []

/-! ## Pieces -/

variable {t : Table} {cb : List UInt8 → Callback} {cbs cbs' : List Callback} {m : Message}
  {pieces : List (List UInt8)} {data : List UInt8} {lines : List (List UInt8 × List UInt8)}

@[simp] theorem build_cons (c : Callback) : build t (c :: cbs) = c.run t >>= fun t => build t cbs := rfl

theorem build_append {t' : Table} (h : build t cbs = .ok t') : build t (cbs ++ cbs') = build t' cbs' := by
  unfold build at h ⊢
  rw [List.foldlM_append, h]
  rfl

/-- **Pieces make up the whole**: a callback that begins with the data of its first
    piece and adds the others to it. -/
theorem Pieces.build {F : List UInt8 → Table} (h : Pieces pieces data)
    (hfirst : ∀ d, (cb d).run t = .ok (F d)) (hnext : ∀ s d, (cb d).run (F s) = .ok (F (s ++ d))) :
    build t (pieces.map cb) = .ok (F data) := by
  have hmore : ∀ (pieces : List (List UInt8)) s,
      Http.build (F s) (pieces.map cb) = .ok (F (s ++ pieces.flatten)) := by
    intro pieces
    induction pieces with
    | nil =>
      intro s
      rw [List.flatten_nil, List.append_nil]
      rfl
    | cons d pieces ih =>
      intro s
      rw [List.map_cons, build_cons, hnext, List.flatten_cons, ← List.append_assoc]
      exact ih (s ++ d)
  obtain ⟨hne, rfl⟩ := h
  cases pieces with
  | nil => exact absurd rfl hne
  | cons d pieces =>
    rw [List.map_cons, build_cons, hfirst, List.flatten_cons]
    exact hmore pieces d

theorem Cuts.build {F : Option (List UInt8) → Table} {item : Option (List UInt8)} (h : Cuts cb item cbs)
    (hfirst : ∀ d, (cb d).run (F none) = .ok (F (some d)))
    (hnext : ∀ s d, (cb d).run (F (some s)) = .ok (F (some (s ++ d)))) :
    build (F none) cbs = .ok (F item) := by
  cases h with
  | absent => rfl
  | given hp => exact hp.build hfirst hnext

/-! ## Header lines -/

/-- The entries of header lines. -/
def entriesOf (lines : List (List UInt8 × List UInt8)) : List (List UInt8) :=
  lines.flatMap fun (field, value) => [field, value]

theorem entriesOf_append (lines lines' : List (List UInt8 × List UInt8)) :
    entriesOf (lines ++ lines') = entriesOf lines ++ entriesOf lines' := List.flatMap_append

theorem entriesOf_even (lines : List (List UInt8 × List UInt8)) : (entriesOf lines).length % 2 = 0 := by
  induction lines with
  | nil => rfl
  | cons l lines ih =>
    simp only [entriesOf, List.flatMap_cons, List.length_append, List.length_cons, List.length_nil] at ih ⊢
    omega

/-- **The parity of the entries tells names from values**: at a line they are even,
    within it odd, until its value has begun. -/
theorem Lines.build (h : Lines lines cbs) (heven : t.entries.length % 2 = 0) :
    build t cbs = .ok { t with entries := t.entries ++ entriesOf lines } := by
  induction h generalizing t with
  | nil =>
    rw [entriesOf, List.flatMap_nil, List.append_nil]
    rfl
  | @cons fields values field value lines cbs hf hv _ ih =>
    have hfield : Http.build t (fields.map .headerField) = .ok { t with entries := t.entries ++ [field] } := by
      refine hf.build (F := fun s => { t with entries := t.entries ++ [s] }) (fun d => ?_) fun s d => ?_
      · simp [Callback.run, onHeaderField, onEntry, heven]
      · have hodd : ¬ (t.entries.length + 1) % 2 = 0 := by omega
        simp [Callback.run, onHeaderField, onEntry, hodd]
    have hvalue : Http.build { t with entries := t.entries ++ [field] } (values.map .headerValue) =
        .ok { t with entries := t.entries ++ [field, value] } := by
      refine hv.build (F := fun s => { t with entries := t.entries ++ [field, s] }) (fun d => ?_)
        fun s d => ?_
      · have hodd : (t.entries.length + 1) % 2 ≠ 0 := by omega
        simp [Callback.run, onHeaderValue, onEntry, hodd]
      · have heven' : (t.entries.length + 2) % 2 = 0 := by omega
        simp [Callback.run, onHeaderValue, onEntry, heven', List.getLast?_append]
    rw [build_append hfield, build_append hvalue, ih]
    · simp [entriesOf]
    · simp only [List.length_append, List.length_cons, List.length_nil]
      omega

theorem lastValue_cons (l : List UInt8 × List UInt8) (lines : List (List UInt8 × List UInt8))
    (name : List UInt8) : lastValue (l :: lines) name =
      (lastValue lines name).or (if name = l.1 then some l.2 else none) := by
  rw [lastValue, List.reverse_cons, List.lookup_append]
  congr 1
  by_cases hn : name = l.1
  · rw [if_pos hn, List.lookup_cons, beq_iff_eq.2 hn]
  · rw [if_neg hn, List.lookup_cons, beq_false_of_ne hn]
    rfl

/-- The loop leaves no entry behind, and keeps the last value of each name. -/
theorem composeHeaders_entriesOf (headers : Headers) (lines : List (List UInt8 × List UInt8)) :
    composeHeaders headers (entriesOf lines) =
      (fun name => (lastValue lines name).or (headers name), []) := by
  induction lines generalizing headers with
  | nil => rfl
  | cons l lines ih =>
    obtain ⟨field, value⟩ := l
    show composeHeaders (Function.update headers field (some value)) (entriesOf lines) = _
    rw [ih]
    refine Prod.ext (funext fun name => ?_) rfl
    dsimp only
    rw [lastValue_cons]
    by_cases hn : name = field
    · subst hn
      simp
    · simp [hn]

/-! ## The table -/

/-- The table before the end of the header. -/
def openTable (url status : Option (List UInt8)) (entries : List (List UInt8)) : Table :=
  { Table.empty with
    complete := some false
    isRequest := url.map fun _ => true
    requestUrl := url
    status := status
    entries := entries }

/-- The table after the end of the header. -/
def Message.headed (m : Message) (body : Option (List UInt8)) (entries : List (List UInt8)) : Table :=
  { openTable m.url m.status entries with
    method := m.url.map fun _ => m.head.method
    statusCode := if m.url.isSome then none else some m.head.statusCode
    body := body
    httpMajor := some m.head.httpMajor
    httpMinor := some m.head.httpMinor }

theorem onHeadersComplete_openTable (m : Message) (entries : List (List UInt8)) :
    onHeadersComplete (openTable m.url m.status entries) m.head = m.headed none entries := by
  unfold Message.headed
  cases m.url <;> rfl

theorem onMessageComplete_headed (m : Message) :
    onMessageComplete (m.headed m.body (entriesOf (m.headers ++ m.trailers))) m.tail = m.table := by
  have hlast : (fun name => (lastValue (m.headers ++ m.trailers) name).or none) =
      lastValue (m.headers ++ m.trailers) := funext fun name => Option.or_none
  unfold onMessageComplete
  rw [if_neg (fun h => h (entriesOf_even _))]
  dsimp only [Message.headed, openTable, Table.empty, Option.getD]
  rw [composeHeaders_entriesOf, hlast]
  rfl

/-- **The callbacks of a message make its table**, however its data is cut. -/
theorem Message.Emits.build (h : m.Emits cbs) : build Table.empty cbs = .ok m.table := by
  obtain ⟨hu, hs, hh, hb, ht⟩ := h
  have hurl := hu.build (F := fun url => openTable url none []) (fun _ => rfl) fun _ _ => rfl
  have hstatus := hs.build (F := fun status => openTable m.url status []) (fun _ => rfl) fun _ _ => rfl
  have hlines := hh.build (t := openTable m.url m.status []) rfl
  have hbody := hb.build (F := fun body => m.headed body (entriesOf m.headers)) (fun _ => rfl) fun _ _ => rfl
  have htrail := ht.build (t := m.headed m.body (entriesOf m.headers)) (entriesOf_even _)
  calc Http.build Table.empty _
    _ = Http.build (openTable none none []) _ := rfl
    _ = Http.build (m.headed none (entriesOf m.headers)) _ := by
      rw [build_append hurl, build_append hstatus, build_append hlines, build_cons]
      show Http.build (onHeadersComplete (openTable m.url m.status (entriesOf m.headers)) m.head) _ = _
      rw [onHeadersComplete_openTable]
    _ = .ok (onMessageComplete (m.headed m.body (entriesOf (m.headers ++ m.trailers))) m.tail) := by
      rw [build_append hbody, build_append htrail, entriesOf_append]
      rfl
    _ = .ok m.table := by rw [onMessageComplete_headed]

/-- **The table does not depend on how the data of the message is cut.** -/
theorem build_emits (h : m.Emits cbs) (h' : m.Emits cbs') :
    ∃ t headers, build Table.empty cbs = .ok t ∧ build Table.empty cbs' = .ok t ∧
      t.requestUrl = m.url ∧ t.status = m.status ∧ t.body = m.body ∧
      t.headers = some headers ∧ (∀ name, headers name = lastValue (m.headers ++ m.trailers) name) ∧
      t.complete = some true ∧ t.entries = [] :=
  ⟨m.table, _, h.build, h'.build, rfl, rfl, rfl, rfl, fun _ => rfl, rfl, rfl⟩

/-- A response with a name that comes twice, the second time in a trailer. -/
def twice : Message where
  url := none
  status := some (ascii "OK")
  headers := [(ascii "X", ascii "1")]
  head := ⟨1, 1, "", 200, false, true⟩
  body := some (ascii "ab")
  trailers := [(ascii "X", [])]
  tail := ⟨1, 1, "", 200, false, true⟩

/-- Its data in one piece each, and byte by byte. -/
theorem build_emits_twice :
    ∃ t headers, build Table.empty [.messageBegin, .status (ascii "OK"), .headerField (ascii "X"),
          .headerValue (ascii "1"), .headersComplete twice.head, .body (ascii "ab"),
          .headerField (ascii "X"), .headerValue [], .messageComplete twice.tail] = .ok t ∧
      build Table.empty [.messageBegin, .status (ascii "O"), .status (ascii "K"), .headerField (ascii "X"),
          .headerValue [], .headerValue (ascii "1"), .headersComplete twice.head, .body (ascii "a"),
          .body (ascii "b"), .headerField (ascii "X"), .headerValue [], .messageComplete twice.tail] = .ok t ∧
      t.headers = some headers ∧ headers (ascii "X") = some [] := by
  have hone : ∀ data, Pieces [data] data := fun data => ⟨by simp, by simp⟩
  have htwo : ∀ a b, Pieces [a, b] (a ++ b) := fun a b => ⟨by simp, by simp⟩
  have hx : Lines twice.trailers [.headerField (ascii "X"), .headerValue []] := .cons (hone _) (hone _) .nil
  obtain ⟨t, headers, h, h', -, -, -, hh, hlast, -⟩ := build_emits (m := twice)
    (.mk .absent (.given (hone _)) (.cons (hone _) (hone _) .nil) (.given (hone _)) hx)
    (.mk .absent (.given (htwo (ascii "O") (ascii "K"))) (.cons (hone _) (htwo [] _) .nil)
      (.given (htwo (ascii "a") (ascii "b"))) hx)
  exact ⟨t, headers, h, h', hh, by rw [hlast]; rfl⟩

end Levent.Http
