/-
  The messages that are sent: `http/request.lua` and `http/response_writer.lua`.

  A request is made for a url that `parse_url` has taken apart.  The data of a message
  may be a table, which is given by its entries in the order of `pairs`.
-/
import Levent.Http.Query

namespace Levent.Http

open Lib (Lua Stop)

/-! ## Tables of header fields -/

/-- The value of a field: a string, or the number that `pack` puts in. -/
inductive FieldValue where
  | str (s : List UInt8)
  | num (n : ℕ)
  deriving DecidableEq

/-- How the value is written. -/
def FieldValue.text : FieldValue → List UInt8
  | .str s => s
  | .num n => ascii (toString n)

/-- A table of fields, each of which has one value. -/
structure Fields where
  entries : List (List UInt8 × FieldValue)
  nodup : (entries.map Prod.fst).Nodup

def Fields.empty : Fields := ⟨[], List.nodup_nil⟩

/-- `headers[name]` -/
def Fields.get (t : Fields) (name : List UInt8) : Option FieldValue :=
  (t.entries.find? (·.1 = name)).map Prod.snd

/-- `headers[name] = value` -/
def Fields.set (t : Fields) (name : List UInt8) (value : FieldValue) : Fields where
  entries := (name, value) :: t.entries.filter (·.1 ≠ name)
  nodup := by
    rw [List.map_cons, List.nodup_cons]
    refine ⟨fun h => ?_, t.nodup.sublist (List.filter_sublist.map _)⟩
    obtain ⟨e, he, hname⟩ := List.mem_map.1 h
    exact absurd hname (by simpa using (List.mem_filter.1 he).2)

/-- The loops of `request:add_headers` and `response_writer:set_headers` over a table
    with the entries `headers`. -/
def Fields.add (t : Fields) (headers : List (List UInt8 × List UInt8)) : Fields :=
  headers.foldl (fun t (k, v) => t.set (canonicalHeaderKey k) (.str v)) t

/-- An order in which `pairs` goes through the entries of a table. -/
structure Order where
  pairs : List (List UInt8 × FieldValue) → List (List UInt8 × FieldValue)
  perm : ∀ l, (pairs l).Perm l

section
variable {t : Fields} {name name' : List UInt8} {value : FieldValue}

@[simp] theorem Fields.get_set_self : (t.set name value).get name = some value := by
  simp [Fields.get, Fields.set]

theorem Fields.get_set_ne (h : name ≠ name') : (t.set name value).get name' = t.get name' := by
  unfold Fields.get Fields.set
  rw [List.find?_cons_of_neg (by simpa using h), List.find?_filter]
  congr 2
  funext e
  by_cases he : e.1 = name'
  · simp [he, Ne.symm h]
  · simp [he]

theorem Fields.mem_iff : (name, value) ∈ t.entries ↔ t.get name = some value := by
  obtain ⟨entries, hnodup⟩ := t
  unfold Fields.get
  dsimp only
  induction entries with
  | nil => simp
  | cons e entries ih =>
    rw [List.map_cons, List.nodup_cons] at hnodup
    rw [List.mem_cons, ih hnodup.2]
    by_cases he : e.1 = name
    · subst he
      have hnone : entries.find? (·.1 = e.1) = none := by
        rw [List.find?_eq_none]
        exact fun x hx hxe => hnodup.1 (List.mem_map.2 ⟨x, hx, of_decide_eq_true hxe⟩)
      rw [hnone, List.find?_cons_of_pos (by simp)]
      constructor
      · rintro (h | h)
        · exact congrArg (fun x => some x.2) h.symm
        · cases h
      · exact fun h => .inl (Prod.ext rfl (Option.some_inj.1 h).symm)
    · have hne : (name, value) ≠ e := fun h => he (h ▸ rfl)
      simp [he, hne]

end

/-! ## Messages -/

def CRLF : List UInt8 := [13, 10]

/-- The data of a message. -/
inductive Data where
  | text (s : List UInt8)
  | table (entries : List (List UInt8 × List UInt8))

/-- `payload`, which is empty if there is no data -/
def payloadOf : Option Data → List UInt8
  | none => []
  | some (.text s) => s
  | some (.table entries) => encodeQueryString (some entries)

/-- What `pack` puts together: the start line, the fields in the order of `pairs`, and
    the payload. -/
structure Packed where
  start : List UInt8
  fields : List (List UInt8 × FieldValue)
  payload : List UInt8

/-- `string.format("%s: %s", k, v)` -/
def fieldLine (name : List UInt8) (value : FieldValue) : List UInt8 := name ++ ascii ": " ++ value.text

/-- `table.concat(t, "\r\n")` -/
def Packed.text (m : Packed) : List UInt8 :=
  CRLF.intercalate (m.start :: m.fields.map (fun (k, v) => fieldLine k v) ++ [CRLF ++ m.payload])

def contentLength : List UInt8 := ascii "Content-Length"

/-! ## request.lua -/

structure Request where
  method : Option (List UInt8)
  path : Option (List UInt8)
  queryString : Option (List UInt8)
  data : Option Data
  headers : Fields

def HTTP_AGENT : List UInt8 := ascii "levent/1.0"
def HTTP_ABS_PATH : List UInt8 := ascii "/"

def HTTP_METHODS : List (List UInt8) :=
  ["OPTIONS", "GET", "HEAD", "POST", "PUT", "DELETE"].map ascii

/-- `request:add_headers` -/
def Request.addHeaders (r : Request) (headers : Option (List (List UInt8 × List UInt8))) : Request :=
  match headers with
  | none => r
  | some headers => { r with headers := r.headers.add headers }

/-- `request.new`, for a url with a host, and perhaps a path and a query string -/
def Request.new (method : Option (List UInt8)) (host : List UInt8) (path queryString : Option (List UInt8))
    (data : Option Data) (headers : Option (List (List UInt8 × List UInt8))) : Request :=
  let base := ((Fields.empty.set (ascii "Host") (.str host)).set (ascii "User-Agent") (.str HTTP_AGENT)).set
    (ascii "Accept") (.str (ascii "*/*"))
  Request.addHeaders ⟨method, path, queryString, data, base⟩ headers

/-- `request:set_method` -/
def Request.setMethod (r : Request) (method : List UInt8) : Lua Request :=
  if method ∈ HTTP_METHODS then .ok { r with method := some method }
  else .error (.raised (String.ofList (method.map fun c => Char.ofNat c.toNat)))

/-- `request:get_method` -/
def Request.getMethod (r : Request) : List UInt8 :=
  match r.method with
  | some method => method
  | none => if r.data.isSome then ascii "POST" else ascii "GET"

/-- `request:set_path` -/
def Request.setPath (r : Request) (path : Option (List UInt8)) : Request := { r with path := path }

/-- `request:set_query_string` -/
def Request.setQueryString (r : Request) (queryString : Option (List UInt8)) : Request :=
  { r with queryString := queryString }

/-- `request:set_data` -/
def Request.setData (r : Request) (data : Option (List UInt8)) : Request :=
  match data with
  | none => r
  | some data => { r with data := some (.text data) }

/-- The start line that `request:pack` writes. -/
def Request.start (r : Request) : List UInt8 :=
  let path := r.path.getD HTTP_ABS_PATH
  let path :=
    match r.queryString with
    | some q => path ++ ascii "?" ++ q
    | none => path
  r.getMethod ++ ascii " " ++ path ++ ascii " HTTP/1.1"

/-- The table that `request:pack` leaves. -/
def Request.packHeaders (r : Request) : Fields :=
  let len := (payloadOf r.data).length
  if 0 < len ∧ r.headers.get contentLength = none then r.headers.set contentLength (.num len)
  else r.headers

/-- `request:pack` -/
def Request.pack (r : Request) (order : Order) : Packed × Request :=
  let headers := r.packHeaders
  (⟨r.start, order.pairs headers.entries, payloadOf r.data⟩, { r with headers := headers })

/-! ## response_writer.lua -/

def httpStatusMsg : List (ℕ × String) :=
  [(100, "Continue"), (101, "Switching Protocols"), (200, "OK"), (201, "Created"), (202, "Accepted"),
    (203, "Non-Authoritative Information"), (204, "No Content"), (205, "Reset Content"),
    (206, "Partial Content"), (300, "Multiple Choices"), (301, "Moved Permanently"), (302, "Found"),
    (303, "See Other"), (304, "Not Modified"), (305, "Use Proxy"), (307, "Temporary Redirect"),
    (400, "Bad Request"), (401, "Unauthorized"), (402, "Payment Required"), (403, "Forbidden"),
    (404, "Not Found"), (405, "Method Not Allowed"), (406, "Not Acceptable"),
    (407, "Proxy Authentication Required"), (408, "Request Time-out"), (409, "Conflict"), (410, "Gone"),
    (411, "Length Required"), (412, "Precondition Failed"), (413, "Request Entity Too Large"),
    (414, "Request-URI Too Large"), (415, "Unsupported Media Type"),
    (416, "Requested range not satisfiable"), (417, "Expectation Failed"),
    (500, "Internal Server Error"), (501, "Not Implemented"), (502, "Bad Gateway"),
    (503, "Service Unavailable"), (504, "Gateway Time-out"), (505, "HTTP Version not supported")]

/-- A code with its message. -/
abbrev Status := { e : ℕ × String // e ∈ httpStatusMsg }

structure ResponseWriter where
  code : Option Status
  data : Option Data
  headers : Fields

/-- `response_writer.new` -/
def ResponseWriter.new : ResponseWriter := ⟨none, none, Fields.empty⟩

/-- `response_writer:set_header` -/
def ResponseWriter.setHeader (w : ResponseWriter) (header value : List UInt8) : ResponseWriter :=
  { w with headers := w.headers.add [(header, value)] }

/-- `response_writer:set_headers` -/
def ResponseWriter.setHeaders (w : ResponseWriter) (headers : Option (List (List UInt8 × List UInt8))) :
    ResponseWriter :=
  match headers with
  | none => w
  | some headers => { w with headers := w.headers.add headers }

/-- `response_writer:set_code` -/
def ResponseWriter.setCode (w : ResponseWriter) (code : ℕ) : Lua ResponseWriter :=
  match httpStatusMsg.attach.find? (·.1.1 = code) with
  | some status => .ok { w with code := some status }
  | none => .error (.raised (toString code))

/-- `response_writer:set_data` -/
def ResponseWriter.setData (w : ResponseWriter) (data : Option Data) : ResponseWriter :=
  { w with data := data }

/-- The start line of a response: without a code it is 200. -/
def ResponseWriter.start (w : ResponseWriter) : List UInt8 :=
  let (code, msg) := (w.code.map Subtype.val).getD (200, "OK")
  ascii "HTTP/1.1 " ++ ascii (toString code) ++ ascii " " ++ ascii msg

/-- `headers[name] = value`, if there is none -/
def Fields.setDefault (t : Fields) (name : List UInt8) (value : FieldValue) : Fields :=
  if t.get name = none then t.set name value else t

/-- The table that `response_writer:pack` leaves at the date `date`. -/
def ResponseWriter.packHeaders (w : ResponseWriter) (date : List UInt8) : Fields :=
  let headers := w.headers.set (ascii "Date") (.str date)
  let headers := headers.setDefault (ascii "Content-Type") (.str (ascii "text/plain"))
  headers.setDefault contentLength (.num (payloadOf w.data).length)

/-- `response_writer:pack` -/
def ResponseWriter.pack (w : ResponseWriter) (order : Order) (date : List UInt8) :
    Packed × ResponseWriter :=
  let headers := w.packHeaders date
  (⟨w.start, order.pairs headers.entries, payloadOf w.data⟩, { w with headers := headers })

end Levent.Http
