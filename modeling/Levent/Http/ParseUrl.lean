/-
  `parse_url` of `lua-http-parser.c`, with `http_parser_parse_url` of the vendored
  `http_parser.c`, which is compiled with `HTTP_PARSER_STRICT` as 0.

  The struct that the fields are written to is not initialized: what is read of a field
  that has not been set is undefined.
-/
import Levent.Lib.Run

namespace Levent.Http.ParseUrl

open Lib (run)

/-! ## Classes of characters -/

def LOWER (c : UInt8) : UInt8 := c ||| 0x20

def isAlpha (c : UInt8) : Bool := 97 ≤ LOWER c && LOWER c ≤ 122

def isNum (c : UInt8) : Bool := 48 ≤ c && c ≤ 57

def isAlphanum (c : UInt8) : Bool := isAlpha c || isNum c

def isHex (c : UInt8) : Bool := isNum c || (97 ≤ LOWER c && LOWER c ≤ 102)

/-- `- _ . ! ~ * ' ( )` -/
def isMark (c : UInt8) : Bool := [45, 95, 46, 33, 126, 42, 39, 40, 41].contains c

/-- Letters, digits, marks and `% ; : & = + $ ,` -/
def isUserinfoChar (c : UInt8) : Bool :=
  isAlphanum c || isMark c || [37, 59, 58, 38, 61, 43, 36, 44].contains c

/-- Letters, digits and `. - _` -/
def isHostChar (c : UInt8) : Bool := isAlphanum c || [46, 45, 95].contains c

/-- One bit for each character, as in the source; what is left out of the table is 0. -/
def normalUrlChar : List UInt8 :=
  [0,
    0 ||| 2 ||| 0 ||| 0 ||| 16 ||| 0 ||| 0 ||| 0,
    0,
    0,
    0 ||| 2 ||| 4 ||| 0 ||| 16 ||| 32 ||| 64 ||| 128,
    1 ||| 2 ||| 4 ||| 8 ||| 16 ||| 32 ||| 64 ||| 128,
    1 ||| 2 ||| 4 ||| 8 ||| 16 ||| 32 ||| 64 ||| 128,
    1 ||| 2 ||| 4 ||| 8 ||| 16 ||| 32 ||| 64 ||| 0,
    1 ||| 2 ||| 4 ||| 8 ||| 16 ||| 32 ||| 64 ||| 128,
    1 ||| 2 ||| 4 ||| 8 ||| 16 ||| 32 ||| 64 ||| 128,
    1 ||| 2 ||| 4 ||| 8 ||| 16 ||| 32 ||| 64 ||| 128,
    1 ||| 2 ||| 4 ||| 8 ||| 16 ||| 32 ||| 64 ||| 128,
    1 ||| 2 ||| 4 ||| 8 ||| 16 ||| 32 ||| 64 ||| 128,
    1 ||| 2 ||| 4 ||| 8 ||| 16 ||| 32 ||| 64 ||| 128,
    1 ||| 2 ||| 4 ||| 8 ||| 16 ||| 32 ||| 64 ||| 128,
    1 ||| 2 ||| 4 ||| 8 ||| 16 ||| 32 ||| 64 ||| 0]

/-- `BIT_AT` -/
def bitAt (a : List UInt8) (i : UInt8) : Bool := a.getD (i >>> 3).toNat 0 &&& (1 <<< (i &&& 7)) ≠ 0

def isUrlChar (c : UInt8) : Bool := bitAt normalUrlChar c || c &&& 0x80 ≠ 0

/-! ## The url -/

/-- `enum state`, of what `parse_url_char` knows -/
inductive UrlState where
  | dead | reqSpacesBeforeUrl | reqSchema | reqSchemaSlash | reqSchemaSlashSlash | reqServerStart | reqServer
  | reqServerWithAt | reqPath | reqQueryStringStart | reqQueryString | reqFragmentStart | reqFragment
  deriving DecidableEq

/-- The branch that three states of `parse_url_char` share. -/
def serverChar (ch : UInt8) : UrlState :=
  if ch = 47 then .reqPath
  else if ch = 63 then .reqQueryStringStart
  else if ch = 64 then .reqServerWithAt
  else if isUserinfoChar ch ∨ ch = 91 ∨ ch = 93 then .reqServer
  else .dead

/-- `parse_url_char` -/
def parseUrlChar (s : UrlState) (ch : UInt8) : UrlState :=
  if ch = 32 ∨ ch = 13 ∨ ch = 10 then .dead
  else
    match s with
    | .reqSpacesBeforeUrl =>
      if ch = 47 ∨ ch = 42 then .reqPath else if isAlpha ch then .reqSchema else .dead
    | .reqSchema => if isAlpha ch then .reqSchema else if ch = 58 then .reqSchemaSlash else .dead
    | .reqSchemaSlash => if ch = 47 then .reqSchemaSlashSlash else .dead
    | .reqSchemaSlashSlash => if ch = 47 then .reqServerStart else .dead
    | .reqServerWithAt => if ch = 64 then .dead else serverChar ch
    | .reqServerStart | .reqServer => serverChar ch
    | .reqPath =>
      if isUrlChar ch then .reqPath
      else if ch = 63 then .reqQueryStringStart
      else if ch = 35 then .reqFragmentStart
      else .dead
    | .reqQueryStringStart | .reqQueryString =>
      if isUrlChar ch then .reqQueryString
      else if ch = 63 then .reqQueryString
      else if ch = 35 then .reqFragmentStart
      else .dead
    | .reqFragmentStart =>
      if isUrlChar ch then .reqFragment
      else if ch = 63 then .reqFragment
      else if ch = 35 then .reqFragmentStart
      else .dead
    | .reqFragment =>
      if isUrlChar ch then .reqFragment else if ch = 63 ∨ ch = 35 then .reqFragment else .dead
    | .dead => .dead

/-- `enum http_parser_url_fields` -/
inductive UrlField where
  | schema | host | port | path | query | fragment | userinfo
  deriving DecidableEq

/-- `field_data`, offset and length, of the fields in `field_set`: both are `uint16_t` -/
abbrev FieldData := UrlField → Option (UInt16 × UInt16)

/-- The loop of `http_parser_parse_url` over the characters of `buf`. -/
structure Scan where
  s : UrlState
  p : ℕ
  oldUf : Option UrlField
  data : FieldData
  foundAt : Bool

/-- The loop begins. -/
def Scan.init (isConnect : Bool) : Scan :=
  ⟨if isConnect then .reqServerStart else .reqSpacesBeforeUrl, 0, none, fun _ => none, false⟩

/-- The character at `p` is one of the field `uf`. -/
def Scan.mark (u : Scan) (uf : UrlField) : Scan :=
  if u.oldUf = some uf then
    { u with data := Function.update u.data uf ((u.data uf).map fun (off, len) => (off, len + 1)) }
  else { u with data := Function.update u.data uf (some (UInt16.ofNat u.p, 1)), oldUf := some uf }

/-- One round of the loop; `none` where it returns 1. -/
def Scan.step (u : Scan) (ch : UInt8) : Option Scan :=
  let s := parseUrlChar u.s ch
  let next (u : Scan) : Option Scan := some { u with s := s, p := u.p + 1 }
  match s with
  | .dead => none
  | .reqSchemaSlash | .reqSchemaSlashSlash | .reqServerStart | .reqQueryStringStart | .reqFragmentStart => next u
  | .reqSchema => next (u.mark .schema)
  | .reqServerWithAt => next (Scan.mark { u with foundAt := true } .host)
  | .reqServer => next (u.mark .host)
  | .reqPath => next (u.mark .path)
  | .reqQueryString => next (u.mark .query)
  | .reqFragment => next (u.mark .fragment)
  | .reqSpacesBeforeUrl => none

/-! ## The host -/

/-- `enum http_host_state` -/
inductive HostState where
  | dead | userinfoStart | userinfo | hostStart | hostV6Start | host | hostV6 | hostV6End | hostPortStart | hostPort
  deriving DecidableEq

/-- `http_parse_host_char` -/
def parseHostChar (s : HostState) (ch : UInt8) : HostState :=
  match s with
  | .userinfo | .userinfoStart =>
    if ch = 64 then .hostStart else if isUserinfoChar ch then .userinfo else .dead
  | .hostStart => if ch = 91 then .hostV6Start else if isHostChar ch then .host else .dead
  | .host => if isHostChar ch then .host else if ch = 58 then .hostPortStart else .dead
  | .hostV6End => if ch = 58 then .hostPortStart else .dead
  | .hostV6 => if ch = 93 then .hostV6End else if isHex ch ∨ ch = 58 ∨ ch = 46 then .hostV6 else .dead
  | .hostV6Start => if isHex ch ∨ ch = 58 ∨ ch = 46 then .hostV6 else .dead
  | .hostPort | .hostPortStart => if isNum ch then .hostPort else .dead
  | .dead => .dead

/-- The loop of `http_parse_host`. -/
structure HostScan where
  s : HostState
  p : ℕ
  data : FieldData

/-- One round of the loop; `none` where it returns 1. -/
def HostScan.step (h : HostScan) (ch : UInt8) : Option HostScan :=
  let s := parseHostChar h.s ch
  let next (data : FieldData) : Option HostScan := some ⟨s, h.p + 1, data⟩
  -- the length of the host has been set to 0 before the loop, that of the others is here
  let host (d : UInt16 × UInt16) : UInt16 × UInt16 := (if h.s ≠ s then UInt16.ofNat h.p else d.1, d.2 + 1)
  let other (d : Option (UInt16 × UInt16)) : Option (UInt16 × UInt16) :=
    if h.s ≠ s then some (UInt16.ofNat h.p, 1) else d.map fun (off, len) => (off, len + 1)
  match s with
  | .dead => none
  | .host | .hostV6 => next (Function.update h.data .host ((h.data .host).map host))
  | .hostPort => next (Function.update h.data .port (other (h.data .port)))
  | .userinfo => next (Function.update h.data .userinfo (other (h.data .userinfo)))
  | .userinfoStart | .hostStart | .hostV6Start | .hostV6End | .hostPortStart => next h.data

/-- The states that the host must not end in. -/
def HostState.Unfinished : HostState → Bool
  | .hostStart | .hostV6Start | .hostV6 | .hostPortStart | .userinfo | .userinfoStart => true
  | _ => false

/-- What a call gives back: `undefined` if it reads what has not been initialized, `error`
    if it returns 1. -/
inductive Result (α : Type) where
  | undefined
  | error
  | ok (a : α)
  deriving DecidableEq

def Result.bind {α β : Type} (r : Result α) (f : α → Result β) : Result β :=
  match r with
  | .undefined => .undefined
  | .error => .error
  | .ok a => f a

/-- `http_parse_host` -/
def parseHost (buf : List UInt8) (data : FieldData) (foundAt : Bool) : Result FieldData :=
  match data .host with
  | none => .undefined
  | some (off, len) =>
    let h : HostScan := ⟨if foundAt then .userinfoStart else .hostStart, off.toNat,
      Function.update data .host (some (off, 0))⟩
    match run HostScan.step h ((buf.drop off.toNat).take len.toNat) with
    | none => .error
    | some h => if h.s.Unfinished then .error else .ok h.data

/-! ## The whole -/

/-- The number that the digits are. -/
def number (digits : List UInt8) : ℕ := digits.foldl (fun v c => 10 * v + (c.toNat - 48)) 0

/-- `isspace` -/
def isSpace (c : UInt8) : Bool := c = 32 || (9 ≤ c && c ≤ 13)

/-- `strtoul` with the base 10; `unsigned long` has 64 bits. -/
def strtoul (s : List UInt8) : ℕ :=
  let value (negative : Bool) (s : List UInt8) : ℕ :=
    let v := number (s.takeWhile isNum)
    if 0xffffffffffffffff < v then 0xffffffffffffffff
    else if negative then (0x10000000000000000 - v) % 0x10000000000000000
    else v
  let s := s.dropWhile isSpace
  if s.head? = some 45 then value true s.tail
  else if s.head? = some 43 then value false s.tail
  else value false s

def fieldSet (data : FieldData) : List UrlField :=
  [.schema, .host, .port, .path, .query, .fragment, .userinfo].filter fun uf => (data uf).isSome

/-- `struct http_parser_url` -/
structure UrlInfo where
  data : FieldData
  port : ℕ

/-- `http_parser_parse_url` -/
def httpParserParseUrl (buf : List UInt8) (isConnect : Bool) : Result UrlInfo :=
  match run Scan.step (Scan.init isConnect) buf with
  | none => .error
  | some u =>
    let host :=
      if (u.data .schema).isSome ∨ (u.data .host).isSome then parseHost buf u.data u.foundAt
      else .ok u.data
    host.bind fun data =>
      if isConnect ∧ fieldSet data ≠ [.host, .port] then .error
      else
        match data .port with
        | none => .ok ⟨data, 0⟩
        | some (off, _) =>
          let v := strtoul (buf.drop off.toNat)
          if 0xffff < v then .error else .ok ⟨data, v⟩

/-- The table that `parse_url` returns. -/
structure UrlTable where
  schema : Option (List UInt8)
  host : Option (List UInt8)
  requestPath : Option (List UInt8)
  queryString : Option (List UInt8)
  fragment : Option (List UInt8)
  userinfo : Option (List UInt8)
  port : Option ℕ
  deriving DecidableEq

/-- The characters of a field. -/
def slice (buf : List UInt8) (d : UInt16 × UInt16) : List UInt8 := (buf.drop d.1.toNat).take d.2.toNat

/-- `lparse_url`, which returns nothing on an error -/
def lparseUrl (buf : List UInt8) (isConnect : Bool) : Result UrlTable :=
  (httpParserParseUrl buf isConnect).bind fun u =>
    let field (uf : UrlField) : Option (List UInt8) := (u.data uf).map (slice buf)
    .ok ⟨field .schema, field .host, field .path, field .query, field .fragment, field .userinfo,
      if u.port ≠ 0 then some u.port else none⟩

end Levent.Http.ParseUrl
