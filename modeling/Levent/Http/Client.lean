/-
  `client:get_response` of `http/client.lua`, with `response.new` and
  `util.canonical_header_key`.

  Strings are bytes, and letters those of ASCII.
-/
import Levent.Http.Message

namespace Levent.Http

open Lib (Lua)

/-- The bytes of a literal. -/
def ascii (s : String) : List UInt8 := s.toList.map fun c => UInt8.ofNat c.toNat

/-- `string.lower` of a letter -/
def toLower (c : UInt8) : UInt8 := if 65 ≤ c ∧ c ≤ 90 then c + 32 else c

/-- `string.upper` of a letter -/
def toUpper (c : UInt8) : UInt8 := if 97 ≤ c ∧ c ≤ 122 then c - 32 else c

def lower (s : List UInt8) : List UInt8 := s.map toLower

/-- `gsub("%f[^\0%-]%l", string.upper)`: a letter is a match after `prev` if that
    is `\0`, as before the first one, or `-`. -/
def upperInitials : UInt8 → List UInt8 → List UInt8
  | _, [] => []
  | prev, c :: s => (if prev = 0 ∨ prev = 45 then toUpper c else c) :: upperInitials c s

/-- `util.canonical_header_key` -/
def canonicalHeaderKey (key : List UInt8) : List UInt8 := upperInitials 0 (lower key)

/-- A table of header fields. -/
abbrev Headers := List UInt8 → Option (List UInt8)

/-- What a parser puts into `msg`, of what `response.new` and `ws.client` read;
    the header fields in the order of `pairs`. -/
structure Msg where
  complete : Bool
  statusCode : Option ℕ
  headers : Option (List (List UInt8 × List UInt8))
  deriving DecidableEq

structure Response where
  statusCode : Option ℕ
  headers : Headers
  rawResponse : List UInt8

/-- The loop of `response.new`. -/
def cheaders (fields : List (List UInt8 × List UInt8)) : Headers :=
  fields.foldl (fun t (f, v) => Function.update t (canonicalHeaderKey f) (some v)) fun _ => none

/-- `response.new`, of a message with its `raw_response`. -/
def Response.new (parsed : Msg) (raw : List UInt8) : Lua Response :=
  match parsed.headers with
  | some fields => .ok ⟨parsed.statusCode, cheaders fields, raw⟩
  | none => .error (.raised "bad argument #1 to 'for iterator' (table expected, got nil)")

/-- A client that has sent its request. -/
structure Client (σ : Type) where
  conn : Conn
  parser : Option σ
  cached : Option (List UInt8)
  deriving DecidableEq

variable {σ : Type}

/-- The client after `client:send`. -/
def Client.new (conn : Conn) : Client σ := ⟨conn, none, none⟩

/-- `client:get_response`, where `c.new(c.HTTP_RESPONSE)` returns `new`. -/
def Client.getResponse (P : Parser σ Msg) (new : σ) (n : ℕ) (cli : Client σ) :
    Lua (Except ReadError Response × Client σ) := do
  let (msg, io) ← readMessage P n cli.cached ⟨cli.conn, cli.parser.getD new, []⟩
  match msg with
  | .error err => .ok (.error err, { cli with conn := io.conn, parser := some io.parser })
  | .ok (msg, left, raw) =>
    let response ← Response.new msg raw
    .ok (.ok response, ⟨io.conn, some io.parser, left⟩)

end Levent.Http
