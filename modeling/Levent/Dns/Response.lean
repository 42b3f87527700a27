/-
  `unpack_response` of `dns.lua`: the header and the question of a response, and
  the records of its three sections with the values of the types it knows.
-/
import Levent.Dns.Name

namespace Levent

open Lib (Lua unpackI unpackS)

/-- `exceptions.DnsError` -/
structure DnsError where
  info : String
  deriving DecidableEq

namespace QTYPE

def A : ℕ := 1
def TXT : ℕ := 16
def AAAA : ℕ := 28
def SRV : ℕ := 33

end QTYPE

namespace SECTION

def AN : ℕ := 1
def NS : ℕ := 2
def AR : ℕ := 3

end SECTION

def DNS_HEADER_LEN : ℕ := 12

/-- The fields that the functions of `unpack_type` add to a record. -/
inductive Rdata where
  | address (address : String)
  | srv (priority weight port : ℕ) (target : List UInt8)
  | txt (txt : List (List UInt8))
  deriving DecidableEq

/-- A record of the answers, in the section `sect`. -/
structure Ans where
  sect : ℕ
  name : List UInt8
  qtype : ℕ
  class_ : ℕ
  ttl : ℕ
  rdata : Rdata
  deriving DecidableEq

/-- The table of answers: its fields, and the records in its array. -/
structure Answers where
  tid : ℕ
  code : ℕ
  qname : List UInt8
  qtype : ℕ
  records : List Ans
  deriving DecidableEq

variable (chunk : List UInt8)

/-! ## unpack_type -/

/-- `k` numbers of `n` bytes each -/
def unpackIs (n : ℕ) : ℕ → ℤ → Lua (List ℕ × ℤ)
  | 0, left => .ok ([], left)
  | k + 1, left => do
    let (x, left) ← unpackI chunk n left
    let (xs, left) ← unpackIs n k left
    .ok (x :: xs, left)

/-- `%x` of `string.format` -/
def formatX (n : ℕ) : String := String.ofList (Nat.toDigits 16 n)

/-- `unpack_type[QTYPE.A]` -/
def unpackA : Lua (Except DnsError Rdata) :=
  if chunk.length ≠ 4 then
    .ok (.error ⟨"bad A record value length: " ++ toString chunk.length⟩)
  else do
    let (xs, _) ← unpackIs chunk 1 4 1
    .ok (.ok (.address (".".intercalate (xs.map toString))))

/-- `unpack_type[QTYPE.AAAA]` -/
def unpackAAAA : Lua (Except DnsError Rdata) :=
  if chunk.length ≠ 16 then
    .ok (.error ⟨"bad AAAA record value length: " ++ toString chunk.length⟩)
  else do
    let (xs, _) ← unpackIs chunk 2 8 1
    .ok (.ok (.address (":".intercalate (xs.map formatX))))

/-- `unpack_type[QTYPE.SRV]` -/
def unpackSRV (rounds : ℕ) : Lua (Except DnsError Rdata) :=
  if chunk.length < 7 then
    .ok (.error ⟨"bad SRV record value length: " ++ toString chunk.length⟩)
  else do
    let (priority, left) ← unpackI chunk 2 1
    let (weight, left) ← unpackI chunk 2 left
    let (port, left) ← unpackI chunk 2 left
    let (target, _) ← unpackName chunk left rounds
    .ok (.ok (.srv priority weight port target))

/-- The loop of `unpack_type[QTYPE.TXT]`: a round takes one byte at least. -/
def unpackStrings : ℕ → ℤ → Lua (List (List UInt8))
  | 0, _ => .error .unfinished
  | n + 1, left =>
    if left < chunk.length then do
      let (txt, left) ← unpackS chunk 1 left
      let t ← unpackStrings n left
      .ok (txt :: t)
    else .ok []

/-- `unpack_type[QTYPE.TXT]` -/
def unpackTXT : Lua (Except DnsError Rdata) := do
  let txt ← unpackStrings chunk (chunk.length + 1) 1
  .ok (.ok (.txt txt))

/-- `unpack_type` -/
def unpackType (rounds : ℕ) (qtype : ℕ) : Option (Lua (Except DnsError Rdata)) :=
  if qtype = QTYPE.A then some (unpackA chunk)
  else if qtype = QTYPE.AAAA then some (unpackAAAA chunk)
  else if qtype = QTYPE.SRV then some (unpackSRV chunk rounds)
  else if qtype = QTYPE.TXT then some (unpackTXT chunk)
  else none

/-! ## unpack_section, unpack_response -/

/-- `unpack_section`, which appends to `answers` -/
def unpackSection (rounds sect : ℕ) :
    ℕ → List Ans → ℤ → Lua (Except DnsError (List Ans × ℤ))
  | 0, answers, left => .ok (.ok (answers, left))
  | count + 1, answers, left => do
    let (name, left) ← unpackName chunk left rounds
    let (qtype, left) ← unpackI chunk 2 left
    let (class_, left) ← unpackI chunk 2 left
    let (ttl, left) ← unpackI chunk 4 left
    let (rdata, left) ← unpackS chunk 2 left
    match unpackType rdata rounds qtype with
    | none => unpackSection rounds sect count answers left
    | some unpackRdata =>
      match ← unpackRdata with
      | .error err => .ok (.error err)
      | .ok fields =>
        unpackSection rounds sect count (answers ++ [⟨sect, name, qtype, class_, ttl, fields⟩]) left

/-- The loop of `unpack_response` over its sections, given with their counts. -/
def unpackSections (rounds : ℕ) :
    List (ℕ × ℕ) → List Ans → ℤ → Lua (Except DnsError (List Ans))
  | [], answers, _ => .ok (.ok answers)
  | (sect, count) :: sections, answers, left => do
    match ← unpackSection chunk rounds sect count answers left with
    | .error err => .ok (.error err)
    | .ok (answers, left) => unpackSections rounds sections answers left

/-- Why `unpack_response` returns an error after the header, if it does. -/
def headerError (flags qdcount : ℕ) : Option DnsError :=
  if flags &&& 0x8000 = 0 then some ⟨"bad QR flag in the DNS response"⟩
  else if flags &&& 0x200 ≠ 0 then some ⟨"truncated"⟩
  else if flags &&& 0xf ≠ 0 then some ⟨"code:" ++ toString (flags &&& 0xf)⟩
  else if qdcount ≠ 1 then some ⟨"qdcount error " ++ toString qdcount⟩
  else none

/-- `unpack_response`, with as many rounds for each name. -/
def unpackResponse (rounds : ℕ) : Lua (Except DnsError Answers) :=
  if chunk.length < DNS_HEADER_LEN then .ok (.error ⟨"truncated"⟩)
  else do
    let (tid, left) ← unpackI chunk 2 1
    let (flags, left) ← unpackI chunk 2 left
    let (qdcount, left) ← unpackI chunk 2 left
    let (ancount, left) ← unpackI chunk 2 left
    let (nscount, left) ← unpackI chunk 2 left
    let (arcount, left) ← unpackI chunk 2 left
    match headerError flags qdcount with
    | some err => .ok (.error err)
    | none =>
      let (qname, left) ← unpackName chunk left rounds
      let (qtype, left) ← unpackI chunk 2 left
      let (_, left) ← unpackI chunk 2 left
      let sections := [(SECTION.AN, ancount), (SECTION.NS, nscount), (SECTION.AR, arcount)]
      match ← unpackSections chunk rounds sections [] left with
      | .error err => .ok (.error err)
      | .ok records => .ok (.ok ⟨tid, flags &&& 0xf, qname, qtype, records⟩)

end Levent
