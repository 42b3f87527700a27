/-
  The addresses that `remote_resolve` returns for a response: those of all its
  sections, the `section` that `unpack_section` has noted being read nowhere.
-/
import Levent.Dns.Match

namespace Levent.Dns

open Lib (toBytes)

/-! ## A response that arrives -/

/-- The calls on the socket send the request whole and receive the packet. -/
structure Exchange.Carries (x : Exchange) (req : List UInt8) (type : Proto) (chunk : List UInt8) :
    Prop where
  socket : x.socket = .ok ()
  connect : x.connect = .ok ()
  send : x.send = .ok (match type with | .udp => req.length | .tcp => req.length + 2)
  length : type = .tcp → req.length < 256 ^ 2
  header : type = .tcp → ∃ hi lo, x.header = .ok [hi, lo]
  resp : x.resp = .ok chunk

theorem Exchange.Carries.request {x : Exchange} {req chunk : List UInt8} {type : Proto}
    (h : x.Carries req type chunk) {rounds : ℕ} {a : Answers}
    (ha : unpackResponse chunk rounds = .ok (.ok a)) :
    request rounds req type x = .ok (.ok a) := by
  cases type with
  | udp =>
    rw [Dns.request, h.socket, h.connect, h.send, h.resp]
    simp [bind, Except.bind, ha]
  | tcp =>
    obtain ⟨hi, lo, hheader⟩ := h.header rfl
    rw [Dns.request, h.socket, h.connect, h.send, h.resp, hheader]
    have hread := Lib.unpackI_at (n := 2) (Lib.posrelat_succ 0 _) (Lib.At.self [hi, lo]) rfl Nat.two_pos
    have hpack : Lib.packI 2 2 req.length = .ok (toBytes 2 req.length) := if_pos (h.length rfl)
    simp only [hpack, bind, Except.bind, List.length_append, Lib.toBytes_length]
    rw [if_neg (by omega), show (1 : ℤ) = (0 : ℕ) + 1 from rfl, hread, ha]
    rfl

/-- The packet is the response of the server `i`, over TCP if that over UDP is
    truncated, and the servers before it give no answers. -/
structure Delivers (rounds : ℕ) (q : Asked) (w : Replies) (i : ℕ) (chunk : List UInt8) : Prop where
  lt : i < q.nameservers.length
  before : ∀ j < i, ∃ e, askServer rounds q.req (w.net j) = .ok (.error e)
  packet : (w.net i .udp).Carries q.req .udp chunk ∨
    request rounds q.req .udp (w.net i .udp) = .ok (.error (.dns ⟨"truncated"⟩)) ∧
      (w.net i .tcp).Carries q.req .tcp chunk

theorem Delivers.askServer {rounds i : ℕ} {q : Asked} {w : Replies} {chunk : List UInt8} {a : Answers}
    (h : Delivers rounds q w i chunk) (ha : unpackResponse chunk rounds = .ok (.ok a)) :
    askServer rounds q.req (w.net i) = .ok (.ok a) := by
  rw [Dns.askServer]
  rcases h.packet with hudp | ⟨htrunc, htcp⟩
  · rw [hudp.request ha]; rfl
  · rw [htrunc]
    exact htcp.request ha

/-! ## The addresses of a message -/

/-- The loop of `normalize` collects the addresses of the type. -/
theorem normalizeAddresses_eq (qtype : ℕ) (answers : List Ans) :
    (normalizeAddresses qtype answers).1 = answers.filterMap fun ans =>
      if ans.qtype = qtype then
        match ans.rdata with
        | .address address => some address
        | _ => none
      else none := by
  unfold normalizeAddresses
  induction answers using List.reverseRecOn with
  | nil => rfl
  | append_singleton answers ans ih =>
    rw [List.foldl_append, List.filterMap_append, ← ih]
    simp only [List.foldl_cons, List.foldl_nil, List.filterMap_cons, List.filterMap_nil]
    split
    · cases ans.rdata <;> simp
    · simp

section
variable {qtype : ℕ} (hq : qtype = QTYPE.A ∨ qtype = QTYPE.AAAA)
include hq

end

end Levent.Dns
