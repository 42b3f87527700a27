/-
  The life of one client object of `http/client.lua`: its connection, its parser
  and the bytes it has received beyond a response are three fields, of which
  `client:close` resets only the first.
-/
import Levent.Http.Client
import Levent.Lib.Run

namespace Levent.Http

open Lib (Lua run Along)

/-! ## Clients -/

/-- `errno.EBADF` -/
def EBADF : ℕ := 9

/-- A socket of a client, with what it receives. -/
structure Link where
  conn : Conn
  closed : Bool
  deriving DecidableEq

/-- `conn:close()`: all that is received from `closed_socket` is its error. -/
def Link.close (_ : Link) : Link := ⟨⟨[], .failed EBADF⟩, true⟩

/-- The fields `conn`, `parser` and `cached` of a client. -/
structure HttpClient (σ : Type) where
  conn : Option Link
  parser : Option σ
  cached : Option (List UInt8)
  deriving DecidableEq

variable {σ : Type} (P : Parser σ Msg) (p₀ : σ)

/-- `client.new` -/
def HttpClient.new : HttpClient σ := ⟨none, none, none⟩

/-- `client:close` -/
def HttpClient.close (cli : HttpClient σ) : HttpClient σ := { cli with conn := none }

/-- `client:send`: what `create_connection` returns, if it is called, and the error of
    `sendall`, which is that of `closed_socket` if the connection is closed. -/
def HttpClient.send (cli : HttpClient σ) (opened : Except ℕ Conn) (err : Option ℕ) : HttpClient σ :=
  match cli.conn, opened with
  | none, .error _ => cli
  | none, .ok conn =>
    let cli := { cli with conn := some ⟨conn, false⟩ }
    if err.isSome then cli.close else cli
  | some link, _ => if link.closed ∨ err.isSome then cli.close else cli

/-- How a `get_response` ends. -/
inductive Got where
  | response (rsp : Response)
  | failed (err : ReadError)
  | raised (msg : String)

/-- `client:get_response`, if it comes to an end; `c.new(c.HTTP_RESPONSE)` returns
    `p₀`. -/
def HttpClient.getResponse (n : ℕ) (cli : HttpClient σ) : Option (Got × HttpClient σ) :=
  match cli.conn with
  | none => some (.raised "not connected", cli)
  | some link =>
    match readMessage P n cli.cached ⟨link.conn, cli.parser.getD p₀, []⟩ with
    | .error _ => none
    | .ok (.error err, io) => some (.failed err, ⟨some link.close, some io.parser, cli.cached⟩)
    | .ok (.ok (msg, left, raw), io) =>
      let cli := ⟨some { link with conn := io.conn }, some io.parser, left⟩
      match Response.new msg raw with
      | .ok rsp => some (.response rsp, cli)
      | .error (.raised msg) => some (.raised msg, cli)
      | .error .unfinished => none

/-- `client:get_response`, while another coroutine calls `client:close`: that has
    come when `k` chunks have been received, and more are waited for. -/
def HttpClient.getResponseClosed (n k : ℕ) (err : ℕ) (cli : HttpClient σ) :
    Option (Got × HttpClient σ) :=
  match cli.conn with
  | none => none
  | some link =>
    let conn : Conn := ⟨link.conn.chunks.take k, .failed err⟩
    match readMessage P n cli.cached ⟨conn, cli.parser.getD p₀, []⟩ with
    | .ok (.error (.recv _), io) =>
      some (.raised "attempt to index a nil value (field 'conn')", ⟨none, some io.parser, cli.cached⟩)
    | _ => none

/-! ## Histories -/

/-- A call of a method. -/
inductive ClientCall where
  | send (opened : Except ℕ Conn) (err : Option ℕ)
  | getResponse (n : ℕ)
  | getResponseClosed (n k : ℕ) (err : ℕ)
  | close

/-- The client after a call, if it comes to an end. -/
def HttpClient.call (cli : HttpClient σ) : ClientCall → Option (HttpClient σ)
  | .send opened err => some (cli.send opened err)
  | .getResponse n => (cli.getResponse P p₀ n).map Prod.snd
  | .getResponseClosed n k err => (cli.getResponseClosed P p₀ n k err).map Prod.snd
  | .close => some cli.close

/-- The call opens a connection. -/
def HttpClient.opens (cli : HttpClient σ) : ClientCall → Bool
  | .send (.ok _) _ => cli.conn.isNone
  | _ => false

/-- A client, and `fresh`, one created when the last connection was opened, on which
    the same calls are made. -/
structure Pair (σ : Type) where
  cli : HttpClient σ
  fresh : HttpClient σ

def Pair.new : Pair σ := ⟨.new, .new⟩

def Pair.call (w : Pair σ) (c : ClientCall) : Option (Pair σ) :=
  (w.cli.call P p₀ c).map fun cli =>
    let fresh := if w.cli.opens c then HttpClient.new else w.fresh
    ⟨cli, (fresh.call P p₀ c).getD fresh⟩

/-- What `get_response` returns on the two. -/
def Pair.Agrees (w : Pair σ) : Prop :=
  ∀ n, (w.cli.getResponse P p₀ n).map Prod.fst = (w.fresh.getResponse P p₀ n).map Prod.fst

/-! ## Parsers -/

/-- The two states of a parser make the same of whatever they are fed. -/
def Parser.Alike {μ : Type} (P : Parser σ μ) (p q : σ) : Prop :=
  ∃ R : σ → σ → Prop, R p q ∧ ∀ p q, R p q → ∀ s msg,
    (P.execute p s msg).2 = (P.execute q s msg).2 ∧ R (P.execute p s msg).1 (P.execute q s msg).1

/-- A connection is opened with nothing cached, and with a parser like a new one. -/
def Pair.OpensClean (w : Pair σ) (c : ClientCall) : Prop :=
  w.cli.opens c = true → w.cli.cached = none ∧ P.Alike (w.cli.parser.getD p₀) p₀

variable {P : Parser σ Msg} {p₀ : σ} {p q : σ} {s : List UInt8} {msg : Msg}

theorem Parser.Alike.refl : P.Alike p p := by
  refine ⟨Eq, rfl, ?_⟩
  rintro p q rfl s msg
  exact ⟨rfl, rfl⟩

theorem Parser.Alike.execute (h : P.Alike p q) (s : List UInt8) (msg : Msg) :
    (P.execute p s msg).2 = (P.execute q s msg).2 ∧
      P.Alike (P.execute p s msg).1 (P.execute q s msg).1 := by
  obtain ⟨R, hR, hstep⟩ := h
  obtain ⟨h1, h2⟩ := hstep p q hR s msg
  exact ⟨h1, R, h2, hstep⟩

/-- The two reads end in the same way, with parsers that are alike. -/
inductive ReadsAlike (P : Parser σ Msg) :
    Lua (ReadResult Msg × Io σ) → Lua (ReadResult Msg × Io σ) → Prop
  | ok {r conn p q fed} : P.Alike p q → ReadsAlike P (.ok (r, ⟨conn, p, fed⟩)) (.ok (r, ⟨conn, q, fed⟩))
  | error {e} : ReadsAlike P (.error e) (.error e)

theorem readLoop_alike (h : P.Alike p q) (n : ℕ) (msg : Msg) (left : Option (List UInt8))
    (raw fed : List UInt8) (conn : Conn) :
    ReadsAlike P (readLoop P n msg left raw ⟨conn, p, fed⟩) (readLoop P n msg left raw ⟨conn, q, fed⟩) := by
  induction n generalizing p q msg left raw fed conn with
  | zero => exact .error
  | succ n ih =>
    unfold readLoop
    split
    · exact .ok h
    · dsimp only
      cases nextString left conn with
      | error e => exact .error
      | ok r =>
        obtain ⟨s, conn⟩ := r
        cases s with
        | error err => exact .ok h
        | ok s =>
          obtain ⟨h1, h2⟩ := h.execute s msg
          -- both parsers have read the same
          generalize hx : P.execute p s msg = x at h1 h2
          generalize hy : P.execute q s msg = y at h1 h2
          obtain ⟨p', msg', parsed, err⟩ := x
          obtain ⟨q', y'⟩ := y
          obtain rfl : (msg', parsed, err) = y' := h1
          simp only [bind, Except.bind, hx, hy]
          cases err with
          | some err => exact .ok h2
          | none =>
            dsimp only
            split
            · exact .ok h2
            · split
              · exact ih h2 _ _ _ _ _
              · exact ih h2 _ _ _ _ _

/-! ## Clients that are alike -/

/-- The same connection and the same bytes cached, and parsers that are alike. -/
structure HttpClient.Like (P : Parser σ Msg) (p₀ : σ) (cli cli' : HttpClient σ) : Prop where
  conn : cli.conn = cli'.conn
  cached : cli.cached = cli'.cached
  parser : P.Alike (cli.parser.getD p₀) (cli'.parser.getD p₀)

variable {cli cli' : HttpClient σ}

/-- The two calls end in the same way. -/
inductive GotAlike (P : Parser σ Msg) (p₀ : σ) :
    Option (Got × HttpClient σ) → Option (Got × HttpClient σ) → Prop
  | unfinished : GotAlike P p₀ none none
  | ended {got cli cli'} : cli.Like P p₀ cli' → GotAlike P p₀ (some (got, cli)) (some (got, cli'))

theorem HttpClient.Like.getResponse (h : cli.Like P p₀ cli') (n : ℕ) :
    GotAlike P p₀ (cli.getResponse P p₀ n) (cli'.getResponse P p₀ n) := by
  have hcached := h.cached
  unfold HttpClient.getResponse
  rw [← h.conn]
  cases hconn : cli.conn with
  | none => exact .ended h
  | some link =>
    dsimp only
    rw [← h.cached]
    have hread := readLoop_alike h.parser n P.empty cli.cached [] [] link.conn
    unfold readMessage
    generalize readLoop P n P.empty cli.cached [] ⟨link.conn, cli.parser.getD p₀, []⟩ = x at hread
    generalize readLoop P n P.empty cli.cached [] ⟨link.conn, cli'.parser.getD p₀, []⟩ = y at hread
    cases hread with
    | error => exact .unfinished
    | @ok r conn p q fed hpq =>
      cases r with
      | error err => exact .ended ⟨rfl, rfl, hpq⟩
      | ok r =>
        obtain ⟨msg, left, raw⟩ := r
        dsimp only
        cases Response.new msg raw with
        | ok rsp => exact .ended ⟨rfl, rfl, hpq⟩
        | error e =>
          cases e with
          | raised msg => exact .ended ⟨rfl, rfl, hpq⟩
          | unfinished => exact .unfinished

theorem HttpClient.Like.getResponseClosed (h : cli.Like P p₀ cli') (n k err : ℕ) :
    GotAlike P p₀ (cli.getResponseClosed P p₀ n k err) (cli'.getResponseClosed P p₀ n k err) := by
  unfold HttpClient.getResponseClosed
  rw [← h.conn]
  cases hconn : cli.conn with
  | none => exact .unfinished
  | some link =>
    dsimp only
    rw [← h.cached]
    have hread := readLoop_alike h.parser n P.empty cli.cached [] [] ⟨link.conn.chunks.take k, .failed err⟩
    unfold readMessage
    generalize readLoop P n P.empty cli.cached [] ⟨_, cli.parser.getD p₀, []⟩ = x at hread
    generalize readLoop P n P.empty cli.cached [] ⟨_, cli'.parser.getD p₀, []⟩ = y at hread
    cases hread with
    | error => exact .unfinished
    | @ok r conn p q fed hpq =>
      cases r with
      | ok r => exact .unfinished
      | error err =>
        cases err with
        | recv err => exact .ended ⟨rfl, rfl, hpq⟩
        | parse name => exact .unfinished

theorem GotAlike.call {x y : Option (Got × HttpClient σ)} (h : GotAlike P p₀ x y) {cli₁ : HttpClient σ}
    (hx : x.map Prod.snd = some cli₁) : ∃ cli₁', y.map Prod.snd = some cli₁' ∧ cli₁.Like P p₀ cli₁' := by
  cases h with
  | unfinished => cases hx
  | ended h =>
    cases hx
    exact ⟨_, rfl, h⟩

theorem HttpClient.Like.send (h : cli.Like P p₀ cli') (opened : Except ℕ Conn) (err : Option ℕ) :
    (cli.send opened err).Like P p₀ (cli'.send opened err) := by
  unfold HttpClient.send
  rw [← h.conn]
  cases hconn : cli.conn with
  | none =>
    cases opened with
    | error e => exact h
    | ok conn =>
      dsimp only
      split <;> exact ⟨rfl, h.cached, h.parser⟩
  | some link =>
    dsimp only
    split
    · exact ⟨rfl, h.cached, h.parser⟩
    · exact h

/-- **Clients that are alike stay so**, whatever is called. -/
theorem HttpClient.Like.call (h : cli.Like P p₀ cli') (c : ClientCall) {cli₁ : HttpClient σ}
    (hcall : cli.call P p₀ c = some cli₁) : ∃ cli₁', cli'.call P p₀ c = some cli₁' ∧ cli₁.Like P p₀ cli₁' := by
  cases c with
  | send opened err =>
    cases hcall
    exact ⟨_, rfl, h.send opened err⟩
  | getResponse n => exact (h.getResponse n).call hcall
  | getResponseClosed n k err => exact (h.getResponseClosed n k err).call hcall
  | close =>
    cases hcall
    exact ⟨_, rfl, rfl, h.cached, h.parser⟩

/-- A client that opens a connection is as new, if it opens it clean. -/
theorem HttpClient.like_new {c : ClientCall} (hopens : cli.opens c = true) (hcached : cli.cached = none)
    (hparser : P.Alike (cli.parser.getD p₀) p₀) : cli.Like P p₀ HttpClient.new where
  conn := by
    cases c with
    | send opened err =>
      cases opened with
      | ok conn => exact Option.isNone_iff_eq_none.1 hopens
      | error e => cases hopens
    | getResponse | getResponseClosed | close => cases hopens
  cached := hcached
  parser := hparser

/-! ## Histories -/

variable {w w' : Pair σ} {cs : List ClientCall}

theorem Pair.like_call {c : ClientCall} (h : w.cli.Like P p₀ w.fresh) (hc : w.OpensClean P p₀ c)
    (hcall : w.call P p₀ c = some w') : w'.cli.Like P p₀ w'.fresh := by
  obtain ⟨cli₁, hcli, rfl⟩ := Option.map_eq_some_iff.1 hcall
  have hlike : w.cli.Like P p₀ (if w.cli.opens c then HttpClient.new else w.fresh) := by
    split
    · rename_i hopens
      exact HttpClient.like_new hopens (hc hopens).1 (hc hopens).2
    · exact h
  obtain ⟨cli₁', hcli', hlike'⟩ := hlike.call c hcli
  dsimp only
  rw [hcli']
  exact hlike'

/-- **A client that opens its connections clean is as good as new on each of them.** -/
theorem reconnect_agrees (hclean : Along (Pair.call P p₀) (Pair.OpensClean P p₀) Pair.new cs)
    (hrun : run (Pair.call P p₀) Pair.new cs = some w) : w.Agrees P p₀ := by
  have hlike : w.cli.Like P p₀ w.fresh :=
    Lib.run_inv (I := fun w => w.cli.Like P p₀ w.fresh) (fun _ _ _ h hc hcall => Pair.like_call h hc hcall)
      ⟨rfl, rfl, .refl⟩ hclean hrun
  intro n
  have hgot := hlike.getResponse n
  generalize w.cli.getResponse P p₀ n = x at hgot ⊢
  generalize w.fresh.getResponse P p₀ n = y at hgot ⊢
  cases hgot with
  | unfinished => rfl
  | ended _ => rfl

/-! ## Why nothing may be cached -/

/-- With bytes left over no error of the connection is seen. -/
theorem readLoop_not_recv {n : ℕ} {l raw : List UInt8} {io io' : Io σ} {e : ℕ} :
    readLoop P n msg (some l) raw io ≠ .ok (.error (.recv e), io') := by
  induction n generalizing msg l raw io with
  | zero => exact nofun
  | succ n ih =>
    intro h
    rw [readLoop] at h
    split at h
    · cases h
    · simp only [nextString, bind, Except.bind] at h
      cases herr : (P.execute io.parser l msg).2.2.2 with
      | some err =>
        simp only [herr] at h
        cases h
      | none =>
        simp only [herr] at h
        split at h
        · cases h
        · split at h
          · exact ih h
          · exact ih h

/-- **Whatever is cached makes a difference**, on a connection that fails at once. -/
theorem cached_not_agrees {l : List UInt8} {e : ℕ} (hempty : P.complete P.empty = false)
    (hcached : w.cli.cached = some l) (hconn : w.cli.conn = none)
    (hcall : w.call P p₀ (.send (.ok ⟨[], .failed e⟩) none) = some w') : ¬ w'.Agrees P p₀ := by
  obtain ⟨⟨conn, parser, cached⟩, fresh⟩ := w
  obtain rfl : conn = none := hconn
  obtain rfl : cached = some l := hcached
  cases hcall
  intro h
  have hfresh : ((@HttpClient.new σ).send (.ok ⟨[], .failed e⟩) none).getResponse P p₀ 1 =
      some (.failed (.recv e), ⟨some (Link.close ⟨⟨[], .failed e⟩, false⟩), some p₀, none⟩) := by
    simp [HttpClient.getResponse, HttpClient.send, HttpClient.new, readMessage, readLoop, hempty,
      nextString, Conn.recv, bind, Except.bind, Link.close]
  have hagree : (HttpClient.getResponse P p₀ 1 ⟨some ⟨⟨[], .failed e⟩, false⟩, parser, some l⟩).map Prod.fst =
      (((@HttpClient.new σ).send (.ok ⟨[], .failed e⟩) none).getResponse P p₀ 1).map Prod.fst := h 1
  rw [hfresh] at hagree
  obtain ⟨⟨got, cli⟩, hgot, rfl : got = _⟩ := Option.map_eq_some_iff.1 hagree
  unfold HttpClient.getResponse readMessage at hgot
  dsimp only at hgot
  split at hgot
  · cases hgot
  · rename_i hread
    cases hgot
    exact readLoop_not_recv hread
  · split at hgot <;> cases hgot

/-! ## A response too many -/

/-- What a parser makes of a response without header lines and body. -/
def bareTable (bs : List UInt8) : Msg :=
  ⟨headEnds bs, some ((((bs.drop 9).take 3).foldl fun n c => 10 * n + (c.toNat - 48)) 0), some []⟩

def bareParser : Parser (List UInt8) Msg := tableParser bareTable Msg.complete

def noContent : List UInt8 := ascii "HTTP/1.1 204 No Content\r\n\r\n"

def notModified : List UInt8 := ascii "HTTP/1.1 304 Not Modified\r\n\r\n"

def Got.statusCode : Got → Option ℕ
  | .response rsp => rsp.statusCode
  | _ => none

/-- A response is read from a connection that brings `bytes`, and another connection is
    opened. -/
def reopen (bytes : List UInt8) : List ClientCall :=
  [.send (.ok ⟨[bytes], .silence⟩) none, .getResponse 3, .close,
    .send (.ok ⟨[notModified], .silence⟩) none]

theorem getResponse_noContent :
    (HttpClient.getResponse bareParser [] 3 ⟨some ⟨⟨[noContent], .silence⟩, false⟩, none, none⟩).map Prod.snd =
      some ⟨some ⟨⟨[], .silence⟩, false⟩, some [], none⟩ := by
  decide +kernel

/-- One response on each connection. -/
theorem reconnect_agrees_one :
    ∃ w, run (Pair.call bareParser []) Pair.new (reopen noContent) = some w ∧ w.Agrees bareParser [] := by
  have hget : Pair.call bareParser [] ⟨⟨some ⟨⟨[noContent], .silence⟩, false⟩, none, none⟩,
        ⟨some ⟨⟨[noContent], .silence⟩, false⟩, none, none⟩⟩ (.getResponse 3) =
      some ⟨⟨some ⟨⟨[], .silence⟩, false⟩, some [], none⟩,
        ⟨some ⟨⟨[], .silence⟩, false⟩, some [], none⟩⟩ := by
    simp only [Pair.call, HttpClient.call, HttpClient.opens, getResponse_noContent]
    rfl
  have hrun : run (Pair.call bareParser []) Pair.new (reopen noContent) =
      some ⟨⟨some ⟨⟨[notModified], .silence⟩, false⟩, some [], none⟩,
        ⟨some ⟨⟨[notModified], .silence⟩, false⟩, none, none⟩⟩ :=
    Lib.run_cons.2 ⟨_, rfl, Lib.run_cons.2 ⟨_, hget, rfl⟩⟩
  refine ⟨_, hrun, reconnect_agrees ?_ hrun⟩
  exact .cons (fun _ => ⟨rfl, .refl⟩) rfl (.cons nofun hget (.cons nofun rfl
    (.cons (fun _ => ⟨rfl, .refl⟩) rfl trivial)))

/-- The first connection has brought two, and the second is returned for the other one. -/
theorem reconnect_not_agrees :
    ∃ w, run (Pair.call bareParser []) Pair.new (reopen (noContent ++ noContent)) = some w ∧
      ¬ w.Agrees bareParser [] := by
  refine ⟨_, rfl, fun h => ?_⟩
  have h1 := congrArg (Option.map Got.statusCode) (h 3)
  revert h1
  decide +kernel

end Levent.Http
