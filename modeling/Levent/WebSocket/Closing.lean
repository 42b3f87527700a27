/-
  The end of `run` of `http/websocket.lua`: the peer closes the connection, another
  coroutine calls `ws:close` while `run` waits in `read`, or the connection is closed
  while a handler runs, by the handler itself or by another coroutine.

  `run` returns when it has refused a frame, and in the round after the one that has
  closed the connection: a frame at the end of which it reads on is not enough
  (`run_returns_iff`).
-/
import Levent.WebSocket.Ending
import Levent.Lib.Attempt

namespace Levent.WebSocket

open Lib (Lua Stop final outcome outcome_bind outcome_get Keeps bind_of_ok bind_of_error
  modify_bind get_bind)

/-- How the bytes end: the peer closes the connection, reading fails, or another
    coroutine calls `ws:close` while `run` waits, for which reading fails. -/
inductive End where
  | eof
  | failed (err : ℕ)
  | closed (err : ℕ)
  deriving DecidableEq

def End.ending : End → Ending
  | .eof => .closed
  | .failed err => .failed err
  | .closed err => .failed err

/-- A call of `ws:close` while a handler runs, of another coroutine or of the handler.
    It is `crossed` if another one closes the connection while it sends. -/
inductive Closing where
  | theirs
  | mine (code : Option ℕ) (reason : Option (List UInt8)) (crossed : Bool)
  deriving DecidableEq

/-- What `ws:close` in another coroutine does: it raises there if `self.conn` is nil. -/
def Reader.theirs (r : Reader) : Reader :=
  if r.opened then { r.emit .closed with opened := false } else r

/-- What another coroutine has done when reading ends. -/
def End.strike : End → Reader → Reader
  | .closed _, r => r.theirs
  | _, r => r

/-- What the coroutine of `run` does with the `ws`. -/
abbrev Ws := EStateM Stop Reader

namespace Ws

/-- A call that raises before it does anything, or not at all. -/
def call (g : Reader → Lua Reader) : Ws Unit := fun r =>
  match g r with
  | .ok r' => .ok () r'
  | .error stop => .error stop r

/-- `ws:close`; `self.conn` is nil after the message if the call is crossed. -/
def close (code : Option ℕ) (reason : Option (List UInt8)) (crossed : Bool) : Ws Unit := fun r =>
  match r.close code reason with
  | .ok r' =>
    if crossed then
      .error (.raised "attempt to index a nil value (field 'conn')") r.theirs
    else .ok () r'
  | .error stop => .error stop r

/-- What is done while a handler runs. -/
def handle : List Closing → Ws Unit
  | [] => pure ()
  | .theirs :: l => do
    modify Reader.theirs
    handle l
  | .mine code reason crossed :: l => do
    close code reason crossed
    handle l

/-- `try_handle` -/
def tryHandle (o : Obs) (l : List Closing) : Ws Unit := do
  modify (·.emit o)
  handle l

/-- `ws:error` -/
def error (l : List Closing) (code : ℕ) : Ws Unit := do
  tryHandle (.onError code) l
  close (some code) none false

/-- A frame of a message, which is not refused; `on_message` is called at its end. -/
def push (l : List Closing) (fin : Bool) (payload : Option (List UInt8)) : Ws Bool := do
  call (·.push fin payload)
  (if fin then handle l else pure ())
  pure false

/-- What `run` does with a frame, and whether it returns. -/
def dispatch (l : List Closing) (fin : Bool) (opcode : ℕ)
    (payload : Option (List UInt8)) : Ws Bool := do
  if opcode = CLOSE then
    let args ← ofExcept (decodeCloseMsg payload)
    tryHandle (.onClose args) l
    close (some CLOSE_GOING_AWAY) none false
    pure false
  else if opcode = PING then
    tryHandle (.onPing payload) l
    call (·.pong payload)
    pure false
  else if opcode = PONG then
    tryHandle (.onPong payload) l
    pure false
  else
    let r ← get
    if opcode = CONTINUATION then
      if r.firstOpcode = none then
        error l CLOSE_PROTOCOL_ERROR
        pure true
      else push l fin payload
    else
      if r.firstOpcode.isSome then
        error l CLOSE_PROTOCOL_ERROR
        pure true
      else
        modify fun r => { r with firstOpcode := some opcode, n := 0 }
        push l fin payload

/-- A round of the loop of `run`. A read that has met the end raises, or has no payload. -/
def round (e : End) (l : List Closing) : Ws Bool := do
  let r ← get
  if r.opened = false then pure true
  else
    match read r.conn with
    | .error stop =>
      modify e.strike
      throw stop
    | .ok ((fin, opcode, payload), conn) =>
      modify fun r => if payload.isNone then e.strike { r with conn } else { r with conn }
      dispatch l fin opcode payload

/-- `run`, for at most `n` rounds, and whether it has returned; `w i` is what is done
    while the handler of the `i`-th round runs, if there is one. -/
def run (e : End) : ℕ → (ℕ → List Closing) → Ws Bool
  | 0, _ => pure false
  | n + 1, w => do
    let done ← round e (w 0)
    if done then pure true else run e n fun i => w (i + 1)

end Ws

variable {e : End} {l : List Closing} {a : Assembly} {f : Frame} {fs : List Frame}
  {bs rest s : List UInt8} {bss : List (List UInt8)} {r r' : Reader} {conn conn' : Conn}
  {w : ℕ → List Closing} {n : ℕ} {x : Option (Frame × Bool)} {α β : Type}

/-! ## Without closings -/

namespace Ws

theorem outcome_call (g : Reader → Lua Reader) (k : Unit → Ws α) (r : Reader) :
    outcome (call g >>= k) r = g r >>= fun r' => outcome (k ()) r' := by
  rw [outcome_bind, outcome, call]
  cases g r <;> rfl

theorem outcome_close (code : Option ℕ) (reason : Option (List UInt8))
    (k : Unit → Ws α) (r : Reader) :
    outcome (close code reason false >>= k) r =
      r.close code reason >>= fun r' => outcome (k ()) r' := by
  rw [outcome_bind, outcome, close]
  cases r.close code reason <;> rfl

theorem outcome_push (fin : Bool) (payload : Option (List UInt8)) (r : Reader) :
    outcome (push [] fin payload) r = r.push fin payload >>= fun r' => .ok (r', false) := by
  rw [push, outcome_call]
  cases r.push fin payload with
  | error stop => rfl
  | ok r' => cases fin <;> rfl

theorem outcome_error (code : ℕ) (k : Unit → Ws α) (r : Reader) :
    outcome (error [] code >>= k) r = r.error code >>= fun r' => outcome (k ()) r' := by
  rw [error, bind_assoc]
  exact outcome_close (some code) none k (r.emit (.onError code))

theorem outcome_dispatch (fin : Bool) (opcode : ℕ) (payload : Option (List UInt8)) (r : Reader) :
    outcome (dispatch [] fin opcode payload) r = r.dispatch fin opcode payload := by
  rw [dispatch, Reader.dispatch]
  by_cases hclose : opcode = CLOSE
  · rw [if_pos hclose, if_pos hclose]
    cases decodeCloseMsg payload with
    | error stop => rfl
    | ok args => exact outcome_close _ _ _ _
  rw [if_neg hclose, if_neg hclose]
  by_cases hping : opcode = PING
  · rw [if_pos hping, if_pos hping]
    exact outcome_call _ _ _
  rw [if_neg hping, if_neg hping]
  by_cases hpong : opcode = PONG
  · rw [if_pos hpong, if_pos hpong]
    rfl
  rw [if_neg hpong, if_neg hpong, outcome_get]
  by_cases hcont : opcode = CONTINUATION
  · rw [if_pos hcont, if_pos hcont]
    by_cases hfirst : r.firstOpcode = none
    · rw [if_pos hfirst, if_pos hfirst]
      exact outcome_error _ _ _
    · rw [if_neg hfirst, if_neg hfirst]
      exact outcome_push fin payload r
  · rw [if_neg hcont, if_neg hcont]
    by_cases hfirst : r.firstOpcode.isSome
    · rw [if_pos hfirst, if_pos hfirst]
      exact outcome_error _ _ _
    · rw [if_neg hfirst, if_neg hfirst]
      exact outcome_push fin payload _

theorem outcome_round (e : End) (he : ∀ r, e.strike r = r) (r : Reader) :
    outcome (round e []) r = r.round := by
  rw [round, outcome_get, Reader.round]
  by_cases hop : r.opened = false
  · rw [if_pos hop, if_pos hop]
    rfl
  · rw [if_neg hop, if_neg hop]
    cases read r.conn with
    | error stop => rfl
    | ok y =>
      have hstrike :
          (if y.1.2.2.isNone then e.strike { r with conn := y.2 } else { r with conn := y.2 }) =
          { r with conn := y.2 } := by
        rw [he, ite_self]
      rw [outcome_bind]
      change outcome (dispatch [] y.1.1 y.1.2.1 y.1.2.2) (if _ then _ else _) = _
      rw [hstrike]
      exact outcome_dispatch _ _ _ _

/-- **If nobody closes the connection**, `run` is that of `Receive`. -/
theorem outcome_run (e : End) (he : ∀ r, e.strike r = r) (n : ℕ) (r : Reader) :
    outcome (run e n fun _ => []) r = r.run n := by
  induction n generalizing r with
  | zero => rfl
  | succ n ih =>
    rw [run, Reader.run, outcome_bind, outcome_round e he]
    cases r.round with
    | error stop => rfl
    | ok y =>
      simp only [bind, Except.bind]
      split
      · rfl
      · exact ih y.1

end Ws

/-! ## At most once -/

/-- The connection has been closed if it is not open, and only then. -/
def Reader.Once (r : Reader) : Prop := r.log.count .closed ≤ if r.opened then 0 else 1

theorem Reader.Once.emit (h : r.Once) {o : Obs} (ho : o ≠ .closed) : (r.emit o).Once := by
  change (r.log ++ [o]).count Obs.closed ≤ _
  rw [List.count_append, List.count_singleton, if_neg (by simpa using ho), Nat.add_zero]
  exact h

theorem Reader.Once.shut (h : r.Once) (hop : r.opened = true) :
    Reader.Once { r.emit .closed with opened := false } := by
  change (r.log ++ [Obs.closed]).count Obs.closed ≤ 1
  rw [List.count_append]
  rw [Reader.Once, if_pos hop] at h
  exact Nat.add_le_add_right h 1

theorem Reader.Once.theirs (h : r.Once) : r.theirs.Once := by
  rw [Reader.theirs]
  split
  · rename_i hop
    exact h.shut hop
  · exact h

theorem Reader.Once.strike (h : r.Once) (e : End) : (e.strike r).Once := by
  cases e with
  | eof => exact h
  | failed err => exact h
  | closed err => exact h.theirs

theorem send_once (h : r.Once) {opcode : ℕ} {payload : Option (List UInt8)}
    (hr : r.send opcode payload = .ok r') : r'.Once ∧ r'.opened = true := by
  cases payload with
  | none => cases hr
  | some payload =>
    rw [Reader.send] at hr
    split at hr
    · rename_i hop
      cases hr
      have hne : Obs.sent opcode payload ≠ .closed := by
        intro heq
        cases heq
      exact ⟨h.emit hne, hop⟩
    · cases hr

theorem close_once (h : r.Once) {code : Option ℕ} {reason : Option (List UInt8)}
    (hr : r.close code reason = .ok r') : r'.Once := by
  obtain ⟨msg, -, hr⟩ := Lib.bind_eq_ok.1 hr
  obtain ⟨r₁, hsend, hr⟩ := Lib.bind_eq_ok.1 hr
  cases hr
  obtain ⟨h₁, hop⟩ := send_once h hsend
  exact h₁.shut hop

theorem push_once (h : r.Once) {fin : Bool} {payload : Option (List UInt8)}
    (hr : r.push fin payload = .ok r') : r'.Once := by
  obtain ⟨x, -, hr⟩ := Lib.bind_eq_ok.1 hr
  dsimp only at hr
  split at hr
  · obtain ⟨message, -, hr⟩ := Lib.bind_eq_ok.1 hr
    cases hr
    exact Reader.Once.emit (r := { r with t := x.1, n := x.2 }) h nofun
  · cases hr
    exact h

namespace Ws

theorem call_keeps {g : Reader → Lua Reader} (hg : ∀ r r', r.Once → g r = .ok r' → r'.Once) :
    Keeps Reader.Once (call g) := by
  intro r h
  rw [final, call]
  cases hr : g r with
  | ok r' => exact hg r r' h hr
  | error stop => exact h

theorem close_keeps (code : Option ℕ) (reason : Option (List UInt8)) (crossed : Bool) :
    Keeps Reader.Once (close code reason crossed) := by
  intro r h
  rw [final, close]
  cases hr : r.close code reason with
  | ok r' =>
    cases crossed with
    | true => exact h.theirs
    | false => exact close_once h hr
  | error stop => exact h

theorem handle_keeps (l : List Closing) : Keeps Reader.Once (handle l) := by
  induction l with
  | nil => exact .pure ()
  | cons c l ih =>
    cases c with
    | theirs => exact .bind (.modify fun _ h => h.theirs) fun _ => ih
    | mine code reason crossed => exact .bind (close_keeps code reason crossed) fun _ => ih

theorem tryHandle_keeps (o : Obs) (ho : o ≠ .closed) (l : List Closing) :
    Keeps Reader.Once (tryHandle o l) :=
  .bind (.modify fun _ h => h.emit ho) fun _ => handle_keeps l

theorem error_keeps (l : List Closing) (code : ℕ) : Keeps Reader.Once (error l code) :=
  .bind (tryHandle_keeps (.onError code) nofun l) fun _ => close_keeps _ _ _

theorem push_keeps (l : List Closing) (fin : Bool) (payload : Option (List UInt8)) :
    Keeps Reader.Once (push l fin payload) := by
  refine .bind (call_keeps fun r r' h hr => push_once h hr) fun _ =>
    .bind (.ite (handle_keeps l) (.pure ())) fun _ => ?_
  exact .pure false

theorem dispatch_keeps (l : List Closing) (fin : Bool) (opcode : ℕ)
    (payload : Option (List UInt8)) :
    Keeps Reader.Once (dispatch l fin opcode payload) := by
  have hargs : Keeps Reader.Once (ofExcept (decodeCloseMsg payload) : Ws (List CloseArg)) := by
    cases decodeCloseMsg payload with
    | ok args => exact .pure args
    | error stop => exact .throw stop
  refine .ite (.bind hargs fun args => .bind (tryHandle_keeps (.onClose args) nofun l) fun _ => ?_)
    (.ite ?_ (.ite ?_ (.get fun r => ?_)))
  · exact .bind (close_keeps _ _ _) fun _ => .pure false
  · refine .bind (tryHandle_keeps (.onPing payload) nofun l) fun _ =>
      .bind (call_keeps fun r r' h hr => ?_) fun _ => .pure false
    exact (send_once h hr).1
  · exact .bind (tryHandle_keeps (.onPong payload) nofun l) fun _ => .pure false
  · refine .ite (.ite ?_ ?_) (.ite ?_ ?_)
    · exact .bind (error_keeps l _) fun _ => .pure true
    · exact push_keeps l fin payload
    · exact .bind (error_keeps l _) fun _ => .pure true
    · exact .bind (.modify fun _ h => h) fun _ => push_keeps l fin payload

theorem round_keeps (e : End) (l : List Closing) : Keeps Reader.Once (round e l) := by
  refine .get fun r => .ite (.pure true) ?_
  cases read r.conn with
  | error stop => exact .bind (.modify fun _ h => h.strike e) fun _ => .throw stop
  | ok y =>
    refine .bind (.modify fun r h => ?_) fun _ => dispatch_keeps l _ _ _
    split
    · exact Reader.Once.strike (r := { r with conn := y.2 }) h e
    · exact h

/-- **The connection is closed at most once**, whatever `run` meets and however it ends. -/
theorem run_keeps (e : End) (n : ℕ) (w : ℕ → List Closing) : Keeps Reader.Once (run e n w) := by
  induction n generalizing w with
  | zero => exact .pure false
  | succ n ih => exact .bind (round_keeps e (w 0)) fun done => .ite (.pure true) (ih _)

end Ws

/-! ## How a handler ends -/

/-- The computation raises. -/
def Raises (y : Ws α) (r : Reader) : Prop := ∃ stop r', y r = .error stop r'

theorem Raises.bind {y : Ws α} (h : Raises y r) (g : α → Ws β) : Raises (y >>= g) r := by
  obtain ⟨stop, r', hy⟩ := h
  exact ⟨stop, r', bind_of_error hy⟩

theorem Raises.of_ok {y : Ws α} {g : α → Ws β} {v : α} (hy : y r = .ok v r') (h : Raises (g v) r') :
    Raises (y >>= g) r := by
  rw [Raises, bind_of_ok hy]
  exact h

/-- The calls of `ws:close` that close an open connection. -/
def Closing.Works : Closing → Prop
  | .theirs => True
  | .mine code _ crossed => code.getD CLOSE_NORMAL < 2 ^ 16 ∧ crossed = false

/-- The connection is closed by the first call, and the handler does not call `ws:close` after
    it. -/
def Closes : List Closing → Prop
  | [] => False
  | c :: l => c.Works ∧ ∀ c' ∈ l, c' = .theirs

theorem theirs_opened (r : Reader) : r.theirs.opened = false := by
  rw [Reader.theirs]
  split
  · rfl
  · exact Bool.eq_false_iff.2 ‹_›

theorem theirs_of_closed (h : r.opened = false) : r.theirs = r := by
  rw [Reader.theirs, h]
  rfl

namespace Ws

theorem close_ok (h : r.opened = true) {code : Option ℕ} (hcode : code.getD CLOSE_NORMAL < 2 ^ 16)
    (reason : Option (List UInt8)) :
    ∃ r', close code reason false r = .ok () r' ∧ r'.opened = false := by
  rw [close, Reader.close, encodeCloseMsg, Lib.packI,
    if_pos (show code.getD CLOSE_NORMAL < 256 ^ 2 from hcode)]
  simp only [bind, Except.bind]
  rw [Reader.send, if_pos h]
  exact ⟨_, rfl, rfl⟩

theorem close_raises {code : Option ℕ} {reason : Option (List UInt8)} {crossed : Bool}
    (h : ¬ (r.opened = true ∧ code.getD CLOSE_NORMAL < 2 ^ 16 ∧ crossed = false)) :
    Raises (close code reason crossed) r := by
  rw [Raises, close]
  cases hr : r.close code reason with
  | error stop => exact ⟨stop, r, rfl⟩
  | ok r' =>
    obtain ⟨msg, hmsg, hr⟩ := Lib.bind_eq_ok.1 hr
    obtain ⟨r₁, hsend, -⟩ := Lib.bind_eq_ok.1 hr
    obtain ⟨bs, hpack, -⟩ := Lib.bind_eq_ok.1 hmsg
    have hop : r.opened = true := by
      rw [Reader.send] at hsend
      split at hsend
      · assumption
      · cases hsend
    have hcode : code.getD CLOSE_NORMAL < 2 ^ 16 := by
      rw [Lib.packI] at hpack
      split at hpack
      · assumption
      · cases hpack
    cases crossed with
    | true => exact ⟨_, _, rfl⟩
    | false => exact absurd ⟨hop, hcode, rfl⟩ h

/-- What other coroutines do after the connection is closed changes nothing. -/
theorem handle_theirs (h : r.opened = false) (hl : ∀ c ∈ l, c = .theirs) :
    handle l r = .ok () r := by
  induction l with
  | nil => rfl
  | cons c l ih =>
    obtain rfl : c = .theirs := hl c List.mem_cons_self
    rw [handle, modify_bind, theirs_of_closed h]
    exact ih fun c hc => hl c (List.mem_cons_of_mem _ hc)

/-- A second call of the handler raises. -/
theorem handle_closed (h : r.opened = false) (hl : ¬ ∀ c ∈ l, c = .theirs) :
    Raises (handle l) r := by
  induction l with
  | nil => exact absurd nofun hl
  | cons c l ih =>
    cases c with
    | theirs =>
      rw [handle]
      refine .of_ok rfl ?_
      rw [theirs_of_closed h]
      exact ih fun hall => hl (List.forall_mem_cons.2 ⟨rfl, hall⟩)
    | mine code reason crossed =>
      refine .bind (close_raises fun hop => ?_) _
      rw [h] at hop
      cases hop.1

/-- **A handler with calls of `ws:close`** ends with the connection closed, or raises. -/
theorem handle_closes (h : r.opened = true) (hl : Closes l) :
    ∃ r', handle l r = .ok () r' ∧ r'.opened = false := by
  cases l with
  | nil => exact hl.elim
  | cons c l =>
    obtain ⟨hc, hl⟩ := hl
    cases c with
    | theirs =>
      have hop := theirs_opened r
      refine ⟨r.theirs, ?_, hop⟩
      rw [handle, modify_bind]
      exact handle_theirs hop hl
    | mine code reason crossed =>
      obtain ⟨hcode, rfl⟩ := hc
      obtain ⟨r', hclose, hop⟩ := close_ok h hcode reason
      refine ⟨r', ?_, hop⟩
      rw [handle, bind_of_ok hclose]
      exact handle_theirs hop hl

theorem handle_raises (h : r.opened = true) (hne : l ≠ []) (hl : ¬ Closes l) :
    Raises (handle l) r := by
  cases l with
  | nil => exact absurd rfl hne
  | cons c l =>
    cases c with
    | theirs =>
      rw [handle]
      exact .of_ok rfl (handle_closed (theirs_opened r) fun hall => hl ⟨trivial, hall⟩)
    | mine code reason crossed =>
      rw [handle]
      by_cases hc : code.getD CLOSE_NORMAL < 2 ^ 16 ∧ crossed = false
      · obtain ⟨hcode, rfl⟩ := hc
        obtain ⟨r', hclose, hop⟩ := close_ok h hcode reason
        exact .of_ok hclose (handle_closed hop fun hall => hl ⟨⟨hcode, rfl⟩, hall⟩)
      · exact .bind (close_raises fun hop => hc hop.2) _

/-- A handler after which the connection has to be open. -/
theorem handle_then_raises (h : r.opened = true) (hne : l ≠ []) {g : Unit → Ws α}
    (hg : ∀ r', r'.opened = false → Raises (g ()) r') : Raises (handle l >>= g) r := by
  by_cases hl : Closes l
  · obtain ⟨r', hhandle, hop⟩ := handle_closes h hl
    exact .of_ok hhandle (hg r' hop)
  · exact .bind (handle_raises h hne hl) _

/-- A handler is called, and the connection is closed. -/
theorem shut_ok (h : r.opened = true) (o : Obs) {code : ℕ}
    (hcode : code < 2 ^ 16) (g : Unit → Ws α) :
    ∃ r', r'.opened = false ∧
      (tryHandle o [] >>= fun _ => close (some code) none false >>= g) r = g () r' := by
  have hcode' : (some code).getD CLOSE_NORMAL < 2 ^ 16 := hcode
  obtain ⟨r', hclose, hop⟩ := close_ok (r := r.emit o) h hcode' none
  refine ⟨r', hop, ?_⟩
  rw [bind_of_ok (show tryHandle o [] r = .ok () (r.emit o) from rfl), bind_of_ok hclose]

theorem shut_raises (h : l ≠ [] ∨ r.opened = false) (o : Obs) (code : ℕ) (g : Unit → Ws α) :
    Raises (tryHandle o l >>= fun _ => close (some code) none false >>= g) r := by
  have hclose :
      ∀ r' : Reader, r'.opened = false → Raises (close (some code) none false >>= g) r' := by
    intro r' hop
    refine .bind (close_raises fun hop' => ?_) _
    rw [hop] at hop'
    cases hop'.1
  rw [tryHandle, bind_assoc]
  change Raises (handle l >>= fun _ => close (some code) none false >>= g) (r.emit o)
  by_cases hop : (r.emit o).opened = true
  · have hne : l ≠ [] := h.resolve_right (ne_of_eq_of_ne hop nofun)
    exact handle_then_raises (g := fun _ => close (some code) none false >>= g) hop hne hclose
  · rw [Bool.not_eq_true] at hop
    by_cases hl : ∀ c ∈ l, c = .theirs
    · exact .of_ok (handle_theirs hop hl) (hclose _ hop)
    · exact .bind (handle_closed hop hl) _

end Ws

theorem decodeCloseMsg_some (s : List UInt8) : ∃ args, decodeCloseMsg (some s) = .ok args := by
  rw [decodeCloseMsg]
  dsimp only
  by_cases hzero : s.length = 0
  · rw [if_pos hzero]
    exact ⟨[], rfl⟩
  · rw [if_neg hzero]
    split
    · obtain ⟨k, hunpack⟩ := Lib.unpackI_some (show 0 + 2 ≤ s.length by omega)
      rw [Nat.cast_zero, zero_add] at hunpack
      rw [hunpack]
      exact ⟨_, rfl⟩
    · obtain ⟨k, hunpack⟩ := Lib.unpackI_some (show 0 + s.length ≤ s.length by omega)
      rw [Nat.cast_zero, zero_add] at hunpack
      rw [hunpack]
      exact ⟨_, rfl⟩

/-! ## What `run` does with a frame -/

/-- The frames with which the connection is closed. -/
def Frame.Ends (f : Frame) (a : Assembly) (l : List Closing) : Prop :=
  (f.opcode = CLOSE ∨ f.Violates a) ∧ l = [] ∨
    (f.opcode = PONG ∨ f.isData = true ∧ ¬ f.Violates a ∧ f.fin = true) ∧ Closes l

/-- The frames after which `run` reads on. -/
def Frame.Passes (f : Frame) (a : Assembly) (l : List Closing) : Prop :=
  (f.opcode = PING ∨ f.opcode = PONG) ∧ l = [] ∨ f.isData = true ∧ ¬ f.Violates a ∧
    (f.fin = true → l = [])

/-- The open message after the frame, if `s` is the payload. -/
def Frame.after (f : Frame) (a : Assembly) (s : List UInt8) : Assembly :=
  if isControl f.opcode then a
  else if f.fin then none else some ((a.getD (f.opcode, [])).1, (a.getD (f.opcode, [])).2 ++ s)

/-- The connection is closed, and `run` does not read any more. -/
def Shuts (y : Ws Bool) (r : Reader) : Prop := ∃ done r', y r = .ok done r' ∧ r'.opened = false

/-- `run` reads on, with the open message `a`. -/
def ReadsOn (y : Ws Bool) (r : Reader) (a : Assembly) : Prop :=
  ∃ r', y r = .ok false r' ∧ r'.conn = r.conn ∧ r'.Holds a

/-- The buffer of `run` has the open message, whether the connection is open or not. -/
structure Reader.Buffers (r : Reader) (a : Assembly) : Prop where
  first : r.firstOpcode = a.map Prod.fst
  buffer : ∀ m, a = some m → tconcat r.t r.n = .ok m.2

theorem Reader.Holds.buffers (h : r.Holds a) : r.Buffers a := ⟨h.first, h.buffer⟩

theorem Frame.Violates.data (hv : f.Violates a) :
    f.opcode ≠ CLOSE ∧ f.opcode ≠ PING ∧ f.opcode ≠ PONG := by
  obtain ⟨hc, -⟩ := hv
  rw [← Frame.isData_iff, Frame.isData, Bool.not_eq_true']
  exact Bool.eq_false_iff.2 hc

/-- A frame that is refused. -/
theorem dispatch_refuses (h : r.Buffers a) (hv : f.Violates a) (l : List Closing)
    (p : Option (List UInt8)) :
    Ws.dispatch l f.fin f.opcode p r =
      (Ws.error l CLOSE_PROTOCOL_ERROR >>= fun _ => pure true) r := by
  obtain ⟨hclose, hping, hpong⟩ := hv.data
  rw [Ws.dispatch, if_neg hclose, if_neg hping, if_neg hpong, get_bind]
  by_cases hcont : f.opcode = CONTINUATION
  · have hfirst : r.firstOpcode = none := by rw [h.first, hv.2.1 hcont]; rfl
    rw [if_pos hcont, if_pos hfirst]
  · have hfirst : r.firstOpcode.isSome := by
      rw [h.first, Option.isSome_map, Option.isSome_iff_ne_none]
      exact fun ha => hcont (hv.2.2 ha)
    rw [if_neg hcont, if_pos hfirst]

theorem dispatch_refuses_ok (h : r.Buffers a) (hop : r.opened = true) (hv : f.Violates a)
    (p : Option (List UInt8)) : Shuts (Ws.dispatch [] f.fin f.opcode p) r := by
  obtain ⟨r', hop', hshut⟩ := Ws.shut_ok hop (.onError CLOSE_PROTOCOL_ERROR)
    (show CLOSE_PROTOCOL_ERROR < 2 ^ 16 by decide) fun _ => (pure true : Ws Bool)
  refine ⟨true, r', ?_, hop'⟩
  rw [dispatch_refuses h hv, Ws.error, bind_assoc]
  exact hshut

theorem dispatch_refuses_raises (h : r.Buffers a)
    (hl : l ≠ [] ∨ r.opened = false) (hv : f.Violates a) (p : Option (List UInt8)) :
    Raises (Ws.dispatch l f.fin f.opcode p) r := by
  rw [Raises, dispatch_refuses h hv, Ws.error, bind_assoc]
  exact Ws.shut_raises hl (.onError CLOSE_PROTOCOL_ERROR) CLOSE_PROTOCOL_ERROR _

/-- A pong. -/
theorem dispatch_pong (hpong : f.opcode = PONG) (l : List Closing)
    (p : Option (List UInt8)) (r : Reader) :
    Ws.dispatch l f.fin f.opcode p r =
      (Ws.handle l >>= fun _ => pure false) (r.emit (.onPong p)) := by
  rw [Ws.dispatch, if_neg (by rw [hpong]; decide), if_neg (by rw [hpong]; decide), if_pos hpong]
  rfl

/-- A frame of a message, which is put into the buffer. -/
theorem dispatch_pushes (h : r.Buffers a) (hd : f.isData = true)
    (hv : ¬ f.Violates a) (l : List Closing) (p : Option (List UInt8)) :
    ∃ r₀ : Reader, Ws.dispatch l f.fin f.opcode p r = Ws.push l f.fin p r₀ ∧
      r₀.opened = r.opened ∧ r₀.conn = r.conn ∧ r₀.firstOpcode = some (a.getD (f.opcode, [])).1 ∧
      tconcat r₀.t r₀.n = .ok (a.getD (f.opcode, [])).2 := by
  obtain ⟨hclose, hping, hpong⟩ := Frame.isData_iff.1 hd
  have hcontrol : ¬ isControl f.opcode := by simp [isControl, hclose, hping, hpong]
  rw [Ws.dispatch, if_neg hclose, if_neg hping, if_neg hpong, get_bind]
  cases a with
  | none =>
    have hcont : f.opcode ≠ CONTINUATION := fun hc => hv ⟨hcontrol, iff_of_true hc rfl⟩
    have hfirst : r.firstOpcode = none := h.first
    rw [if_neg hcont, if_neg (by simp [hfirst]), modify_bind]
    exact ⟨_, rfl, rfl, rfl, rfl, rfl⟩
  | some m =>
    have hcont : f.opcode = CONTINUATION := by
      by_contra hc
      exact hv ⟨hcontrol, iff_of_false hc (by simp)⟩
    have hfirst : r.firstOpcode = some m.1 := h.first
    rw [if_pos hcont, if_neg (by simp [hfirst])]
    exact ⟨r, rfl, rfl, rfl, hfirst, h.buffer m rfl⟩

/-- `push` of a whole fragment. -/
theorem push_some {op : ℕ} (hop : r.opened = true) (hfirst : r.firstOpcode = some op)
    (hbuf : tconcat r.t r.n = .ok bs) (l : List Closing) (fin : Bool) (s : List UInt8) :
    ∃ r', r'.conn = r.conn ∧ r'.Holds (if fin then none else some (op, bs ++ s)) ∧
      Ws.push l fin (some s) r =
        ((if fin then Ws.handle l else pure ()) >>= fun _ => pure false) r' := by
  obtain ⟨r', hpush, hconn, hholds, -⟩ := push_ok hop hfirst hbuf fin s
  refine ⟨r', hconn, hholds, ?_⟩
  rw [Ws.push, bind_of_ok (show Ws.call (·.push fin (some s)) r = .ok () r' by rw [Ws.call, hpush])]

/-- **A frame with which the connection is closed.** -/
theorem dispatch_ends (h : r.Holds a) (he : f.Ends a l) (s : List UInt8) :
    Shuts (Ws.dispatch l f.fin f.opcode (some s)) r := by
  rcases he with ⟨hclose | hv, rfl⟩ | ⟨hpong | ⟨hd, hv, hfin⟩, hl⟩
  · obtain ⟨args, hargs⟩ := decodeCloseMsg_some s
    obtain ⟨r', hop, hshut⟩ :=
      Ws.shut_ok h.opened (.onClose args) (show CLOSE_GOING_AWAY < 2 ^ 16 by decide)
        fun _ => (pure false : Ws Bool)
    refine ⟨false, r', ?_, hop⟩
    rw [Ws.dispatch, if_pos hclose, hargs]
    exact hshut
  · exact dispatch_refuses_ok h.buffers h.opened hv (some s)
  · obtain ⟨r', hhandle, hop⟩ := Ws.handle_closes (r := r.emit (.onPong (some s))) h.opened hl
    refine ⟨false, r', ?_, hop⟩
    rw [dispatch_pong hpong]
    exact bind_of_ok hhandle
  · obtain ⟨r₀, hdis, hop, -, hfirst, hbuf⟩ := dispatch_pushes h.buffers hd hv l (some s)
    obtain ⟨r₁, -, h₁, hpush⟩ := push_some (hop.trans h.opened) hfirst hbuf l f.fin s
    obtain ⟨r', hhandle, hop'⟩ := Ws.handle_closes h₁.opened hl
    refine ⟨false, r', ?_, hop'⟩
    rw [hdis, hpush, if_pos hfin]
    exact bind_of_ok hhandle

/-- **A frame after which `run` reads on.** -/
theorem dispatch_passes (h : r.Holds a) (hp : f.Passes a l) (s : List UInt8) :
    ReadsOn (Ws.dispatch l f.fin f.opcode (some s)) r (f.after a s) := by
  rcases hp with ⟨hping | hpong, rfl⟩ | ⟨hd, hv, hfin⟩
  · have hsend : (r.emit (.onPing (some s))).pong (some s) =
        .ok ((r.emit (.onPing (some s))).emit (.sent PONG s)) :=
      if_pos h.opened
    refine ⟨(r.emit (.onPing (some s))).emit (.sent PONG s), ?_, rfl, ?_⟩
    · rw [Ws.dispatch, if_neg (by rw [hping]; decide), if_pos hping]
      have hcall : Ws.call (·.pong (some s)) (r.emit (.onPing (some s))) =
          .ok () ((r.emit (.onPing (some s))).emit (.sent PONG s)) := by
        rw [Ws.call, hsend]
      exact bind_of_ok hcall
    · rw [Frame.after, if_pos (by rw [hping]; rfl)]
      exact ⟨h.opened, h.first, h.buffer⟩
  · refine ⟨r.emit (.onPong (some s)), ?_, rfl, ?_⟩
    · rw [dispatch_pong hpong]
      rfl
    · rw [Frame.after, if_pos (by rw [hpong]; rfl)]
      exact ⟨h.opened, h.first, h.buffer⟩
  · obtain ⟨r₀, hdis, hop, hconn, hfirst, hbuf⟩ := dispatch_pushes h.buffers hd hv l (some s)
    obtain ⟨r', hconn', h', hpush⟩ := push_some (hop.trans h.opened) hfirst hbuf l f.fin s
    refine ⟨r', ?_, hconn'.trans hconn, ?_⟩
    · rw [hdis, hpush]
      cases hf : f.fin with
      | false => rfl
      | true =>
        rw [hfin hf]
        rfl
    · have hcontrol : ¬ isControl f.opcode := by
        rw [Frame.isData, Bool.not_eq_true'] at hd
        simp [hd]
      rwa [Frame.after, if_neg hcontrol]

/-- **Any other frame** raises. -/
theorem dispatch_raises (h : r.Holds a) (he : ¬ f.Ends a l) (hp : ¬ f.Passes a l) (s : List UInt8) :
    Raises (Ws.dispatch l f.fin f.opcode (some s)) r := by
  by_cases hclose : f.opcode = CLOSE
  · obtain ⟨args, hargs⟩ := decodeCloseMsg_some s
    have hne : l ≠ [] := fun hl => he (.inl ⟨.inl hclose, hl⟩)
    rw [Ws.dispatch, if_pos hclose, hargs]
    exact Ws.shut_raises (.inl hne) (.onClose args) CLOSE_GOING_AWAY _
  by_cases hping : f.opcode = PING
  · have hne : l ≠ [] := fun hl => hp (.inl ⟨.inl hping, hl⟩)
    rw [Ws.dispatch, if_neg hclose, if_pos hping, Ws.tryHandle, bind_assoc]
    refine Ws.handle_then_raises (r := r.emit (.onPing (some s))) h.opened hne
      fun r' hop => .bind ?_ _
    have hsend :
        r'.pong (some s) = .error (.raised "attempt to index a nil value (local 'conn')") :=
      if_neg (by simp [hop])
    rw [Raises, Ws.call, hsend]
    exact ⟨_, r', rfl⟩
  by_cases hpong : f.opcode = PONG
  · have hne : l ≠ [] := fun hl => hp (.inl ⟨.inr hpong, hl⟩)
    have hl : ¬ Closes l := fun hl => he (.inr ⟨.inl hpong, hl⟩)
    rw [Raises, dispatch_pong hpong]
    exact (Ws.handle_raises (r := r.emit (.onPong (some s))) h.opened hne hl).bind _
  have hd : f.isData = true := Frame.isData_iff.2 ⟨hclose, hping, hpong⟩
  by_cases hv : f.Violates a
  · have hne : l ≠ [] := fun hl => he (.inl ⟨.inr hv, hl⟩)
    exact dispatch_refuses_raises h.buffers (.inl hne) hv (some s)
  · obtain ⟨r₀, hdis, hop, -, hfirst, hbuf⟩ := dispatch_pushes h.buffers hd hv l (some s)
    obtain ⟨r', -, h', hpush⟩ := push_some (hop.trans h.opened) hfirst hbuf l f.fin s
    have hfin : f.fin = true := by
      by_contra hf
      exact hp (.inr ⟨hd, hv, fun hf' => absurd hf' hf⟩)
    have hne : l ≠ [] := fun hl => hp (.inr ⟨hd, hv, fun _ => hl⟩)
    have hl : ¬ Closes l := fun hl => he (.inr ⟨.inr ⟨hd, hv, hfin⟩, hl⟩)
    rw [Raises, hdis, hpush, if_pos hfin]
    exact (Ws.handle_raises h'.opened hne hl).bind _

/-! ## A frame without a payload -/

/-- What comes afterwards raises. -/
theorem Raises.after {y : Ws α} {g : α → Ws β} (hg : ∀ v r', Raises (g v) r') :
    Raises (y >>= g) r := by
  cases hy : y r with
  | ok v r' => exact .of_ok hy (hg v r')
  | error stop r' => exact ⟨stop, r', bind_of_error hy⟩

/-- A payload that is nil is indexed, or concatenated. -/
theorem dispatch_nil_raises (h : r.Buffers a)
    (hf : (f.opcode = CLOSE ∨ f.opcode = PING) ∨ f.isData = true ∧ ¬ f.Violates a ∧ f.fin = true)
    (l : List Closing) : Raises (Ws.dispatch l f.fin f.opcode none) r := by
  rcases hf with (hclose | hping) | ⟨hd, hv, hfin⟩
  · rw [Ws.dispatch, if_pos hclose]
    exact ⟨_, r, rfl⟩
  · rw [Ws.dispatch, if_neg (by rw [hping]; decide), if_pos hping]
    exact .after fun _ r' => ⟨_, r', rfl⟩
  · obtain ⟨r₀, hdis, -⟩ := dispatch_pushes h hd hv l none
    have hpush : ∃ stop, r₀.push true none = .error stop := by
      rw [Reader.push]
      rcases pushString_none r₀.t r₀.n with ⟨stop, hpush⟩ | ⟨t', n', hpush, stop, hconcat⟩
      · rw [hpush]
        exact ⟨stop, rfl⟩
      · rw [hpush]
        simp only [bind, Except.bind, if_true]
        rw [hconcat]
        exact ⟨stop, rfl⟩
    obtain ⟨stop, hpush⟩ := hpush
    rw [Raises, hdis, Ws.push, hfin]
    refine Raises.bind ⟨stop, r₀, ?_⟩ _
    rw [Ws.call, hpush]

/-- A fragment that is nil stays in the buffer. -/
theorem dispatch_nil_keeps (h : r.Buffers a) (hd : f.isData = true) (hv : ¬ f.Violates a)
    (hfin : f.fin = false) (l : List Closing) :
    ∃ r', Ws.dispatch l f.fin f.opcode none r = .ok false r' ∧ r'.opened = r.opened ∧
      r'.conn = r.conn := by
  obtain ⟨r₀, hdis, hop, hconn, -, hbuf⟩ := dispatch_pushes h hd hv l none
  obtain ⟨t', n', hpush⟩ : ∃ t' n', pushString r₀.t none r₀.n = .ok (t', n') := by
    rw [pushString]
    split
    · exact ⟨_, _, rfl⟩
    · rw [hbuf]
      exact ⟨_, _, rfl⟩
  refine ⟨{ r₀ with t := t', n := n' }, ?_, hop, hconn⟩
  have hcall : Ws.call (·.push false none) r₀ = .ok () { r₀ with t := t', n := n' } := by
    rw [Ws.call, Reader.push, hpush]
    rfl
  rw [hdis, hfin, Ws.push, bind_of_ok hcall]
  rfl

/-! ## The rounds -/

/-- `run` returns. -/
def Returns (e : End) (w : ℕ → List Closing) (r : Reader) : Prop :=
  ∃ n r', Ws.run e n w r = .ok true r'

theorem round_read {fin : Bool} {op : ℕ} {p : Option (List UInt8)} (hop : r.opened = true)
    (hread : read r.conn = .ok ((fin, op, p), conn')) (e : End) (l : List Closing) :
    Ws.round e l r = Ws.dispatch l fin op p
      (if p.isNone then e.strike { r with conn := conn' } else { r with conn := conn' }) := by
  rw [Ws.round, get_bind, if_neg (by simp [hop]), hread]
  rfl

theorem round_stops (hop : r.opened = true) (hread : ∃ stop, read r.conn = .error stop) :
    Raises (Ws.round e l) r := by
  obtain ⟨stop, hread⟩ := hread
  refine ⟨stop, e.strike r, ?_⟩
  rw [Ws.round, get_bind, if_neg (by simp [hop]), hread]
  rfl

theorem not_returns (h : Raises (Ws.round e (w 0)) r) : ¬ Returns e w r := by
  rintro ⟨n, r', hrun⟩
  obtain ⟨stop, r₁, hround⟩ := h
  cases n with
  | zero => cases hrun
  | succ n =>
    rw [Ws.run, bind_of_error hround] at hrun
    cases hrun

theorem returns_next (h : Ws.round e (w 0) r = .ok false r') :
    Returns e w r ↔ Returns e (fun i => w (i + 1)) r' := by
  constructor
  · rintro ⟨n, r₁, hrun⟩
    cases n with
    | zero => cases hrun
    | succ n =>
      rw [Ws.run, bind_of_ok h] at hrun
      exact ⟨n, r₁, hrun⟩
  · rintro ⟨n, r₁, hrun⟩
    refine ⟨n + 1, r₁, ?_⟩
    rw [Ws.run, bind_of_ok h]
    exact hrun

/-- A connection that is closed is found so. -/
theorem returns_of_shuts (h : Shuts (Ws.round e (w 0)) r) : Returns e w r := by
  obtain ⟨done, r', hround, hop⟩ := h
  cases done with
  | true => exact ⟨1, r', by rw [Ws.run, bind_of_ok hround]; rfl⟩
  | false =>
    have hnext : Ws.round e (w 1) r' = .ok true r' := by
      rw [Ws.round, get_bind, if_pos hop]
      rfl
    exact (returns_next hround).2 ⟨1, r', by rw [Ws.run, bind_of_ok hnext]; rfl⟩

/-- Nothing is left to read. -/
theorem not_returns_nil (hop : r.opened = true) (hconn : r.conn.Holds []) : ¬ Returns e w r :=
  not_returns (round_stops hop (read_short hconn Nat.two_pos))

/-! ## When `run` returns -/

/-- A frame of which a part can be missing without an error. -/
def Frame.Short (f : Frame) (masked : Bool) : Prop :=
  masked = false ∧ f.payload.length < MAX_FRAME_SIZE

/-- With what is left of a frame at the end of the stream, `run` returns. -/
def CleanCut : End → Assembly → Option (Frame × Bool) → List Closing → Prop
  | _, _, none, _ => False
  | .eof, a, some (f, _), l => f.Ends a l
  | .failed _, a, some (f, masked), l =>
    f.Short masked ∧ (f.opcode = PONG ∧ Closes l ∨ f.Violates a ∧ l = [])
  | .closed _, a, some (f, masked), l => f.Short masked ∧
      (f.opcode = PONG ∧ (∀ c ∈ l, c = .theirs) ∨ f.isData = true ∧ ¬ f.Violates a ∧ f.fin = false)

/-- `run` comes to a frame with which the connection is closed, or to the end of the stream. -/
def Clean (e : End) (x : Option (Frame × Bool)) : Assembly → List Frame → (ℕ → List Closing) → Prop
  | a, [], w => CleanCut e a x (w 0)
  | a, f :: fs, w =>
    f.Ends a (w 0) ∨ f.Passes a (w 0) ∧ Clean e x (f.after a f.payload) fs fun i => w (i + 1)

/-- The peer has cut off a frame. -/
theorem returns_eof {mask : Option UInt32} {hd p : List UInt8} (h : r.Holds a)
    (hf : f.IsHead mask hd) (hlt : p.length < f.payload.length) (hconn : r.conn.Holds (hd ++ p))
    (hend : r.conn.ending = .closed) :
    Returns .eof w r ↔ f.Ends a (w 0) := by
  obtain ⟨s, conn', hread, hconn', -⟩ := read_closed hf hlt hconn hend
  have hround := round_read h.opened hread .eof (w 0)
  have h' : Reader.Holds { r with conn := conn' } a := ⟨h.opened, h.first, h.buffer⟩
  by_cases he : f.Ends a (w 0)
  · refine iff_of_true (returns_of_shuts ?_) he
    rw [Shuts, hround]
    exact dispatch_ends h' he s
  · refine iff_of_false ?_ he
    by_cases hp : f.Passes a (w 0)
    · -- the next round finds nothing
      obtain ⟨r', hdis, hc, h''⟩ := dispatch_passes h' hp s
      rw [returns_next (hround.trans hdis)]
      exact not_returns_nil h''.opened (hc ▸ hconn')
    · refine not_returns ?_
      rw [Raises, hround]
      exact dispatch_raises h' he hp s

/-- The frames that are neither a pong nor refused. -/
theorem Frame.kinds (f : Frame) (a : Assembly) (hpong : f.opcode ≠ PONG) (hv : ¬ f.Violates a) :
    ((f.opcode = CLOSE ∨ f.opcode = PING) ∨ f.isData = true ∧ ¬ f.Violates a ∧ f.fin = true) ∨
      f.isData = true ∧ f.fin = false := by
  by_cases hctl : f.opcode = CLOSE ∨ f.opcode = PING
  · exact .inl (.inl hctl)
  · rw [not_or] at hctl
    have hd : f.isData = true := Frame.isData_iff.2 ⟨hctl.1, hctl.2, hpong⟩
    cases hfin : f.fin with
    | true => exact .inl (.inr ⟨hd, hv, rfl⟩)
    | false => exact .inr ⟨hd, rfl⟩

theorem Frame.not_short (f : Frame) {mask : Option UInt32} (h : ¬ f.Short mask.isSome) :
    ¬ (mask = none ∧ f.payload.length < MAX_FRAME_SIZE) :=
  fun hm => h ⟨by rw [hm.1]; rfl, hm.2⟩

/-- A part of a frame fails to be read. -/
theorem returns_failed {mask : Option UInt32} {hd p : List UInt8} {err : ℕ} (h : r.Holds a)
    (hf : f.IsHead mask hd) (hlt : p.length < f.payload.length) (hconn : r.conn.Holds (hd ++ p))
    (hend : r.conn.ending = .failed err) :
    Returns (.failed err) w r ↔
      f.Short mask.isSome ∧ (f.opcode = PONG ∧ Closes (w 0) ∨ f.Violates a ∧ w 0 = []) := by
  obtain ⟨hshort, hlong⟩ := read_failed hf hlt hconn hend
  by_cases hs : f.Short mask.isSome
  swap
  · exact iff_of_false (not_returns (round_stops h.opened (hlong (f.not_short hs)))) fun hr => hs hr.1
  obtain ⟨conn', hread, hconn', -⟩ :=
    hshort ⟨Option.not_isSome_iff_eq_none.1 (by simp [hs.1]), hs.2⟩
  have hround : Ws.round (.failed err) (w 0) r =
      Ws.dispatch (w 0) f.fin f.opcode none { r with conn := conn' } :=
    round_read h.opened hread (.failed err) (w 0)
  have h' : Reader.Buffers { r with conn := conn' } a := ⟨h.first, h.buffer⟩
  by_cases hpong : f.opcode = PONG
  · have hnv : ¬ f.Violates a := fun hv => hv.data.2.2 hpong
    rw [dispatch_pong hpong] at hround
    by_cases hl : Closes (w 0)
    · obtain ⟨r', hhandle, hop⟩ :=
        Ws.handle_closes (r := Reader.emit { r with conn := conn' } (.onPong none)) h.opened hl
      exact iff_of_true (returns_of_shuts ⟨false, r', hround.trans (bind_of_ok hhandle), hop⟩)
        ⟨hs, .inl ⟨hpong, hl⟩⟩
    · refine iff_of_false ?_ fun hr => hr.2.elim (fun hp => hl hp.2) fun hp => hnv hp.1
      by_cases hnil : w 0 = []
      · have hnext : Ws.round (.failed err) (w 0) r =
            .ok false (Reader.emit { r with conn := conn' } (.onPong none)) := by
          rw [hround, hnil]
          rfl
        rw [returns_next hnext]
        exact not_returns_nil h.opened hconn'
      · refine not_returns ?_
        rw [Raises, hround]
        exact (Ws.handle_raises (r := Reader.emit { r with conn := conn' } (.onPong none))
          h.opened hnil hl).bind _
  by_cases hv : f.Violates a
  · by_cases hnil : w 0 = []
    · refine iff_of_true (returns_of_shuts ?_) ⟨hs, .inr ⟨hv, hnil⟩⟩
      rw [Shuts, hround, hnil]
      exact dispatch_refuses_ok h' h.opened hv none
    · refine iff_of_false (not_returns ?_) fun hr =>
        hr.2.elim (fun hp => hpong hp.1) fun hp => hnil hp.2
      rw [Raises, hround]
      exact dispatch_refuses_raises h' (.inl hnil) hv none
  · refine iff_of_false ?_ fun hr => hr.2.elim (fun hp => hpong hp.1) fun hp => hv hp.1
    rcases f.kinds a hpong hv with hbad | ⟨hdata, hfin⟩
    · refine not_returns ?_
      rw [Raises, hround]
      exact dispatch_nil_raises h' hbad _
    · obtain ⟨r', hdis, hop, hc⟩ := dispatch_nil_keeps h' hdata hv hfin (w 0)
      rw [returns_next (hround.trans hdis)]
      exact not_returns_nil (hop.trans h.opened) (hc ▸ hconn')

/-- Another coroutine closes the connection while `run` waits for a part of a frame. -/
theorem returns_closed {mask : Option UInt32} {hd p : List UInt8} {err : ℕ} (h : r.Holds a)
    (hf : f.IsHead mask hd) (hlt : p.length < f.payload.length) (hconn : r.conn.Holds (hd ++ p))
    (hend : r.conn.ending = .failed err) :
    Returns (.closed err) w r ↔ f.Short mask.isSome ∧
      (f.opcode = PONG ∧ (∀ c ∈ w 0, c = .theirs) ∨
        f.isData = true ∧ ¬ f.Violates a ∧ f.fin = false) := by
  obtain ⟨hshort, hlong⟩ := read_failed hf hlt hconn hend
  by_cases hs : f.Short mask.isSome
  swap
  · exact iff_of_false (not_returns (round_stops h.opened (hlong (f.not_short hs)))) fun hr => hs hr.1
  obtain ⟨conn', hread, -⟩ := hshort ⟨Option.not_isSome_iff_eq_none.1 (by simp [hs.1]), hs.2⟩
  -- the connection is closed when the read ends
  obtain ⟨r₁, hround, hop, h'⟩ : ∃ r₁ : Reader,
      Ws.round (.closed err) (w 0) r = Ws.dispatch (w 0) f.fin f.opcode none r₁ ∧
        r₁.opened = false ∧ r₁.Buffers a := by
    refine ⟨Reader.theirs { r with conn := conn' }, round_read h.opened hread _ _,
      theirs_opened _, ?_⟩
    rw [Reader.theirs, if_pos h.opened]
    exact ⟨h.first, h.buffer⟩
  by_cases hpong : f.opcode = PONG
  · have hd : f.isData ≠ true := fun hd => (Frame.isData_iff.1 hd).2.2 hpong
    rw [dispatch_pong hpong] at hround
    have hop' : (r₁.emit (.onPong none)).opened = false := hop
    by_cases hl : ∀ c ∈ w 0, c = .theirs
    · refine iff_of_true (returns_of_shuts ⟨false, r₁.emit (.onPong none), ?_, hop⟩)
        ⟨hs, .inl ⟨hpong, hl⟩⟩
      rw [hround]
      exact bind_of_ok (Ws.handle_theirs hop' hl)
    · refine iff_of_false (not_returns ?_) fun hr => hr.2.elim (fun hp => hl hp.2) fun hp => hd hp.1
      rw [Raises, hround]
      exact (Ws.handle_closed hop' hl).bind _
  by_cases hv : f.Violates a
  · refine iff_of_false (not_returns ?_) fun hr =>
      hr.2.elim (fun hp => hpong hp.1) fun hp => hp.2.1 hv
    rw [Raises, hround]
    exact dispatch_refuses_raises h' (.inr hop) hv none
  · rcases f.kinds a hpong hv with hbad | ⟨hdata, hfin⟩
    · refine iff_of_false (not_returns ?_) fun hr => hr.2.elim (fun hp => hpong hp.1) fun hp => ?_
      · rw [Raises, hround]
        exact dispatch_nil_raises h' hbad _
      · obtain ⟨hdata, -, hfin⟩ := hp
        obtain ⟨hclose, hping, -⟩ := Frame.isData_iff.1 hdata
        rcases hbad with (hc | hp) | ⟨-, -, hfin'⟩
        · exact hclose hc
        · exact hping hp
        · rw [hfin] at hfin'
          cases hfin'
    · obtain ⟨r', hdis, hop', -⟩ := dispatch_nil_keeps h' hdata hv hfin (w 0)
      exact iff_of_true (returns_of_shuts ⟨false, r', hround.trans hdis, hop'.trans hop⟩)
        ⟨hs, .inr ⟨hdata, hv, hfin⟩⟩

theorem returns_cut (h : r.Holds a) (hcut : CutOff rest x) (hconn : r.conn.Holds rest)
    (hend : r.conn.ending = e.ending) : Returns e w r ↔ CleanCut e a x (w 0) := by
  cases hcut with
  | head hf hpre hlt =>
    refine iff_of_false (not_returns (round_stops h.opened (read_head hf hpre hlt hconn))) ?_
    cases e <;> exact not_false
  | payload hf hpre hlt =>
    rw [Frame.body_length] at hlt
    cases e with
    | eof => exact returns_eof h hf hlt hconn hend
    | failed err => exact returns_failed h hf hlt hconn hend
    | closed err => exact returns_closed h hf hlt hconn hend

/-- **When `run` returns**, for frames and a part of one. -/
theorem returns_iff (h : r.Holds a) (henc : Encoded fs bss) (hcut : CutOff rest x)
    (hconn : r.conn.Holds (bss.flatten ++ rest)) (hend : r.conn.ending = e.ending) :
    Returns e w r ↔ Clean e x a fs w := by
  induction henc generalizing r a w with
  | nil => exact returns_cut h hcut hconn hend
  | @cons f bs fs bss hf henc ih =>
    rw [List.flatten_cons, List.append_assoc] at hconn
    obtain ⟨conn', hread, hconn', hend'⟩ := read_holds hf hconn
    have hround := round_read h.opened hread e (w 0)
    have h' : Reader.Holds { r with conn := conn' } a := ⟨h.opened, h.first, h.buffer⟩
    rw [Clean]
    by_cases he : f.Ends a (w 0)
    · refine iff_of_true (returns_of_shuts ?_) (.inl he)
      rw [Shuts, hround]
      exact dispatch_ends h' he f.payload
    by_cases hp : f.Passes a (w 0)
    · obtain ⟨r', hdis, hc, h''⟩ := dispatch_passes h' hp f.payload
      rw [returns_next (hround.trans hdis), ih h'' (hc ▸ hconn') (hc ▸ hend'.trans hend)]
      exact ⟨fun hclean => .inr ⟨hp, hclean⟩, fun hclean => (hclean.resolve_left he).2⟩
    · refine iff_of_false (not_returns ?_) fun hclean => hp (hclean.resolve_left he).1
      rw [Raises, hround]
      exact dispatch_raises h' he hp f.payload

/-- `run` returns normally, and the connection is closed at most once. -/
def EndsCleanly (e : End) (w : ℕ → List Closing) (conn : Conn) : Prop :=
  Returns e w (.start conn) ∧ ∀ n, (final (Ws.run e n w) (.start conn)).log.count .closed ≤ 1

/-- **`run` ends cleanly** when it comes to a frame with which the connection is closed, or
    when what is left of a frame is taken for one. -/
theorem run_ends_iff (henc : Encoded fs bss) (hcut : CutOff rest x)
    (hconn : conn.Holds (bss.flatten ++ rest)) (hend : conn.ending = e.ending) :
    EndsCleanly e w conn ↔ Clean e x none fs w := by
  rw [EndsCleanly, returns_iff (start_holds conn) henc hcut hconn hend, and_iff_left]
  intro n
  have honce : Reader.Once (.start conn) := Nat.le_refl 0
  refine (Ws.run_keeps e n w _ honce).trans ?_
  split <;> decide

def closeFrame : Frame := ⟨true, CLOSE, [], by decide, by decide⟩

/-- The peer says that it closes the connection. -/
theorem run_ends_close : EndsCleanly .eof (fun _ => []) ⟨[[0x88], [0x00]], .closed⟩ := by
  have hhead : closeFrame.IsHead none [0x88, 0x00] := ⟨0, [], .short (by decide), rfl⟩
  have henc : Encoded [closeFrame] [[0x88, 0x00]] :=
    .cons ⟨none, 0, [], .short (by decide), rfl⟩ .nil
  have hcut : CutOff [] none := .head hhead List.nil_prefix (by decide)
  exact (run_ends_iff henc hcut ⟨rfl, by decide⟩ rfl).2 (.inl (.inl ⟨.inl rfl, rfl⟩))

/-- The peer closes the connection without a word. -/
theorem run_not_ends : ¬ EndsCleanly .eof (fun _ => []) ⟨[], .closed⟩ :=
  fun h => not_returns_nil rfl ⟨rfl, List.forall_mem_nil _⟩ h.1

end Levent.WebSocket
