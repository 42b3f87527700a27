/-
  The data path of a socket: the functions `_sock_recv`, `_sock_send`,
  `_sock_recvfrom` and `_sock_sendto` of `lua-socket.c`, and the methods of `Socket`
  that call them until they have a result.

  A `Round` has the answers of the world to one round of such a loop; when there are
  no rounds left, the call goes on waiting.  A transfer is of less than 2^31 bytes, as
  that is the most the kernel does at once, so that `nread` and `nwrite` do not overflow.
  The length that is asked for is not negative, and the array of that length, which
  `_sock_recv` and `_sock_recvfrom` have on the C stack, fits there.
-/
import Levent.Stream
import Mathlib.Data.List.TakeWhile
import Mathlib.Data.Rat.Defs

namespace Levent.Transfer

open Lib (Lua Stop)

/-- The values that the calls give back; `exn` is raised by `hub.wait`. -/
inductive Val (ε : Type) where
  | nil
  | int (n : ℤ)
  | str (s : List UInt8)
  | exn (e : ε)

variable {ε : Type}

/-- What a condition of Lua takes for true. -/
def Val.truthy : Val ε → Bool
  | .nil => false
  | _ => true

structure Round (ε : Type) where
  /-- `getaddrinfo`, for the address of `sendto` -/
  addr : ℤ
  /-- `recv` and `recvfrom`, for so many bytes -/
  recv : ℕ → Except ℤ (List UInt8)
  /-- `send` and `sendto`, for so many bytes -/
  send : ℕ → Except ℤ ℕ
  /-- `getnameinfo`, for the sender of what `recvfrom` receives -/
  name : Except ℤ (List UInt8 × List UInt8)
  /-- `_wait` -/
  wait : Except ε Unit

structure Sock where
  family : ℕ
  timeout : Option ℚ
  closed : Bool

def AF_INET : ℕ := 2
def AF_INET6 : ℕ := 10

def EBADF : ℤ := 9
def EAGAIN : ℤ := 11
def EWOULDBLOCK : ℤ := 11

/-! ## lua-socket.c -/

/-- What Lua gets from a C function that has pushed `stack` and returns `k`. -/
def results (stack : List (Val ε)) (k : ℕ) : List (Val ε) := stack.drop (stack.length - k)

/-- `luaL_argerror`: the functions are called by the name `func`. -/
def argerror (arg : ℕ) (msg : String) : Stop := .raised s!"bad argument #{arg} to 'func' ({msg})"

/-- A Lua integer as a `size_t` -/
def sizeT (n : ℤ) : ℕ := if 0 ≤ n then n.toNat else (n + 2 ^ 64).toNat

/-- `_getsockaddrlen` finds the length. -/
def Sock.hasAddrlen (sock : Sock) : Bool := sock.family = AF_INET || sock.family = AF_INET6

/-- `_makeaddr`, what it pushes -/
def _makeaddr (r : Round ε) : List (Val ε) :=
  match r.name with
  | .error err => [.nil, .int err]
  | .ok (ip, port) => [.str ip, .str port]

def _sockRecv (len : ℕ) (r : Round ε) : Lua (List (Val ε)) :=
  match r.recv len with
  | .error errno => .ok (results [.nil, .int errno] 2)
  | .ok buf => .ok (results [.str buf] 1)

def _sockSend (data : List UInt8) (start : Option ℤ) (r : Round ε) : Lua (List (Val ε)) :=
  let start := sizeT (start.getD 0)
  if data.length ≤ start then .error (argerror 3 "should be less than length of argument #2")
  else
    match r.send (data.length - start) with
    | .error errno => .ok (results [.nil, .int errno] 2)
    | .ok nwrite => .ok (results [.int nwrite] 1)

def _sockRecvfrom (sock : Sock) (len : ℕ) (r : Round ε) : Lua (List (Val ε)) :=
  if !sock.hasAddrlen then .error (argerror 1 "bad family")
  else
    match r.recv len with
    | .error errno => .ok (results [.nil, .int errno] 2)
    | .ok buf => .ok (results (.str buf :: _makeaddr r) (2 + 1))

def _sockSendto (data : List UInt8) (start : Option ℤ) (r : Round ε) : Lua (List (Val ε)) :=
  let start := sizeT (start.getD 0)
  if data.length ≤ start then .error (argerror 5 "should be less than length of argument #4")
  else if r.addr ≠ 0 then .ok (results [.nil, .int r.addr] 1)
  else
    match r.send (data.length - start) with
    | .error errno => .ok (results [.nil, .int errno] 2)
    | .ok nwrite => .ok (results [.int nwrite] 1)

/-! ## socket.lua -/

/-- `Socket:_need_block` -/
def Sock._needBlock (sock : Sock) : Val ε → Bool
  | .int err => sock.timeout ≠ some 0 && (err = EWOULDBLOCK || err = EAGAIN)
  | _ => false

/-- One round of the loop of `Socket:_recv` and `Socket:_send`: its results, unless it
    goes on. -/
def Sock.tryOnce (sock : Sock) (func : Round ε → Lua (List (Val ε))) (r : Round ε) :
    Option (Lua (List (Val ε))) :=
  match func r with
  | .error e => some (.error e)
  | .ok rets =>
    let data := rets.headD .nil
    let err := rets.tail.headD .nil
    if data.truthy then some (.ok [data])
    else if !sock._needBlock err then some (.ok [.nil, err])
    else
      match r.wait with
      | .error exception => some (.ok [.nil, .exn exception])
      | .ok _ => none

/-- `Socket:_recv` and `Socket:_send`, and the rounds that are left. -/
def Sock.loop (sock : Sock) (func : Round ε → Lua (List (Val ε))) :
    Round ε → List (Round ε) → Lua (List (Val ε)) × List (Round ε)
  | r, rounds =>
    match sock.tryOnce func r with
    | some res => (res, rounds)
    | none =>
      match rounds with
      | [] => (.error .unfinished, [])
      | r :: rounds => Sock.loop sock func r rounds

/-- A call of a method; the address of `sendto` only goes to `getaddrinfo`. -/
inductive Call where
  | recv (len : ℕ)
  | recvfrom (len : ℕ)
  | send (data : List UInt8) (start : Option ℤ)
  | sendto (data : List UInt8) (start : Option ℤ)

/-- The function that the method calls: a method of `self.cobj`, which is
    `closed_socket` when the socket is closed. -/
def Call.func (sock : Sock) (c : Call) (r : Round ε) : Lua (List (Val ε)) :=
  if sock.closed then .ok [.nil, .int EBADF]
  else
    match c with
    | .recv len => _sockRecv len r
    | .recvfrom len => _sockRecvfrom sock len r
    | .send data start => _sockSend data start r
    | .sendto data start => _sockSendto data start r

/-- `Socket:recv`, `Socket:recvfrom`, `Socket:send` and `Socket:sendto` -/
def Call.run (sock : Sock) (c : Call) (r : Round ε) (rounds : List (Round ε)) :
    Lua (List (Val ε)) × List (Round ε) :=
  sock.loop (c.func sock) r rounds

/-! ## What a round comes to -/

/-- The checks of the arguments: the family of the socket, and that there is something
    to send. -/
def Call.Accepts (sock : Sock) : Call → Prop
  | .recv _ => True
  | .recvfrom _ => sock.hasAddrlen
  | .send data start | .sendto data start => sizeT (start.getD 0) < data.length

/-- The system call that a round makes, with what it reports, if it comes to it. -/
def Call.sys (sock : Sock) (c : Call) (r : Round ε) : Option (Except ℤ (Val ε)) :=
  if sock.closed then none
  else
    match c with
    | .recv len | .recvfrom len => some ((r.recv len).map .str)
    | .send data start => some ((r.send (data.length - sizeT (start.getD 0))).map fun (n : ℕ) => .int n)
    | .sendto data start =>
      if r.addr ≠ 0 then none
      else some ((r.send (data.length - sizeT (start.getD 0))).map fun (n : ℕ) => .int n)

/-- The error that ends a call in its round `r`. -/
inductive Call.Error (sock : Sock) (c : Call) (r : Round ε) : Val ε → Prop
  | closed : sock.closed = true → Error sock c r (.int EBADF)
  | address {data : List UInt8} {start : Option ℤ} : sock.closed = false → c = .sendto data start →
      r.addr ≠ 0 → Error sock c r (.int r.addr)
  | sys {errno : ℤ} : c.sys sock r = some (.error errno) → Error sock c r (.int errno)
  | wait {errno : ℤ} {e : ε} : c.sys sock r = some (.error errno) → r.wait = .error e →
      Error sock c r (.exn e)

/-- The system call has to wait, and the wait ends well. -/
def Call.blocks (sock : Sock) (c : Call) (r : Round ε) : Bool :=
  match c.sys sock r, r.wait with
  | some (.error errno), .ok _ => sock._needBlock (.int errno : Val ε)
  | _, _ => false

/-- The first result is truthy only if the last system call has succeeded, and is what
    it reported; otherwise it is nil, and the second is the error. -/
def Call.Visible (sock : Sock) (c : Call) (r : Round ε) (rounds : List (Round ε)) : Prop :=
  match c.run sock r rounds with
  | (.error (.raised _), _) => False
  | (.error .unfinished, _) => True
  | (.ok res, rest) => ∃ pre last, r :: rounds = pre ++ last :: rest ∧
      ((∃ v, c.sys sock last = some (.ok v) ∧ res = [v]) ∨
        ∃ err, c.Error sock last err ∧ res = [.nil, err])

/-- No round ends the call by an address that cannot be parsed. -/
def Call.Parses (sock : Sock) (c : Call) (r : Round ε) (rounds : List (Round ε)) : Prop :=
  ∀ data start, c = .sendto data start →
    ∀ last ∈ ((r :: rounds).dropWhile (c.blocks sock)).head?, last.addr = 0

/-! ## The loop -/

section
variable {sock : Sock} {func : Round ε → Lua (List (Val ε))} {r : Round ε} {rounds : List (Round ε)}

/-- **A loop ends** with the first round that gives something, or goes on. -/
theorem Sock.loop_spec (sock : Sock) (func : Round ε → Lua (List (Val ε))) (r : Round ε)
    (rounds : List (Round ε)) :
    (∃ pre last rest res, r :: rounds = pre ++ last :: rest ∧
        (∀ x ∈ pre, sock.tryOnce func x = none) ∧ sock.tryOnce func last = some res ∧
        sock.loop func r rounds = (res, rest)) ∨
      (∀ x ∈ r :: rounds, sock.tryOnce func x = none) ∧
        sock.loop func r rounds = (.error .unfinished, []) := by
  induction rounds generalizing r with
  | nil =>
    rw [Sock.loop]
    cases h : sock.tryOnce func r with
    | some res => exact .inl ⟨[], r, [], res, rfl, by simp, h, rfl⟩
    | none => exact .inr ⟨by simpa using h, rfl⟩
  | cons r' rounds ih =>
    rw [Sock.loop]
    cases h : sock.tryOnce func r with
    | some res => exact .inl ⟨[], r, r' :: rounds, res, rfl, by simp, h, rfl⟩
    | none =>
      rcases ih r' with ⟨pre, last, rest, res, heq, hpre, hlast, hloop⟩ | ⟨hall, hloop⟩
      · refine .inl ⟨r :: pre, last, rest, res, congrArg _ heq, ?_, hlast, hloop⟩
        exact List.forall_mem_cons.2 ⟨h, hpre⟩
      · exact .inr ⟨List.forall_mem_cons.2 ⟨h, hall⟩, hloop⟩

/-- Rounds in which it goes on do not matter. -/
theorem Sock.loop_skip {pre rest : List (Round ε)} {last : Round ε}
    (heq : r :: rounds = pre ++ last :: rest) (hpre : ∀ x ∈ pre, sock.tryOnce func x = none) :
    sock.loop func r rounds = sock.loop func last rest := by
  induction pre generalizing r rounds with
  | nil => cases heq; rfl
  | cons x pre ih =>
    rw [List.cons_append, List.cons.injEq] at heq
    obtain ⟨rfl, hrounds⟩ := heq
    obtain ⟨y, ys, rfl⟩ := List.exists_cons_of_ne_nil (show rounds ≠ [] by rw [hrounds]; simp)
    rw [Sock.loop, hpre r List.mem_cons_self]
    exact ih hrounds fun x hx => hpre x (List.mem_cons_of_mem _ hx)

end

/-! ## The functions -/

section
variable {sock : Sock} {c : Call} {r : Round ε} {rounds : List (Round ε)}

theorem Call.sys_none (hopen : sock.closed = false) :
    c.sys sock r = none ↔ (∃ data start, c = .sendto data start) ∧ r.addr ≠ 0 := by
  unfold Call.sys
  rw [if_neg (by rw [hopen]; exact Bool.false_ne_true)]
  cases c with
  | sendto data start => by_cases h : r.addr = 0 <;> simp [h]
  | _ => simp

theorem Call.Error.truthy {err : Val ε} (h : c.Error sock r err) : err.truthy = true := by
  cases h <;> rfl

/-- A function whose arguments are wrong raises. -/
theorem Call.func_raises (hopen : sock.closed = false) (hargs : ¬ c.Accepts sock) :
    ∃ msg, c.func sock r = .error (.raised msg) := by
  unfold Call.func
  rw [if_neg (by rw [hopen]; exact Bool.false_ne_true)]
  cases c with
  | recv len => exact absurd trivial hargs
  | recvfrom len => exact ⟨_, if_pos (by simpa [Call.Accepts] using hargs)⟩
  | send data start => exact ⟨_, if_pos (Nat.le_of_not_lt hargs)⟩
  | sendto data start => exact ⟨_, if_pos (Nat.le_of_not_lt hargs)⟩

/-- **The results of a function** are those of the system call, but for an address that
    cannot be parsed: then the error is the only one. -/
theorem Call.func_spec (hopen : sock.closed = false) (hargs : c.Accepts sock) :
    (∃ v more, c.sys sock r = some (.ok v) ∧ v.truthy = true ∧ c.func sock r = .ok (v :: more)) ∨
    (∃ errno, c.sys sock r = some (.error errno) ∧ c.func sock r = .ok [.nil, .int errno]) ∨
    c.sys sock r = none ∧ c.func sock r = .ok [.int r.addr] := by
  unfold Call.sys Call.func
  rw [if_neg (by rw [hopen]; exact Bool.false_ne_true), if_neg (by rw [hopen]; exact Bool.false_ne_true)]
  cases c with
  | recv len =>
    dsimp only [_sockRecv]
    cases r.recv len with
    | error errno => exact .inr (.inl ⟨errno, rfl, rfl⟩)
    | ok buf => exact .inl ⟨.str buf, [], rfl, rfl, rfl⟩
  | recvfrom len =>
    have hfam : ¬ (!sock.hasAddrlen) = true := by simpa [Call.Accepts] using hargs
    dsimp only [_sockRecvfrom]
    rw [if_neg hfam]
    cases r.recv len with
    | error errno => exact .inr (.inl ⟨errno, rfl, rfl⟩)
    | ok buf =>
      refine .inl ⟨.str buf, _makeaddr r, rfl, rfl, ?_⟩
      unfold _makeaddr
      cases r.name <;> rfl
  | send data start =>
    dsimp only [_sockSend]
    rw [if_neg (Nat.not_le.2 hargs)]
    cases r.send (data.length - sizeT (start.getD 0)) with
    | error errno => exact .inr (.inl ⟨errno, rfl, rfl⟩)
    | ok nwrite => exact .inl ⟨.int nwrite, [], rfl, rfl, rfl⟩
  | sendto data start =>
    dsimp only [_sockSendto]
    rw [if_neg (Nat.not_le.2 hargs)]
    by_cases haddr : r.addr ≠ 0
    · rw [if_pos haddr, if_pos haddr]
      exact .inr (.inr ⟨rfl, rfl⟩)
    · rw [if_neg haddr, if_neg haddr]
      cases r.send (data.length - sizeT (start.getD 0)) with
      | error errno => exact .inr (.inl ⟨errno, rfl, rfl⟩)
      | ok nwrite => exact .inl ⟨.int nwrite, [], rfl, rfl, rfl⟩

/-- **A round** goes on if it blocks, or gives the call its results. -/
theorem Call.tryOnce_spec (hopen : sock.closed = false) (hargs : c.Accepts sock) :
    c.blocks sock r = true ∧ sock.tryOnce (c.func sock) r = none ∨
    c.blocks sock r = false ∧ ∃ res, sock.tryOnce (c.func sock) r = some (.ok res) ∧
      (c.sys sock r ≠ none ∧ ((∃ v, c.sys sock r = some (.ok v) ∧ res = [v]) ∨
          ∃ err, c.Error sock r err ∧ res = [.nil, err]) ∨
        c.sys sock r = none ∧ res = [.int r.addr]) := by
  unfold Call.blocks Sock.tryOnce
  rcases Call.func_spec (r := r) hopen hargs with ⟨v, more, hsys, hv, hfunc⟩ | ⟨errno, hsys, hfunc⟩ |
    ⟨hsys, hfunc⟩
  · rw [hsys, hfunc]
    refine .inr ⟨rfl, [v], ?_, .inl ⟨nofun, .inl ⟨v, rfl, rfl⟩⟩⟩
    exact if_pos hv
  · rw [hsys, hfunc]
    simp only [List.headD_cons, List.tail_cons, Val.truthy, Bool.false_eq_true, if_false]
    by_cases hneed : sock._needBlock (.int errno : Val ε) = true
    · simp only [hneed, Bool.not_true, Bool.false_eq_true, if_false]
      cases hwait : r.wait with
      | ok _ => exact .inl ⟨hneed, rfl⟩
      | error e => exact .inr ⟨rfl, _, rfl, .inl ⟨nofun, .inr ⟨_, .wait hsys hwait, rfl⟩⟩⟩
    · rw [Bool.not_eq_true] at hneed
      simp only [hneed, Bool.not_false, if_true]
      refine .inr ⟨?_, _, rfl, .inl ⟨nofun, .inr ⟨_, .sys hsys, rfl⟩⟩⟩
      cases r.wait with
      | ok _ => exact hneed
      | error e => rfl
  · rw [hsys, hfunc]
    refine .inr ⟨?_, _, rfl, .inr ⟨rfl, rfl⟩⟩
    cases r.wait <;> rfl

theorem Call.blocks_of_none (hopen : sock.closed = false) (hargs : c.Accepts sock)
    (h : sock.tryOnce (c.func sock) r = none) : c.blocks sock r = true := by
  rcases Call.tryOnce_spec (r := r) hopen hargs with ⟨hb, -⟩ | ⟨-, res, hres, -⟩
  · exact hb
  · rw [h] at hres
    cases hres

end

/-! ## Failures are visible -/

section
variable {sock : Sock} {c : Call} {r : Round ε} {rounds : List (Round ε)}

/-- On a closed socket a call returns an error at once. -/
theorem Call.run_closed (hclosed : sock.closed = true) :
    c.run sock r rounds = (.ok [.nil, .int EBADF], rounds) := by
  unfold Call.run
  have hfunc : c.func sock r = .ok [.nil, .int EBADF] := if_pos hclosed
  have hneed : sock._needBlock (.int EBADF : Val ε) = false := by
    simp [Sock._needBlock, EBADF, EWOULDBLOCK, EAGAIN]
  have htry : sock.tryOnce (c.func sock) r = some (.ok [.nil, .int EBADF]) := by
    simp [Sock.tryOnce, hfunc, hneed, Val.truthy]
  unfold Sock.loop
  rw [htry]

/-- A call with wrong arguments raises. -/
theorem Call.run_raises (r : Round ε) (rounds : List (Round ε)) (hopen : sock.closed = false)
    (hargs : ¬ c.Accepts sock) :
    ∃ msg, c.run sock r rounds = (.error (.raised msg), rounds) := by
  obtain ⟨msg, hfunc⟩ := Call.func_raises (r := r) hopen hargs
  have htry : sock.tryOnce (c.func sock) r = some (.error (.raised msg)) := by rw [Sock.tryOnce, hfunc]
  refine ⟨msg, ?_⟩
  unfold Call.run Sock.loop
  rw [htry]

/-- The round before those that are left. -/
theorem last_eq {pre pre' rest : List (Round ε)} {last last' : Round ε}
    (h : pre ++ last :: rest = pre' ++ last' :: rest) : last = last' := by
  rw [List.append_cons, List.append_cons pre'] at h
  have hinit := List.append_cancel_right h
  exact List.singleton_inj.1 (List.append_inj' hinit rfl).2

/-- The round that ends the call decides whether an address is not parsed. -/
theorem Call.parses_iff {pre rest : List (Round ε)} {last : Round ε} (hopen : sock.closed = false)
    (heq : r :: rounds = pre ++ last :: rest) (hpre : ∀ x ∈ pre, c.blocks sock x = true)
    (hlast : c.blocks sock last = false) : c.Parses sock r rounds ↔ c.sys sock last ≠ none := by
  have hdrop : (r :: rounds).dropWhile (c.blocks sock) = last :: rest := by
    rw [heq, List.dropWhile_append_of_pos hpre, List.dropWhile_cons_of_neg (by simp [hlast])]
  unfold Call.Parses
  rw [hdrop, Ne, Call.sys_none hopen]
  simp

/-- Its system call also decides whether the failure is visible. -/
theorem Call.visible_last {pre rest : List (Round ε)} {last : Round ε} {res : List (Val ε)}
    (heq : r :: rounds = pre ++ last :: rest) (hrun : c.run sock r rounds = (.ok res, rest))
    (hres : c.sys sock last ≠ none ∧ ((∃ v, c.sys sock last = some (.ok v) ∧ res = [v]) ∨
        ∃ err, c.Error sock last err ∧ res = [.nil, err]) ∨
      c.sys sock last = none ∧ res = [.int last.addr]) :
    c.Visible sock r rounds ↔ c.sys sock last ≠ none := by
  unfold Call.Visible
  rw [hrun]
  rcases hres with ⟨hsys, hvisible⟩ | ⟨hsys, rfl⟩
  · exact iff_of_true ⟨pre, last, heq, hvisible⟩ hsys
  · -- the error is the first result
    refine iff_of_false ?_ (not_not.2 hsys)
    rintro ⟨pre', last', heq', hres⟩
    obtain rfl := last_eq (heq.symm.trans heq')
    rcases hres with ⟨v, hv, -⟩ | ⟨err, -, hres⟩
    · rw [hsys] at hv
      cases hv
    · cases hres

/-- **Failures are visible exactly** on a closed socket, and in calls with arguments that
    pass the checks and addresses that are parsed. -/
theorem visible_iff : c.Visible sock r rounds ↔
    sock.closed = true ∨ c.Accepts sock ∧ c.Parses sock r rounds := by
  cases hclosed : sock.closed with
  | true =>
    refine iff_of_true ?_ (.inl rfl)
    unfold Call.Visible
    rw [Call.run_closed hclosed]
    exact ⟨[], r, rfl, .inr ⟨_, .closed hclosed, rfl⟩⟩
  | false =>
    rw [or_iff_right Bool.false_ne_true]
    by_cases hargs : c.Accepts sock
    · rw [and_iff_right hargs]
      rcases sock.loop_spec (c.func sock) r rounds with ⟨pre, last, rest, res, heq, hpre, hlast, hloop⟩ |
        ⟨hall, hloop⟩
      · have hblocks : ∀ x ∈ pre, c.blocks sock x = true := fun x hx =>
          Call.blocks_of_none hclosed hargs (hpre x hx)
        obtain ⟨-, hnone⟩ | ⟨hb, res', hres, hvisible⟩ := Call.tryOnce_spec (r := last) hclosed hargs
        · rw [hlast] at hnone
          cases hnone
        · rw [hlast, Option.some_inj] at hres
          subst hres
          rw [Call.parses_iff hclosed heq hblocks hb]
          exact Call.visible_last heq hloop hvisible
      · have hblocks : ∀ x ∈ r :: rounds, c.blocks sock x = true := fun x hx =>
          Call.blocks_of_none hclosed hargs (hall x hx)
        refine iff_of_true ?_ fun data start _ => ?_
        · unfold Call.Visible
          rw [Call.run, hloop]
          trivial
        · rw [List.dropWhile_eq_nil_iff.2 hblocks]
          simp
    · obtain ⟨msg, hrun⟩ := Call.run_raises r rounds hclosed hargs
      refine iff_of_false ?_ fun h => hargs h.1
      unfold Call.Visible
      rw [hrun]
      exact id

/-- A round in which the address is not parsed (`EAI_NONAME`). -/
def badAddress : Round Unit := ⟨-2, fun _ => .ok [], fun n => .ok n, .error 0, .ok ()⟩

/-- The error of an address that cannot be parsed is taken for a number of bytes. -/
theorem sendto_invisible : ∃ sock : Sock,
    (Call.sendto [120] none).run sock badAddress [] = (.ok [.int (-2)], []) ∧
      ¬ (Call.sendto [120] none).Visible sock badAddress [] := by
  have hrun : (Call.sendto [120] none).run ⟨AF_INET, none, false⟩ badAddress [] = (.ok [.int (-2)], []) := rfl
  have heq : [badAddress] = [] ++ badAddress :: [] := rfl
  exact ⟨_, hrun, fun h => (Call.visible_last heq hrun (.inr ⟨rfl, rfl⟩)).1 h rfl⟩

end

/-! ## Connections -/

/-- The kernel answers `recv(len)` with what comes next on the connection `conn`. -/
def Round.Answers (r : Round ε) (len : ℕ) (conn : Conn) : Prop :=
  ∀ ret conn', conn.recv len = .ok (ret, conn') → r.recv len = ret.mapError Nat.cast

/-- **`Socket:recv` gives what comes next on the connection**, once the kernel does. -/
theorem recv_conn {sock : Sock} {r last : Round ε} {rounds pre rest : List (Round ε)} {len : ℕ}
    {conn conn' : Conn} {ret : Except ℕ (List UInt8)} (hopen : sock.closed = false)
    (heq : r :: rounds = pre ++ last :: rest) (hpre : ∀ x ∈ pre, (Call.recv len).blocks sock x = true)
    (hlast : last.Answers len conn) (hconn : conn.recv len = .ok (ret, conn'))
    (hready : ∀ err, ret = .error err → sock._needBlock (.int err : Val ε) = false) :
    (Call.recv len).run sock r rounds =
      (.ok (match ret with | .ok bs => [.str bs] | .error err => [.nil, .int err]), rest) := by
  have hskip : ∀ x ∈ pre, sock.tryOnce ((Call.recv len).func sock) x = none := by
    intro x hx
    rcases Call.tryOnce_spec (r := x) hopen (c := .recv len) trivial with ⟨-, hnone⟩ | ⟨hb, -⟩
    · exact hnone
    · rw [hpre x hx] at hb
      cases hb
  have hfunc : (Call.recv len).func sock last = _sockRecv len last := if_neg (by simp [hopen])
  have hrecv := hlast ret conn' hconn
  rw [Call.run, Sock.loop_skip heq hskip]
  unfold Sock.loop Sock.tryOnce
  rw [hfunc, _sockRecv, hrecv]
  cases ret with
  | ok bs => rfl
  | error err =>
    have hneed := hready err rfl
    simp [Except.mapError, results, Val.truthy, hneed]

end Levent.Transfer
