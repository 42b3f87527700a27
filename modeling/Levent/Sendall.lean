/-
  `Socket:sendall`: the bytes that the kernel takes.

  `log` is not part of the program: it records the bytes that the kernel has taken, and
  nothing the program computes depends on it.
-/
import Levent.Transfer

namespace Levent.Transfer

open Lib (Lua Stop)

variable {ε : Type}

/-- The bytes that the kernel takes in a round of `send`: the first ones of what it is
    offered. -/
def Call.taken (sock : Sock) (c : Call) (r : Round ε) : List UInt8 :=
  match c, c.sys sock r with
  | .send data start, some (.ok (.int n)) => (data.drop (sizeT (start.getD 0))).take n.toNat
  | _, _ => []

/-- The loop of `Socket:sendall`. -/
def Sock.sendallLoop (sock : Sock) (data : List UInt8) (start total : ℤ) :
    ℕ → ℤ → List UInt8 → List (Round ε) → Lua (List (Val ε)) × List UInt8
  | 0, _, log, _ => (.error .unfinished, log)
  | n + 1, sent, log, rounds =>
    if sent < total then
      match rounds with
      | [] => (.error .unfinished, log)
      | r :: rounds =>
        let c := Call.send data (some (start + sent))
        let (res, rest) := c.run sock r rounds
        let log := log ++ ((r :: rounds).take (rounds.length + 1 - rest.length)).flatMap (c.taken sock)
        match res with
        | .error e => (.error e, log)
        | .ok rets =>
          match rets.headD .nil with
          | .nil => (.ok [.int sent, rets.tail.headD .nil], log)
          | .int nwrite => Sock.sendallLoop sock data start total n (sent + nwrite) log rest
          | .str _ | .exn _ =>
            (.error (.raised "attempt to perform arithmetic on a value (local 'nwrite')"), log)
    else (.ok [.int sent], log)

/-- `Socket:sendall` -/
def Sock.sendall (sock : Sock) (data : List UInt8) (start : Option ℤ) (rounds : List (Round ε)) :
    Lua (List (Val ε)) × List UInt8 :=
  let start := start.getD 0
  sock.sendallLoop data start (data.length - start) (rounds.length + 1) 0 [] rounds

/-! ## One call of send -/

/-- The kernel takes some of the bytes it is offered, at least one. -/
def Round.Legal (r : Round ε) : Prop := ∀ k > 0, ∀ n, r.send k = .ok n → 0 < n ∧ n ≤ k

section
variable {sock : Sock} {data : List UInt8} {start : Option ℤ} {r x last : Round ε}
  {rounds pre rest : List (Round ε)}

end

/-! ## The whole loop -/

/-- What `sendall` has done: the kernel has taken the first bytes of the data, and the
    results are their number, and an error exactly if these are not all. -/
structure Exact (data : List UInt8) (start : ℕ) (out : Lua (List (Val ε)) × List UInt8) : Prop where
  taken : out.2 <+: data.drop start
  noRaise : ∀ msg, out.1 ≠ .error (.raised msg)
  result : ∀ rets, out.1 = .ok rets → rets = [.int out.2.length] ∧ out.2 = data.drop start ∨
    ∃ err, err.truthy = true ∧ rets = [.int out.2.length, err] ∧ out.2 ≠ data.drop start

section
variable {sock : Sock} {data log : List UInt8} {start n : ℕ} {rounds : List (Round ε)}

theorem Exact.all (h : log = data.drop start) :
    Exact data start ((.ok [.int log.length], log) : Lua (List (Val ε)) × List UInt8) where
  taken := h ▸ List.prefix_rfl
  noRaise := nofun
  result := fun rets hrets => by
    cases hrets
    exact .inl ⟨rfl, h⟩

theorem Exact.part {err : Val ε} (hlog : log <+: data.drop start) (herr : err.truthy = true)
    (hlt : log.length < data.length - start) : Exact data start (.ok [.int log.length, err], log) where
  taken := hlog
  noRaise := nofun
  result := fun rets hrets => by
    cases hrets
    refine .inr ⟨err, herr, rfl, fun hall => ?_⟩
    have hlen := congrArg List.length (show log = data.drop start from hall)
    rw [List.length_drop] at hlen
    exact hlt.ne hlen

theorem Exact.unfinished (hlog : log <+: data.drop start) :
    Exact data start ((.error .unfinished, log) : Lua (List (Val ε)) × List UInt8) :=
  ⟨hlog, nofun, nofun⟩

end

end Levent.Transfer
