/-
  What `write` sends for messages is what `run` delivers: the frames of a data
  message are fragments of it (`frames_isMessage`), which the receiver of
  `Receive` puts together again.
-/
import Levent.WebSocket.Receive

namespace Levent.WebSocket

open Lib (Lua)

/-- The pieces of a payload, one after another, are the payload. -/
theorem flatMap_piece (payload : List UInt8) (k : ℕ) :
    (List.range k).flatMap (piece payload) = payload.take (k * MAX_BUFFER_LENGTH) := by
  induction k with
  | zero => simp
  | succ k ih =>
    rw [List.range_succ, List.flatMap_append, ih, List.flatMap_singleton, piece, Nat.succ_mul,
      List.take_add]

/-- **The frames of a data message** are fragments of it. -/
theorem frames_isMessage (m : Message) (hd : isControl m.opcode = false)
    (hc : m.opcode ≠ CONTINUATION) : IsMessage m.frames (m.opcode, m.payload) := by
  rw [Message.frames]
  split
  · rename_i hlong
    have hpos : 0 < pieces m.payload.length := lt_pieces_iff.2 (by omega)
    obtain ⟨j, hj⟩ : ∃ j, pieces m.payload.length = j + 1 := ⟨pieces m.payload.length - 1, by omega⟩
    have hend : m.payload.length ≤ (j + 1) * MAX_BUFFER_LENGTH := by
      rw [← Nat.not_lt, ← lt_pieces_iff]
      omega
    rw [hj]
    refine ⟨⟨?_, ?_, hc, ?_, ?_⟩, (List.range j).map m.frame, m.frame j, ?_, ?_, ?_⟩
    · intro f hf
      obtain ⟨i, -, rfl⟩ := List.mem_map.1 hf
      by_cases hi : i = 0 <;> simp [Frame.isData, Message.frame, hi, hd]
      decide
    · rw [List.range_succ_eq_map]
      rfl
    · intro f hf
      rw [List.range_succ_eq_map, List.map_cons, List.tail_cons, List.map_map] at hf
      obtain ⟨i, -, rfl⟩ := List.mem_map.1 hf
      simp [Message.frame]
    · rw [List.flatMap_map]
      refine (List.take_of_length_le ?_).symm.trans (flatMap_piece m.payload (j + 1)).symm
      exact hend
    · rw [List.range_succ, List.map_append]
      rfl
    · exact decide_eq_true hend
    · intro f hf
      obtain ⟨i, hi, rfl⟩ := List.mem_map.1 hf
      have hi' : i < j := List.mem_range.1 hi
      exact decide_eq_false (Nat.not_le.2 (lt_pieces_iff.1 (by omega)))
  · refine ⟨Fragments.single (f := m.whole) (by simp [Frame.isData, Message.whole, hd]) hc, [], m.whole,
      rfl, rfl, fun f hf => absurd hf List.not_mem_nil⟩

/-- What a record delivers to a handler: the opcode and the payload. -/
def Obs.delivers? : Obs → Option (ℕ × List UInt8)
  | .onMessage opcode message => some (opcode, message)
  | .onPing payload => payload.map (PING, ·)
  | .onPong payload => payload.map (PONG, ·)
  | _ => none

/-- The strings that are sent for messages, one after another: each with the
    random numbers for its masks. -/
def writeAll (mask : Bool) : List (Message × (ℕ → UInt32)) → Lua (List UInt8)
  | [] => .ok []
  | (m, rand) :: ms => do
    let bss ← write m.opcode m.payload mask rand
    .ok (bss.flatten ++ (← writeAll mask ms))

/-- **A message that is sent is delivered**, whole, by the abstract receiver. -/
theorem feed_frames (m : Message) (h : m.opcode ∈ [TEXT, BINARY, PING, PONG]) :
    ∃ os, Assembly.feed none m.frames = some (os, none) ∧
      os.filterMap Obs.delivers? = [(m.opcode, m.payload)] := by
  by_cases hd : isControl m.opcode = true
  · -- a control frame is not split
    have hframes : m.frames = [m.whole] := by
      rw [Message.frames, if_neg (by simp [hd])]
    have hwhole : m.whole.opcode = m.opcode := rfl
    rw [hframes]
    by_cases hping : m.opcode = PING
    · refine ⟨_, feed_cons.2 ⟨_, [], none, if_pos (hwhole.trans hping), rfl, rfl⟩, ?_⟩
      rw [hping]
      rfl
    · have hpong : m.opcode = PONG := by
        simp only [List.mem_cons, List.not_mem_nil, or_false] at h
        rcases h with h | h | h | h
        · rw [h] at hd; exact absurd hd (by decide)
        · rw [h] at hd; exact absurd hd (by decide)
        · exact absurd h hping
        · exact h
      refine ⟨_, feed_cons.2 ⟨[.onPong (some m.payload)], [], none, ?_, rfl, rfl⟩, ?_⟩
      · rw [Assembly.next, if_neg (hwhole ▸ hping), if_pos (hwhole.trans hpong)]
        rfl
      · rw [hpong]
        rfl
  · have hc : m.opcode ≠ CONTINUATION := by
      rintro hc
      rw [hc] at h
      revert h
      decide
    exact ⟨_, feed_message (frames_isMessage m (Bool.not_eq_true _ ▸ hd) hc), rfl⟩

theorem frames_not_close (m : Message) (h : m.opcode ∈ [TEXT, BINARY, PING, PONG]) :
    ∀ f ∈ m.frames, f.opcode ≠ CLOSE := by
  have hm : m.opcode ≠ CLOSE := by
    intro hc
    rw [hc] at h
    revert h
    decide
  intro f hf
  rw [Message.frames] at hf
  split at hf
  · obtain ⟨i, -, rfl⟩ := List.mem_map.1 hf
    rw [Message.frame]
    split
    · exact hm
    · exact (by decide : CONTINUATION ≠ CLOSE)
  · rw [List.mem_singleton.1 hf]
    exact hm

/-- The frames of all messages, and what they deliver. -/
theorem writeAll_feed (mask : Bool) {ms : List (Message × (ℕ → UInt32))}
    (h : ∀ p ∈ ms, p.1.opcode ∈ [TEXT, BINARY, PING, PONG]) :
    ∃ stream fs bss os, writeAll mask ms = .ok stream ∧ bss.flatten = stream ∧ Encoded fs bss ∧
      (∀ f ∈ fs, f.opcode ≠ CLOSE) ∧ Assembly.feed none fs = some (os, none) ∧
      os.filterMap Obs.delivers? = ms.map fun p => (p.1.opcode, p.1.payload) := by
  induction ms with
  | nil => exact ⟨[], [], [], [], rfl, rfl, .nil, nofun, rfl, rfl⟩
  | cons p ms ih =>
    obtain ⟨m, rand⟩ := p
    have hm := h (m, rand) List.mem_cons_self
    obtain ⟨stream, fs, bss, os, hall, hflat, henc, hne, hfeed, hos⟩ :=
      ih fun p hp => h p (List.mem_cons_of_mem _ hp)
    obtain ⟨bss₁, hwrite, henc₁⟩ := write_encodes m mask rand
    obtain ⟨os₁, hfeed₁, hos₁⟩ := feed_frames m hm
    refine ⟨bss₁.flatten ++ stream, m.frames ++ fs, bss₁ ++ bss, os₁ ++ os, ?_, ?_, ?_, ?_,
      feed_append.2 ⟨os₁, os, none, hfeed₁, hfeed, rfl⟩, ?_⟩
    · rw [writeAll, hwrite]
      simp only [bind, Except.bind]
      rw [hall]
    · rw [List.flatten_append, hflat]
    · exact List.rel_append henc₁ henc
    · intro f hf
      rcases List.mem_append.1 hf with hf | hf
      · exact frames_not_close m hm f hf
      · exact hne f hf
    · rw [List.filterMap_append, hos₁, hos]
      rfl

/-- **What `write` sends is what `run` delivers**: every message and every PING
    and PONG, in order, with its opcode and its payload, however the stream is
    cut; and exactly the bytes sent are consumed. -/
theorem run_writeAll (mask : Bool) {ms : List (Message × (ℕ → UInt32))}
    (h : ∀ p ∈ ms, p.1.opcode ∈ [TEXT, BINARY, PING, PONG]) :
    ∃ stream n, writeAll mask ms = .ok stream ∧ ∀ conn rest, conn.Holds (stream ++ rest) →
      ∃ r, (Reader.start conn).run n = .ok (r, false) ∧ r.conn.Holds rest ∧
        r.log.filterMap Obs.delivers? = ms.map fun p => (p.1.opcode, p.1.payload) := by
  obtain ⟨stream, fs, bss, os, hall, rfl, henc, hne, hfeed, hos⟩ := writeAll_feed mask h
  refine ⟨_, fs.length, hall, ?_⟩
  intro conn rest hconn
  obtain ⟨r, hrun, -, hlog, hconn'⟩ := run_frames (start_holds conn) henc hconn hne hfeed
  have hlog' : r.log = os := hlog
  exact ⟨r, hrun 0, hconn', by rw [hlog', hos]⟩

/-- A text and a ping, masked. -/
def textAndPing : List (Message × (ℕ → UInt32)) :=
  [(⟨TEXT, [72, 105], TEXT_lt, by decide⟩, fun _ => 0x01020304),
    (⟨PING, [], by decide, by decide⟩, fun _ => 0)]

theorem run_writeAll_textAndPing :
    ∃ n r, (Reader.start ⟨[[0x81, 0x82, 1], [2, 3, 4, 73, 107, 0x89], [0x80, 0, 0, 0, 0]],
        .silence⟩).run n = .ok (r, false) ∧ r.conn.Holds [] ∧
      r.log.filterMap Obs.delivers? = [(TEXT, [72, 105]), (PING, [])] := by
  have hops : ∀ p ∈ textAndPing, p.1.opcode ∈ [TEXT, BINARY, PING, PONG] := by decide
  obtain ⟨stream, n, hstream, hrun⟩ := run_writeAll true hops
  have hwritten : writeAll true textAndPing =
      .ok [0x81, 0x82, 1, 2, 3, 4, 73, 107, 0x89, 0x80, 0, 0, 0, 0] := by decide
  obtain rfl := Except.ok.inj (hstream.symm.trans hwritten)
  exact ⟨n, hrun _ [] ⟨by decide, by decide⟩⟩

end Levent.WebSocket
