/-
  `read` of `http/websocket.lua` at the end of the stream: what is left of a frame
  (`CutOff`) is not read, but for a part of the payload. The part is taken for the
  payload if the peer has closed the connection, and nil if reading fails.
-/
import Levent.WebSocket.Receive

namespace Levent.WebSocket

open Lib (Lua Stop toBytes unpackI)

variable {conn : Conn} {bs rest part : List UInt8} {t : Table} {n k : ℕ} {f : Frame}

/-! ## Reading at the end of the stream -/

/-- A number that is not there whole cannot be unpacked. -/
theorem readNumber_short {α : Type} {next : ReadFull × Conn → Lua α} (h : conn.Holds bs)
    (hlt : bs.length < k) (hnext : ∀ r conn' stop, r.unpackArg = .error stop →
      next (r, conn') = .error stop) : ∃ stop, (readFull conn k >>= next) = .error stop := by
  obtain ⟨conn', hread, -⟩ := readFull_short h hlt
  rw [hread]
  cases conn.ending with
  | silence => exact ⟨_, rfl⟩
  | closed => exact ⟨_, hnext _ conn' _ rfl⟩
  | failed err => exact ⟨_, hnext _ conn' _ rfl⟩

/-- The table has no string at one of the indices. -/
def Broken (t : Table) (n : ℕ) : Prop := ∃ stop, tconcat t n = .error stop

theorem pushString_broken (h : Broken t n) (s : Option (List UInt8)) :
    (∃ stop, pushString t s n = .error stop) ∨
      ∃ t' n', pushString t s n = .ok (t', n') ∧ Broken t' n' := by
  obtain ⟨stop, hstop⟩ := h
  rw [pushString]
  split
  · right
    refine ⟨_, _, rfl, stop, ?_⟩
    have hcongr : tconcat (Function.update t (n + 1) s) n = tconcat t n :=
      tconcat_congr fun i hi => Function.update_of_ne (by omega) _ _
    rw [tconcat, hcongr, hstop]
    rfl
  · left
    rw [hstop]
    exact ⟨stop, rfl⟩

/-- What has failed to be read is missing in the table. -/
theorem pushString_none (t : Table) (n : ℕ) :
    (∃ stop, pushString t none n = .error stop) ∨
      ∃ t' n', pushString t none n = .ok (t', n') ∧ Broken t' n' := by
  have hlast : ∀ (t : Table) n, t (n + 1) = none → Broken t (n + 1) := by
    intro t n hn
    rw [Broken, tconcat, hn]
    cases tconcat t n with
    | error stop => exact ⟨stop, rfl⟩
    | ok s => exact ⟨_, rfl⟩
  rw [pushString]
  split
  · exact .inr ⟨_, _, rfl, hlast _ n (Function.update_self _ _ _)⟩
  · cases tconcat t n with
    | error stop => exact .inl ⟨stop, rfl⟩
    | ok s => exact .inr ⟨_, _, rfl, hlast _ 1 (Function.update_self _ _ _)⟩

/-- After the peer has closed the connection, a read returns what there is. -/
theorem readFull_closed (h : conn.Holds bs) (hend : conn.ending = .closed) (k : ℕ) :
    ∃ r s conn', readFull conn k = .ok (r, conn') ∧ r.reply = some s ∧ conn'.Holds (bs.drop k) ∧
      conn'.ending = .closed := by
  by_cases hk : bs.length < k
  · obtain ⟨conn', hread, h', hend'⟩ := readFull_short h hk
    rw [hend] at hread hend'
    refine ⟨_, bs, conn', hread, rfl, ?_, hend'⟩
    rw [List.drop_of_length_le hk.le]
    exact h'
  · rw [← List.take_append_drop k bs] at h
    obtain ⟨conn', hread, h', hend'⟩ := readFull_holds h
    rw [List.length_take, min_eq_left (by omega)] at hread
    exact ⟨_, bs.take k, conn', hread, rfl, h', hend'.trans hend⟩

theorem readStages_closed (h : conn.Holds bs) (hend : conn.ending = .closed)
    (k : ℕ) {s : List UInt8} (ht : tconcat t n = .ok s) :
    ∃ t' n' conn' s', readStages k t n conn = .ok (t', n', conn') ∧
      tconcat t' n' = .ok s' ∧ conn'.Holds (bs.drop (k * MAX_FRAME_SIZE)) ∧
        conn'.ending = .closed := by
  induction k generalizing t n conn bs s with
  | zero => exact ⟨t, n, conn, s, rfl, ht, by rwa [Nat.zero_mul, List.drop_zero], hend⟩
  | succ k ih =>
    obtain ⟨r, s₁, conn₁, hread, hr, h₁, hend₁⟩ := readFull_closed h hend MAX_FRAME_SIZE
    obtain ⟨t₁, n₁, hpush, ht₁⟩ := pushString_ok ht s₁
    obtain ⟨t', n', conn', s', hstages, ht', h', hend'⟩ := ih h₁ hend₁ ht₁
    refine ⟨t', n', conn', s', ?_, ht', ?_, hend'⟩
    · rw [readStages, hread]
      simp only [bind, Except.bind]
      rw [hr, hpush]
      exact hstages
    · rw [List.drop_drop] at h'
      rwa [Nat.succ_mul, Nat.add_comm]

/-- **A payload that the peer has cut off** is taken as it is. -/
theorem getPayload_closed (h : conn.Holds bs) (hend : conn.ending = .closed) {length : ℕ}
    (hlt : bs.length < length) :
    ∃ s conn', getPayload conn length = .ok (some s, conn') ∧ conn'.Holds [] ∧
      conn'.ending = .closed := by
  have hnil : ∀ l, bs.drop (l + length) = [] := fun l => List.drop_of_length_le (by omega)
  rw [getPayload]
  simp only [stages_eq, rest_eq]
  split
  · have hdiv := Nat.div_add_mod' length MAX_FRAME_SIZE
    obtain ⟨t₁, n₁, conn₁, s₁, hstages, ht₁, h₁, hend₁⟩ :=
      readStages_closed h hend (length / MAX_FRAME_SIZE)
        (show tconcat (fun _ => none) 0 = .ok [] from rfl)
    rw [hstages]
    simp only [bind, Except.bind]
    split
    · obtain ⟨r, s₂, conn₂, hread, hr, h₂, hend₂⟩ :=
        readFull_closed h₁ hend₁ (length % MAX_FRAME_SIZE)
      obtain ⟨t₂, n₂, hpush, ht₂⟩ := pushString_ok ht₁ s₂
      refine ⟨s₁ ++ s₂, conn₂, ?_, ?_, hend₂⟩
      · rw [hread]
        simp only
        rw [hr, hpush]
        simp only
        rw [ht₂]
      · rwa [List.drop_drop, hdiv, List.drop_of_length_le hlt.le] at h₂
    · refine ⟨s₁, conn₁, by rw [ht₁], ?_, hend₁⟩
      rwa [show length / MAX_FRAME_SIZE * MAX_FRAME_SIZE = length by omega,
        List.drop_of_length_le hlt.le] at h₁
  · obtain ⟨r, s, conn', hread, hr, h', hend'⟩ := readFull_closed h hend length
    refine ⟨s, conn', ?_, ?_, hend'⟩
    · rw [hread]
      exact congrArg (fun s => Except.ok (s, conn')) hr
    · rwa [List.drop_of_length_le hlt.le] at h'

/-- A read that fails. -/
theorem readFull_failed {err : ℕ} (h : conn.Holds bs) (hend : conn.ending = .failed err) (k : ℕ) :
    ∃ r conn', readFull conn k = .ok (r, conn') ∧ (bs.length < k → r.reply = none) ∧
      conn'.Holds (bs.drop k) ∧ conn'.ending = .failed err := by
  by_cases hk : bs.length < k
  · obtain ⟨conn', hread, h', hend'⟩ := readFull_short h hk
    rw [hend] at hread hend'
    refine ⟨_, conn', hread, fun _ => rfl, ?_, hend'⟩
    rw [List.drop_of_length_le hk.le]
    exact h'
  · rw [← List.take_append_drop k bs] at h
    obtain ⟨conn', hread, h', hend'⟩ := readFull_holds h
    rw [List.length_take, min_eq_left (by omega)] at hread
    exact ⟨_, conn', hread, fun hlt => absurd hlt hk, h', hend'.trans hend⟩

/-- What is read is appended, and what is missing or has been missing is missing. -/
theorem pushString_lost (t : Table) (n : ℕ) (r : Option (List UInt8)) :
    (∃ stop, pushString t r n = .error stop) ∨
      ∃ t' n', pushString t r n = .ok (t', n') ∧ (r = none ∨ Broken t n → Broken t' n') := by
  by_cases hr : r = none
  · subst hr
    exact (pushString_none t n).imp_right fun ⟨t', n', h, hb⟩ => ⟨t', n', h, fun _ => hb⟩
  · by_cases hb : Broken t n
    · exact (pushString_broken hb r).imp_right fun ⟨t', n', h, hb'⟩ => ⟨t', n', h, fun _ => hb'⟩
    · cases h : pushString t r n with
      | error stop => exact .inl ⟨stop, rfl⟩
      | ok x => exact .inr ⟨x.1, x.2, rfl, fun h => absurd h (not_or.2 ⟨hr, hb⟩)⟩

theorem readStages_failed {err : ℕ} (h : conn.Holds bs) (hend : conn.ending = .failed err) (k : ℕ)
    (t : Table) (n : ℕ) :
    (∃ stop, readStages k t n conn = .error stop) ∨
      ∃ t' n' conn', readStages k t n conn = .ok (t', n', conn') ∧
        (bs.length < k * MAX_FRAME_SIZE ∨ Broken t n → Broken t' n') ∧
        conn'.Holds (bs.drop (k * MAX_FRAME_SIZE)) ∧ conn'.ending = .failed err := by
  induction k generalizing t n conn bs with
  | zero =>
    right
    refine ⟨t, n, conn, rfl, fun hlost => ?_, by rwa [Nat.zero_mul, List.drop_zero], hend⟩
    rw [Nat.zero_mul] at hlost
    exact hlost.resolve_left (Nat.not_lt_zero _)
  | succ k ih =>
    obtain ⟨r, conn₁, hread, hr, h₁, hend₁⟩ := readFull_failed h hend MAX_FRAME_SIZE
    rw [readStages, hread]
    simp only [bind, Except.bind]
    rcases pushString_lost t n r.reply with ⟨stop, hpush⟩ | ⟨t₁, n₁, hpush, hlost₁⟩
    · rw [hpush]
      exact .inl ⟨stop, rfl⟩
    · rw [hpush]
      rcases ih h₁ hend₁ t₁ n₁ with ⟨stop, hstages⟩ | ⟨t', n', conn', hstages, hlost', h', hend'⟩
      · exact .inl ⟨stop, hstages⟩
      · right
        refine ⟨t', n', conn', hstages, fun hlost => hlost' ?_, ?_, hend'⟩
        · rw [List.length_drop]
          rcases hlost with hlt | hb
          · rw [Nat.succ_mul] at hlt
            by_cases hk : bs.length < MAX_FRAME_SIZE
            · exact .inr (hlost₁ (.inl (hr hk)))
            · exact .inl (by omega)
          · exact .inr (hlost₁ (.inr hb))
        · rw [List.drop_drop] at h'
          rwa [Nat.succ_mul, Nat.add_comm]

/-- **A payload that fails to be read** is nil, or raises if it is read in stages. -/
theorem getPayload_failed {err : ℕ} (h : conn.Holds bs)
    (hend : conn.ending = .failed err) {length : ℕ} (hlt : bs.length < length) :
    (length < MAX_FRAME_SIZE →
      ∃ conn', getPayload conn length = .ok (none, conn') ∧ conn'.Holds [] ∧
        conn'.ending = .failed err) ∧
    (¬ length < MAX_FRAME_SIZE → ∃ stop, getPayload conn length = .error stop) := by
  have hsize : 0 < MAX_FRAME_SIZE := by decide
  rw [getPayload]
  simp only [stages_eq, rest_eq]
  constructor
  · intro hshort
    obtain ⟨conn', hread, h', hend'⟩ := readFull_short h hlt
    rw [hend] at hread hend'
    rw [if_neg (by rw [Nat.div_eq_of_lt hshort]; exact Nat.lt_irrefl 0), hread]
    exact ⟨conn', rfl, h', hend'⟩
  · intro hlong
    have hpos : 0 < length / MAX_FRAME_SIZE := Nat.div_pos (by omega) hsize
    have hdiv := Nat.div_add_mod' length MAX_FRAME_SIZE
    rw [if_pos hpos]
    rcases readStages_failed h hend (length / MAX_FRAME_SIZE) (fun _ => none) 0 with
      ⟨stop, hstages⟩ | ⟨t₁, n₁, conn₁, hstages, hlost₁, h₁, hend₁⟩
    · rw [hstages]
      exact ⟨stop, rfl⟩
    · rw [hstages]
      simp only [bind, Except.bind]
      split
      · obtain ⟨r, conn₂, hread, hr, -⟩ := readFull_failed h₁ hend₁ (length % MAX_FRAME_SIZE)
        rw [hread]
        simp only
        rcases pushString_lost t₁ n₁ r.reply with ⟨stop, hpush⟩ | ⟨t₂, n₂, hpush, hlost₂⟩
        · rw [hpush]
          exact ⟨stop, rfl⟩
        · rw [hpush]
          obtain ⟨stop, hstop⟩ : Broken t₂ n₂ := by
            by_cases hk : bs.length < length / MAX_FRAME_SIZE * MAX_FRAME_SIZE
            · exact hlost₂ (.inr (hlost₁ (.inl hk)))
            · refine hlost₂ (.inl (hr ?_))
              rw [List.length_drop]
              omega
          simp only
          rw [hstop]
          exact ⟨stop, rfl⟩
      · obtain ⟨stop, hstop⟩ := hlost₁ (.inl (by omega))
        rw [hstop]
        exact ⟨stop, rfl⟩

/-! ## A frame that is cut off -/

/-- The bytes before the payload of a frame. -/
def Frame.IsHead (f : Frame) (mask : Option UInt32) (hd : List UInt8) : Prop :=
  ∃ len ext, LengthEnc f.payload.length len ext ∧ hd = toBytes 1 (flagged f.fin f.opcode) ++
    (toBytes 1 (flagged mask.isSome len) ++ (ext ++ (mask.map fun m => toBytes 4 m.toNat).getD []))

/-- The payload as it is sent. -/
def Frame.body (f : Frame) (mask : Option UInt32) : List UInt8 :=
  (mask.map fun m => applyMask f.payload m.toNat).getD f.payload

/-- What comes after the last whole frame: nothing or a part of what is before a payload; or
    a part of the payload of a frame, which is masked or not. -/
inductive CutOff : List UInt8 → Option (Frame × Bool) → Prop
  | head {f : Frame} {mask hd part} : f.IsHead mask hd → part <+: hd → part.length < hd.length →
      CutOff part none
  | payload {f : Frame} {mask hd p} :
      f.IsHead mask hd → p <+: f.body mask → p.length < (f.body mask).length →
      CutOff (hd ++ p) (some (f, mask.isSome))

/-- **Every point in a frame** is of this kind. -/
theorem CutOff.of_prefix (hf : f.Encodes bs) (hpre : part <+: bs) (hlt : part.length < bs.length) :
    ∃ x, CutOff part x := by
  obtain ⟨mask, len, ext, hlen, rfl⟩ := hf
  have hbytes : maskedBytes f.payload mask =
      (mask.map fun m => toBytes 4 m.toNat).getD [] ++ f.body mask := by
    cases mask <;> rfl
  simp only [hbytes, ← List.append_assoc] at hpre hlt
  have hhead : f.IsHead mask (toBytes 1 (flagged f.fin f.opcode) ++
      toBytes 1 (flagged mask.isSome len) ++ ext ++
      (mask.map fun m => toBytes 4 m.toNat).getD []) :=
    ⟨len, ext, hlen, by simp only [List.append_assoc]⟩
  by_cases hpart : part.length < (toBytes 1 (flagged f.fin f.opcode) ++
      toBytes 1 (flagged mask.isSome len) ++ ext ++
      (mask.map fun m => toBytes 4 m.toNat).getD []).length
  · exact ⟨none,
      .head hhead (List.prefix_of_prefix_length_le hpre (List.prefix_append _ _) hpart.le) hpart⟩
  · obtain ⟨p, rfl⟩ :=
      List.prefix_of_prefix_length_le (List.prefix_append _ _) hpre (Nat.not_lt.1 hpart)
    rw [List.prefix_append_right_inj] at hpre
    refine ⟨_, .payload hhead hpre ?_⟩
    simp only [List.length_append] at hlt
    omega

theorem readLength_short {len : ℕ} {ext : List UInt8}
    (hlen : LengthEnc n len ext) (h : conn.Holds bs) (hlt : bs.length < ext.length) :
    ∃ stop, readLength conn len = .error stop := by
  cases hlen with
  | short hn => exact absurd hlt (Nat.not_lt_zero _)
  | two hn =>
    rw [Lib.toBytes_length] at hlt
    rw [readLength, if_pos rfl]
    refine readNumber_short h hlt fun r conn' stop hr => ?_
    simp only [hr, bind, Except.bind]
  | eight hn =>
    rw [Lib.toBytes_length] at hlt
    rw [readLength, if_neg (by decide), if_pos rfl]
    refine readNumber_short h hlt fun r conn' stop hr => ?_
    simp only [hr, bind, Except.bind]

/-- The two bytes that `read` begins with are not there. -/
theorem read_short (h : conn.Holds bs) (hlt : bs.length < 2) : ∃ stop, read conn = .error stop := by
  rw [read]
  refine readNumber_short h hlt fun r conn' stop hr => ?_
  simp only [hr, bind, Except.bind]

/-- **A frame of which the payload has not begun** is not read. -/
theorem read_head {mask : Option UInt32} {hd : List UInt8} (hf : f.IsHead mask hd)
    (hpre : part <+: hd) (hlt : part.length < hd.length) (h : conn.Holds part) :
    ∃ stop, read conn = .error stop := by
  obtain ⟨len, ext, hlen, rfl⟩ := hf
  obtain ⟨more, heq⟩ := hpre
  by_cases htwo : part.length < 2
  · exact read_short h htwo
  obtain ⟨p, rfl⟩ :
      ∃ p, part = toBytes 1 (flagged f.fin f.opcode) ++
        (toBytes 1 (flagged mask.isSome len) ++ p) := by
    have htwoBytes : toBytes 1 (flagged f.fin f.opcode) ++
        toBytes 1 (flagged mask.isSome len) <+: part ++ more := by
      rw [heq, ← List.append_assoc]
      exact List.prefix_append _ _
    obtain ⟨p, hp⟩ := List.prefix_of_prefix_length_le htwoBytes (List.prefix_append part more) (by
      rw [List.length_append, Lib.toBytes_length, Lib.toBytes_length]
      omega)
    exact ⟨p, by rw [← hp, List.append_assoc]⟩
  simp only [List.append_assoc, List.append_cancel_left_eq] at heq
  simp only [List.length_append, Nat.add_lt_add_iff_left] at hlt
  obtain ⟨conn₁, hread, h₁, -⟩ := read_header hlen.lt h
  rw [hread]
  by_cases hext : p.length < ext.length
  · obtain ⟨stop, hlength⟩ := readLength_short hlen h₁ hext
    rw [hlength]
    exact ⟨stop, rfl⟩
  · -- the length is there, and the mask is not
    have hlength : ext <+: p ++ more := heq ▸ List.prefix_append _ _
    obtain ⟨p', rfl⟩ :=
      List.prefix_of_prefix_length_le hlength (List.prefix_append p more) (by omega)
    obtain ⟨conn₂, hlength, h₂, -⟩ := readLength_holds hlen h₁
    rw [hlength]
    simp only [bind, Except.bind]
    rw [List.length_append] at hlt
    cases mask with
    | none => exact absurd hlt (by simp)
    | some m =>
      simp only [Option.map_some, Option.getD_some, Lib.toBytes_length] at hlt
      have hshort : p'.length < 4 := by omega
      obtain ⟨stop, hpayload⟩ : ∃ stop, readPayload conn₂ true f.payload.length = .error stop := by
        rw [readPayload, if_pos rfl]
        refine readNumber_short h₂ hshort fun r conn' stop hr => ?_
        simp only [hr, bind, Except.bind]
      exact ⟨stop, by rw [Option.isSome_some, hpayload]⟩

/-- **A payload of which some bytes are missing**, at the end of the stream. -/
theorem readPayload_closed {mask : Option UInt32} {p : List UInt8} {length : ℕ}
    (h : conn.Holds ((mask.map fun m => toBytes 4 m.toNat).getD [] ++ p))
    (hend : conn.ending = .closed) (hlt : p.length < length) :
    ∃ s conn', readPayload conn mask.isSome length = .ok (some s, conn') ∧
      conn'.Holds [] ∧ conn'.ending = .closed := by
  cases mask with
  | none => exact getPayload_closed h hend hlt
  | some m =>
    obtain ⟨conn₁, hread, hunpack, h₁, hend₁⟩ := readNumber_holds (k := 4) (by decide) m.toNat_lt h
    obtain ⟨s, conn', hget, h', hend'⟩ := getPayload_closed h₁ (hend₁.trans hend) hlt
    refine ⟨applyMask s m.toNat, conn', ?_, h', hend'⟩
    rw [readPayload, if_pos Option.isSome_some, hread]
    simp only [bind, Except.bind, ReadFull.unpackArg]
    rw [hunpack]
    simp only
    rw [hget]

/-- **A payload of which some bytes fail to be read**: only a short one that is not masked does
    not raise. -/
theorem readPayload_failed {mask : Option UInt32} {p : List UInt8} {length err : ℕ}
    (h : conn.Holds ((mask.map fun m => toBytes 4 m.toNat).getD [] ++ p))
    (hend : conn.ending = .failed err) (hlt : p.length < length) :
    (mask = none ∧ length < MAX_FRAME_SIZE →
      ∃ conn', readPayload conn mask.isSome length = .ok (none, conn') ∧
        conn'.Holds [] ∧ conn'.ending = .failed err) ∧
    (¬ (mask = none ∧ length < MAX_FRAME_SIZE) →
      ∃ stop, readPayload conn mask.isSome length = .error stop) := by
  cases mask with
  | none =>
    obtain ⟨hshort, hlong⟩ := getPayload_failed h hend hlt
    exact ⟨fun hl => hshort hl.2, fun hl => hlong fun hl' => hl ⟨rfl, hl'⟩⟩
  | some m =>
    obtain ⟨conn₁, hread, hunpack, h₁, hend₁⟩ := readNumber_holds (k := 4) (by decide) m.toNat_lt h
    obtain ⟨hshort, hlong⟩ := getPayload_failed h₁ (hend₁.trans hend) hlt
    refine ⟨fun hm => (by cases hm.1), fun _ => ?_⟩
    rw [readPayload, if_pos Option.isSome_some, hread]
    simp only [bind, Except.bind, ReadFull.unpackArg]
    rw [hunpack]
    simp only
    by_cases hl : length < MAX_FRAME_SIZE
    · obtain ⟨conn', hget, -⟩ := hshort hl
      rw [hget]
      exact ⟨_, rfl⟩
    · obtain ⟨stop, hget⟩ := hlong hl
      rw [hget]
      exact ⟨stop, rfl⟩

theorem Frame.body_length (f : Frame) (mask : Option UInt32) :
    (f.body mask).length = f.payload.length := by
  cases mask with
  | none => rfl
  | some m => exact applyMask_length f.payload

/-- The header is read, and the length. -/
theorem read_payload {mask : Option UInt32} {hd p : List UInt8} (hf : f.IsHead mask hd)
    (h : conn.Holds (hd ++ p)) :
    ∃ conn', read conn = (do
        let (payload, conn) ← readPayload conn' mask.isSome f.payload.length
        .ok ((f.fin, f.opcode, payload), conn)) ∧
      conn'.Holds ((mask.map fun m => toBytes 4 m.toNat).getD [] ++ p) ∧
        conn'.ending = conn.ending := by
  obtain ⟨len, ext, hlen, rfl⟩ := hf
  simp only [List.append_assoc] at h
  obtain ⟨conn₁, hread, h₁, hend₁⟩ := read_header hlen.lt h
  obtain ⟨conn₂, hlength, h₂, hend₂⟩ := readLength_holds hlen h₁
  refine ⟨conn₂, ?_, h₂, hend₂.trans hend₁⟩
  rw [hread, hlength]
  rfl

/-- **A frame that the peer has cut off** is read with a part of its payload. -/
theorem read_closed {mask : Option UInt32} {hd p : List UInt8} (hf : f.IsHead mask hd)
    (hlt : p.length < f.payload.length) (h : conn.Holds (hd ++ p)) (hend : conn.ending = .closed) :
    ∃ s conn', read conn = .ok ((f.fin, f.opcode, some s), conn') ∧ conn'.Holds [] ∧
      conn'.ending = .closed := by
  obtain ⟨conn₁, hread, h₁, hend₁⟩ := read_payload hf h
  obtain ⟨s, conn', hpayload, h', hend'⟩ := readPayload_closed h₁ (hend₁.trans hend) hlt
  refine ⟨s, conn', ?_, h', hend'⟩
  rw [hread, hpayload]
  rfl

/-- **A frame of which a part fails to be read** has no payload, or raises. -/
theorem read_failed {mask : Option UInt32} {hd p : List UInt8} {err : ℕ} (hf : f.IsHead mask hd)
    (hlt : p.length < f.payload.length) (h : conn.Holds (hd ++ p))
    (hend : conn.ending = .failed err) :
    (mask = none ∧ f.payload.length < MAX_FRAME_SIZE →
      ∃ conn', read conn = .ok ((f.fin, f.opcode, none), conn') ∧
        conn'.Holds [] ∧ conn'.ending = .failed err) ∧
    (¬ (mask = none ∧ f.payload.length < MAX_FRAME_SIZE) → ∃ stop, read conn = .error stop) := by
  obtain ⟨conn₁, hread, h₁, hend₁⟩ := read_payload hf h
  obtain ⟨hshort, hlong⟩ := readPayload_failed h₁ (hend₁.trans hend) hlt
  rw [hread]
  constructor
  · intro hm
    obtain ⟨conn', hpayload, h', hend'⟩ := hshort hm
    refine ⟨conn', ?_, h', hend'⟩
    rw [hpayload]
    rfl
  · intro hm
    obtain ⟨stop, hpayload⟩ := hlong hm
    rw [hpayload]
    exact ⟨stop, rfl⟩

end Levent.WebSocket
