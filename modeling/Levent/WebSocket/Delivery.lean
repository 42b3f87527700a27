/-
  Both ends of a connection: what the `run` of the peer delivers of the bytes
  that concurrent calls of `ws:send` have put on the wire.
-/
import Levent.WebSocket.Send
import Levent.WebSocket.RoundTrip

namespace Levent.WebSocket

open Lib (Along run)

variable {s s' t : Senders} {c c' : Co} {j j' : Job} {msg : Message} {a a' : Assembly} {act : Act}
  {as : List Act} {k n : ℕ} {mask : Bool} {os : List Obs} {fs : List Frame} {bss : List (List UInt8)}

/-! ## The frames of one message -/

/-- A message that is delivered to a handler. -/
def Message.Ordinary (msg : Message) : Prop := msg.opcode ∈ [TEXT, BINARY, PING, PONG]

theorem Message.Ordinary.data (h : msg.Ordinary) (hd : isControl msg.opcode = false) :
    IsMessage msg.frames (msg.opcode, msg.payload) := by
  refine frames_isMessage msg hd ?_
  intro hc
  rw [Message.Ordinary, hc] at h
  revert h
  decide

theorem frames_control (hd : isControl msg.opcode = true) : msg.frames = [msg.whole] := by
  rw [Message.frames, if_neg (by simp [hd])]

/-- The receiver takes a control frame whole, whatever message is open. -/
theorem next_whole (h : msg.Ordinary) (hd : isControl msg.opcode = true) (a : Assembly) :
    ∃ os, a.next msg.whole = some (os, a) ∧ os.filterMap Obs.delivers? = [(msg.opcode, msg.payload)] := by
  have hop : msg.opcode = PING ∨ msg.opcode = PONG := by
    simp only [Message.Ordinary, List.mem_cons, List.not_mem_nil, or_false] at h
    rcases h with h | h | h | h
    · rw [h] at hd; exact absurd hd (by decide)
    · rw [h] at hd; exact absurd hd (by decide)
    · exact Or.inl h
    · exact Or.inr h
  rw [Assembly.next]
  rcases hop with hop | hop
  · exact ⟨_, if_pos hop, by rw [hop]; rfl⟩
  · have hpong : msg.whole.opcode = PONG := hop
    have hne : msg.whole.opcode ≠ PING := fun hping => absurd (hpong.symm.trans hping) (by decide)
    rw [if_neg hne, if_pos hpong]
    exact ⟨_, rfl, by rw [hop]; rfl⟩

/-- The last frame of a data message is the one that delivers it. -/
theorem next_data_frame (h : msg.Ordinary) (hd : isControl msg.opcode = false) (hk : k < msg.frames.length)
    (ha : Assembly.feed none (msg.frames.take k) = some ([], a)) :
    ∃ os a', a.next msg.frames[k] = some (os, a') ∧
      Assembly.feed none (msg.frames.take (k + 1)) = some (os, a') ∧
      (k + 1 = msg.frames.length → a' = none ∧ os.filterMap Obs.delivers? = [(msg.opcode, msg.payload)]) ∧
      (k + 1 < msg.frames.length → os = []) := by
  obtain ⟨os, hfeed, hos⟩ := feed_frames msg h
  have hcut : msg.frames.take k ++ msg.frames[k] :: msg.frames.drop (k + 1) = msg.frames := by
    rw [← List.drop_eq_getElem_cons hk, List.take_append_drop]
  obtain ⟨os₁, os₂, a₁, h₁, h₂, rfl⟩ := feed_append.1 (hcut ▸ hfeed)
  obtain ⟨rfl, rfl⟩ := Prod.mk.inj (Option.some.inj (ha.symm.trans h₁))
  obtain ⟨os₂, os₃, a₂, hnext, h₃, rfl⟩ := feed_cons.1 h₂
  refine ⟨os₂, a₂, hnext, ?_, fun hlast => ?_, fun hlt => ?_⟩
  · rw [List.take_add_one, List.getElem?_eq_getElem hk]
    exact feed_append.2 ⟨[], os₂, _, ha, feed_cons.2 ⟨os₂, [], a₂, hnext, rfl, (List.append_nil _).symm⟩, rfl⟩
  · rw [hlast, List.drop_length] at h₃
    cases h₃
    rw [List.nil_append, List.append_nil] at hos
    exact ⟨rfl, hos⟩
  · -- it has no FIN
    obtain ⟨hfrag, l, f, hl, -, hfin⟩ := h.data hd
    have hkl : k < l.length := by
      rw [hl, List.length_append, List.length_singleton] at hlt
      omega
    have hget : msg.frames[k] = l[k] := by
      simp only [hl, List.getElem_append_left hkl]
    have hv : ¬ (msg.frames[k]).Violates a := fun hv => by
      rw [next_none.2 hv] at hnext
      cases hnext
    rw [next_data (hfrag.data _ (List.getElem_mem hk)) hv, hget, hfin _ (List.getElem_mem hkl)] at hnext
    exact (Prod.mk.inj (Option.some.inj hnext)).1.symm

/-! ## A call that is going on -/

/-- The call of `j` sends the frames of `msg`; those of a data message that are out are the open
    message of the receiver. -/
structure Job.Sends (j : Job) (msg : Message) (a : Assembly) : Prop where
  opcode : msg.opcode = j.call.opcode
  payload : msg.payload = j.call.payload
  ordinary : msg.Ordinary
  encoded : Encoded msg.frames j.call.strs
  index : j.index < msg.frames.length
  part : j.call.data → 0 < j.index → Assembly.feed none (msg.frames.take j.index) = some ([], a)

theorem Job.Sends.data_iff (h : j.Sends msg a) : j.call.data = true ↔ isControl msg.opcode = false := by
  rw [Send.data, h.opcode, Bool.not_eq_true']

/-- **The frame of a call** at the receiver. -/
theorem Job.Sends.next (h : j.Sends msg a) (hfirst : j.call.data → j.index = 0 → a = none) :
    ∃ f os a', f.Encodes j.frame.str ∧ f.opcode ≠ CLOSE ∧ a.next f = some (os, a') ∧
      (j.call.data = false → a' = a ∧ j.index + 1 = msg.frames.length) ∧
      (j.index + 1 = msg.frames.length → os.filterMap Obs.delivers? = [(j.call.opcode, j.call.payload)] ∧
        (j.call.data → a' = none)) ∧
      (j.index + 1 < msg.frames.length → os = [] ∧
        Assembly.feed none (msg.frames.take (j.index + 1)) = some ([], a')) := by
  have hindex := h.index
  have henc : (msg.frames[j.index]).Encodes j.frame.str := by
    have hlt : j.index < j.call.strs.length := h.encoded.length_eq ▸ hindex
    have hstr : j.frame.str = j.call.strs[j.index] := List.getD_eq_getElem _ _ hlt
    rw [hstr]
    exact List.Forall₂.get h.encoded hindex hlt
  refine ⟨msg.frames[j.index], ?_⟩
  have hne : (msg.frames[j.index]).opcode ≠ CLOSE := frames_not_close msg h.ordinary _ (List.getElem_mem _)
  cases hd : isControl msg.opcode with
  | true =>
    have hframes := frames_control hd
    have hzero : j.index = 0 := by
      rw [hframes, List.length_singleton] at hindex
      omega
    have hget : msg.frames[j.index] = msg.whole := by simp [hframes]
    obtain ⟨os, hnext, hos⟩ := next_whole h.ordinary hd a
    have hcontrol : ¬ j.call.data = true := fun hdata => by
      rw [h.data_iff.1 hdata] at hd
      cases hd
    rw [← h.opcode, ← h.payload]
    refine ⟨os, a, henc, hne, hget ▸ hnext, fun _ => ⟨rfl, ?_⟩, fun _ => ⟨hos, fun hdata => absurd hdata hcontrol⟩,
      fun hlt => ?_⟩
    · rw [hzero, hframes]
      rfl
    · rw [hframes, List.length_singleton] at hlt
      omega
  | false =>
    have hdata : j.call.data = true := h.data_iff.2 hd
    have ha : Assembly.feed none (msg.frames.take j.index) = some ([], a) := by
      rcases Nat.eq_zero_or_pos j.index with h0 | hpos
      · rw [h0, hfirst hdata h0]
        rfl
      · exact h.part hdata hpos
    obtain ⟨os, a', hnext, hfeed, hlast, hnot⟩ := next_data_frame h.ordinary hd hindex ha
    rw [← h.opcode, ← h.payload]
    refine ⟨os, a', henc, hne, hnext, fun hcontrol => ?_, fun hl => ⟨(hlast hl).2, fun _ => (hlast hl).1⟩,
      fun hlt => ⟨hnot hlt, ?_⟩⟩
    · rw [hdata] at hcontrol
      cases hcontrol
    · rw [hfeed, hnot hlt]

/-! ## Both ends -/

/-- The bytes of whole frames, and after them those of the frame that is being sent, if any. -/
def Senders.Sent (s : Senders) (bss : List (List UInt8)) : Prop :=
  (s.wire = bss.flatten ∧ ∀ c j, s.job c = some j → j.sent = 0) ∨
    ∃ c j, s.job c = some j ∧ 0 < j.sent ∧ s.wire = bss.flatten ++ j.frame.str.take j.sent ∧
      ∀ c' j', c' ≠ c → s.job c' = some j' → j'.sent = 0

/-- The receiver of the frames `fs` that are on the wire has delivered what has returned, and its
    open message is that of a call that is going on. -/
structure Senders.Delivers (s : Senders) (fs : List Frame) (bss : List (List UInt8)) (os : List Obs)
    (a : Assembly) : Prop where
  encoded : Encoded fs bss
  open' : ∀ f ∈ fs, f.opcode ≠ CLOSE
  feed : Assembly.feed none fs = some (os, a)
  delivered : os.filterMap Obs.delivers? = s.returned.map fun m => (m.opcode, m.payload)
  jobs : ∀ c j, s.job c = some j → ∃ msg, j.Sends msg a
  begun : a ≠ none → ∃ c j, s.job c = some j ∧ j.call.data ∧ 0 < j.index
  sent : s.Sent bss

/-- A sender that is alone begins a data message when no other one is open. -/
theorem Senders.Delivers.first (h : s.Delivers fs bss os a) (hj : s.job c = some j) (ha : s.Alone c j)
    (hdata : j.call.data) (hindex : j.index = 0) : a = none := by
  by_contra hne
  obtain ⟨c', j', hj', hdata', hpos⟩ := h.begun hne
  by_cases hc : c' = c
  · subst hc
    cases hj.symm.trans hj'
    omega
  · have hbegun := (ha c' j' hc hj').2 hdata hdata'
    rw [Job.begun] at hbegun
    split at hbegun <;> omega

/-- The bytes of a sender that is alone are behind whole frames. -/
theorem Senders.Delivers.wire (h : s.Delivers fs bss os a) (hj : s.job c = some j) (ha : s.Alone c j) :
    s.wire = bss.flatten ++ j.frame.str.take j.sent := by
  rcases h.sent with ⟨hw, h0⟩ | ⟨c', j', hj', hpos, hw, -⟩
  · rw [hw, h0 c j hj, List.take_zero, List.append_nil]
  · by_cases hc : c' = c
    · subst hc
      cases hj.symm.trans hj'
      exact hw
    · exact absurd (ha c' j' hc hj').1 hpos.ne'

/-- The others are in their messages as before. -/
theorem Senders.Delivers.others (h : s.Delivers fs bss os a) (ha : s.Alone c j)
    (hcontrol : j.call.data = false → a' = a) (hc : c' ≠ c) (hj' : s.job c' = some j') :
    ∃ msg, j'.Sends msg a' := by
  obtain ⟨msg, hs⟩ := h.jobs c' j' hj'
  refine ⟨msg, { hs with part := fun hdata' hpos => ?_ }⟩
  cases hdata : j.call.data with
  | false =>
    rw [hcontrol hdata]
    exact hs.part hdata' hpos
  | true =>
    have hbegun := (ha c' j' hc hj').2 hdata hdata'
    rw [Job.begun] at hbegun
    split at hbegun <;> omega

/-- The frame is out in part. -/
theorem Senders.Delivers.goesOn (h : s.Delivers fs bss os a) (hj : s.job c = some j) (ha : s.Alone c j)
    (hjob : s'.job = Function.update s.job c (some j')) (hcall : j'.call = j.call) (hindex : j'.index = j.index)
    (hsent : 0 < j'.sent) (hret : s'.returned = s.returned)
    (hwire : s'.wire = bss.flatten ++ j'.frame.str.take j'.sent) : s'.Delivers fs bss os a := by
  have hself : s'.job c = some j' := (job_update hjob).2 (Or.inl ⟨rfl, rfl⟩)
  refine ⟨h.encoded, h.open', h.feed, hret ▸ h.delivered, ?_, ?_, Or.inr ⟨c, j', hself, hsent, hwire, ?_⟩⟩
  · intro c' k hk
    rcases (job_update hjob).1 hk with ⟨-, hk⟩ | ⟨-, hk⟩
    · obtain rfl := Option.some.inj hk
      obtain ⟨msg, hs⟩ := h.jobs c j hj
      exact ⟨msg, hcall ▸ hs.opcode, hcall ▸ hs.payload, hs.ordinary, hcall ▸ hs.encoded, hindex ▸ hs.index,
        hcall ▸ hindex ▸ hs.part⟩
    · exact h.jobs c' k hk
  · intro hne
    obtain ⟨c', k, hk, hdata, hpos⟩ := h.begun hne
    by_cases hc : c' = c
    · subst hc
      cases hj.symm.trans hk
      exact ⟨c', j', hself, hcall ▸ hdata, hindex ▸ hpos⟩
    · exact ⟨c', k, (job_update hjob).2 (Or.inr ⟨hc, hk⟩), hdata, hpos⟩
  · intro c' k hc hk
    rcases (job_update hjob).1 hk with ⟨hc', -⟩ | ⟨-, hk⟩
    · exact absurd hc' hc
    · exact (ha c' k hc hk).1

/-- The frame `f` of `j` is out, and the receiver has taken it. -/
structure Senders.Takes (s : Senders) (c : Co) (j : Job) (msg : Message) (fs : List Frame)
    (bss : List (List UInt8)) (os os' : List Obs) (a' : Assembly) : Prop where
  encoded : Encoded fs (bss ++ [j.frame.str])
  open' : ∀ f ∈ fs, f.opcode ≠ CLOSE
  feed : Assembly.feed none fs = some (os ++ os', a')
  others : ∀ c' k, c' ≠ c → s.job c' = some k → k.sent = 0 ∧ ∃ msg, k.Sends msg a'
  last : j.index + 1 = msg.frames.length → os'.filterMap Obs.delivers? = [(j.call.opcode, j.call.payload)] ∧
    (a' ≠ none → ∃ c' k, c' ≠ c ∧ s.job c' = some k ∧ k.call.data ∧ 0 < k.index)
  goes : j.index + 1 < msg.frames.length → os' = [] ∧ j.call.data ∧
    Assembly.feed none (msg.frames.take (j.index + 1)) = some ([], a')

theorem Senders.Delivers.takes (h : s.Delivers fs bss os a) (hj : s.job c = some j) (ha : s.Alone c j)
    (hs : j.Sends msg a) : ∃ f os' a', s.Takes c j msg (fs ++ [f]) bss os os' a' := by
  obtain ⟨f, os', a', henc, hne, hnext, hcontrol, hlast, hgoes⟩ :=
    hs.next fun hdata hindex => h.first hj ha hdata hindex
  refine ⟨f, os', a', List.rel_append h.encoded (.cons henc .nil), ?_, feed_append.2 ⟨os, os', a, h.feed, ?_, rfl⟩,
    ?_, fun hl => ⟨(hlast hl).1, fun hne' => ?_⟩, fun hlt => ⟨(hgoes hlt).1, ?_, (hgoes hlt).2⟩⟩
  · intro g hg
    rcases List.mem_append.1 hg with hg | hg
    · exact h.open' g hg
    · rw [List.mem_singleton.1 hg]
      exact hne
  · exact feed_cons.2 ⟨os', [], a', hnext, rfl, (List.append_nil _).symm⟩
  · intro c' k hc hk
    exact ⟨(ha c' k hc hk).1, h.others ha (fun hd => (hcontrol hd).1) hc hk⟩
  · -- a message that is open is not that of the call
    cases hdata : j.call.data with
    | true => exact absurd ((hlast hl).2 hdata) hne'
    | false =>
      rw [(hcontrol hdata).1] at hne'
      obtain ⟨c', k, hk, hdata', hpos⟩ := h.begun hne'
      refine ⟨c', k, ?_, hk, hdata', hpos⟩
      rintro rfl
      cases hj.symm.trans hk
      rw [hdata] at hdata'
      cases hdata'
  · by_contra hd
    have hend := (hcontrol (Bool.not_eq_true _ ▸ hd)).2
    omega

/-- It is the turn of the next frame. -/
theorem Senders.Takes.nextFrame {os' : List Obs} (h : s.Takes c j msg fs bss os os' a') (hs : j.Sends msg a)
    (hd : os.filterMap Obs.delivers? = s.returned.map fun m => (m.opcode, m.payload))
    (hlt : j.index + 1 < msg.frames.length) (hjob : s'.job = Function.update s.job c (some j'))
    (hcall : j'.call = j.call) (hindex : j'.index = j.index + 1) (hsent : j'.sent = 0)
    (hret : s'.returned = s.returned) (hwire : s'.wire = (bss ++ [j.frame.str]).flatten) :
    s'.Delivers fs (bss ++ [j.frame.str]) (os ++ os') a' := by
  obtain ⟨rfl, hdata, hpart⟩ := h.goes hlt
  refine ⟨h.encoded, h.open', h.feed, ?_, ?_, fun _ => ⟨c, j', (job_update hjob).2 (Or.inl ⟨rfl, rfl⟩), ?_, ?_⟩,
    Or.inl ⟨hwire, ?_⟩⟩
  · rw [List.append_nil, hret, hd]
  · intro c' k hk
    rcases (job_update hjob).1 hk with ⟨-, hk⟩ | ⟨hc, hk⟩
    · obtain rfl := Option.some.inj hk
      exact ⟨msg, hcall ▸ hs.opcode, hcall ▸ hs.payload, hs.ordinary, hcall ▸ hs.encoded, hindex ▸ hlt,
        fun _ _ => hindex ▸ hpart⟩
    · exact (h.others c' k hc hk).2
  · rw [hcall]
    exact hdata
  · rw [hindex]
    exact Nat.succ_pos _
  · intro c' k hk
    rcases (job_update hjob).1 hk with ⟨-, hk⟩ | ⟨hc, hk⟩
    · obtain rfl := Option.some.inj hk
      exact hsent
    · exact (h.others c' k hc hk).1

/-- The call returns. -/
theorem Senders.Takes.returns {os' : List Obs} (h : s.Takes c j msg fs bss os os' a')
    (hd : os.filterMap Obs.delivers? = s.returned.map fun m => (m.opcode, m.payload))
    (hl : j.index + 1 = msg.frames.length) (hjob : s'.job = Function.update s.job c none)
    (hret : s'.returned = s.returned ++ [j.call]) (hwire : s'.wire = (bss ++ [j.frame.str]).flatten) :
    s'.Delivers fs (bss ++ [j.frame.str]) (os ++ os') a' := by
  obtain ⟨hos, hopen⟩ := h.last hl
  have hother : ∀ {c' k}, s'.job c' = some k → c' ≠ c ∧ s.job c' = some k := by
    intro c' k hk
    rcases (job_update hjob).1 hk with ⟨-, hk⟩ | hk
    · cases hk
    · exact hk
  refine ⟨h.encoded, h.open', h.feed, ?_, ?_, fun hne => ?_, Or.inl ⟨hwire, ?_⟩⟩
  · rw [List.filterMap_append, hd, hos, hret, List.map_append]
    rfl
  · intro c' k hk
    exact (h.others c' k (hother hk).1 (hother hk).2).2
  · obtain ⟨c', k, hc, hk, hdata, hpos⟩ := hopen hne
    exact ⟨c', k, (job_update hjob).2 (Or.inr ⟨hc, hk⟩), hdata, hpos⟩
  · intro c' k hk
    exact (h.others c' k (hother hk).1 (hother hk).2).1

/-- **The kernel takes bytes** of a sender that is alone. -/
theorem Senders.Delivers.accepted (h : s.Delivers fs bss os a) (hj : s.job c = some j) (ha : s.Alone c j)
    (hn : 0 < n) (hle : j.sent + n ≤ j.frame.str.length) :
    ∃ fs bss os a, (s.accepted c j n).Delivers fs bss os a := by
  have hwire : s.wire ++ (j.frame.str.drop j.sent).take n = bss.flatten ++ j.frame.str.take (j.sent + n) := by
    rw [h.wire hj ha, List.append_assoc, ← List.take_add]
  rw [Senders.accepted]
  split
  · exact ⟨fs, bss, os, a, h.goesOn hj ha rfl rfl rfl (Nat.add_pos_right _ hn) rfl hwire⟩
  · rename_i hge
    have hall : s.wire ++ (j.frame.str.drop j.sent).take n = (bss ++ [j.frame.str]).flatten := by
      rw [hwire, List.take_of_length_le (by omega)]
      simp
    obtain ⟨msg, hs⟩ := h.jobs c j hj
    obtain ⟨f, os', a', htakes⟩ := h.takes hj ha hs
    have hlen : msg.frames.length = j.call.strs.length := hs.encoded.length_eq
    have hindex := hs.index
    rw [Senders.returns]
    split
    · rename_i hlt
      exact ⟨_, _, _, _, htakes.nextFrame hs h.delivered (hlen ▸ hlt) rfl rfl rfl rfl rfl hall⟩
    · exact ⟨_, _, _, _, htakes.returns h.delivered (by omega) rfl rfl hall⟩

/-- An ordinary message is sent; the connection is not closed. -/
def Act.Ordinary : Act → Prop
  | .send _ opcode payload _ => opcode ∈ [TEXT, BINARY, PING, PONG] ∧ payload.length < 2 ^ 63
  | .close .. => False
  | .sys _ | .wake | .throw => True

theorem Senders.Delivers.send {opcode : ℕ} {payload : List UInt8} {rand : ℕ → UInt32}
    (h : s.Delivers fs bss os a) (hc : s.job c = none) (hop : opcode ∈ [TEXT, BINARY, PING, PONG])
    (hlen : payload.length < 2 ^ 63) (closes : Bool) :
    (s.send c opcode payload rand closes).Delivers fs bss os a := by
  have hne : ∀ {c' j'}, s.job c' = some j' → c' ≠ c := by
    rintro c' j' hj' rfl
    rw [hc] at hj'
    cases hj'
  have hop16 : opcode < 16 := by
    simp only [List.mem_cons, List.not_mem_nil, or_false] at hop
    rcases hop with rfl | rfl | rfl | rfl <;> decide
  rw [Senders.send]
  split
  · split
    · rename_i strs hw
      have henc : Encoded (Message.frames ⟨opcode, payload, hop16, hlen⟩) strs := written hw s.calls _ rfl rfl
      have hpos := List.length_pos_of_ne_nil (write_strs hw).1
      refine ⟨h.encoded, h.open', h.feed, h.delivered, ?_, ?_, ?_⟩
      · intro c' j' hj'
        rcases (job_update rfl).1 hj' with ⟨-, hj'⟩ | ⟨-, hj'⟩
        · cases hj'
          exact ⟨⟨opcode, payload, hop16, hlen⟩, rfl, rfl, hop, henc, henc.length_eq ▸ hpos, fun _ h0 => absurd h0 (Nat.lt_irrefl 0)⟩
        · exact h.jobs c' j' hj'
      · intro hopen
        obtain ⟨c', j', hj', hdata, hindex⟩ := h.begun hopen
        exact ⟨c', j', (job_update rfl).2 (Or.inr ⟨hne hj', hj'⟩), hdata, hindex⟩
      · rcases h.sent with ⟨hwire, h0⟩ | ⟨c', j', hj', hsent, hwire, hothers⟩
        · refine Or.inl ⟨hwire, fun c' j' hj' => ?_⟩
          rcases (job_update rfl).1 hj' with ⟨-, hj'⟩ | ⟨-, hj'⟩
          · cases hj'
            rfl
          · exact h0 c' j' hj'
        · refine Or.inr ⟨c', j', (job_update rfl).2 (Or.inr ⟨hne hj', hj'⟩), hsent, hwire, fun c₁ j₁ hc₁ hj₁ => ?_⟩
          rcases (job_update rfl).1 hj₁ with ⟨-, hj₁⟩ | ⟨-, hj₁⟩
          · cases hj₁
            rfl
          · exact hothers c₁ j₁ hc₁ hj₁
    · exact h
  · exact h

/-- **One step** of the senders, and the receiver. -/
theorem Senders.Delivers.next (h : s.Delivers fs bss os a) (hc : s.Clear act) (ho : act.Ordinary)
    (hstep : s.step act = some s') : ∃ fs bss os a, s'.Delivers fs bss os a := by
  cases step_steps hstep with
  | send c opcode payload rand hcur hj => exact ⟨fs, bss, os, a, h.send hj ho.1 ho.2 false⟩
  | close | raises => exact ho.elim
  | accepted c j n hcur hj hn hle => exact h.accepted hj (hc c j hcur hj) hn hle
  | refused c j err hcur hj =>
    obtain ⟨hblock, hcb⟩ := hc
    rw [Senders.refused, if_pos hblock, Senders._wait, hcb]
    exact ⟨fs, bss, os, a, { h with }⟩
  | wake c hcur hcb => exact ⟨fs, bss, os, a, { h with }⟩
  | throw => exact absurd hc id

theorem Senders.init_delivers (mask : Bool) (timeout : Option ℤ) :
    (Senders.init mask timeout).Delivers [] [] [] none where
  encoded := .nil
  open' := nofun
  feed := rfl
  delivered := rfl
  jobs := nofun
  begun h := absurd rfl h
  sent := Or.inl ⟨rfl, nofun⟩

/-! ## The calls -/

/-- Every call has returned once, or is going on in one coroutine. -/
structure Senders.Counted (s : Senders) : Prop where
  once : (s.returned.map Send.id).Nodup
  known : ∀ m ∈ s.returned, m.id < s.calls
  jobs : ∀ c j, s.job c = some j → j.call.id < s.calls ∧ j.call.id ∉ s.returned.map Send.id
  inj : ∀ c c' j j', s.job c = some j → s.job c' = some j' → j.call.id = j'.call.id → c = c'
  all : ∀ id < s.calls, id ∈ s.returned.map Send.id ∨ ∃ c j, s.job c = some j ∧ j.call.id = id

theorem Senders.Counted.goes (h : s.Counted) (hj : s.job c = some j)
    (hjob : s'.job = Function.update s.job c (some j')) (hcall : j'.call = j.call) (hcalls : s'.calls = s.calls)
    (hret : s'.returned = s.returned) : s'.Counted := by
  have hback : ∀ {c' k}, s'.job c' = some k → ∃ k', s.job c' = some k' ∧ k'.call = k.call := by
    intro c' k hk
    rcases (job_update hjob).1 hk with ⟨rfl, hk⟩ | ⟨-, hk⟩
    · cases hk
      exact ⟨j, hj, hcall.symm⟩
    · exact ⟨k, hk, rfl⟩
  refine ⟨hret ▸ h.once, hcalls ▸ hret ▸ h.known, ?_, ?_, ?_⟩
  · intro c' k hk
    obtain ⟨k', hk', heq⟩ := hback hk
    rw [hcalls, hret, ← heq]
    exact h.jobs c' k' hk'
  · intro c₁ c₂ k₁ k₂ hk₁ hk₂ heq
    obtain ⟨k₁', hk₁', heq₁⟩ := hback hk₁
    obtain ⟨k₂', hk₂', heq₂⟩ := hback hk₂
    exact h.inj _ _ _ _ hk₁' hk₂' (by rw [heq₁, heq₂, heq])
  · intro id hid
    rw [hret]
    refine (h.all id (hcalls ▸ hid)).imp_right ?_
    rintro ⟨c', k, hk, hkid⟩
    by_cases hc : c' = c
    · subst hc
      cases hj.symm.trans hk
      exact ⟨c', j', (job_update hjob).2 (Or.inl ⟨rfl, rfl⟩), hcall ▸ hkid⟩
    · exact ⟨c', k, (job_update hjob).2 (Or.inr ⟨hc, hk⟩), hkid⟩

theorem Senders.Counted.returns (h : s.Counted) (hj : s.job c = some j) : (s.returns c j).Counted := by
  rw [Senders.returns]
  split
  · exact h.goes hj rfl rfl rfl rfl
  · have hjob : (s.setJob c none).job = Function.update s.job c none := rfl
    have hother : ∀ {c' k}, Function.update s.job c none c' = some k → c' ≠ c ∧ s.job c' = some k := by
      intro c' k hk
      rcases (job_update hjob).1 hk with ⟨-, hk⟩ | hk
      · cases hk
      · exact hk
    obtain ⟨hlt, hfresh⟩ := h.jobs c j hj
    refine ⟨?_, ?_, ?_, ?_, ?_⟩
    · rw [List.map_append]
      refine List.nodup_append.2 ⟨h.once, List.nodup_singleton _, ?_⟩
      rintro x hx y hy rfl
      rw [List.map_singleton, List.mem_singleton] at hy
      exact hfresh (hy ▸ hx)
    · intro m hm
      rcases List.mem_append.1 hm with hm | hm
      · exact h.known m hm
      · rw [List.mem_singleton.1 hm]
        exact hlt
    · intro c' k hk
      obtain ⟨hc, hk⟩ := hother hk
      obtain ⟨hklt, hkfresh⟩ := h.jobs c' k hk
      refine ⟨hklt, ?_⟩
      rw [List.map_append, List.mem_append, List.map_singleton, List.mem_singleton]
      rintro (hm | hm)
      · exact hkfresh hm
      · exact hc (h.inj _ _ _ _ hk hj hm)
    · intro c₁ c₂ k₁ k₂ hk₁ hk₂ heq
      exact h.inj _ _ _ _ (hother hk₁).2 (hother hk₂).2 heq
    · intro id hid
      rw [List.map_append, List.mem_append, List.map_singleton, List.mem_singleton]
      rcases h.all id hid with hm | ⟨c', k, hk, hkid⟩
      · exact Or.inl (Or.inl hm)
      · by_cases hc : c' = c
        · subst hc
          cases hj.symm.trans hk
          exact Or.inl (Or.inr hkid.symm)
        · exact Or.inr ⟨c', k, (job_update hjob).2 (Or.inr ⟨hc, hk⟩), hkid⟩

theorem Senders.Counted.send {opcode : ℕ} {payload : List UInt8} {rand : ℕ → UInt32} (h : s.Counted)
    (hc : s.job c = none) (closes : Bool) : (s.send c opcode payload rand closes).Counted := by
  have hne : ∀ {c' j'}, s.job c' = some j' → c' ≠ c := by
    rintro c' j' hj' rfl
    rw [hc] at hj'
    cases hj'
  rw [Senders.send]
  split
  · split
    · rename_i strs hw
      refine ⟨h.once, fun m hm => (h.known m hm).trans (Nat.lt_succ_self _), ?_, ?_, ?_⟩
      · intro c' k hk
        rcases (job_update rfl).1 hk with ⟨-, hk⟩ | ⟨-, hk⟩
        · cases hk
          refine ⟨Nat.lt_succ_self _, ?_⟩
          rintro hm
          obtain ⟨m, hm, hid⟩ := List.mem_map.1 hm
          exact absurd (h.known m hm) (by rw [hid]; exact Nat.lt_irrefl _)
        · exact ⟨(h.jobs c' k hk).1.trans (Nat.lt_succ_self _), (h.jobs c' k hk).2⟩
      · intro c₁ c₂ k₁ k₂ hk₁ hk₂ heq
        rcases (job_update rfl).1 hk₁ with ⟨rfl, hn₁⟩ | ⟨-, hn₁⟩
        · rcases (job_update rfl).1 hk₂ with ⟨rfl, -⟩ | ⟨-, hn₂⟩
          · rfl
          · cases hn₁
            exact absurd heq.symm (h.jobs c₂ k₂ hn₂).1.ne
        · rcases (job_update rfl).1 hk₂ with ⟨rfl, hn₂⟩ | ⟨-, hn₂⟩
          · cases hn₂
            exact absurd heq (h.jobs c₁ k₁ hn₁).1.ne
          · exact h.inj _ _ _ _ hn₁ hn₂ heq
      · intro id hid
        rcases (Nat.lt_succ_iff_lt_or_eq).1 hid with hid | rfl
        · refine (h.all id hid).imp_right ?_
          rintro ⟨c', k, hk, hkid⟩
          exact ⟨c', k, (job_update rfl).2 (Or.inr ⟨hne hk, hk⟩), hkid⟩
        · exact Or.inr ⟨c, _, Function.update_self .., rfl⟩
    · exact h
  · exact h

theorem Senders.Counted.next (h : s.Counted) (hstep : s.step act = some s') : s'.Counted := by
  cases step_steps hstep with
  | send c opcode payload rand hcur hj => exact h.send hj false
  | close c code reason rand closeMsg hcur hj => exact h.send hj true
  | raises => exact h
  | accepted c j n hcur hj =>
    have hwire : ({ s with wire := s.wire ++ (j.frame.str.drop j.sent).take n } : Senders).Counted := { h with }
    rw [Senders.accepted]
    split
    · exact hwire.goes hj rfl rfl rfl rfl
    · exact hwire.returns hj
  | refused c j err hcur hj =>
    rw [Senders.refused]
    split
    · rw [Senders._wait]
      split
      · exact { h with }
      · exact h.returns hj
    · exact h.returns hj
  | wake => exact { h with }
  | throw c j hcur hcb hj =>
    have hwoken : ({ s with cb := none, cur := some c } : Senders).Counted := { h with }
    exact hwoken.returns hj

theorem Senders.init_counted (mask : Bool) (timeout : Option ℤ) : (Senders.init mask timeout).Counted where
  once := List.nodup_nil
  known := nofun
  jobs := nofun
  inj := nofun
  all _ h := absurd h (Nat.not_lt_zero _)

/-! ## Runs -/

/-- **What has been sent is what is delivered.**  At every moment of a clear run, the peer that reads
    what is on the wire has delivered the messages whose calls have returned, in the order in which
    they have, and is left with part of a frame at most; and every call has returned once or is going
    on. -/
theorem returned_delivered {timeout : Option ℤ} (hrun : run Senders.step (Senders.init mask timeout) as = some t)
    (hA : Along Senders.step Senders.Clear (Senders.init mask timeout) as) (ho : ∀ act ∈ as, act.Ordinary) :
    (∃ n part, (part = [] ∨ ∃ c j, t.job c = some j ∧ part = j.frame.str.take j.sent) ∧
      ∀ conn rest, conn.Holds (t.wire ++ rest) → ∃ r, (Reader.start conn).run n = .ok (r, false) ∧
        r.conn.Holds (part ++ rest) ∧
          r.log.filterMap Obs.delivers? = t.returned.map fun m => (m.opcode, m.payload)) ∧
      (t.returned.map Send.id).Nodup ∧
      ∀ id < t.calls, id ∈ t.returned.map Send.id ∨ ∃ c j, t.job c = some j ∧ j.call.id = id := by
  have hcounted : t.Counted := Lib.run_inv (I := Senders.Counted) (fun _ _ _ h _ hstep => h.next hstep)
    (Senders.init_counted mask timeout) hA hrun
  refine ⟨?_, hcounted.once, hcounted.all⟩
  have hA' := hA.and (Along.of_forall (C := fun _ act => act.Ordinary) fun _ act hact => ho act hact)
  have hinit : ∃ fs bss os a, (Senders.init mask timeout).Delivers fs bss os a :=
    ⟨[], [], [], none, Senders.init_delivers mask timeout⟩
  obtain ⟨fs, bss, os, a, h⟩ : ∃ fs bss os a, t.Delivers fs bss os a := by
    refine Lib.run_inv (I := fun s : Senders => ∃ fs bss os a, s.Delivers fs bss os a) ?_ hinit hA' hrun
    rintro s act s' ⟨fs, bss, os, a, h⟩ hc hstep
    exact h.next hc.1 hc.2 hstep
  obtain ⟨part, hpart, hwire⟩ : ∃ part, (part = [] ∨ ∃ c j, t.job c = some j ∧ part = j.frame.str.take j.sent) ∧
      t.wire = bss.flatten ++ part := by
    rcases h.sent with ⟨hw, -⟩ | ⟨c, j, hj, -, hw, -⟩
    · exact ⟨[], Or.inl rfl, by rw [hw, List.append_nil]⟩
    · exact ⟨_, Or.inr ⟨c, j, hj, rfl⟩, hw⟩
  refine ⟨fs.length, part, hpart, fun conn rest hconn => ?_⟩
  rw [hwire, List.append_assoc] at hconn
  obtain ⟨r, hr, -, hlog, hconn'⟩ := run_frames (start_holds conn) h.encoded hconn h.open' h.feed
  have hlog' : r.log = os := hlog
  exact ⟨r, hr 0, hconn', by rw [hlog', h.delivered]⟩

/-- A text whose sender waits for the kernel, and then a ping. -/
def textThenPing : List Act :=
  [.send 1 TEXT [72, 105] fun _ => 0, .sys (.error .EAGAIN), .wake, .sys (.ok 1), .sys (.ok 3),
    .send 2 PING [] fun _ => 0, .sys (.ok 2)]

theorem returned_delivered_textThenPing :
    ∃ t, run Senders.step (Senders.init false none) textThenPing = some t ∧
      t.returned.map (fun m => (m.opcode, m.payload)) = [(TEXT, [72, 105]), (PING, [])] ∧
      ∃ n part, (part = [] ∨ ∃ c j, t.job c = some j ∧ part = j.frame.str.take j.sent) ∧
        ∀ conn rest, conn.Holds (t.wire ++ rest) → ∃ r, (Reader.start conn).run n = .ok (r, false) ∧
          r.conn.Holds (part ++ rest) ∧
            r.log.filterMap Obs.delivers? = t.returned.map fun m => (m.opcode, m.payload) := by
  have h : run Senders.step (Senders.init false none) textThenPing = some _ := rfl
  have hturn : Along Senders.step Senders.InTurn (Senders.init false none) textThenPing :=
    .cons rfl rfl (.cons rfl rfl (.cons trivial rfl (.cons trivial rfl (.cons trivial rfl
      (.cons rfl rfl (.cons trivial rfl trivial))))))
  refine ⟨_, h, rfl, (returned_delivered h (send_inTurn h hturn) ?_).1⟩
  simp [textThenPing, Act.Ordinary]

end Levent.WebSocket
