/-
  The `Content-Length` of the messages that one request or one response writer packs.

  `pack` leaves the length that it writes in the table of fields, where the next `pack`
  finds it: the field is a cell that is written once (`Lib.held`), and the messages show
  the payloads with what the cell holds.
-/
import Levent.Http.Pack
import Levent.Lib.Once
import Levent.Lib.Related
import Levent.Lib.Run

namespace Levent.Http

/-! ## Calls -/

/-- What a call does to the data. -/
inductive Event where
  | keep
  | data (d : Option Data)
  | pack

/-- The payloads that are packed, when the data are `d` at first. -/
def payloads : Option Data → List Event → List (List UInt8)
  | _, [] => []
  | d, .keep :: es => payloads d es
  | _, .data d :: es => payloads d es
  | d, .pack :: es => payloadOf d :: payloads d es

/-- A call of a method of a request. -/
inductive Request.Call where
  | setMethod (method : List UInt8)
  | setPath (path : Option (List UInt8))
  | setQueryString (queryString : Option (List UInt8))
  | setData (data : Option (List UInt8))
  | addHeaders (headers : Option (List (List UInt8 × List UInt8)))
  | pack (order : Order)

def Request.Call.event : Request.Call → Event
  | .setData (some data) => .data (some (.text data))
  | .pack _ => .pack
  | _ => .keep

/-- The fields that the call sets. -/
def Request.Call.fields : Request.Call → List (List UInt8 × List UInt8)
  | .addHeaders (some headers) => headers
  | _ => []

/-- The request after the call, and what it packs.  A method that is not supported
    raises, and the request stays as it is. -/
def Request.call (r : Request) : Request.Call → Request × Option Packed
  | .setMethod method => ((r.setMethod method).toOption.getD r, none)
  | .setPath path => (r.setPath path, none)
  | .setQueryString queryString => (r.setQueryString queryString, none)
  | .setData data => (r.setData data, none)
  | .addHeaders headers => (r.addHeaders headers, none)
  | .pack order => ((r.pack order).2, some (r.pack order).1)

/-- A call of a method of a response writer, at the date that `pack` writes. -/
inductive ResponseWriter.Call where
  | setHeader (header value : List UInt8)
  | setHeaders (headers : Option (List (List UInt8 × List UInt8)))
  | setCode (code : ℕ)
  | setData (data : Option Data)
  | pack (order : Order) (date : List UInt8)

def ResponseWriter.Call.event : ResponseWriter.Call → Event
  | .setData data => .data data
  | .pack _ _ => .pack
  | _ => .keep

/-- The fields that the call sets. -/
def ResponseWriter.Call.fields : ResponseWriter.Call → List (List UInt8 × List UInt8)
  | .setHeader header value => [(header, value)]
  | .setHeaders (some headers) => headers
  | _ => []

/-- The writer after the call, and what it packs.  A code without a message raises, and
    the writer stays as it is. -/
def ResponseWriter.call (w : ResponseWriter) : ResponseWriter.Call → ResponseWriter × Option Packed
  | .setHeader header value => (w.setHeader header value, none)
  | .setHeaders headers => (w.setHeaders headers, none)
  | .setCode code => ((w.setCode code).toOption.getD w, none)
  | .setData data => (w.setData data, none)
  | .pack order date => ((w.pack order date).2, some (w.pack order date).1)

/-- The messages that the calls pack, one after another. -/
def messages {σ κ : Type} (call : σ → κ → σ × Option Packed) : σ → List κ → List Packed :=
  Lib.collect (fun s c => some (call s c).1) fun s c => (call s c).2

/-- The message carries no `Content-Length` but the length of its payload. -/
def Packed.Framed (m : Packed) : Prop :=
  ∀ e ∈ m.fields, e.1 = contentLength → e.2 = .num m.payload.length

instance (m : Packed) : Decidable m.Framed :=
  inferInstanceAs (Decidable (∀ e ∈ m.fields, e.1 = contentLength → e.2 = .num m.payload.length))

/-! ## The field as a cell -/

/-- The message has a payload of the length `e.1` and the `Content-Length` `e.2`. -/
structure Shows (m : Packed) (e : ℕ × Option ℕ) : Prop where
  length : m.payload.length = e.1
  field : ∀ v, (contentLength, v) ∈ m.fields ↔ e.2.map FieldValue.num = some v

/-- The data, and the length that the fields hold. -/
structure View (d : Option Data) (t : Fields) (v : Option Data × Option ℕ) : Prop where
  data : d = v.1
  length : t.get contentLength = v.2.map FieldValue.num

/-- What a call may do, as far as the data and the length go. -/
inductive Follows (takes : ℕ → Bool) :
    Option Data × Option ℕ → Event → Option Packed → Option Data × Option ℕ → Prop
  | keep {v} : Follows takes v .keep none v
  | data {d d' o} : Follows takes (d, o) (.data d') none (d', o)
  | pack {d o m} : Shows m ((payloadOf d).length, Lib.offer takes o (payloadOf d).length) →
      Follows takes (d, o) .pack (some m) (d, Lib.offer takes o (payloadOf d).length)

theorem Shows.framed_iff {m : Packed} {e : ℕ × Option ℕ} (h : Shows m e) :
    m.Framed ↔ ∀ n ∈ e.2, n = e.1 := by
  unfold Packed.Framed
  rw [h.length]
  constructor
  · intro hm n hn
    have hmem := (h.field (.num n)).2 (congrArg (Option.map FieldValue.num) hn)
    exact FieldValue.num.inj (hm _ hmem rfl)
  · rintro he ⟨name, v⟩ hmem rfl
    obtain ⟨n, hn, rfl⟩ := Option.map_eq_some_iff.1 ((h.field v).1 hmem)
    rw [he n hn]

section
variable {σ κ : Type} {call : σ → κ → σ × Option Packed} {event : κ → Event} {takes : ℕ → Bool}
  {view : σ → Option Data × Option ℕ → Prop} {C : κ → Prop}
  (hcall : ∀ s v c, view s v → C c →
    ∃ v', Follows takes v (event c) (call s c).2 v' ∧ view (call s c).1 v')
include hcall

/-- **The messages show the payloads with what the cell holds**, if each call does what
    its event says. -/
theorem messages_shows {s : σ} {d : Option Data} {o : Option ℕ} (hv : view s (d, o)) {calls : List κ}
    (hC : ∀ c ∈ calls, C c) :
    List.Forall₂ Shows (messages call s calls)
      (Lib.held takes o ((payloads d (calls.map event)).map List.length)) := by
  induction calls generalizing s d o with
  | nil => exact .nil
  | cons c calls ih =>
    obtain ⟨hc, hcalls⟩ := List.forall_mem_cons.1 hC
    obtain ⟨v', hf, hv'⟩ := hcall s (d, o) c hv hc
    have hrec := ih hv' hcalls
    show List.Forall₂ Shows ((call s c).2.toList ++ messages call (call s c).1 calls) _
    rw [List.map_cons]
    generalize event c = e at hf
    generalize (call s c).2 = m at hf
    cases hf with
    | keep => exact hrec
    | data => exact hrec
    | pack hm => exact .cons hm hrec

/-- **Every message is framed exactly if the lengths are the same** from the first one on
    that is written. -/
theorem messages_framed_iff {s : σ} {d : Option Data} (hv : view s (d, none)) {calls : List κ}
    (hC : ∀ c ∈ calls, C c) :
    (∀ m ∈ messages call s calls, m.Framed) ↔
      Lib.Level (((payloads d (calls.map event)).map List.length).dropWhile fun n => !takes n) := by
  rw [← Lib.held_none]
  exact Lib.related_all (messages_shows hcall hv hC) fun _ _ h => h.framed_iff

end

/-! ## The fields -/

section
variable {t : Fields} {name : List UInt8} {value : FieldValue}

theorem Fields.get_add {headers : List (List UInt8 × List UInt8)}
    (h : ∀ e ∈ headers, canonicalHeaderKey e.1 ≠ name) : (t.add headers).get name = t.get name := by
  induction headers generalizing t with
  | nil => rfl
  | cons e headers ih =>
    obtain ⟨he, hrest⟩ := List.forall_mem_cons.1 h
    exact (ih hrest).trans (get_set_ne he)

theorem Fields.get_setDefault_self : (t.setDefault name value).get name = (t.get name).or (some value) := by
  unfold setDefault
  split
  · rename_i hnone
    rw [get_set_self, hnone]
    rfl
  · rename_i hsome
    obtain ⟨v, hv⟩ := Option.ne_none_iff_exists'.1 hsome
    rw [hv]
    rfl

theorem Fields.get_setDefault_ne {name' : List UInt8} (h : name ≠ name') :
    (t.setDefault name value).get name' = t.get name' := by
  unfold setDefault
  split
  · exact get_set_ne h
  · rfl

end

/-- A message shows the table that it was packed from. -/
theorem shows_pack {start payload : List UInt8} {t : Fields} {order : Order} {o : Option ℕ}
    (h : t.get contentLength = o.map FieldValue.num) :
    Shows ⟨start, order.pairs t.entries, payload⟩ (payload.length, o) := by
  refine ⟨rfl, fun v => ?_⟩
  rw [(order.perm t.entries).mem_iff, Fields.mem_iff, h]

/-! ## Requests -/

/-- `request:pack` writes the length of a payload that is not empty. -/
def Request.takes (n : ℕ) : Bool := 0 < n

theorem Request.packHeaders_length {r : Request} {o : Option ℕ}
    (h : r.headers.get contentLength = o.map FieldValue.num) :
    r.packHeaders.get contentLength =
      (Lib.offer Request.takes o (payloadOf r.data).length).map FieldValue.num := by
  unfold packHeaders Lib.offer takes
  cases o with
  | some n =>
    rw [if_neg (by rw [h]; rintro ⟨-, hnone⟩; cases hnone), h]
    rfl
  | none =>
    by_cases hlen : 0 < (payloadOf r.data).length
    · simp [h, hlen]
    · simp [h, hlen]

theorem Request.setMethod_ok {r r' : Request} {method : List UInt8} (h : r.setMethod method = .ok r') :
    r'.data = r.data ∧ r'.headers = r.headers := by
  unfold setMethod at h
  split at h
  · cases h
    exact ⟨rfl, rfl⟩
  · cases h

theorem Request.call_follows (r : Request) (v : Option Data × Option ℕ) (c : Request.Call)
    (hv : View r.data r.headers v) (hc : ∀ e ∈ c.fields, canonicalHeaderKey e.1 ≠ contentLength) :
    ∃ v', Follows Request.takes v c.event (r.call c).2 v' ∧
      View (r.call c).1.data (r.call c).1.headers v' := by
  obtain ⟨d, o⟩ := v
  obtain ⟨rfl, hlength⟩ := hv
  cases c with
  | setMethod method =>
    refine ⟨_, .keep, ?_⟩
    show View ((r.setMethod method).toOption.getD r).data ((r.setMethod method).toOption.getD r).headers _
    cases hset : r.setMethod method with
    | ok r' =>
      obtain ⟨hdata, hheaders⟩ := setMethod_ok hset
      exact ⟨hdata, hheaders ▸ hlength⟩
    | error e => exact ⟨rfl, hlength⟩
  | setPath path => exact ⟨_, .keep, rfl, hlength⟩
  | setQueryString queryString => exact ⟨_, .keep, rfl, hlength⟩
  | setData data =>
    cases data with
    | none => exact ⟨_, .keep, rfl, hlength⟩
    | some data => exact ⟨_, .data, rfl, hlength⟩
  | addHeaders headers =>
    cases headers with
    | none => exact ⟨_, .keep, rfl, hlength⟩
    | some headers => exact ⟨_, .keep, rfl, (Fields.get_add hc).trans hlength⟩
  | pack order =>
    have hpack := packHeaders_length hlength
    exact ⟨_, .pack (shows_pack hpack), rfl, hpack⟩

theorem Request.new_view (method : Option (List UInt8)) (host : List UInt8)
    (path queryString : Option (List UInt8)) (data : Option Data)
    {headers : Option (List (List UInt8 × List UInt8))}
    (h : ∀ e ∈ headers.getD [], canonicalHeaderKey e.1 ≠ contentLength) :
    View (Request.new method host path queryString data headers).data
      (Request.new method host path queryString data headers).headers (data, none) := by
  have hbase : (((Fields.empty.set (ascii "Host") (.str host)).set (ascii "User-Agent")
      (.str HTTP_AGENT)).set (ascii "Accept") (.str (ascii "*/*"))).get contentLength = none := by
    rw [Fields.get_set_ne (by decide), Fields.get_set_ne (by decide), Fields.get_set_ne (by decide)]
    rfl
  cases headers with
  | none => exact ⟨rfl, hbase⟩
  | some headers => exact ⟨rfl, (Fields.get_add h).trans hbase⟩

/-- A request with a payload carries its length, or the one that the table already has. -/
theorem Request.pack_carries {r : Request} {order : Order} (h : (r.pack order).1.payload ≠ []) :
    ∃ v, (contentLength, v) ∈ (r.pack order).1.fields := by
  have hlen : 0 < (payloadOf r.data).length := List.length_pos_iff.2 h
  have hget : r.packHeaders.get contentLength ≠ none := by
    unfold packHeaders
    dsimp only
    split
    · rw [Fields.get_set_self]
      nofun
    · rename_i hnot
      exact fun hnone => hnot ⟨hlen, hnone⟩
  obtain ⟨v, hv⟩ := Option.ne_none_iff_exists'.1 hget
  exact ⟨v, (order.perm _).mem_iff.2 (Fields.mem_iff.2 hv)⟩

theorem Request.messages_carry {r : Request} {calls : List Request.Call} :
    ∀ m ∈ messages Request.call r calls, m.payload ≠ [] → ∃ v, (contentLength, v) ∈ m.fields := by
  induction calls generalizing r with
  | nil => exact fun m hm => absurd hm List.not_mem_nil
  | cons c calls ih =>
    intro m hm
    rcases List.mem_append.1 hm with hm | hm
    · cases c with
      | pack order =>
        obtain rfl := List.mem_singleton.1 hm
        exact pack_carries
      | _ => exact absurd hm List.not_mem_nil
    · exact ih m hm

/-! ## Response writers -/

theorem ResponseWriter.packHeaders_length {w : ResponseWriter} {o : Option ℕ} (date : List UInt8)
    (h : w.headers.get contentLength = o.map FieldValue.num) :
    (w.packHeaders date).get contentLength =
      (Lib.offer (fun _ => true) o (payloadOf w.data).length).map FieldValue.num := by
  unfold packHeaders Lib.offer
  rw [Fields.get_setDefault_self, Fields.get_setDefault_ne (by decide), Fields.get_set_ne (by decide), h]
  cases o with
  | none => rfl
  | some n => rfl

theorem ResponseWriter.setCode_ok {w w' : ResponseWriter} {code : ℕ} (h : w.setCode code = .ok w') :
    w'.data = w.data ∧ w'.headers = w.headers := by
  unfold setCode at h
  split at h
  · cases h
    exact ⟨rfl, rfl⟩
  · cases h

theorem ResponseWriter.call_follows (w : ResponseWriter) (v : Option Data × Option ℕ)
    (c : ResponseWriter.Call) (hv : View w.data w.headers v)
    (hc : ∀ e ∈ c.fields, canonicalHeaderKey e.1 ≠ contentLength) :
    ∃ v', Follows (fun _ => true) v c.event (w.call c).2 v' ∧
      View (w.call c).1.data (w.call c).1.headers v' := by
  obtain ⟨d, o⟩ := v
  obtain ⟨rfl, hlength⟩ := hv
  cases c with
  | setHeader header value => exact ⟨_, .keep, rfl, (Fields.get_add hc).trans hlength⟩
  | setHeaders headers =>
    cases headers with
    | none => exact ⟨_, .keep, rfl, hlength⟩
    | some headers => exact ⟨_, .keep, rfl, (Fields.get_add hc).trans hlength⟩
  | setCode code =>
    refine ⟨_, .keep, ?_⟩
    show View ((w.setCode code).toOption.getD w).data ((w.setCode code).toOption.getD w).headers _
    cases hset : w.setCode code with
    | ok w' =>
      obtain ⟨hdata, hheaders⟩ := setCode_ok hset
      exact ⟨hdata, hheaders ▸ hlength⟩
    | error e => exact ⟨rfl, hlength⟩
  | setData data => exact ⟨_, .data, rfl, hlength⟩
  | pack order date =>
    have hpack := packHeaders_length date hlength
    exact ⟨_, .pack (shows_pack hpack), rfl, hpack⟩

/-! ## Whole histories -/

/-- **The length that is told.**  While nobody sets `Content-Length`, every message of a
    request is framed, and carries the field if it has a payload, exactly if from the
    first payload on that is not empty all have the same length; and every message of a
    response writer exactly if all payloads have. -/
theorem contentLength_iff (method : Option (List UInt8)) (host : List UInt8)
    (path queryString : Option (List UInt8)) (data : Option Data)
    (headers : Option (List (List UInt8 × List UInt8))) (calls : List Request.Call)
    (calls' : List ResponseWriter.Call)
    (hheaders : ∀ e ∈ headers.getD [], canonicalHeaderKey e.1 ≠ contentLength)
    (hcalls : ∀ c ∈ calls, ∀ e ∈ c.fields, canonicalHeaderKey e.1 ≠ contentLength)
    (hcalls' : ∀ c ∈ calls', ∀ e ∈ c.fields, canonicalHeaderKey e.1 ≠ contentLength) :
    ((∀ m ∈ messages Request.call (Request.new method host path queryString data headers) calls,
        m.Framed ∧ (m.payload ≠ [] → ∃ v, (contentLength, v) ∈ m.fields)) ↔
      Lib.Level (((payloads data (calls.map Request.Call.event)).map List.length).dropWhile (· = 0))) ∧
    ((∀ m ∈ messages ResponseWriter.call ResponseWriter.new calls', m.Framed) ↔
      Lib.Level ((payloads none (calls'.map ResponseWriter.Call.event)).map List.length)) := by
  constructor
  · have hnew := Request.new_view method host path queryString data hheaders
    have hiff := messages_framed_iff Request.call_follows hnew hcalls
    have hzero : (fun n => !Request.takes n) = fun n => decide (n = 0) := by
      funext n
      cases n <;> rfl
    rw [hzero] at hiff
    rw [← hiff]
    constructor
    · exact fun h m hm => (h m hm).1
    · exact fun h m hm => ⟨h m hm, Request.messages_carry m hm⟩
  · have hnew : View ResponseWriter.new.data ResponseWriter.new.headers (none, none) := ⟨rfl, rfl⟩
    have hiff := messages_framed_iff ResponseWriter.call_follows hnew hcalls'
    have hall : ∀ l : List ℕ, l.dropWhile (fun _ => !true) = l := by
      intro l
      cases l <;> rfl
    rw [hall] at hiff
    exact hiff

/-- A message without a payload, and two that have one of the same length. -/
def sameLength : List Request.Call :=
  [.pack ⟨id, .refl⟩, .setData (some [97]), .pack ⟨id, .refl⟩, .setData (some [98]), .pack ⟨id, .refl⟩]

theorem contentLength_iff_same :
    (∀ m ∈ messages Request.call (Request.new none (ascii "h") none none none none) sameLength,
      m.Framed ∧ (m.payload ≠ [] → ∃ v, (contentLength, v) ∈ m.fields)) ∧
    ∀ m ∈ messages ResponseWriter.call ResponseWriter.new
      [.setHeader (ascii "server") (ascii "levent"), .pack ⟨id, .refl⟩ []], m.Framed := by
  have hiff := contentLength_iff none (ascii "h") none none none none sameLength
    [.setHeader (ascii "server") (ascii "levent"), .pack ⟨id, .refl⟩ []] (by decide) (by decide) (by decide)
  exact ⟨hiff.1.2 (by decide), hiff.2.2 (by decide)⟩

/-- The second message has two bytes behind a `Content-Length` of 1. -/
theorem contentLength_stale :
    ¬ ∀ m ∈ messages Request.call (Request.new none (ascii "h") none none none none)
        [.setData (some [97]), .pack ⟨id, .refl⟩, .setData (some [98, 99]), .pack ⟨id, .refl⟩], m.Framed := by
  decide

end Levent.Http
