/-
  The loop over a cursor, `while c:hasNext() do c:next() end`, and the server that sends
  the documents in portions.

  The requests are made one at a time, so each is answered before the next one is made
  (`Levent.Mongo.Client` is about coroutines that share the client, and about what the
  connection may do).  Here one `send` takes a request whole and `recv(4)` gives four bytes,
  neither of which the source makes sure of.  A server that is asked for something else
  closes the connection.
-/
import Levent.Bson.Place
import Levent.Mongo.Client
import Levent.Mongo.Wire

namespace Levent.Mongo

open Lib (Mem Holds signed unsigned)
open Bson (Bytes Stop docValue fromAddress ldecode unpackDict elemsOf Reader INT_MAX)

/-! ## The server -/

/-- The documents of a reply, and the cursor that gives more of them. -/
structure Portion where
  docs : List Bytes
  cursor : Bytes
  flags : ℤ
  starting : ℤ
  deriving DecidableEq

/-- The cursor is not 0. -/
def Portion.More (p : Portion) : Prop := ¬ (int32At p.cursor 0 = 0 ∧ int32At p.cursor 4 = 0)

instance (p : Portion) : Decidable p.More := by
  unfold Portion.More
  infer_instance

/-- The reply to the request `id`, after its length. -/
def Portion.reply (p : Portion) (id : ℤ) : Bytes :=
  int32 0 ++ int32 id ++ int32 1 ++ int32 p.flags ++ p.cursor ++ int32 p.starting ++ int32 p.docs.length ++
    p.docs.flatten

/-- The server has the portions that it has not sent, and the cursor that it has opened. -/
structure Server where
  name : Bytes
  query : Bytes
  selector : Option Bytes
  portions : List Portion
  opened : Option Bytes

namespace Server

/-- The request that comes next, if it is the one with the number `id`. -/
def expects (s : Server) (id : ℤ) : Request :=
  match s.opened with
  | none => .query id 0 s.name 0 0 s.query s.selector
  | some cursor => .getMore id s.name 0 cursor

/-- A message comes, and a reply is sent. -/
def answer (s : Server) (pack : Bytes) : Option (Server × Bytes) := do
  let (m, rest) ← nextMessage pack
  let r ← readRequest m
  match s.portions with
  | [] => none
  | p :: portions =>
    let id := int32At m 4
    let reply := p.reply id
    if rest = [] ∧ r = s.expects id then
      some ({ s with portions, opened := some p.cursor }, int32 (4 + reply.length) ++ reply)
    else none

end Server

/-! ## The cursor -/

/-- A cursor with its client: `table` is `__document`, unless that is nil. -/
structure Session where
  id : ℤ
  find : Find
  table : Table Empty Empty
  server : Server

namespace Session

section
variable (rawlen : (ℤ → Option (Entry Empty)) → ℕ) (mem : Bytes → Mem) (fuel : ℕ)

/-- `find` -/
def init (id : ℤ) (server : Server) : Session where
  id
  find := ⟨server.name, server.query, server.selector, none, none, none, true⟩
  table := ⟨fun _ => none, fun _ => none⟩
  server := server

/-- `sock:send`, which takes the request whole, and `get_reply`, whose `recv(4)` gives the four
    bytes of the length; and what `hasNext` makes of the reply. -/
def ask (s : Session) (id : ℤ) (pack : Bytes) : Except Result (Bool × Session) :=
  match s.server.answer pack with
  | none => .error .noReply
  | some (server, sent) =>
    match replyLength (sent.take 4) with
    | .error e => .error (.failed e)
    | .ok length =>
      let data := (sent.drop 4).take length.toNat
      match opReply rawlen fuel data (some s.table) with
      | .error e => .error (.failed e)
      | .ok (r, table) =>
        if r.id ≠ some id then .error .assertion
        else
          match r.hasNext with
          | .hasNext more => .ok (more, ⟨s.id, s.find.took data r, table.getD s.table, server⟩)
          | e => .error e

/-- `hasNext` -/
def hasNext (s : Session) : Except Result (Bool × Session) :=
  let f := s.find
  if f.ptr.isSome then .ok (true, s)
  else if f.document = false then .ok (false, s)
  else
    let id := signed 8 (unsigned 8 (s.id + 1))
    let s := { s with id }
    match f.data, f.cursor with
    | none, _ => s.ask rawlen fuel id (opQuery id 0 f.fullName 0 0 f.query f.selector)
    | some _, some cursor =>
      match opGetMore id f.fullName 0 cursor with
      | .ok pack => s.ask rawlen fuel id pack
      | .error e => .error (.failed e)
    | some _, none => .ok (false, { s with find := { f with document := false, data := none } })

/-- `next`: nil is decoded as nothing. -/
def next (s : Session) : Except Stop (Option Bson.Value × Session) :=
  match s.find.ptr with
  | none => .error (.error "Call hasNext first")
  | some k => do
    let v ← match s.table.ints k with
      | some (.doc p) => (ldecode (fromAddress (mem (s.find.data.getD [])) p) fuel).result.map some
      | _ => .ok none
    let ptr := if rawlen s.table.ints < k + 1 then none else some (k + 1)
    pure (v, { s with find := { s.find with ptr } })

/-- The loop, at most `n` rounds of it: what `next` has returned. -/
def loop : ℕ → Session → Option (List (Option Bson.Value) × Session)
  | 0, _ => none
  | n + 1, s =>
    match s.hasNext rawlen fuel with
    | .ok (true, s) =>
      match s.next rawlen mem fuel with
      | .ok (v, s) => (loop n s).map fun r => (v :: r.1, r.2)
      | .error _ => none
    | .ok (false, s) => some ([], s)
    | .error _ => none

end

end Session

/-! ## What is sent -/

/-- Each document can be decoded, and the numbers fit. -/
structure Portion.Sound (p : Portion) : Prop where
  docs : ∀ doc ∈ p.docs, IsDocument doc ∧ (docValue doc).isSome
  cursor : p.cursor.length = 8
  flags : IsInt32 p.flags
  starting : IsInt32 p.starting
  succeeds : unsigned 4 p.flags &&& REPLY_QUERYFAILURE = 0
  short : 36 + p.docs.flatten.length < 2 ^ 31

/-- The name is a string of C, and the requests are no longer than their length can say. -/
structure Server.Sound (s : Server) : Prop where
  name : 0 ∉ s.name
  query : IsDocument s.query
  selector : ∀ d ∈ s.selector, IsDocument d
  short : 33 + s.name.length + s.query.length + (s.selector.getD []).length < 2 ^ 31

/-- Where the documents are, from the address on. -/
def places : ℤ → List Bytes → List ℤ
  | _, [] => []
  | p, doc :: docs => p :: places (p + doc.length) docs

variable {p : Portion} {id : ℤ} {docs : List Bytes} {data pre : Bytes} {a : ℤ} {s s' : Session} {server : Server}

@[simp] theorem places_length (a : ℤ) (docs : List Bytes) : (places a docs).length = docs.length := by
  induction docs generalizing a with
  | nil => rfl
  | cons doc docs ih => rw [places, List.length_cons, List.length_cons, ih]

/-- The documents are walked through. -/
theorem walk_places (hend : dataEnd data = data.length) (h : ∀ doc ∈ docs, IsDocument doc)
    (hdata : data = pre ++ docs.flatten) (hint : data.length ≤ INT_MAX) :
    Walk data pre.length (places pre.length docs) data.length := by
  induction docs generalizing pre with
  | nil =>
    rw [List.flatten_nil, List.append_nil] at hdata
    subst hdata
    exact .done (by omega)
  | cons doc docs ih =>
    rw [List.forall_mem_cons] at h
    obtain ⟨⟨h5, hlen⟩, hdocs⟩ := h
    have hat : int32At data pre.length = doc.length := by
      rw [hdata, List.flatten_cons, ← hlen]
      have hdrop := int32At_drop (pre ++ (doc ++ docs.flatten)) pre.length 0
      rw [List.drop_left, add_zero] at hdrop
      rw [← hdrop]
      have htake := int32At_take (doc ++ docs.flatten) (n := doc.length) (p := 0) (by omega)
      rw [List.take_left] at htake
      exact htake.symm
    have hall : data.length = pre.length + (doc.length + docs.flatten.length) := by
      rw [hdata, List.length_append, List.flatten_cons, List.length_append]
    have hnext : data = pre ++ doc ++ docs.flatten := by
      rw [hdata, List.flatten_cons, List.append_assoc]
    have hrest := ih hdocs hnext
    rw [List.length_append, Nat.cast_add] at hrest
    refine .step (by omega) (by omega) ?_ ?_
    · rw [hat]
      omega
    · rw [hat]
      exact hrest

/-- What is at the place of a document begins with it. -/
theorem places_drop {k : ℕ} {doc : Bytes} (hdata : data = pre ++ docs.flatten) (hk : docs[k]? = some doc) :
    ∃ a rest, (places pre.length docs)[k]? = some a ∧ 0 ≤ a ∧ data.drop a.toNat = doc ++ rest := by
  induction docs generalizing pre k with
  | nil => cases hk
  | cons d docs ih =>
    cases k with
    | zero =>
      obtain rfl := Option.some.inj hk
      refine ⟨pre.length, docs.flatten, rfl, Int.natCast_nonneg _, ?_⟩
      rw [hdata]
      exact List.drop_left
    | succ k =>
      have hnext : data = pre ++ d ++ docs.flatten := by
        rw [hdata, List.flatten_cons, List.append_assoc]
      have h := ih hnext hk
      rwa [List.length_append, Nat.cast_add] at h

/-! ## A reply -/

theorem reply_length (h : p.Sound) (id : ℤ) : (p.reply id).length = 32 + p.docs.flatten.length := by
  simp only [Portion.reply, List.length_append, int32_length, h.cursor]

/-- The documents are at the end of the reply. -/
theorem reply_docs (h : p.Sound) (id : ℤ) :
    ∃ pre : Bytes, pre.length = HEADER ∧ p.reply id = pre ++ p.docs.flatten := by
  refine ⟨_, ?_, rfl⟩
  simp only [List.length_append, int32_length, h.cursor]
  rfl

theorem flatten_length_ge (h : ∀ doc ∈ docs, IsDocument doc) : 5 * docs.length ≤ docs.flatten.length := by
  induction docs with
  | nil => exact Nat.zero_le _
  | cons doc docs ih =>
    rw [List.forall_mem_cons] at h
    have := ih h.2
    have := h.1.1
    rw [List.length_cons, List.flatten_cons, List.length_append]
    omega

/-- The numbers of a reply. -/
theorem reply_fields (h : p.Sound) (hid : IsInt32 id) :
    int32At (p.reply id) 4 = id ∧ int32At (p.reply id) 12 = p.flags ∧ int32At (p.reply id) 28 = p.docs.length ∧
      ∀ i : ℕ, i + 4 ≤ 8 → int32At (p.reply id) (16 + i : ℕ) = int32At p.cursor i := by
  have hnum : IsInt32 p.docs.length := by
    have h1 := flatten_length_ge fun doc hdoc => (h.docs doc hdoc).1
    have h2 := h.short
    exact ⟨by omega, by omega⟩
  have hcur := h.cursor
  refine ⟨?_, ?_, ?_, fun i hi => ?_⟩
  · have hs : p.reply id = int32 0 ++ (int32 id ++ (int32 1 ++ int32 p.flags ++ p.cursor ++ int32 p.starting ++
        int32 p.docs.length ++ p.docs.flatten)) := by
      simp only [Portion.reply, List.append_assoc]
    rw [hs]
    exact int32At_append hid.1 hid.2 (int32_length 0) _
  · have hs : p.reply id = (int32 0 ++ int32 id ++ int32 1) ++ (int32 p.flags ++ (p.cursor ++ int32 p.starting ++
        int32 p.docs.length ++ p.docs.flatten)) := by
      simp only [Portion.reply, List.append_assoc]
    rw [hs]
    exact int32At_append h.flags.1 h.flags.2 (by simp) _
  · have hs : p.reply id = (int32 0 ++ int32 id ++ int32 1 ++ int32 p.flags ++ p.cursor ++ int32 p.starting) ++
        (int32 p.docs.length ++ p.docs.flatten) := by
      simp only [Portion.reply, List.append_assoc]
    rw [hs]
    exact int32At_append hnum.1 hnum.2 (by simp [hcur]) _
  · have hs : p.reply id = (int32 0 ++ int32 id ++ int32 1 ++ int32 p.flags) ++ (p.cursor ++ (int32 p.starting ++
        int32 p.docs.length ++ p.docs.flatten)) := by
      simp only [Portion.reply, List.append_assoc]
    rw [hs, ← int32At_drop, List.drop_left' (by simp), ← int32At_take _ (n := 8) hi, List.take_left' hcur]

theorem reply_cursor (h : p.Sound) (id : ℤ) : ((p.reply id).drop 16).take 8 = p.cursor := by
  have hs : p.reply id = (int32 0 ++ int32 id ++ int32 1 ++ int32 p.flags) ++ (p.cursor ++ (int32 p.starting ++
      int32 p.docs.length ++ p.docs.flatten)) := by
    simp only [Portion.reply, List.append_assoc]
  rw [hs, List.drop_left' (by simp), List.take_left' h.cursor]

theorem reply_end (h : p.Sound) (id : ℤ) : dataEnd (p.reply id) = (p.reply id).length := by
  have hlen := reply_length h id
  have hshort := h.short
  have hsize : dataSize (p.reply id) = p.docs.flatten.length := by
    have hcast : ((p.reply id).length : ℤ) - HEADER = p.docs.flatten.length := by
      rw [hlen]
      show ((32 + p.docs.flatten.length : ℕ) : ℤ) - (32 : ℕ) = _
      omega
    rw [dataSize, hcast]
    exact Lib.signed_unsigned (by omega) (by omega)
  rw [dataEnd, hsize, hlen]
  show ((32 : ℕ) : ℤ) + _ = _
  omega

section
variable {rawlen : (ℤ → Option (Entry Empty)) → ℕ} {mem : Bytes → Mem} {fuel m : ℕ} {t : Table Empty Empty}
  (hrawlen : ∀ (t : Table Empty Empty) m, Sequence t m → Border t.ints (rawlen t.ints))
include hrawlen

/-- The driver puts the documents of a portion into the table. -/
theorem opReply_portion (h : p.Sound) (hid : IsInt32 id) (ht : Sequence t m) (hf : p.docs.length < fuel) :
    ∃ t' starting, opReply rawlen fuel (p.reply id) (some t) =
        .ok (.success id (if p.docs = [] then none else some HEADER) (if p.More then some p.cursor else none) starting,
          some t') ∧
      Sequence t' p.docs.length ∧
      ∀ k < p.docs.length, t'.ints (k + 1) = (places HEADER p.docs)[k]?.map .doc := by
  obtain ⟨h4, h12, h28, h16⟩ := reply_fields h hid
  have hlen := reply_length h id
  have hshort := h.short
  obtain ⟨pre, hpre, hdata⟩ := reply_docs h id
  have hend := reply_end h id
  have hint : ((p.reply id).length : ℤ) ≤ INT_MAX := by
    rw [hlen]
    unfold INT_MAX
    omega
  have hw := walk_places hend (fun doc hdoc => (h.docs doc hdoc).1) hdata hint
  rw [hpre, ← hend] at hw
  have hfail : failed (p.reply id) = false := by
    rw [failed, h12, h.succeeds]
    rfl
  have hn : ((places HEADER p.docs).length : ℤ) = int32At (p.reply id) 28 := by
    rw [places_length, h28]
  have hc0 : int32At (p.reply id) 16 = int32At p.cursor 0 := h16 0 (by omega)
  have hc4 : int32At (p.reply id) 20 = int32At p.cursor 4 := h16 4 (by omega)
  have hdocs : ((p.docs.length : ℤ) = 0) ↔ p.docs = [] := by
    rw [Int.natCast_eq_zero, List.length_eq_zero_iff]
  have hsucceed : succeed (p.reply id) = .success id (if p.docs = [] then none else some HEADER)
      (if p.More then some p.cursor else none) (int32At (p.reply id) 24) := by
    simp only [succeed, Portion.More, ite_not, h4, h28, reply_cursor h, hc0, hc4, hdocs]
  have hread : opReply rawlen fuel (p.reply id) (some t) =
      outcome rawlen (p.reply id) t (places HEADER p.docs) (dataEnd (p.reply id)) :=
    opReply_walk (by rw [hlen]; exact Nat.le_add_right _ _) hfail hw (by rwa [places_length])
  rw [outcome_accepted hn, hsucceed] at hread
  refine ⟨_, _, hread, ?_, fun k hk => ?_⟩
  · have hseq := ht.accepted hrawlen (places HEADER p.docs)
    rwa [places_length] at hseq ⊢
  · rw [← places_length HEADER p.docs] at hk
    rw [accepted_doc t _ _ hk, List.getElem?_eq_getElem hk]
    rfl

end

/-! ## A request -/

theorem replyLength_int32 {v : ℤ} (h : IsInt32 v) (hlo : -2 ^ 31 ≤ v - 4) : replyLength (int32 v) = .ok (v - 4) := by
  rw [replyLength, int32At_zero h]
  exact if_pos ⟨by rw [int32_length]; decide, hlo⟩

theorem expects_sound (h : server.Sound) (hopened : ∀ c ∈ server.opened, c.length = 8) (hid : IsInt32 id) :
    (server.expects id).Sound := by
  have hshort := h.short
  have hq := h.query.1
  rw [Server.expects]
  cases ho : server.opened with
  | none =>
    refine ⟨fun m hm => ?_, ⟨hid, ⟨by decide, by decide⟩, ⟨by decide, by decide⟩, ⟨by decide, by decide⟩⟩, h.name,
      h.query, h.selector⟩
    cases hm
    rw [opQuery, message_length]
    simp only [List.length_append, int32_length, List.length_cons, List.length_nil]
    omega
  | some cursor =>
    have hc := hopened cursor ho
    refine ⟨fun m hm => ?_, ⟨hid, by decide, by decide⟩, h.name, hc⟩
    rw [Request.pack, opGetMore, if_neg (not_not.2 hc)] at hm
    cases hm
    rw [message_length]
    simp only [List.length_append, int32_length, List.length_cons, List.length_nil]
    omega

/-- The server answers the request that it expects. -/
theorem answer_expects {portions : List Portion} {pack : Bytes} (h : server.Sound)
    (hopened : ∀ c ∈ server.opened, c.length = 8) (hid : IsInt32 id) (hp : server.portions = p :: portions)
    (hpack : (server.expects id).pack = .ok pack) :
    server.answer pack = some ({ server with portions, opened := some p.cursor },
      int32 (4 + (p.reply id).length) ++ p.reply id) := by
  have hsound := expects_sound h hopened hid
  obtain ⟨hnext, hread⟩ := nextMessage_pack hsound hpack []
  have hnum : int32At pack 4 = id := by
    unfold Server.expects at hpack
    split at hpack
    · cases hpack
      exact message_id hid.1 hid.2 _ _
    · rename_i cursor ho
      rw [Request.pack, opGetMore, if_neg (not_not.2 (hopened cursor ho))] at hpack
      cases hpack
      exact message_id hid.1 hid.2 _ _
  rw [List.append_nil] at hnext
  simp only [Server.answer, hnext, hread, hp, hnum, Option.bind_eq_bind, Option.bind_some]
  rw [if_pos ⟨trivial, trivial⟩]

/-! ## The loop -/

/-- What holds of a session while the portions `ps` have not been sent. -/
structure Serves (fuel : ℕ) (s : Session) (ps : List Portion) : Prop where
  server : s.server.Sound
  portions : s.server.portions = ps
  sound : ∀ p ∈ ps, p.Sound ∧ p.docs.flatten.length < fuel
  find : s.find.fullName = s.server.name ∧ s.find.query = s.server.query ∧ s.find.selector = s.server.selector
  document : s.find.document = true
  table : ∃ m, Sequence s.table m
  opened : ∀ c ∈ s.server.opened, c.length = 8

/-- The next portion is to be asked for. -/
structure Ready (fuel : ℕ) (s : Session) (ps : List Portion) : Prop extends Serves fuel s ps where
  ptr : s.find.ptr = none
  asks : s.find.data = none ∧ s.server.opened = none ∨
    ∃ data c, s.find.data = some data ∧ s.find.cursor = some c ∧ s.server.opened = some c

/-- `k` documents of the portion `p` have been returned. -/
structure Has (fuel : ℕ) (s : Session) (ps : List Portion) (p : Portion) (k : ℕ) : Prop extends Serves fuel s ps where
  portion : p.Sound ∧ p.docs.flatten.length < fuel
  ptr : s.find.ptr = if k < p.docs.length then some (k + 1) else none
  data : ∃ id, s.find.data = some (p.reply id)
  cursor : s.find.cursor = if p.More then some p.cursor else none
  open_ : s.server.opened = some p.cursor
  length : Sequence s.table p.docs.length
  places : ∀ k < p.docs.length, s.table.ints (k + 1) = (places HEADER p.docs)[k]?.map .doc

/-- The loop is over. -/
structure Over (s : Session) (ps : List Portion) : Prop where
  portions : s.server.portions = ps
  ptr : s.find.ptr = none
  document : s.find.document = false

/-- A document in a reply is decoded as on its own. -/
theorem ldecode_place {mem : Mem} {doc rest : Bytes} {v : Bson.Value} {fuel : ℕ} (hm : Holds mem 0 data) (ha : 0 ≤ a)
    (hdata : data.drop a.toNat = doc ++ rest) (h : IsDocument doc) (hv : docValue doc = some v)
    (hint : (doc.length : ℤ) ≤ INT_MAX) (hf : doc.length ≤ fuel) :
    (ldecode (fromAddress mem a) fuel).result = .ok v := by
  have h5 := h.1
  have hlt : a.toNat ≤ data.length := by
    by_contra hlt
    rw [List.drop_eq_nil_of_le (by omega)] at hdata
    have := congrArg List.length hdata
    rw [List.length_append, List.length_nil] at this
    omega
  have hhere : Holds (fromAddress mem a) 0 doc := by
    rw [← List.take_append_drop a.toNat data, hdata, Lib.holds_append, List.length_take, min_eq_left hlt, zero_add,
      Int.toNat_of_nonneg ha] at hm
    rw [Bson.holds_fromAddress, add_zero]
    exact (Lib.holds_append.1 hm.2).1
  have hn : signed 4 (Lib.ofLe (doc.take 4)) = doc.length := h.2
  have hat : (⟨0, doc.length⟩ : Reader).At (fromAddress mem a) (doc ++ []) := by
    rw [List.append_nil]
    exact ⟨hhere, rfl, hint⟩
  refine (Bson.ldecode_ok (n := doc.length) ?_).2 ⟨_, Bson.unpackDict_docValue hv h5 hn hat hf⟩
  rw [← hn]
  congr 2
  have htake := hat.take (n := 4) (by rw [List.length_append]; omega)
  rw [List.append_nil] at htake
  exact htake

section
variable {rawlen : (ℤ → Option (Entry Empty)) → ℕ} {mem : Bytes → Mem} {fuel k : ℕ} {ps : List Portion}

/-- `hasNext` sends the request that the server expects. -/
theorem hasNext_ask (rawlen : (ℤ → Option (Entry Empty)) → ℕ) (h : Ready fuel s ps) (h0 : 0 ≤ s.id)
    (hid : s.id + 1 < 2 ^ 31) :
    ∃ pack, (s.server.expects (s.id + 1)).pack = .ok pack ∧
      s.hasNext rawlen fuel = { s with id := s.id + 1 }.ask rawlen fuel (s.id + 1) pack := by
  have hgen : signed 8 (unsigned 8 (s.id + 1)) = s.id + 1 := Lib.signed_unsigned (by omega) (by omega)
  obtain ⟨hname, hquery, hselector⟩ := h.find
  rw [Session.hasNext, hgen, h.ptr, h.document]
  rcases h.asks with ⟨hdata, ho⟩ | ⟨data, c, hdata, hc, ho⟩
  · refine ⟨opQuery (s.id + 1) 0 s.find.fullName 0 0 s.find.query s.find.selector, ?_, ?_⟩
    · rw [Server.expects, ho, hname, hquery, hselector]
      rfl
    · simp [hdata]
  · obtain ⟨pack, hmore⟩ : ∃ pack, opGetMore (s.id + 1) s.find.fullName 0 c = .ok pack :=
      ⟨_, if_neg (not_not.2 (h.opened c ho))⟩
    refine ⟨pack, ?_, ?_⟩
    · rw [Server.expects, ho, Request.pack, ← hname]
      exact hmore
    · simp [hdata, hc, hmore]

/-- The next portion is read, or there is none. -/
theorem hasNext_portion (hrawlen : ∀ (t : Table Empty Empty) m, Sequence t m → Border t.ints (rawlen t.ints))
    (h : Ready fuel s (p :: ps)) (h0 : 0 ≤ s.id) (hid : s.id + 1 < 2 ^ 31) :
    (p.docs ≠ [] → ∃ s', s.hasNext rawlen fuel = .ok (true, s') ∧ Has fuel s' ps p 0 ∧ s'.id = s.id + 1) ∧
      (p.docs = [] → ∃ s', s.hasNext rawlen fuel = .ok (false, s') ∧ Over s' ps) := by
  obtain ⟨m, hm⟩ := h.table
  obtain ⟨⟨hp, hf⟩, hps⟩ := List.forall_mem_cons.1 h.sound
  have hid32 : IsInt32 (s.id + 1) := ⟨by omega, hid⟩
  obtain ⟨pack, hpack, hask⟩ := hasNext_ask rawlen h h0 hid
  have hanswer := answer_expects h.server h.opened hid32 h.portions hpack
  have hlen := reply_length hp (s.id + 1)
  have hdocs := flatten_length_ge fun doc hdoc => (hp.docs doc hdoc).1
  have hlt : p.docs.length < fuel := by omega
  obtain ⟨t, starting, hread, hseq, hplaces⟩ := opReply_portion hrawlen hp hid32 hm hlt
  have hlength : replyLength ((int32 (4 + (p.reply (s.id + 1)).length) ++ p.reply (s.id + 1)).take 4) =
      .ok (p.reply (s.id + 1)).length := by
    have hshort := hp.short
    have hint : IsInt32 (4 + (p.reply (s.id + 1)).length) := ⟨by omega, by omega⟩
    have hval := replyLength_int32 hint (by omega)
    rw [add_sub_cancel_left] at hval
    rw [List.take_left' (int32_length _), hval]
  have hdata : ((int32 (4 + (p.reply (s.id + 1)).length) ++ p.reply (s.id + 1)).drop 4).take
      ((p.reply (s.id + 1)).length : ℤ).toNat = p.reply (s.id + 1) := by
    rw [drop_int32, Int.toNat_natCast, List.take_length]
  rw [hask]
  simp only [Session.ask, hanswer, hlength, hdata, hread, Reply.id, Reply.hasNext, ne_eq, not_true, if_false]
  constructor
  · intro hne
    simp only [if_neg hne]
    refine ⟨_, rfl, ⟨⟨?_, rfl, hps, h.find, h.document, ⟨_, hseq⟩, ?_⟩, ⟨hp, hf⟩, ?_, ⟨_, rfl⟩, rfl, rfl, hseq,
      hplaces⟩, rfl⟩
    · obtain ⟨h1, h2, h3, h4⟩ := h.server
      exact ⟨h1, h2, h3, h4⟩
    · rintro c hc
      obtain rfl := Option.some.inj hc
      exact hp.cursor
    · rw [if_pos (List.length_pos_iff.2 hne)]
      rfl
  · intro heq
    simp only [if_pos heq]
    exact ⟨_, rfl, rfl, h.ptr, rfl⟩

/-- `next` returns the next document. -/
theorem next_has (hrawlen : ∀ (t : Table Empty Empty) m, Sequence t m → Border t.ints (rawlen t.ints))
    (hmem : ∀ data, Holds (mem data) 0 data) (h : Has fuel s ps p k) (hk : k < p.docs.length) :
    ∃ v s', docValue p.docs[k] = some v ∧ s.next rawlen mem fuel = .ok (some v, s') ∧ Has fuel s' ps p (k + 1) ∧
      s'.id = s.id := by
  obtain ⟨id, hdata⟩ := h.data
  obtain ⟨hp, hf⟩ := h.portion
  obtain ⟨hdoc, hv⟩ := hp.docs p.docs[k] (List.getElem_mem hk)
  obtain ⟨v, hv⟩ := Option.isSome_iff_exists.1 hv
  obtain ⟨pre, hpre, hreply⟩ := reply_docs hp id
  obtain ⟨a, rest, ha, h0, hdrop⟩ := places_drop hreply (List.getElem?_eq_getElem hk)
  have hlen : rawlen s.table.ints = p.docs.length := h.length.border (hrawlen _ _ h.length)
  have hle : p.docs[k].length ≤ p.docs.flatten.length := (List.sublist_flatten_of_mem (List.getElem_mem hk)).length_le
  have hint : (p.docs[k].length : ℤ) ≤ INT_MAX := by
    have hshort := hp.short
    unfold INT_MAX
    omega
  have hdecode : (ldecode (fromAddress (mem (p.reply id)) a) fuel).result = .ok v :=
    ldecode_place (hmem (p.reply id)) h0 hdrop hdoc hv hint (by omega)
  have hentry : s.table.ints ((k + 1 : ℕ) : ℤ) = some (.doc a) := by
    have hplace := h.places k hk
    rw [hpre] at ha
    rwa [ha, ← Nat.cast_succ] at hplace
  refine ⟨v, { s with find := { s.find with ptr := if k + 1 < p.docs.length then some (k + 1 + 1) else none } }, hv,
    ?_, ⟨⟨h.server, h.portions, h.sound, h.find, h.document, h.table, h.opened⟩, h.portion, rfl, ⟨id, hdata⟩, h.cursor,
      h.open_, h.length, h.places⟩, rfl⟩
  have hptr : (if p.docs.length < k + 1 + 1 then none else some (k + 1 + 1)) =
      if k + 1 < p.docs.length then some (k + 1 + 1) else none := by
    split <;> split <;> first | rfl | omega
  simp only [Session.next, h.ptr, if_pos hk, hentry, hdata, hlen, hptr, Option.getD_some, hdecode]
  rfl

/-- The documents that are there are returned one after another. -/
theorem loop_has (hrawlen : ∀ (t : Table Empty Empty) m, Sequence t m → Border t.ints (rawlen t.ints))
    (hmem : ∀ data, Holds (mem data) 0 data) {d : ℕ} (h : Has fuel s ps p k) (hd : k + d = p.docs.length) :
    ∃ s', Has fuel s' ps p p.docs.length ∧ s'.id = s.id ∧ ∀ n, s.loop rawlen mem fuel (n + d) =
      (s'.loop rawlen mem fuel n).map fun r => ((p.docs.drop k).map docValue ++ r.1, r.2) := by
  induction d generalizing s k with
  | zero =>
    obtain rfl : k = p.docs.length := by omega
    refine ⟨s, h, rfl, fun n => ?_⟩
    rw [List.drop_length]
    exact (congrFun Option.map_id _).symm
  | succ d ih =>
    have hk : k < p.docs.length := by omega
    obtain ⟨v, s1, hv, hnext, h1, hid⟩ := next_has hrawlen hmem h hk
    obtain ⟨s', h', hid', hloop⟩ := ih h1 (by omega)
    refine ⟨s', h', hid'.trans hid, fun n => ?_⟩
    have hhas : s.hasNext rawlen fuel = .ok (true, s) := by
      rw [Session.hasNext, h.ptr, if_pos hk]
      rfl
    rw [← add_assoc, Session.loop]
    simp only [hhas, hnext]
    rw [hloop n, List.drop_eq_getElem_cons hk, List.map_cons, hv, Option.map_map]
    rfl

/-- A round that finds a document to be read goes on as the loop does from there. -/
theorem loop_hasNext (h : s.hasNext rawlen fuel = .ok (true, s')) (hs' : s'.find.ptr.isSome) (n : ℕ) :
    s.loop rawlen mem fuel n = s'.loop rawlen mem fuel n := by
  have hagain : s'.hasNext rawlen fuel = .ok (true, s') := if_pos hs'
  cases n with
  | zero => rfl
  | succ n =>
    rw [Session.loop, Session.loop]
    simp only [h, hagain]

theorem loop_over (h : s.hasNext rawlen fuel = .ok (false, s')) (n : ℕ) :
    s.loop rawlen mem fuel (n + 1) = some ([], s') := by
  rw [Session.loop]
  simp only [h]

/-- When all documents of a portion have been returned, the next one is asked for. -/
theorem Has.ready (h : Has fuel s ps p p.docs.length) (hmore : p.More) : Ready fuel s ps := by
  obtain ⟨id, hdata⟩ := h.data
  refine ⟨h.toServes, ?_, Or.inr ⟨_, _, hdata, ?_, h.open_⟩⟩
  · rw [h.ptr, if_neg (lt_irrefl _)]
  · rw [h.cursor, if_pos hmore]

theorem Has.over (rawlen : (ℤ → Option (Entry Empty)) → ℕ) (h : Has fuel s ps p p.docs.length) (hmore : ¬ p.More) :
    ∃ s', s.hasNext rawlen fuel = .ok (false, s') ∧ Over s' ps := by
  obtain ⟨id, hdata⟩ := h.data
  have hptr : s.find.ptr = none := by rw [h.ptr, if_neg (lt_irrefl _)]
  have hcursor : s.find.cursor = none := by rw [h.cursor, if_neg hmore]
  refine ⟨{ s with id := signed 8 (unsigned 8 (s.id + 1)), find := { s.find with document := false, data := none } },
    ?_, h.portions, hptr, rfl⟩
  simp [Session.hasNext, hptr, h.document, hdata, hcursor]

/-- The number of documents in the portions. -/
def documentsIn (ps : List Portion) : ℕ := (ps.map fun p => p.docs.length).sum

/-- All documents of a portion are returned. -/
theorem loop_portion (hrawlen : ∀ (t : Table Empty Empty) m, Sequence t m → Border t.ints (rawlen t.ints))
    (hmem : ∀ data, Holds (mem data) 0 data) (h : Ready fuel s (p :: ps)) (h0 : 0 ≤ s.id) (hid : s.id + 1 < 2 ^ 31)
    (hne : p.docs ≠ []) :
    ∃ s', Has fuel s' ps p p.docs.length ∧ s'.id = s.id + 1 ∧ ∀ n, s.loop rawlen mem fuel (n + p.docs.length) =
      (s'.loop rawlen mem fuel n).map fun r => (p.docs.map docValue ++ r.1, r.2) := by
  obtain ⟨s1, hhas, h1, hid1⟩ := (hasNext_portion hrawlen h h0 hid).1 hne
  obtain ⟨s', h', hid', hloop⟩ := loop_has hrawlen hmem h1 (zero_add _)
  have hsome : s1.find.ptr.isSome := by
    rw [h1.ptr, if_pos (List.length_pos_iff.2 hne)]
    rfl
  refine ⟨s', h', hid'.trans hid1, fun n => ?_⟩
  rw [loop_hasNext hhas hsome, hloop n, List.drop_zero]

theorem loop_ready (hrawlen : ∀ (t : Table Empty Empty) m, Sequence t m → Border t.ints (rawlen t.ints))
    (hmem : ∀ data, Holds (mem data) 0 data) {sent left : List Portion} {last : Portion}
    (h : Ready fuel s (sent ++ last :: left)) (hsent : ∀ p ∈ sent, p.docs ≠ [] ∧ p.More)
    (hlast : last.docs = [] ∨ ¬ last.More) (h0 : 0 ≤ s.id) (hid : s.id + sent.length + 1 < 2 ^ 31) :
    ∃ s', Over s' left ∧ ∀ n, s.loop rawlen mem fuel (n + documentsIn (sent ++ [last]) + 1) =
      some ((sent ++ [last]).flatMap fun p => p.docs.map docValue, s') := by
  induction sent generalizing s with
  | nil =>
    have hid : s.id + 1 < 2 ^ 31 := by simpa using hid
    by_cases hdocs : last.docs = []
    · obtain ⟨s', hhas, hover⟩ := (hasNext_portion hrawlen h h0 hid).2 hdocs
      refine ⟨s', hover, fun n => ?_⟩
      rw [loop_over hhas]
      simp [hdocs]
    · obtain ⟨s1, h1, -, hloop⟩ := loop_portion hrawlen hmem h h0 hid hdocs
      obtain ⟨s', hhas, hover⟩ := h1.over rawlen (hlast.resolve_left hdocs)
      refine ⟨s', hover, fun n => ?_⟩
      have hcount : n + documentsIn ([] ++ [last]) + 1 = n + 1 + last.docs.length := by
        simp only [documentsIn, List.nil_append, List.map_cons, List.map_nil, List.sum_cons, List.sum_nil]
        omega
      rw [hcount, hloop, loop_over hhas]
      simp
  | cons p sent ih =>
    rw [List.forall_mem_cons] at hsent
    rw [List.length_cons] at hid
    obtain ⟨⟨hdocs, hmore⟩, hsent⟩ := hsent
    obtain ⟨s1, h1, hid1, hloop⟩ := loop_portion hrawlen hmem h h0 (by omega) hdocs
    obtain ⟨s', hover, hrest⟩ := ih (h1.ready hmore) hsent (by omega) (by omega)
    refine ⟨s', hover, fun n => ?_⟩
    have hcount : n + documentsIn (p :: sent ++ [last]) + 1 = n + documentsIn (sent ++ [last]) + 1 + p.docs.length := by
      simp only [documentsIn, List.cons_append, List.map_cons, List.sum_cons]
      omega
    rw [hcount, hloop, hrest, List.cons_append, List.flatMap_cons]
    rfl

theorem init_ready (hserver : server.Sound) (hopened : server.opened = none)
    (hps : ∀ p ∈ server.portions, p.Sound ∧ p.docs.flatten.length < fuel) :
    Ready fuel (.init id server) server.portions := by
  refine ⟨⟨hserver, rfl, hps, ⟨rfl, rfl, rfl⟩, rfl, ⟨0, fun _ => rfl, fun k => ?_⟩, ?_⟩, rfl, Or.inl ⟨rfl, hopened⟩⟩
  · refine iff_of_false (fun h => h rfl) ?_
    omega
  · rintro c hc
    rw [Session.init, hopened] at hc
    cases hc

/-- **The loop returns the documents of a query**, each once and in order, up to the first portion that is empty
    or closes the cursor; the server is not asked for anything more, and `hasNext` stays false. -/
theorem loop_documents (hrawlen : ∀ (t : Table Empty Empty) m, Sequence t m → Border t.ints (rawlen t.ints))
    (hmem : ∀ data, Holds (mem data) 0 data) (hserver : server.Sound) (hopened : server.opened = none)
    {sent left : List Portion} {last : Portion} (hportions : server.portions = sent ++ last :: left)
    (hps : ∀ p ∈ server.portions, p.Sound ∧ p.docs.flatten.length < fuel)
    (hsent : ∀ p ∈ sent, p.docs ≠ [] ∧ p.More) (hlast : last.docs = [] ∨ ¬ last.More) (h0 : 0 ≤ id)
    (hid : id + sent.length + 1 < 2 ^ 31) :
    ∃ s, s.server.portions = left ∧ s.hasNext rawlen fuel = .ok (false, s) ∧
      ∀ n > documentsIn (sent ++ [last]), (Session.init id server).loop rawlen mem fuel n =
        some ((sent ++ [last]).flatMap fun p => p.docs.map docValue, s) := by
  have hready : Ready fuel (.init id server) server.portions := init_ready hserver hopened hps
  rw [hportions] at hready
  obtain ⟨s, hover, hloop⟩ := loop_ready hrawlen hmem hready hsent hlast h0 hid
  refine ⟨s, hover.portions, ?_, fun n hn => ?_⟩
  · rw [Session.hasNext, hover.ptr, hover.document]
    rfl
  · obtain ⟨m, rfl⟩ := Nat.exists_eq_add_of_lt hn
    rw [add_comm _ m]
    exact hloop m

end

/-- A border, where there is one. -/
noncomputable def borderOf (f : ℤ → Option (Entry Empty)) : ℕ := by
  classical exact if h : ∃ n, Border f n then h.choose else 0

theorem borderOf_sequence {t : Table Empty Empty} {m : ℕ} (h : Sequence t m) : Border t.ints (borderOf t.ints) := by
  have hborder : ∃ n, Border t.ints n := by
    refine ⟨m, ?_, ?_⟩
    · rcases Nat.eq_zero_or_pos m with h0 | h0
      · exact Or.inl h0
      · exact Or.inr ((h.2 m).2 ⟨by omega, le_refl _⟩)
    · by_contra hne
      have := (h.2 (m + 1)).1 hne
      omega
  rw [borderOf, dif_pos hborder]
  exact hborder.choose_spec

/-- Two documents come in two portions. -/
def twoPortions : List Portion :=
  [⟨[[12, 0, 0, 0, 16, 97, 0, 7, 0, 0, 0, 0]], [1, 0, 0, 0, 0, 0, 0, 0], 0, 0⟩,
    ⟨[[12, 0, 0, 0, 16, 97, 0, 8, 0, 0, 0, 0]], [0, 0, 0, 0, 0, 0, 0, 0], 0, 1⟩]

theorem twoPortions_sound : ∀ p ∈ twoPortions, p.Sound ∧ p.docs.flatten.length < 20 := by
  have hdoc : ∀ b ∈ [(7 : UInt8), 8], IsDocument [12, 0, 0, 0, 16, 97, 0, b, 0, 0, 0, 0] ∧
      (docValue [12, 0, 0, 0, 16, 97, 0, b, 0, 0, 0, 0]).isSome := by
    intro b hb
    simp only [List.mem_cons, List.not_mem_nil, or_false] at hb
    rcases hb with rfl | rfl <;> exact ⟨⟨by decide, by decide⟩, by decide⟩
  intro p hp
  simp only [twoPortions, List.mem_cons, List.not_mem_nil, or_false] at hp
  rcases hp with rfl | rfl
  · refine ⟨⟨?_, rfl, ⟨by decide, by decide⟩, ⟨by decide, by decide⟩, by decide, by decide⟩, by decide⟩
    simpa using hdoc 7 (by decide)
  · refine ⟨⟨?_, rfl, ⟨by decide, by decide⟩, ⟨by decide, by decide⟩, by decide, by decide⟩, by decide⟩
    simpa using hdoc 8 (by decide)

theorem loop_documents_two :
    ∃ s, s.server.portions = [] ∧ s.hasNext borderOf 20 = .ok (false, s) ∧
      ∀ n > 2, (Session.init 0 ⟨[110], emptyBson, none, twoPortions, none⟩).loop borderOf Lib.block 20 n =
        some ([docValue [12, 0, 0, 0, 16, 97, 0, 7, 0, 0, 0, 0], docValue [12, 0, 0, 0, 16, 97, 0, 8, 0, 0, 0, 0]],
          s) := by
  have hserver : Server.Sound ⟨[110], emptyBson, none, twoPortions, none⟩ :=
    ⟨by decide, ⟨by decide, by decide⟩, (fun d hd => by cases hd), by decide⟩
  have hportions : twoPortions = twoPortions.take 1 ++
      ⟨[[12, 0, 0, 0, 16, 97, 0, 8, 0, 0, 0, 0]], [0, 0, 0, 0, 0, 0, 0, 0], 0, 1⟩ :: [] := rfl
  exact loop_documents (fun t m h => borderOf_sequence h) Lib.holds_block hserver rfl hportions twoPortions_sound
    (by decide) (by decide) (by decide) (by decide)

end Levent.Mongo
