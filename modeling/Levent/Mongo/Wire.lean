/-
  Requests to mongod: `op_insert`, `op_update`, `op_delete` and `op_kill` of `lua-mongo.c`,
  and what the server reads of all requests on a connection.

  The server takes the messages one after another, as soon as each is there whole, and
  reads the fields and the documents of each.
-/
import Levent.Mongo.Request
import Levent.Lib.Framing
import Levent.Lib.Split

namespace Levent.Mongo

open Lib (Cuts cut drainAll feed)
open Bson (Bytes Stop)

def OP_UPDATE : ℕ := 2001
def OP_INSERT : ℕ := 2002
def OP_DELETE : ℕ := 2006
def OP_KILL_CURSORS : ℕ := 2007

/-! ## The driver -/

/-- The third argument of `op_insert`: a document, a table with values of which some are documents,
    or something else. -/
inductive Documents where
  | one (doc : Bytes)
  | many (docs : List (Option Bytes))
  | other

/-- `document_length`: the documents, if all of them are there.  The length is theirs. -/
def documentLength : Documents → Except Stop (List Bytes)
  | .one doc => .ok [doc]
  | .many docs => go 1 docs
  | .other => .error (.error "Insert need documents")
where
  go (i : ℕ) : List (Option Bytes) → Except Stop (List Bytes)
    | [] => .ok []
    | none :: _ => .error (.error s!"Invalid document at {i}")
    | some doc :: docs => do
      let rest ← go (i + 1) docs
      pure (doc :: rest)

/-- `op_insert` -/
def opInsert (flags : ℤ) (name : Bytes) (docs : Documents) : Except Stop Bytes := do
  let docs ← documentLength docs
  pure (message 0 OP_INSERT (int32 flags ++ name ++ [0] ++ docs.flatten))

/-- `op_update`; it fails without a document. -/
def opUpdate (name : Bytes) (flags : ℤ) (selector update : Option Bytes) : Except Stop Bytes :=
  match selector, update with
  | some selector, some update =>
    .ok (message 0 OP_UPDATE (int32 0 ++ name ++ [0] ++ int32 flags ++ selector ++ update))
  | _, _ => .error (.error "Invalid param")

/-- `op_delete` -/
def opDelete (name : Bytes) (single : ℤ) (selector : Option Bytes) : Except Stop Bytes :=
  match selector with
  | some selector => .ok (message 0 OP_DELETE (int32 0 ++ name ++ [0] ++ int32 single ++ selector))
  | none => .error (.error "Invalid param")

/-- `op_kill` -/
def opKill (cursor : Bytes) : Except Stop Bytes :=
  if cursor.length ≠ 8 then .error (.error "Invalid cursor id")
  else .ok (message 0 OP_KILL_CURSORS (int32 0 ++ int32 1 ++ cursor))

/-! ## Requests -/

/-- What the server is asked for. -/
inductive Request where
  | query (id flags : ℤ) (name : Bytes) (skip number : ℤ) (query : Bytes) (selector : Option Bytes)
  | getMore (id : ℤ) (name : Bytes) (number : ℤ) (cursor : Bytes)
  | insert (flags : ℤ) (name : Bytes) (docs : List Bytes)
  | update (name : Bytes) (flags : ℤ) (selector update : Bytes)
  | delete (name : Bytes) (flags : ℤ) (selector : Bytes)
  | kill (cursor : Bytes)
  deriving DecidableEq

/-- The call of the driver that asks for it. -/
def Request.pack : Request → Except Stop Bytes
  | query id flags name skip number q selector => .ok (opQuery id flags name skip number q selector)
  | getMore id name number cursor => opGetMore id name number cursor
  | insert flags name docs => opInsert flags name (.many (docs.map some))
  | update name flags selector u => opUpdate name flags (some selector) (some u)
  | delete name flags selector => opDelete name flags (some selector)
  | kill cursor => opKill cursor

/-! ## The server -/

/-- The bytes that begin with their own length, which is `k` at least. -/
def nextCounted (k : ℕ) (s : Bytes) : Option (Bytes × Bytes) :=
  let n := int32At s 0
  if k ≤ n ∧ n ≤ s.length then some (s.take n.toNat, s.drop n.toNat) else none

/-- The documents at the end of a message. -/
def readDocuments (s : Bytes) : Option (List Bytes) :=
  let (docs, rest) := drainAll (nextCounted 5) s
  if rest = [] then some docs else none

def readQuery (id : ℤ) (body : Bytes) : Option Request := do
  let (name, s) ← cut [0] (body.drop 4)
  match ← readDocuments (s.drop 8) with
  | [q] => some (.query id (int32At body 0) name (int32At s 0) (int32At s 4) q none)
  | [q, selector] => some (.query id (int32At body 0) name (int32At s 0) (int32At s 4) q (some selector))
  | _ => none

def readGetMore (id : ℤ) (body : Bytes) : Option Request := do
  let (name, s) ← cut [0] (body.drop 4)
  if s.length = 12 then some (.getMore id name (int32At s 0) (s.drop 4)) else none

def readInsert (body : Bytes) : Option Request := do
  let (name, s) ← cut [0] (body.drop 4)
  let docs ← readDocuments s
  some (.insert (int32At body 0) name docs)

def readUpdate (body : Bytes) : Option Request := do
  let (name, s) ← cut [0] (body.drop 4)
  match ← readDocuments (s.drop 4) with
  | [selector, u] => some (.update name (int32At s 0) selector u)
  | _ => none

def readDelete (body : Bytes) : Option Request := do
  let (name, s) ← cut [0] (body.drop 4)
  match ← readDocuments (s.drop 4) with
  | [selector] => some (.delete name (int32At s 0) selector)
  | _ => none

def readKill (body : Bytes) : Option Request :=
  if int32At body 4 = 1 ∧ body.length = 16 then some (.kill (body.drop 8)) else none

/-- The fields of a message. -/
def readRequest (m : Bytes) : Option Request :=
  let id := int32At m 4
  let opcode := int32At m 12
  let body := m.drop 16
  if opcode = OP_QUERY then readQuery id body
  else if opcode = OP_GET_MORE then readGetMore id body
  else if opcode = OP_INSERT then readInsert body
  else if opcode = OP_UPDATE then readUpdate body
  else if opcode = OP_DELETE then readDelete body
  else if opcode = OP_KILL_CURSORS then readKill body
  else none

/-- The requests in the messages that have been taken from the pieces of a connection. -/
def requestsOf (pieces : List Bytes) : List (Option Request) :=
  (pieces.foldl (feed nextMessage) ([], [])).1.map readRequest

/-! ## What can be asked for -/

def IsInt32 (v : ℤ) : Prop := -2 ^ 31 ≤ v ∧ v < 2 ^ 31

/-- A document, with its length first. -/
def IsDocument (doc : Bytes) : Prop := 5 ≤ doc.length ∧ int32At doc 0 = doc.length

/-- A name is a string of C, the numbers have 32 bits, and the message is no longer than its length
    can say. -/
def Request.Sound (r : Request) : Prop :=
  (∀ m, r.pack = .ok m → m.length < 2 ^ 31) ∧
    match r with
    | query id flags name skip number q selector =>
      (IsInt32 id ∧ IsInt32 flags ∧ IsInt32 skip ∧ IsInt32 number) ∧ 0 ∉ name ∧ IsDocument q ∧
        ∀ s ∈ selector, IsDocument s
    | getMore id name number cursor => (IsInt32 id ∧ IsInt32 number) ∧ 0 ∉ name ∧ cursor.length = 8
    | insert flags name docs => IsInt32 flags ∧ 0 ∉ name ∧ ∀ doc ∈ docs, IsDocument doc
    | update name flags selector u => IsInt32 flags ∧ 0 ∉ name ∧ IsDocument selector ∧ IsDocument u
    | delete name flags selector => IsInt32 flags ∧ 0 ∉ name ∧ IsDocument selector
    | kill cursor => cursor.length = 8

/-! ## Bytes that begin with their length -/

variable {k n : ℕ} {s t m body name : Bytes} {docs : List Bytes} {r : Request}

theorem cuts_nextCounted (h4 : 4 ≤ k) : Cuts (nextCounted k) where
  shorter := by
    intro s b r h
    unfold nextCounted at h
    obtain ⟨⟨hk, hle⟩, h⟩ := Option.ite_none_right_eq_some.1 h
    cases h
    rw [List.length_drop]
    omega
  more := by
    intro s b r h t
    unfold nextCounted at h ⊢
    obtain ⟨⟨hk, hle⟩, h⟩ := Option.ite_none_right_eq_some.1 h
    cases h
    have hhead : int32At (s ++ t) 0 = int32At s 0 := by
      have htake := int32At_take (s ++ t) (n := s.length) (p := 0) (by omega)
      rw [List.take_left, Nat.cast_zero] at htake
      exact htake.symm
    dsimp only
    rw [hhead, if_pos ⟨hk, by rw [List.length_append]; omega⟩, List.take_append_of_le_length (by omega),
      List.drop_append_of_le_length (by omega)]

/-- They are taken from the start of a stream. -/
theorem nextCounted_append (hk : k ≤ s.length) (h : int32At s 0 = s.length) (h4 : 4 ≤ k) (t : Bytes) :
    nextCounted k (s ++ t) = some (s, t) := by
  have hself : nextCounted k s = some (s, []) := by
    unfold nextCounted
    dsimp only
    rw [h, if_pos ⟨by omega, le_refl _⟩, Int.toNat_natCast, List.take_length, List.drop_length]
  exact (cuts_nextCounted h4).more hself t

theorem nextCounted_nil (h4 : 4 ≤ k) : nextCounted k [] = none := by
  cases h : nextCounted k [] with
  | none => rfl
  | some x => exact absurd ((cuts_nextCounted h4).shorter h) (Nat.not_lt_zero _)

theorem readDocuments_flatten (h : ∀ doc ∈ docs, IsDocument doc) : readDocuments docs.flatten = some docs := by
  have hall : drainAll (nextCounted 5) (docs.flatMap id ++ []) = (docs, []) :=
    (cuts_nextCounted (by decide)).drainAll_flatMap
      (fun doc hdoc t => nextCounted_append (h doc hdoc).1 (h doc hdoc).2 (by decide) t) (nextCounted_nil (by decide))
  rw [List.append_nil, List.flatMap_id] at hall
  rw [readDocuments, hall]
  rfl

/-! ## The fields of a message -/

theorem readName (h : 0 ∉ name) (s : Bytes) : cut [0] (name ++ [0] ++ s) = some (name, s) := by
  refine Lib.cut_append (by decide) (fun hin => h ?_) s
  rw [List.dropLast_singleton, List.append_nil] at hin
  exact hin.subset List.mem_cons_self

theorem int32At_zero {v : ℤ} (h : IsInt32 v) (s : Bytes) : int32At (int32 v ++ s) 0 = v := by
  have hhead : int32At ([] ++ (int32 v ++ s)) (0 : ℕ) = v := int32At_append h.1 h.2 rfl s
  rwa [List.nil_append] at hhead

theorem message_opcode {opcode : ℕ} (id : ℤ) (h : opcode < 2 ^ 31) (body : Bytes) :
    int32At (message id opcode body) 12 = opcode := by
  have hsplit : message id opcode body =
      (int32 (16 + body.length) ++ (int32 id ++ int32 0)) ++ (int32 opcode ++ body) := by
    simp only [message, List.append_assoc]
  rw [hsplit]
  exact int32At_append (by omega) (by omega) (by simp) _

theorem message_body (id : ℤ) (opcode : ℕ) (body : Bytes) : (message id opcode body).drop 16 = body := by
  have hsplit : message id opcode body =
      (int32 (16 + body.length) ++ (int32 id ++ (int32 0 ++ int32 opcode))) ++ body := by
    simp only [message, List.append_assoc]
  rw [hsplit]
  exact List.drop_left' (by simp)

theorem drop_int32 {v : ℤ} (s : Bytes) : (int32 v ++ s).drop 4 = s := List.drop_left' (int32_length v)

theorem documentLength_go (docs : List Bytes) (i : ℕ) : documentLength.go i (docs.map some) = .ok docs := by
  induction docs generalizing i with
  | nil => rfl
  | cons doc docs ih =>
    rw [List.map_cons, documentLength.go, ih]
    rfl

/-- The bytes after a name. -/
theorem readName_body {v : ℤ} (h : 0 ∉ name) (s : Bytes) :
    cut [0] ((int32 v ++ name ++ [0] ++ s).drop 4) = some (name, s) := by
  rw [List.append_assoc, List.append_assoc, drop_int32, ← List.append_assoc]
  exact readName h s

theorem int32At_body {v : ℤ} (h : IsInt32 v) (s : Bytes) : int32At (int32 v ++ name ++ [0] ++ s) 0 = v := by
  rw [List.append_assoc, List.append_assoc]
  exact int32At_zero h _

theorem readQuery_body {id flags skip number : ℤ} {q : Bytes} {selector : Option Bytes} (hflags : IsInt32 flags)
    (hskip : IsInt32 skip) (hnumber : IsInt32 number) (hname : 0 ∉ name) (hq : IsDocument q)
    (hs : ∀ s ∈ selector, IsDocument s) :
    readQuery id (int32 flags ++ name ++ [0] ++ int32 skip ++ int32 number ++ q ++ selector.getD []) =
      some (.query id flags name skip number q selector) := by
  have hbody : int32 flags ++ name ++ [0] ++ int32 skip ++ int32 number ++ q ++ selector.getD [] =
      int32 flags ++ name ++ [0] ++ (int32 skip ++ (int32 number ++ (q ++ selector.getD []))) := by
    simp only [List.append_assoc]
  have hfour : int32At (int32 skip ++ (int32 number ++ (q ++ selector.getD []))) 4 = number :=
    int32At_append hnumber.1 hnumber.2 (int32_length skip) _
  have hdrop : (int32 skip ++ (int32 number ++ (q ++ selector.getD []))).drop 8 = q ++ selector.getD [] := by
    rw [← List.append_assoc]
    exact List.drop_left' (by simp)
  have hdocs : readDocuments (q ++ selector.getD []) = some (q :: selector.toList) := by
    cases selector with
    | none =>
      have hone : readDocuments [q].flatten = some [q] := readDocuments_flatten (by simpa using hq)
      simpa using hone
    | some u =>
      have htwo : readDocuments [q, u].flatten = some [q, u] :=
        readDocuments_flatten (by simpa using ⟨hq, hs u rfl⟩)
      simpa using htwo
  rw [hbody, readQuery, readName_body hname, int32At_body hflags]
  simp only [Option.bind_eq_bind, Option.bind_some]
  rw [hdrop, hdocs, int32At_zero hskip, hfour]
  cases selector <;> rfl

theorem readGetMore_body {id number : ℤ} {cursor : Bytes} (hnumber : IsInt32 number) (hname : 0 ∉ name)
    (hcursor : cursor.length = 8) :
    readGetMore id (int32 0 ++ name ++ [0] ++ int32 number ++ cursor) = some (.getMore id name number cursor) := by
  rw [readGetMore, List.append_assoc _ (int32 number), readName_body hname]
  simp only [Option.bind_eq_bind, Option.bind_some]
  rw [if_pos (by rw [List.length_append, hcursor, int32_length]), int32At_zero hnumber, drop_int32]

theorem readInsert_body {flags : ℤ} (hflags : IsInt32 flags) (hname : 0 ∉ name) (h : ∀ doc ∈ docs, IsDocument doc) :
    readInsert (int32 flags ++ name ++ [0] ++ docs.flatten) = some (.insert flags name docs) := by
  rw [readInsert, readName_body hname, int32At_body hflags]
  simp only [Option.bind_eq_bind, Option.bind_some]
  rw [readDocuments_flatten h]
  rfl

theorem readUpdate_body {flags : ℤ} {selector u : Bytes} (hflags : IsInt32 flags) (hname : 0 ∉ name)
    (hs : IsDocument selector) (hu : IsDocument u) :
    readUpdate (int32 0 ++ name ++ [0] ++ int32 flags ++ selector ++ u) = some (.update name flags selector u) := by
  have hdocs : readDocuments (selector ++ u) = some [selector, u] := by
    have htwo : readDocuments [selector, u].flatten = some [selector, u] :=
      readDocuments_flatten (by simpa using ⟨hs, hu⟩)
    simpa using htwo
  rw [readUpdate, List.append_assoc _ selector, List.append_assoc _ (int32 flags), readName_body hname]
  simp only [Option.bind_eq_bind, Option.bind_some]
  rw [int32At_zero hflags, drop_int32, hdocs]
  rfl

theorem readDelete_body {flags : ℤ} {selector : Bytes} (hflags : IsInt32 flags) (hname : 0 ∉ name)
    (hs : IsDocument selector) :
    readDelete (int32 0 ++ name ++ [0] ++ int32 flags ++ selector) = some (.delete name flags selector) := by
  have hdocs : readDocuments selector = some [selector] := by
    have hone : readDocuments [selector].flatten = some [selector] := readDocuments_flatten (by simpa using hs)
    simpa using hone
  rw [readDelete, List.append_assoc _ (int32 flags), readName_body hname]
  simp only [Option.bind_eq_bind, Option.bind_some]
  rw [int32At_zero hflags, drop_int32, hdocs]
  rfl

theorem readKill_body {cursor : Bytes} (hcursor : cursor.length = 8) :
    readKill (int32 0 ++ int32 1 ++ cursor) = some (.kill cursor) := by
  have hone : int32At (int32 0 ++ int32 1 ++ cursor) 4 = 1 := by
    rw [List.append_assoc]
    exact int32At_append (by decide) (by decide) (int32_length 0) _
  have hdrop : (int32 0 ++ int32 1 ++ cursor).drop 8 = cursor := List.drop_left' (by simp)
  rw [readKill, hone, hdrop, if_pos ⟨rfl, by simp [hcursor]⟩]

/-- **A request is read as it was made.** -/
theorem readRequest_pack (h : r.Sound) : ∃ id opcode body, r.pack = .ok (message id opcode body) ∧
    readRequest (message id opcode body) = some r := by
  obtain ⟨-, h⟩ := h
  cases r with
  | query id flags name skip number q selector =>
    obtain ⟨⟨hid, hflags, hskip, hnumber⟩, hname, hq, hs⟩ := h
    refine ⟨_, _, _, rfl, ?_⟩
    rw [readRequest, message_body, message_opcode _ (by decide), message_id hid.1 hid.2]
    exact readQuery_body hflags hskip hnumber hname hq hs
  | getMore id name number cursor =>
    obtain ⟨⟨hid, hnumber⟩, hname, hcursor⟩ := h
    refine ⟨_, _, _, if_neg (not_not.2 hcursor), ?_⟩
    rw [readRequest, message_body, message_opcode _ (by decide), message_id hid.1 hid.2]
    exact readGetMore_body hnumber hname hcursor
  | insert flags name docs =>
    obtain ⟨hflags, hname, hdocs⟩ := h
    refine ⟨_, _, _, by rw [Request.pack, opInsert, documentLength, documentLength_go]; rfl, ?_⟩
    rw [readRequest, message_body, message_opcode _ (by decide)]
    exact readInsert_body hflags hname hdocs
  | update name flags selector u =>
    obtain ⟨hflags, hname, hs, hu⟩ := h
    refine ⟨_, _, _, rfl, ?_⟩
    rw [readRequest, message_body, message_opcode _ (by decide)]
    exact readUpdate_body hflags hname hs hu
  | delete name flags selector =>
    obtain ⟨hflags, hname, hs⟩ := h
    refine ⟨_, _, _, rfl, ?_⟩
    rw [readRequest, message_body, message_opcode _ (by decide)]
    exact readDelete_body hflags hname hs
  | kill cursor =>
    refine ⟨_, _, _, if_neg (not_not.2 h), ?_⟩
    rw [readRequest, message_body, message_opcode _ (by decide)]
    iterate 5 rw [if_neg (by decide)]
    rw [if_pos rfl]
    exact readKill_body h

/-! ## A connection -/

/-- A message is taken from the start of a stream. -/
theorem nextMessage_pack (h : r.Sound) (hm : r.pack = .ok m) (t : Bytes) :
    nextMessage (m ++ t) = some (m, t) ∧ readRequest m = some r := by
  obtain ⟨id, opcode, body, hpack, hread⟩ := readRequest_pack h
  have hlt := h.1 m hm
  rw [hpack] at hm
  cases hm
  refine ⟨?_, hread⟩
  have h16 : 16 ≤ (message id opcode body).length := by
    rw [message_length]
    omega
  have hlen : int32At (message id opcode body) 0 = (message id opcode body).length := by
    rw [message_length] at hlt ⊢
    push_cast
    exact int32At_zero ⟨by omega, by omega⟩ _
  exact nextCounted_append h16 hlen (by decide) t

theorem drainAll_pack {rs : List Request} {ms : List Bytes} (h : ∀ r ∈ rs, r.Sound)
    (hm : List.Forall₂ (fun r m => r.pack = .ok m) rs ms) :
    drainAll nextMessage ms.flatten = (ms, []) ∧ ms.map readRequest = rs.map some := by
  have hcuts : Cuts nextMessage := cuts_nextCounted (k := 16) (by decide)
  induction hm with
  | nil => exact ⟨rfl, rfl⟩
  | cons hm _ ih =>
    rw [List.forall_mem_cons] at h
    obtain ⟨hall, hmap⟩ := ih h.2
    obtain ⟨hnext, hread⟩ := nextMessage_pack h.1 hm _
    rw [List.flatten_cons, hcuts.drainAll_some hnext, hall, List.map_cons, List.map_cons, hread, hmap]
    exact ⟨rfl, rfl⟩

/-- **The server reads the requests in order**, however the bytes of them are cut on the way: what has
    arrived of them is read as the first of them, and all of it as all. -/
theorem requestsOf_pack {rs : List Request} {ms pieces : List Bytes} (h : ∀ r ∈ rs, r.Sound)
    (hm : List.Forall₂ (fun r m => r.pack = .ok m) rs ms) (hp : pieces.flatten <+: ms.flatten) :
    requestsOf pieces <+: rs.map some ∧ (pieces.flatten = ms.flatten → requestsOf pieces = rs.map some) := by
  have hcuts : Cuts nextMessage := cuts_nextCounted (k := 16) (by decide)
  obtain ⟨hall, hmap⟩ := drainAll_pack h hm
  have hfeed : pieces.foldl (feed nextMessage) ([], []) = drainAll nextMessage pieces.flatten :=
    hcuts.foldl_feed (s := []) pieces
  rw [requestsOf, hfeed, ← hmap]
  constructor
  · have hpre := hcuts.drainAll_prefix hp
    rw [hall] at hpre
    exact hpre.map readRequest
  · intro heq
    rw [heq, hall]

/-- A cursor is given up, and the message comes in two pieces. -/
theorem requestsOf_pack_kill :
    requestsOf [int32 32 ++ int32 0, int32 0 ++ int32 2007 ++ int32 0 ++ int32 1 ++ [1, 2, 3, 4, 5, 6, 7, 8]] <+:
        [Request.kill [1, 2, 3, 4, 5, 6, 7, 8]].map some ∧
      ([int32 32 ++ int32 0, int32 0 ++ int32 2007 ++ int32 0 ++ int32 1 ++ [1, 2, 3, 4, 5, 6, 7, 8]].flatten =
          [message 0 OP_KILL_CURSORS (int32 0 ++ int32 1 ++ [1, 2, 3, 4, 5, 6, 7, 8])].flatten →
        requestsOf [int32 32 ++ int32 0, int32 0 ++ int32 2007 ++ int32 0 ++ int32 1 ++ [1, 2, 3, 4, 5, 6, 7, 8]] =
          [Request.kill [1, 2, 3, 4, 5, 6, 7, 8]].map some) := by
  have hpack : (Request.kill [1, 2, 3, 4, 5, 6, 7, 8]).pack =
      .ok (message 0 OP_KILL_CURSORS (int32 0 ++ int32 1 ++ [1, 2, 3, 4, 5, 6, 7, 8])) := rfl
  have hsound : (Request.kill [1, 2, 3, 4, 5, 6, 7, 8]).Sound := by
    refine ⟨fun m hm => ?_, rfl⟩
    rw [hpack] at hm
    cases hm
    decide
  refine requestsOf_pack ?_ (.cons hpack .nil) ?_
  · rintro r hr
    obtain rfl := List.mem_singleton.1 hr
    exact hsound
  · decide

end Levent.Mongo
