/-
  `request.new` of `http/request.lua` for a url, and where the request comes to: the
  server takes its target apart with `parse_url` again.
-/
import Mathlib.Data.List.TakeDrop
import Levent.Http.Url
import Levent.Http.Server

namespace Levent.Http

open Lib (Lua)
open ParseUrl (lparseUrl nonempty readBack Parts Target isUrlChar_ne)

/-! ## request.new -/

def HTTP_PORT : ℕ := 80

def VALID_SCHEMA : List (List UInt8) := ["http", "ws"].map ascii

/-- A request, with the host and the port that `send_request` connects to. -/
structure Addressed where
  host : List UInt8
  port : ℕ
  request : Request

/-- `request.new` -/
def Request.ofUrl (method : Option (List UInt8)) (url : List UInt8) (data : Option Data)
    (headers : Option (List (List UInt8 × List UInt8))) : ParseUrl.Result (Lua (Except (List UInt8) Addressed)) :=
  match lparseUrl url false with
  | .undefined => .undefined
  | .error => .ok (.ok (.error (ascii "invalid url:" ++ url)))
  | .ok parsed =>
    match parsed.host with
    | none => .ok (.ok (.error (ascii "no host given")))
    | some host =>
      match parsed.schema with
      | none => .ok (.error (.raised "attempt to index a nil value (field 'schema')"))
      | some schema =>
        if VALID_SCHEMA.contains (schema.map toLower) then
          .ok (.ok (.ok ⟨host, parsed.port.getD HTTP_PORT,
            Request.new method host parsed.requestPath parsed.queryString data headers⟩))
        else
          .ok (.error (.raised ("not supported protocal type:" ++
            String.ofList (schema.map fun c => Char.ofNat c.toNat))))

/-- What `request:pack` writes between the method and the version. -/
def Request.target (r : Request) : List UInt8 :=
  match r.queryString with
  | some q => r.path.getD HTTP_ABS_PATH ++ ascii "?" ++ q
  | none => r.path.getD HTTP_ABS_PATH

/-- What `handle_conn` takes of the table of a url. -/
def ParseUrl.UrlTable.url (t : ParseUrl.UrlTable) : Url :=
  ⟨t.host, t.port, t.requestPath, t.queryString, t.userinfo⟩

/-- What `handle_conn` has of a url where `parse_url` is defined. -/
def ParseUrl.Result.url? : ParseUrl.Result ParseUrl.UrlTable → Option Url
  | .ok table => some table.url
  | _ => none

theorem Request.start_eq (r : Request) :
    r.start = r.getMethod ++ ascii " " ++ r.target ++ ascii " HTTP/1.1" := by
  unfold start target
  cases r.queryString <;> rfl

section
variable {method : Option (List UInt8)} {url : List UInt8} {data : Option Data}
  {headers : Option (List (List UInt8 × List UInt8))} {o : Addressed}

@[simp] theorem Request.new_path {host : List UInt8} {path queryString : Option (List UInt8)} :
    (Request.new method host path queryString data headers).path = path := by
  cases headers <;> rfl

@[simp] theorem Request.new_queryString {host : List UInt8} {path queryString : Option (List UInt8)} :
    (Request.new method host path queryString data headers).queryString = queryString := by
  cases headers <;> rfl

/-- A request is made for a legal url with a host. -/
theorem Request.ofUrl_ok (hlen : url.length < 0x10000)
    (h : Request.ofUrl method url data headers = .ok (.ok (.ok o))) :
    ∃ (u : Parts) (schema : List UInt8) (a : ParseUrl.Authority), u.Legal ∧ u.text = url ∧
      u.authority = some (schema, a) ∧ schema.map toLower ∈ VALID_SCHEMA ∧
      o = ⟨a.host, u.table.port.getD HTTP_PORT,
        Request.new method a.host (nonempty u.target.path) (u.target.query.bind nonempty) data headers⟩ := by
  unfold ofUrl at h
  split at h
  · cases h
  · cases h
  · rename_i parsed hparsed
    obtain ⟨u, hu, htext, rfl⟩ := ParseUrl.parts_of_lparseUrl hlen hparsed
    obtain ⟨_ | ⟨schema, a⟩, target⟩ := u
    · cases h
    · dsimp only [Parts.table, Option.map_some] at h
      split at h
      · cases h
        exact ⟨_, schema, a, hu, htext, rfl, List.contains_iff_mem.1 ‹_›, rfl⟩
      · cases h

/-! ## The target of a request -/

/-- What is left of the parts of a url in the target of its request: the path, or `/`, and the
    query string. -/
def originForm (u : Target) : Target := ⟨(nonempty u.path).getD HTTP_ABS_PATH, u.query.bind nonempty, none⟩

theorem originForm_path (u : Target) : (originForm u).path = if u.path = [] then [47] else u.path := by
  unfold originForm nonempty
  split <;> rfl

theorem nonempty_bind_nonempty {q : Option (List UInt8)} : (q.bind nonempty).bind nonempty = q.bind nonempty := by
  rcases q with _ | cs
  · rfl
  · unfold nonempty
    by_cases hcs : cs = [] <;> simp [hcs]

theorem mem_of_bind_nonempty {q : Option (List UInt8)} {cs : List UInt8} (h : cs ∈ q.bind nonempty) : cs ∈ q := by
  obtain ⟨cs', hq, h⟩ := Option.bind_eq_some_iff.1 h
  unfold nonempty at h
  split at h
  · cases h
  · cases h
    exact hq

theorem originForm_legal {u : Target} (hu : u.Legal [47]) : (originForm u).Legal [47, 42] where
  path := by
    rw [originForm_path]
    split
    · intro c hc
      rw [List.mem_singleton.1 hc]
      rfl
    · exact hu.path
  head := by
    rw [originForm_path]
    split
    · rintro c ⟨⟩
      decide
    · intro c hc
      rw [List.mem_singleton.1 (hu.head c hc)]
      decide
  query := fun cs hcs => hu.query cs (mem_of_bind_nonempty hcs)
  fragment := by simp [originForm]
  alone := by simp [originForm]

theorem originForm_path_ne_nil (u : Target) : (originForm u).path ≠ [] := by
  rw [originForm_path]
  split
  · simp
  · exact ‹_›

theorem ParseUrl.Target.Legal.noBlank {u : Target} {heads : List UInt8} (hu : u.Legal heads) :
    ∀ c ∈ u.text, c ≠ 32 ∧ c ≠ 13 ∧ c ≠ 10 := by
  have hchar : ∀ c, ParseUrl.FragmentChar c → c ≠ 32 ∧ c ≠ 13 ∧ c ≠ 10 := fun c hc => by
    rcases hc with hc | rfl | rfl
    · obtain ⟨h1, h2, h3, -, -⟩ := isUrlChar_ne hc
      exact ⟨h1, h2, h3⟩
    · decide
    · decide
  have hquery := hu.query
  have hfragment := hu.fragment
  intro c hc
  refine hchar c ?_
  obtain ⟨path, query, fragment⟩ := u
  simp only [Target.text, List.mem_append] at hc
  rcases hc with hc | hc | hc
  · exact .inl (hu.path c hc)
  · rcases query with _ | qs
    · cases hc
    · rcases List.mem_cons.1 hc with rfl | hc
      · exact .inr (.inl rfl)
      · exact (hquery qs rfl c hc).imp_right .inl
  · rcases fragment with _ | fs
    · cases hc
    · rcases List.mem_cons.1 hc with rfl | hc
      · exact .inr (.inr rfl)
      · exact hfragment fs rfl c hc

theorem Request.target_new {host : List UInt8} {u : Target} :
    (Request.new method host (nonempty u.path) (u.query.bind nonempty) data headers).target = (originForm u).text := by
  unfold target originForm Target.text Target.queryText Target.fragmentText
  rw [new_path, new_queryString]
  rcases u.query.bind nonempty with _ | q
  · simp
  · simp [ascii]

theorem length_originForm (u : Target) : (originForm u).text.length ≤ u.text.length + 1 := by
  have hpath : (originForm u).path.length ≤ u.path.length + 1 := by
    rw [originForm_path]
    split
    · simp
    · omega
  have hquery : (originForm u).queryText.length ≤ u.queryText.length := by
    unfold Target.queryText
    rcases hq : (originForm u).query with _ | cs
    · simp
    · rw [mem_of_bind_nonempty hq]
  have hfragment : (originForm u).fragmentText = [] := rfl
  simp only [Target.text, List.length_append, hfragment, List.length_nil]
  omega

/-- The `://` of a url with a host. -/
theorem length_of_authority {u : Parts} {x : List UInt8 × ParseUrl.Authority} (h : u.authority = some x) :
    u.target.text.length + 3 ≤ u.text.length := by
  rw [Parts.text, h]
  simp only [Option.elim_some, List.length_append, List.length_cons, List.length_nil]
  omega

theorem originForm_accepted {u : Parts} {x : List UInt8 × ParseUrl.Authority} (hlen : u.text.length < 0x10000)
    (hu : u.Legal) (hauth : u.authority = some x) :
    (originForm u.target).Legal [47, 42] ∧ lparseUrl (originForm u.target).text false =
      .ok ⟨none, none, some ((nonempty u.target.path).getD HTTP_ABS_PATH), u.target.query.bind nonempty, none, none,
        none⟩ := by
  have htarget : u.target.Legal [47] := by
    have htarget := hu.target
    rwa [hauth] at htarget
  have hshort : (originForm u.target).text.length < 0x10000 := by
    have hle := length_originForm u.target
    have hhost := length_of_authority hauth
    omega
  refine ⟨originForm_legal htarget, ?_⟩
  rw [ParseUrl.lparseUrl_target hshort (originForm_legal htarget) fun hnil => absurd hnil (originForm_path_ne_nil _),
    Parts.table, ParseUrl.nonempty_of_ne_nil (originForm_path_ne_nil _)]
  simp only [originForm, nonempty_bind_nonempty]
  rfl

/-! ## The answer -/

section
variable {σ : Type} {H : Host σ} {msg : Table}

theorem Host.respond_of_url {parsed : Url} (hmsg : msg.requestUrl = some url) (hurl : H.parseUrl url = some parsed) :
    H.respond msg = some <$> H.handlers.handleOneRequest ⟨msg, parsed, H.remoteHost, H.remotePort⟩ := by
  unfold respond
  rw [hmsg]
  dsimp only
  rw [hurl]
  rfl

theorem Host.respond_of_refused (hmsg : msg.requestUrl = some url) (hurl : H.parseUrl url = none) :
    H.respond msg = .ok none := by
  unfold respond
  rw [hmsg]
  dsimp only
  rw [hurl]

end

/-- **Where a request made for a url comes to**: the start line that is packed has the path and
    the query string of the url without a blank, and a server calls the handler of the path. -/
theorem routed (hlen : url.length < 0x10000) (h : Request.ofUrl method url data headers = .ok (.ok (.ok o))) :
    let path := o.request.path.getD HTTP_ABS_PATH
    (∃ u : Parts, u.Legal ∧ u.text = url ∧ o.request.path = nonempty u.target.path ∧
      o.request.queryString = u.target.query.bind nonempty) ∧
    (∀ order, (o.request.pack order).1.start =
      o.request.getMethod ++ ascii " " ++ o.request.target ++ ascii " HTTP/1.1") ∧
    (∀ c ∈ o.request.target, c ≠ 32 ∧ c ≠ 13 ∧ c ≠ 10) ∧
    lparseUrl o.request.target false = .ok ⟨none, none, some path, o.request.queryString, none, none, none⟩ ∧
    ∀ {σ : Type} (H : Host σ) (msg : Table),
      (∀ target table, lparseUrl target false = .ok table → H.parseUrl target = some table.url) →
      msg.requestUrl = some o.request.target →
      H.respond msg = some <$> H.handlers.handleOneRequest
        ⟨msg, ⟨none, none, some path, o.request.queryString, none⟩, H.remoteHost, H.remotePort⟩ := by
  intro path
  obtain ⟨u, schema, a, hu, rfl, hauth, -, ho⟩ := Request.ofUrl_ok hlen h
  have hpath : o.request.path = nonempty u.target.path := by rw [ho, Request.new_path]
  have hquery : o.request.queryString = u.target.query.bind nonempty := by rw [ho, Request.new_queryString]
  have horigin : o.request.target = (originForm u.target).text := by rw [ho, Request.target_new]
  obtain ⟨hlegal, haccepted⟩ := originForm_accepted hlen hu hauth
  rw [← horigin, ← hpath, ← hquery] at haccepted
  refine ⟨⟨u, hu, rfl, hpath, hquery⟩, fun order => Request.start_eq _, ?_, haccepted, fun H msg hparse hmsg => ?_⟩
  · rw [horigin]
    exact hlegal.noBlank
  · exact Host.respond_of_url hmsg (hparse _ _ haccepted)

theorem routed_get :
    let o : Addressed := ⟨ascii "h", 80, Request.new none (ascii "h") (some (ascii "/a")) (some (ascii "b")) none none⟩
    let H : Host Unit := ⟨⟨fun s _ t => (s, t, 0, none), Table.empty, fun _ => false, fun _ => ""⟩,
      fun target => match lparseUrl target false with
        | .ok table => some table.url
        | _ => none,
      ⟨id, fun l => .refl l⟩, fun _ => [], [], 0, fun _ => none⟩
    let msg : Table := { Table.empty with requestUrl := some (ascii "/a?b") }
    Request.ofUrl none (ascii "http://h/a?b") none none = .ok (.ok (.ok o)) ∧
      lparseUrl o.request.target false =
        .ok ⟨none, none, some (ascii "/a"), some (ascii "b"), none, none, none⟩ ∧
      H.respond msg = some <$>
        H.handlers.handleOneRequest ⟨msg, ⟨none, none, some (ascii "/a"), some (ascii "b"), none⟩, [], 0⟩ := by
  intro o H msg
  have h : Request.ofUrl none (ascii "http://h/a?b") none none = .ok (.ok (.ok o)) := rfl
  obtain ⟨-, -, -, hparse, hrespond⟩ := routed (by decide) h
  refine ⟨h, hparse, hrespond H msg (fun target table htable => ?_) rfl⟩
  dsimp only [H]
  rw [htable]

/-! ## Targets of any length -/

theorem take_mod_eq_iff {cs : List UInt8} : cs.take (cs.length % 0x10000) = cs ↔ cs.length < 0x10000 := by
  rw [List.take_eq_self_iff]
  constructor
  · intro hle
    exact Nat.lt_of_le_of_lt hle (Nat.mod_lt _ (by decide))
  · intro hlt
    exact (Nat.mod_eq_of_lt hlt).ge

/-- The path is at the beginning of the target. -/
theorem readBack_path (u : Target) : readBack u.text 0 u.path = u.path.take (u.path.length % 0x10000) := by
  unfold readBack Target.text
  exact List.take_append_of_le_length (Nat.mod_le _ _)

/-- **The handler of a request** whose url begins with a `/`: that of the first bytes of its path, as
    many as the length of the path has modulo 65536; the connection is closed if the url is no legal one. -/
theorem routed_modulo {σ : Type} {H : Host σ} {msg : Table}
    (hparse : ∀ target, lparseUrl target false ≠ .undefined → H.parseUrl target = (lparseUrl target false).url?)
    (hmsg : msg.requestUrl = some url) (hhead : url.head? = some 47) :
    (∀ u : Target, u.Legal [47] → u.text = url →
      (u.path.take (u.path.length % 0x10000) = u.path ↔ u.path.length < 0x10000) ∧
      H.respond msg = some <$> H.handlers.handleOneRequest
        ⟨msg, ⟨none, none, some (u.path.take (u.path.length % 0x10000)),
          (u.query.bind nonempty).map (readBack url (u.path.length + 1)), none⟩, H.remoteHost, H.remotePort⟩) ∧
      ((∀ u : Target, u.Legal [47] → u.text ≠ url) → H.respond msg = .ok none) := by
  constructor
  · rintro u hu rfl
    have hne := hu.path_ne_nil hhead
    have hlegal : u.Legal [47, 42] := { hu with head := fun c hc => by simp [List.mem_singleton.1 (hu.head c hc)] }
    obtain ⟨hpath, hquery, -⟩ := Target.slice_mark u.text [] u (d := ParseUrl.noFields) rfl rfl rfl
    have hok := ParseUrl.lparseUrl_target_fields hlegal fun hnil => absurd hnil hne
    rw [hpath, hquery, ParseUrl.nonempty_of_ne_nil hne] at hok
    simp only [Option.map_some, List.length_nil, readBack_path, List.nil_append, List.length_append,
      List.length_singleton] at hok
    refine ⟨take_mod_eq_iff, Host.respond_of_url hmsg ?_⟩
    rw [hparse _ (by rw [hok]; exact fun h => by cases h), hok]
    rfl
  · intro hno
    have herror : lparseUrl url false = .error := by
      by_contra h
      obtain ⟨u, hu, htext⟩ := ParseUrl.target_of_lparseUrl hhead h
      exact hno u hu htext
    refine Host.respond_of_refused hmsg ?_
    rw [hparse _ (by rw [herror]; exact fun h => by cases h), herror]
    rfl

/-- A path of 65537 bytes comes to the handler of `/`. -/
theorem routed_modulo_slash :
    let url : List UInt8 := 47 :: List.replicate 65536 97
    let H : Host Unit := ⟨⟨fun s _ t => (s, t, 0, none), Table.empty, fun _ => false, fun _ => ""⟩,
      fun target => (lparseUrl target false).url?, ⟨id, fun l => .refl l⟩, fun _ => [], [], 0, fun _ => none⟩
    let msg : Table := { Table.empty with requestUrl := some url }
    H.respond msg = some <$>
      H.handlers.handleOneRequest ⟨msg, ⟨none, none, some [47], none, none⟩, [], 0⟩ := by
  intro url H msg
  have hlegal : Target.Legal ⟨url, none, none⟩ [47] := by
    refine ⟨fun c hc => ?_, ?_, by simp, by simp, fun _ _ => rfl⟩
    · rcases List.mem_cons.1 hc with rfl | hc
      · rfl
      · rw [List.eq_of_mem_replicate hc]
        rfl
    · rintro _ ⟨⟩
      exact List.mem_singleton_self _
  have htext : Target.text ⟨url, none, none⟩ = url := List.append_nil url
  have hlen : url.length % 0x10000 = 1 := by rw [List.length_cons, List.length_replicate]
  have htake : url.take (url.length % 0x10000) = [47] := by
    rw [hlen]
    rfl
  have h := ((routed_modulo (H := H) (fun _ _ => rfl) (rfl : msg.requestUrl = some url) rfl).1 _ hlegal htext).2
  dsimp only at h
  rw [htake] at h
  exact h

end

end Levent.Http
