/-
  The header fields of a response: the lines of the header become a table with one
  value for each name (`on_message_complete`), which `response.new` copies under the
  canonical names, in the order in which `pairs` goes through the table.
-/
import Levent.Http.Parser
import Levent.Http.Query
import Mathlib.Data.List.Dedup

namespace Levent.Http

open Lib (Lua)

/-- The callbacks make a table of the lines of which `response.new` loses no value, and
    makes the same in every order. -/
def HeadersKept (cbs : List Callback) (lines : List (List UInt8 × List UInt8)) : Prop :=
  ∃ t headers, build Table.empty cbs = .ok t ∧ t.headers = some headers ∧
    (∀ fields raw, Traverses fields headers → ∃ rsp,
      Response.new ⟨true, t.statusCode, some fields⟩ raw = .ok rsp ∧
      ∀ l ∈ lines, rsp.headers (canonicalHeaderKey l.1) = some l.2) ∧
    ∀ fields fields' raw rsp rsp', Traverses fields headers → Traverses fields' headers →
      Response.new ⟨true, t.statusCode, some fields⟩ raw = .ok rsp →
      Response.new ⟨true, t.statusCode, some fields'⟩ raw = .ok rsp' → rsp.headers = rsp'.headers

/-- Lines of the same canonical name have the same value. -/
def SameValues (lines : List (List UInt8 × List UInt8)) : Prop :=
  ∀ l ∈ lines, ∀ l' ∈ lines, canonicalHeaderKey l.1 = canonicalHeaderKey l'.1 → l.2 = l'.2

variable {lines fields fields' : List (List UInt8 × List UInt8)} {name f v : List UInt8}

/-! ## Last values -/

theorem mem_of_lastValue (h : lastValue lines name = some v) : (name, v) ∈ lines := by
  induction lines with
  | nil => cases h
  | cons l lines ih =>
    rw [lastValue_cons] at h
    rcases Option.or_eq_some_iff.1 h with h | ⟨-, h⟩
    · exact List.mem_cons_of_mem _ (ih h)
    · split at h
      · rename_i hn
        cases h
        rw [hn]
        exact List.mem_cons_self
      · cases h

theorem lastValue_of_mem (h : (name, v) ∈ lines) : ∃ v', lastValue lines name = some v' := by
  induction lines with
  | nil => cases h
  | cons l lines ih =>
    rw [lastValue_cons]
    rcases List.mem_cons.1 h with rfl | h
    · rw [if_pos rfl]
      cases lastValue lines name with
      | some v' => exact ⟨v', rfl⟩
      | none => exact ⟨v, rfl⟩
    · obtain ⟨v', hv'⟩ := ih h
      exact ⟨v', by rw [hv']; rfl⟩

/-- A table of last values can be gone through. -/
theorem exists_traverses (lines : List (List UInt8 × List UInt8)) :
    ∃ fields, Traverses fields (lastValue lines) := by
  refine ⟨(lines.map Prod.fst).dedup.map fun f => (f, (lastValue lines f).getD []), ?_, ?_⟩
  · rw [List.map_map]
    exact (List.map_id _).symm ▸ List.nodup_dedup _
  · intro f v
    rw [List.mem_map]
    constructor
    · rintro ⟨f', hf', heq⟩
      obtain ⟨rfl, rfl⟩ := Prod.mk.inj heq
      obtain ⟨l, hl, rfl⟩ := List.mem_map.1 (List.mem_dedup.1 hf')
      obtain ⟨v', hv'⟩ := lastValue_of_mem (v := l.2) hl
      rw [hv']
      rfl
    · intro h
      refine ⟨f, List.mem_dedup.2 (List.mem_map.2 ⟨_, mem_of_lastValue h, rfl⟩), ?_⟩
      rw [h]
      rfl

/-! ## The canonical copy -/

/-- The loop of `response.new` keeps the last value of each canonical name. -/
theorem cheaders_eq (fields : List (List UInt8 × List UInt8)) :
    cheaders fields = lastValue (fields.map fun l => (canonicalHeaderKey l.1, l.2)) := by
  have hfold : ∀ (fields : List (List UInt8 × List UInt8)) (t : Headers) (name : List UInt8),
      fields.foldl (fun t l => Function.update t (canonicalHeaderKey l.1) (some l.2)) t name =
        (lastValue (fields.map fun l => (canonicalHeaderKey l.1, l.2)) name).or (t name) := by
    intro fields
    induction fields with
    | nil => exact fun _ _ => rfl
    | cons l fields ih =>
      intro t name
      rw [List.foldl_cons, ih, List.map_cons, lastValue_cons]
      by_cases hn : name = canonicalHeaderKey l.1
      · subst hn
        simp
      · simp [hn]
  funext name
  exact (hfold fields _ name).trans Option.or_none

/-- What the copy has under a name is the value of a line with that canonical name. -/
theorem mem_of_cheaders (ht : Traverses fields (lastValue lines)) (h : cheaders fields name = some v) :
    ∃ f, canonicalHeaderKey f = name ∧ (f, v) ∈ lines := by
  rw [cheaders_eq] at h
  obtain ⟨l, hl, heq⟩ := List.mem_map.1 (mem_of_lastValue h)
  obtain ⟨rfl, rfl⟩ := Prod.mk.inj heq
  exact ⟨l.1, rfl, mem_of_lastValue ((ht.mem l.1 l.2).1 hl)⟩

/-- Each line leaves some value under its canonical name. -/
theorem cheaders_of_mem (ht : Traverses fields (lastValue lines)) (h : (f, v) ∈ lines) :
    ∃ v', cheaders fields (canonicalHeaderKey f) = some v' := by
  obtain ⟨v', hv'⟩ := lastValue_of_mem h
  rw [cheaders_eq]
  exact lastValue_of_mem (List.mem_map.2 ⟨(f, v'), (ht.mem f v').2 hv', rfl⟩)

theorem SameValues.cheaders (hs : SameValues lines) (ht : Traverses fields (lastValue lines))
    (h : (f, v) ∈ lines) : cheaders fields (canonicalHeaderKey f) = some v := by
  obtain ⟨v', hv'⟩ := cheaders_of_mem ht h
  obtain ⟨f', hf', hmem⟩ := mem_of_cheaders ht hv'
  obtain rfl : v' = v := hs _ hmem _ h hf'
  exact hv'

theorem SameValues.cheaders_eq (hs : SameValues lines) (ht : Traverses fields (lastValue lines))
    (ht' : Traverses fields' (lastValue lines)) : Http.cheaders fields = Http.cheaders fields' := by
  have hle : ∀ {fields fields'}, Traverses fields (lastValue lines) →
      Traverses fields' (lastValue lines) → ∀ name v, Http.cheaders fields name = some v →
      Http.cheaders fields' name = some v := by
    intro fields fields' ht ht' name v h
    obtain ⟨f, rfl, hmem⟩ := mem_of_cheaders ht h
    exact hs.cheaders ht' hmem
  funext name
  exact Option.ext fun v => ⟨hle ht ht' name v, hle ht' ht name v⟩

/-! ## Headers that are kept -/

variable {m : Message} {cbs : List Callback}

theorem sameValues_of_kept (h : m.Emits cbs) (hk : HeadersKept cbs (m.headers ++ m.trailers)) :
    SameValues (m.headers ++ m.trailers) := by
  obtain ⟨t, headers, hb, hh, hkept, -⟩ := hk
  obtain rfl : m.table = t := Except.ok.inj (h.build.symm.trans hb)
  obtain rfl : lastValue (m.headers ++ m.trailers) = headers := Option.some.inj hh
  obtain ⟨fields, ht⟩ := exists_traverses (m.headers ++ m.trailers)
  obtain ⟨rsp, -, hget⟩ := hkept fields [] ht
  intro l hl l' hl' hname
  have hl := hget l hl
  rw [hname, hget l' hl'] at hl
  exact (Option.some.inj hl).symm

/-- **No header is lost and none depends on the order of `pairs`** if and only if lines of
    the same canonical name have the same value. -/
theorem headersKept_iff (h : m.Emits cbs) :
    HeadersKept cbs (m.headers ++ m.trailers) ↔ SameValues (m.headers ++ m.trailers) := by
  refine ⟨sameValues_of_kept h, fun hs => ⟨m.table, _, h.build, rfl, ?_, ?_⟩⟩
  · intro fields raw ht
    exact ⟨_, rfl, fun l hl => hs.cheaders ht hl⟩
  · intro fields fields' raw rsp rsp' ht ht' hrsp hrsp'
    cases hrsp
    cases hrsp'
    exact hs.cheaders_eq ht ht'

/-- A response that sets two cookies. -/
def cookies : Message where
  url := none
  status := some (ascii "OK")
  headers := [(ascii "Set-Cookie", ascii "a=1"), (ascii "Set-Cookie", ascii "b=2")]
  head := ⟨1, 1, "", 204, false, true⟩
  body := none
  trailers := []
  tail := ⟨1, 1, "", 204, false, true⟩

/-- One cookie is lost. -/
theorem headersKept_cookies :
    ¬ HeadersKept [.messageBegin, .status (ascii "OK"), .headerField (ascii "Set-Cookie"),
      .headerValue (ascii "a=1"), .headerField (ascii "Set-Cookie"), .headerValue (ascii "b=2"),
      .headersComplete cookies.head, .messageComplete cookies.tail] cookies.headers := by
  have hone : ∀ data, Pieces [data] data := fun data => ⟨by simp, by simp⟩
  have hemits : cookies.Emits [.messageBegin, .status (ascii "OK"), .headerField (ascii "Set-Cookie"),
      .headerValue (ascii "a=1"), .headerField (ascii "Set-Cookie"), .headerValue (ascii "b=2"),
      .headersComplete cookies.head, .messageComplete cookies.tail] :=
    Message.Emits.mk (m := cookies) .absent (.given (hone (ascii "OK")))
      (.cons (hone _) (hone _) (.cons (hone _) (hone _) .nil)) .absent .nil
  intro hk
  have hs := sameValues_of_kept hemits hk
  have hval := hs _ List.mem_cons_self _ (List.mem_cons_of_mem _ List.mem_cons_self) rfl
  revert hval
  decide

/-- With one cookie each line is kept, whatever the letter case of its name. -/
theorem headersKept_iff_cookie :
    HeadersKept [.messageBegin, .headerField (ascii "set-cookie"), .headerValue (ascii "a=1"),
        .headersComplete cookies.head, .messageComplete cookies.tail]
        [(ascii "set-cookie", ascii "a=1")] ↔
      SameValues [(ascii "set-cookie", ascii "a=1")] := by
  have hone : ∀ data, Pieces [data] data := fun data => ⟨by simp, by simp⟩
  let m : Message := { cookies with status := none, headers := [(ascii "set-cookie", ascii "a=1")] }
  have hemits : m.Emits [.messageBegin, .headerField (ascii "set-cookie"), .headerValue (ascii "a=1"),
      .headersComplete cookies.head, .messageComplete cookies.tail] :=
    Message.Emits.mk (m := m) .absent .absent (.cons (hone _) (hone _) .nil) .absent .nil
  exact headersKept_iff hemits

end Levent.Http
