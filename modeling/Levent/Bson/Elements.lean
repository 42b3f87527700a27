/-
  The elements of a document as `bson.decode` finds them: where the value of each is,
  and what becomes of them when the bytes of one are written.
-/
import Levent.Bson.RoundTrip

namespace Levent.Bson

open Lib

/-! ## Elements -/

/-- An element of a document: where its value is, and how many bytes it takes. -/
structure Element where
  type : UInt8
  key : Bytes
  ptr : ℤ
  size : ℕ
  value : Value

/-- The bytes before the value. -/
def Element.head (e : Element) : ℤ := e.key.length + 2

/-- The type of `e` and its key are the first bytes of `t`. -/
structure Element.Heads (mem : Mem) (t : Reader) (e : Element) : Prop where
  type : mem t.ptr = e.type
  clean : 0 ∉ e.key
  key : Holds mem (t.ptr + 1) (e.key ++ [0])
  fits : e.head ≤ t.size
  ptr : e.ptr = t.ptr + e.head

/-- The elements that are decoded from `t`. -/
inductive Elements (mem : Mem) : ℕ → Reader → List Element → Prop
  | nil {fuel : ℕ} {t : Reader} (h : t.size = 0) : Elements mem (fuel + 1) t []
  | cons {fuel : ℕ} {t : Reader} {e : Element} {es : List Element} (hhead : e.Heads mem t)
    (hv : Reads mem (elemsOf mem fuel) (t.drop e.head) e.type e.value e.size)
    (hes : Elements mem fuel ((t.drop e.head).drop e.size) es) : Elements mem (fuel + 1) t (e :: es)

/-- The table with the values of the elements. -/
def valuesOf (es : List Element) (fs : Fields) : Fields :=
  es.foldl (fun fs e => fs.set (.str e.key) e.value) fs

variable {mem mem' : Mem} {elems : Reader → Bool → Read Fields} {t : Reader} {bt : UInt8} {v : Value}
  {k m fuel : ℕ} {hi : ℤ} {e : Element} {es : List Element}

theorem unpackElems_iff : ∀ {fuel : ℕ} {t : Reader} {fs fs' : Fields}, t.size ≤ INT_MAX →
    ((unpackElems mem fuel t false fs).result = .ok fs' ↔
      ∃ es, Elements mem fuel t es ∧ fs' = valuesOf es fs) := by
  intro fuel
  induction fuel with
  | zero =>
    intro t fs fs' _
    constructor
    · intro h
      cases h
    · rintro ⟨es, h, -⟩
      cases h
  | succ fuel ih =>
    intro t fs fs' ht
    rw [unpackElems_ok ht]
    constructor
    · rintro (⟨h0, rfl⟩ | ⟨h0, key, v, t', hz, hkey, hle, hv, h⟩)
      · exact ⟨[], .nil h0, rfl⟩
      · obtain ⟨m, hm, rfl⟩ := (reads_iff (fun _ _ _ => elemsOf_size) (by rw [Reader.drop_size]; omega)
          (by rw [Reader.drop_size]; omega)).1 hv
        obtain ⟨es, hes, rfl⟩ := (ih (by simp only [Reader.drop_size]; omega)).1 h
        exact ⟨⟨mem t.ptr, key, t.ptr + (key.length + 2), m, v⟩ :: es,
          .cons ⟨rfl, hz, hkey, hle, rfl⟩ hm hes, rfl⟩
    · rintro ⟨es, h, rfl⟩
      cases h with
      | nil h0 => exact Or.inl ⟨h0, rfl⟩
      | @cons _ _ e es hhead hv hes =>
        have hfits : (e.key.length : ℤ) + 2 ≤ t.size := hhead.fits
        have hdrop : (t.drop e.head).size = t.size - (e.key.length + 2) := rfl
        refine Or.inr ⟨by omega, e.key, e.value, _, hhead.clean, hhead.key, hfits, ?_,
          (ih ?_).2 ⟨es, hes, rfl⟩⟩
        · rw [hhead.type]
          exact (reads_iff (t := t.drop e.head) (fun _ _ _ => elemsOf_size) (by omega) (by omega)).2
            ⟨_, hv, rfl⟩
        · rw [Reader.drop_size]
          omega

/-! ## Elements of memory that is the same -/

theorem Reads.congr_elems (h : Reads mem (elemsOf mem fuel) t bt v m) (ht : t.size ≤ INT_MAX)
    (ha : Agree mem mem' t.ptr hi) (hm : t.ptr + m ≤ hi) (h4 : counted bt ≠ none → t.ptr + 4 ≤ hi) :
    Reads mem' (elemsOf mem' fuel) t bt v m :=
  h.congr ha hm h4 fun _ _ _ h1 h2 h3 => unpackElems_congr (h3.trans ht) (ha.mono h1 h2)

theorem Element.Heads.congr (h : e.Heads mem t) (ha : Agree mem mem' t.ptr e.ptr) : e.Heads mem' t := by
  obtain ⟨htype, hz, hkey, hfits, hptr⟩ := h
  have hhead : e.head = e.key.length + 2 := rfl
  refine ⟨?_, hz, ha.holds (by omega) ?_ hkey, hfits, hptr⟩
  · rw [ha t.ptr le_rfl (by omega), htype]
  · rw [List.length_append, List.length_singleton]
    push_cast
    omega

theorem Element.Heads.readByte (h : e.Heads mem t) (ht : t.size ≤ INT_MAX) :
    (readByte mem t).result = .ok (e.type, t.drop 1) := by
  have hhead : e.head = e.key.length + 2 := rfl
  have hfits := h.fits
  refine readByte_ok.2 ⟨by omega, by omega, ?_, rfl⟩
  rw [slice_one, ← h.type]
  rfl

theorem Element.Heads.readCString (h : e.Heads mem t) (ht : t.size ≤ INT_MAX) :
    (readCString mem (t.drop 1)).result = .ok (e.key, t.drop e.head) := by
  have hhead : e.head = e.key.length + 2 := rfl
  have hfits := h.fits
  refine readCString_ok.2 ⟨h.clean, h.key, ?_, ?_, ?_⟩
  · rw [Reader.drop_size]
    omega
  · rw [Reader.drop_size]
    omega
  · rw [Reader.drop_drop, hhead]
    ring_nf

theorem Elements.congr (h : Elements mem fuel t es) (ht : t.size ≤ INT_MAX)
    (ha : Agree mem mem' t.ptr (t.ptr + t.size)) : Elements mem' fuel t es := by
  induction h with
  | nil h0 => exact .nil h0
  | @cons fuel t e es hhead hv _ ih =>
    have hle := hv.le
    have hfits := hhead.fits
    have hptr := hhead.ptr
    have hhd : e.head = e.key.length + 2 := rfl
    rw [Reader.drop_size] at hle
    refine .cons (hhead.congr (ha.mono le_rfl (by omega)))
      (hv.congr_elems ?_ (ha.mono ?_ le_rfl) ?_ ?_) (ih ?_ ?_)
    · rw [Reader.drop_size]
      omega
    · rw [Reader.drop_ptr]
      omega
    · rw [Reader.drop_ptr]
      omega
    · intro hc
      have h4 := hv.four_le hc
      rw [Reader.drop_size] at h4
      rw [Reader.drop_ptr]
      omega
    · simp only [Reader.drop_size]
      omega
    · refine ha.mono ?_ ?_ <;> simp only [Reader.drop_ptr, Reader.drop_size] <;> omega

/-- The elements are in the bytes they are decoded from. -/
theorem Elements.inside (h : Elements mem fuel t es) (he : e ∈ es) :
    t.ptr + 2 ≤ e.ptr ∧ e.ptr + e.size ≤ t.ptr + t.size := by
  induction h with
  | nil _ => cases he
  | @cons fuel t e' es hhead hv _ ih =>
    have hle := hv.le
    have hptr := hhead.ptr
    have hhd : e'.head = e'.key.length + 2 := rfl
    rw [Reader.drop_size] at hle
    rcases List.mem_cons.1 he with rfl | he
    · omega
    · have := ih he
      simp only [Reader.drop_ptr, Reader.drop_size] at this
      omega

/-- Where a counted value takes less than the four bytes of its length, what is left of these
    bytes does not begin an element, or begins one of type 255 and a key that goes on after
    them. -/
theorem counted_rest {c : ℤ} (hc : counted bt = some c) (hm : m < 4) :
    let rest := (leBytes 4 (unsigned 4 (m - c))).drop m
    (rest.headD 0 = 0 ∨ rest.headD 0 = 240 ∨ rest.headD 0 = 252) ∨ rest = List.replicate (4 - m) 255 := by
  have h16 : ∀ m < 4, let rest := (leBytes 4 (unsigned 4 ((m : ℕ) - 16))).drop m
      rest.headD 0 = 240 ∨ rest = List.replicate (4 - m) 255 := by decide
  have h4 : ∀ m < 4, let rest := (leBytes 4 (unsigned 4 ((m : ℕ) - 4))).drop m
      rest.headD 0 = 252 ∨ rest = List.replicate (4 - m) 255 := by decide
  have h0 : ∀ m < 4, ((leBytes 4 (unsigned 4 ((m : ℕ) - 0))).drop m).headD 0 = 0 := by decide
  unfold counted at hc
  split at hc
  · cases hc
    exact (h16 m hm).imp_left fun h => Or.inr (Or.inl h)
  · cases hc
    exact (h4 m hm).imp_left fun h => Or.inr (Or.inr h)
  · cases hc
    exact (h4 m hm).imp_left fun h => Or.inr (Or.inr h)
  · cases hc
    exact Or.inl (Or.inl (h0 m hm))
  · cases hc

/-- What is left of the four bytes of a length after a value that takes less. -/
theorem Reads.slice_rest {c : ℤ} (hv : Reads mem elems t bt v m) (hc : counted bt = some c) (hm : m < 4) :
    slice mem (t.ptr + m) (4 - m) = (leBytes 4 (unsigned 4 (m - c))).drop m := by
  have hn : signed 4 (ofLe (slice mem t.ptr 4)) = m - c := by
    have := hv.length_eq hc
    omega
  have h4 : slice mem t.ptr 4 = slice mem t.ptr m ++ slice mem (t.ptr + m) (4 - m) := by
    rw [← slice_add, Nat.add_sub_cancel' hm.le]
  have hlt := ofLe_lt (slice mem t.ptr 4)
  have hle := leBytes_ofLe (slice mem t.ptr 4)
  rw [slice_length] at hlt hle
  rw [← hn, unsigned_signed hlt, hle, h4, List.drop_left' (slice_length ..)]

/-- The key of an element that begins with type 255 and bytes 255 goes on after these. -/
theorem Element.Heads.after_replicate {n : ℕ} (h : e.Heads mem t)
    (hr : slice mem t.ptr (n + 1) = List.replicate (n + 1) 255) : t.ptr + n + 1 < e.ptr := by
  have hptr := h.ptr
  have hhd : e.head = e.key.length + 2 := rfl
  by_contra hle
  have hlt : e.key.length < n := by omega
  have hend : mem (t.ptr + 1 + e.key.length) = 0 := (holds_cons.1 (holds_append.1 h.key).2).1
  have hget : (slice mem t.ptr (n + 1))[e.key.length + 1]? =
      some (mem (t.ptr + (e.key.length + 1 : ℕ))) := by
    simp only [slice, List.getElem?_map]
    rw [List.getElem?_range (by omega)]
    rfl
  rw [hr, List.getElem?_replicate, if_pos (by omega)] at hget
  have h255 := Option.some.inj hget
  rw [show t.ptr + (e.key.length + 1 : ℕ) = t.ptr + 1 + e.key.length by push_cast; ring, hend] at h255
  exact absurd h255 (by decide)

/-- The four bytes of a length are before the values of the elements that follow. -/
theorem Elements.after_counted (hv : Reads mem elems t bt v m) (hc : counted bt ≠ none)
    (hes : Elements mem fuel (t.drop m) es) (he : e ∈ es) : t.ptr + 4 ≤ e.ptr := by
  obtain ⟨c, hc⟩ := Option.ne_none_iff_exists'.1 hc
  rcases Nat.lt_or_ge m 4 with hm | hm
  · have hslice := hv.slice_rest hc hm
    obtain ⟨k, hk⟩ : ∃ k, 4 - m = k + 1 := ⟨3 - m, by omega⟩
    cases hes with
    | nil => cases he
    | @cons fuel _ e' es hhead hv' hes =>
      have htype : (slice mem (t.ptr + m) (4 - m)).headD 0 = e'.type := by
        rw [hk, slice_succ]
        exact hhead.type
      have hne := hv'.type_ne
      rw [← htype, hslice] at hne
      have hfar : t.ptr + 4 < e'.ptr := by
        rcases counted_rest hc hm with (h | h | h) | h
        · exact (hne.1 h).elim
        · exact (hne.2.1 h).elim
        · exact (hne.2.2 h).elim
        · rw [← hslice, hk] at h
          have := hhead.after_replicate h
          rw [Reader.drop_ptr] at this
          omega
      have hptr := hhead.ptr
      rcases List.mem_cons.1 he with rfl | he
      · omega
      · have := (hes.inside he).1
        simp only [Reader.drop_ptr] at this hptr
        omega
  · have := (hes.inside he).1
    rw [Reader.drop_ptr] at this
    omega

/-! ## Fields -/

/-- The elements that are in the index. -/
def Element.isField (e : Element) : Bool := (fixedSize e.type).any (0 < ·)

/-- The value of the field `e` has become what the bytes `cs` are read as. -/
def Element.write (cs : Bytes) (e : Element) : Element := { e with value := fixedValue e.type cs }

theorem Element.Heads.write {cs : Bytes} (h : e.Heads mem t) : (e.write cs).Heads mem t :=
  ⟨h.type, h.clean, h.key, h.fits, h.ptr⟩

theorem Element.isField_iff : e.isField = true ↔ ∃ k, fixedSize e.type = some k ∧ 0 < k := by
  unfold Element.isField
  cases fixedSize e.type <;> simp

theorem Elements.size_eq (h : Elements mem fuel t es) (he : e ∈ es) (hk : fixedSize e.type = some k) :
    e.size = k := by
  induction h with
  | nil _ => cases he
  | cons _ hv _ ih =>
    rcases List.mem_cons.1 he with rfl | he
    · exact hv.size_eq hk
    · exact ih he

/-- Bytes that are stored over those of a field change the value of this field, and no other
    element. -/
theorem Elements.write {es1 es2 : List Element} {cs : Bytes} (ht : t.size ≤ INT_MAX)
    (h : Elements mem fuel t (es1 ++ e :: es2)) (hcs : fixedSize e.type = some cs.length) :
    Elements (store mem e.ptr cs) fuel t (es1 ++ e.write cs :: es2) := by
  have hbefore : ∀ lo, Agree mem (store mem e.ptr cs) lo e.ptr := fun lo q _ hq => store_of_lt hq
  have hafter : ∀ hi, Agree mem (store mem e.ptr cs) (e.ptr + cs.length) hi :=
    fun hi q hq _ => store_of_le hq
  generalize hes : es1 ++ e :: es2 = es at h
  induction h generalizing es1 with
  | nil => cases es1 <;> cases hes
  | @cons fuel t e' es hhead hv hes' ih =>
    have hle := hv.le
    have hfits := hhead.fits
    have hptr := hhead.ptr
    have hhd : e'.head = e'.key.length + 2 := rfl
    rw [Reader.drop_size] at hle
    cases es1 with
    | nil =>
      cases hes
      have hsize := hv.size_eq hcs
      have hval : slice (store mem e.ptr cs) (t.drop e.head).ptr cs.length = cs := by
        rw [Reader.drop_ptr, ← hptr]
        exact slice_store mem e.ptr cs
      have hfixed : Reads (store mem e.ptr cs) (elemsOf (store mem e.ptr cs) fuel) (t.drop e.head) e.type
          _ _ := .fixed hcs (by rw [Reader.drop_size]; omega)
      rw [hval, ← hsize] at hfixed
      refine .cons (hhead.congr (hbefore _)).write hfixed (hes'.congr ?_ ?_)
      · simp only [Reader.drop_size]
        omega
      · refine (hafter _).mono ?_ le_rfl
        simp only [Reader.drop_ptr]
        omega
    | cons e1 es1 =>
      cases hes
      have hmem : e ∈ es1 ++ e :: es2 := List.mem_append_right _ List.mem_cons_self
      have hin := hes'.inside hmem
      refine .cons (hhead.congr (hbefore _ |>.mono le_rfl ?_))
        (hv.congr_elems ?_ (hbefore _) ?_ ?_) (ih ?_ rfl)
      · simp only [Reader.drop_ptr] at hin
        omega
      · rw [Reader.drop_size]
        omega
      · simp only [Reader.drop_ptr] at hin ⊢
        omega
      · exact fun hc => hes'.after_counted hv hc hmem
      · simp only [Reader.drop_size]
        omega

/-! ## Under a key -/

/-- The last of the elements that meet `p`. -/
def lastWith (p : Element → Bool) (es : List Element) : Option Element := es.reverse.find? p

theorem lastWith_concat (p : Element → Bool) (es : List Element) (e : Element) :
    lastWith p (es ++ [e]) = if p e then some e else lastWith p es := by
  rw [lastWith, List.reverse_append, List.reverse_singleton, List.singleton_append, List.find?_cons]
  cases p e <;> rfl

theorem lastWith_eq_some {p : Element → Bool} : lastWith p es = some e ↔
    p e = true ∧ ∃ es1 es2, es = es1 ++ e :: es2 ∧ ∀ x ∈ es2, p x = false := by
  rw [lastWith, List.find?_eq_some_iff_append]
  refine and_congr_right fun _ => ?_
  constructor
  · rintro ⟨as, bs, h, has⟩
    refine ⟨bs.reverse, as.reverse, ?_, fun x hx => ?_⟩
    · rw [← List.reverse_reverse es, h]
      simp
    · simpa using has x (List.mem_reverse.1 hx)
  · rintro ⟨es1, es2, rfl, h⟩
    refine ⟨es2.reverse, es1.reverse, by simp, fun x hx => ?_⟩
    simp [h x (List.mem_reverse.1 hx)]

theorem lastWith_append (p : Element → Bool) (es1 es2 : List Element) :
    lastWith p (es1 ++ es2) = (lastWith p es2).or (lastWith p es1) := by
  rw [lastWith, List.reverse_append, List.find?_append]
  rfl

/-- A key has the value of the last element with it. -/
theorem get_valuesOf (k : Key) (es : List Element) :
    (valuesOf es .nil).get k = (lastWith (Key.str ·.key = k) es).map (·.value) := by
  induction es using List.reverseRecOn with
  | nil => rfl
  | append_singleton es e ih =>
    have hstep : valuesOf (es ++ [e]) .nil = (valuesOf es .nil).set (.str e.key) e.value := by
      rw [valuesOf, List.foldl_append]
      rfl
    rw [hstep, Fields.get_set, lastWith_concat, ih]
    by_cases hk : Key.str e.key = k <;> simp [hk]

/-! ## The block -/

/-- The block has `n` bytes, and the elements `es`. -/
structure Document (mem : Mem) (fuel n : ℕ) (es : List Element) : Prop where
  length : signed 4 (ofLe (slice mem 0 4)) = n
  five : 5 ≤ n
  last : mem (n - 1) = 0
  elements : Elements mem fuel ⟨4, n - 5⟩ es

theorem Document.int {n : ℕ} (h : Document mem fuel n es) : (n : ℤ) ≤ INT_MAX := by
  rw [← h.length]
  exact length_le mem 0

theorem ldecode_iff : (ldecode mem fuel).result = .ok v ↔
    ∃ n es, Document mem fuel n es ∧ v = .table (valuesOf es .nil) := by
  have hint := length_le mem 0
  have helems : ∀ (t : Reader) (array : Bool) (fs : Fields),
      (elemsOf mem fuel t array).result = .ok fs → 0 ≤ t.size := fun _ _ _ => elemsOf_size
  constructor
  · intro h
    obtain ⟨b, hb, h⟩ := Traced.result_bind_ok.1 h
    obtain rfl := load_ok.1 hb
    obtain ⟨⟨w, t⟩, hw, h⟩ := Traced.result_bind_ok.1 h
    cases h
    have hdict := (dict_ok (t := ⟨0, signed 4 (ofLe (slice mem 0 4))⟩) helems hint).1 hw
    obtain ⟨n, fs, hn, h5, -, hend, hfs, rfl, -⟩ := hdict
    have hn : signed 4 (ofLe (slice mem 0 4)) = n := hn
    have hsize : (⟨4, n - 5⟩ : Reader).size ≤ INT_MAX := by
      dsimp only
      omega
    obtain ⟨es, hes, rfl⟩ := (unpackElems_iff hsize).1 hfs
    refine ⟨n, es, ⟨hn, h5, ?_, hes⟩, rfl⟩
    rwa [zero_add] at hend
  · rintro ⟨n, es, hd, rfl⟩
    have hsize : (⟨4, n - 5⟩ : Reader).size ≤ INT_MAX := by
      have := hd.int
      dsimp only
      omega
    have hw : (unpackDict mem (elemsOf mem fuel) ⟨0, signed 4 (ofLe (slice mem 0 4))⟩ false).result =
        .ok (.table (valuesOf es .nil), Reader.drop ⟨0, signed 4 (ofLe (slice mem 0 4))⟩ n) := by
      refine (dict_ok (t := ⟨0, signed 4 (ofLe (slice mem 0 4))⟩) helems hint).2
        ⟨n, _, hd.length, hd.five, hd.length.ge, ?_, ?_, rfl, rfl⟩
      · rw [zero_add]
        exact hd.last
      · exact (unpackElems_iff hsize).2 ⟨es, hd.elements, rfl⟩
    exact Traced.result_bind_ok.2 ⟨_, load_ok.2 rfl, Traced.result_bind_ok.2 ⟨_, hw, rfl⟩⟩

end Levent.Bson
