/-
  `lua-bson.c`: the assignment `doc[k] = v` to a block with an index, and what
  `bson.decode` makes of the block then.
-/
import Levent.Bson.Index
import Levent.Lib.Double

namespace Levent.Bson

open Lib

/-! ## Arguments -/

/-- What is assigned; of a double the 64 bits are kept. -/
inductive Arg where
  | nil
  | bool (b : Bool)
  | int (n : Int64)
  | real (bits : UInt64)
  | str (s : Bytes)
  | other (typename : String)

/-- Lua's own conversions: of a string to a double, and of a double to a text. -/
structure Numbers where
  tonumber : Bytes → Option UInt64
  tostring : UInt64 → String

def Arg.typename : Arg → String
  | .nil => "nil"
  | .bool _ => "boolean"
  | .int _ | .real _ => "number"
  | .str _ => "string"
  | .other t => t

/-- `lua_toboolean` -/
def Arg.truth : Arg → Bool
  | .nil => false
  | .bool b => b
  | _ => true

/-- `lua_tonumber`, where the argument can be converted. -/
def Arg.number (N : Numbers) : Arg → Option UInt64
  | .int n => some (UInt64.ofNat (doubleOf n.toInt))
  | .real bits => some bits
  | .str s => N.tonumber s
  | _ => none

/-- `luaL_argerror` of the third argument. -/
def argError (expected : String) (v : Arg) : Stop :=
  .error s!"bad argument #3 to '__newindex' ({expected} expected, got {v.typename})"

/-- The text of a key, up to a NUL. -/
def Key.text : Key → String
  | .int n => toString n
  | .str s => cstring s

/-! ## The assignment -/

section
variable (N : Numbers)

/-- `replace_object`: what it writes.  (The text of a number does not begin with a NUL.) -/
def replaceObject (type : UInt8) (v : Arg) : Except Stop Bytes :=
  let mismatch := Stop.error s!"Type mismatch, need bson type {type.toNat}"
  match v with
  | .str (0 :: t :: p) =>
    if p.length + 2 < 6 ∨ t ≠ type then .error mismatch
    else match type with
      | 7 => if p.length ≠ 12 then .error (.error "Invalid object id") else .ok p
      | 9 =>
        if p.length ≠ 4 then .error (.error "Invalid date")
        else .ok (leBytes 8 (unsigned 8 (ofLe p * 1000)))
      | 17 => if p.length ≠ 8 then .error (.error "Invalid timestamp") else .ok (p.take 4 ++ p.drop 4)
      | _ => .ok []
  | .str _ | .int _ | .real _ => .error mismatch
  | v => .error (argError "string" v)

/-- The cases of `lreplace`: what is written at the offset. -/
def replacement (type : UInt8) (v : Arg) : Except Stop Bytes :=
  let mustBe (what : String) : Stop :=
    .error s!"{N.tostring ((v.number N).getD 0)} must be a {what} integer "
  match type with
  | 1 =>
    match v.number N with
    | some bits => .ok (leBytes 8 bits.toNat)
    | none => .error (argError "number" v)
  | 8 => .ok [if v.truth then 1 else 0]
  | 7 | 9 | 17 => replaceObject type v
  | 16 =>
    match v with
    -- `int32_t i = lua_tointeger(L,3)`
    | .int n => .ok (leBytes 4 (unsigned 4 (signed 4 (unsigned 4 n.toInt))))
    | _ => .error (mustBe "32bit")
  | 18 =>
    match v with
    | .int n => .ok (leBytes 8 (unsigned 8 n.toInt))
    | _ => .error (mustBe "64bit")
  | type => .error (.error s!"Can't replace type {type.toNat}")

/-- `lreplace`: the memory after `doc[k] = v`. -/
def lreplace (index : Option Fields) (mem : Mem) (k : Key) (v : Arg) : Except Stop Mem :=
  match index with
  | none => .error (.error "call makeindex first")
  | some index =>
    match index.get k with
    | some (.int id) => do
      let cs ← replacement N (UInt8.ofNat (id % 2 ^ BSON_TYPE_SHIFT).toNat) v
      pure (store mem (id / 2 ^ BSON_TYPE_SHIFT) cs)
    | _ => .error (.error s!"Can't replace key : {k.text}")

end

/-! ## What is written -/

/-- `w` is `v` as Lua's `==` sees it; a boolean is the truth value of `v`. -/
def Arg.Gives : Arg → Value → Prop
  | v, .bool b => b = v.truth
  | .int n, .int m => m = n.toInt
  | .int n, .real bits => doubleInt bits = some n.toInt
  | .real bits, .real bits' => bits' = bits.toNat
  | .real bits, .int m => doubleInt bits.toNat = some m
  | .str s, .str s' => s' = s
  | _, _ => False

/-- A field of the type takes `v` as it is: an integer for 32 bits is one, an integer for a double
    is a double, and a string is not turned into a number. -/
def Arg.Suits (type : UInt8) : Arg → Prop
  | .int n =>
    match type with
    | 16 => -2 ^ 31 ≤ n.toInt ∧ n.toInt < 2 ^ 31
    | 1 => doubleInt (doubleOf n.toInt) = some n.toInt
    | _ => True
  | .str _ => type ≠ 1
  | _ => True

variable {N : Numbers} {type : UInt8} {v : Arg} {cs : Bytes} {k : ℕ}

theorem checked_ok {msg : Stop} {c : Prop} [Decidable c] {x : Bytes}
    (h : (if c then .error msg else .ok x : Except Stop Bytes) = .ok cs) : ¬ c ∧ cs = x := by
  split at h
  · cases h
  · rename_i hc
    cases h
    exact ⟨hc, rfl⟩

theorem replaceObject_ok (h : replaceObject type v = .ok cs) (htype : type = 7 ∨ type = 9 ∨ type = 17) :
    ∃ p, v = .str (0 :: type :: p) ∧ (type = 7 ∧ p.length = 12 ∧ cs = p ∨
      type = 9 ∧ p.length = 4 ∧ cs = leBytes 8 (unsigned 8 (ofLe p * 1000)) ∨
      type = 17 ∧ p.length = 8 ∧ cs = p) := by
  unfold replaceObject at h
  dsimp only at h
  split at h
  · split at h
    · cases h
    · rename_i t p hmis
      obtain ⟨-, ht⟩ := not_or.1 hmis
      obtain rfl := not_not.1 ht
      refine ⟨p, rfl, ?_⟩
      rcases htype with rfl | rfl | rfl
      · obtain ⟨hlen, hcs⟩ := checked_ok h
        exact Or.inl ⟨rfl, not_not.1 hlen, hcs⟩
      · obtain ⟨hlen, hcs⟩ := checked_ok h
        exact Or.inr (Or.inl ⟨rfl, not_not.1 hlen, hcs⟩)
      · obtain ⟨hlen, hcs⟩ := checked_ok h
        exact Or.inr (Or.inr ⟨rfl, not_not.1 hlen, hcs.trans (List.take_append_drop 4 p)⟩)
  · cases h
  · cases h
  · cases h
  · cases h

/-- The bytes `cs` are those of a value of the type, and this value is `v` where `v` suits. -/
def Written (type : UInt8) (v : Arg) (cs : Bytes) : Prop :=
  fixedSize type = some cs.length ∧ (v.Gives (fixedValue type cs) ↔ v.Suits type)

theorem written_double (h : replacement N 1 v = .ok cs) : Written 1 v cs := by
  have hreal : ∀ bits : UInt64, fixedValue 1 (leBytes 8 bits.toNat) = .real bits.toNat := by
    intro bits
    exact congrArg Value.real (ofLe_leBytes bits.toNat_lt)
  obtain ⟨bits, hbits, rfl⟩ : ∃ bits, v.number N = some bits ∧ cs = leBytes 8 bits.toNat := by
    have h' : (match v.number N with
      | some bits => Except.ok (leBytes 8 bits.toNat)
      | none => .error (argError "number" v) : Except Stop Bytes) = .ok cs := h
    split at h'
    · cases h'
      exact ⟨_, ‹_›, rfl⟩
    · cases h'
  refine ⟨by rw [leBytes_length]; rfl, ?_⟩
  rw [hreal]
  cases v with
  | int n =>
    obtain rfl := Option.some.inj hbits
    have hlt : doubleOf n.toInt < 2 ^ 64 := doubleOf_lt (by have := n.le_toInt; have := n.toInt_lt; omega)
    simp only [Arg.Gives, Arg.Suits]
    rw [UInt64.toNat_ofNat_of_lt' hlt]
  | real b =>
    obtain rfl := Option.some.inj hbits
    exact iff_of_true rfl trivial
  | str s => exact iff_of_false id fun h => h rfl
  | nil => cases hbits
  | bool b => cases hbits
  | other t => cases hbits

theorem written_bool (h : replacement N 8 v = .ok cs) : Written 8 v cs := by
  obtain rfl : [if v.truth then 1 else 0] = cs := Except.ok.inj h
  refine ⟨rfl, iff_of_true ?_ ?_⟩
  · cases hv : v.truth <;> cases v <;> simp_all [Arg.Gives, fixedValue]
  · cases v <;> simp [Arg.Suits]

theorem written_object (h : replaceObject type v = .ok cs) (htype : type = 7 ∨ type = 9 ∨ type = 17) :
    Written type v cs := by
  obtain ⟨p, rfl, hcs⟩ := replaceObject_ok h htype
  clear h
  have hsuits : (Arg.str (0 :: type :: p)).Suits type := by
    rcases htype with rfl | rfl | rfl <;> simp [Arg.Suits]
  rcases hcs with ⟨rfl, hl, rfl⟩ | ⟨rfl, hl, rfl⟩ | ⟨rfl, hl, rfl⟩
  · exact ⟨by rw [hl]; rfl, iff_of_true rfl hsuits⟩
  · refine ⟨by rw [leBytes_length]; rfl, iff_of_true ?_ hsuits⟩
    rw [fixedValue_date hl]
    exact rfl
  · exact ⟨by rw [hl]; rfl, iff_of_true rfl hsuits⟩

theorem written_int32 (h : replacement N 16 v = .ok cs) : Written 16 v cs := by
  obtain ⟨n, rfl⟩ : ∃ n, v = .int n := by
    cases v with
    | int n => exact ⟨n, rfl⟩
    | _ => cases h
  obtain rfl := Except.ok.inj h
  refine ⟨by rw [leBytes_length]; rfl, ?_⟩
  show signed 4 (ofLe (leBytes 4 _)) = _ ↔ _
  rw [unsigned_signed (unsigned_lt ..), ofLe_leBytes (unsigned_lt ..)]
  constructor
  · intro heq
    have := signed_range (unsigned_lt 4 n.toInt)
    exact ⟨by omega, by omega⟩
  · rintro ⟨h0, h1⟩
    exact signed_unsigned (by omega) (by omega)

theorem written_int64 (h : replacement N 18 v = .ok cs) : Written 18 v cs := by
  obtain ⟨n, rfl⟩ : ∃ n, v = .int n := by
    cases v with
    | int n => exact ⟨n, rfl⟩
    | _ => cases h
  obtain rfl := Except.ok.inj h
  refine ⟨by rw [leBytes_length]; rfl, iff_of_true ?_ trivial⟩
  have h0 := n.le_toInt
  have h1 := n.toInt_lt
  show signed 8 (ofLe (leBytes 8 _)) = _
  rw [ofLe_leBytes (unsigned_lt ..), signed_unsigned (by omega) (by omega)]

theorem replacement_written (h : replacement N type v = .ok cs) (hk : fixedSize type = some k)
    (hpos : 0 < k) : Written type v cs := by
  rcases field_type hk hpos with rfl | rfl | rfl | rfl | rfl | rfl | rfl
  · exact written_double h
  · exact written_object h (by decide)
  · exact written_object h (by decide)
  · exact written_int64 h
  · exact written_bool h
  · exact written_object h (by decide)
  · exact written_int32 h

/-! ## The block after an assignment -/

variable {mem mem' : Mem} {fuel fuel' n : ℕ} {es : List Element} {index : Fields} {k : Key}

/-- The assignment `doc[k] = v` has stored the bytes `cs` of a field, the last with the key. -/
structure Assigned (mem mem' : Mem) (k : Key) (v : Arg) (es1 : List Element) (e : Element)
    (es2 : List Element) (cs : Bytes) : Prop where
  field : e.isField = true
  key : .str e.key = k
  last : ∀ x ∈ es2, Key.str x.key = k → x.isField = false
  written : Written e.type v cs
  store : mem' = store mem e.ptr cs

theorem lreplace_ok (hd : Document mem fuel n es) (hi : (lmakeindex mem fuel').result = .ok index)
    (hr : lreplace N (some index) mem k v = .ok mem') :
    ∃ es1 e es2 cs, es = es1 ++ e :: es2 ∧ Assigned mem mem' k v es1 e es2 cs := by
  obtain ⟨-, hshift, rfl⟩ := (lmakeindex_iff hd).1 hi
  unfold lreplace at hr
  dsimp only at hr
  rw [get_indexOf] at hr
  cases hl : lastWith (fun e => e.isField && Key.str e.key = k) es with
  | none =>
    rw [hl] at hr
    cases hr
  | some e =>
    rw [hl] at hr
    obtain ⟨cs, hcs, hr⟩ := Lib.bind_eq_ok.1 hr
    obtain ⟨hp, es1, es2, rfl, hafter⟩ := lastWith_eq_some.1 hl
    obtain ⟨hf, hk⟩ := Bool.and_eq_true_iff.1 hp
    have hmem : e ∈ es1 ++ e :: es2 := List.mem_append_right _ List.mem_cons_self
    have hid := Element.id_eq hf (hshift e hmem hf).1
    have hlt := Element.type_lt hf
    have htype : UInt8.ofNat (e.id % 2 ^ BSON_TYPE_SHIFT).toNat = e.type := by
      have hmod : ((32 * e.ptr + e.type.toNat) % 2 ^ 5 : ℤ).toNat = e.type.toNat := by omega
      rw [hid, BSON_TYPE_SHIFT, hmod, UInt8.ofNat_toNat]
    have hptr : e.id / 2 ^ BSON_TYPE_SHIFT = e.ptr := by
      rw [hid, BSON_TYPE_SHIFT]
      omega
    cases hr
    rw [htype] at hcs
    obtain ⟨size, hsize, hpos⟩ := Element.isField_iff.1 hf
    refine ⟨es1, e, es2, cs, rfl, hf, of_decide_eq_true hk, ?_, replacement_written hcs hsize hpos, ?_⟩
    · intro x hx hxk
      simpa [hxk] using hafter x hx
    · rw [hptr]

section
variable {es1 es2 : List Element} {e : Element} {cs : Bytes} (ha : Assigned mem mem' k v es1 e es2 cs)
  (hd : Document mem fuel n (es1 ++ e :: es2))
include ha hd

theorem Assigned.inside : 4 < e.ptr ∧ e.ptr + cs.length ≤ n - 1 := by
  have hin := hd.elements.inside (List.mem_append_right _ List.mem_cons_self)
  have hsize := hd.elements.size_eq (List.mem_append_right _ List.mem_cons_self) ha.written.1
  dsimp only at hin
  omega

/-- The bytes outside of the elements are what they were. -/
theorem Assigned.frame {p : ℤ} (hp : p < 4 ∨ n - 1 ≤ p) : mem' p = mem p := by
  obtain ⟨h0, h1⟩ := ha.inside hd
  rw [ha.store]
  rcases hp with hp | hp
  · exact store_of_lt (by omega)
  · exact store_of_le (by omega)

/-- The elements after the assignment. -/
theorem Assigned.document : Document mem' fuel n (es1 ++ e.write cs :: es2) := by
  have hint := hd.int
  have h5 := hd.five
  have hlength : slice mem' 0 4 = slice mem 0 4 :=
    List.map_congr_left fun i hi => ha.frame hd (Or.inl (by have := List.mem_range.1 hi; omega))
  refine ⟨?_, hd.five, ?_, ?_⟩
  · rw [hlength, hd.length]
  · rw [ha.frame hd (Or.inr le_rfl), hd.last]
  · rw [ha.store]
    exact hd.elements.write (by dsimp only; omega) ha.written.1

end

/-! ## Under the keys -/

/-- `bson.decode` has `v` under `k`, and under every other key what it had before; the length of
    the block, its end and the memory around it are what they were. -/
structure Replaced (mem mem' : Mem) (fuel : ℕ) (k : Key) (v : Arg) : Prop where
  decoded : ∃ fs fs', (ldecode mem fuel).result = .ok (.table fs) ∧
    (ldecode mem' fuel).result = .ok (.table fs') ∧
    (∃ w, fs'.get k = some w ∧ v.Gives w) ∧ ∀ k', k' ≠ k → fs'.get k' = fs.get k'
  frame : ∀ p, p < 4 ∨ signed 4 (ofLe (slice mem 0 4)) - 1 ≤ p → mem' p = mem p

/-- The last element with the key is a field that `v` suits; one that is no field has `v`. -/
def Fits (es : List Element) (k : Key) (v : Arg) : Prop :=
  ∃ e, lastWith (Key.str ·.key = k) es = some e ∧ if e.isField then v.Suits e.type else v.Gives e.value

section
variable {es1 es2 : List Element} {e : Element} {cs : Bytes}

theorem lastWith_replace (p : Element → Bool) (es1 : List Element) (e : Element) (es2 : List Element) :
    lastWith p (es1 ++ e :: es2) = (lastWith p es2).or (if p e then some e else lastWith p es1) := by
  rw [← List.singleton_append, ← List.append_assoc, lastWith_append, lastWith_concat]

/-- Other keys have what they had. -/
theorem get_write_of_ne {k' : Key} (h : Key.str e.key ≠ k') :
    (valuesOf (es1 ++ e.write cs :: es2) .nil).get k' = (valuesOf (es1 ++ e :: es2) .nil).get k' := by
  have hp : decide (Key.str e.key = k') = false := decide_eq_false h
  have hp' : decide (Key.str (e.write cs).key = k') = false := hp
  rw [get_valuesOf, get_valuesOf, lastWith_replace, lastWith_replace, hp, hp']
  rfl

/-- The key has `v` if and only if `v` fits. -/
theorem Assigned.gives_iff (ha : Assigned mem mem' k v es1 e es2 cs) :
    (∃ w, (valuesOf (es1 ++ e.write cs :: es2) .nil).get k = some w ∧ v.Gives w) ↔
      Fits (es1 ++ e :: es2) k v := by
  have hp : decide (Key.str e.key = k) = true := decide_eq_true ha.key
  have hp' : decide (Key.str (e.write cs).key = k) = true := hp
  rw [get_valuesOf, Fits, lastWith_replace, lastWith_replace, hp, hp', if_pos rfl, if_pos rfl]
  cases hl : lastWith (Key.str ·.key = k) es2 with
  | none =>
    have hfield := ha.field
    simpa [Element.write, hfield] using ha.written.2
  | some l =>
    obtain ⟨hlk, as, bs, rfl, -⟩ := lastWith_eq_some.1 hl
    have hlf : l.isField = false :=
      ha.last l (List.mem_append_right _ List.mem_cons_self) (of_decide_eq_true hlk)
    simp [hlf]

end

/-- The block still decodes after an assignment, and the index is that of the block then. -/
theorem lmakeindex_replace (hd : Document mem fuel n es) (hi : (lmakeindex mem fuel').result = .ok index)
    (hr : lreplace N (some index) mem k v = .ok mem') :
    (∃ es', Document mem' fuel n es') ∧ (lmakeindex mem' fuel').result = .ok index := by
  obtain ⟨es1, e, es2, cs, rfl, ha⟩ := lreplace_ok hd hi hr
  obtain ⟨hlen, hshift, rfl⟩ := (lmakeindex_iff hd).1 hi
  rw [List.forall_mem_append, List.forall_mem_cons] at hshift
  refine ⟨⟨_, ha.document hd⟩, (lmakeindex_iff (ha.document hd)).2 ⟨?_, ?_, ?_⟩⟩
  · rw [List.length_append, List.length_cons] at hlen ⊢
    exact hlen
  · rw [List.forall_mem_append, List.forall_mem_cons]
    exact ⟨hshift.1, hshift.2.1, hshift.2.2⟩
  · rw [indexOf, indexOf, List.foldl_append, List.foldl_append]
    rfl

/-- One assignment after the other. -/
def lreplaceAll (N : Numbers) (index : Fields) (mem : Mem) : List (Key × Arg) → Except Stop Mem
  | [] => .ok mem
  | (k, v) :: kvs => do
    let mem ← lreplace N (some index) mem k v
    lreplaceAll N index mem kvs

/-- So it is after any number of assignments. -/
theorem lmakeindex_replaceAll {kvs : List (Key × Arg)} (hd : Document mem fuel n es)
    (hi : (lmakeindex mem fuel').result = .ok index) (hr : lreplaceAll N index mem kvs = .ok mem') :
    (∃ es', Document mem' fuel n es') ∧ (lmakeindex mem' fuel').result = .ok index := by
  induction kvs generalizing mem es with
  | nil =>
    cases hr
    exact ⟨⟨es, hd⟩, hi⟩
  | cons kv kvs ih =>
    obtain ⟨mem1, h1, hr⟩ := Lib.bind_eq_ok.1 hr
    obtain ⟨⟨es1, hd1⟩, hi1⟩ := lmakeindex_replace hd hi h1
    exact ih hd1 hi1 hr

/-- An assignment to a block with an index keeps the length of the block, has `bson.decode` give
    the value under the key and leaves the other keys what they were, if and only if the block
    decodes and the last of its elements with the key is a field that takes the value as it is,
    or is no field and has the value already. -/
theorem replaced_iff (hi : (lmakeindex mem fuel').result = .ok index)
    (hr : lreplace N (some index) mem k v = .ok mem') :
    Replaced mem mem' fuel k v ↔ ∃ n es, Document mem fuel n es ∧ Fits es k v := by
  constructor
  · rintro ⟨⟨fs, fs', hdec, hdec', hgives, -⟩, -⟩
    obtain ⟨n, es, hd, -⟩ := ldecode_iff.1 hdec
    obtain ⟨es1, e, es2, cs, rfl, ha⟩ := lreplace_ok hd hi hr
    have hafter := ldecode_iff.2 ⟨n, _, ha.document hd, rfl⟩
    rw [hdec'] at hafter
    obtain rfl := Value.table.inj (Except.ok.inj hafter)
    exact ⟨n, _, hd, ha.gives_iff.1 hgives⟩
  · rintro ⟨n, es, hd, hfits⟩
    obtain ⟨es1, e, es2, cs, rfl, ha⟩ := lreplace_ok hd hi hr
    refine ⟨⟨_, _, ldecode_iff.2 ⟨n, _, hd, rfl⟩, ldecode_iff.2 ⟨n, _, ha.document hd, rfl⟩,
      ha.gives_iff.2 hfits, ?_⟩, ?_⟩
    · intro k' hk'
      refine get_write_of_ne ?_
      rw [ha.key]
      exact hk'.symm
    · intro p hp
      rw [hd.length] at hp
      exact ha.frame hd hp

/-- No number is made of a string. -/
def noNumbers : Numbers := ⟨fun _ => none, fun _ => ""⟩

/-- What `{a = 1}` is encoded as. -/
def oneInt : Bytes := [12, 0, 0, 0, 16, 97, 0, 1, 0, 0, 0, 0]

/-- 7 for `a`. -/
theorem replaced_iff_int :
    Replaced (block oneInt) (store (block oneInt) 7 [7, 0, 0, 0]) 12 (.str [97]) (.int 7) ↔
      ∃ n es, Document (block oneInt) 12 n es ∧ Fits es (.str [97]) (.int 7) := by
  have hi : (lmakeindex (block oneInt) 12).result = .ok (.cons (.str [97]) (.int 240) .nil) := rfl
  exact replaced_iff (N := noNumbers) hi rfl

set_option maxRecDepth 4000 in
/-- In `{a = 1}` `a` is an integer of 32 bits: of `2 ^ 31` the lower bits are written, which are
    those of `-2 ^ 31`. -/
theorem not_replaced_int32 : ¬ ∀ (N : Numbers) (d : Dict) (bs : Bytes) (mem mem' : Mem) (fuel : ℕ)
    (index : Fields) (k : Key) (v : Arg), d.Distinct → encode d = .ok bs → Holds mem 0 bs →
    bs.length ≤ fuel → (lmakeindex mem fuel).result = .ok index →
    lreplace N (some index) mem k v = .ok mem' → Replaced mem mem' fuel k v := by
  intro h
  have hd : (Dict.cons [97] (.int 1) .nil).Distinct := ⟨List.not_mem_nil, trivial, trivial⟩
  have he : encode (.cons [97] (.int 1) .nil) = .ok oneInt := rfl
  have hr := h noNumbers _ _ (block oneInt) (store (block oneInt) 7 [0, 0, 0, 128]) 12
    (.cons (.str [97]) (.int 240) .nil) (.str [97]) (.int 2147483648) hd he (holds_block _) le_rfl rfl rfl
  obtain ⟨fs, fs', -, hdec, ⟨w, hw, hgives⟩, -⟩ := hr.decoded
  have hafter : (ldecode (store (block oneInt) 7 [0, 0, 0, 128]) 12).result =
      .ok (.table (.cons (.str [97]) (.int (-2147483648)) .nil)) := rfl
  rw [hafter] at hdec
  obtain rfl := Value.table.inj (Except.ok.inj hdec)
  obtain rfl := Option.some.inj hw
  have heq : (-2147483648 : ℤ) = (2147483648 : Int64).toInt := hgives
  exact absurd heq (by decide)

end Levent.Bson
