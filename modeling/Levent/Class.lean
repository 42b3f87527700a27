/-
  `class.lua`: classes, their objects, `issubclass` and `isinstance`.

  A table has its position in the heap for a name.  A class is the metatable of its
  objects, and a base class that of the classes made from it, so that a field which
  is not found is looked up there; `__index` of a class is the class.  The methods
  of a class other than `_init` are left out: no class defines `__eq`, which `==` would
  call, or `__metatable`, which `getmetatable` would return, and nothing here reads the
  others.
-/
import Levent.Lib.Run
import Levent.Lib.Search

namespace Levent.Class

open Lib (Lua Stop run search Leads)
open Relation (ReflTransGen)

/-! ## Tables -/

/-- A table, with its metatable; functions are numbered. -/
structure Table where
  index : Option ℕ := none
  base : Option ℕ := none
  init : Option ℕ := none
  metatable : Option ℕ := none
  deriving DecidableEq

abbrev Heap := List Table

/-- A value: the table at a position, or one that is no table. -/
inductive Value where
  | table (t : ℕ)
  | other

variable (h : Heap)

/-- `getmetatable(t)` -/
def Heap.getmetatable (t : ℕ) : Option ℕ := h[t]?.bind Table.metatable

/-- `rawget(cls, "__base")` -/
def Heap.baseOf (cls : ℕ) : Option ℕ := h[cls]?.bind Table.base

def MAXTAGLOOP : ℕ := 2000

/-- The field of `t` as an expression reads it: after `n` metatables it gives up. -/
def Heap.gettable (field : Table → Option ℕ) : ℕ → ℕ → Lua (Option ℕ)
  | 0, _ => .error (.raised "'__index' chain too long; possibly a loop")
  | n + 1, t =>
    match h[t]?.bind field with
    | some v => .ok (some v)
    | none =>
      match (h.getmetatable t).bind fun m => h[m]?.bind Table.index with
      | none => .ok none
      | some t => Heap.gettable field n t

/-! ## The functions of the module -/

/-- `if tmp == cls then return true end` -/
def tryClass (cls tmp : ℕ) : Option Bool := if tmp = cls then some true else none

/-- `class.issubclass`, where `n` rounds are enough. -/
def Heap.issubclass (n : ℕ) (cls1 cls2 : ℕ) : Lua Bool :=
  (search (fun _ => h.gettable Table.base MAXTAGLOOP cls1) (tryClass cls2) n (some cls1)).map
    (·.getD false)

/-- `class.isinstance`, where `n` rounds are enough. -/
def Heap.isinstance (n : ℕ) (obj : Value) (cls : ℕ) : Lua Bool :=
  match obj with
  | .other => .ok false
  | .table obj =>
    (search (fun tmp => .ok (h.getmetatable tmp)) (tryClass cls) n (h.getmetatable obj)).map
      (·.getD false)

/-- `_get_init` -/
def Heap.getInit (n : ℕ) (cls : ℕ) : Lua (Option ℕ) :=
  search (fun cls => .ok (h.baseOf cls)) (fun cls => h[cls]?.bind Table.init) n (some cls)

/-- `_class`, where `base` is a table or none. -/
def Heap.newClass (base : Option ℕ) : ℕ × Heap :=
  let cls := h.length
  (cls, h ++ [{ index := some cls, base := base, metatable := base }])

/-- `cls.new`, where the functions give what `call` says. -/
def Heap.new (n : ℕ) (cls : ℕ) (call : ℕ → Lua Unit) : Lua ℕ × Heap :=
  let obj := h.length
  let h := h ++ [{ metatable := some cls }]
  let ret := do
    let init ← h.getInit n cls
    init.elim (.ok ()) call
    .ok obj
  (ret, h)

/-! ## Programs -/

/-- The position is that of a class. -/
def Heap.IsClass (cls : ℕ) : Prop := h[cls]?.bind Table.index = some cls

instance (cls : ℕ) : Decidable (h.IsClass cls) :=
  inferInstanceAs (Decidable (h[cls]?.bind Table.index = some cls))

inductive Act where
  /-- `class(name, base)` -/
  | class (base : Option ℕ)
  /-- `function cls:_init(...)` -/
  | define (cls init : ℕ)
  /-- `cls.new(...)` -/
  | new (cls : ℕ) (call : ℕ → Lua Unit)

/-- One step of a program that makes classes from others, and objects. -/
def step : Heap → Act → Option Heap
  | h, .class base => if ∀ b ∈ base, h.IsClass b then some (h.newClass base).2 else none
  | h, .define cls init =>
    if h.IsClass cls then some (h.modify cls fun t => { t with init := some init }) else none
  | h, .new cls call => if h.IsClass cls then some (h.new (h.length + 2) cls call).2 else none

/-- `obj` is what `cls.new` has made. -/
def Heap.Made (obj cls : ℕ) : Prop := h[obj]? = some { metatable := some cls }

/-- `d` is `c` or one of its transitive bases. -/
def Heap.Extends (c d : ℕ) : Prop := ReflTransGen (fun c b => h.baseOf c = some b) c d

/-- With rounds enough, the test returns, and what it returns says whether `p` holds. -/
def Answers (test : ℕ → Lua Bool) (p : Prop) : Prop :=
  ∃ n, ∀ m ≥ n, ∃ r, test m = .ok r ∧ (r = true ↔ p)

theorem tryClass_self (cls : ℕ) : tryClass cls cls = some true := if_pos rfl

theorem tryClass_ne {cls tmp : ℕ} (hne : cls ≠ tmp) : tryClass cls tmp = none := if_neg hne.symm

theorem tryClass_some {cls tmp : ℕ} {b : Bool} (hb : tryClass cls tmp = some b) : tmp = cls ∧ b = true := by
  unfold tryClass at hb
  split at hb
  · cases hb
    exact ⟨‹_›, rfl⟩
  · cases hb

/-! ## Hierarchies -/

/-- What a table of the heap is: a class made from another one before it, or an
    object. -/
inductive Heap.Wf (i : ℕ) : Table → Prop
  | class {base init : Option ℕ} : (∀ b ∈ base, b < i ∧ h.IsClass b) →
      Heap.Wf i ⟨some i, base, init, base⟩
  | object {cls : ℕ} : cls < i → h.IsClass cls → Heap.Wf i { metatable := some cls }

def Heap.Hierarchy : Prop := ∀ i t, h[i]? = some t → h.Wf i t

variable {h} {h' : Heap} {i cls c d obj n : ℕ} {t : Table}

theorem Heap.IsClass.lt (hc : h.IsClass cls) : cls < h.length := by
  by_contra hn
  rw [IsClass, List.getElem?_eq_none (Nat.le_of_not_lt hn)] at hc
  cases hc

/-- A table that is added or defined anew is of the same kind as before. -/
theorem Heap.Wf.mono (hw : h.Wf i t) (hc : ∀ cls, h.IsClass cls → h'.IsClass cls) : h'.Wf i t := by
  cases hw with
  | «class» hb => exact .class fun b hb' => ⟨(hb b hb').1, hc b (hb b hb').2⟩
  | object hlt hcls => exact .object hlt (hc _ hcls)

theorem isClass_append (l : List Table) (hc : h.IsClass cls) : Heap.IsClass (h ++ l) cls := by
  rw [Heap.IsClass, List.getElem?_append_left hc.lt]
  exact hc

/-- A new table goes to the end. -/
theorem Heap.Hierarchy.append (hh : h.Hierarchy) (ht : Heap.Wf (h ++ [t]) h.length t) :
    Heap.Hierarchy (h ++ [t]) := by
  intro i t' hi
  rcases Nat.lt_trichotomy i h.length with hlt | rfl | hgt
  · rw [List.getElem?_append_left hlt] at hi
    exact (hh i t' hi).mono fun _ => isClass_append [t]
  · rw [List.getElem?_concat_length] at hi
    cases hi
    exact ht
  · rw [List.getElem?_eq_none (by simp; omega)] at hi
    cases hi

theorem isClass_modify (c f d : ℕ) :
    Heap.IsClass (h.modify c fun t => { t with init := some f }) d ↔ h.IsClass d := by
  unfold Heap.IsClass
  rw [List.getElem?_modify]
  cases h[d]? with
  | none => rfl
  | some t =>
    simp only [Option.bind_some]
    split <;> rfl

theorem Heap.Hierarchy.step {a : Act} (hh : h.Hierarchy) (hs : step h a = some h') : h'.Hierarchy := by
  cases a with
  | «class» base =>
    rw [Class.step] at hs
    split at hs
    · rename_i hb
      cases hs
      exact hh.append (.class fun b hb' => ⟨(hb b hb').lt, isClass_append _ (hb b hb')⟩)
    · cases hs
  | define cls f =>
    rw [Class.step] at hs
    split at hs
    · rename_i hc
      cases hs
      intro i t hi
      rw [List.getElem?_modify, Option.map_eq_map, Option.map_eq_some_iff] at hi
      obtain ⟨t₀, h₀, rfl⟩ := hi
      have hw := (hh i t₀ h₀).mono fun d => (isClass_modify cls f d).2
      split
      · rename_i heq
        subst heq
        cases hw with
        | «class» hb => exact .class hb
        | object _ _ =>
          rw [Heap.IsClass, h₀] at hc
          cases hc
      · exact hw
    · cases hs
  | new cls call =>
    rw [Class.step] at hs
    split at hs
    · rename_i hc
      cases hs
      exact hh.append (.object hc.lt (isClass_append _ hc))
    · cases hs

/-- **Programs make hierarchies.** -/
theorem hierarchy_of_run {as : List Act} (hr : run step [] as = some h) : h.Hierarchy := by
  refine Lib.run_inv (C := fun _ _ => True) (fun s a s' hs _ hstep => hs.step hstep) ?_
    (Lib.Along.of_forall fun _ _ _ => trivial) hr
  intro i t hi
  cases hi

/-! ## The chain of bases -/

section
variable (hh : h.Hierarchy)
include hh

theorem Heap.Hierarchy.isClass (hc : h.IsClass c) :
    ∃ base init, h[c]? = some ⟨some c, base, init, base⟩ ∧ ∀ b ∈ base, b < c ∧ h.IsClass b := by
  obtain ⟨t, ht, hindex⟩ := Option.bind_eq_some_iff.1 hc
  cases hh c t ht with
  | @«class» base init hb => exact ⟨base, init, ht, hb⟩
  | object _ _ => cases hindex

/-- The base of a class is its metatable, and was there before it. -/
theorem Heap.Hierarchy.base (hc : h.IsClass c) :
    h.getmetatable c = h.baseOf c ∧ ∀ b, h.baseOf c = some b → h.IsClass b ∧ b < c := by
  obtain ⟨base, init, ht, hb⟩ := hh.isClass hc
  rw [Heap.getmetatable, Heap.baseOf, ht]
  exact ⟨rfl, fun b hb' => (hb b hb').symm⟩

/-- `cls.__base` finds no base but that of the class itself. -/
theorem Heap.Hierarchy.gettable (hc : h.IsClass c) (n : ℕ) :
    h.gettable Table.base (n + 1) c = .ok (h.baseOf c) := by
  obtain ⟨base, init, ht, hb⟩ := hh.isClass hc
  rw [Heap.gettable, Heap.getmetatable, Heap.baseOf, ht]
  cases base <;> rfl

/-- The metatables of a class are the classes it extends. -/
theorem Heap.Hierarchy.leads_iff (hc : h.IsClass c) :
    ReflTransGen (Leads fun tmp => .ok (h.getmetatable tmp)) c d ↔ h.Extends c d := by
  constructor
  · intro hcd
    suffices h.Extends c d ∧ h.IsClass d from this.1
    induction hcd with
    | refl => exact ⟨.refl, hc⟩
    | tail _ hstep ih =>
      obtain ⟨hext, hb⟩ := ih
      obtain ⟨hmeta, hbase⟩ := hh.base hb
      have hstep := hmeta.symm.trans (Except.ok.inj hstep)
      exact ⟨hext.tail hstep, (hbase _ hstep).1⟩
  · intro hcd
    suffices ReflTransGen (Leads fun tmp => .ok (h.getmetatable tmp)) c d ∧ h.IsClass d from this.1
    induction hcd with
    | refl => exact ⟨.refl, hc⟩
    | tail _ hstep ih =>
      obtain ⟨hleads, hb⟩ := ih
      obtain ⟨hmeta, hbase⟩ := hh.base hb
      exact ⟨hleads.tail (congrArg Except.ok (hmeta.trans hstep)), (hbase _ hstep).1⟩

theorem Heap.Made.isClass (ho : h.Made obj c) : h.IsClass c := by
  cases hh obj _ ho with
  | object _ hc => exact hc

/-! ## The tests -/

/-- **`isinstance` goes through the class of the object and all its bases.** -/
theorem isinstance_answers (ho : h.Made obj c) (d : ℕ) :
    Answers (fun n => h.isinstance n (.table obj) d) (h.Extends c d) := by
  have hc := Heap.Made.isClass hh ho
  refine ⟨c + 2, fun m hm => ?_⟩
  have hmeta : h.getmetatable obj = some c := by
    rw [Heap.getmetatable, ho]
    rfl
  simp only [Heap.isinstance, hmeta]
  have hdown : ∀ a, h.IsClass a → ∃ o, Except.ok (h.getmetatable a) = (Except.ok o : Lua (Option ℕ)) ∧
      ∀ b, o = some b → h.IsClass b ∧ b < a := by
    intro a ha
    obtain ⟨hmeta, hbase⟩ := hh.base ha
    exact ⟨_, rfl, fun b hb => hbase b (hmeta ▸ hb)⟩
  rcases Lib.search_ends (tryClass d) id hdown hc (show c + 1 < m by omega) with
    ⟨b, e, hce, hfound, hs⟩ | ⟨hs, hnone⟩
  · obtain ⟨rfl, rfl⟩ := tryClass_some hfound
    rw [hs]
    exact ⟨true, rfl, iff_of_true rfl ((hh.leads_iff hc).1 hce)⟩
  · rw [hs]
    refine ⟨false, rfl, iff_of_false Bool.false_ne_true fun hext => ?_⟩
    have hd := hnone d ((hh.leads_iff hc).2 hext)
    rw [tryClass_self] at hd
    cases hd

/-- `issubclass` looks no further than the base of the class. -/
theorem issubclass_answers (hc : h.IsClass c) (hd : d = c ∨ h.baseOf c = some d ∨ h.baseOf c = none) :
    Answers (fun n => h.issubclass n c d) (h.Extends c d) := by
  refine ⟨3, fun m hm => ?_⟩
  obtain ⟨m, rfl⟩ : ∃ k, m = k + 3 := ⟨m - 3, by omega⟩
  have hnext : h.gettable Table.base MAXTAGLOOP c = .ok (h.baseOf c) := hh.gettable hc 1999
  simp only [Heap.issubclass]
  by_cases hdc : d = c
  · subst hdc
    rw [Lib.search_found (tryClass_self d)]
    exact ⟨true, rfl, iff_of_true rfl .refl⟩
  · rw [Lib.search_next (fun _ => h.gettable Table.base MAXTAGLOOP c) (tryClass_ne hdc) hnext]
    rcases hd.resolve_left hdc with hb | hb
    · rw [hb, Lib.search_found (tryClass_self d)]
      exact ⟨true, rfl, iff_of_true rfl (.single hb)⟩
    · rw [hb, Lib.search_none]
      refine ⟨false, rfl, iff_of_false Bool.false_ne_true fun hext => ?_⟩
      rcases hext.cases_head with heq | ⟨b, hb', -⟩
      · exact hdc heq.symm
      · rw [hb] at hb'
        cases hb'

/-- **Where the base is another class, it goes on with that base for ever.** -/
theorem issubclass_stuck {b : ℕ} (hc : h.IsClass c) (hb : h.baseOf c = some b) (hdc : d ≠ c)
    (hdb : d ≠ b) (n : ℕ) : h.issubclass n c d = .error .unfinished := by
  have hnext : h.gettable Table.base MAXTAGLOOP c = .ok (some b) := by
    rw [MAXTAGLOOP, hh.gettable hc, hb]
  have hstuck : ∀ tmp, tmp = c ∨ tmp = b → tryClass d tmp = none ∧
      ∃ b', Leads (fun _ => h.gettable Table.base MAXTAGLOOP c) tmp b' ∧ (b' = c ∨ b' = b) := by
    intro tmp htmp
    refine ⟨?_, b, hnext, .inr rfl⟩
    rcases htmp with rfl | rfl
    · exact tryClass_ne hdc
    · exact tryClass_ne hdb
  rw [Heap.issubclass, Lib.search_stuck hstuck (.inl rfl)]
  rfl

end

/-- **The tests are right exactly where `issubclass` has no further base to look at**:
    otherwise it does not end, while `isinstance` is right. -/
theorem issubclass_iff {as : List Act} (hr : run step [] as = some h) (hc : h.IsClass c) :
    (Answers (fun n => h.issubclass n c d) (h.Extends c d) ∧
      ∀ obj, h.Made obj c → Answers (fun n => h.isinstance n (.table obj) d) (h.Extends c d)) ↔
        d = c ∨ h.baseOf c = some d ∨ h.baseOf c = none := by
  have hh := hierarchy_of_run hr
  constructor
  · rintro ⟨⟨n, hn⟩, -⟩
    by_contra hd
    simp only [not_or] at hd
    obtain ⟨b, hb⟩ := Option.ne_none_iff_exists'.1 hd.2.2
    have hdb : d ≠ b := by
      rintro rfl
      exact hd.2.1 hb
    obtain ⟨r, hr, -⟩ := hn n le_rfl
    dsimp only at hr
    rw [issubclass_stuck hh hc hb hd.1 hdb] at hr
    cases hr
  · intro hd
    exact ⟨issubclass_answers hh hc hd, fun obj ho => isinstance_answers hh ho d⟩

/-- Two classes, of which the second is made from the first, another one, and an
    object of the second. -/
def twoAndOne : List Act := [.class none, .class (some 0), .class none, .new 1 fun _ => .ok ()]

theorem issubclass_iff_base : ∃ h, run step [] twoAndOne = some h ∧
    Answers (fun n => h.issubclass n 1 0) (h.Extends 1 0) ∧
      Answers (fun n => h.isinstance n (.table 3) 0) (h.Extends 1 0) := by
  have hrun : run step [] twoAndOne = some _ := rfl
  have hright := (issubclass_iff (c := 1) (d := 0) hrun rfl).2 (.inr (.inl rfl))
  exact ⟨_, hrun, hright.1, hright.2 3 rfl⟩

/-- Whether the second is made from the other one is not answered. -/
theorem issubclass_not_answers : ∃ h, run step [] twoAndOne = some h ∧ h.IsClass 1 ∧ h.IsClass 2 ∧
    ∀ n, h.issubclass n 1 2 = .error .unfinished := by
  have hrun : run step [] twoAndOne = some _ := rfl
  exact ⟨_, hrun, rfl, rfl,
    issubclass_stuck (hierarchy_of_run hrun) (b := 0) rfl rfl (by decide) (by decide)⟩

/-! ## Objects -/

/-- What `cls.new` returns is an object of the class. -/
theorem Heap.new_made {call : ℕ → Lua Unit} (hn : (h.new n cls call).1 = .ok obj) :
    (h.new n cls call).2.Made obj cls := by
  have hobj : h.length = obj := by
    obtain ⟨init, -, hn⟩ := Lib.bind_eq_ok.1 hn
    obtain ⟨-, -, hn⟩ := Lib.bind_eq_ok.1 hn
    exact Except.ok.inj hn
  subst hobj
  exact List.getElem?_concat_length

/-- An object stays one of its class. -/
theorem Heap.Made.step {a : Act} (ho : h.Made obj cls) (hs : step h a = some h') : h'.Made obj cls := by
  have hlt : obj < h.length := (List.getElem?_eq_some_iff.1 ho).1
  have happend : ∀ t, Heap.Made (h ++ [t]) obj cls := fun t => by
    rw [Heap.Made, List.getElem?_append_left hlt]
    exact ho
  cases a with
  | «class» base =>
    rw [Class.step] at hs
    split at hs
    · cases hs
      exact happend _
    · cases hs
  | define c f =>
    rw [Class.step] at hs
    split at hs
    · rename_i hc
      cases hs
      have hne : c ≠ obj := by
        rintro rfl
        rw [Heap.IsClass, ho] at hc
        cases hc
      rw [Heap.Made, List.getElem?_modify, ho]
      exact congrArg some (if_neg hne)
    · cases hs
  | new c call =>
    rw [Class.step] at hs
    split at hs
    · cases hs
      exact happend _
    · cases hs

/-- `_get_init` comes to the last of the bases. -/
theorem Heap.Hierarchy.getInit (hh : h.Hierarchy) (hc : h.IsClass c) (hn : c + 1 < n) :
    ∃ init, h.getInit n c = .ok init := by
  have hdown : ∀ a, h.IsClass a → ∃ o, Except.ok (h.baseOf a) = (Except.ok o : Lua (Option ℕ)) ∧
      ∀ b, o = some b → h.IsClass b ∧ b < a := fun a ha => ⟨_, rfl, (hh.base ha).2⟩
  rcases Lib.search_ends (fun cls => h[cls]?.bind Table.init) id hdown hc hn with
    ⟨f, -, -, -, hs⟩ | ⟨hs, -⟩
  · exact ⟨_, hs⟩
  · exact ⟨_, hs⟩

/-- `cls.new` ends if the functions do that it calls. -/
theorem Heap.Hierarchy.new_ends {call : ℕ → Lua Unit} (hh : h.Hierarchy) (hc : h.IsClass cls)
    (hcall : ∀ init, Lib.Ends (call init)) : Lib.Ends (h.new (h.length + 2) cls call).1 := by
  have hc' := isClass_append [{ metatable := some cls }] hc
  have hlt := hc.lt
  obtain ⟨init, hinit⟩ := (hh.append (.object hc.lt hc')).getInit hc' (show cls + 1 < h.length + 2 by omega)
  have hends : Lib.Ends (init.elim (.ok ()) call) := by
    cases init with
    | none => exact .ok ()
    | some init => exact hcall init
  refine Lib.Ends.bind (hinit ▸ .ok init) fun init' h' => ?_
  rw [hinit] at h'
  cases h'
  exact hends.bind fun _ _ => .ok _

end Levent.Class
