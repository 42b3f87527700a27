/-
  `lua-bson.c`: `bson.encode_order`, for commands whose fields must be in order.

  Every argument at an odd place is a key for the one that follows it.
-/
import Levent.Bson.Normal

namespace Levent.Bson

open Lib

variable (tostring : UInt64 → Bytes)

/-- `lua_tolstring` of an argument -/
def LuaValue.tolstring : LuaValue → Option Bytes
  | .int n => (LuaKey.int n.toInt).tolstring tostring
  | .real bits => some (tostring bits)
  | .str s => some s
  | _ => none

/-- The key that the loop of `pack_ordered_dict` takes. -/
def orderedKey (k : LuaValue) (i : ℕ) : Write Bytes :=
  match k.tolstring tostring with
  | some key => .ok key
  | none => .error (.error s!"Argument {i + 1} need a string")

/-- The loop of `pack_ordered_dict`. -/
def packOrdered (b : Buf) (depth i : ℕ) : List LuaValue → Write Buf
  | k :: v :: args => do
    let key ← orderedKey tostring k i
    let b ← v.append tostring b key depth
    packOrdered b depth (i + 2) args
  | _ => pure b

/-- `pack_ordered_dict` -/
def packOrderedDict (args : List LuaValue) (b : Buf) (depth : ℕ) : Write Buf := do
  let (length, b) ← reserveLength b
  let b ← packOrdered tostring b depth 0 args
  let b ← writeByte b 0
  pure (writeLength b ((b.bytes.length : ℤ) - length) length)

/-- `lencode_order` -/
def lencodeOrder (args : List LuaValue) : Write Bytes := do
  if args.length % 2 ≠ 0 then .error (.error "Invalid ordered dict")
  let b ← packOrderedDict tostring args .create 0
  pure b.bytes

/-! ## The elements -/

/-- The keys and the values among the arguments. -/
def argFields : List LuaValue → Option (List (Bytes × LuaValue))
  | k :: v :: args => do
    let key ← k.tolstring tostring
    let kvs ← argFields args
    pure ((key, v) :: kvs)
  | _ => some []

/-- The elements with these keys and values. -/
def orderedBody : List (Bytes × LuaValue) → Bytes
  | [] => []
  | (key, v) :: kvs => v.type :: key ++ 0 :: v.payload tostring ++ orderedBody kvs

/-- No key has a NUL in it, and the values are plain. -/
def OrderedPlain : List (Bytes × LuaValue) → Prop
  | [] => True
  | (key, v) :: kvs => 0 ∉ key ∧ v.Plain tostring (orderedBody tostring kvs) ∧ OrderedPlain kvs

variable {tostring} {mem : Mem} {bs : Bytes} {fuel : ℕ}

theorem packOrdered_ok : ∀ {args : List LuaValue} {b b' : Buf} {depth i : ℕ}, args.length % 2 = 0 →
    packOrdered tostring b depth i args = .ok b' → ∃ kvs, argFields tostring args = some kvs ∧
      (∀ kv ∈ kvs, kv.2.Accepted tostring) ∧ b'.bytes = b.bytes ++ orderedBody tostring kvs
  | [], _, _, _, _, _, h => by
    cases h
    exact ⟨[], rfl, nofun, (List.append_nil _).symm⟩
  | [_], _, _, _, _, hlen, _ => by cases hlen
  | k :: v :: args, b, b', depth, i, hlen, h => by
    rw [packOrdered] at h
    obtain ⟨key, hkey, h⟩ := Lib.bind_eq_ok.1 h
    obtain ⟨b1, h1, h⟩ := Lib.bind_eq_ok.1 h
    have hk : k.tolstring tostring = some key := by
      unfold orderedKey at hkey
      split at hkey
      · rename_i heq
        rw [heq, Except.ok.inj hkey]
      · cases hkey
    obtain ⟨hv, hb1⟩ := LuaValue.append_payload v h1
    obtain ⟨kvs, hkvs, hacc, hb⟩ := packOrdered_ok (by rw [List.length_cons, List.length_cons] at hlen; omega) h
    refine ⟨(key, v) :: kvs, ?_, List.forall_mem_cons.2 ⟨hv, hacc⟩, ?_⟩
    · rw [argFields, hk, hkvs]
      rfl
    · rw [hb, hb1, orderedBody]
      simp

theorem lencodeOrder_ok {args : List LuaValue} (h : lencodeOrder tostring args = .ok bs) :
    ∃ kvs, argFields tostring args = some kvs ∧ (∀ kv ∈ kvs, kv.2.Accepted tostring) ∧
      bs = document (orderedBody tostring kvs) ∧ (bs.length : ℤ) ≤ INT_MAX := by
  unfold lencodeOrder at h
  split at h
  · cases h
  · rename_i hlen
    obtain ⟨b, hb, h⟩ := Lib.bind_eq_ok.1 h
    cases h
    -- the depth is that of a table that is not within another
    have hdict : packDict (fun b => packOrdered tostring b 0 0 args) .create 0 = .ok b := hb
    obtain ⟨_, ⟨kvs, hkvs, hacc, rfl⟩, hbytes⟩ := packDict_ok (P := fun c => ∃ kvs,
      argFields tostring args = some kvs ∧ (∀ kv ∈ kvs, kv.2.Accepted tostring) ∧ c = orderedBody tostring kvs)
      (fun _ _ h2 => by
        obtain ⟨kvs, hkvs, hacc, hb⟩ := packOrdered_ok (not_not.1 hlen) h2
        exact ⟨_, ⟨kvs, hkvs, hacc, rfl⟩, hb⟩) hdict
    have h1 := b.fits
    have h2 := b.int
    exact ⟨kvs, hkvs, hacc, hbytes, by omega⟩

/-- The elements are there in order, with what the values are read back as. -/
theorem elements_of_ordered : ∀ {kvs : List (Bytes × LuaValue)} {fuel : ℕ} {t : Reader},
    (∀ kv ∈ kvs, kv.2.Accepted tostring) → OrderedPlain tostring kvs → t.At mem (orderedBody tostring kvs) →
    t.size < fuel → ∃ es, Elements mem fuel t es ∧
      es.map (fun e => (e.key, some e.value)) = kvs.map fun kv => (kv.1, kv.2.back tostring)
  | [], fuel, t, _, _, h, hf => by
    obtain ⟨fuel, rfl⟩ := h.fuel_succ hf
    exact ⟨[], .nil h.size, rfl⟩
  | (key, v) :: kvs, fuel, t, ha, hp, h, hf => by
    obtain ⟨fuel, rfl⟩ := h.fuel_succ hf
    rw [List.forall_mem_cons] at ha
    obtain ⟨hz, hpv, hpl⟩ := hp
    push_cast at hf
    obtain ⟨hty, hkey, hle, hat⟩ := Reader.At.element h
    have hint := h.int
    have hsize : (t.drop (key.length + 2)).size ≤ fuel := by
      rw [Reader.drop_size]
      omega
    obtain ⟨w, hw, hv⟩ := LuaValue.unpack_back v ha.1 hpv hat hsize
    obtain ⟨m, hm, hdrop⟩ := (reads_iff (fun _ _ _ => elemsOf_size) (by rw [Reader.drop_size]; omega)
      hat.int).1 hv
    have hrest : ((t.drop (key.length + 2)).drop (v.payload tostring).length).size < fuel := by
      rw [Reader.drop_size, Reader.drop_size]
      omega
    obtain ⟨es, hes, hmap⟩ := elements_of_ordered ha.2 hpl hat.drop hrest
    rw [hdrop] at hes
    refine ⟨⟨v.type, key, t.ptr + (key.length + 2), m, w⟩ :: es, .cons ⟨hty, hz, hkey, hle, rfl⟩ hm hes, ?_⟩
    rw [List.map_cons, List.map_cons, hmap, hw]

/-- **`bson.encode_order` keeps the order of its arguments**: the elements of the document are the
    keys and the values, one after another, and the table that is decoded has for each key the
    value of the last one. -/
theorem lencodeOrder_back {args : List LuaValue} (he : lencodeOrder tostring args = .ok bs)
    (hm : Holds mem 0 bs) (hf : bs.length ≤ fuel)
    (hp : ∀ kvs, argFields tostring args = some kvs → OrderedPlain tostring kvs) :
    ∃ kvs es, argFields tostring args = some kvs ∧ Document mem fuel bs.length es ∧
      es.map (fun e => (e.key, some e.value)) = kvs.map (fun kv => (kv.1, kv.2.back tostring)) ∧
      (ldecode mem fuel).result = .ok (.table (valuesOf es .nil)) := by
  obtain ⟨kvs, hkvs, ha, rfl, hint⟩ := lencodeOrder_ok he
  obtain ⟨hn, hat⟩ := document_block hm hint
  have hlen := document_length (orderedBody tostring kvs)
  have hinner := document_at hat
  have hsize : (⟨0 + 4, (orderedBody tostring kvs).length⟩ : Reader).size < fuel := by
    dsimp only
    omega
  obtain ⟨es, hes, hmap⟩ := elements_of_ordered ha (hp kvs hkvs) hinner hsize
  have hd : Document mem fuel (document (orderedBody tostring kvs)).length es := by
    refine ⟨hn, by omega, ?_, ?_⟩
    · have hend := document_end hat
      rw [zero_add] at hend
      rw [hlen]
      exact_mod_cast hend
    · rw [hlen]
      push_cast
      rw [add_sub_cancel_right]
      exact hes
  exact ⟨kvs, es, hkvs, hd, hmap, ldecode_iff.2 ⟨_, es, hd, rfl⟩⟩

/-- `bson.encode_order("b", 1, "a", "x")` -/
theorem lencodeOrder_back_two :
    ∃ kvs es, argFields (fun _ => []) [.str [98], .int 1, .str [97], .str [120]] = some kvs ∧
      Document (block [21, 0, 0, 0, 16, 98, 0, 1, 0, 0, 0, 2, 97, 0, 2, 0, 0, 0, 120, 0, 0]) 21 21 es ∧
      es.map (fun e => (e.key, some e.value)) = kvs.map (fun kv => (kv.1, kv.2.back fun _ => [])) ∧
      (ldecode (block [21, 0, 0, 0, 16, 98, 0, 1, 0, 0, 0, 2, 97, 0, 2, 0, 0, 0, 120, 0, 0]) 21).result =
        .ok (.table (valuesOf es .nil)) := by
  have he : lencodeOrder (fun _ => []) [.str [98], .int 1, .str [97], .str [120]] =
      .ok [21, 0, 0, 0, 16, 98, 0, 1, 0, 0, 0, 2, 97, 0, 2, 0, 0, 0, 120, 0, 0] := by decide +kernel
  refine lencodeOrder_back he (holds_block _) le_rfl fun kvs hkvs => ?_
  cases hkvs
  exact ⟨by decide, trivial, by decide, trivial, trivial⟩

end Levent.Bson
