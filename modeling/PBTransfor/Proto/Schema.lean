import Mathlib.Data.List.Defs
import PBTransfor.Proto.Lua

/-!
# Proto — the loaded schema

What lua-protobuf answers of a schema: `pb.types`, `pb.fields`, `pb.type` and `pb.enum`.  Its own
code is not in the repository; this is what the builder relies on.

A schema is a finite list of types.  A field whose type is not in it has a base type.
-/

namespace PBTransfor.Proto

/-- The option `pb.fields` gives with a field.  A repeated field of numbers is `packed` in
proto3. -/
inductive FieldOption where
  | optional
  | repeated
  | packed
  deriving DecidableEq, Repr

/-- The option as the string it is. -/
def FieldOption.text : FieldOption → String
  | .optional => "optional"
  | .repeated => "repeated"
  | .packed => "packed"

/-- `name, number, type, value, option`; the default value is not read. -/
structure Field where
  name : String
  number : Nat
  type : String
  option : FieldOption
  deriving DecidableEq, Repr

/-- An enum: its names and values.  With aliases a value has several names, of which `pb.enum`
gives one, `nameOf`. -/
structure EnumType where
  values : List (String × Int)
  nameOf : Int → Option String
  names_nodup : (values.map Prod.fst).Nodup
  int32 : ∀ v ∈ values, -2 ^ 31 ≤ v.2 ∧ v.2 < 2 ^ 31
  nameOf_mem : ∀ n s, nameOf n = some s → (s, n) ∈ values
  nameOf_isSome : ∀ v ∈ values, (nameOf v.2).isSome

/-- `pb.enum(E, s)`, for a string: the value of the name. -/
def EnumType.valueOf (e : EnumType) (s : String) : Option Int := e.values.lookup s

/-- A message: its fields, no two of one name. -/
structure MessageType where
  fields : List Field
  names_nodup : (fields.map Field.name).Nodup

/-- What `pb.type` tells of a type. -/
inductive TypeDef where
  | message (m : MessageType)
  | enum (e : EnumType)

/-- The fields of a message. -/
def TypeDef.fields : TypeDef → List Field
  | .message m => m.fields
  | .enum _ => []

def TypeDef.isMessage : TypeDef → Bool
  | .message _ => true
  | .enum _ => false

/-- The types by their names.  Numbers and enums can be packed, messages cannot. -/
structure Schema where
  types : List (String × TypeDef)
  packed_scalar : ∀ p ∈ types, ∀ f ∈ p.2.fields, f.option = .packed →
    ∀ d ∈ types.lookup f.type, d.isMessage = false

namespace EnumType
variable {e : EnumType}

/-- Behind the largest `int32` no value has a name. -/
theorem nameOf_large {n : Int} (h : 2 ^ 31 ≤ n) : e.nameOf n = none := by
  cases hn : e.nameOf n with
  | none => rfl
  | some s => exact absurd (e.int32 _ (e.nameOf_mem n s hn)).2 (not_lt.mpr h)

/-- A name has the one value it is declared with. -/
theorem valueOf_eq_some {s : String} {n : Int} : e.valueOf s = some n ↔ (s, n) ∈ e.values := by
  rw [valueOf, List.lookup_eq_some_iff]
  constructor
  · rintro ⟨l₁, l₂, hl, -⟩
    rw [hl]
    exact List.mem_append_right l₁ List.mem_cons_self
  · intro h
    obtain ⟨l₁, l₂, hl⟩ := List.append_of_mem h
    refine ⟨l₁, l₂, hl, fun p hp => ?_⟩
    have hnd := e.names_nodup
    rw [hl, List.map_append, List.map_cons, List.nodup_append] at hnd
    have hne : p.1 ≠ s := hnd.2.2 p.1 (List.mem_map_of_mem hp) s List.mem_cons_self
    simpa using hne.symm

/-- The names a scan over the values from 0 on finds: the name `pb.enum` gives for a value, when
every value from 0 up to it has one. -/
def offers (e : EnumType) (s : String) : Prop :=
  ∃ n ∈ e.valueOf s, 0 ≤ n ∧ e.nameOf n = some s ∧ ∀ j < n.toNat, (e.nameOf (j : Nat)).isSome

instance (s : String) : Decidable (e.offers s) := by
  unfold offers
  infer_instance

theorem valueOf_nameOf {s : String} {n : Int} (h : e.nameOf n = some s) :
    e.valueOf s = some n := valueOf_eq_some.mpr (e.nameOf_mem n s h)

theorem offers_iff {s : String} :
    e.offers s ↔ ∃ n : Nat, e.nameOf n = some s ∧ ∀ j < n, (e.nameOf (j : Nat)).isSome := by
  constructor
  · rintro ⟨n, -, hn, hs, hj⟩
    rw [← Int.toNat_of_nonneg hn] at hs
    exact ⟨n.toNat, hs, hj⟩
  · rintro ⟨n, hs, hj⟩
    exact ⟨n, valueOf_nameOf hs, Int.natCast_nonneg n, hs, hj⟩

end EnumType

namespace Schema
variable (S : Schema)

/-- `type_table[type]`, and what `pb.type(type)` says of it. -/
def find (type : String) : Option TypeDef := S.types.lookup type

/-- `pb.fields(type)`. -/
def fields (type : String) : List Field :=
  match S.find type with
  | some (.message m) => m.fields
  | _ => []

/-- `T` is a message type. -/
def IsMessage (T : String) : Prop := ∃ m, S.find T = some (.message m)

instance (T : String) : Decidable (S.IsMessage T) :=
  match h : S.find T with
  | some (.message m) => .isTrue ⟨m, h⟩
  | some (.enum e) => .isFalse (by rintro ⟨m, hm⟩; rw [h] at hm; cases hm)
  | none => .isFalse (by rintro ⟨m, hm⟩; rw [h] at hm; cases hm)

variable {S} {T : String}

theorem fields_nodup : ((S.fields T).map Field.name).Nodup := by
  rw [fields]
  split
  · next m _ => exact m.names_nodup
  · exact List.nodup_nil

theorem IsMessage.ne_enum (h : S.IsMessage T) (e : EnumType) : S.find T ≠ some (.enum e) := by
  obtain ⟨m, hm⟩ := h
  rw [hm]
  simp

theorem mem_of_find {d : TypeDef} (h : S.find T = some d) : (T, d) ∈ S.types := by
  obtain ⟨l₁, l₂, hl, -⟩ := List.lookup_eq_some_iff.mp h
  rw [hl]
  exact List.mem_append_right l₁ List.mem_cons_self

theorem not_message_of_packed {f : Field} (hf : f ∈ S.fields T) (ho : f.option = .packed) :
    ¬ S.IsMessage f.type := by
  rintro ⟨m, hm⟩
  rw [fields] at hf
  split at hf
  · next m' hT => cases S.packed_scalar _ (mem_of_find hT) f hf ho _ hm
  · cases hf

/-- Only a type of the schema has fields. -/
theorem mem_types {f : Field} (h : f ∈ S.fields T) : T ∈ S.types.map Prod.fst := by
  by_contra hmem
  have hfind : S.find T = none := by
    rw [Schema.find, List.lookup_eq_none_iff]
    rintro ⟨name, d⟩ hp
    simp only [bne_iff_ne, ne_eq]
    rintro rfl
    exact hmem (List.mem_map_of_mem hp)
  rw [Schema.fields, hfind] at h
  cases h

end Schema

end PBTransfor.Proto
