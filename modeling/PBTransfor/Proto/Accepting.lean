import Mathlib.Algebra.Order.BigOperators.Group.List
import Mathlib.Data.List.Perm.Subperm
import PBTransfor.Proto.Handlers

/-!
# Proto — the names an enum field accepts

`HandleMessageEnumType` offers the names its scan finds and stores a line that is one of them.  A
name is missed when it belongs to a negative value, when a value below it has no name, or when
`pb.enum` gives another name for its value; such a line is dropped without a word.

* `run_enum`: the handler ends, whatever the enum, and what it prints, reads and stores.
* `accepts_iff`: it offers all declared names, and stores exactly these, for the enums whose values
  are 0, 1, 2 and so on with one name each.
-/

namespace PBTransfor.Proto

open Library.Fuel

/-- The table with the line under the name of the field, if the line is a declared name. -/
def storeName (e : EnumType) (t : Table) (f : Field) (line : String) : Table :=
  if (e.valueOf line).isSome then t.set (.name f.name) (some (.string line)) else t

section
variable (E : Env) (e : EnumType) (t : Table) (f : Field) (line : String)

/-- `HandleMessageEnumType` ends, and stores the line exactly if it is a declared name. -/
def Stores : Prop := ∀ rest output,
  Settles (fun _ => False) (fun fuel => handleMessageEnumType E fuel e t f)
    ⟨line :: rest, output⟩ fun t' c' => t' = storeName e t f line ∧ c'.input = rest

/-- It does so, and has offered every declared name before. -/
def Accepts : Prop := ∀ rest output,
  Settles (fun _ => False) (fun fuel => handleMessageEnumType E fuel e t f)
    ⟨line :: rest, output⟩ fun t' c' => (t' = storeName e t f line ∧ c'.input = rest) ∧
      ∃ names, (∀ v ∈ e.values, v.1 ∈ names) ∧ c'.output = output ++ enumPrompt f names

end

section
variable {E : Env} {e : EnumType} {t : Table} {f : Field} {line text : String}
  {l names : List String}

/-! ### The prompt -/

theorem length_enumText : (enumText text names).length =
    text.length + (names.map fun s => s.length + 2).sum := by
  induction names generalizing text with
  | nil => rfl
  | cons s names ih =>
      have htwo : "  ".length = 2 := rfl
      rw [enumText, List.foldl_cons, ← enumText, ih, List.map_cons, List.sum_cons,
        String.length_append, String.length_append, htwo, Nat.add_assoc, Nat.add_assoc]
      omega

/-- A prompt that lists `l` lists no further name: it would be longer. -/
theorem subset_of_enumPrompt (hl : l.Nodup) (hsub : l ⊆ names)
    (h : enumPrompt f names = enumPrompt f l) : names ⊆ l := by
  intro s hs
  by_contra hmem
  -- `s :: l` is a part of `names`, and its text is longer than that of `l`
  have hnd : (s :: l).Nodup := List.nodup_cons.mpr ⟨hmem, hl⟩
  obtain ⟨l', hperm, hsub'⟩ := hnd.subperm (List.cons_subset.mpr ⟨hs, hsub⟩)
  have hle := (hsub'.map fun s => s.length + 2).sum_le_sum fun _ _ => Nat.zero_le _
  rw [(hperm.map _).sum_eq, List.map_cons, List.sum_cons] at hle
  have htext := congrArg String.length (List.cons.inj h).1
  simp only [String.length_append, length_enumText] at htext
  omega

/-! ### What is accepted -/

/-- A line is stored as it is to be, unless it is a declared name that is not offered. -/
theorem storeName_eq (h : (e.valueOf line).isSome → e.offers line) :
    (if e.offers line then t.set (.name f.name) (some (.string line)) else t) =
      storeName e t f line := by
  refine if_congr ⟨fun hoff => ?_, h⟩ rfl rfl
  obtain ⟨n, hn⟩ := hoff.mem
  rw [EnumType.valueOf_eq_some.mpr hn]
  rfl

theorem dense_of_accepts (hpb : E.pb = true) (h : Accepts E e t f line) : e.Dense := by
  obtain ⟨l, hl⟩ := e.exists_scanned (i := 0) rfl
  obtain ⟨-, names, hnames, hout⟩ := (settles_enum_iff hpb hl).mp (h [] [])
  -- the scan finds declared names only, so the names of the prompt are those it finds
  have hsub : l ⊆ names := by
    intro s hs
    obtain ⟨n, hn⟩ := (hl.mem_iff_offers.mp hs).mem
    exact hnames _ hn
  have hall := subset_of_enumPrompt hl.nodup hsub (List.append_cancel_left hout).symm
  exact EnumType.dense_iff.mpr fun v hv => hl.mem_iff_offers.mp (hall (hnames v hv))

theorem accepts_of_dense (hpb : E.pb = true) (h : e.Dense) : Accepts E e t f line := by
  intro rest output
  obtain ⟨l, hl⟩ := e.exists_scanned (i := 0) rfl
  have hoff := EnumType.dense_iff.mp h
  refine (settles_enum_iff hpb hl).mpr ⟨⟨storeName_eq fun hs => ?_, rfl⟩, l, ?_, rfl⟩
  · obtain ⟨n, hn⟩ := Option.isSome_iff_exists.mp hs
    exact hoff _ (EnumType.valueOf_eq_some.mp hn)
  · exact fun v hv => hl.mem_iff_offers.mpr (hoff v hv)

end

/-- **When exactly the declared names are accepted**: when the values are 0, 1, 2 and so on, with
one name each.  A single line is dealt with as it is to be unless it is a declared name that is
not offered. -/
theorem accepts_iff (strtod : String → Option LuaFloat) (e : EnumType) (f : Field) :
    (∀ t line, Accepts ⟨true, strtod⟩ e t f line ↔ e.Dense) ∧
    ∀ line, (∀ t, Stores ⟨true, strtod⟩ e t f line) ↔
      ((e.valueOf line).isSome → e.offers line) := by
  refine ⟨fun t line => ⟨dense_of_accepts rfl, accepts_of_dense rfl⟩, fun line => ?_⟩
  obtain ⟨l, hl⟩ := e.exists_scanned (i := 0) rfl
  constructor
  · intro h hs
    -- the line is a declared name that is not offered: the table stays as it was
    by_contra hoff
    have hstored : (if e.offers line then _ else _) = _ :=
      ((settles_enum_iff rfl hl).mp (h .empty [] [])).1
    rw [if_neg hoff, storeName, if_pos hs] at hstored
    have hkey := congrFun hstored (.name f.name)
    rw [Table.set_self] at hkey
    cases hkey
  · exact fun h t rest output => (settles_enum_iff rfl hl).mpr ⟨storeName_eq h, rfl⟩

/-- `enum Level { LOW = 0; HIGH = 2; }`. -/
def levelType : EnumType where
  values := [("LOW", 0), ("HIGH", 2)]
  nameOf n := if n = 0 then some "LOW" else if n = 2 then some "HIGH" else none
  names_nodup := by decide
  int32 := by decide
  nameOf_mem := by
    intro n s h
    split_ifs at h with h₀ h₁ <;> cases h <;> simp [*]
  nameOf_isSome := by decide

/-- A declared name behind a gap is neither offered nor stored. -/
theorem high_dropped : (levelType.valueOf "HIGH").isSome ∧
    (handleMessageEnumType ⟨true, fun _ => none⟩ 2 levelType .empty
        ⟨"level", 1, ".Level", .optional⟩).run ⟨["HIGH"], []⟩ =
      .ok .empty ⟨[], ["Choose Enum Value :Enum Type->.Level    Enum Value->LOW  ",
        "Name    :=    level", "Index   :    1"]⟩ ∧
    ¬ Accepts ⟨true, fun _ => none⟩ levelType .empty ⟨"level", 1, ".Level", .optional⟩ "HIGH" := by
  refine ⟨by decide, rfl, fun h => ?_⟩
  obtain ⟨v, hv, h₁⟩ := (dense_of_accepts rfl h).filled ("HIGH", 2) (by decide) 1 (by decide)
  revert v
  decide

end PBTransfor.Proto
