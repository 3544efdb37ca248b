import Mathlib.Logic.Function.Basic
import PBTransfor.Head.Lua

/-!
# Head — proto:pack

`GMsgHead.lua`: a header is a table with a field for each key of `proto.MsgHead`, some of them
absent, and `proto:pack` makes four bytes of it.  Its first loop visits the keys in whatever
order `pairs` gives; `fillAbsent_apply` says what it leaves, which does not depend on the order.
-/

namespace PBTransfor.Head

open Library

/-- The keys of `proto.MsgHead`. -/
inductive Key where
  | length
  | typeFlag
  | controlFlag
  | magicFlag
  | reflectFlag
  | reserveFlag
  | extendFlag
  deriving DecidableEq, Repr

/-- `proto.MsgHead`: the keys, each with its number of bits. -/
def msgHead : List (Key × Nat) :=
  [(.length, 24), (.typeFlag, 1), (.controlFlag, 2), (.magicFlag, 1), (.reflectFlag, 1),
    (.reserveFlag, 2), (.extendFlag, 1)]

/-- A table of integers, `nil` where a key is absent. -/
abbrev Table := Key → Option LuaInteger

/-- `{ length = n }`. -/
def Table.ofLength (n : LuaInteger) : Table
  | .length => some n
  | _ => none

/-- The loop over `pairs(self.MsgHead)`: absent keys get `0`. -/
def fillAbsent (keys : List Key) (msgHeadTable : Table) : Table :=
  keys.foldl (fun t key => Function.update t key (some (match t key with
    | none => 0
    | some n => n))) msgHeadTable

/-- `MsgHeadTable[key]` where a number is needed. -/
def Table.number (t : Table) (key : Key) : Except LuaError LuaInteger :=
  match t key with
  | some n => .ok n
  | none => .error (.runtime "attempt to use a nil value")

/-- `proto:pack`. -/
def pack (msgHeadTable : Table) : Except LuaError LuaString := do
  let t := fillAbsent (msgHead.map Prod.fst) msgHeadTable
  let headStr ← packUint 3 (← t.number .length)
  let value := (← t.number .typeFlag) <<< 7
  let value := value ||| ((← t.number .controlFlag) <<< 6 >>> 1)
  let value := value ||| ((← t.number .magicFlag) <<< 7 >>> 3)
  let value := value ||| ((← t.number .reflectFlag) <<< 7 >>> 4)
  let value := value ||| ((← t.number .reserveFlag) <<< 6 >>> 5)
  let value := value ||| ((← t.number .extendFlag) <<< 7 >>> 7)
  headStr.concat (← packUint 1 value)

/-! ### What the loop leaves -/

/-- The field `key`, read as `0` when it is absent. -/
def Table.value (t : Table) (key : Key) : LuaInteger := (t key).getD 0

theorem fillAbsent_apply (keys : List Key) (t : Table) (key : Key) :
    fillAbsent keys t key = if key ∈ keys then some (t.value key) else t key := by
  induction keys generalizing t with
  | nil => rfl
  | cons k ks ih =>
      have hk : fillAbsent (k :: ks) t = fillAbsent ks (Function.update t k (some (match t k with
        | none => 0
        | some n => n))) := rfl
      rw [hk, ih]
      by_cases h : key = k
      · subst h
        cases ht : t key <;> simp [Table.value, ht]
      · simp [Table.value, h]

/-- Every key of a header has a number once the loop is over. -/
theorem number_fillAbsent (t : Table) (key : Key) :
    (fillAbsent (msgHead.map Prod.fst) t).number key = .ok (t.value key) := by
  have hmem : key ∈ msgHead.map Prod.fst := by cases key <;> decide
  rw [Table.number, fillAbsent_apply, if_pos hmem]

/-- The byte of the flags, before it is cut to eight bits. -/
def flagsOf (t : Table) : LuaInteger :=
  t.value .typeFlag <<< 7 ||| t.value .controlFlag <<< 6 >>> 1 |||
    t.value .magicFlag <<< 7 >>> 3 ||| t.value .reflectFlag <<< 7 >>> 4 |||
    t.value .reserveFlag <<< 6 >>> 5 ||| t.value .extendFlag <<< 7 >>> 7

/-- **What proto:pack comes to.** -/
theorem pack_eq (t : Table) : pack t = (packUint 3 (t.value .length)).bind fun headStr =>
    (packUint 1 (flagsOf t)).bind headStr.concat := by
  simp only [pack, number_fillAbsent, flagsOf]
  rfl

/-- A length that fits, and flags that fit, are packed. -/
theorem pack_ok {t : Table} (hlen : (t.value .length).toNat < 256 ^ 3)
    (hflags : (flagsOf t).toNat < 256 ^ 1) :
    ∃ s, pack t = .ok s ∧
      s.bytes = bytesLE 3 (t.value .length).toNat ++ bytesLE 1 (flagsOf t).toNat := by
  obtain ⟨s₁, h₁, hb₁⟩ := packUint_ok (by decide) hlen
  obtain ⟨s₂, h₂, hb₂⟩ := packUint_ok (by decide) hflags
  have hlt : (s₁.bytes ++ s₂.bytes).length < maxSize := by
    rw [hb₁, hb₂, List.length_append, length_bytesLE, length_bytesLE]
    decide
  obtain ⟨s, hs, hb⟩ := LuaString.concat_ok hlt
  refine ⟨s, ?_, by rw [hb, hb₁, hb₂]⟩
  rw [pack_eq, h₁, h₂]
  exact hs

/-- A length that does not fit raises. -/
theorem pack_error {t : Table} (hlen : 256 ^ 3 ≤ (t.value .length).toNat) :
    pack t = .error (.argument 2 "unsigned overflow") := by
  rw [pack_eq, packUint_error (by decide) (by decide) hlen]
  rfl

end PBTransfor.Head
