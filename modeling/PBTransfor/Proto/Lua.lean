import Mathlib.Logic.Function.Basic
import PBTransfor.Head.Lua

/-!
# Proto — the Lua of the table builder

What `transpb.lua` uses of Lua 5.3 to build a message table: numbers and `tonumber`, tables, the
numeric `for`, and the console.  Names and lines are `String`s, one character a byte.

The steps that Lua does not check before it runs them raise here where Lua does: a comparison
with `nil`, a `for` whose limit is `nil`, an assignment into what is not a table, a call of
`nil`, an index of a global that is `nil`.

Memory and the stack have no bound.  A loop goes round as often as its fuel says and then halts
with `Halt.spent`.
-/

namespace PBTransfor.Proto

open Head (LuaInteger)

/-- A Lua float that `strtod` gives: never a nan, which `tonumber` rejects. -/
inductive LuaFloat where
  | finite (q : Rat)
  | infinite (negative : Bool)
  deriving DecidableEq

inductive Number where
  | integer (n : LuaInteger)
  | float (x : LuaFloat)
  deriving DecidableEq

/-- `LUA_MAXINTEGER`. -/
def maxInteger : Int := 2 ^ 63 - 1

/-- `LUA_MININTEGER`. -/
def minInteger : Int := -2 ^ 63

/-- What the builder is run in.  `pb` says whether the global `pb` is the lua-protobuf module, or
`nil`; `strtod` reads the numerals that are not integers. -/
structure Env where
  pb : Bool
  strtod : String → Option LuaFloat

/-! ### tonumber -/

/-- `lisspace`. -/
def isSpace (c : Char) : Bool := c = ' ' || ('\t' ≤ c && c ≤ '\r')

/-- `luaO_hexavalue`, of a hexadecimal digit. -/
def hexavalue (c : Char) : Option Nat :=
  if c.isDigit then some (c.toNat - '0'.toNat)
  else if 'a' ≤ c && c ≤ 'f' then some (c.toNat - 'a'.toNat + 10)
  else if 'A' ≤ c && c ≤ 'F' then some (c.toNat - 'A'.toNat + 10)
  else none

/-- A decimal digit. -/
def digitValue (c : Char) : Option Nat :=
  if c.isDigit then some (c.toNat - '0'.toNat) else none

/-- The digits at the front, read in `base` onto `a`, and what is behind them. -/
def readDigits (base : Nat) (value : Char → Option Nat) :
    LuaInteger → List Char → LuaInteger × List Char
  | a, [] => (a, [])
  | a, c :: s =>
      match value c with
      | some d => readDigits base value (a * BitVec.ofNat 64 base + BitVec.ofNat 64 d) s
      | none => (a, c :: s)

/-- `isneg`: whether there is a `-`, and what is behind the sign. -/
def isneg : List Char → Bool × List Char
  | '-' :: s => (true, s)
  | '+' :: s => (false, s)
  | s => (false, s)

/-- The digits of a numeral, hexadecimal behind `0x`: where they start, what they say and what is
behind them. -/
def readNumeral : List Char → List Char × LuaInteger × List Char
  | '0' :: 'x' :: s => (s, readDigits 16 hexavalue 0 s)
  | '0' :: 'X' :: s => (s, readDigits 16 hexavalue 0 s)
  | s => (s, readDigits 10 digitValue 0 s)

/-- `l_str2int`: spaces, a sign, digits, spaces.  What does not fit in an integer wraps. -/
def str2int (s : String) : Option LuaInteger :=
  let (neg, s) := isneg (s.toList.dropWhile isSpace)
  let (digits, a, rest) := readNumeral s
  -- `empty`: no digit was read
  if digits.length = rest.length ∨ ¬ rest.all isSpace then none
  else some (if neg then -a else a)

/-- `l_str2d`: what has an `n` in it, as `inf` and `nan`, is no numeral. -/
def str2d (E : Env) (s : String) : Option LuaFloat :=
  if s.toList.any fun c => c = 'n' || c = 'N' then none else E.strtod s

/-- `tonumber(v)`, of a string or `nil`. -/
def tonumber (E : Env) : Option String → Option Number
  | some s => ((str2int s).map .integer).or ((str2d E s).map .float)
  | none => none

/-- `tostring(v)`, of a string or `nil`. -/
def tostring : Option String → String
  | some s => s
  | none => "nil"

/-! ### Tables -/

inductive Key where
  | name (s : String)
  | index (i : Int)
  deriving DecidableEq

inductive Value where
  | boolean (b : Bool)
  | number (n : Number)
  | string (s : String)
  | table (t : Key → Option Value)

/-- A table; a key that is not in it gives `nil`. -/
abbrev Table := Key → Option Value

/-- `{}`. -/
def Table.empty : Table := fun _ => none

/-- `t[k] = v`, for a `v` that may be `nil`. -/
def Table.set (t : Table) (k : Key) (v : Option Value) : Table := Function.update t k v

namespace Table
variable {t : Table} {k k' : Key} {v w : Option Value}

@[simp] theorem set_self : t.set k v k = v := by rw [set, Function.update_self]

theorem set_other (h : k' ≠ k) : t.set k v k' = t k' := by rw [set, Function.update_of_ne h]

@[simp] theorem set_set : (t.set k v).set k w = t.set k w := by
  rw [set, set, set, Function.update_idem]

end Table

/-- `luaT_typenames_`. -/
def typeName : Option Value → String
  | none => "nil"
  | some (.boolean _) => "boolean"
  | some (.number _) => "number"
  | some (.string _) => "string"
  | some (.table _) => "table"

/-! ### The console -/

/-- Standard input, a line each, and what has been printed. -/
structure Console where
  input : List String
  output : List String := []
  deriving DecidableEq

/-- Why a call does not return. -/
inductive Halt where
  /-- A Lua error. -/
  | raised (msg : String)
  /-- Out of fuel. -/
  | spent
  deriving DecidableEq

abbrev Method := EStateM Halt Console

/-- `luaG_runerror`. -/
def raise {α : Type} (msg : String) : Method α := throw (.raised msg)

/-- `print(s)`. -/
def print (s : String) : Method Unit := modify fun c => { c with output := c.output ++ [s] }

/-- `io.read()`: the next line, `nil` at the end. -/
def ioRead : Method (Option String) := do
  let c ← get
  set { c with input := c.input.tail }
  return c.input.head?

@[simp] theorem run_print (s : String) (c : Console) :
    (print s).run c = .ok () { c with output := c.output ++ [s] } := rfl

@[simp] theorem run_ioRead (c : Console) :
    ioRead.run c = .ok c.input.head? { c with input := c.input.tail } := rfl

/-! ### Operators -/

/-- `num > 1`. -/
def exceedsOne : Option Number → Method Bool
  | some (.integer n) => return decide (1 < n.toInt)
  | some (.float (.finite q)) => return decide (1 < q)
  | some (.float (.infinite negative)) => return !negative
  | none => raise "attempt to compare number with nil"

/-- `t[field][i] = v`. -/
def setIndex (t : Table) (field : String) (i : Int) (v : Option Value) : Method Table :=
  match t (.name field) with
  | some (.table u) => return t.set (.name field) (some (.table (Table.set u (.index i) v)))
  | w => raise ("attempt to index a " ++ typeName w ++ " value (field '?')")

/-! ### The numeric for -/

/-- `forlimit`, for a positive step: the limit as an integer, and `stopnow`. -/
def forlimit : Number → Int × Bool
  | .integer n => (n.toInt, false)
  | .float (.finite q) =>
      if minInteger ≤ q.floor ∧ q.floor ≤ maxInteger then (q.floor, false)
      else if 0 < q then (maxInteger, false)
      else (minInteger, true)
  | .float (.infinite false) => (maxInteger, false)
  | .float (.infinite true) => (minInteger, true)

section
variable {α : Type}

/-- `OP_FORLOOP`, from the index `i` on; the index wraps. -/
def forLoop (limit : Int) (body : Int → α → Method α) : Nat → Int → α → Method α
  | 0, _, _ => throw .spent
  | fuel + 1, i, a =>
      if i ≤ limit then do
        let a ← body i a
        forLoop limit body fuel ((i + 1).bmod (2 ^ 64)) a
      else pure a

/-- `for i = 1, num do a = body(i, a) end`: `OP_FORPREP`, then the loop. -/
def forNum (fuel : Nat) (num : Option Number) (body : Int → α → Method α) (a : α) : Method α :=
  match num with
  | none => raise "'for' limit must be a number"
  | some n => forLoop (forlimit n).1 body fuel (if (forlimit n).2 then 0 else 1) a

end

end PBTransfor.Proto
