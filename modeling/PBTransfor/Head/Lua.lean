import PBTransfor.Library.LittleEndian

/-!
# Head — the Lua values of the header code

What `GMsgHead.lua` and `loop.lua` use of Lua 5.3: integers of 64 bits, strings whose size is a
Lua integer, `..`, and the unsigned formats of `string.pack`.
-/

namespace PBTransfor.Head

open Library

/-- A Lua integer: 64 bits, which wrap. -/
abbrev LuaInteger := BitVec 64

/-- `MAX_SIZE`: sizes of strings are Lua integers. -/
def maxSize : Nat := 2 ^ 63 - 1

/-- A Lua string. -/
@[ext] structure LuaString where
  bytes : List UInt8
  length_lt : bytes.length < maxSize
  deriving DecidableEq

/-- An error a Lua function raises. -/
inductive LuaError where
  /-- `luaL_argerror`: bad argument `#arg`. -/
  | argument (arg : Nat) (msg : String)
  | runtime (msg : String)
  deriving DecidableEq, Repr

namespace LuaString

/-- `""`. -/
def empty : LuaString := ⟨[], by decide⟩

/-- `#s`. -/
def len (s : LuaString) : LuaInteger := BitVec.ofNat 64 s.bytes.length

/-- `s .. t` (`luaV_concat`). -/
def concat (s t : LuaString) : Except LuaError LuaString :=
  if h : (s.bytes ++ t.bytes).length < maxSize then .ok ⟨s.bytes ++ t.bytes, h⟩
  else .error (.runtime "string length overflow")

theorem toNat_len (s : LuaString) : s.len.toNat = s.bytes.length := by
  have h := s.length_lt
  simp only [maxSize] at h
  rw [len, BitVec.toNat_ofNat, Nat.mod_eq_of_lt (by omega)]

theorem concat_ok {s t : LuaString} (h : (s.bytes ++ t.bytes).length < maxSize) :
    ∃ r, s.concat t = .ok r ∧ r.bytes = s.bytes ++ t.bytes := ⟨_, dif_pos h, rfl⟩

end LuaString

/-! ### string.pack -/

/-- `packint`, little endian: the low byte first, then the number shifted by eight bits. -/
def packint : Nat → LuaInteger → List UInt8
  | 0, _ => []
  | size + 1, n => UInt8.ofBitVec (n.setWidth 8) :: packint size (n >>> 8)

theorem packint_eq (size : Nat) (n : LuaInteger) : packint size n = bytesLE size n.toNat := by
  induction size generalizing n with
  | zero => rfl
  | succ size ih =>
      have hb : UInt8.ofBitVec (n.setWidth 8) = UInt8.ofNat n.toNat := by
        apply UInt8.toNat_inj.mp
        simp
      rw [packint, bytesLE, ih, hb, BitVec.toNat_ushiftRight, Nat.shiftRight_eq_div_pow]

/-- `MAXINTSIZE`, the largest size of an integer format. -/
def maxIntSize : Nat := 16

/-- `SZINT`, the size of a Lua integer. -/
def szInt : Nat := 8

/-- `string.pack("<I" .. size, n)`: the case `Kuint` of `str_pack`. -/
def packUint (size : Nat) (n : LuaInteger) (hs : size ≤ maxIntSize := by decide) :
    Except LuaError LuaString :=
  if size < szInt ∧ ¬ n.toNat < 2 ^ (size * 8) then .error (.argument 2 "unsigned overflow")
  else .ok ⟨packint size n, by
    rw [packint_eq, length_bytesLE]
    exact Nat.lt_of_le_of_lt hs (by decide)⟩

section
variable {size : Nat} {n : LuaInteger}

/-- A number is packed when it fits. -/
theorem packUint_ok (hs : size ≤ maxIntSize) (h : n.toNat < 256 ^ size) :
    ∃ s, packUint size n hs = .ok s ∧ s.bytes = bytesLE size n.toNat := by
  refine ⟨_, if_neg ?_, packint_eq size n⟩
  rintro ⟨-, hlt⟩
  rw [Nat.mul_comm, pow_mul] at hlt
  exact hlt h

/-- A number that does not fit raises. -/
theorem packUint_error (hs : size ≤ maxIntSize) (hsz : size < szInt) (h : 256 ^ size ≤ n.toNat) :
    packUint size n hs = .error (.argument 2 "unsigned overflow") := by
  refine if_pos ⟨hsz, ?_⟩
  rw [Nat.mul_comm, pow_mul]
  exact Nat.not_lt.mpr h

end

end PBTransfor.Head
