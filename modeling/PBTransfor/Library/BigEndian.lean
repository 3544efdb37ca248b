import PBTransfor.Library.LittleEndian

/-!
# Library — numbers as big-endian bytes

`bytesBE` and `valueBE` are `bytesLE` and `valueLE` from the other end: network byte order.
-/

namespace Library

/-- The `k` low bytes of `n`, the highest first. -/
def bytesBE (k n : Nat) : List UInt8 := (bytesLE k n).reverse

/-- The number whose bytes, the highest first, are `bs`. -/
def valueBE (bs : List UInt8) : Nat := valueLE bs.reverse

@[simp] theorem length_bytesBE (k n : Nat) : (bytesBE k n).length = k := by
  rw [bytesBE, List.length_reverse, length_bytesLE]

theorem valueBE_lt (bs : List UInt8) : valueBE bs < 256 ^ bs.length := by
  rw [valueBE, ← List.length_reverse]
  exact valueLE_lt _

theorem valueBE_bytesBE {k n : Nat} (h : n < 256 ^ k) : valueBE (bytesBE k n) = n := by
  rw [valueBE, bytesBE, List.reverse_reverse, valueLE_bytesLE h]

end Library
