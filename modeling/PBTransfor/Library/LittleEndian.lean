import Mathlib.Data.Nat.Digits.Lemmas

/-!
# Library — numbers as little-endian bytes

`bytesLE k n` is the low `8 * k` bits of `n`, least significant byte first, and `valueLE` reads
them back: it is `Nat.ofDigits` at base 256, so that a number is below `256 ^ k` exactly when
`k` bytes hold it.
-/

namespace Library

/-- The `k` low bytes of `n`, the lowest first. -/
def bytesLE : Nat → Nat → List UInt8
  | 0, _ => []
  | k + 1, n => UInt8.ofNat n :: bytesLE k (n / 256)

/-- The number whose bytes, the lowest first, are `bs`. -/
def valueLE (bs : List UInt8) : Nat := Nat.ofDigits 256 (bs.map UInt8.toNat)

@[simp] theorem valueLE_nil : valueLE [] = 0 := rfl

@[simp] theorem valueLE_cons (b : UInt8) (bs : List UInt8) :
    valueLE (b :: bs) = b.toNat + 256 * valueLE bs := Nat.ofDigits_cons

@[simp] theorem length_bytesLE (k n : Nat) : (bytesLE k n).length = k := by
  induction k generalizing n with
  | zero => rfl
  | succ k ih => rw [bytesLE, List.length_cons, ih]

theorem valueLE_lt (bs : List UInt8) : valueLE bs < 256 ^ bs.length := by
  have h : ∀ d ∈ bs.map UInt8.toNat, d < 256 := by
    intro d hd
    obtain ⟨b, -, rfl⟩ := List.mem_map.mp hd
    exact b.toNat_lt
  simpa [valueLE] using Nat.ofDigits_lt_base_pow_length (by decide : 1 < 256) h

/-- `k` bytes hold a number below `256 ^ k`. -/
theorem valueLE_bytesLE {k n : Nat} (h : n < 256 ^ k) : valueLE (bytesLE k n) = n := by
  induction k generalizing n with
  | zero => simp only [pow_zero, Nat.lt_one_iff] at h; rw [h]; rfl
  | succ k ih =>
      have hd : n / 256 < 256 ^ k := Nat.div_lt_of_lt_mul (by rwa [pow_succ'] at h)
      rw [bytesLE, valueLE_cons, ih hd, UInt8.toNat_ofNat']
      exact Nat.mod_add_div n 256

/-- Bytes are those of the number they make. -/
theorem bytesLE_valueLE (bs : List UInt8) : bytesLE bs.length (valueLE bs) = bs := by
  induction bs with
  | nil => rfl
  | cons b bs ih =>
      have hb := b.toNat_lt
      have hdiv : (b.toNat + 256 * valueLE bs) / 256 = valueLE bs := by omega
      have hmod : UInt8.ofNat (b.toNat + 256 * valueLE bs) = b := by
        apply UInt8.toNat_inj.mp
        rw [UInt8.toNat_ofNat']
        omega
      rw [List.length_cons, bytesLE, valueLE_cons, hdiv, hmod, ih]

end Library
