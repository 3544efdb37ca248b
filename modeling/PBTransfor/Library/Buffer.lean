import Mathlib.Data.List.TakeDrop

/-!
# Library — buffers of fixed capacity

A `Buffer α n` is `n` cells, always: writing past the end drops what does not fit, so the
capacity is part of the type and no write can change it.  Two operations, `slice` and `write`,
and how they meet: a slice of the cells just written, a slice of the cells a write leaves
alone, and a slice cut at an inner position.
-/

namespace Library

/-- `n` cells. -/
structure Buffer (α : Type*) (n : Nat) where
  cells : List α
  length_cells : cells.length = n

namespace Buffer

variable {α : Type*} {n : Nat}

/-- The `len` cells from position `i` on. -/
def slice (b : Buffer α n) (i len : Nat) : List α := (b.cells.drop i).take len

/-- The buffer with `xs` stored from position `i` on; what does not fit is dropped. -/
def write (b : Buffer α n) (i : Nat) (xs : List α) : Buffer α n where
  cells := (b.cells.take i ++ xs ++ b.cells.drop (i + xs.length)).take n
  length_cells := by
    have h := b.length_cells
    simp only [List.length_take, List.length_append, List.length_drop, h]
    omega

/-- `n` copies of one cell. -/
def replicate (n : Nat) (a : α) : Buffer α n := ⟨List.replicate n a, List.length_replicate⟩

@[simp] theorem length_slice (b : Buffer α n) {i len : Nat} (h : i + len ≤ n) :
    (b.slice i len).length = len := by
  have hb := b.length_cells
  simp only [slice, List.length_take, List.length_drop, hb]
  omega

@[simp] theorem slice_zero (b : Buffer α n) (i : Nat) : b.slice i 0 = [] := by
  simp [slice]

/-- A slice is cut at any inner position. -/
theorem slice_add (b : Buffer α n) (i k l : Nat) :
    b.slice i (k + l) = b.slice i k ++ b.slice (i + k) l := by
  simp only [slice, List.take_add, List.drop_drop]

theorem take_slice (b : Buffer α n) (i : Nat) {k l : Nat} (h : k ≤ l) :
    (b.slice i l).take k = b.slice i k := by
  simp only [slice, List.take_take, Nat.min_eq_left h]

theorem drop_slice (b : Buffer α n) (i k l : Nat) :
    (b.slice i l).drop k = b.slice (i + k) (l - k) := by
  simp only [slice, List.drop_take, List.drop_drop]

@[simp] theorem write_nil (b : Buffer α n) (i : Nat) : b.write i [] = b := by
  have hb := b.length_cells
  cases b with
  | mk cells hc => simp only [write, List.append_nil, List.length_nil, Nat.add_zero,
      List.take_append_drop, List.take_of_length_le (Nat.le_of_eq hc)]

/-- The cells just written. -/
theorem slice_write_self (b : Buffer α n) {i : Nat} {xs : List α} (h : i + xs.length ≤ n) :
    (b.write i xs).slice i xs.length = xs := by
  have hb := b.length_cells
  have hi : (b.cells.take i).length = i := by simp only [List.length_take, hb]; omega
  simp only [slice, write, List.append_assoc, List.drop_take]
  rw [List.drop_append_of_le_length (by omega), List.drop_of_length_le (by omega), List.nil_append,
    List.take_take, Nat.min_eq_left (by omega), List.take_left']
  rfl

/-- The cells below a write. -/
theorem slice_write_below (b : Buffer α n) {i j len : Nat} {xs : List α} (h : j + len ≤ i)
    (hi : i ≤ n) : (b.write i xs).slice j len = b.slice j len := by
  have hb := b.length_cells
  have hl : (b.cells.take i).length = i := by simp only [List.length_take, hb]; omega
  simp only [slice, write, List.append_assoc, List.drop_take, List.take_take]
  rw [List.drop_append_of_le_length (by omega), List.drop_take, List.take_append_of_le_length
    (by simp only [List.length_take, List.length_drop, hb]; omega), List.take_take]
  congr 1
  omega

/-- The cells a write does not reach and the cells it writes, read together. -/
theorem slice_write_append (b : Buffer α n) {i j : Nat} {xs : List α} (hj : j ≤ i)
    (h : i + xs.length ≤ n) :
    (b.write i xs).slice j (i - j + xs.length) = b.slice j (i - j) ++ xs := by
  rw [slice_add, slice_write_below b (by omega) (by omega), show j + (i - j) = i by omega,
    slice_write_self b h]

end Buffer

end Library
