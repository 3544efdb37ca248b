import Mathlib.Logic.Function.Basic

/-!
# Library — a flat memory

A memory has a cell at every address.  `read` is a stretch of it, `store` writes one, and
`copyWith f` is the loop that reads at `src`, writes at `dst` and moves both on, cell by cell.

* `read_copyWith`: as long as it does not write ahead of where it reads (`dst ≤ src`), every cell
  it writes is made from the cell that was there to begin with, in place or not.
* `copyWith_of_lt`, `copyWith_of_ge`: it writes nothing else.
-/

namespace Library

/-- A cell at every address. -/
abbrev Memory (α : Type*) := Nat → α

variable {α : Type*}

/-- The `n` cells from `p` on. -/
def read (m : Memory α) : Nat → Nat → List α
  | _, 0 => []
  | p, n + 1 => m p :: read m (p + 1) n

/-- The memory with `xs` written from `p` on. -/
def store (m : Memory α) : Nat → List α → Memory α
  | _, [] => m
  | p, x :: xs => store (Function.update m p x) (p + 1) xs

/-- `n` rounds of `*dst++ = f(i, *src++)`. -/
def copyWith (f : Nat → α → α) : Nat → Memory α → Nat → Nat → Memory α
  | 0, m, _, _ => m
  | n + 1, m, dst, src =>
      copyWith (fun i => f (i + 1)) n (Function.update m dst (f 0 (m src))) (dst + 1) (src + 1)

@[simp] theorem read_zero (m : Memory α) (p : Nat) : read m p 0 = [] := rfl

@[simp] theorem read_succ (m : Memory α) (p n : Nat) :
    read m p (n + 1) = m p :: read m (p + 1) n := rfl

@[simp] theorem length_read (m : Memory α) (p n : Nat) : (read m p n).length = n := by
  induction n generalizing p with
  | zero => rfl
  | succ n ih => rw [read_succ, List.length_cons, ih]

/-- A stretch is cut at any inner position. -/
theorem read_add (m : Memory α) (p k l : Nat) :
    read m p (k + l) = read m p k ++ read m (p + k) l := by
  induction k generalizing p with
  | zero => rw [Nat.zero_add, read_zero, List.nil_append, Nat.add_zero]
  | succ k ih =>
      rw [Nat.succ_add, read_succ, ih, read_succ, List.cons_append, Nat.add_right_comm p 1 k,
        Nat.add_assoc p k 1]

theorem take_read (m : Memory α) (p : Nat) {k n : Nat} (h : k ≤ n) :
    (read m p n).take k = read m p k := by
  obtain ⟨l, rfl⟩ := Nat.exists_eq_add_of_le h
  rw [read_add, List.take_left' (length_read m p k)]

theorem drop_read (m : Memory α) (p : Nat) {k n : Nat} (h : k ≤ n) :
    (read m p n).drop k = read m (p + k) (n - k) := by
  obtain ⟨l, rfl⟩ := Nat.exists_eq_add_of_le h
  rw [read_add, List.drop_left' (length_read m p k), Nat.add_sub_cancel_left]

theorem getElem?_read (m : Memory α) (p : Nat) {i n : Nat} (h : i < n) :
    (read m p n)[i]? = some (m (p + i)) := by
  induction n generalizing p i with
  | zero => omega
  | succ n ih =>
      cases i with
      | zero => rfl
      | succ i =>
          rw [read_succ, List.getElem?_cons_succ, ih (p + 1) (by omega), Nat.add_right_comm p 1 i,
            Nat.add_assoc]

theorem getD_read (m : Memory α) (p : Nat) {i n : Nat} (h : i < n) (d : α) :
    (read m p n).getD i d = m (p + i) := by
  rw [List.getD_eq_getElem?_getD, getElem?_read m p h, Option.getD_some]

theorem read_congr {m m' : Memory α} {p p' n : Nat} (h : ∀ i < n, m (p + i) = m' (p' + i)) :
    read m p n = read m' p' n := by
  induction n generalizing p p' with
  | zero => rfl
  | succ n ih =>
      have hhead : m p = m' p' := h 0 (by omega)
      have htail : read m (p + 1) n = read m' (p' + 1) n := by
        apply ih
        intro i hi
        have hi := h (i + 1) (by omega)
        rwa [← Nat.add_assoc, ← Nat.add_assoc, Nat.add_right_comm p i 1,
          Nat.add_right_comm p' i 1] at hi
      rw [read_succ, read_succ, hhead, htail]

/-! ### Writing -/

theorem store_of_lt (m : Memory α) {p a : Nat} (xs : List α) (h : a < p) :
    store m p xs a = m a := by
  induction xs generalizing m p with
  | nil => rfl
  | cons x xs ih =>
      rw [store, ih _ (by omega), Function.update_of_ne (by omega)]

theorem store_of_ge (m : Memory α) {p a : Nat} (xs : List α) (h : p + xs.length ≤ a) :
    store m p xs a = m a := by
  induction xs generalizing m p with
  | nil => rfl
  | cons x xs ih =>
      rw [List.length_cons] at h
      rw [store, ih _ (by omega), Function.update_of_ne (by omega)]

/-- What was written is read. -/
theorem read_store (m : Memory α) (p : Nat) (xs : List α) :
    read (store m p xs) p xs.length = xs := by
  induction xs generalizing m p with
  | nil => rfl
  | cons x xs ih =>
      rw [List.length_cons, read_succ, store, ih, store_of_lt _ _ (by omega),
        Function.update_self]

theorem copyWith_of_lt (f : Nat → α → α) (n : Nat) (m : Memory α) {dst src a : Nat}
    (h : a < dst) : copyWith f n m dst src a = m a := by
  induction n generalizing f m dst src with
  | zero => rfl
  | succ n ih => rw [copyWith, ih _ _ (by omega), Function.update_of_ne (by omega)]

theorem copyWith_of_ge (f : Nat → α → α) (n : Nat) (m : Memory α) {dst src a : Nat}
    (h : dst + n ≤ a) : copyWith f n m dst src a = m a := by
  induction n generalizing f m dst src with
  | zero => rfl
  | succ n ih => rw [copyWith, ih _ _ (by omega), Function.update_of_ne (by omega)]

/-- Rounds made one after the other. -/
theorem copyWith_add (f : Nat → α → α) (k n : Nat) (m : Memory α) (dst src : Nat) :
    copyWith f (k + n) m dst src =
      copyWith (fun i => f (i + k)) n (copyWith f k m dst src) (dst + k) (src + k) := by
  induction k generalizing f m dst src with
  | zero => rw [Nat.zero_add]; rfl
  | succ k ih =>
      rw [Nat.succ_add, copyWith, ih, copyWith]
      congr 1 <;> omega

/-- **Each cell is made from the one that was there**, although the loop writes over cells it
has read. -/
theorem copyWith_apply (f : Nat → α → α) {n i : Nat} (m : Memory α) {dst src : Nat}
    (hle : dst ≤ src) (hi : i < n) : copyWith f n m dst src (dst + i) = f i (m (src + i)) := by
  induction n generalizing f m dst src i with
  | zero => omega
  | succ n ih =>
      cases i with
      | zero =>
          rw [copyWith, copyWith_of_lt _ _ _ (by omega), Nat.add_zero, Nat.add_zero,
            Function.update_self]
      | succ i =>
          have hstep := ih (fun i => f (i + 1)) (Function.update m dst (f 0 (m src)))
            (Nat.add_le_add_right hle 1) (Nat.lt_of_succ_lt_succ hi)
          rw [Function.update_of_ne (by omega)] at hstep
          rw [copyWith, Nat.add_comm i 1, ← Nat.add_assoc, ← Nat.add_assoc, hstep,
            Nat.add_comm 1 i]

theorem read_copyWith (f : Nat → α → α) (n : Nat) (m : Memory α) {dst src : Nat}
    (hle : dst ≤ src) : read (copyWith f n m dst src) dst n = (read m src n).mapIdx f := by
  apply List.ext_getElem?
  intro i
  by_cases hi : i < n
  · rw [getElem?_read _ _ hi, List.getElem?_mapIdx, getElem?_read _ _ hi, copyWith_apply f m hle hi]
    rfl
  · rw [List.getElem?_eq_none (by rw [length_read]; omega),
      List.getElem?_eq_none (by rw [List.length_mapIdx, length_read]; omega)]

end Library
