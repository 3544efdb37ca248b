import Mathlib.Data.List.TakeWhile

/-!
# Library — cutting a list where a predicate fails

`Cut p b a r` says that `b` is `a`, all of which satisfies `p`, and `r`, which is empty or begins
with what does not.  `takeWhile` and `dropWhile` are such a cut (`cut`), and there is no other one
(`Cut.takeWhile_eq`, `Cut.dropWhile_eq`): a program that looks for the end of a token, and what it
is given as a token and what follows it, meet in this.
-/

namespace Library

variable {α : Type*} {p : α → Bool} {a b r c : List α}

structure Cut (p : α → Bool) (b a r : List α) : Prop where
  eq : b = a ++ r
  all : ∀ x ∈ a, p x = true
  head : ∀ x ∈ r.head?, p x = false

theorem cut (p : α → Bool) (b : List α) : Cut p b (b.takeWhile p) (b.dropWhile p) where
  eq := List.takeWhile_append_dropWhile.symm
  all _ hx := List.mem_takeWhile_imp hx
  head x hx := by
    have h := List.head?_dropWhile_not p b
    rw [Option.mem_def] at hx
    rw [hx] at h
    exact h

namespace Cut

theorem takeWhile_eq (h : Cut p b a r) : b.takeWhile p = a := by
  rw [h.eq, List.takeWhile_append_of_pos h.all]
  cases r with
  | nil => exact List.append_nil a
  | cons x r => rw [List.takeWhile_cons, h.head x rfl, if_neg Bool.false_ne_true, List.append_nil]

theorem dropWhile_eq (h : Cut p b a r) : b.dropWhile p = r := by
  rw [h.eq, List.dropWhile_append_of_pos h.all]
  cases r with
  | nil => rfl
  | cons x r => rw [List.dropWhile_cons, h.head x rfl, if_neg Bool.false_ne_true]

/-- What follows a cut does not move it, unless there is nothing behind it. -/
theorem append (h : Cut p b a r) (hr : r ≠ []) (c : List α) : Cut p (b ++ c) a (r ++ c) where
  eq := by rw [h.eq, List.append_assoc]
  all := h.all
  head x hx := by
    cases r with
    | nil => exact absurd rfl hr
    | cons y r => exact h.head x hx

/-- What satisfies `p`, put in front, only makes the first part longer. -/
theorem prepend (h : Cut p b a r) (hc : ∀ x ∈ c, p x = true) : Cut p (c ++ b) (c ++ a) r where
  eq := by rw [h.eq, List.append_assoc]
  all := List.forall_mem_append.mpr ⟨hc, h.all⟩
  head := h.head

/-- A change that keeps `p` keeps the cut. -/
theorem map (h : Cut p b a r) {f : α → α} (hf : ∀ x, p x = true → p (f x) = true) :
    Cut p (a.map f ++ r) (a.map f) r where
  eq := rfl
  all x hx := by
    obtain ⟨y, hy, rfl⟩ := List.mem_map.mp hx
    exact hf y (h.all y hy)
  head := h.head

end Cut

end Library
