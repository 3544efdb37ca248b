import Mathlib.Data.List.TakeDrop

/-!
# Library — framing a byte stream

A framing function looks at the bytes that have arrived and answers with the size of the packet
at their front, or with a number `≤ 0` when no packet is complete.  The *greedy parse* of a
stream splits packets off its front while the framing function finds one.

* `Framing.Contract`: the function claims no more than it was shown, and an answer it has given
  stands whatever arrives afterwards.
* `greedy_append`: under the contract, parsing `b ++ c` is parsing `b`, and then parsing what
  that left followed by `c`.  A parse can be interrupted anywhere and taken up again from its
  remainder alone.
* `greedy_flatten`: packets and remainder, in order, are the stream.

Without the contract a reader that asks only about what it still has comes to an end of some
kind: `Parses` are the ways to a remainder, and `Overlong` says that the way leads to a packet
longer than what is left (`not_overlong_iff`).
-/

namespace Library

variable {α : Type*}

/-- What a framing function owes the reader of a stream. -/
structure Framing.Contract (f : List α → Int) : Prop where
  le_length : ∀ b, f b ≤ b.length
  stable : ∀ b c, 0 < f b → f (b ++ c) = f b

/-- At most `n` packets split off the front of `b`, and what is left. -/
def greedyN (f : List α → Int) : Nat → List α → List (List α) × List α
  | 0, b => ([], b)
  | n + 1, b =>
      if 0 < f b then
        let (ps, r) := greedyN f n (b.drop (f b).toNat)
        (b.take (f b).toNat :: ps, r)
      else ([], b)

/-- The greedy parse: the packets split off the front of `b`, and the remainder.  A packet takes
at least one element, so `b` has at most `b.length` of them. -/
def greedy (f : List α → Int) (b : List α) : List (List α) × List α := greedyN f b.length b

variable {f : List α → Int}

/-- No packet at the front: nothing is split off. -/
theorem greedy_of_nonpos {b : List α} (h : ¬ 0 < f b) : greedy f b = ([], b) := by
  cases b with
  | nil => rfl
  | cons a t => simp only [greedy, List.length_cons, greedyN, if_neg h]

namespace Framing.Contract

variable (hf : Framing.Contract f)

include hf

theorem not_pos_nil : ¬ 0 < f [] := by
  have h := hf.le_length []
  simp only [List.length_nil] at h
  omega

/-- The size of a packet, as a length. -/
theorem toNat_le {b : List α} : (f b).toNat ≤ b.length := by
  have h := hf.le_length b
  omega

/-- What a packet leaves is shorter than the stream. -/
theorem length_drop_lt {b : List α} (h : 0 < f b) : (b.drop (f b).toNat).length < b.length := by
  have hl := hf.le_length b
  rw [List.length_drop]
  omega

/-- More rounds than the stream has elements change nothing. -/
theorem greedyN_eq : ∀ (n m : Nat) (b : List α), b.length ≤ n → b.length ≤ m →
    greedyN f n b = greedyN f m b
  | 0, 0, _, _, _ => rfl
  | 0, m + 1, b, h, _ | m + 1, 0, b, _, h => by
      obtain rfl : b = [] := List.eq_nil_of_length_eq_zero (by omega)
      simp [greedyN, hf.not_pos_nil]
  | n + 1, m + 1, b, hn, hm => by
      simp only [greedyN]
      split
      · next hpos =>
          have hlt := hf.length_drop_lt hpos
          rw [greedyN_eq n m _ (by omega) (by omega)]
      · rfl

/-- A packet at the front is split off, and the parse goes on behind it. -/
theorem greedy_of_pos {b : List α} (h : 0 < f b) :
    greedy f b = (b.take (f b).toNat :: (greedy f (b.drop (f b).toNat)).1,
      (greedy f (b.drop (f b).toNat)).2) := by
  have hlt := hf.length_drop_lt h
  obtain ⟨n, hn⟩ : ∃ n, b.length = n + 1 := ⟨b.length - 1, by omega⟩
  unfold greedy
  rw [hn]
  simp only [greedyN, if_pos h]
  rw [hf.greedyN_eq n _ _ (by omega) (Nat.le_refl _)]

/-- Induction along the parse. -/
theorem greedy_induction {P : List α → Prop} (stop : ∀ b, ¬ 0 < f b → P b)
    (split : ∀ b, 0 < f b → P (b.drop (f b).toNat) → P b) (b : List α) : P b := by
  induction hn : b.length using Nat.strongRecOn generalizing b with
  | _ n ih =>
      subst hn
      by_cases h : 0 < f b
      · exact split b h (ih _ (hf.length_drop_lt h) _ rfl)
      · exact stop b h

/-- The remainder has no packet at its front. -/
theorem greedy_rest (b : List α) : ¬ 0 < f (greedy f b).2 := by
  induction b using hf.greedy_induction with
  | stop b h => rwa [greedy_of_nonpos h]
  | split b h ih => rwa [hf.greedy_of_pos h]

/-- Packets and remainder, in order, are the stream. -/
theorem greedy_flatten (b : List α) : (greedy f b).1.flatten ++ (greedy f b).2 = b := by
  induction b using hf.greedy_induction with
  | stop b h => rw [greedy_of_nonpos h]; rfl
  | split b h ih =>
      rw [hf.greedy_of_pos h, List.flatten_cons, List.append_assoc, ih, List.take_append_drop]

/-- **A parse can be taken up again from its remainder.** -/
theorem greedy_append (b c : List α) :
    greedy f (b ++ c) = ((greedy f b).1 ++ (greedy f ((greedy f b).2 ++ c)).1,
      (greedy f ((greedy f b).2 ++ c)).2) := by
  induction b using hf.greedy_induction with
  | stop b h => simp only [greedy_of_nonpos h, List.nil_append]
  | split b h ih =>
      -- the packet at the front of `b` is the packet at the front of `b ++ c`
      have hbc : f (b ++ c) = f b := hf.stable b c h
      have hle : (f b).toNat ≤ b.length := hf.toNat_le
      rw [hf.greedy_of_pos (b := b ++ c) (by rw [hbc]; exact h), hf.greedy_of_pos h, hbc,
        List.take_append_of_le_length hle, List.drop_append_of_le_length hle, ih]
      rfl

end Framing.Contract

/-! ### Without the contract -/

/-- Packets `ps` are split off the front of `b` until `r` is left, which shows none or is empty. -/
inductive Parses (f : List α → Int) : List α → List (List α) → List α → Prop where
  | wait {b : List α} (h : ¬ 0 < f b) : Parses f b [] b
  | last {b : List α} (h₀ : 0 < f b) (h : f b = b.length) : Parses f b [b] []
  | more {b r : List α} {ps : List (List α)} (h₀ : 0 < f b) (h : f b < b.length)
      (t : Parses f (b.drop (f b).toNat) ps r) : Parses f b (b.take (f b).toNat :: ps) r

/-- Splitting packets off the front of `b` comes to one that is longer than what is left. -/
inductive Overlong (f : List α → Int) : List α → Prop where
  | here {b : List α} (h : b.length < f b) : Overlong f b
  | behind {b : List α} (h₀ : 0 < f b) (h : f b < b.length)
      (t : Overlong f (b.drop (f b).toNat)) : Overlong f b

/-- Packets and remainder, in order, are the stream. -/
theorem Parses.flatten {b r : List α} {ps : List (List α)} (h : Parses f b ps r) :
    ps.flatten ++ r = b := by
  induction h with
  | wait => rfl
  | last => simp
  | more _ _ _ ih => rw [List.flatten_cons, List.append_assoc, ih, List.take_append_drop]

theorem Parses.not_overlong {b r : List α} {ps : List (List α)} (h : Parses f b ps r) :
    ¬ Overlong f b := by
  induction h with
  | wait h₀ =>
      rintro (h | ⟨hpos, -, -⟩)
      · omega
      · exact h₀ hpos
  | last _ heq =>
      rintro (h | ⟨-, h, -⟩) <;> omega
  | more _ hlt _ ih =>
      rintro (h | ⟨-, -, t⟩)
      · omega
      · exact ih t

/-- There is no third way. -/
theorem parses_or_overlong (f : List α → Int) (b : List α) :
    (∃ ps r, Parses f b ps r) ∨ Overlong f b := by
  induction hn : b.length using Nat.strongRecOn generalizing b with
  | _ n ih =>
      subst hn
      by_cases h₀ : 0 < f b
      · rcases Int.lt_trichotomy (f b) b.length with h | h | h
        · have hlen : (b.drop (f b).toNat).length < b.length := by
            rw [List.length_drop]
            omega
          rcases ih _ hlen _ rfl with ⟨ps, r, t⟩ | t
          · exact .inl ⟨_, r, .more h₀ h t⟩
          · exact .inr (.behind h₀ h t)
        · exact .inl ⟨_, _, .last h₀ h⟩
        · exact .inr (.here h)
      · exact .inl ⟨_, _, .wait h₀⟩

theorem not_overlong_iff {b : List α} : ¬ Overlong f b ↔ ∃ ps r, Parses f b ps r := by
  constructor
  · exact (parses_or_overlong f b).resolve_right
  · rintro ⟨ps, r, h⟩
    exact h.not_overlong

/-- Under the contract the parse is the greedy one. -/
theorem Framing.Contract.parses (hf : Framing.Contract f) (b : List α) :
    Parses f b (greedy f b).1 (greedy f b).2 := by
  induction b using hf.greedy_induction with
  | stop b h => rw [greedy_of_nonpos h]; exact .wait h
  | split b h ih =>
      rw [hf.greedy_of_pos h]
      rcases Int.lt_or_eq_of_le (hf.le_length b) with hlt | heq
      · exact .more h hlt ih
      · have hb : (f b).toNat = b.length := by omega
        rw [hb, List.drop_length, List.take_length, greedy_of_nonpos hf.not_pos_nil]
        exact .last h heq

end Library
