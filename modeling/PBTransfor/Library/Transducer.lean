import Mathlib.Data.List.TakeDrop

/-!
# Library — reading a stream item by item

`step s b` takes one item off the front of `b` in state `s`: it answers with the next state and
the rest of `b`, or with nothing while the item is not complete.  `drain` takes items off as long
as there are any, and `feed` is a reader that is given the stream in chunks and keeps what it
could not use yet.

* `Transducer.Contract`: an item takes something, and what has been answered stands whatever
  arrives afterwards.
* `drain_append`: under the contract, draining `b ++ c` is draining `b`, and then what that left
  followed by `c`.
* `foldl_feed`: it makes no difference how the stream is cut.
* `Refines.foldl_feed`: nor does it to a reader that, chunk by chunk, stays related to `feed`.
-/

namespace Library

variable {σ κ ι α : Type*}

/-- What the reader of an item owes. -/
structure Transducer.Contract (step : σ → List α → Option (σ × List α)) : Prop where
  shrinks : ∀ {s b s' r}, step s b = some (s', r) → r.length < b.length
  stable : ∀ {s b s' r} (c), step s b = some (s', r) → step s (b ++ c) = some (s', r ++ c)

/-- At most `n` items taken off the front of `b`. -/
def drainN (step : σ → List α → Option (σ × List α)) : Nat → σ → List α → σ × List α
  | 0, s, b => (s, b)
  | n + 1, s, b =>
      match step s b with
      | some (s', r) => drainN step n s' r
      | none => (s, b)

/-- The state and the rest once no item is complete.  An item takes at least one element, so `b`
has at most `b.length` of them. -/
def drain (step : σ → List α → Option (σ × List α)) (s : σ) (b : List α) : σ × List α :=
  drainN step b.length s b

/-- The next chunk, behind what was left of those before. -/
def feed (step : σ → List α → Option (σ × List α)) (q : σ × List α) (c : List α) : σ × List α :=
  drain step q.1 (q.2 ++ c)

variable {step : σ → List α → Option (σ × List α)}

/-- No item at the front: nothing is taken off. -/
theorem drain_of_none {s : σ} {b : List α} (h : step s b = none) : drain step s b = (s, b) := by
  cases b with
  | nil => rfl
  | cons a t => simp only [drain, List.length_cons, drainN, h]

namespace Transducer.Contract

/-- There is no item in nothing. -/
theorem step_nil (hs : Transducer.Contract step) (s : σ) : step s [] = none := by
  rcases h : step s [] with _ | ⟨s', r⟩
  · rfl
  · exact absurd (hs.shrinks h) (by simp)

/-- More rounds than there are elements change nothing. -/
theorem drainN_eq (hs : Transducer.Contract step) : ∀ (n m : Nat) (s : σ) (b : List α),
    b.length ≤ n → b.length ≤ m → drainN step n s b = drainN step m s b
  | 0, 0, _, _, _, _ => rfl
  | 0, m + 1, s, b, h, _ | m + 1, 0, s, b, _, h => by
      obtain rfl : b = [] := List.eq_nil_of_length_eq_zero (by omega)
      simp [drainN, hs.step_nil]
  | n + 1, m + 1, s, b, hn, hm => by
      simp only [drainN]
      rcases h : step s b with _ | ⟨s', r⟩
      · rfl
      · have hlt := hs.shrinks h
        exact hs.drainN_eq n m s' r (by omega) (by omega)

/-- An item is taken off, and the reader goes on behind it. -/
theorem drain_of_some (hs : Transducer.Contract step) {s s' : σ} {b r : List α}
    (h : step s b = some (s', r)) : drain step s b = drain step s' r := by
  have hlt := hs.shrinks h
  obtain ⟨n, hn⟩ : ∃ n, b.length = n + 1 := ⟨b.length - 1, by omega⟩
  unfold drain
  rw [hn]
  simp only [drainN, h]
  exact hs.drainN_eq n _ s' r (by omega) (Nat.le_refl _)

/-- Induction along the items. -/
theorem drain_induction (hs : Transducer.Contract step) {P : σ → List α → Prop}
    (stop : ∀ s b, step s b = none → P s b)
    (item : ∀ s b s' r, step s b = some (s', r) → P s' r → P s b) (s : σ) (b : List α) :
    P s b := by
  induction hn : b.length using Nat.strongRecOn generalizing s b with
  | _ n ih =>
      subst hn
      rcases h : step s b with _ | ⟨s', r⟩
      · exact stop s b h
      · exact item s b s' r h (ih _ (hs.shrinks h) _ _ rfl)

/-- **The reader can be interrupted anywhere.** -/
theorem drain_append (hs : Transducer.Contract step) (s : σ) (b c : List α) :
    drain step s (b ++ c) = feed step (drain step s b) c := by
  induction s, b using hs.drain_induction with
  | stop s b h => rw [drain_of_none h, feed]
  | item s b s' r h ih => rw [hs.drain_of_some h, ← ih, hs.drain_of_some (hs.stable c h)]

/-- **It makes no difference how the stream is cut.** -/
theorem foldl_feed (hs : Transducer.Contract step) (s : σ) (cs : List (List α)) :
    cs.foldl (feed step) (s, []) = drain step s cs.flatten := by
  have hgen : ∀ b, cs.foldl (feed step) (drain step s b) = drain step s (b ++ cs.flatten) := by
    induction cs with
    | nil => intro b; rw [List.flatten_nil, List.append_nil, List.foldl_nil]
    | cons c cs ih =>
        intro b
        rw [List.foldl_cons, ← hs.drain_append, ih, List.flatten_cons, List.append_assoc]
  exact hgen []

end Transducer.Contract

/-- A reader `read` of inputs, each of which brings a chunk, stays related by `R` to a reader of
items. -/
def Refines (step : σ → List α → Option (σ × List α)) (read : κ → ι → κ) (chunk : ι → List α)
    (R : κ → σ × List α → Prop) : Prop := ∀ k q i, R k q → R (read k i) (feed step q (chunk i))

/-- The chunks of a stream leave such a reader related to what draining the stream gives. -/
theorem Refines.foldl_feed {read : κ → ι → κ} {chunk : ι → List α} {R : κ → σ × List α → Prop}
    (hR : Refines step read chunk R) (hs : Transducer.Contract step) {k : κ} {s : σ}
    (h : R k (s, [])) (is : List ι) : R (is.foldl read k) (drain step s (is.flatMap chunk)) := by
  have hgen : ∀ (k : κ) (q : σ × List α), R k q →
      R (is.foldl read k) ((is.map chunk).foldl (feed step) q) := by
    induction is with
    | nil => exact fun k q h => h
    | cons i is ih => exact fun k q h => ih _ _ (hR k q i h)
  have hrun := hgen k (s, []) h
  rwa [hs.foldl_feed, ← List.flatMap_def] at hrun

end Library
