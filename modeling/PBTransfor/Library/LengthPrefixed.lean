import Mathlib.InformationTheory.Coding.UniquelyDecodable
import PBTransfor.Library.Framing

/-!
# Library — length-prefixed frames

A frame is a header of `h` elements and a body, whose length the header declares.  The framing
function of such a format (`LengthPrefixed`) waits for the header, then for the body, and its
greedy parse gives back any concatenation of frames (`LengthPrefixed.greedy_frames`).  So frames
are uniquely decodable, and none is the beginning of another.
-/

namespace Library

variable {α : Type*} {f : List α → Int} {h : Nat} {len : List α → Nat}

/-- `f` finds a header of `h` elements and a body of the length `len` it declares. -/
structure LengthPrefixed (f : List α → Int) (h : Nat) (len : List α → Nat) : Prop where
  header_pos : 0 < h
  whole : ∀ b, h + len (b.take h) ≤ b.length → f b = h + len (b.take h)
  part : ∀ b, b.length < h + len (b.take h) → f b ≤ 0

/-- `w` is a header and the body it declares. -/
def IsFrame (h : Nat) (len : List α → Nat) (w : List α) : Prop := w.length = h + len (w.take h)

namespace LengthPrefixed

variable (hf : LengthPrefixed f h len)

include hf

theorem pos_iff (b : List α) : 0 < f b ↔ h + len (b.take h) ≤ b.length := by
  have hh := hf.header_pos
  constructor
  · intro hpos
    by_contra hlt
    have := hf.part b (by omega)
    omega
  · intro hle
    rw [hf.whole b hle]
    omega

theorem contract : Framing.Contract f where
  le_length b := by
    by_cases hle : h + len (b.take h) ≤ b.length
    · rw [hf.whole b hle]
      exact_mod_cast hle
    · have := hf.part b (by omega)
      omega
  stable b c hpos := by
    have hle := (hf.pos_iff b).mp hpos
    have htake : (b ++ c).take h = b.take h := List.take_append_of_le_length (by omega)
    rw [hf.whole b hle, hf.whole (b ++ c) (by rw [htake, List.length_append]; omega), htake]

/-- A frame is found whatever follows it. -/
theorem frame {w : List α} (hw : IsFrame h len w) (c : List α) : f (w ++ c) = w.length := by
  unfold IsFrame at hw
  have htake : (w ++ c).take h = w.take h := List.take_append_of_le_length (by omega)
  rw [hf.whole (w ++ c) (by rw [htake, List.length_append]; omega), htake, hw]
  push_cast
  rfl

/-- The beginning of a frame is not found. -/
theorem not_pos_of_starts {w r : List α} (hw : IsFrame h len w) (hr : r <+: w) (hne : r ≠ w) :
    ¬ 0 < f r := by
  intro hpos
  obtain ⟨c, rfl⟩ := hr
  have hfind : f (r ++ c) = (r ++ c).length := by
    have := hf.frame hw []
    rwa [List.append_nil] at this
  have hle := hf.contract.le_length r
  rw [← hf.contract.stable r c hpos, hfind, List.length_append] at hle
  have hc : c = [] := List.eq_nil_of_length_eq_zero (by omega)
  exact hne (by rw [hc, List.append_nil])

/-- **The parse gives back the frames of a stream.** -/
theorem greedy_frames {ws : List (List α)} (hws : ∀ w ∈ ws, IsFrame h len w) (c : List α) :
    greedy f (ws.flatten ++ c) = (ws ++ (greedy f c).1, (greedy f c).2) := by
  induction ws with
  | nil => rfl
  | cons w ws ih =>
      have hw : IsFrame h len w := hws w (by simp)
      have hh := hf.header_pos
      have hfind : f (w ++ (ws.flatten ++ c)) = w.length := hf.frame hw _
      have hpos : 0 < f (w ++ (ws.flatten ++ c)) := by
        rw [hfind, hw]
        omega
      rw [List.flatten_cons, List.append_assoc, hf.contract.greedy_of_pos hpos, hfind,
        Int.toNat_natCast, List.take_left', List.drop_left', ih fun w' h' => hws w' (by simp [h'])]
      · rfl
      · rfl
      · rfl

/-- The parse keeps all of a stream exactly when it shows no packet. -/
theorem length_rest_eq_iff (b : List α) :
    (greedy f b).2.length = b.length ↔ b.length < h + len (b.take h) := by
  constructor
  · intro hlen
    by_contra hle
    have hpos := (hf.pos_iff b).mpr (by omega)
    have hdrop := hf.contract.length_drop_lt hpos
    have hrest : (greedy f (b.drop (f b).toNat)).2.length ≤ (b.drop (f b).toNat).length := by
      have := congrArg List.length (hf.contract.greedy_flatten (b.drop (f b).toNat))
      rw [List.length_append] at this
      omega
    rw [hf.contract.greedy_of_pos hpos] at hlen
    dsimp only at hlen
    omega
  · intro hlt
    rw [greedy_of_nonpos (by rw [hf.pos_iff]; omega)]

end LengthPrefixed

/-- The framing function of the format: `0` until the frame is complete. -/
def frameSize (h : Nat) (len : List α → Nat) (b : List α) : Int :=
  if h + len (b.take h) ≤ b.length then h + len (b.take h) else 0

theorem frameSize_lengthPrefixed (hh : 0 < h) : LengthPrefixed (frameSize h len) h len where
  header_pos := hh
  whole _ hb := if_pos hb
  part _ hb := by rw [frameSize, if_neg (Nat.not_le.mpr hb)]

/-- **Concatenations of frames come from one list of frames only.** -/
theorem uniquelyDecodable_frames (hh : 0 < h) :
    InformationTheory.UniquelyDecodable {w : List α | IsFrame h len w} := by
  intro ws ws' hws hws' heq
  have hf : LengthPrefixed (frameSize h len) h len := frameSize_lengthPrefixed hh
  have hnil : greedy (frameSize h len) [] = ([], []) :=
    greedy_of_nonpos hf.contract.not_pos_nil
  have h₁ := hf.greedy_frames hws []
  have h₂ := hf.greedy_frames hws' []
  rw [List.append_nil, hnil] at h₁ h₂
  rw [heq, h₂] at h₁
  simpa using congrArg Prod.fst h₁.symm

/-- No frame is the beginning of another. -/
theorem IsFrame.eq_of_starts (hh : 0 < h) {w w' : List α} (hw : IsFrame h len w)
    (hw' : IsFrame h len w') (hp : w <+: w') : w = w' := by
  have hf : LengthPrefixed (frameSize h len) h len := frameSize_lengthPrefixed hh
  obtain ⟨c, rfl⟩ := hp
  have h₁ := hf.frame hw c
  have h₂ := hf.frame hw' []
  rw [List.append_nil, h₁] at h₂
  have hc : c.length = 0 := by
    rw [List.length_append] at h₂
    omega
  rw [List.eq_nil_of_length_eq_zero hc, List.append_nil]

end Library
