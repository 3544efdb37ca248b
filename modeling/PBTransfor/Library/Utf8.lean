import Mathlib.Data.List.Basic

/-!
# Library — UTF-8

`Utf8 s` says that `s` is the encoding of a list of characters, as Lean encodes them.  A decoder
sees bytes: `Sequence` are the byte sequences of one character, by their ranges.

* `sequence_iff`: these are the encodings of characters, and no others.
* `utf8_cons_iff`: text begins with one of them.  `utf8_one_iff` to `utf8_four_iff` and
  `not_utf8_of_lead` say which, by the first byte.
-/

namespace Library

/-- The encoding of a text. -/
def Utf8 (s : List UInt8) : Prop := ∃ cs : List Char, s = cs.flatMap String.utf8EncodeChar

/-- A byte that continues a character. -/
def Tail (b : UInt8) : Prop := 128 ≤ b.toNat ∧ b.toNat < 192

/-- The bytes of one character: neither longer than they need be, nor those of a surrogate, nor
beyond the last code point. -/
inductive Sequence : List UInt8 → Prop where
  | one {a} (ha : a.toNat < 128) : Sequence [a]
  | two {a b} (ha : 194 ≤ a.toNat ∧ a.toNat < 224) (hb : Tail b) : Sequence [a, b]
  | three {a b c} (ha : 224 ≤ a.toNat ∧ a.toNat < 240) (hb : Tail b) (hc : Tail c)
      (hlow : a.toNat = 224 → 160 ≤ b.toNat) (hhigh : a.toNat = 237 → b.toNat < 160) :
      Sequence [a, b, c]
  | four {a b c d} (ha : 240 ≤ a.toNat ∧ a.toNat < 245) (hb : Tail b) (hc : Tail c) (hd : Tail d)
      (hlow : a.toNat = 240 → 144 ≤ b.toNat) (hhigh : a.toNat = 244 → b.toNat < 144) :
      Sequence [a, b, c, d]

theorem toNat_ofNat_lt {n : Nat} (h : n < 256) : (UInt8.ofNat n).toNat = n :=
  UInt8.toNat_ofNat_of_lt' h

theorem ofNat_eq_of_toNat {n : Nat} {a : UInt8} (h : n = a.toNat) : UInt8.ofNat n = a := by
  rw [h, UInt8.ofNat_toNat]

/-- The character of a code point. -/
theorem exists_char {v : Nat} (h : v.isValidChar) : ∃ c : Char, c.val.toNat = v := by
  have hlt : v < 2 ^ 32 := by
    rcases h with h | ⟨-, h⟩ <;> omega
  have hv : (UInt32.ofNat v).toNat = v := UInt32.toNat_ofNat_of_lt' hlt
  exact ⟨⟨UInt32.ofNat v, by rw [UInt32.isValidChar, hv]; exact h⟩, hv⟩

/-- **The encodings of characters.** -/
theorem sequence_iff (s : List UInt8) : Sequence s ↔ ∃ c, String.utf8EncodeChar c = s := by
  constructor
  · intro h
    -- the code point of a sequence, which the ranges of its bytes keep valid
    cases h with
    | @one a ha =>
        obtain ⟨c, hc⟩ := exists_char (v := a.toNat) (Or.inl (by omega))
        refine ⟨c, ?_⟩
        simp only [String.utf8EncodeChar, hc]
        rw [if_pos (by omega), ofNat_eq_of_toNat rfl]
    | @two a b ha hb =>
        obtain ⟨hb₁, hb₂⟩ := hb
        obtain ⟨c, hc⟩ := exists_char (v := (a.toNat - 192) * 64 + (b.toNat - 128))
          (Or.inl (by omega))
        refine ⟨c, ?_⟩
        simp only [String.utf8EncodeChar, hc]
        rw [if_neg (by omega), if_pos (by omega),
          ofNat_eq_of_toNat (a := a) (by omega), ofNat_eq_of_toNat (a := b) (by omega)]
    | @three a b c ha hb hc hlow hhigh =>
        obtain ⟨hb₁, hb₂⟩ := hb
        obtain ⟨hc₁, hc₂⟩ := hc
        obtain ⟨x, hx⟩ := exists_char
          (v := (a.toNat - 224) * 4096 + (b.toNat - 128) * 64 + (c.toNat - 128)) (by
            rw [Nat.isValidChar]
            omega)
        refine ⟨x, ?_⟩
        simp only [String.utf8EncodeChar, hx]
        rw [if_neg (by omega), if_neg (by omega), if_pos (by omega),
          ofNat_eq_of_toNat (a := a) (by omega), ofNat_eq_of_toNat (a := b) (by omega),
          ofNat_eq_of_toNat (a := c) (by omega)]
    | @four a b c d ha hb hc hd hlow hhigh =>
        obtain ⟨hb₁, hb₂⟩ := hb
        obtain ⟨hc₁, hc₂⟩ := hc
        obtain ⟨hd₁, hd₂⟩ := hd
        obtain ⟨x, hx⟩ := exists_char
          (v := (a.toNat - 240) * 262144 + (b.toNat - 128) * 4096 + (c.toNat - 128) * 64 +
            (d.toNat - 128)) (by
            rw [Nat.isValidChar]
            omega)
        refine ⟨x, ?_⟩
        simp only [String.utf8EncodeChar, hx]
        rw [if_neg (by omega), if_neg (by omega), if_neg (by omega),
          ofNat_eq_of_toNat (a := a) (by omega), ofNat_eq_of_toNat (a := b) (by omega),
          ofNat_eq_of_toNat (a := c) (by omega), ofNat_eq_of_toNat (a := d) (by omega)]
  · rintro ⟨c, rfl⟩
    -- surrogates are excluded by what a character is
    have hv : c.val.toNat.isValidChar := c.valid
    rw [Nat.isValidChar] at hv
    simp only [String.utf8EncodeChar]
    split
    · exact .one (by rw [toNat_ofNat_lt] <;> omega)
    split
    · refine .two ?_ ?_
      · rw [toNat_ofNat_lt] <;> omega
      · rw [Tail, toNat_ofNat_lt] <;> omega
    split
    · refine .three ?_ ?_ ?_ ?_ ?_
      · rw [toNat_ofNat_lt] <;> omega
      · rw [Tail, toNat_ofNat_lt] <;> omega
      · rw [Tail, toNat_ofNat_lt] <;> omega
      · rw [toNat_ofNat_lt, toNat_ofNat_lt] <;> omega
      · rw [toNat_ofNat_lt, toNat_ofNat_lt] <;> omega
    · refine .four ?_ ?_ ?_ ?_ ?_ ?_
      · rw [toNat_ofNat_lt] <;> omega
      · rw [Tail, toNat_ofNat_lt] <;> omega
      · rw [Tail, toNat_ofNat_lt] <;> omega
      · rw [Tail, toNat_ofNat_lt] <;> omega
      · rw [toNat_ofNat_lt, toNat_ofNat_lt] <;> omega
      · rw [toNat_ofNat_lt, toNat_ofNat_lt] <;> omega

theorem utf8_nil : Utf8 [] := ⟨[], rfl⟩

/-- Where the first character ends is determined. -/
theorem utf8_encode_append_iff (c : Char) (s : List UInt8) :
    Utf8 (String.utf8EncodeChar c ++ s) ↔ Utf8 s := by
  constructor
  · rintro ⟨cs, h⟩
    have hdec := ByteArray.utf8DecodeChar?_utf8EncodeChar_append (b := s.toByteArray) (c := c)
    rw [← List.toByteArray_append, h] at hdec
    cases cs with
    | nil =>
        have hpos := c.utf8Size_pos
        have hlen := congrArg List.length h
        rw [List.length_append, String.length_utf8EncodeChar, List.flatMap_nil,
          List.length_nil] at hlen
        omega
    | cons d ds =>
        rw [List.flatMap_cons, List.toByteArray_append,
          ByteArray.utf8DecodeChar?_utf8EncodeChar_append] at hdec
        cases hdec
        exact ⟨ds, List.append_cancel_left h⟩
  · rintro ⟨cs, rfl⟩
    exact ⟨c :: cs, rfl⟩

/-- **Text begins with a character.** -/
theorem utf8_cons_iff (a : UInt8) (s : List UInt8) :
    Utf8 (a :: s) ↔ ∃ t r, s = t ++ r ∧ Sequence (a :: t) ∧ Utf8 r := by
  constructor
  · rintro ⟨cs, h⟩
    cases cs with
    | nil => simp at h
    | cons c cs =>
        have hseq := (sequence_iff _).mpr ⟨c, rfl⟩
        rw [List.flatMap_cons] at h
        rcases hc : String.utf8EncodeChar c with _ | ⟨b, t⟩
        · rw [hc] at hseq
          cases hseq
        · rw [hc, List.cons_append, List.cons.injEq] at h
          rw [hc, ← h.1] at hseq
          exact ⟨t, _, h.2, hseq, cs, rfl⟩
  · rintro ⟨t, r, rfl, hseq, hr⟩
    obtain ⟨c, hc⟩ := (sequence_iff _).mp hseq
    rw [← List.cons_append, ← hc]
    exact (utf8_encode_append_iff c r).mpr hr

/-! ### By the first byte -/

section
variable {a : UInt8} {s : List UInt8}

theorem utf8_one_iff (ha : a.toNat < 128) : Utf8 (a :: s) ↔ Utf8 s := by
  rw [utf8_cons_iff]
  constructor
  · rintro ⟨t, r, rfl, hseq, hr⟩
    cases hseq with
    | one => exact hr
    | two h | three h | four h => omega
  · exact fun hs => ⟨[], s, rfl, .one ha, hs⟩

theorem utf8_two_iff (ha : 192 ≤ a.toNat ∧ a.toNat < 224) :
    Utf8 (a :: s) ↔ ∃ b r, s = b :: r ∧ 194 ≤ a.toNat ∧ Tail b ∧ Utf8 r := by
  rw [utf8_cons_iff]
  constructor
  · rintro ⟨t, r, rfl, hseq, hr⟩
    cases hseq with
    | two h hb => exact ⟨_, r, rfl, h.1, hb, hr⟩
    | one h | three h | four h => omega
  · rintro ⟨b, r, rfl, h, hb, hr⟩
    exact ⟨[b], r, rfl, .two ⟨h, ha.2⟩ hb, hr⟩

theorem utf8_three_iff (ha : 224 ≤ a.toNat ∧ a.toNat < 240) :
    Utf8 (a :: s) ↔ ∃ b c r, s = b :: c :: r ∧ Tail b ∧ Tail c ∧
      (a.toNat = 224 → 160 ≤ b.toNat) ∧ (a.toNat = 237 → b.toNat < 160) ∧ Utf8 r := by
  rw [utf8_cons_iff]
  constructor
  · rintro ⟨t, r, rfl, hseq, hr⟩
    cases hseq with
    | three _ hb hc hlow hhigh => exact ⟨_, _, r, rfl, hb, hc, hlow, hhigh, hr⟩
    | one h | two h | four h => omega
  · rintro ⟨b, c, r, rfl, hb, hc, hlow, hhigh, hr⟩
    exact ⟨[b, c], r, rfl, .three ha hb hc hlow hhigh, hr⟩

theorem utf8_four_iff (ha : 240 ≤ a.toNat ∧ a.toNat < 248) :
    Utf8 (a :: s) ↔ ∃ b c d r, s = b :: c :: d :: r ∧ a.toNat < 245 ∧ Tail b ∧ Tail c ∧ Tail d ∧
      (a.toNat = 240 → 144 ≤ b.toNat) ∧ (a.toNat = 244 → b.toNat < 144) ∧ Utf8 r := by
  rw [utf8_cons_iff]
  constructor
  · rintro ⟨t, r, rfl, hseq, hr⟩
    cases hseq with
    | four h hb hc hd hlow hhigh => exact ⟨_, _, _, r, rfl, h.2, hb, hc, hd, hlow, hhigh, hr⟩
    | one h | two h | three h => omega
  · rintro ⟨b, c, d, r, rfl, h, hb, hc, hd, hlow, hhigh, hr⟩
    exact ⟨[b, c, d], r, rfl, .four ⟨ha.1, h⟩ hb hc hd hlow hhigh, hr⟩

/-- No character begins so. -/
theorem not_utf8_of_lead (ha : 128 ≤ a.toNat ∧ a.toNat < 192 ∨ 248 ≤ a.toNat) :
    ¬ Utf8 (a :: s) := by
  rw [utf8_cons_iff]
  rintro ⟨t, r, rfl, hseq, -⟩
  cases hseq with
  | one h | two h | three h | four h => omega

end

end Library
