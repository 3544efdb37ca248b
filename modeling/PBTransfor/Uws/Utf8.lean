import PBTransfor.Library.Utf8
import PBTransfor.Uws.Mask

/-!
# Uws — text

`WebSocketProtocol::isValidUtf8` looks at the bytes of a text with masks, and passes over four of
ASCII at once.  `isValidUtf8_iff`: it accepts the encodings of texts, and nothing else.
-/

namespace PBTransfor.Uws

open Library

/-- `!(*s & 0x80)`. -/
def isAscii (b : Byte) : Bool := b &&& 0x80 = 0

/-- `(*s & 0xc0) != 0x80`. -/
def notTail (b : Byte) : Bool := b &&& 0xc0 ≠ 0x80

/-- A character of several bytes, the first of which is `s₀`: what lies behind it, or nothing where
the source returns `false`. -/
def skipMultibyte (s₀ : Byte) (s : List Byte) : Option (List Byte) :=
  if s₀ &&& 0x60 = 0x40 then
    match s with
    | s₁ :: s => if notTail s₁ || s₀ &&& 0xfe = 0xc0 then none else some s
    | _ => none
  else if s₀ &&& 0xf0 = 0xe0 then
    match s with
    | s₁ :: s₂ :: s =>
        if notTail s₁ || notTail s₂ || s₀ = 0xe0 && s₁ &&& 0xe0 = 0x80 ||
          s₀ = 0xed && s₁ &&& 0xe0 = 0xa0 then none
        else some s
    | _ => none
  else if s₀ &&& 0xf8 = 0xf0 then
    match s with
    | s₁ :: s₂ :: s₃ :: s =>
        if notTail s₁ || notTail s₂ || notTail s₃ || s₀ = 0xf0 && s₁ &&& 0xf0 = 0x80 ||
          s₀ = 0xf4 && s₁ > 0x8f || s₀ > 0xf4 then none
        else some s
    | _ => none
  else none

/-- The loop of `isValidUtf8`, on the bytes from `s` to `e`.  Each round takes at least one. -/
def isValidUtf8Loop : Nat → List Byte → Bool
  | 0, _ => true
  | fuel + 1, s =>
      if s = [] then true
      else if 4 ≤ s.length && (s.take 4).all isAscii then isValidUtf8Loop fuel (s.drop 4)
      else
        match s.dropWhile isAscii with
        | [] => true
        | s₀ :: s =>
            match skipMultibyte s₀ s with
            | some s => isValidUtf8Loop fuel s
            | none => false

def isValidUtf8 (s : List Byte) : Bool := isValidUtf8Loop s.length s

/-! ### The masks -/

/-- What holds of all 256 bytes. -/
theorem forall_byte {P : Byte → Prop} (h : ∀ n < 256, P (UInt8.ofNat n)) (b : Byte) : P b := by
  have hb := h b.toNat b.toNat_lt
  rwa [UInt8.ofNat_toNat] at hb

theorem isAscii_iff (b : Byte) : isAscii b = true ↔ b.toNat < 128 :=
  forall_byte (P := fun b => isAscii b = true ↔ b.toNat < 128) (by decide +kernel) b

theorem notTail_iff (b : Byte) : notTail b = false ↔ Tail b :=
  forall_byte (P := fun b => notTail b = false ↔ 128 ≤ b.toNat ∧ b.toNat < 192)
    (by decide +kernel) b

/-- What the first byte says of a character that is not ASCII. -/
theorem lead_iff (b : Byte) (h : 128 ≤ b.toNat) :
    (b &&& 0x60 = 0x40 ↔ 192 ≤ b.toNat ∧ b.toNat < 224) ∧
    (b &&& 0xf0 = 0xe0 ↔ 224 ≤ b.toNat ∧ b.toNat < 240) ∧
    (b &&& 0xf8 = 0xf0 ↔ 240 ≤ b.toNat ∧ b.toNat < 248) ∧
    (b &&& 0xfe = 0xc0 ↔ b.toNat < 194 ∧ 192 ≤ b.toNat) :=
  forall_byte (P := fun b => 128 ≤ b.toNat →
    (b &&& 0x60 = 0x40 ↔ 192 ≤ b.toNat ∧ b.toNat < 224) ∧
    (b &&& 0xf0 = 0xe0 ↔ 224 ≤ b.toNat ∧ b.toNat < 240) ∧
    (b &&& 0xf8 = 0xf0 ↔ 240 ≤ b.toNat ∧ b.toNat < 248) ∧
    (b &&& 0xfe = 0xc0 ↔ b.toNat < 194 ∧ 192 ≤ b.toNat)) (by decide +kernel) b h

/-- What the second byte says. -/
theorem second_iff (b : Byte) :
    (b &&& 0xe0 = 0x80 ↔ 128 ≤ b.toNat ∧ b.toNat < 160) ∧
    (b &&& 0xe0 = 0xa0 ↔ 160 ≤ b.toNat ∧ b.toNat < 192) ∧
    (b &&& 0xf0 = 0x80 ↔ 128 ≤ b.toNat ∧ b.toNat < 144) ∧
    (b > 0x8f ↔ 144 ≤ b.toNat) :=
  forall_byte (P := fun b =>
    (b &&& 0xe0 = 0x80 ↔ 128 ≤ b.toNat ∧ b.toNat < 160) ∧
    (b &&& 0xe0 = 0xa0 ↔ 160 ≤ b.toNat ∧ b.toNat < 192) ∧
    (b &&& 0xf0 = 0x80 ↔ 128 ≤ b.toNat ∧ b.toNat < 144) ∧
    (b > 0x8f ↔ 144 ≤ b.toNat)) (by decide +kernel) b

/-- ASCII is passed over. -/
theorem utf8_dropWhile_iff (s : List Byte) : Utf8 (s.dropWhile isAscii) ↔ Utf8 s := by
  induction s with
  | nil => rfl
  | cons a s ih =>
      rw [List.dropWhile_cons]
      split
      · next ha => rw [ih, utf8_one_iff ((isAscii_iff a).mp ha)]
      · rfl

theorem utf8_drop_iff {s : List Byte} {n : Nat} (h : (s.take n).all isAscii = true) :
    Utf8 (s.drop n) ↔ Utf8 s := by
  induction n generalizing s with
  | zero => rfl
  | succ n ih =>
      cases s with
      | nil => rfl
      | cons a s =>
          rw [List.take_succ_cons, List.all_cons, Bool.and_eq_true] at h
          rw [List.drop_succ_cons, ih h.2, utf8_one_iff ((isAscii_iff a).mp h.1)]

/-! ### The loop -/

theorem two_ok {s₀ s₁ : Byte} (h₀ : 192 ≤ s₀.toNat ∧ s₀.toNat < 224) :
    (notTail s₁ || s₀ &&& 0xfe = 0xc0) = false ↔ 194 ≤ s₀.toNat ∧ Tail s₁ := by
  have hover := (lead_iff s₀ (by omega)).2.2.2
  rw [Bool.or_eq_false_iff, notTail_iff, decide_eq_false_iff_not, hover, and_comm]
  refine and_congr_left fun _ => ?_
  omega

theorem eq_iff_toNat {a b : Byte} : a = b ↔ a.toNat = b.toNat := UInt8.toNat_inj.symm

theorem three_ok {s₀ s₁ s₂ : Byte} : (notTail s₁ || notTail s₂ ||
      s₀ = 0xe0 && s₁ &&& 0xe0 = 0x80 || s₀ = 0xed && s₁ &&& 0xe0 = 0xa0) = false ↔
    Tail s₁ ∧ Tail s₂ ∧ (s₀.toNat = 224 → 160 ≤ s₁.toNat) ∧
      (s₀.toNat = 237 → s₁.toNat < 160) := by
  obtain ⟨hlow, hhigh, -, -⟩ := second_iff s₁
  simp only [Bool.or_eq_false_iff, Bool.and_eq_false_iff, notTail_iff, decide_eq_false_iff_not,
    hlow, hhigh, eq_iff_toNat (a := s₀), and_assoc, Tail, UInt8.reduceToNat]
  omega

theorem four_ok {s₀ s₁ s₂ s₃ : Byte} : (notTail s₁ || notTail s₂ || notTail s₃ ||
      s₀ = 0xf0 && s₁ &&& 0xf0 = 0x80 || s₀ = 0xf4 && s₁ > 0x8f || s₀ > 0xf4) = false ↔
    s₀.toNat < 245 ∧ Tail s₁ ∧ Tail s₂ ∧ Tail s₃ ∧ (s₀.toNat = 240 → 144 ≤ s₁.toNat) ∧
      (s₀.toNat = 244 → s₁.toNat < 144) := by
  obtain ⟨-, -, hlow, hhigh⟩ := second_iff s₁
  simp only [Bool.or_eq_false_iff, Bool.and_eq_false_iff, notTail_iff, decide_eq_false_iff_not,
    hlow, hhigh, eq_iff_toNat (a := s₀), and_assoc, Tail, gt_iff_lt, UInt8.lt_iff_toNat_lt,
    UInt8.reduceToNat]
  omega

theorem length_skipMultibyte {s₀ : Byte} {s r : List Byte} (h : skipMultibyte s₀ s = some r) :
    r.length ≤ s.length := by
  have hcheck : ∀ (c : Bool) (t : List Byte), (if c = true then none else some t) = some r →
      r = t := by
    intro c t h
    cases c <;> simp at h
    exact h.symm
  unfold skipMultibyte at h
  split at h
  · split at h
    · rw [hcheck _ _ h]
      simp
    · cases h
  split at h
  · split at h
    · rw [hcheck _ _ h]
      simp only [List.length_cons]
      omega
    · cases h
  split at h
  · split at h
    · rw [hcheck _ _ h]
      simp only [List.length_cons]
      omega
    · cases h
  · cases h

/-- **A character of several bytes.** -/
theorem utf8_multibyte_iff {s₀ : Byte} (h₀ : 128 ≤ s₀.toNat) (s : List Byte) :
    Utf8 (s₀ :: s) ↔ ∃ r, skipMultibyte s₀ s = some r ∧ Utf8 r := by
  obtain ⟨h2, h3, h4, -⟩ := lead_iff s₀ h₀
  -- the check of a branch, and what is behind the character
  have hcheck : ∀ (c : Bool) (r : List Byte) (P : Prop), (c = false ↔ P) →
      ((∃ r', (if c = true then none else some r) = some r' ∧ Utf8 r') ↔ P ∧ Utf8 r) := by
    intro c r P hc
    rw [← hc]
    cases c <;> simp
  simp only [skipMultibyte]
  split
  · next hlead =>
      rw [utf8_two_iff (h2.mp hlead)]
      rcases s with _ | ⟨s₁, r⟩
      · simp
      · simp only [hcheck _ r _ (two_ok (h2.mp hlead))]
        simp [and_assoc]
  next hn2 =>
  split
  · next hlead =>
      rw [utf8_three_iff (h3.mp hlead)]
      rcases s with _ | ⟨s₁, _ | ⟨s₂, r⟩⟩
      · simp
      · simp
      · simp only [hcheck _ r _ three_ok]
        simp [and_assoc]
  next hn3 =>
  split
  · next hlead =>
      rw [utf8_four_iff (h4.mp hlead)]
      rcases s with _ | ⟨s₁, _ | ⟨s₂, _ | ⟨s₃, r⟩⟩⟩
      · simp
      · simp
      · simp
      · simp only [hcheck _ r _ four_ok]
        simp [and_assoc]
  next hn4 =>
  rw [h2] at hn2
  rw [h3] at hn3
  rw [h4] at hn4
  have hno : ¬ Utf8 (s₀ :: s) := not_utf8_of_lead (by omega)
  simp [hno]

theorem isValidUtf8Loop_iff : ∀ (fuel : Nat) (s : List Byte), s.length ≤ fuel →
    (isValidUtf8Loop fuel s = true ↔ Utf8 s)
  | 0, s, hle => by
      rw [List.eq_nil_of_length_eq_zero (Nat.le_zero.mp hle)]
      exact iff_of_true rfl utf8_nil
  | fuel + 1, s, hle => by
      rw [isValidUtf8Loop]
      split
      · next h => rw [h]; exact iff_of_true rfl utf8_nil
      next hne =>
      have hpos : 0 < s.length := List.length_pos_iff.mpr hne
      split
      -- four bytes at once, when none of them has its highest bit set
      · next hfast =>
          rw [Bool.and_eq_true, decide_eq_true_eq] at hfast
          rw [isValidUtf8Loop_iff fuel _ (by rw [List.length_drop]; omega), utf8_drop_iff hfast.2]
      · have hdrop : (s.dropWhile isAscii).length ≤ s.length :=
          (List.dropWhile_suffix isAscii).length_le
        rw [← utf8_dropWhile_iff s]
        cases h : s.dropWhile isAscii with
        | nil => exact iff_of_true rfl utf8_nil
        | cons s₀ r =>
            have h₀ : 128 ≤ s₀.toNat := by
              have hhead := List.head_dropWhile_not isAscii (l := s) (by rw [h]; simp)
              simp only [h, List.head_cons] at hhead
              rw [← Bool.not_eq_true, isAscii_iff] at hhead
              omega
            rw [h, List.length_cons] at hdrop
            rw [utf8_multibyte_iff h₀]
            cases hskip : skipMultibyte s₀ r with
            | none => simp [hskip]
            | some t =>
                have ht := length_skipMultibyte hskip
                simpa [hskip] using isValidUtf8Loop_iff fuel t (by omega)

/-- **`isValidUtf8` accepts the encodings of texts.** -/
theorem isValidUtf8_iff (s : List Byte) : isValidUtf8 s = true ↔ Utf8 s :=
  isValidUtf8Loop_iff s.length s (Nat.le_refl _)

instance : DecidablePred Utf8 := fun s => decidable_of_iff _ (isValidUtf8_iff s)

/-- These are the bytes of strings. -/
theorem isValidUtf8_toByteArray (s : List Byte) :
    isValidUtf8 s = true ↔ s.toByteArray.IsValidUTF8 := by
  rw [isValidUtf8_iff]
  constructor
  · rintro ⟨cs, rfl⟩
    exact ⟨cs, rfl⟩
  · rintro ⟨cs, h⟩
    exact ⟨cs, List.toByteArray_inj.mp h⟩

end PBTransfor.Uws
