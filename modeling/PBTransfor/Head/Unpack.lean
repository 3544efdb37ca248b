import PBTransfor.Head.Frames

/-!
# Head — proto:unpack

`proto:unpack` of `GMsgHead.lua` takes the four bytes of a header apart again.

* `codec_bijective`: on tables whose fields have their declared number of bits, and on strings
  of four bytes, `proto:pack` and `proto:unpack` are inverse to each other.
* `pack_raises_iff`: a field that has more bits is not always refused.  What `proto:pack` checks
  is the byte of the flags (`pack_ok_iff`), in which there is room above some of them.
-/

namespace PBTransfor.Head

open Library

/-! ### string.unpack -/

/-- `unpackint`, unsigned and little endian: the last byte comes first. -/
def unpackint : List UInt8 → LuaInteger
  | [] => 0
  | b :: bs => unpackint bs <<< 8 ||| b.toBitVec.setWidth 64

/-- `string.unpack("<I" .. size, data, pos)`, for a size of `SZINT` at most: the case `Kuint` of
`str_unpack`. -/
def unpackUint (size : Nat) (data : LuaString) (pos : Nat) : Except LuaError LuaInteger :=
  if data.bytes.length < pos - 1 then .error (.argument 3 "initial position out of string")
  else if data.bytes.length < pos - 1 + size then .error (.argument 2 "data string too short")
  else .ok (unpackint ((data.bytes.drop (pos - 1)).take size))

/-- `proto:unpack`. -/
def unpack (msgHead : LuaString) : Except LuaError Table := do
  let length ← unpackUint 3 msgHead 1
  let typeFlag := (← unpackUint 1 msgHead 4) >>> 7
  let controlFlag := (← unpackUint 1 msgHead 4) >>> 5 &&& 3
  let magicFlag := (← unpackUint 1 msgHead 4) >>> 4 &&& 1
  let reflectFlag := (← unpackUint 1 msgHead 4) >>> 3 &&& 1
  let reserveFlag := (← unpackUint 1 msgHead 4) >>> 1 &&& 3
  let extendFlag := (← unpackUint 1 msgHead 4) &&& 1
  return fun
    | .length => some length
    | .typeFlag => some typeFlag
    | .controlFlag => some controlFlag
    | .magicFlag => some magicFlag
    | .reflectFlag => some reflectFlag
    | .reserveFlag => some reserveFlag
    | .extendFlag => some extendFlag

/-- The fields have the number of bits `proto.MsgHead` declares. -/
def InRange (t : Table) : Prop :=
  ∀ e ∈ msgHead, 0 ≤ (t.value e.1).toInt ∧ (t.value e.1).toInt < 2 ^ e.2

instance (t : Table) : Decidable (InRange t) := inferInstanceAs (Decidable (∀ e ∈ msgHead, _))

theorem toNat_unpackint {bs : List UInt8} (h : bs.length ≤ szInt) :
    (unpackint bs).toNat = valueLE bs := by
  induction bs with
  | nil => rfl
  | cons b bs ih =>
      simp only [szInt, List.length_cons] at h ih
      have hb : b.toNat < 2 ^ 8 := b.toNat_lt
      have hlt : valueLE bs < 2 ^ 56 := by
        refine Nat.lt_of_lt_of_le (valueLE_lt bs) ?_
        exact Nat.le_trans (Nat.pow_le_pow_right (by decide) (show bs.length ≤ 7 by omega))
          (by decide)
      have hmod : valueLE bs <<< 8 % 2 ^ 64 = valueLE bs <<< 8 := by
        rw [Nat.shiftLeft_eq]
        omega
      have hwide : (b.toBitVec.setWidth 64).toNat = b.toNat := by
        rw [BitVec.toNat_setWidth, UInt8.toNat_toBitVec]
        omega
      rw [unpackint, BitVec.toNat_or, BitVec.toNat_shiftLeft, ih (by omega), hmod, hwide,
        ← Nat.shiftLeft_add_eq_or_of_lt hb, Nat.shiftLeft_eq, valueLE_cons]
      omega

/-- A string long enough is read. -/
theorem unpackUint_ok (size pos : Nat) {data : LuaString} (hs : size ≤ szInt)
    (h : pos - 1 + size ≤ data.bytes.length) : ∃ n, unpackUint size data pos = .ok n ∧
      n.toNat = valueLE ((data.bytes.drop (pos - 1)).take size) := by
  refine ⟨_, ?_, toNat_unpackint (Nat.le_trans (List.length_take_le ..) hs)⟩
  rw [unpackUint, if_neg (by omega), if_neg (by omega)]

/-- A string too short is not. -/
theorem unpackUint_error (size pos : Nat) {data : LuaString}
    (h : data.bytes.length < pos - 1 + size) : ∃ e, unpackUint size data pos = .error e := by
  rw [unpackUint]
  split
  · exact ⟨_, rfl⟩
  · exact ⟨_, rfl⟩

/-! ### The byte of the flags -/

/-- What shifting a number left by `a` and right by `b` leaves of it. -/
def shifted (n a b : Nat) : Nat := n * 2 ^ a % 2 ^ 64 / 2 ^ b

/-- The flags, each with its shifts to the left and to the right. -/
def shifts : List (Key × Nat × Nat) :=
  [(.typeFlag, 7, 0), (.controlFlag, 6, 1), (.magicFlag, 7, 3), (.reflectFlag, 7, 4),
    (.reserveFlag, 6, 5), (.extendFlag, 7, 7)]

theorem toNat_shifted (x : LuaInteger) (a b : Nat) :
    (x <<< a >>> b).toNat = shifted x.toNat a b := by
  rw [BitVec.toNat_ushiftRight, BitVec.toNat_shiftLeft, Nat.shiftLeft_eq, Nat.shiftRight_eq_div_pow,
    shifted]

theorem toNat_flagsOf (t : Table) : (flagsOf t).toNat =
    shifted (t.value .typeFlag).toNat 7 0 ||| shifted (t.value .controlFlag).toNat 6 1 |||
      shifted (t.value .magicFlag).toNat 7 3 ||| shifted (t.value .reflectFlag).toNat 7 4 |||
      shifted (t.value .reserveFlag).toNat 6 5 ||| shifted (t.value .extendFlag).toNat 7 7 := by
  have htype : (t.value .typeFlag <<< 7).toNat = shifted (t.value .typeFlag).toNat 7 0 := by
    rw [← toNat_shifted, BitVec.ushiftRight_zero]
  simp only [flagsOf, htype, BitVec.toNat_or, toNat_shifted]

/-- A number is placed where it is shifted to when it has room on the left. -/
theorem shifted_eq {n a b : Nat} (h : n < 2 ^ (64 - a)) (ha : a ≤ 64) (hb : b ≤ a) :
    shifted n a b = n * 2 ^ (a - b) := by
  have hpow : 2 ^ 64 = 2 ^ (64 - a) * 2 ^ a := by rw [← pow_add]; congr 1; omega
  have hab : 2 ^ a = 2 ^ (a - b) * 2 ^ b := by rw [← pow_add]; congr 1; omega
  rw [shifted, hpow, Nat.mul_mod_mul_right, Nat.mod_eq_of_lt h, hab, ← Nat.mul_assoc,
    Nat.mul_div_cancel _ (Nat.two_pow_pos b)]

/-- The high bits of a number may fall out on the left; what is left of it fits a byte when it is
below the room there is. -/
theorem shifted_lt_iff {n a b : Nat} (ha : a ≤ 64) (hab : a ≤ 8 + b) :
    shifted n a b < 2 ^ 8 ↔ n % 2 ^ (64 - a) < 2 ^ (8 + b - a) := by
  have hpow : 2 ^ 64 = 2 ^ (64 - a) * 2 ^ a := by rw [← pow_add]; congr 1; omega
  have hroom : 2 ^ 8 * 2 ^ b = 2 ^ (8 + b - a) * 2 ^ a := by
    rw [← pow_add, ← pow_add]; congr 1; omega
  rw [shifted, hpow, Nat.mul_mod_mul_right, Nat.div_lt_iff_lt_mul (Nat.two_pow_pos b), hroom,
    Nat.mul_lt_mul_right (Nat.two_pow_pos a)]

theorem or_lt_iff {x y n : Nat} : x ||| y < 2 ^ n ↔ x < 2 ^ n ∧ y < 2 ^ n := by
  constructor
  · intro h
    exact ⟨Nat.lt_of_le_of_lt Nat.left_le_or h, Nat.lt_of_le_of_lt Nat.right_le_or h⟩
  · rintro ⟨hx, hy⟩
    exact Nat.or_lt_two_pow hx hy

/-- Numbers with no bit in common. -/
theorem or_eq {x y z : Nat} (i q : Nat) (hx : x = 2 ^ i * q) (hy : y < 2 ^ i) (hz : z = x + y) :
    x ||| y = z := by
  rw [hz, hx, Nat.two_pow_add_eq_or_of_lt hy]

/-- The length has 24 bits, and what the shifts leave of each flag has room in the byte. -/
def Accepted (t : Table) : Prop :=
  (t.value .length).toNat < 2 ^ 24 ∧
    ∀ e ∈ shifts, (t.value e.1).toNat % 2 ^ (64 - e.2.1) < 2 ^ (8 + e.2.2 - e.2.1)

instance (t : Table) : Decidable (Accepted t) :=
  inferInstanceAs (Decidable (_ ∧ ∀ e ∈ shifts, _))

theorem flagsOf_lt_iff (t : Table) : (flagsOf t).toNat < 256 ^ 1 ↔
    ∀ e ∈ shifts, (t.value e.1).toNat % 2 ^ (64 - e.2.1) < 2 ^ (8 + e.2.2 - e.2.1) := by
  have hbyte : 256 ^ 1 = 2 ^ 8 := by decide
  rw [hbyte, toNat_flagsOf]
  simp only [or_lt_iff, shifts, List.forall_mem_cons, and_assoc]
  simp only [shifted_lt_iff (a := 7) (b := 0) (by decide) (by decide),
    shifted_lt_iff (a := 6) (b := 1) (by decide) (by decide),
    shifted_lt_iff (a := 7) (b := 3) (by decide) (by decide),
    shifted_lt_iff (a := 7) (b := 4) (by decide) (by decide),
    shifted_lt_iff (a := 6) (b := 5) (by decide) (by decide),
    shifted_lt_iff (a := 7) (b := 7) (by decide) (by decide)]
  simp

/-- **What proto:pack accepts.** -/
theorem pack_ok_iff (t : Table) : (∃ s, pack t = .ok s) ↔ Accepted t := by
  have hlen : (2 : Nat) ^ 24 = 256 ^ 3 := by decide
  rw [Accepted, ← flagsOf_lt_iff, hlen]
  constructor
  · rintro ⟨s, hs⟩
    rcases Nat.lt_or_ge (t.value .length).toNat (256 ^ 3) with h | h
    · refine ⟨h, Nat.lt_of_not_le fun hflags => ?_⟩
      obtain ⟨s₁, h₁, -⟩ := packUint_ok (by decide) h
      rw [pack_eq, h₁, packUint_error (by decide) (by decide) hflags] at hs
      cases hs
    · rw [pack_error h] at hs
      cases hs
  · rintro ⟨h, hflags⟩
    obtain ⟨s, hs, -⟩ := pack_ok h hflags
    exact ⟨s, hs⟩

/-! ### Fields in their range -/

theorem toInt_lt_iff {x : LuaInteger} {n : Nat} (hn : n ≤ 62) :
    (0 ≤ x.toInt ∧ x.toInt < 2 ^ n) ↔ x.toNat < 2 ^ n := by
  have hpow : (2 : Nat) ^ n ≤ 2 ^ 62 := Nat.pow_le_pow_right (by decide) hn
  have hcast : ((2 ^ n : Nat) : Int) = 2 ^ n := by push_cast; rfl
  rw [← hcast, BitVec.toInt_eq_toNat_cond]
  split <;> omega

theorem inRange_iff (t : Table) : InRange t ↔ ∀ e ∈ msgHead, (t.value e.1).toNat < 2 ^ e.2 := by
  refine forall₂_congr fun e he => toInt_lt_iff ?_
  revert e
  decide

/-- The byte of flags in their range: each has its own bits. -/
theorem flagsOf_of_inRange {t : Table} (h : InRange t) : (flagsOf t).toNat =
    128 * (t.value .typeFlag).toNat + 32 * (t.value .controlFlag).toNat +
      16 * (t.value .magicFlag).toNat + 8 * (t.value .reflectFlag).toNat +
      2 * (t.value .reserveFlag).toNat + (t.value .extendFlag).toNat := by
  rw [inRange_iff] at h
  simp only [msgHead, List.forall_mem_cons] at h
  obtain ⟨-, ht, hc, hm, hr, hv, he, -⟩ := h
  rw [toNat_flagsOf, shifted_eq (by omega) (by decide) (by decide),
    shifted_eq (by omega) (by decide) (by decide), shifted_eq (by omega) (by decide) (by decide),
    shifted_eq (by omega) (by decide) (by decide), shifted_eq (by omega) (by decide) (by decide),
    shifted_eq (by omega) (by decide) (by decide)]
  generalize (t.value .typeFlag).toNat = a at ht ⊢
  generalize (t.value .controlFlag).toNat = b at hc ⊢
  generalize (t.value .magicFlag).toNat = c at hm ⊢
  generalize (t.value .reflectFlag).toNat = d at hr ⊢
  generalize (t.value .reserveFlag).toNat = e at hv ⊢
  have h₁ : a * 2 ^ (7 - 0) ||| b * 2 ^ (6 - 1) = 32 * (4 * a + b) :=
    or_eq 7 a (by omega) (by omega) (by omega)
  have h₂ : 32 * (4 * a + b) ||| c * 2 ^ (7 - 3) = 16 * (8 * a + 2 * b + c) :=
    or_eq 5 (4 * a + b) (by omega) (by omega) (by omega)
  have h₃ : 16 * (8 * a + 2 * b + c) ||| d * 2 ^ (7 - 4) = 8 * (16 * a + 4 * b + 2 * c + d) :=
    or_eq 4 (8 * a + 2 * b + c) (by omega) (by omega) (by omega)
  have h₄ : 8 * (16 * a + 4 * b + 2 * c + d) ||| e * 2 ^ (6 - 5) =
      2 * (64 * a + 16 * b + 8 * c + 4 * d + e) :=
    or_eq 3 (16 * a + 4 * b + 2 * c + d) (by omega) (by omega) (by omega)
  rw [h₁, h₂, h₃, h₄]
  exact or_eq 1 (64 * a + 16 * b + 8 * c + 4 * d + e) (by omega) (by omega) (by omega)

theorem accepted_of_inRange {t : Table} (h : InRange t) : Accepted t := by
  have hflags : (flagsOf t).toNat < 256 ^ 1 := by
    have heq := flagsOf_of_inRange h
    rw [inRange_iff] at h
    simp only [msgHead, List.forall_mem_cons] at h
    omega
  refine ⟨(inRange_iff t).mp h (.length, 24) (by simp [msgHead]), (flagsOf_lt_iff t).mp hflags⟩

/-! ### The two directions -/

/-- What `proto:unpack` reads in a header of four bytes: a length, and the fields of a byte. -/
structure Unpacked (t : Table) (length flags : Nat) : Prop where
  length : (t.value .length).toNat = length
  typeFlag : (t.value .typeFlag).toNat = flags / 128
  controlFlag : (t.value .controlFlag).toNat = flags / 32 % 4
  magicFlag : (t.value .magicFlag).toNat = flags / 16 % 2
  reflectFlag : (t.value .reflectFlag).toNat = flags / 8 % 2
  reserveFlag : (t.value .reserveFlag).toNat = flags / 2 % 4
  extendFlag : (t.value .extendFlag).toNat = flags % 2

theorem unpack_ok {s : LuaString} {b : UInt8} (hlen : 4 ≤ s.bytes.length)
    (hb : (s.bytes.drop 3).take 1 = [b]) : ∃ t, unpack s = .ok t ∧ (∀ key, t key ≠ none) ∧
      Unpacked t (valueLE (s.bytes.take 3)) b.toNat := by
  obtain ⟨n, hn, hval⟩ := unpackUint_ok 3 1 (by decide) (Nat.le_trans (by decide) hlen)
  obtain ⟨m, hm, hflags⟩ := unpackUint_ok 1 4 (by decide) hlen
  rw [hb, valueLE_cons, valueLE_nil, Nat.mul_zero, Nat.add_zero] at hflags
  have hone : ∀ k : Nat, k &&& (1 : LuaInteger).toNat = k % 2 := fun k =>
    Nat.and_two_pow_sub_one_eq_mod k 1
  have hthree : ∀ k : Nat, k &&& (3 : LuaInteger).toNat = k % 4 := fun k =>
    Nat.and_two_pow_sub_one_eq_mod k 2
  refine ⟨_, by rw [unpack, hn, hm]; rfl, fun key => by cases key <;> simp, ?_⟩
  constructor <;> simp only [Table.value, Option.getD_some, BitVec.toNat_and,
    BitVec.toNat_ushiftRight, Nat.shiftRight_eq_div_pow, hone, hthree, hflags]
  exact hval

/-- A string shorter than a header is not unpacked. -/
theorem unpack_error {s : LuaString} (hlen : s.bytes.length < 4) : ∃ e, unpack s = .error e := by
  obtain ⟨e, he⟩ := unpackUint_error 1 4 hlen
  rw [unpack]
  cases unpackUint 3 s 1 with
  | error e' => exact ⟨e', rfl⟩
  | ok n => exact ⟨e, by rw [he]; rfl⟩

/-- A header that was unpacked has its fields in range. -/
theorem Unpacked.inRange {t : Table} {b : UInt8} {bs : List UInt8}
    (h : Unpacked t (valueLE bs) b.toNat) (hbs : bs.length = 3) : InRange t := by
  obtain ⟨hl, ht, hc, hm, hr, hv, he⟩ := h
  have hlt := valueLE_lt bs
  have hb := b.toNat_lt
  rw [hbs] at hlt
  rw [inRange_iff]
  simp only [msgHead, List.forall_mem_cons]
  refine ⟨?_, ?_, ?_, ?_, ?_, ?_, ?_, by simp⟩ <;> omega

/-- The fields of a table in range are what is read in its byte. -/
theorem unpacked_of_inRange {t : Table} (h : InRange t) :
    Unpacked t (t.value .length).toNat (flagsOf t).toNat := by
  have heq := flagsOf_of_inRange h
  rw [inRange_iff] at h
  simp only [msgHead, List.forall_mem_cons] at h
  constructor <;> omega

/-- Fields that were read are packed into the byte they were read in. -/
theorem Unpacked.flagsOf_eq {t : Table} {length : Nat} {b : UInt8} (h : Unpacked t length b.toNat)
    (hr : InRange t) : (flagsOf t).toNat = b.toNat := by
  have hb := b.toNat_lt
  rw [flagsOf_of_inRange hr, h.typeFlag, h.controlFlag, h.magicFlag, h.reflectFlag, h.reserveFlag,
    h.extendFlag]
  omega

theorem Unpacked.value_eq {t t' : Table} {length flags : Nat} (h : Unpacked t length flags)
    (h' : Unpacked t' length flags) : t.value = t'.value := by
  funext key
  apply BitVec.eq_of_toNat_eq
  cases key with
  | length => rw [h.length, h'.length]
  | typeFlag => rw [h.typeFlag, h'.typeFlag]
  | controlFlag => rw [h.controlFlag, h'.controlFlag]
  | magicFlag => rw [h.magicFlag, h'.magicFlag]
  | reflectFlag => rw [h.reflectFlag, h'.reflectFlag]
  | reserveFlag => rw [h.reserveFlag, h'.reserveFlag]
  | extendFlag => rw [h.extendFlag, h'.extendFlag]

theorem bytesLE_one (b : UInt8) : bytesLE 1 b.toNat = [b] := by
  rw [bytesLE, bytesLE, UInt8.ofNat_toNat]

/-- **Unpacking what was packed**, with anything behind it. -/
theorem unpack_pack {t : Table} (h : InRange t) : ∃ head, pack t = .ok head ∧
    head.bytes.length = 4 ∧ ∀ s : LuaString, head.bytes <+: s.bytes →
      unpack s = .ok fun key => some (t.value key) := by
  obtain ⟨hlen, hroom⟩ := accepted_of_inRange h
  have hflags := (flagsOf_lt_iff t).mpr hroom
  obtain ⟨head, hpack, hbytes⟩ := pack_ok hlen hflags
  refine ⟨head, hpack, by rw [hbytes, List.length_append, length_bytesLE, length_bytesLE], ?_⟩
  rintro s ⟨rest, hs⟩
  obtain ⟨b, hb⟩ : ∃ b : UInt8, b.toNat = (flagsOf t).toNat :=
    ⟨UInt8.ofNat (flagsOf t).toNat, by rw [UInt8.toNat_ofNat']; omega⟩
  rw [hbytes, ← hb, bytesLE_one, List.append_assoc] at hs
  have htake : s.bytes.take 3 = bytesLE 3 (t.value .length).toNat := by
    rw [← hs, List.take_left' (length_bytesLE 3 _)]
  have hdrop : (s.bytes.drop 3).take 1 = [b] := by
    rw [← hs, List.drop_left' (length_bytesLE 3 _)]
    rfl
  have hlong : 4 ≤ s.bytes.length := by
    rw [← hs, List.length_append, length_bytesLE, List.length_append, List.length_singleton]
    omega
  obtain ⟨t', ht', hsome, hun⟩ := unpack_ok hlong hdrop
  rw [htake, valueLE_bytesLE hlen, hb] at hun
  -- the flags determine the fields, so that they are those that were packed
  have hval := hun.value_eq (unpacked_of_inRange h)
  rw [ht']
  congr 1
  funext key
  obtain ⟨n, hn⟩ := Option.ne_none_iff_exists'.mp (hsome key)
  rw [hn, ← hval, Table.value, hn, Option.getD_some]

/-- **Packing what was unpacked.** -/
theorem pack_unpack {s : LuaString} (h : 4 ≤ s.bytes.length) : ∃ t head, unpack s = .ok t ∧
    pack t = .ok head ∧ head.bytes = s.bytes.take 4 := by
  obtain ⟨b, hb⟩ : ∃ b, (s.bytes.drop 3).take 1 = [b] := by
    rw [← List.length_eq_one_iff, List.length_take, List.length_drop]
    omega
  obtain ⟨t, ht, -, hun⟩ := unpack_ok h hb
  have hthree : (s.bytes.take 3).length = 3 := by rw [List.length_take]; omega
  have hr := hun.inRange hthree
  obtain ⟨hlen, hroom⟩ := accepted_of_inRange hr
  obtain ⟨head, hpack, hbytes⟩ := pack_ok hlen ((flagsOf_lt_iff t).mpr hroom)
  refine ⟨t, head, ht, hpack, ?_⟩
  have hlow : bytesLE 3 (valueLE (s.bytes.take 3)) = s.bytes.take 3 := by
    simpa only [hthree] using bytesLE_valueLE (s.bytes.take 3)
  rw [hbytes, hun.length, hun.flagsOf_eq hr, bytesLE_one, hlow, ← hb]
  exact (List.take_add (i := 3) (j := 1)).symm

/-- **The codec is a bijection**, between the tables whose fields are in range, absent ones read as
`0`, and the strings of four bytes; what stands behind a header does not matter, and less than a
header is refused. -/
theorem codec_bijective :
    (∀ t, InRange t → ∃ head, pack t = .ok head ∧ head.bytes.length = 4 ∧
      ∀ rest : LuaString, (head.bytes ++ rest.bytes).length < maxSize →
        ∃ s, head.concat rest = .ok s ∧ unpack s = .ok fun key => some (t.value key)) ∧
    (∀ s : LuaString, 4 ≤ s.bytes.length → ∃ t head, unpack s = .ok t ∧ pack t = .ok head ∧
      head.bytes = s.bytes.take 4) ∧
    ∀ s : LuaString, s.bytes.length < 4 → ∃ e, unpack s = .error e := by
  refine ⟨fun t h => ?_, fun s => pack_unpack, fun s => unpack_error⟩
  obtain ⟨head, hpack, hlen, hun⟩ := unpack_pack h
  refine ⟨head, hpack, hlen, fun rest hrest => ?_⟩
  obtain ⟨s, hs, hb⟩ := LuaString.concat_ok hrest
  exact ⟨s, hs, hun s ⟨rest.bytes, hb.symm⟩⟩

/-- A table with some of its fields. -/
def sampleTable : Table
  | .length => some 3
  | .controlFlag => some 2
  | .extendFlag => some 1
  | _ => none

/-- `codec_bijective` at a table, and at the header it is packed into. -/
theorem codec_bijective_sample :
    (∃ head s, pack sampleTable = .ok head ∧ head.concat ⟨[7, 8, 9], by decide⟩ = .ok s ∧
      unpack s = .ok fun key => some (sampleTable.value key)) ∧
    (∃ t head, unpack ⟨[3, 0, 0, 0x41, 7], by decide⟩ = .ok t ∧ pack t = .ok head ∧
      head.bytes = [3, 0, 0, 0x41]) ∧
    ∃ e, unpack ⟨[3, 0, 0], by decide⟩ = .error e := by
  obtain ⟨hpack, hunpack, hshort⟩ := codec_bijective
  obtain ⟨head, hp, hlen, hun⟩ := hpack sampleTable (by decide)
  obtain ⟨s, hs, ht⟩ := hun ⟨[7, 8, 9], by decide⟩ (by simp [hlen, maxSize])
  exact ⟨⟨head, s, hp, hs, ht⟩, hunpack ⟨[3, 0, 0, 0x41, 7], by decide⟩ (by decide),
    hshort ⟨[3, 0, 0], by decide⟩ (by decide)⟩

/-! ### Fields out of their range -/

/-- **When a field out of range is refused**: when the length has more than 24 bits, or the shifts
leave of some flag more than the byte has room for. -/
theorem pack_raises_iff (t : Table) : (¬ InRange t → ∃ e, pack t = .error e) ↔
    InRange t ∨ 2 ^ 24 ≤ (t.value .length).toNat ∨
      ∃ e ∈ shifts, 2 ^ (8 + e.2.2 - e.2.1) ≤ (t.value e.1).toNat % 2 ^ (64 - e.2.1) := by
  have hok := pack_ok_iff t
  have hnot : ¬ Accepted t ↔ 2 ^ 24 ≤ (t.value .length).toNat ∨
      ∃ e ∈ shifts, 2 ^ (8 + e.2.2 - e.2.1) ≤ (t.value e.1).toNat % 2 ^ (64 - e.2.1) := by
    simp only [Accepted, not_and_or, not_forall, Nat.not_lt, exists_prop]
  rw [← hnot, ← hok]
  cases pack t with
  | ok s => simp
  | error e => simp

/-- `{ control_flag = 4 }`. -/
def wideControl : Table
  | .controlFlag => some 4
  | _ => none

/-- A control flag of three bits sets the type flag of the header, which goes out. -/
theorem wideControl_packed : ¬ InRange wideControl ∧
    ∃ head t, pack wideControl = .ok head ∧ unpack head = .ok t ∧
      t .typeFlag = some 1 ∧ t .controlFlag = some 0 := by
  refine ⟨by decide, ⟨[0, 0, 0, 128], by decide⟩, _, rfl, rfl, rfl, rfl⟩

end PBTransfor.Head
