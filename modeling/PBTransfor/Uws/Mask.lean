import Mathlib.Data.List.Basic
import PBTransfor.Library.Memory

/-!
# Uws — masks

What a client sends is masked: byte `i` of a payload is xored with byte `i % 4` of a mask of four
bytes.  `WebSocketProtocol` takes the mask off where the payload lies in the receive buffer, four
bytes a round, and does not mind to write over bytes it has read or over up to four bytes behind
the payload.

* `read_unmaskImprecise`, `read_unmaskInplace`: the payload is unmasked nevertheless.
* `unmask_append`: what is left of a payload cut in two is unmasked with the rotated mask.
-/

namespace PBTransfor.Uws

open Library

abbrev Byte := UInt8

/-- `char mask[4]`. -/
abbrev Mask := Fin 4 → Byte

/-- Byte `i` of a payload, with the mask put on or taken off. -/
def maskAt (mask : Mask) (i : Nat) (b : Byte) : Byte := b ^^^ mask (Fin.ofNat 4 i)

/-- A payload with the mask put on or taken off. -/
def unmask (mask : Mask) (data : List Byte) : List Byte := data.mapIdx (maskAt mask)

/-- The body of the loops: four bytes from `src` on go to `dst`. -/
def unmaskFour (mem : Memory Byte) (dst src : Nat) (mask : Mask) : Memory Byte :=
  let mem := Function.update mem dst (mem src ^^^ mask 0)
  let mem := Function.update mem (dst + 1) (mem (src + 1) ^^^ mask 1)
  let mem := Function.update mem (dst + 2) (mem (src + 2) ^^^ mask 2)
  Function.update mem (dst + 3) (mem (src + 3) ^^^ mask 3)

/-- The loop of `unmaskImprecise`, from `n` on. -/
def unmaskImpreciseLoop (mask : Mask) : Nat → Memory Byte → Nat → Nat → Memory Byte
  | 0, mem, _, _ => mem
  | n + 1, mem, dst, src =>
      unmaskImpreciseLoop mask n (unmaskFour mem dst src mask) (dst + 4) (src + 4)

def unmaskImprecise (mem : Memory Byte) (dst src : Nat) (mask : Mask) (length : Nat) :
    Memory Byte :=
  unmaskImpreciseLoop mask ((length >>> 2) + 1) mem dst src

/-- The mask that lies at `maskPtr`. -/
def maskFrom (mem : Memory Byte) (maskPtr : Nat) : Mask := fun i => mem (maskPtr + i)

def unmaskImpreciseCopyMask (mem : Memory Byte) (dst src maskPtr length : Nat) : Memory Byte :=
  unmaskImprecise mem dst src (maskFrom mem maskPtr) length

def rotateMask (offset : Nat) (mask : Mask) : Mask :=
  let originalMask := mask
  let mask := Function.update mask (Fin.ofNat 4 (0 + offset)) (originalMask 0)
  let mask := Function.update mask (Fin.ofNat 4 (1 + offset)) (originalMask 1)
  let mask := Function.update mask (Fin.ofNat 4 (2 + offset)) (originalMask 2)
  Function.update mask (Fin.ofNat 4 (3 + offset)) (originalMask 3)

/-- The loop of `unmaskInplace`; it makes at most as many rounds as there are bytes. -/
def unmaskInplaceLoop (mask : Mask) (stop : Nat) : Nat → Memory Byte → Nat → Memory Byte
  | 0, mem, _ => mem
  | fuel + 1, mem, data =>
      if data < stop then
        unmaskInplaceLoop mask stop fuel (unmaskFour mem data data mask) (data + 4)
      else mem

def unmaskInplace (mem : Memory Byte) (data stop : Nat) (mask : Mask) : Memory Byte :=
  unmaskInplaceLoop mask stop (stop - data) mem data

/-- The loop that ends a payload: `src[i] ^= mask[i]`, for the `s` bytes that are left. -/
def unmaskRest (mask : Mask) (src : Nat) : Nat → Memory Byte → Memory Byte
  | 0, mem => mem
  | s + 1, mem =>
      let mem := unmaskRest mask src s mem
      Function.update mem (src + s) (mem (src + s) ^^^ mask (Fin.ofNat 4 s))

/-! ### The loops, cell by cell -/

theorem maskAt_add_four (mask : Mask) (k : Nat) :
    (fun i => maskAt mask (i + 4 * k)) = maskAt mask := by
  funext i b
  have hi : Fin.ofNat 4 (i + 4 * k) = Fin.ofNat 4 i := by
    apply Fin.ext
    simp only [Fin.val_ofNat]
    omega
  rw [maskAt, hi, maskAt]

theorem unmaskFour_eq (mem : Memory Byte) (dst src : Nat) (mask : Mask) :
    unmaskFour mem dst src mask = copyWith (maskAt mask) 4 mem dst src := rfl

/-- Four bytes, and then the others. -/
theorem copyWith_mask_succ (mask : Mask) (n : Nat) (mem : Memory Byte) (dst src : Nat) :
    copyWith (maskAt mask) (4 * (n + 1)) mem dst src =
      copyWith (maskAt mask) (4 * n) (unmaskFour mem dst src mask) (dst + 4) (src + 4) := by
  rw [Nat.mul_succ, Nat.add_comm (4 * n) 4, copyWith_add, unmaskFour_eq]
  exact congrArg (fun f => copyWith f _ _ _ _) (maskAt_add_four mask 1)

theorem unmaskImpreciseLoop_eq (mask : Mask) (n : Nat) (mem : Memory Byte) (dst src : Nat) :
    unmaskImpreciseLoop mask n mem dst src = copyWith (maskAt mask) (4 * n) mem dst src := by
  induction n generalizing mem dst src with
  | zero => rfl
  | succ n ih => rw [unmaskImpreciseLoop, ih, copyWith_mask_succ]

theorem unmaskImprecise_eq (mem : Memory Byte) (dst src : Nat) (mask : Mask) (length : Nat) :
    unmaskImprecise mem dst src mask length =
      copyWith (maskAt mask) (4 * (length / 4 + 1)) mem dst src := by
  rw [unmaskImprecise, unmaskImpreciseLoop_eq, Nat.shiftRight_eq_div_pow]

theorem unmaskInplaceLoop_eq (mask : Mask) (n fuel : Nat) (mem : Memory Byte) (data : Nat)
    (hfuel : n ≤ fuel) : unmaskInplaceLoop mask (data + 4 * n) fuel mem data =
      copyWith (maskAt mask) (4 * n) mem data data := by
  induction n generalizing fuel mem data with
  | zero =>
      cases fuel with
      | zero => rfl
      | succ fuel => rw [unmaskInplaceLoop, if_neg (by omega)]; rfl
  | succ n ih =>
      obtain ⟨fuel, rfl⟩ : ∃ m, fuel = m + 1 := ⟨fuel - 1, by omega⟩
      rw [unmaskInplaceLoop, if_pos (by omega), show data + 4 * (n + 1) = data + 4 + 4 * n by omega,
        ih _ _ _ (by omega), copyWith_mask_succ]

theorem unmaskInplace_eq (mem : Memory Byte) (data n : Nat) (mask : Mask) :
    unmaskInplace mem data (data + n * 4) mask =
      copyWith (maskAt mask) (4 * n) mem data data := by
  rw [unmaskInplace, Nat.mul_comm n 4, unmaskInplaceLoop_eq _ _ _ _ _ (by omega)]

theorem unmaskRest_eq (mask : Mask) (src s : Nat) (mem : Memory Byte) :
    unmaskRest mask src s mem = copyWith (maskAt mask) s mem src src := by
  induction s with
  | zero => rfl
  | succ s ih => rw [unmaskRest, ih, copyWith_add]; simp [copyWith, maskAt]

/-- Rounds of four, and the bytes that do not make one. -/
theorem unmaskRest_unmaskInplace (mask : Mask) (src length : Nat) (mem : Memory Byte) :
    unmaskRest mask (src + (length >>> 2) * 4) (length % 4)
      (unmaskInplace mem src (src + (length >>> 2) * 4) mask) =
        copyWith (maskAt mask) length mem src src := by
  have hdiv : length >>> 2 = length / 4 := Nat.shiftRight_eq_div_pow length 2
  have hlen : length = 4 * (length / 4) + length % 4 := (Nat.div_add_mod length 4).symm
  rw [unmaskRest_eq, unmaskInplace_eq, hdiv]
  conv_rhs => rw [hlen, copyWith_add, maskAt_add_four, Nat.mul_comm 4 (length / 4)]
  rw [Nat.mul_comm 4 (length / 4)]

/-! ### What they come to -/

/-- As many cells as are asked for, of those a loop writes. -/
theorem read_copyWith_mask (mask : Mask) {n length : Nat} (mem : Memory Byte) {dst src : Nat}
    (hle : dst ≤ src) (hn : length ≤ n) :
    read (copyWith (maskAt mask) n mem dst src) dst length = unmask mask (read mem src length) := by
  obtain ⟨k, rfl⟩ := Nat.exists_eq_add_of_le hn
  rw [copyWith_add, unmask, ← read_copyWith _ _ _ hle]
  exact read_congr fun i hi => copyWith_of_lt _ _ _ (by omega)

/-- **The payload, moved to where its mask was.** -/
theorem read_unmaskImprecise (mem : Memory Byte) {dst src : Nat} (mask : Mask) (length : Nat)
    (hle : dst ≤ src) : read (unmaskImprecise mem dst src mask length) dst length =
      unmask mask (read mem src length) := by
  rw [unmaskImprecise_eq]
  exact read_copyWith_mask mask mem hle (by omega)

/-- It writes at most four bytes behind the payload. -/
theorem unmaskImprecise_of_ge (mem : Memory Byte) {dst src a : Nat} (mask : Mask) {length : Nat}
    (h : dst + length + 4 ≤ a) : unmaskImprecise mem dst src mask length a = mem a := by
  rw [unmaskImprecise_eq]
  exact copyWith_of_ge _ _ _ (by omega)

theorem unmaskImprecise_of_lt (mem : Memory Byte) {dst src a : Nat} (mask : Mask) {length : Nat}
    (h : a < dst) : unmaskImprecise mem dst src mask length a = mem a := by
  rw [unmaskImprecise_eq]
  exact copyWith_of_lt _ _ _ h

/-- **A chunk in the middle of a payload, where it lies.** -/
theorem read_unmaskInplace (mem : Memory Byte) (src length : Nat) (mask : Mask) :
    read (unmaskInplace mem src (src + ((length >>> 2) + 1) * 4) mask) src length =
      unmask mask (read mem src length) := by
  rw [unmaskInplace_eq, Nat.shiftRight_eq_div_pow]
  exact read_copyWith_mask mask mem (Nat.le_refl _) (by omega)

theorem unmaskInplace_of_ge (mem : Memory Byte) {src length a : Nat} (mask : Mask)
    (h : src + length + 4 ≤ a) :
    unmaskInplace mem src (src + ((length >>> 2) + 1) * 4) mask a = mem a := by
  rw [unmaskInplace_eq, Nat.shiftRight_eq_div_pow]
  exact copyWith_of_ge _ _ _ (by omega)

theorem unmaskInplace_of_lt (mem : Memory Byte) {src length a : Nat} (mask : Mask) (h : a < src) :
    unmaskInplace mem src (src + ((length >>> 2) + 1) * 4) mask a = mem a := by
  rw [unmaskInplace_eq]
  exact copyWith_of_lt _ _ _ h

/-- **The end of a payload, where it lies**, to the byte. -/
theorem read_unmaskRest (mem : Memory Byte) (src length : Nat) (mask : Mask) :
    read (unmaskRest mask (src + (length >>> 2) * 4) (length % 4)
      (unmaskInplace mem src (src + (length >>> 2) * 4) mask)) src length =
        unmask mask (read mem src length) := by
  rw [unmaskRest_unmaskInplace]
  exact read_copyWith_mask mask mem (Nat.le_refl _) (Nat.le_refl _)

theorem unmaskRest_of_ge (mem : Memory Byte) {src length a : Nat} (mask : Mask)
    (h : src + length ≤ a) : unmaskRest mask (src + (length >>> 2) * 4) (length % 4)
      (unmaskInplace mem src (src + (length >>> 2) * 4) mask) a = mem a := by
  rw [unmaskRest_unmaskInplace]
  exact copyWith_of_ge _ _ _ h

theorem unmaskRest_of_lt (mem : Memory Byte) {src length a : Nat} (mask : Mask) (h : a < src) :
    unmaskRest mask (src + (length >>> 2) * 4) (length % 4)
      (unmaskInplace mem src (src + (length >>> 2) * 4) mask) a = mem a := by
  rw [unmaskRest_unmaskInplace]
  exact copyWith_of_lt _ _ _ h

/-! ### Masking in general -/

@[simp] theorem length_unmask (mask : Mask) (data : List Byte) :
    (unmask mask data).length = data.length := List.length_mapIdx

@[simp] theorem unmask_nil (mask : Mask) : unmask mask [] = [] := rfl

/-- Unmasking is masking. -/
theorem unmask_unmask (mask : Mask) (data : List Byte) : unmask mask (unmask mask data) = data := by
  have hat : ∀ i b, maskAt mask i (maskAt mask i b) = b := by
    intro i b
    rw [maskAt, maskAt, UInt8.xor_assoc, UInt8.xor_self, UInt8.xor_zero]
  apply List.ext_getElem?
  intro i
  rw [unmask, unmask, List.getElem?_mapIdx, List.getElem?_mapIdx]
  cases data[i]? with
  | none => rfl
  | some b => exact congrArg some (hat i b)

/-- A mask as it stands after `r` bytes. -/
theorem rotateMask_eq (mask : Mask) (r : Nat) :
    rotateMask (4 - r % 4) mask = fun j => mask (j + Fin.ofNat 4 r) := by
  have hr : Fin.ofNat 4 r = Fin.ofNat 4 (r % 4) := Fin.ext (Nat.mod_mod r 4).symm
  have hlt : r % 4 < 4 := Nat.mod_lt r (by decide)
  rw [hr]
  generalize r % 4 = k at hlt
  funext j
  have hk : k = 0 ∨ k = 1 ∨ k = 2 ∨ k = 3 := by omega
  rcases hk with rfl | rfl | rfl | rfl <;>
    match j with
    | 0 => rfl
    | 1 => rfl
    | 2 => rfl
    | 3 => rfl

theorem rotateMask_four (mask : Mask) : rotateMask 4 mask = mask := by
  have h := rotateMask_eq mask 0
  simpa using h

/-- **A payload cut in two**: the second part meets the mask where the first left it. -/
theorem unmask_append (mask : Mask) (d e : List Byte) : unmask mask (d ++ e) =
    unmask mask d ++ unmask (rotateMask (4 - d.length % 4) mask) e := by
  have hat : (fun i => maskAt mask (i + d.length)) =
      maskAt (rotateMask (4 - d.length % 4) mask) := by
    funext i b
    have hi : Fin.ofNat 4 (i + d.length) = Fin.ofNat 4 i + Fin.ofNat 4 d.length := by
      apply Fin.ext
      simp only [Fin.val_ofNat, Fin.val_add]
      omega
    rw [rotateMask_eq, maskAt, maskAt, hi]
  rw [unmask, List.mapIdx_append, hat, unmask, unmask]

/-- Rotations add up. -/
theorem rotateMask_rotateMask (mask : Mask) (k l : Nat) :
    rotateMask (4 - l % 4) (rotateMask (4 - k % 4) mask) = rotateMask (4 - (k + l) % 4) mask := by
  have hkl : Fin.ofNat 4 (k + l) = Fin.ofNat 4 k + Fin.ofNat 4 l := by
    apply Fin.ext
    simp only [Fin.val_ofNat, Fin.val_add]
    omega
  rw [rotateMask_eq, rotateMask_eq, rotateMask_eq, hkl]
  funext j
  have hj : j + Fin.ofNat 4 l + Fin.ofNat 4 k = j + (Fin.ofNat 4 k + Fin.ofNat 4 l) := by
    apply Fin.ext
    simp only [Fin.val_add, Fin.val_ofNat]
    omega
  exact congrArg mask hj

end PBTransfor.Uws
