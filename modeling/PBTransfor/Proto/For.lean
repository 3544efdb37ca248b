import PBTransfor.Library.Fuel
import PBTransfor.Proto.Lua

/-!
# Proto — the rounds of a numeric for

`for i = 1, num do … end` goes round `rounds num` times, for `i` from 1 on.  It goes round for ever
when the limit is `LUA_MAXINTEGER`, which the index never passes: behind it the index wraps.
-/

namespace PBTransfor.Proto

open Library.Fuel

/-- How often `for i = 1, num` goes round; `none` is for ever. -/
def rounds (num : Number) : Option Nat :=
  if (forlimit num).1 = maxInteger then none else some (forlimit num).1.toNat

theorem forlimit_le (num : Number) : (forlimit num).1 ≤ maxInteger := by
  rcases num with n | q | _ | _
  · have := BitVec.toInt_lt (x := n)
    simp only [forlimit, maxInteger]
    omega
  · simp only [forlimit]
    split_ifs with h
    · exact h.2
    · exact le_rfl
    · decide
  · exact le_rfl
  · decide

theorem rounds_eq_some {num : Number} {k : Nat} :
    rounds num = some k ↔ (forlimit num).1 < maxInteger ∧ (forlimit num).1.toNat = k := by
  have := forlimit_le num
  simp only [rounds]
  split_ifs with h
  · simp [h]
  · simp [lt_of_le_of_ne this h]

/-- A loop that stops before it starts has the lowest limit there is. -/
theorem forlimit_stopnow {num : Number} (h : (forlimit num).2 = true) :
    (forlimit num).1 = minInteger := by
  rcases num with n | q | _ | _
  · simp [forlimit] at h
  · simp only [forlimit] at h ⊢
    split_ifs at h ⊢
    rfl
  · simp [forlimit] at h
  · rfl

section
variable {α β : Type} {limit : Int} {body : Int → α → Method α} {num : Number} {k fuel : Nat}

/-! ### As a fold -/

/-- The indices a loop still has to go through at `i`. -/
def indices (limit : Int) (i : Nat) : List Nat := List.range' i (limit.toNat + 1 - i)

theorem indices_of_le {i : Nat} (h : (i : Int) ≤ limit) :
    indices limit i = i :: indices limit (i + 1) := by
  have hd : limit.toNat + 1 - i = limit.toNat + 1 - (i + 1) + 1 := by omega
  rw [indices, hd, List.range'_succ]
  rfl

theorem indices_of_lt {i : Nat} (hi : 1 ≤ i) (h : ¬ (i : Int) ≤ limit) :
    indices limit i = [] := by
  have hd : limit.toNat + 1 - i = 0 := by omega
  rw [indices, hd]
  rfl

/-- The index does not wrap before the limit. -/
theorem index_succ {i : Nat} (h : limit < maxInteger) (hi : (i : Int) ≤ limit) :
    ((i : Int) + 1).bmod (2 ^ 64) = ((i + 1 : Nat) : Int) := by
  simp only [maxInteger] at h
  rw [Int.bmod_eq_of_le] <;> omega

theorem forLoop_eq (h : limit < maxInteger) : ∀ {fuel i : Nat} {a : α}, 1 ≤ i →
    limit.toNat + 1 - i < fuel →
    forLoop limit body fuel i a =
      (indices limit i).foldlM (fun a (j : Nat) => body j a) a
  | 0, i, a, _, hf => absurd hf (Nat.not_lt_zero _)
  | fuel + 1, i, a, hi, hf => by
      rw [forLoop]
      split
      case isTrue hle =>
          rw [indices_of_le hle, List.foldlM_cons, index_succ h hle]
          congr 1
          funext b
          exact forLoop_eq h (Nat.le_add_left 1 i) (by omega)
      case isFalse hgt =>
          rw [indices_of_lt hi hgt]
          rfl

theorem forLoop_ok (h : limit < maxInteger) {b : α} {s' : Console} :
    ∀ {fuel i : Nat} {a : α} {s : Console}, 1 ≤ i →
    (forLoop limit body fuel i a).run s = .ok b s' →
    ((indices limit i).foldlM (fun a (j : Nat) => body j a) a).run s = .ok b s'
  | 0, i, a, s, _, hr => by cases hr
  | fuel + 1, i, a, s, hi, hr => by
      rw [forLoop] at hr
      split at hr
      case isTrue hle =>
          rw [index_succ h hle, EStateM.run_bind] at hr
          rw [indices_of_le hle, List.foldlM_cons, EStateM.run_bind]
          cases hb : (body i a).run s with
          | ok a' s₁ =>
              rw [hb] at hr
              exact forLoop_ok h (Nat.le_add_left 1 i) hr
          | error e s₁ =>
              rw [hb] at hr
              cases hr
      case isFalse hgt =>
          rw [indices_of_lt hi hgt]
          exact hr

/-- With fuel for its rounds a loop is a fold. -/
theorem forNum_eq {a : α} (h : rounds num = some k) (hf : k < fuel) :
    forNum fuel (some num) body a =
      (List.range' 1 k).foldlM (fun a (j : Nat) => body j a) a := by
  obtain ⟨hlt, rfl⟩ := rounds_eq_some.mp h
  rw [forNum]
  cases hstop : (forlimit num).2 with
  | false => exact forLoop_eq hlt (le_refl 1) hf
  | true =>
      rw [forlimit_stopnow hstop]
      obtain ⟨m, rfl⟩ := Nat.exists_eq_add_of_lt hf
      rfl

/-! ### Its rules -/

variable {E : Halt → Prop} {I : α → Console → Prop} {a : α} {s : Console}

theorem meets_forLoop (hE : E .spent) (hb : ∀ i a s, I a s → Meets E (body i a) s I) :
    ∀ {fuel : Nat} {i : Int} {a : α} {s : Console}, I a s →
      Meets E (forLoop limit body fuel i a) s I
  | 0, _, _, _, _ => .halt hE
  | fuel + 1, i, a, s, h => by
      rw [forLoop]
      split
      · exact (hb i a s h).bind fun _ _ h' => meets_forLoop hE hb h'
      · exact .pure h

/-- A loop keeps what its body keeps. -/
theorem meets_forNum (hE : E .spent) (hb : ∀ i a s, I a s → Meets E (body i a) s I) (h : I a s) :
    Meets E (forNum fuel (some num) body a) s I := meets_forLoop hE hb h

theorem meets_forLoop_endless (hE : E .spent) (hb : ∀ i a s, I a s → Meets E (body i a) s I) :
    ∀ {fuel : Nat} {i : Int} {a : α} {s : Console}, i ≤ maxInteger → I a s →
      Meets E (forLoop maxInteger body fuel i a) s (fun _ _ => False)
  | 0, _, _, _, _, _ => .halt hE
  | fuel + 1, i, a, s, hi, h => by
      rw [forLoop, if_pos hi]
      refine (hb i a s h).bind fun _ _ h' => meets_forLoop_endless hE hb ?_ h'
      have := Int.bmod_lt (x := i + 1) (m := 2 ^ 64) (by decide)
      simp only [maxInteger]
      omega

/-- A loop that goes round for ever does not return. -/
theorem meets_forNum_endless (hE : E .spent) (hb : ∀ i a s, I a s → Meets E (body i a) s I)
    (hr : rounds num = none) (h : I a s) :
    Meets E (forNum fuel (some num) body a) s (fun _ _ => False) := by
  simp only [rounds, ite_eq_left_iff, reduceCtorEq, imp_false, not_not] at hr
  rw [forNum, hr]
  refine meets_forLoop_endless hE hb ?_ h
  split <;> decide

theorem starts (hr : 1 ≤ (forlimit num).1) : (forlimit num).2 = false := by
  by_contra hstop
  rw [forlimit_stopnow (by simpa using hstop)] at hr
  exact absurd hr (by decide)

/-- A loop of a round or more does not return when its first round does not. -/
theorem meets_forNum_first (hE : E .spent) (hr : 1 ≤ (forlimit num).1)
    (hb : Meets E (body 1 a) s (fun _ _ => False)) :
    Meets E (forNum fuel (some num) body a) s (fun _ _ => False) := by
  rw [forNum, starts hr]
  cases fuel with
  | zero => exact .halt hE
  | succ fuel =>
      rw [forLoop, if_pos (by simpa using hr)]
      exact hb.bind fun _ _ h => h.elim

theorem settles_forNum {body : ℕ → Int → α → Method α}
    (hb : ∀ i a s, I a s → Settles E (fun n => body n i a) s I) (hr : rounds num = some k)
    (h : I a s) : Settles E (fun n => forNum n (some num) (body n) a) s I := by
  have hfold : Settles E (fun n => (List.range' 1 k).foldlM (fun a (j : Nat) => body n j a) a)
      s I := Settles.foldlM (I := fun _ => I) (fun _ j _ a s _ h => hb j a s h) h
  refine hfold.congr ?_
  filter_upwards [Filter.eventually_gt_atTop k] with n hn
  exact forNum_eq hr hn

theorem settles_forNum_first {body : ℕ → Int → α → Method α} (hr : 1 ≤ (forlimit num).1)
    (hb : Settles E (fun n => body n 1 a) s (fun _ _ => False)) :
    Settles E (fun n => forNum n (some num) (body n) a) s (fun _ _ => False) := by
  refine Settles.congr (hb.bind (G := fun n a' => forLoop (forlimit num).1 (body n) (n - 1) 2 a')
    fun _ _ h => h.elim) ?_
  filter_upwards [Filter.eventually_gt_atTop 0] with n hn
  obtain ⟨m, rfl⟩ := Nat.exists_eq_add_of_lt hn
  rw [forNum, starts hr, Nat.zero_add, forLoop]
  exact if_pos hr

/-- A body that works inside `φ` makes a loop that does. -/
theorem forNum_map (φ : β → α) {body' : Int → β → Method β} {num : Option Number}
    (h : ∀ i b, body i (φ b) = φ <$> body' i b) (b : β) :
    forNum fuel num body (φ b) = φ <$> forNum fuel num body' b := by
  have hloop : ∀ (limit : Int) (fuel : Nat) (i : Int) (b : β),
      forLoop limit body fuel i (φ b) = φ <$> forLoop limit body' fuel i b := by
    intro limit fuel
    induction fuel with
    | zero => intros; rfl
    | succ fuel ih =>
        intro i b
        rw [forLoop, forLoop]
        split
        · rw [h, map_bind, bind_map_left]
          simp only [ih]
        · rfl
  cases num with
  | none => rfl
  | some n => exact hloop _ _ _ _

/-- What a loop returns, the fold returns. -/
theorem forNum_ok {a b : α} {s s' : Console}
    (h : (forNum fuel (some num) body a).run s = .ok b s') :
    ∃ k, rounds num = some k ∧
      ((List.range' 1 k).foldlM (fun a (j : Nat) => body j a) a).run s = .ok b s' := by
  cases hr : rounds num with
  | none =>
      have hm : Meets (fun _ => True) (forNum fuel (some num) body a) s (fun _ _ => False) :=
        meets_forNum_endless (I := fun _ _ => True) trivial (fun _ _ _ _ => .any) hr trivial
      exact (hm.returned h).elim
  | some k =>
      refine ⟨k, rfl, ?_⟩
      obtain ⟨hlt, rfl⟩ := rounds_eq_some.mp hr
      rw [forNum] at h
      cases hstop : (forlimit num).2 with
      | false =>
          rw [hstop] at h
          exact forLoop_ok hlt (le_refl 1) h
      | true =>
          rw [hstop, forlimit_stopnow hstop] at h
          rw [forlimit_stopnow hstop]
          cases fuel with
          | zero => cases h
          | succ fuel => exact h

end

end PBTransfor.Proto
