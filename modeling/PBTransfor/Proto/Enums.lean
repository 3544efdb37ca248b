import PBTransfor.Proto.Schema

/-!
# Proto — the names of an enum

The builder asks `pb.enum` for the names of the values 0, 1, 2 and so on, and stops at the first
value that has none.  `Scanned` is what it finds; these are the names `EnumType.offers` speaks of
(`Scanned.mem_iff_offers`), and they are all names of the enum exactly when its values are dense
(`dense_iff`).
-/

namespace PBTransfor.Proto

namespace EnumType

/-- The names `pb.enum` gives for the values from `i` on, up to the first without one. -/
inductive Scanned (e : EnumType) : Nat → List String → Prop where
  | stop {i : Nat} (h : e.nameOf i = none) : Scanned e i []
  | more {i : Nat} {s : String} {l : List String} (h : e.nameOf i = some s)
      (t : Scanned e (i + 1) l) : Scanned e i (s :: l)

/-- The values are 0, 1, 2 and so on without a gap, and each has one name. -/
structure Dense (e : EnumType) : Prop where
  nonneg : ∀ v ∈ e.values, 0 ≤ v.2
  unaliased : ∀ v ∈ e.values, ∀ v' ∈ e.values, v.2 = v'.2 → v = v'
  filled : ∀ v ∈ e.values, ∀ j < v.2.toNat, ∃ v' ∈ e.values, v'.2 = (j : Nat)

variable {e : EnumType} {i : Nat} {l : List String} {s : String}

/-- The scan ends: behind the largest `int32` no value has a name. -/
theorem exists_scanned (e : EnumType) {k i : Nat} (hk : 2 ^ 31 - i = k) : ∃ l, e.Scanned i l := by
  induction k generalizing i with
  | zero =>
      have hlarge : (2 ^ 31 : Int) ≤ i := by omega
      exact ⟨[], .stop (nameOf_large hlarge)⟩
  | succ k ih =>
      cases hs : e.nameOf i with
      | none => exact ⟨[], .stop hs⟩
      | some s =>
          obtain ⟨l, hl⟩ := ih (i := i + 1) (by omega)
          exact ⟨s :: l, .more hs hl⟩

theorem Scanned.mem_iff (h : e.Scanned i l) : s ∈ l ↔
    ∃ n : Nat, i ≤ n ∧ e.nameOf n = some s ∧ ∀ j : Nat, i ≤ j → j < n → (e.nameOf j).isSome := by
  induction h with
  | @stop i hnone =>
      refine iff_of_false List.not_mem_nil ?_
      rintro ⟨n, hin, hs, hj⟩
      rcases hin.lt_or_eq with hlt | rfl
      · simpa [hnone] using hj i le_rfl hlt
      · cases hnone.symm.trans hs
  | @more i x l hx t ih =>
      rw [List.mem_cons, ih]
      constructor
      · rintro (rfl | ⟨n, hin, hs, hj⟩)
        · exact ⟨i, le_rfl, hx, fun j hij hji => absurd hji (not_lt.mpr hij)⟩
        · refine ⟨n, Nat.le_of_succ_le hin, hs, fun j hij hjn => ?_⟩
          rcases hij.lt_or_eq with hlt | rfl
          · exact hj j hlt hjn
          · rw [hx]; rfl
      · rintro ⟨n, hin, hs, hj⟩
        rcases hin.lt_or_eq with hlt | rfl
        · exact .inr ⟨n, hlt, hs, fun j hij => hj j (Nat.le_of_succ_le hij)⟩
        · exact .inl (Option.some.inj (hs.symm.trans hx))

theorem Scanned.mem_iff_offers (h : e.Scanned 0 l) : s ∈ l ↔ e.offers s := by
  rw [h.mem_iff, offers_iff]
  simp only [Nat.zero_le, true_and, forall_const]

/-- A name has one value, so it is found once. -/
theorem Scanned.nodup (h : e.Scanned i l) : l.Nodup := by
  induction h with
  | stop => exact List.nodup_nil
  | @more i x l hx t ih =>
      refine List.nodup_cons.mpr ⟨fun hmem => ?_, ih⟩
      obtain ⟨n, hin, hn, -⟩ := t.mem_iff.mp hmem
      have heq := (valueOf_nameOf hx).symm.trans (valueOf_nameOf hn)
      have : (i : Int) = n := Option.some.inj heq
      omega

/-- A name that is offered is declared. -/
theorem offers.mem (h : e.offers s) : ∃ n, (s, n) ∈ e.values := by
  obtain ⟨n, hn, -⟩ := h
  exact ⟨n, valueOf_eq_some.mp hn⟩

/-- **When every name is offered.** -/
theorem dense_iff : e.Dense ↔ ∀ v ∈ e.values, e.offers v.1 := by
  constructor
  · intro h v hv
    refine ⟨v.2, valueOf_eq_some.mpr hv, h.nonneg v hv, ?_, fun j hj => ?_⟩
    · obtain ⟨s, hs⟩ := Option.isSome_iff_exists.mp (e.nameOf_isSome v hv)
      rw [hs, ← h.unaliased _ (e.nameOf_mem _ _ hs) v hv rfl]
    · obtain ⟨v', hv', hj'⟩ := h.filled v hv j hj
      exact hj' ▸ e.nameOf_isSome v' hv'
  · intro h
    -- a name is offered for the one value it is declared with
    have value : ∀ v ∈ e.values, 0 ≤ v.2 ∧ e.nameOf v.2 = some v.1 ∧
        ∀ j < v.2.toNat, (e.nameOf (j : Nat)).isSome := by
      intro v hv
      obtain ⟨n, hn, hoff⟩ := h v hv
      obtain rfl : n = v.2 := Option.some.inj (hn.symm.trans (valueOf_eq_some.mpr hv))
      exact hoff
    refine ⟨fun v hv => (value v hv).1, fun v hv v' hv' heq => ?_, fun v hv j hj => ?_⟩
    · have hname := (value v hv).2.1
      rw [heq, (value v' hv').2.1] at hname
      exact Prod.ext (Option.some.inj hname).symm heq
    · obtain ⟨s, hs⟩ := Option.isSome_iff_exists.mp ((value v hv).2.2 j hj)
      exact ⟨_, e.nameOf_mem _ _ hs, rfl⟩

end EnumType

end PBTransfor.Proto
