import Mathlib.Data.List.Nodup
import Mathlib.Data.Option.Basic
import Mathlib.Logic.Function.Basic
import PBTransfor.Library.Program

/-!
# Library — tables read key by key

A table `κ → Option α` is read from a stream `τ` entry by entry (`readAll`), each key once.  A
program that builds a table is compared with two such readings, a wide one `A` and a narrow one
`H` that reads the same where it reads at all: `Follows A H b y` says that `b` is what `H` reads,
and `y` what it leaves; and where only `A` reads, that `b` is something else.

* `foldlM_follows`: a program that follows both readings at every key follows them on the table.
* `Follows.iff`: then what the program builds is what `A` reads exactly when `H` reads.
-/

namespace Library.Keyed

variable {ε σ κ α β γ τ : Type}

/-- `b` is read by `H`, and `y` is left; or it is not what `A` reads. -/
structure Follows (A H : Option (β × τ)) (b : β) (y : τ) : Prop where
  reads : ∀ r, H = some r → b = r.1 ∧ y = r.2
  misses : ∀ r, A = some r → H = none → b ≠ r.1

namespace Follows
variable {A H : Option (β × τ)} {b : β} {y : τ}

/-- Where the two readings are one. -/
theorem same (h : ∀ r, A = some r → b = r.1 ∧ y = r.2) : Follows A A b y :=
  ⟨h, fun r hr hn => absurd hr (by rw [hn]; exact (Option.some_ne_none r).symm)⟩

/-- Where the narrow one does not read. -/
theorem miss (h : ∀ r, A = some r → b ≠ r.1) : Follows A none b y :=
  ⟨fun r hr => absurd hr (Option.some_ne_none r).symm, fun r hr _ => h r hr⟩

theorem map {f : β → α} (hf : Function.Injective f) (h : Follows A H b y) :
    Follows (A.map (Prod.map f id)) (H.map (Prod.map f id)) (f b) y := by
  constructor
  · intro r' hr'
    obtain ⟨r, hr, rfl⟩ := Option.map_eq_some_iff.mp hr'
    obtain ⟨rfl, rfl⟩ := h.reads r hr
    exact ⟨rfl, rfl⟩
  · intro r' hr' hn
    obtain ⟨r, hr, rfl⟩ := Option.map_eq_some_iff.mp hr'
    exact hf.ne (h.misses r hr (Option.map_eq_none_iff.mp hn))

/-- What is built is what the wide reading reads exactly when the narrow one reads. -/
theorem iff (h : Follows A H b y) (hle : ∀ r, H = some r → A = some r) :
    (∃ z, A = some (b, z)) ↔ H.isSome := by
  constructor
  · rintro ⟨z, hz⟩
    rw [Option.isSome_iff_ne_none]
    exact fun hn => h.misses _ hz hn rfl
  · intro hs
    obtain ⟨r, hr⟩ := Option.isSome_iff_exists.mp hs
    obtain ⟨rfl, -⟩ := h.reads r hr
    exact ⟨r.2, hle r hr⟩

end Follows

/-! ### Readings of a table -/

variable [DecidableEq κ]

/-- The entries of `l` read into a table, one behind the other. -/
def readAll (key : γ → κ) (one : γ → τ → Option (Option α × τ)) (l : List γ)
    (a : (κ → Option α) × τ) : Option ((κ → Option α) × τ) :=
  l.foldlM (fun a c => (one c a.2).map fun r => (Function.update a.1 (key c) r.1, r.2)) a

section
variable {key : γ → κ} {one A H : γ → τ → Option (Option α × τ)} {l : List γ} {c : γ}
  {t t' : κ → Option α} {x : τ} {r : (κ → Option α) × τ}

theorem readAll_cons : readAll key one (c :: l) (t, x) =
    (one c x).bind fun v => readAll key one l (Function.update t (key c) v.1, v.2) := by
  rw [readAll, List.foldlM_cons]
  cases one c x with
  | none => rfl
  | some v => rfl

/-- Other keys are left alone. -/
theorem readAll_other (h : readAll key one l (t, x) = some r) {k : κ} (hk : k ∉ l.map key) :
    r.1 k = t k := by
  induction l generalizing t x with
  | nil =>
      cases h
      rfl
  | cons c l ih =>
      rw [List.map_cons, List.mem_cons, not_or] at hk
      rw [readAll_cons, Option.bind_eq_some_iff] at h
      obtain ⟨v, -, h⟩ := h
      rw [ih h hk.2, Function.update_of_ne hk.1]

/-- Every entry has been read. -/
theorem readAll_entry (hnd : (l.map key).Nodup) (h : readAll key one l (t, x) = some r)
    (hc : c ∈ l) : ∃ y v, one c y = some v ∧ r.1 (key c) = v.1 := by
  induction l generalizing t x with
  | nil => cases hc
  | cons d l ih =>
      rw [List.map_cons, List.nodup_cons] at hnd
      rw [readAll_cons, Option.bind_eq_some_iff] at h
      obtain ⟨v, hv, h⟩ := h
      rcases List.mem_cons.mp hc with rfl | hc
      · exact ⟨x, v, hv, by rw [readAll_other h hnd.1, Function.update_self]⟩
      · exact ih hnd.2 h hc

theorem readAll_mono (hle : ∀ c x r, H c x = some r → A c x = some r)
    (h : readAll key H l (t, x) = some r) : readAll key A l (t, x) = some r := by
  induction l generalizing t x with
  | nil => exact h
  | cons c l ih =>
      rw [readAll_cons, Option.bind_eq_some_iff] at h ⊢
      obtain ⟨v, hv, h⟩ := h
      exact ⟨v, hle c x v hv, ih h⟩

/-! ### Programs that build a table -/

variable {view : σ → τ} {step : (κ → Option α) → γ → EStateM ε σ (κ → Option α)} {s s' : σ}

/-- At an entry the table does not have yet, the step follows the two readings; it leaves the
others alone. -/
structure Entry (view : σ → τ) (key : γ → κ)
    (step : (κ → Option α) → γ → EStateM ε σ (κ → Option α))
    (A H : γ → τ → Option (Option α × τ)) (c : γ) : Prop where
  other : ∀ {t s t' s'}, (step t c).run s = .ok t' s' → ∀ k ≠ key c, t' k = t k
  follows : ∀ {t s t' s'}, (step t c).run s = .ok t' s' → t (key c) = none →
    Follows (A c (view s)) (H c (view s)) (t' (key c)) (view s')

omit [DecidableEq κ] in
/-- The first round of a fold that returns. -/
theorem foldlM_cons_ok (h : ((c :: l).foldlM step t).run s = .ok t' s') :
    ∃ t₁ s₁, (step t c).run s = .ok t₁ s₁ ∧ (l.foldlM step t₁).run s₁ = .ok t' s' := by
  rw [List.foldlM_cons] at h
  exact Program.run_bind_ok.mp h

omit [DecidableEq κ] in
theorem foldlM_other (hstep : ∀ c ∈ l, Entry view key step A H c)
    (h : (l.foldlM step t).run s = .ok t' s') {k : κ} (hk : k ∉ l.map key) : t' k = t k := by
  induction l generalizing t s with
  | nil =>
      cases h
      rfl
  | cons c l ih =>
      obtain ⟨t₁, s₁, hc, hl⟩ := foldlM_cons_ok h
      rw [List.map_cons, List.mem_cons, not_or] at hk
      rw [ih (fun c' hc' => hstep c' (List.mem_cons_of_mem c hc')) hl hk.2,
        (hstep c List.mem_cons_self).other hc k hk.1]

/-- **Key by key**: a program that follows two readings at every key follows them. -/
theorem foldlM_follows (hnd : (l.map key).Nodup) (hstep : ∀ c ∈ l, Entry view key step A H c)
    (hle : ∀ c x r, H c x = some r → A c x = some r) (hfresh : ∀ c ∈ l, t (key c) = none)
    (h : (l.foldlM step t).run s = .ok t' s') :
    Follows (readAll key A l (t, view s)) (readAll key H l (t, view s)) t' (view s') := by
  induction l generalizing t s with
  | nil =>
      cases h
      refine .same fun r hr => ?_
      cases hr
      exact ⟨rfl, rfl⟩
  | cons c l ih =>
      obtain ⟨t₁, s₁, hc, hl⟩ := foldlM_cons_ok h
      rw [List.map_cons, List.nodup_cons] at hnd
      have hentry := hstep c List.mem_cons_self
      have hrest : ∀ c' ∈ l, Entry view key step A H c' :=
        fun c' hc' => hstep c' (List.mem_cons_of_mem c hc')
      have hfirst := hentry.follows hc (hfresh c List.mem_cons_self)
      simp only [readAll_cons]
      cases hH : H c (view s) with
      | some v =>
          -- both readings go on from where the program is
          rw [hle c _ v hH]
          obtain ⟨hv, hx⟩ := hfirst.reads v hH
          have ht₁ : Function.update t (key c) v.1 = t₁ := by
            funext k
            by_cases hk : k = key c
            · rw [hk, Function.update_self, hv]
            · rw [Function.update_of_ne hk, hentry.other hc k hk]
          simp only [Option.bind_some, ht₁, ← hx]
          refine ih hnd.2 hrest (fun c' hc' => ?_) hl
          have hk : key c' ≠ key c := fun hk => hnd.1 (hk ▸ List.mem_map_of_mem hc')
          rw [hentry.other hc _ hk, hfresh c' (List.mem_cons_of_mem c hc')]
      | none =>
          refine .miss fun r hr heq => ?_
          obtain ⟨v, hA, hr⟩ := Option.bind_eq_some_iff.mp hr
          refine hfirst.misses v hA hH ?_
          rw [← foldlM_other hrest hl hnd.1, heq, readAll_other hr hnd.1, Function.update_self]

end

end Library.Keyed
