import Mathlib.Data.List.Infix

/-!
# Library — runs of a system that reads inputs

`next : σ → ι → σ` is what a state becomes on an input.  A run is a list of inputs; `Along C`
says that each of them meets `C` in the state it is read in, `Throughout P` that every state of
the run satisfies `P`.

* `run_invariant`: what every conditioned step preserves, a conditioned run preserves.
* `throughout_iff_along`: if, as long as `P` holds, `C` says exactly when the next step keeps
  it, then `C` along the run says exactly when it holds throughout.
-/

namespace Library

variable {σ ι : Type*} (next : σ → ι → σ)

/-- The state after the inputs `l`. -/
def run (s : σ) (l : List ι) : σ := l.foldl next s

/-- Every input of `l` meets `C` in the state it is read in. -/
def Along (C : σ → ι → Prop) : σ → List ι → Prop
  | _, [] => True
  | s, i :: l => C s i ∧ Along C (next s i) l

instance Along.decidable (C : σ → ι → Prop) [∀ s i, Decidable (C s i)] :
    ∀ s l, Decidable (Along next C s l)
  | _, [] => isTrue trivial
  | s, i :: l =>
      have := Along.decidable C (next s i) l
      inferInstanceAs (Decidable (C s i ∧ Along next C (next s i) l))

/-- Every state of the run satisfies `P`, the first and the last included. -/
def Throughout (P : σ → Prop) (s : σ) (l : List ι) : Prop := ∀ l₀, l₀ <+: l → P (run next s l₀)

variable {next}

@[simp] theorem run_nil (s : σ) : run next s [] = s := rfl

@[simp] theorem run_cons (s : σ) (i : ι) (l : List ι) :
    run next s (i :: l) = run next (next s i) l := rfl

theorem run_append (s : σ) (l l' : List ι) :
    run next s (l ++ l') = run next (run next s l) l' := List.foldl_append

/-- Inputs that leave the state as it is. -/
theorem run_eq_self {s : σ} {l : List ι} (h : ∀ i ∈ l, next s i = s) : run next s l = s := by
  induction l with
  | nil => rfl
  | cons i l ih => rw [run_cons, h i (by simp), ih fun j hj => h j (by simp [hj])]

/-- `run_eq_self` for a system that may stop. -/
theorem foldlM_eq_self {next : σ → ι → Option σ} {s : σ} {l : List ι}
    (h : ∀ i ∈ l, next s i = some s) : l.foldlM next s = some s := by
  induction l with
  | nil => rfl
  | cons i l ih =>
      rw [List.foldlM_cons, h i (by simp)]
      exact ih fun j hj => h j (by simp [hj])

theorem along_append {C : σ → ι → Prop} {l l' : List ι} : ∀ {s : σ},
    Along next C s (l ++ l') ↔ Along next C s l ∧ Along next C (run next s l) l' := by
  induction l with
  | nil => intro s; simp [Along]
  | cons i l ih => intro s; simp only [List.cons_append, Along, ih, run_cons, and_assoc]

theorem Along.mono {C D : σ → ι → Prop} (h : ∀ s i, C s i → D s i) {l : List ι} :
    ∀ {s : σ}, Along next C s l → Along next D s l := by
  induction l with
  | nil => intro s _; trivial
  | cons i l ih => intro s hl; exact ⟨h s i hl.1, ih hl.2⟩

theorem along_and {C D : σ → ι → Prop} {l : List ι} : ∀ {s : σ},
    Along next (fun s i => C s i ∧ D s i) s l ↔ Along next C s l ∧ Along next D s l := by
  induction l with
  | nil => intro s; simp [Along]
  | cons i l ih =>
      intro s
      simp only [Along, ih]
      exact and_and_and_comm

theorem along_of_forall {C : σ → ι → Prop} {l : List ι} (h : ∀ i ∈ l, ∀ s, C s i) :
    ∀ {s : σ}, Along next C s l := by
  induction l with
  | nil => intro s; trivial
  | cons i l ih =>
      intro s
      exact ⟨h i (by simp) s, ih fun j hj => h j (by simp [hj])⟩

/-- **The run rule.**  What each step that meets `C` preserves, a run whose steps meet `C`
preserves. -/
theorem run_invariant {I : σ → Prop} {C : σ → ι → Prop}
    (hstep : ∀ s i, I s → C s i → I (next s i)) {l : List ι} :
    ∀ {s : σ}, I s → Along next C s l → I (run next s l) := by
  induction l with
  | nil => intro s hs _; exact hs
  | cons i l ih => intro s hs hl; exact ih (hstep s i hs hl.1) hl.2

/-- The run rule without a condition. -/
theorem run_invariant_of_forall {I : σ → Prop} (hstep : ∀ s i, I s → I (next s i)) {s : σ}
    (hs : I s) (l : List ι) : I (run next s l) := by
  induction l generalizing s with
  | nil => exact hs
  | cons i l ih => exact ih (hstep s i hs)

theorem throughout_cons {P : σ → Prop} {s : σ} {i : ι} {l : List ι} :
    Throughout next P s (i :: l) ↔ P s ∧ Throughout next P (next s i) l := by
  constructor
  · intro h
    exact ⟨h [] (List.nil_prefix), fun l₀ hl => h (i :: l₀) ((List.cons_prefix_cons).mpr ⟨rfl, hl⟩)⟩
  · rintro ⟨h₀, h⟩ l₀ hl
    cases l₀ with
    | nil => exact h₀
    | cons j l₁ =>
        obtain ⟨rfl, hl'⟩ := List.cons_prefix_cons.mp hl
        exact h l₁ hl'

theorem Throughout.along {P : σ → Prop} {l : List ι} : ∀ {s : σ}, Throughout next P s l →
    Along next (fun s _ => P s) s l := by
  induction l with
  | nil => intro s _; trivial
  | cons i l ih => intro s h; exact ⟨(throughout_cons.mp h).1, ih (throughout_cons.mp h).2⟩

/-- **The exact condition of a safety property.**  `I` is an invariant under which, in a state
that satisfies `P`, the next one does exactly when the step meets `C`. -/
theorem throughout_iff_along {I P : σ → Prop} {C : σ → ι → Prop}
    (hI : ∀ s i, I s → I (next s i)) (hP : ∀ s i, I s → P s → (P (next s i) ↔ C s i))
    {l : List ι} : ∀ {s : σ}, I s → P s → (Throughout next P s l ↔ Along next C s l) := by
  induction l with
  | nil =>
      intro s _ hp
      exact ⟨fun _ => trivial, fun _ l₀ hl => by rw [List.prefix_nil.mp hl]; exact hp⟩
  | cons i l ih =>
      intro s hs hp
      rw [throughout_cons]
      constructor
      · rintro ⟨-, h⟩
        have hnext : P (next s i) := h [] List.nil_prefix
        exact ⟨(hP s i hs hp).mp hnext, (ih (hI s i hs) hnext).mp h⟩
      · rintro ⟨hc, h⟩
        have hnext : P (next s i) := (hP s i hs hp).mpr hc
        exact ⟨hp, (ih (hI s i hs) hnext).mpr h⟩

/-- **The exact condition of a property of steps**, in an environment that meets `K`.  `I` is an
invariant of the steps that have the property, under which a step has it exactly when it meets
`C`. -/
theorem along_iff_along {I : σ → Prop} {K P C : σ → ι → Prop}
    (hI : ∀ s i, I s → K s i → P s i → I (next s i))
    (hP : ∀ s i, I s → K s i → (P s i ↔ C s i))
    {l : List ι} : ∀ {s : σ}, I s → Along next K s l → (Along next P s l ↔ Along next C s l) := by
  induction l with
  | nil => intro s _ _; exact Iff.rfl
  | cons i l ih =>
      rintro s hs ⟨hk, hks⟩
      constructor
      · rintro ⟨hp, h⟩
        exact ⟨(hP s i hs hk).mp hp, (ih (hI s i hs hk hp) hks).mp h⟩
      · rintro ⟨hc, h⟩
        have hp := (hP s i hs hk).mpr hc
        exact ⟨hp, (ih (hI s i hs hk hp) hks).mpr h⟩

end Library
