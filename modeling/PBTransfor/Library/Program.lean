import Mathlib.Order.Defs.Unbundled

/-!
# Library — programs that change a state and may halt

A program is an `EStateM ε σ α`: from a state it returns an `α`, or halts with an `ε`, and
leaves a state either way (`leaves`).  `Within R x` says that the state `x` leaves is always
`R`-related to the one it started in, however it ends.  For a preorder `R` it is a rule for each
way programs are put together; this is the frame rule of a method that is a sequence of small
changes.

`Commutes u x` says that `x` does not see the change `u` of the state: run from `u s` it ends as
it does from `s`, and leaves what it leaves there, changed by `u`.
-/

namespace Library.Program

variable {ε σ α β : Type}

@[simp] theorem run_halt (e : ε) (s : σ) : (throw e : EStateM ε σ α).run s = .error e s := rfl

@[simp] theorem run_map (g : α → β) (x : EStateM ε σ α) (s : σ) :
    (g <$> x).run s = match x.run s with
      | .ok a s' => .ok (g a) s'
      | .error e s' => .error e s' := rfl

theorem run_map_ok {g : α → β} {x : EStateM ε σ α} {s s' : σ} {b : β} :
    (g <$> x).run s = .ok b s' ↔ ∃ a, x.run s = .ok a s' ∧ b = g a := by
  rw [run_map]
  cases x.run s with
  | ok a s₁ =>
      constructor
      · rintro ⟨⟩
        exact ⟨a, rfl, rfl⟩
      · rintro ⟨_, ⟨⟩, rfl⟩
        rfl
  | error e s₁ => simp

theorem run_bind_ok {g : α → EStateM ε σ β} {x : EStateM ε σ α} {s s' : σ} {b : β} :
    (x >>= g).run s = .ok b s' ↔ ∃ a s₁, x.run s = .ok a s₁ ∧ (g a).run s₁ = .ok b s' := by
  rw [EStateM.run_bind]
  cases x.run s with
  | ok a s₁ =>
      constructor
      · exact fun h => ⟨a, s₁, rfl, h⟩
      · rintro ⟨_, _, ⟨⟩, h⟩
        exact h
  | error e s₁ => simp

/-- What a handler sees is the state in which the program halted. -/
theorem run_tryCatch (x : EStateM ε σ α) (h : ε → EStateM ε σ α) (s : σ) :
    (tryCatch x h).run s = match x.run s with
      | .ok a s' => .ok a s'
      | .error e s' => (h e).run s' := by
  change EStateM.tryCatch x h s = _
  delta EStateM.tryCatch
  cases hx : x s with
  | ok a s' => simp only [EStateM.run, hx]
  | error e s' =>
      -- nothing is rolled back: what `restore` gives back is the state it is given
      simp only [EStateM.run, hx]
      rfl

/-- The state a run leaves. -/
def leaves : EStateM.Result ε σ α → σ
  | .ok _ s => s
  | .error _ s => s

@[simp] theorem leaves_ok (a : α) (s : σ) : leaves (.ok a s : EStateM.Result ε σ α) = s := rfl
@[simp] theorem leaves_error (e : ε) (s : σ) :
    leaves (.error e s : EStateM.Result ε σ α) = s := rfl

/-- Every run of `x` leaves a state related to the one it started in. -/
def Within (R : σ → σ → Prop) (x : EStateM ε σ α) : Prop := ∀ s, R s (leaves (x.run s))

variable {R : σ → σ → Prop} [IsPreorder σ R] {x : EStateM ε σ α} {g : α → EStateM ε σ β}

theorem Within.pure (a : α) : Within R (pure a : EStateM ε σ α) := fun s => refl s

theorem Within.get : Within R (get : EStateM ε σ σ) := fun s => refl s

theorem Within.halt (e : ε) : Within R (throw e : EStateM ε σ α) := fun s => refl s

omit [IsPreorder σ R] in
theorem Within.modify {u : σ → σ} (h : ∀ s, R s (u s)) :
    Within R (modify u : EStateM ε σ Unit) := h

theorem Within.bind (hx : Within R x) (hg : ∀ a, Within R (g a)) : Within R (x >>= g) := by
  intro s
  have hs := hx s
  rw [EStateM.run_bind]
  cases h : x.run s with
  | ok a s' =>
      rw [h] at hs
      exact IsTrans.trans _ _ _ hs (hg a s')
  | error e s' => rwa [h] at hs

omit [IsPreorder σ R] in
theorem Within.ite {c : Prop} [Decidable c] {y : EStateM ε σ α} (hx : Within R x)
    (hy : Within R y) : Within R (if c then x else y) := by
  split
  · exact hx
  · exact hy

theorem Within.tryCatch {h : ε → EStateM ε σ α} (hx : Within R x) (hh : ∀ e, Within R (h e)) :
    Within R (tryCatch x h) := by
  intro s
  have hs := hx s
  rw [run_tryCatch]
  cases hr : x.run s with
  | ok a s' => rwa [hr] at hs
  | error e s' =>
      rw [hr] at hs
      exact IsTrans.trans _ _ _ hs (hh e s')

/-! ### Changes a program does not see -/

/-- What a run leaves, changed by `u`. -/
def leaving (u : σ → σ) : EStateM.Result ε σ α → EStateM.Result ε σ α
  | .ok a s => .ok a (u s)
  | .error e s => .error e (u s)

@[simp] theorem leaving_ok (u : σ → σ) (a : α) (s : σ) :
    leaving u (.ok a s : EStateM.Result ε σ α) = .ok a (u s) := rfl
@[simp] theorem leaving_error (u : σ → σ) (e : ε) (s : σ) :
    leaving u (.error e s : EStateM.Result ε σ α) = .error e (u s) := rfl

/-- `x` does not see the change `u`. -/
def Commutes (u : σ → σ) (x : EStateM ε σ α) : Prop := ∀ s, x.run (u s) = leaving u (x.run s)

section
variable {u : σ → σ}

theorem Commutes.pure (a : α) : Commutes u (pure a : EStateM ε σ α) := fun _ => rfl

theorem Commutes.halt (e : ε) : Commutes u (throw e : EStateM ε σ α) := fun _ => rfl

theorem Commutes.modify {m : σ → σ} (h : ∀ s, m (u s) = u (m s)) :
    Commutes u (modify m : EStateM ε σ Unit) := by
  intro s
  simp only [EStateM.run_modify, leaving_ok, h]

theorem Commutes.bind (hx : Commutes u x) (hg : ∀ a, Commutes u (g a)) : Commutes u (x >>= g) := by
  intro s
  rw [EStateM.run_bind, EStateM.run_bind, hx s]
  cases x.run s with
  | ok a s' => exact hg a s'
  | error e s' => rfl

/-- The state may be read for what the change leaves alone. -/
theorem Commutes.get_bind {g : σ → EStateM ε σ α} (h : ∀ s, g (u s) = g s)
    (hg : ∀ s, Commutes u (g s)) : Commutes u (get >>= g) := by
  intro s
  rw [EStateM.run_bind, EStateM.run_bind, EStateM.run_get, EStateM.run_get]
  exact (congrArg (fun y => y.run (u s)) (h s)).trans (hg s s)

theorem Commutes.ite {c : Prop} [Decidable c] {y : EStateM ε σ α} (hx : Commutes u x)
    (hy : Commutes u y) : Commutes u (if c then x else y) := by
  split
  · exact hx
  · exact hy

theorem Commutes.tryCatch {h : ε → EStateM ε σ α} (hx : Commutes u x)
    (hh : ∀ e, Commutes u (h e)) : Commutes u (tryCatch x h) := by
  intro s
  rw [run_tryCatch, run_tryCatch, hx s]
  cases x.run s with
  | ok a s' => rfl
  | error e s' => exact hh e s'

end

end Library.Program
