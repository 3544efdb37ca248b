import Mathlib.Data.Set.Finite.List
import Mathlib.Logic.Relation
import Mathlib.Order.Filter.AtTopBot.Basic
import PBTransfor.Library.Program

/-!
# Library — programs with bounded loops

A loop or a recursion that need not end is a family `F : ℕ → EStateM ε σ α`: `F n` runs as the
program does, and halts with an exception of its own once it has gone round `n` times.

`Meets E x s Q` says that `x`, run from `s`, returns with `Q` or halts with an exception in `E`;
with `Q` false, that it never returns.  `Settles E F s Q` says that `F`, run from `s`, ends in
one and the same way at every large enough bound, and that this way is within `E` and `Q`.  With
the exception of the bound outside `E`, this is termination.

`acc_of_no_cycle` is for recursions along a finite graph.
-/

namespace Library.Fuel

open Filter Relation

variable {ε σ α β γ : Type} {E E' : ε → Prop} {Q Q' : α → σ → Prop} {R : β → σ → Prop} {s : σ}

/-- What a result says of the way the program ended. -/
def Post (E : ε → Prop) (Q : α → σ → Prop) : EStateM.Result ε σ α → Prop
  | .ok a s => Q a s
  | .error e _ => E e

@[simp] theorem post_ok (a : α) (s : σ) : Post E Q (.ok a s) ↔ Q a s := Iff.rfl
@[simp] theorem post_error (e : ε) (s : σ) : Post E Q (.error e s) ↔ E e := Iff.rfl

theorem Post.imp {r : EStateM.Result ε σ α} (h : Post E Q r) (hE : ∀ e, E e → E' e)
    (hQ : ∀ a s, Q a s → Q' a s) : Post E' Q' r := by
  cases r with
  | ok a s => exact hQ a s h
  | error e s => exact hE e h

/-- `x`, run from `s`, returns with `Q` or halts with an exception in `E`. -/
def Meets (E : ε → Prop) (x : EStateM ε σ α) (s : σ) (Q : α → σ → Prop) : Prop :=
  Post E Q (x.run s)

/-- With every large enough bound, `F` run from `s` ends in one way, within `E` and `Q`. -/
def Settles (E : ε → Prop) (F : ℕ → EStateM ε σ α) (s : σ) (Q : α → σ → Prop) : Prop :=
  ∃ r, Post E Q r ∧ ∀ᶠ n in atTop, (F n).run s = r

/-! ### One program -/

namespace Meets

variable {x : EStateM ε σ α} {g : α → EStateM ε σ β}

theorem imp (h : Meets E x s Q) (hE : ∀ e, E e → E' e) (hQ : ∀ a s, Q a s → Q' a s) :
    Meets E' x s Q' := Post.imp h hE hQ

theorem pure {a : α} (h : Q a s) : Meets E (pure a : EStateM ε σ α) s Q := h

theorem halt {e : ε} (h : E e) : Meets E (throw e : EStateM ε σ α) s Q := h

theorem any : Meets (fun _ => True) x s (fun _ _ => True) := by
  rw [Meets]
  cases x.run s with
  | ok a s' => trivial
  | error e s' => trivial

theorem of_ok {a : α} {s' : σ} (hx : x.run s = .ok a s') (h : Q a s') : Meets E x s Q := by
  rw [Meets, hx]
  exact h

theorem returned {a : α} {s' : σ} (h : Meets E x s Q) (hx : x.run s = .ok a s') : Q a s' := by
  rw [Meets, hx] at h
  exact h

theorem bind (hx : Meets E x s Q) (hg : ∀ a s', Q a s' → Meets E (g a) s' R) :
    Meets E (x >>= g) s R := by
  rw [Meets] at hx
  rw [Meets, EStateM.run_bind]
  cases h : x.run s with
  | ok a s' =>
      rw [h] at hx
      exact hg a s' hx
  | error e s' =>
      rw [h] at hx
      exact hx

theorem map {f : α → β} (hx : Meets E x s (fun a s' => R (f a) s')) : Meets E (f <$> x) s R := by
  rw [Meets] at hx
  rw [Meets, Program.run_map]
  cases h : x.run s with
  | ok a s' =>
      rw [h] at hx
      exact hx
  | error e s' =>
      rw [h] at hx
      exact hx

theorem foldlM_from {g : β → γ → EStateM ε σ β} {I : List γ → β → σ → Prop} :
    ∀ {l done : List γ} {b : β} {s : σ},
      (∀ pre c post b s, done ++ l = pre ++ c :: post → I pre b s →
        Meets E (g b c) s (I (pre ++ [c]))) →
      I done b s → Meets E (l.foldlM g b) s (I (done ++ l))
  | [], done, b, s, _, h => by
      rw [List.append_nil]
      exact pure h
  | c :: l, done, b, s, hg, h => by
      rw [List.foldlM_cons, List.append_cons]
      exact (hg done c l b s rfl h).bind fun b' s' h' =>
        foldlM_from (by simpa using hg) h'

/-- A fold keeps what each round keeps; `I` may speak of the elements gone through. -/
theorem foldlM {g : β → γ → EStateM ε σ β} {I : List γ → β → σ → Prop} {l : List γ} {b : β}
    (hg : ∀ pre c post b s, l = pre ++ c :: post → I pre b s →
      Meets E (g b c) s (I (pre ++ [c]))) (h : I [] b s) :
    Meets E (l.foldlM g b) s (I l) := foldlM_from hg h

end Meets

/-! ### A family of programs -/

namespace Settles

variable {F : ℕ → EStateM ε σ α} {G : ℕ → α → EStateM ε σ β}

theorem imp (h : Settles E F s Q) (hE : ∀ e, E e → E' e) (hQ : ∀ a s, Q a s → Q' a s) :
    Settles E' F s Q' := by
  obtain ⟨r, hr, hF⟩ := h
  exact ⟨r, hr.imp hE hQ, hF⟩

/-- A program without a bound. -/
theorem const {x : EStateM ε σ α} (h : Meets E x s Q) : Settles E (fun _ => x) s Q :=
  ⟨x.run s, h, .of_forall fun _ => rfl⟩

/-- What a family that returns with `a` settles on. -/
theorem iff_of_ok {a : α} {s' : σ} (h : ∀ᶠ n in atTop, (F n).run s = .ok a s') :
    Settles E F s Q ↔ Q a s' := by
  constructor
  · rintro ⟨r, hr, hF⟩
    obtain ⟨n, hn, hn'⟩ := (h.and hF).exists
    obtain rfl : .ok a s' = r := hn.symm.trans hn'
    exact hr
  · exact fun hQ => ⟨.ok a s', hQ, h⟩

/-- Only large bounds matter. -/
theorem congr {F' : ℕ → EStateM ε σ α} (h : Settles E F s Q)
    (hF : ∀ᶠ n in atTop, F' n = F n) : Settles E F' s Q := by
  obtain ⟨r, hr, h⟩ := h
  refine ⟨r, hr, ?_⟩
  filter_upwards [h, hF] with n hn hn'
  rw [hn', hn]

theorem of_succ (h : Settles E (fun n => F (n + 1)) s Q) : Settles E F s Q := by
  obtain ⟨r, hr, h⟩ := h
  refine ⟨r, hr, ?_⟩
  rw [← map_add_atTop_eq_nat 1, eventually_map]
  exact h

theorem bind (hF : Settles E F s Q) (hG : ∀ a s', Q a s' → Settles E (fun n => G n a) s' R) :
    Settles E (fun n => F n >>= G n) s R := by
  obtain ⟨r, hr, hF⟩ := hF
  cases r with
  | ok a s' =>
      obtain ⟨r, hr, hG⟩ := hG a s' hr
      refine ⟨r, hr, ?_⟩
      filter_upwards [hF, hG] with n hn hn'
      rw [EStateM.run_bind, hn]
      exact hn'
  | error e s' =>
      refine ⟨.error e s', hr, ?_⟩
      filter_upwards [hF] with n hn
      rw [EStateM.run_bind, hn]

theorem map {f : α → β} (hF : Settles E F s (fun a s' => R (f a) s')) :
    Settles E (fun n => f <$> F n) s R := by
  obtain ⟨r, hr, hF⟩ := hF
  cases r with
  | ok a s' =>
      refine ⟨.ok (f a) s', hr, ?_⟩
      filter_upwards [hF] with n hn
      rw [Program.run_map, hn]
  | error e s' =>
      refine ⟨.error e s', hr, ?_⟩
      filter_upwards [hF] with n hn
      rw [Program.run_map, hn]

theorem foldlM_from {g : ℕ → β → γ → EStateM ε σ β} {I : List γ → β → σ → Prop} :
    ∀ {l done : List γ} {b : β} {s : σ},
      (∀ pre c post b s, done ++ l = pre ++ c :: post → I pre b s →
        Settles E (fun n => g n b c) s (I (pre ++ [c]))) →
      I done b s → Settles E (fun n => l.foldlM (g n) b) s (I (done ++ l))
  | [], done, b, s, _, h => by
      rw [List.append_nil]
      exact const (.pure h)
  | c :: l, done, b, s, hg, h => by
      simp only [List.foldlM_cons]
      rw [List.append_cons]
      exact (hg done c l b s rfl h).bind fun b' s' h' =>
        foldlM_from (by simpa using hg) h'

theorem foldlM {g : ℕ → β → γ → EStateM ε σ β} {I : List γ → β → σ → Prop} {l : List γ} {b : β}
    (hg : ∀ pre c post b s, l = pre ++ c :: post → I pre b s →
      Settles E (fun n => g n b c) s (I (pre ++ [c]))) (h : I [] b s) :
    Settles E (fun n => l.foldlM (g n) b) s (I l) := foldlM_from hg h

/-- What `F` does at every bound it does in the way it settles on. -/
theorem meets {P : α → σ → Prop} {E₁ : ε → Prop} (hF : Settles E F s Q)
    (h : ∀ n, Meets E₁ (F n) s P) :
    Settles (fun e => E e ∧ E₁ e) F s (fun a s' => Q a s' ∧ P a s') := by
  obtain ⟨r, hr, hF⟩ := hF
  obtain ⟨n, hn⟩ := hF.exists
  have hP := h n
  rw [Meets, hn] at hP
  refine ⟨r, ?_, hF⟩
  cases r with
  | ok a s' => exact ⟨hr, hP⟩
  | error e s' => exact ⟨hr, hP⟩

/-- A family that settles nowhere in `E` and `Q` does not settle. -/
theorem elim (hF : Settles E F s Q) (h : ∀ n, ¬ Post E Q ((F n).run s)) : False := by
  obtain ⟨r, hr, hF⟩ := hF
  obtain ⟨n, hn⟩ := hF.exists
  exact h n (by rwa [hn])

end Settles

/-! ### Recursion along a finite graph -/

/-- Calls that start at finitely many places and never come back to where they were go on only
finitely long. -/
theorem acc_of_no_cycle {r : α → α → Prop} {l : List α} (hl : ∀ a b, r a b → a ∈ l)
    {a : α} (h : ∀ b, ReflTransGen r a b → ¬ TransGen r b b) : Acc (fun y x => r x y) a := by
  -- the places that `a` reaches and that call on
  let B := {b // b ∈ l ∧ ReflTransGen r a b}
  have : Finite B :=
    ((List.finite_toSet l).subset fun b (hb : b ∈ l ∧ ReflTransGen r a b) => hb.1).to_subtype
  have hwf : WellFounded fun y x : B => TransGen r x.1 y.1 := by
    have htrans : IsTrans B fun y x => TransGen r x.1 y.1 := ⟨fun _ _ _ h₁ h₂ => h₂.trans h₁⟩
    have hirrefl : Std.Irrefl fun y x : B => TransGen r x.1 y.1 := ⟨fun b hb => h b.1 b.2.2 hb⟩
    exact Finite.wellFounded_of_trans_of_irrefl _
  have hB : ∀ b : B, Acc (fun y x => r x y) b.1 := by
    intro b
    induction b using hwf.induction with
    | _ b ih =>
        refine .intro _ fun c hc => ?_
        by_cases hcl : c ∈ l
        · exact ih ⟨c, hcl, b.2.2.tail hc⟩ (.single hc)
        · exact .intro _ fun d hd => absurd (hl c d hd) hcl
  by_cases ha : a ∈ l
  · exact hB ⟨a, ha, .refl⟩
  · exact .intro _ fun b hb => absurd (hl a b hb) ha

end Library.Fuel
