import PBTransfor.Proto.Handlers

/-!
# Proto — when the recursion ends

`MakeMessageTable` calls itself for the message fields of a type.  For a `repeated` field it reads
a line first, so that every such call uses up a line of the input; for any other it calls at once,
and a cycle of such fields never comes to an end.

The loop over the fields goes on to a field when the fields before it can be passed: an enum
field where the global `pb` is `nil` raises, and a message field that is not `repeated` is passed
only when the call returns (`CanReturn`).

* `terminates_iff`: building a message ends on all lines exactly if no type it calls is on a
  cycle of calls without a line, and no count that is entered for ever can be entered.
-/

namespace PBTransfor.Proto

open Library.Fuel Relation

/-! ### The calls -/

/-- On some lines a call for the type returns: it meets no enum where `pb` is `nil`, and the
calls it makes without reading a line return in their turn. -/
inductive CanReturn (E : Env) (S : Schema) : String → Prop where
  | intro (T : String)
      (enums : ∀ f ∈ S.fields T, ∀ e, S.find f.type = some (.enum e) → E.pb = true)
      (subs : ∀ f ∈ S.fields T, f.option ≠ .repeated → S.IsMessage f.type →
        CanReturn E S f.type) : CanReturn E S T

/-- The loop over the fields can go on behind the field. -/
structure Passes (E : Env) (S : Schema) (f : Field) : Prop where
  enum : ∀ e, S.find f.type = some (.enum e) → E.pb = true
  sub : f.option ≠ .repeated → S.IsMessage f.type → CanReturn E S f.type

/-- The loop over the fields of `T` can come to the field. -/
def Reaches (E : Env) (S : Schema) (T : String) (f : Field) : Prop :=
  ∃ pre post, S.fields T = pre ++ f :: post ∧ ∀ g ∈ pre, Passes E S g

/-- A call for `T` can call for `U`. -/
def Calls (E : Env) (S : Schema) (T U : String) : Prop :=
  S.IsMessage U ∧ ∃ f, Reaches E S T f ∧ f.type = U

/-- It calls without reading a line first. -/
def CallsAtOnce (E : Env) (S : Schema) (T U : String) : Prop :=
  S.IsMessage U ∧ ∃ f, Reaches E S T f ∧ f.type = U ∧ f.option ≠ .repeated

/-- A call for `T` can read how often to repeat something that returns. -/
def Counts (E : Env) (S : Schema) (T : String) : Prop :=
  ∃ f, Reaches E S T f ∧ f.option = .repeated ∧
    (S.find f.type = none ∨ S.IsMessage f.type ∧ CanReturn E S f.type)

/-- A count that a loop never reaches: the numerals from `LUA_MAXINTEGER` on. -/
def Endless (E : Env) (line : String) : Prop := rounds (entered E (some line)) = none

/-- `MakeMessageTable(T, {}, type_table)` ends: it returns or raises. -/
def Terminates (E : Env) (S : Schema) (T : String) (lines : List String) : Prop :=
  Settles Raised (fun n => makeMessageTable E S n T .empty) ⟨lines, []⟩ fun _ _ => True

section
variable {E : Env} {S : Schema} {P : Halt → Prop} {fuel k : Nat} {T U : String} {t : Table}
  {f : Field} {c : Console} {l : List Field}

theorem canReturn_iff : CanReturn E S T ↔ ∀ f ∈ S.fields T, Passes E S f := by
  constructor
  · rintro ⟨_, enums, subs⟩ f hf
    exact ⟨enums f hf, subs f hf⟩
  · intro h
    exact .intro T (fun f hf => (h f hf).enum) fun f hf => (h f hf).sub

theorem CallsAtOnce.calls (h : CallsAtOnce E S T U) : Calls E S T U := by
  obtain ⟨hU, f, hf, rfl, -⟩ := h
  exact ⟨hU, f, hf, rfl⟩

/-- Only the types of the schema call. -/
theorem CallsAtOnce.mem (h : CallsAtOnce E S T U) : T ∈ S.types.map Prod.fst := by
  obtain ⟨-, f, ⟨pre, post, hT, -⟩, -⟩ := h
  exact Schema.mem_types (f := f) (hT ▸ List.mem_append_right pre List.mem_cons_self)

/-! ### Calls that end -/

theorem entered_nil : rounds (entered E none) = some 0 := by
  rw [entered, tonumber]
  decide

/-- A counted field: whether its count ends or not, its calls have a line less to read. -/
theorem settles_counted (hne : ∀ e, S.find f.type ≠ some (.enum e)) (ho : f.option = .repeated)
    (hsub : S.IsMessage f.type → ∀ c', c'.input <:+ c.input →
      c'.input.length < c.input.length →
      Settles Raised (fun n => makeMessageTable E S n f.type .empty) c'
        fun _ c'' => CanReturn E S f.type ∧ c''.input <:+ c'.input)
    (hcount : S.find f.type = none ∨ S.IsMessage f.type ∧ CanReturn E S f.type →
      ∀ line ∈ c.input, ¬ Endless E line) :
    Settles Raised (fun n => handleField E S n (makeMessageTable E S n) T t f) c
      fun _ c' => c'.input <:+ c.input := by
  simp only [handleField_counted hne ho]
  refine Settles.bind (.const (meets_enterNums (Q := fun num c' =>
    num = entered E c.input.head? ∧ c'.input = c.input.tail) fun o => ⟨rfl, rfl⟩)) ?_
  rintro num c' ⟨rfl, hc'⟩
  refine .map ?_
  cases hc : c.input with
  | nil =>
      rw [hc] at hc'
      exact settles_array_zero entered_nil (by simp [hc'])
  | cons line rest =>
      have hc'' : c'.input <:+ rest := by
        rw [hc', hc]
        exact List.suffix_refl rest
      have hcall : S.IsMessage f.type → ∀ c'', c''.input <:+ rest →
          Settles Raised (fun n => makeMessageTable E S n f.type .empty) c''
            fun _ c₃ => CanReturn E S f.type ∧ c₃.input <:+ c''.input := by
        intro hm c'' h
        refine hsub hm c'' (h.trans (hc ▸ List.suffix_cons line rest)) ?_
        rw [hc]
        exact Nat.lt_succ_of_le h.length_le
      by_cases hl : Endless E line
      · -- the first round raises, or the count could not be entered
        have hno : ¬ (S.find f.type = none ∨ S.IsMessage f.type ∧ CanReturn E S f.type) :=
          fun h => hcount h line (by simp [hc]) hl
        have hmax : (forlimit (entered E (some line))).1 = maxInteger := by
          simpa [Endless, rounds] using hl
        have hmin : 1 ≤ (forlimit (entered E (some line))).1 := by
          rw [hmax]
          decide
        refine (settles_array_first hmin (settles_enterOne ?_ ?_ hne)).imp (fun _ h => h)
          fun _ _ h => h.elim
        · exact fun hf _ => hno (.inl hf)
        · exact fun hm => (hcall hm c' hc'').imp (fun _ h => h) fun _ _ h => hno (.inr ⟨hm, h.1⟩)
      · obtain ⟨k, hk⟩ := Option.ne_none_iff_exists'.mp hl
        refine (settles_array (I := fun c'' => c''.input <:+ rest) (fun c'' h => ?_) hk hc'').imp
          (fun _ h => h) fun _ _ h => h.trans (List.suffix_cons line rest)
        refine settles_enterOne (fun _ _ => (List.tail_suffix _).trans h) (fun hm => ?_) hne
        exact (hcall hm c'' h).imp (fun _ h => h) fun _ _ h' => h'.2.trans h

/-- A field is passed when its call is, and its count ends. -/
theorem settles_handleField
    (hsub : S.IsMessage f.type → ∀ c', c'.input <:+ c.input →
      (f.option = .repeated → c'.input.length < c.input.length) →
      Settles Raised (fun n => makeMessageTable E S n f.type .empty) c'
        fun _ c'' => CanReturn E S f.type ∧ c''.input <:+ c'.input)
    (hcount : f.option = .repeated →
      S.find f.type = none ∨ S.IsMessage f.type ∧ CanReturn E S f.type →
      ∀ line ∈ c.input, ¬ Endless E line) :
    Settles Raised (fun n => handleField E S n (makeMessageTable E S n) T t f) c
      fun _ c' => Passes E S f ∧ c'.input <:+ c.input := by
  rcases fieldKind S f with ⟨e, he⟩ | ⟨hne, ho⟩ | ⟨hf, ho⟩ | ⟨⟨m, hm⟩, ho⟩
  · simp only [handleField_enum he]
    cases hpb : E.pb with
    | false => exact settles_enum_nil hpb
    | true =>
        refine (settles_enum hpb).imp (fun _ h => h) fun _ _ h => ⟨⟨fun _ _ => hpb, ?_⟩, ?_⟩
        · simp [Schema.IsMessage, he]
        · exact h ▸ List.tail_suffix _
  · refine (settles_counted hne ho (fun hm c' hc' hlt => hsub hm c' hc' fun _ => hlt)
      (hcount ho)).imp (fun _ h => h) fun _ _ h => ⟨⟨fun e he => absurd he (hne e), ?_⟩, h⟩
    exact fun ho' _ => absurd ho ho'
  · simp only [handleField_base hf ho]
    refine .map (.const (meets_enterValue fun o => ⟨⟨?_, ?_⟩, List.tail_suffix _⟩))
    · simp [hf]
    · simp [Schema.IsMessage, hf]
  · simp only [handleField_nest ⟨m, hm⟩ ho, enterOne_message ⟨m, hm⟩]
    refine .map (settles_array_one (.map ?_))
    exact (hsub ⟨m, hm⟩ c (List.suffix_refl _) fun h => absurd h ho).imp (fun _ h => h)
      fun _ _ h => ⟨⟨by simp [hm], fun _ _ => h.1⟩, h.2⟩

/-- **Calls end**: by the number of lines, and for the calls made without reading one by the
order they are made in. -/
theorem settles_makeMessageTable
    (hacc : ∀ U, ReflTransGen (Calls E S) T U → Acc (fun V U => CallsAtOnce E S U V) U) :
    ∀ {n : Nat} {U : String}, ReflTransGen (Calls E S) T U → ∀ {c : Console} {t : Table},
      c.input.length ≤ n →
      (∀ line ∈ c.input, Endless E line → ∀ V, ReflTransGen (Calls E S) T V → ¬ Counts E S V) →
      Settles Raised (fun n => makeMessageTable E S n U t) c
        fun _ c' => CanReturn E S U ∧ c'.input <:+ c.input := by
  intro n
  induction n using Nat.strong_induction_on with
  | _ n ihn =>
      intro U hU
      induction hacc U hU with
      | intro U _ ihU =>
          intro c t hn hl
          refine .of_succ ?_
          simp only [makeMessageTable]
          refine (Settles.foldlM (I := fun pre _ c' => (∀ g ∈ pre, Passes E S g) ∧
            c'.input <:+ c.input) ?_ ⟨by simp, List.suffix_refl _⟩).imp (fun _ h => h)
            fun _ _ h => ⟨canReturn_iff.mpr h.1, h.2⟩
          rintro pre f post t' c' hfields ⟨hpre, hc'⟩
          have hreach : Reaches E S U f := ⟨pre, post, hfields, hpre⟩
          have hlines : ∀ c'' : Console, c''.input <:+ c.input → ∀ line ∈ c''.input,
              Endless E line → ∀ V, ReflTransGen (Calls E S) T V → ¬ Counts E S V :=
            fun c'' hc'' line hline => hl line (hc''.mem hline)
          refine (settles_handleField ?_ ?_).imp (fun _ h => h) fun _ _ h => ⟨?_, h.2.trans hc'⟩
          · intro hm c'' hc'' hlt
            have hU' := hU.tail ⟨hm, f, hreach, rfl⟩
            have hlen := (hc''.trans hc').length_le
            -- a count has been read, or nothing has and the type is one called at once
            by_cases ho : f.option = .repeated
            · have := hc'.length_le
              exact ihn c''.input.length (by have := hlt ho; omega) hU' le_rfl
                (hlines c'' (hc''.trans hc'))
            · exact ihU f.type ⟨hm, f, hreach, rfl, ho⟩ hU' (hlen.trans hn)
                (hlines c'' (hc''.trans hc'))
          · intro ho hk line hline hend
            exact hl line (hc'.mem hline) hend U hU ⟨f, hreach, ho, hk⟩
          · intro g hg
            rcases List.mem_append.mp hg with hg | hg
            · exact hpre g hg
            · rw [List.mem_singleton.mp hg]
              exact h.1

/-! ### Fields that are passed -/

/-- The next `k` lines, as far as there are any, are zeros. -/
def Zeros (k : Nat) (c : Console) : Prop := ∀ line ∈ c.input.take k, line = "0"

/-- On `k` zeros a call for `U` returns. -/
def TypePassed (E : Env) (S : Schema) (U : String) (k : Nat) : Prop :=
  ∀ n t c, Zeros k c → Meets Spent (makeMessageTable E S n U t) c
    fun _ c' => c'.input = c.input.drop k

/-- On `k` zeros the loop goes on behind the field. -/
def FieldPassed (E : Env) (S : Schema) (f : Field) (k : Nat) : Prop :=
  ∀ n T t c, Zeros k c → Meets Spent (handleField E S n (makeMessageTable E S n) T t f) c
    fun _ c' => c'.input = c.input.drop k

theorem entered_integer {line : String} {n : Head.LuaInteger} (h : str2int line = some n) :
    entered E (some line) = .integer n := by
  rw [entered, tonumber, h]
  rfl

theorem entered_zeros (h : Zeros 1 c) : rounds (entered E c.input.head?) = some 0 := by
  cases hc : c.input with
  | nil => exact entered_nil
  | cons line rest =>
      have hl : line = "0" := h line (by simp [hc])
      rw [hl, List.head?_cons, entered_integer (n := 0) (by decide)]
      decide

theorem field_passed (henum : ∀ e, S.find f.type = some (.enum e) → E.pb = true)
    (hsub : f.option ≠ .repeated → S.IsMessage f.type → ∃ k, TypePassed E S f.type k) :
    ∃ k, FieldPassed E S f k := by
  rcases fieldKind S f with ⟨e, he⟩ | ⟨hne, ho⟩ | ⟨hf, ho⟩ | ⟨hm, ho⟩
  · refine ⟨1, fun n T t c hz => ?_⟩
    rw [handleField_enum he, List.drop_one]
    exact (meets_enum (henum e he) spent).imp (fun _ h => h) fun _ _ h => h.2
  · refine ⟨1, fun n T t c hz => ?_⟩
    rw [handleField_counted hne ho, List.drop_one]
    refine (meets_enterNums (Q := fun num c' => num = entered E c.input.head? ∧
      c'.input = c.input.tail) fun o => ⟨rfl, rfl⟩).bind ?_
    rintro num c' ⟨rfl, hc'⟩
    exact .map (meets_array_zero spent (entered_zeros hz) hc')
  · refine ⟨1, fun n T t c hz => ?_⟩
    rw [handleField_base hf ho, List.drop_one]
    exact .map (meets_enterValue fun o => rfl)
  · obtain ⟨k, hk⟩ := hsub ho hm
    refine ⟨k, fun n T t c hz => ?_⟩
    rw [handleField_nest hm ho, enterOne_message hm]
    exact .map (meets_array_one spent (.map (hk n _ c hz)))

theorem fields_passed (h : ∀ f ∈ l, ∃ k, FieldPassed E S f k) :
    ∃ k, ∀ n T t c, Zeros k c →
      Meets Spent (l.foldlM (handleField E S n (makeMessageTable E S n) T) t) c
        fun _ c' => c'.input = c.input.drop k := by
  induction l with
  | nil => exact ⟨0, fun n T t c _ => .pure rfl⟩
  | cons f l ih =>
      obtain ⟨k₁, h₁⟩ := h f List.mem_cons_self
      obtain ⟨k₂, h₂⟩ := ih fun g hg => h g (List.mem_cons_of_mem f hg)
      refine ⟨k₁ + k₂, fun n T t c hz => ?_⟩
      rw [Zeros, List.take_add] at hz
      rw [List.foldlM_cons]
      refine (h₁ n T t c fun line hl => hz line (List.mem_append_left _ hl)).bind ?_
      intro t' c' hc'
      refine (h₂ n T t' c' fun line hl => ?_).imp (fun _ h => h) fun _ c'' hc'' => ?_
      · rw [hc'] at hl
        exact hz line (List.mem_append_right _ hl)
      · rw [hc'', hc', List.drop_drop]

theorem CanReturn.passed (h : CanReturn E S U) : ∃ k, TypePassed E S U k := by
  induction h with
  | intro U enums _ ih =>
      obtain ⟨k, hk⟩ := fields_passed fun f hf => field_passed (enums f hf) (ih f hf)
      refine ⟨k, fun n t c hz => ?_⟩
      cases n with
      | zero => exact .halt spent
      | succ n => exact hk n U t c hz

theorem Passes.passed (h : Passes E S f) : ∃ k, FieldPassed E S f k :=
  field_passed h.enum fun ho hm => (h.sub ho hm).passed

/-! ### Calls that do not end -/

/-- A call does not return when a field it comes to, behind some zeros, does not. -/
theorem meets_reached (hP : P .spent) (h : Reaches E S T f) :
    ∃ k, ∀ n t c, Zeros k c →
      (∀ t' c', c'.input = c.input.drop k →
        Meets P (handleField E S n (makeMessageTable E S n) T t' f) c' fun _ _ => False) →
      Meets P (makeMessageTable E S (n + 1) T t) c fun _ _ => False := by
  obtain ⟨pre, post, hfields, hpre⟩ := h
  obtain ⟨k, hk⟩ := fields_passed fun g hg => (hpre g hg).passed
  refine ⟨k, fun n t c hz hf => ?_⟩
  rw [makeMessageTable, hfields]
  simp only [List.foldlM_append, List.foldlM_cons]
  have hpass : Meets P (pre.foldlM (handleField E S n (makeMessageTable E S n) T) t) c
      fun _ c' => c'.input = c.input.drop k := by
    refine (hk n T t c hz).imp ?_ fun _ _ h => h
    rintro _ rfl
    exact hP
  exact hpass.bind fun t' c' hc' => (hf t' c' hc').bind fun _ _ h => h.elim

/-- **A cycle of calls without a line** goes on for ever. -/
theorem meets_cycle (h : TransGen (CallsAtOnce E S) U U) : ∀ {n : Nat} {t : Table} {c : Console},
    c.input = [] → Meets Spent (makeMessageTable E S n U t) c fun _ _ => False := by
  intro n
  induction n generalizing U with
  | zero => intros; exact .halt spent
  | succ n ih =>
      intro t c hc
      obtain ⟨V, hcall, hback⟩ := TransGen.head'_iff.mp h
      obtain ⟨hm, f, hf, rfl, ho⟩ := id hcall
      obtain ⟨k, hk⟩ := meets_reached spent hf
      refine hk n t c (by simp [Zeros, hc]) fun t' c' hc' => ?_
      rw [handleField_nest hm ho, enterOne_message hm]
      have hc'' : c'.input = [] := by simpa [hc] using hc'
      exact .map (meets_array_first spent (by decide)
        (.map (ih (TransGen.tail' hback hcall) hc'')))

/-- There are lines, all of them in `B`, on which a call for `T` does not return. -/
def Never (P : Halt → Prop) (B : String → Prop) (E : Env) (S : Schema) (T : String) : Prop :=
  ∃ lines : List String, (∀ line ∈ lines, B line) ∧ ∀ n t c, c.input = lines →
    Meets P (makeMessageTable E S n T t) c fun _ _ => False

section
variable {B : String → Prop}

theorem never_of_field (hP : P .spent) (h₀ : B "0") (h : Reaches E S T f) (lines : List String)
    (hB : ∀ line ∈ lines, B line)
    (hf : ∀ n t c, c.input = lines →
      Meets P (handleField E S n (makeMessageTable E S n) T t f) c fun _ _ => False) :
    Never P B E S T := by
  obtain ⟨k, hk⟩ := meets_reached (P := P) hP h
  refine ⟨List.replicate k "0" ++ lines, ?_, ?_⟩
  · intro line hl
    rcases List.mem_append.mp hl with hl | hl
    · rw [List.eq_of_mem_replicate hl]
      exact h₀
    · exact hB line hl
  · intro n t c hc
    cases n with
    | zero => exact .halt hP
    | succ n =>
        refine hk n t c ?_ fun t' c' hc' => hf n t' c' ?_
        · intro line hl
          rw [hc, List.take_left' (List.length_replicate ..)] at hl
          exact List.eq_of_mem_replicate hl
        · rw [hc', hc, List.drop_left' (List.length_replicate ..)]

/-- A line is enough to make a call. -/
theorem Calls.never (h : Calls E S T U) (hP : P .spent) (h₀ : B "0") (h₁ : B "1")
    (hU : Never P B E S U) : Never P B E S T := by
  obtain ⟨hm, f, hf, rfl⟩ := h
  obtain ⟨lines, hB, hlines⟩ := hU
  by_cases ho : f.option = .repeated
  · refine never_of_field hP h₀ hf ("1" :: lines) (by simpa [h₁] using hB) ?_
    intro n t c hc
    rw [handleField_counted hm.ne_enum ho, enterOne_message hm]
    refine (meets_enterNums (Q := fun num c' => num = .integer 1 ∧ c'.input = lines)
      fun o => ?_).bind ?_
    · rw [hc]
      exact ⟨entered_integer (by decide), rfl⟩
    · rintro num c' ⟨rfl, hc'⟩
      exact .map (meets_array_first hP (by decide) (.map (hlines n _ c' hc')))
  · refine never_of_field hP h₀ hf lines hB fun n t c hc => ?_
    rw [handleField_nest hm ho, enterOne_message hm]
    exact .map (meets_array_first hP (by decide) (.map (hlines n _ c hc)))

theorem never_of_reached (h : ReflTransGen (Calls E S) T U) (hP : P .spent) (h₀ : B "0")
    (h₁ : B "1") (hU : Never P B E S U) : Never P B E S T := by
  induction h using ReflTransGen.head_induction_on with
  | refl => exact hU
  | head hcall _ ih => exact hcall.never hP h₀ h₁ ih

/-- A count that is entered for ever. -/
theorem Counts.never (h : Counts E S T) (h₀ : B "0") {line : String} (hB : B line)
    (hl : Endless E line) : Never Spent B E S T := by
  obtain ⟨f, hf, ho, hkind⟩ := h
  refine never_of_field spent h₀ hf [line] (by simpa using hB) fun n t c hc => ?_
  have hnums : Meets Spent (enterNums E T f) c fun num c' =>
      num = entered E (some line) ∧ c'.input = [] := by
    refine meets_enterNums fun o => ?_
    rw [hc]
    exact ⟨rfl, rfl⟩
  rcases hkind with hkind | ⟨hm, hret⟩
  · rw [handleField_counted (by simp [hkind]) ho]
    refine hnums.bind ?_
    rintro num c' ⟨rfl, -⟩
    refine .map (meets_array_endless (I := fun _ => True) spent (fun _ _ => ?_) hl trivial)
    rw [enterOne_base hkind]
    exact meets_enterValue fun _ => trivial
  · obtain ⟨k, hk⟩ := hret.passed
    rw [handleField_counted hm.ne_enum ho, enterOne_message hm]
    refine hnums.bind ?_
    rintro num c' ⟨rfl, hc'⟩
    refine .map (meets_array_endless (I := fun c => c.input = []) spent (fun c'' hc'' => ?_) hl hc')
    refine .map ((hk n _ c'' (by simp [Zeros, hc''])).imp (fun _ h => h) fun _ _ h => ?_)
    rw [h, hc'', List.drop_nil]

end

theorem not_terminates {lines : List String} (h : ∀ n t c, c.input = lines →
    Meets Spent (makeMessageTable E S n T t) c fun _ _ => False) : ¬ Terminates E S T lines := by
  intro hterm
  refine hterm.elim fun n hpost => ?_
  have hm := h n .empty ⟨lines, []⟩ rfl
  rw [Meets] at hm
  cases hr : (makeMessageTable E S n T .empty).run ⟨lines, []⟩ with
  | ok t c =>
      rw [hr] at hm
      exact hm
  | error e c =>
      rw [hr] at hm hpost
      exact hpost hm

theorem not_endless {line : String} {n : Head.LuaInteger} (h : str2int line = some n)
    (hn : n.toInt < maxInteger) : ¬ Endless E line := by
  rw [Endless, entered_integer h, rounds, forlimit, if_neg hn.ne]
  exact Option.some_ne_none _

/-- The numeral of `LUA_MAXINTEGER`. -/
theorem endless_maxInteger : Endless E "9223372036854775807" := by
  rw [Endless, entered_integer (n := 9223372036854775807) (by decide)]
  decide

/-- A type on a cycle of calls without a line can be come to. -/
theorem no_cycle_of_terminates {B : String → Prop} (h₀ : B "0") (h₁ : B "1")
    (h : ∀ lines : List String, (∀ line ∈ lines, B line) → Terminates E S T lines)
    (hU : ReflTransGen (Calls E S) T U) : ¬ TransGen (CallsAtOnce E S) U U := by
  intro hcyc
  have hnever : Never Spent B E S U := ⟨[], by simp, fun n t c hc => meets_cycle hcyc hc⟩
  obtain ⟨lines, hB, hno⟩ := never_of_reached hU spent h₀ h₁ hnever
  exact not_terminates hno (h lines hB)

/-- A count for ever can be come to. -/
theorem no_counts_of_terminates (h : ∀ lines : List String, Terminates E S T lines)
    (hU : ReflTransGen (Calls E S) T U) : ¬ Counts E S U := by
  intro hcount
  have hnever := hcount.never (B := fun _ => True) trivial trivial endless_maxInteger
  obtain ⟨lines, -, hno⟩ := never_of_reached hU spent trivial trivial hnever
  exact not_terminates hno (h lines)

theorem terminates_of_no_cycle {lines : List String}
    (h : ∀ U, ReflTransGen (Calls E S) T U → ¬ TransGen (CallsAtOnce E S) U U)
    (hl : ∀ line ∈ lines, Endless E line →
      ∀ U, ReflTransGen (Calls E S) T U → ¬ Counts E S U) : Terminates E S T lines := by
  have hmono : ReflTransGen (CallsAtOnce E S) ≤ ReflTransGen (Calls E S) :=
    ReflTransGen.mono fun _ _ => CallsAtOnce.calls
  have hacc : ∀ U, ReflTransGen (Calls E S) T U → Acc (fun V U => CallsAtOnce E S U V) U :=
    fun U hU => acc_of_no_cycle (fun _ _ hc => hc.mem) fun V hV => h V (hU.trans (hmono U V hV))
  exact (settles_makeMessageTable hacc .refl le_rfl hl).imp (fun _ h => h) fun _ _ _ => trivial

/-- **Building a message ends** on all lines without such a count exactly if no type it can come
to calls itself without reading a line; and on all lines exactly if no such count can be entered
either. -/
theorem terminates_iff (E : Env) (S : Schema) (T : String) :
    ((∀ lines : List String, (∀ line ∈ lines, ¬ Endless E line) → Terminates E S T lines) ↔
      ∀ U, ReflTransGen (Calls E S) T U → ¬ TransGen (CallsAtOnce E S) U U) ∧
    ((∀ lines : List String, Terminates E S T lines) ↔
      ∀ U, ReflTransGen (Calls E S) T U →
        ¬ TransGen (CallsAtOnce E S) U U ∧ ¬ Counts E S U) := by
  refine ⟨⟨fun h U hU => ?_, fun h lines hl => ?_⟩, ⟨fun h U hU => ⟨?_, ?_⟩, fun h lines => ?_⟩⟩
  · exact no_cycle_of_terminates (not_endless (n := 0) (by decide) (by decide))
      (not_endless (n := 1) (by decide) (by decide)) h hU
  · exact terminates_of_no_cycle h fun line hline hend => absurd hend (hl line hline)
  · exact no_cycle_of_terminates (B := fun _ => True) trivial trivial (fun lines _ => h lines) hU
  · exact no_counts_of_terminates h hU
  · exact terminates_of_no_cycle (fun U hU => (h U hU).1) fun _ _ _ U hU => (h U hU).2

end

/-- `message Node { Node next = 1; }`. -/
def nodeSchema : Schema :=
  ⟨[(".Node", .message ⟨[⟨"next", 1, ".Node", .optional⟩], by decide⟩)], by decide⟩

theorem node_callsAtOnce {E : Env} : CallsAtOnce E nodeSchema ".Node" ".Node" :=
  ⟨⟨_, rfl⟩, _, ⟨[], [], rfl, by simp⟩, rfl, by decide⟩

/-- A node asks for no line, and has no end. -/
theorem node_goes_on : ¬ Terminates ⟨false, fun _ => none⟩ nodeSchema ".Node" [] :=
  not_terminates fun _ _ _ hc => meets_cycle (.single node_callsAtOnce) hc

end PBTransfor.Proto
