import PBTransfor.Proto.Recursion

/-!
# Proto — when building raises

The scripts assign no global `pb`: `require "pb"` returns the module, and `transpb.lua` keeps it
in `transpb.pb`.  `HandleMessageEnumType` reads the global all the same, and raises.  Nothing else
a handler does raises: what it compares, loops to, indexes and calls is never `nil`.

* `raises_iff`: of a schema without recursive types, building a message never raises exactly if
  neither the type nor one it contains has an enum field.
-/

namespace PBTransfor.Proto

open Library.Fuel Relation

/-- The globals of the scripts; none is named `pb`. -/
def scripts (strtod : String → Option LuaFloat) : Env := ⟨false, strtod⟩

/-- A field of `T` has the message type `U`. -/
def Contains (S : Schema) (T U : String) : Prop :=
  S.IsMessage U ∧ ∃ f ∈ S.fields T, f.type = U

/-- No message type contains itself. -/
def Schema.NotRecursive (S : Schema) : Prop := ∀ U, ¬ TransGen (Contains S) U U

/-- `T` has an enum field. -/
def HasEnum (S : Schema) (T : String) : Prop :=
  ∃ f ∈ S.fields T, ∃ e, S.find f.type = some (.enum e)

/-- `MakeMessageTable(T, {}, type_table)` does not raise, however far it is run. -/
def NeverRaises (E : Env) (S : Schema) (T : String) (lines : List String) : Prop :=
  ∀ n, Meets Spent (makeMessageTable E S n T .empty) ⟨lines, []⟩ fun _ _ => True

/-- It returns. -/
def Finishes (E : Env) (S : Schema) (T : String) (lines : List String) : Prop :=
  Settles (fun _ => False) (fun n => makeMessageTable E S n T .empty) ⟨lines, []⟩ fun _ _ => True

section
variable {E : Env} {S : Schema} {P : Halt → Prop} {B : String → Prop} {n : Nat} {T U V : String}
  {t : Table} {f : Field} {c : Console} {lines : List String}

/-! ### Without enum fields -/

/-- Only an enum field raises. -/
theorem meets_handleField (hf : ∀ e, S.find f.type ≠ some (.enum e))
    (hsub : S.IsMessage f.type → ∀ c,
      Meets Spent (makeMessageTable E S n f.type .empty) c fun _ _ => True) :
    Meets Spent (handleField E S n (makeMessageTable E S n) T t f) c fun _ _ => True := by
  have hone : ∀ c, True → Meets Spent
      (enterOne E S (makeMessageTable E S n) T f) c fun _ _ => True :=
    fun c _ => meets_enterOne (I := fun _ => True) (fun _ _ => trivial) (fun hm => hsub hm c) hf
  rcases fieldKind S f with ⟨e, he⟩ | ⟨hne, ho⟩ | ⟨hkind, ho⟩ | ⟨hm, ho⟩
  · exact absurd he (hf e)
  · rw [handleField_counted hne ho]
    refine (meets_enterNums (Q := fun _ _ => True) fun _ => trivial).bind fun num c' _ => ?_
    exact .map (meets_array (I := fun _ => True) spent hone trivial)
  · rw [handleField_base hkind ho]
    exact .map (meets_enterValue fun _ => trivial)
  · rw [handleField_nest hm ho]
    exact .map (meets_array (I := fun _ => True) spent hone trivial)

theorem never_raises (h : ∀ U, ReflTransGen (Contains S) T U → ¬ HasEnum S U) :
    NeverRaises E S T lines := by
  have hall : ∀ n U t c, ReflTransGen (Contains S) T U →
      Meets Spent (makeMessageTable E S n U t) c fun _ _ => True := by
    intro n
    induction n with
    | zero => exact fun _ _ _ _ => .halt spent
    | succ n ih =>
        intro U t c hU
        rw [makeMessageTable]
        refine Meets.foldlM (I := fun _ _ _ => True) ?_ trivial
        rintro pre f post t' c' hfields -
        have hf : f ∈ S.fields U := hfields ▸ List.mem_append_right pre List.mem_cons_self
        refine meets_handleField (fun e he => h U hU ⟨f, hf, e, he⟩) fun hm c'' => ?_
        exact ih f.type .empty c'' (hU.tail ⟨hm, f, hf, rfl⟩)
  exact fun n => hall n T .empty _ .refl

theorem finishes (hterm : Terminates E S T lines) (hraise : NeverRaises E S T lines) :
    Finishes E S T lines :=
  (hterm.meets hraise).imp (fun _ h => h.1 h.2) fun _ _ _ => trivial

theorem not_finishes (h : ∀ n t c, c.input = lines →
    Meets (fun _ => True) (makeMessageTable E S n T t) c fun _ _ => False) :
    ¬ Finishes E S T lines := by
  intro hfin
  obtain ⟨r, hr, -⟩ := hfin.meets fun n => h n .empty ⟨lines, []⟩ rfl
  cases r with
  | ok t c => exact hr.2
  | error e c => exact hr.1

/-! ### With enum fields -/

theorem exists_first {p : Field → Prop} : ∀ {l : List Field}, (¬ ∀ f ∈ l, p f) →
    ∃ pre f post, l = pre ++ f :: post ∧ (∀ g ∈ pre, p g) ∧ ¬ p f
  | [], h => absurd (by simp) h
  | f :: l, h => by
      by_cases hf : p f
      · obtain ⟨pre, g, post, hl, hpre, hg⟩ :=
          exists_first (l := l) (p := p) (by simpa [hf] using h)
        exact ⟨f :: pre, g, post, by rw [hl, List.cons_append], by simpa [hf] using hpre, hg⟩
      · exact ⟨[], f, l, rfl, by simp, hf⟩

/-- The loop over the fields goes to the end, or it comes to a field it cannot pass. -/
theorem exists_blocked (h : ¬ CanReturn E S T) : ∃ f, Reaches E S T f ∧ ¬ Passes E S f := by
  rw [canReturn_iff] at h
  obtain ⟨pre, f, post, hfields, hpre, hf⟩ := exists_first h
  exact ⟨f, ⟨pre, post, hfields, hpre⟩, hf⟩

theorem Schema.NotRecursive.acc (h : S.NotRecursive) (U : String) :
    Acc (fun W V => Contains S V W) U := by
  refine acc_of_no_cycle (l := S.types.map Prod.fst) ?_ fun V _ => h V
  rintro V W ⟨-, f, hf, -⟩
  exact Schema.mem_types hf

theorem CanReturn.reaches (h : CanReturn E S T) (hf : f ∈ S.fields T) : Reaches E S T f := by
  obtain ⟨pre, post, hfields⟩ := List.append_of_mem hf
  exact ⟨pre, post, hfields, fun g hg =>
    canReturn_iff.mp h g (hfields ▸ List.mem_append_left _ hg)⟩

theorem Reaches.contains (h : Reaches E S T f) (hm : S.IsMessage f.type) :
    Contains S T f.type := by
  obtain ⟨pre, post, hfields, -⟩ := h
  exact ⟨hm, f, hfields ▸ List.mem_append_right pre List.mem_cons_self, rfl⟩

theorem Calls.contains (h : Calls E S T U) : Contains S T U := by
  obtain ⟨hm, f, hf, rfl⟩ := h
  exact hf.contains hm

/-- A call that cannot return comes to the global `pb`. -/
theorem never_of_not_canReturn (hS : S.NotRecursive) (h₀ : B "0") (h₁ : B "1")
    (h : ¬ CanReturn E S U) : Never (fun _ => True) B E S U := by
  induction hS.acc U with
  | intro U _ ih =>
      obtain ⟨f, hreach, hblocked⟩ := exists_blocked h
      match hkind : S.find f.type with
      | none => exact absurd ⟨by simp [hkind], by simp [Schema.IsMessage, hkind]⟩ hblocked
      | some (.enum e) =>
          have hpb : E.pb = false := by
            by_contra hpb
            exact hblocked ⟨fun _ _ => by simpa using hpb, by simp [Schema.IsMessage, hkind]⟩
          refine never_of_field trivial h₀ hreach [] (by simp) fun n t c _ => ?_
          rw [handleField_enum hkind]
          exact meets_enum_nil hpb fun _ => trivial
      | some (.message m) =>
          have hsub : ¬ CanReturn E S f.type :=
            fun hret => hblocked ⟨by simp [hkind], fun _ _ => hret⟩
          have hm : S.IsMessage f.type := ⟨m, hkind⟩
          exact Calls.never ⟨hm, f, hreach, rfl⟩ trivial h₀ h₁ (ih _ (hreach.contains hm) hsub)

theorem never_of_contains (hS : S.NotRecursive) (h₀ : B "0") (h₁ : B "1")
    (h : ReflTransGen (Contains S) T U) (hU : Never (fun _ => True) B E S U) :
    Never (fun _ => True) B E S T := by
  induction h using ReflTransGen.head_induction_on with
  | refl => exact hU
  | @head T V hcont _ ih =>
      by_cases hT : CanReturn E S T
      · obtain ⟨hm, f, hf, rfl⟩ := hcont
        exact Calls.never ⟨hm, f, hT.reaches hf, rfl⟩ trivial h₀ h₁ ih
      · exact never_of_not_canReturn hS h₀ h₁ hT

/-- An enum field somewhere in the message, and no global `pb`. -/
theorem never_of_hasEnum (hpb : E.pb = false) (hS : S.NotRecursive) (h₀ : B "0") (h₁ : B "1")
    (hU : ReflTransGen (Contains S) T U) (henum : HasEnum S U) :
    Never (fun _ => True) B E S T := by
  refine never_of_contains hS h₀ h₁ hU (never_of_not_canReturn hS h₀ h₁ ?_)
  rintro ⟨_, enums, -⟩
  obtain ⟨f, hf, e, he⟩ := henum
  rw [enums f hf e he] at hpb
  cases hpb

/-! ### A schema without recursive types -/

/-- Types that can be ranked so that a message ranks above what it contains. -/
theorem notRecursive_of_rank (rank : String → Nat) (h : ∀ p ∈ S.types, ∀ f ∈ S.fields p.1,
    S.IsMessage f.type → rank f.type < rank p.1) : S.NotRecursive := by
  have hlt : ∀ {T U}, TransGen (Contains S) T U → rank U < rank T := by
    have hstep : ∀ {T U}, Contains S T U → rank U < rank T := by
      rintro T _ ⟨hm, f, hf, rfl⟩
      obtain ⟨p, hp, rfl⟩ := List.mem_map.mp (Schema.mem_types hf)
      exact h p hp f hf hm
    intro T U hTU
    induction hTU with
    | single hcont => exact hstep hcont
    | tail _ hcont ih => exact (hstep hcont).trans ih
  exact fun U hcyc => lt_irrefl _ (hlt hcyc)

theorem terminates_of_notRecursive (hS : S.NotRecursive)
    (hl : ∀ line ∈ lines, Endless E line →
      ∀ U, ReflTransGen (Calls E S) T U → ¬ Counts E S U) : Terminates E S T lines := by
  have hmono : TransGen (CallsAtOnce E S) ≤ TransGen (Contains S) :=
    TransGen.mono fun _ _ h => h.calls.contains
  exact terminates_of_no_cycle (fun U _ hcyc => hS U (hmono U U hcyc)) hl

theorem canReturn_of_no_enum (hS : S.NotRecursive)
    (h : ∀ V, ReflTransGen (Contains S) U V → ¬ HasEnum S V) : CanReturn E S U := by
  induction hS.acc U with
  | intro U _ ih =>
      refine .intro U (fun f hf e he => absurd ⟨f, hf, e, he⟩ (h U .refl)) fun f hf _ hm => ?_
      have hcont : Contains S U f.type := ⟨hm, f, hf, rfl⟩
      exact ih f.type hcont fun V hV => h V (.head hcont hV)

/-- A schema without enum fields has every field come to. -/
theorem calls_of_contains (hret : ∀ V, ReflTransGen (Contains S) T V → CanReturn E S V)
    (hU : ReflTransGen (Contains S) T U) : ReflTransGen (Calls E S) T U := by
  induction hU with
  | refl => exact .refl
  | tail hV hcont ih =>
      obtain ⟨hm, f, hf, rfl⟩ := hcont
      exact ih.tail ⟨hm, f, (hret _ hV).reaches hf, rfl⟩

theorem Finishes.terminates (h : Finishes E S T lines) : Terminates E S T lines :=
  h.imp (fun _ h => h.elim) fun _ _ h => h

theorem no_enum_of_finishes (hpb : E.pb = false) (hS : S.NotRecursive)
    (h : ∀ lines : List String, (∀ line ∈ lines, ¬ Endless E line) → Finishes E S T lines)
    (hU : ReflTransGen (Contains S) T U) : ¬ HasEnum S U := by
  intro henum
  obtain ⟨lines, hB, hno⟩ := never_of_hasEnum (B := fun line => ¬ Endless E line) hpb hS
    (not_endless (n := 0) (by decide) (by decide)) (not_endless (n := 1) (by decide) (by decide))
    hU henum
  exact not_finishes hno (h lines hB)

/-- A `repeated` field asks for a count, and one may be entered for ever. -/
theorem no_repeated_of_finishes (hpb : E.pb = false) (hS : S.NotRecursive)
    (h : ∀ lines, Finishes E S T lines) (hU : ReflTransGen (Contains S) T U) :
    ∀ f ∈ S.fields U, f.option ≠ .repeated := by
  intro f hf ho
  have hno : ∀ V, ReflTransGen (Contains S) T V → ¬ HasEnum S V := fun V hV =>
    no_enum_of_finishes hpb hS (fun lines _ => h lines) hV
  have hret : ∀ V, ReflTransGen (Contains S) T V → CanReturn E S V := fun V hV =>
    canReturn_of_no_enum hS fun W hW => hno W (hV.trans hW)
  refine no_counts_of_terminates (fun lines => (h lines).terminates) (calls_of_contains hret hU)
    ⟨f, (hret U hU).reaches hf, ho, ?_⟩
  match hkind : S.find f.type with
  | none => exact .inl rfl
  | some (.enum e) => exact absurd ⟨f, hf, e, hkind⟩ (hno U hU)
  | some (.message m) => exact .inr ⟨⟨m, hkind⟩, hret _ (hU.tail ⟨⟨m, hkind⟩, f, hf, rfl⟩)⟩

end

/-- **Building a message raises** exactly when the message has an enum field somewhere in it: the
global `pb` is `nil`.  When there is none, building returns on all lines without a count that is
entered for ever; and on all lines if there is no `repeated` field either. -/
theorem raises_iff (strtod : String → Option LuaFloat) (S : Schema) (hS : S.NotRecursive)
    (T : String) :
    ((∀ lines, NeverRaises (scripts strtod) S T lines) ↔
      ∀ U, ReflTransGen (Contains S) T U → ¬ HasEnum S U) ∧
    ((∀ lines : List String, (∀ line ∈ lines, ¬ Endless (scripts strtod) line) →
      Finishes (scripts strtod) S T lines) ↔
      ∀ U, ReflTransGen (Contains S) T U → ¬ HasEnum S U) ∧
    ((∀ lines, Finishes (scripts strtod) S T lines) ↔
      ∀ U, ReflTransGen (Contains S) T U →
        ¬ HasEnum S U ∧ ∀ f ∈ S.fields U, f.option ≠ .repeated) := by
  have hends : ∀ lines : List String, (∀ line ∈ lines, ¬ Endless (scripts strtod) line) →
      Terminates (scripts strtod) S T lines := fun lines hl =>
    terminates_of_notRecursive hS fun line hline hend => absurd hend (hl line hline)
  refine ⟨⟨fun h U hU => ?_, fun h lines => never_raises h⟩, ⟨fun h U hU => ?_,
    fun h lines hl => finishes (hends lines hl) (never_raises h)⟩, ⟨fun h U hU => ⟨?_, ?_⟩,
    fun h lines => ?_⟩⟩
  · exact no_enum_of_finishes rfl hS (fun lines hl => finishes (hends lines hl) (h lines)) hU
  · exact no_enum_of_finishes rfl hS h hU
  · exact no_enum_of_finishes rfl hS (fun lines _ => h lines) hU
  · exact no_repeated_of_finishes rfl hS h hU
  · refine finishes (terminates_of_notRecursive hS fun _ _ _ U hU => ?_)
      (never_raises fun U hU => (h U hU).1)
    rintro ⟨f, ⟨pre, post, hfields, -⟩, ho, -⟩
    have hU' := ReflTransGen.mono (fun _ _ => Calls.contains) T U hU
    exact (h U hU').2 f (hfields ▸ List.mem_append_right pre List.mem_cons_self) ho

/-- `versionTest.proto`. -/
def versionSchema : Schema where
  types := [
    (".VERSION.Phone", .message ⟨[⟨"name", 1, "string", .optional⟩,
      ⟨"phonenumber", 2, "int64", .optional⟩], by decide⟩),
    (".VERSION.Person", .message ⟨[⟨"name", 1, "string", .optional⟩, ⟨"age", 2, "int32", .optional⟩,
      ⟨"address", 3, "string", .optional⟩, ⟨"contacts", 4, ".VERSION.Phone", .repeated⟩],
      by decide⟩)]
  packed_scalar := by decide

theorem versionSchema_notRecursive : versionSchema.NotRecursive :=
  notRecursive_of_rank (fun T => if T = ".VERSION.Person" then 1 else 0) (by decide)

theorem versionSchema_no_enum (U : String) : ¬ HasEnum versionSchema U := by
  rintro ⟨f, -, e, he⟩
  simp only [Schema.find, versionSchema, List.lookup_cons, List.lookup_nil] at he
  split at he
  · cases he
  · split at he <;> cases he

/-- A schema without enums: a person of `versionTest.proto` is built without an error. -/
theorem version_never_raises : versionSchema.NotRecursive ∧
    ∀ lines, NeverRaises (scripts fun _ => none) versionSchema ".VERSION.Person" lines :=
  ⟨versionSchema_notRecursive,
    (raises_iff _ _ versionSchema_notRecursive _).1.mpr fun U _ => versionSchema_no_enum U⟩

/-- `PhoneType` of `sub.proto`. -/
def phoneType : EnumType where
  values := [("MOBILE", 0), ("HOME", 1), ("WORK", 2)]
  nameOf n := if n = 0 then some "MOBILE" else if n = 1 then some "HOME"
    else if n = 2 then some "WORK" else none
  names_nodup := by decide
  int32 := by decide
  nameOf_mem := by
    intro n s h
    split_ifs at h with h₀ h₁ h₂ <;> cases h <;> simp [*]
  nameOf_isSome := by decide

/-- `sub.proto`. -/
def subSchema : Schema where
  types := [
    (".SUB.Person", .message ⟨[⟨"name", 1, "string", .optional⟩, ⟨"id", 2, "int32", .optional⟩,
      ⟨"email", 3, "string", .optional⟩, ⟨"phone", 4, ".SUB.Person.PhoneNumber", .repeated⟩],
      by decide⟩),
    (".SUB.Person.PhoneNumber", .message ⟨[⟨"number", 1, "string", .optional⟩,
      ⟨"type", 2, ".SUB.Person.PhoneType", .optional⟩], by decide⟩),
    (".SUB.Person.PhoneType", .enum phoneType)]
  packed_scalar := by decide

theorem subSchema_notRecursive : subSchema.NotRecursive :=
  notRecursive_of_rank (fun T => if T = ".SUB.Person" then 1 else 0) (by decide)

/-- A person of `sub.proto` with one phone: the type of the phone raises. -/
theorem person_raises : subSchema.NotRecursive ∧ ∃ c,
    (makeMessageTable (scripts fun _ => none) subSchema 3 ".SUB.Person" .empty).run
      ⟨["Ann", "7", "ann@home", "1", "555", "HOME"], []⟩ =
      .error (.raised "attempt to index a nil value (global 'pb')") c :=
  ⟨subSchema_notRecursive, _, rfl⟩

end PBTransfor.Proto
