import PBTransfor.Proto.Build
import PBTransfor.Proto.Enums

/-!
# Proto — what the handlers read

For each helper: the lines it reads, and what it stores for them.  `Meets` speaks of every amount
of fuel, `Settles` of all that is enough.
-/

namespace PBTransfor.Proto

open Library.Fuel

/-- Out of fuel. -/
def Spent (e : Halt) : Prop := e = .spent

theorem spent : Spent .spent := rfl

/-- A Lua error. -/
def Raised (e : Halt) : Prop := e ≠ .spent

section
variable {E : Env} {S : Schema} {P : Halt → Prop} {fuel k : Nat} {T : String} {t : Table}
  {f : Field} {e : EnumType} {num : Number} {c : Console}

/-! ### Lines -/

theorem run_enterNums : ∃ o, (enterNums E T f).run c =
    .ok (entered E c.input.head?) ⟨c.input.tail, o⟩ := ⟨_, rfl⟩

theorem run_enterValue : ∃ o, (enterValue E T f).run c =
    .ok (convert E f.type c.input.head?) ⟨c.input.tail, o⟩ := ⟨_, rfl⟩

theorem meets_enterNums {Q : Number → Console → Prop}
    (h : ∀ o, Q (entered E c.input.head?) ⟨c.input.tail, o⟩) :
    Meets P (enterNums E T f) c Q := by
  obtain ⟨o, ho⟩ := run_enterNums (E := E) (T := T) (f := f) (c := c)
  exact .of_ok ho (h o)

theorem meets_enterValue {Q : Option Value → Console → Prop}
    (h : ∀ o, Q (convert E f.type c.input.head?) ⟨c.input.tail, o⟩) :
    Meets P (enterValue E T f) c Q := by
  obtain ⟨o, ho⟩ := run_enterValue (E := E) (T := T) (f := f) (c := c)
  exact .of_ok ho (h o)

/-! ### Arrays -/

variable {one : Method (Option Value)} {I : Console → Prop}

theorem meets_array (hP : P .spent) (h : ∀ c, I c → Meets P one c fun _ => I) (hc : I c) :
    Meets P (array fuel num one) c fun _ => I :=
  meets_forNum hP (fun _ _ c hc => (h c hc).bind fun _ _ hc' => .pure hc') hc

theorem array_zero (hr : rounds num = some 0) (hf : 0 < fuel) :
    array fuel num one = pure .empty := forNum_eq hr hf

theorem array_one (hf : 1 < fuel) :
    array fuel (.integer 1) one = Table.empty.set (.index 1) <$> one := by
  rw [array, forNum_eq (k := 1) (by decide) hf]
  simp only [List.range'_one, List.foldlM_cons, List.foldlM_nil, Nat.cast_one, bind_pure,
    bind_pure_comp]

theorem meets_array_zero (hP : P .spent) (hr : rounds num = some 0) {Q : Table → Console → Prop}
    (h : Q .empty c) : Meets P (array fuel num one) c Q := by
  cases fuel with
  | zero => exact .halt hP
  | succ fuel =>
      rw [array_zero hr (Nat.succ_pos fuel)]
      exact .pure h

theorem meets_array_one (hP : P .spent) {Q : Table → Console → Prop}
    (h : Meets P one c fun v => Q (Table.empty.set (.index 1) v)) :
    Meets P (array fuel (.integer 1) one) c Q := by
  rcases fuel with _ | _ | fuel
  · exact .halt hP
  · have hrun : array 1 (.integer 1) one =
        (one >>= fun v => pure (Table.empty.set (.index 1) v)) >>= fun _ => throw .spent := rfl
    rw [hrun]
    exact (h.bind (R := Q) fun _ _ hQ => .pure hQ).bind fun _ _ _ => .halt hP
  · rw [array_one (by omega)]
    exact .map h

theorem meets_array_endless (hP : P .spent) (h : ∀ c, I c → Meets P one c fun _ => I)
    (hr : rounds num = none) (hc : I c) :
    Meets P (array fuel num one) c fun _ _ => False :=
  meets_forNum_endless hP (fun _ _ c hc => (h c hc).bind fun _ _ hc' => .pure hc') hr hc

theorem meets_array_first (hP : P .spent) (hr : 1 ≤ (forlimit num).1)
    (h : Meets P one c fun _ _ => False) : Meets P (array fuel num one) c fun _ _ => False :=
  meets_forNum_first hP hr (h.bind fun _ _ hf => hf.elim)

theorem settles_array {one : ℕ → Method (Option Value)}
    (h : ∀ c, I c → Settles P one c fun _ => I) (hr : rounds num = some k) (hc : I c) :
    Settles P (fun n => array n num (one n)) c fun _ => I :=
  settles_forNum (fun _ _ c hc => (h c hc).bind fun _ _ hc' => .const (.pure hc')) hr hc

theorem settles_array_zero {one : ℕ → Method (Option Value)} (hr : rounds num = some 0)
    {Q : Table → Console → Prop} (h : Q .empty c) :
    Settles P (fun n => array n num (one n)) c Q := by
  refine (Settles.const (.pure h)).congr ?_
  filter_upwards [Filter.eventually_gt_atTop 0] with n hn
  exact array_zero hr hn

theorem settles_array_one {one : ℕ → Method (Option Value)} {Q : Table → Console → Prop}
    (h : Settles P one c fun v => Q (Table.empty.set (.index 1) v)) :
    Settles P (fun n => array n (.integer 1) (one n)) c Q := by
  refine (Settles.map h).congr ?_
  filter_upwards [Filter.eventually_gt_atTop 1] with n hn
  exact array_one hn

theorem settles_array_first {one : ℕ → Method (Option Value)} (hr : 1 ≤ (forlimit num).1)
    (h : Settles P one c fun _ _ => False) :
    Settles P (fun n => array n num (one n)) c fun _ _ => False :=
  settles_forNum_first hr (h.bind fun _ _ hf => hf.elim)

/-! ### The scan over the values of an enum -/

theorem raised_enumName (hpb : E.pb = false) (i : Int) :
    enumName E e i = raise "attempt to index a nil value (global 'pb')" := by
  rw [enumName, hpb]
  rfl

theorem enumName_eq (hpb : E.pb = true) (i : Int) : enumName E e i = pure (e.nameOf i) := by
  rw [enumName, hpb]
  rfl

theorem enumValue_eq (hpb : E.pb = true) (s : String) :
    enumValue E e s = pure (e.valueOf s) := by
  rw [enumValue, hpb]
  rfl

/-- The text the scan makes of the names it finds. -/
def enumText (text : String) (names : List String) : String :=
  names.foldl (fun text s => text ++ s ++ "  ") text

/-- With fuel for its names the scan finds them. -/
theorem enumScan_eq (hpb : E.pb = true) {i : Nat} {l : List String} (h : e.Scanned i l) :
    ∀ {fuel : Nat} {text : String} {names : List String}, l.length < fuel →
      enumScan E e fuel i text names = pure (enumText text l, l.reverse ++ names) := by
  induction h with
  | stop hnone =>
      intro fuel text names hf
      obtain ⟨fuel, rfl⟩ := Nat.exists_eq_add_of_lt hf
      rw [enumScan, enumName_eq hpb, pure_bind, hnone]
      rfl
  | @more i s l hs t ih =>
      intro fuel text names hf
      cases fuel with
      | zero => cases hf
      | succ fuel =>
          rw [enumScan, enumName_eq hpb, pure_bind, hs, List.reverse_cons, List.append_assoc]
          exact ih (Nat.lt_of_succ_lt_succ hf)

/-- Without, it does not return. -/
theorem enumScan_spent (hpb : E.pb = true) {i : Nat} {l : List String} (h : e.Scanned i l) :
    ∀ {fuel : Nat} {text : String} {names : List String}, fuel ≤ l.length →
      enumScan E e fuel i text names = throw .spent := by
  induction h with
  | stop =>
      intro fuel text names hf
      obtain rfl := Nat.le_zero.mp hf
      rfl
  | @more i s l hs t ih =>
      intro fuel text names hf
      cases fuel with
      | zero => rfl
      | succ fuel =>
          rw [enumScan, enumName_eq hpb, pure_bind, hs]
          exact ih (Nat.le_of_succ_le_succ hf)

/-! ### Enum fields -/

/-- What is printed before a name of an enum is entered. -/
def enumPrompt (f : Field) (names : List String) : List String :=
  ["Choose Enum Value :Enum Type->" ++ f.type ++ "    Enum Value->" ++ enumText "" names,
    "Name    :=    " ++ f.name, "Index   :    " ++ toString f.number]

theorem run_enterEnumValue (hpb : E.pb = true) (l names : List String) :
    (enterEnumValue E e t f (enumText "" l) names).run c = .ok
      (if e.valueOf (tostring c.input.head?) ≠ none ∧ tostring c.input.head? ∈ names then
        t.set (.name f.name) (some (.string (tostring c.input.head?))) else t)
      ⟨c.input.tail, c.output ++ enumPrompt f l⟩ := by
  simp only [enterEnumValue, enumValue_eq hpb, pure_bind, EStateM.run_bind, run_print, run_ioRead,
    enumPrompt, List.append_assoc, List.cons_append, List.nil_append]
  split <;> rfl

/-- The value is stored when the scan offers it: it has a value then. -/
theorem run_enum (hpb : E.pb = true) {l : List String} (h : e.Scanned 0 l) (hf : l.length < fuel) :
    (handleMessageEnumType E fuel e t f).run c = .ok
      (if e.offers (tostring c.input.head?) then
        t.set (.name f.name) (some (.string (tostring c.input.head?))) else t)
      ⟨c.input.tail, c.output ++ enumPrompt f l⟩ := by
  have hscan : enumScan E e fuel 0 "" [] = _ := enumScan_eq hpb h hf
  rw [handleMessageEnumType, hscan, pure_bind, List.append_nil]
  simp only [run_enterEnumValue hpb, List.mem_reverse, h.mem_iff_offers]
  congr 1
  -- a name the scan offers is declared, so the lookup by name finds it
  refine if_congr (and_iff_right_of_imp fun hoff hnone => ?_) rfl rfl
  obtain ⟨n, hn⟩ := hoff.mem
  cases hnone.symm.trans (EnumType.valueOf_eq_some.mpr hn)

theorem spent_enum (hpb : E.pb = true) {l : List String} (h : e.Scanned 0 l)
    (hf : fuel ≤ l.length) : handleMessageEnumType E fuel e t f = throw .spent := by
  have hscan : enumScan E e fuel 0 "" [] = _ := enumScan_spent hpb h hf
  rw [handleMessageEnumType, hscan]
  rfl

/-- What the handler settles on. -/
theorem settles_enum_iff (hpb : E.pb = true) {l : List String} (h : e.Scanned 0 l)
    {Q : Table → Console → Prop} :
    Settles P (fun n => handleMessageEnumType E n e t f) c Q ↔
      Q (if e.offers (tostring c.input.head?) then
          t.set (.name f.name) (some (.string (tostring c.input.head?))) else t)
        ⟨c.input.tail, c.output ++ enumPrompt f l⟩ := by
  refine Settles.iff_of_ok ?_
  filter_upwards [Filter.eventually_gt_atTop l.length] with n hn
  exact run_enum hpb h hn

theorem meets_enum (hpb : E.pb = true) (hP : P .spent) :
    Meets P (handleMessageEnumType E fuel e t f) c fun t' c' =>
      t' = (if e.offers (tostring c.input.head?) then
        t.set (.name f.name) (some (.string (tostring c.input.head?))) else t) ∧
      c'.input = c.input.tail := by
  obtain ⟨l, hl⟩ := e.exists_scanned (i := 0) rfl
  rcases lt_or_ge l.length fuel with hf | hf
  · exact .of_ok (run_enum hpb hl hf) ⟨rfl, rfl⟩
  · rw [spent_enum hpb hl hf]
    exact .halt hP

theorem settles_enum (hpb : E.pb = true) :
    Settles P (fun n => handleMessageEnumType E n e t f) c fun _ c' =>
      c'.input = c.input.tail := by
  obtain ⟨l, hl⟩ := e.exists_scanned (i := 0) rfl
  exact (settles_enum_iff hpb hl).mpr rfl

/-- Without the global `pb` the scan raises at once. -/
theorem meets_enum_nil (hpb : E.pb = false) (hP : ∀ e, P e) :
    Meets P (handleMessageEnumType E fuel e t f) c fun _ _ => False := by
  rw [handleMessageEnumType]
  refine Meets.bind (Q := fun _ _ => False) ?_ fun _ _ h => h.elim
  cases fuel with
  | zero => exact .halt (hP _)
  | succ fuel =>
      rw [enumScan, raised_enumName hpb]
      exact .halt (hP _)

theorem settles_enum_nil (hpb : E.pb = false) {Q : Table → Console → Prop} :
    Settles Raised (fun n => handleMessageEnumType E n e t f) c Q := by
  have hn : ∀ n, handleMessageEnumType E (n + 1) e t f =
      raise "attempt to index a nil value (global 'pb')" := by
    intro n
    rw [handleMessageEnumType, enumScan, raised_enumName hpb]
    rfl
  refine .of_succ ?_
  simp only [hn]
  exact .const (.halt (by simp [Raised]))

/-! ### One value -/

variable {make : String → Table → Method Table}

theorem meets_enterOne {I : Console → Prop}
    (hb : S.find f.type = none → ∀ o, I ⟨c.input.tail, o⟩)
    (hm : S.IsMessage f.type → Meets P (make f.type .empty) c fun _ => I)
    (hne : ∀ e, S.find f.type ≠ some (.enum e)) :
    Meets P (enterOne E S make T f) c fun _ => I := by
  match hf : S.find f.type with
  | none =>
      rw [enterOne_base hf]
      exact meets_enterValue (hb hf)
  | some (.enum e) => exact absurd hf (hne e)
  | some (.message m) =>
      rw [enterOne_message ⟨m, hf⟩]
      exact .map (hm ⟨m, hf⟩)

theorem settles_enterOne {make : ℕ → String → Table → Method Table} {I : Console → Prop}
    (hb : S.find f.type = none → ∀ o, I ⟨c.input.tail, o⟩)
    (hm : S.IsMessage f.type → Settles P (fun n => make n f.type .empty) c fun _ => I)
    (hne : ∀ e, S.find f.type ≠ some (.enum e)) :
    Settles P (fun n => enterOne E S (make n) T f) c fun _ => I := by
  match hf : S.find f.type with
  | none =>
      simp only [enterOne_base hf]
      exact .const (meets_enterValue (hb hf))
  | some (.enum e) => exact absurd hf (hne e)
  | some (.message m) =>
      simp only [enterOne_message ⟨m, hf⟩]
      exact .map (hm ⟨m, hf⟩)

end

end PBTransfor.Proto
