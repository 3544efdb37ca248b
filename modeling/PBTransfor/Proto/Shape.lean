import PBTransfor.Library.Keyed
import PBTransfor.Proto.Handlers

/-!
# Proto — the shape of the table

What the table of a message is to be, read off the lines that are entered for it
(`readMessage`): the value of its line for a field of a base type or an enum, a table of its own
for a message, and for a `repeated` or `packed` field an array of as many elements as the line
before them says.  Lines that are no literal of what they are entered for are not read.

* `readMessage_shape`: what is read has the shape of its type at every depth.
* `shaped_iff`: the table that is built is the one to be read exactly when all the fields met are
  of the kinds the builder handles, and all the enum names entered are ones its scan finds.
-/

namespace PBTransfor.Proto

open Library Library.Keyed Library.Fuel

/-! ### Reading the lines -/

/-- What is read: the kinds of fields, and the names of enums. -/
structure Reading where
  takes : Option TypeDef → FieldOption → Bool
  names : EnumType → String → Bool

/-- Every field, and every declared name. -/
def declared : Reading where
  takes _ _ := true
  names e s := (e.valueOf s).isSome

/-- The fields for which the builder builds what is read, and the names its scan finds. -/
def handled : Reading where
  takes
    | none, o => o ≠ .packed
    | some (.enum _), o => o = .optional
    | some (.message _), o => o = .repeated
  names e s := e.offers s

/-- The number a count says, if it is one. -/
def Number.count : Number → Option Nat
  | .integer n => if 0 ≤ n.toInt then some n.toInt.toNat else none
  | .float (.finite q) => if q.den = 1 ∧ 0 ≤ q.num then some q.num.toNat else none
  | .float (.infinite _) => none

/-- A literal of a base type. -/
def literal (E : Env) (fieldBaseType line : String) : Option Value :=
  if fieldBaseType = "bool" ∧ line ≠ "true" ∧ line ≠ "false" then none
  else convert E fieldBaseType (some line)

/-- A line for `one`, and the lines behind it. -/
def readLine {α : Type} (one : String → Option α) : List String → Option (α × List String)
  | [] => none
  | line :: rest => (one line).map fun a => (a, rest)

/-- What reads the message types of the fields. -/
abbrev SubReader := String → List String → Option (Table × List String)

section
variable (R : Reading) (E : Env) (S : Schema)

/-- One value of the field's type. -/
def readOne (sub : SubReader) (f : Field) (lines : List String) :
    Option (Option Value × List String) :=
  match S.find f.type with
  | none => readLine (fun line => (literal E f.type line).map some) lines
  | some (.enum e) =>
      readLine (fun line => if R.names e line then some (some (.string line)) else none) lines
  | some (.message _) => (sub f.type lines).map (Prod.map (fun t => some (.table t)) id)

/-- An array of values. -/
def readArray (one : List String → Option (Option Value × List String)) (k : Nat)
    (lines : List String) : Option (Table × List String) :=
  readAll (fun i : Nat => Key.index i) (fun _ => one) (List.range' 1 k) (Table.empty, lines)

/-- A count, and an array of so many values. -/
def readCounted (one : List String → Option (Option Value × List String))
    (lines : List String) : Option (Option Value × List String) :=
  (readLine (fun line => (tonumber E (some line)).bind Number.count) lines).bind fun k =>
    (readArray one k.1 k.2).map (Prod.map (fun u => some (.table u)) id)

/-- What is entered for a field. -/
def readField (sub : SubReader) (f : Field) (lines : List String) :
    Option (Option Value × List String) :=
  if ¬ R.takes (S.find f.type) f.option then none
  else if f.option = .optional then readOne R E S sub f lines
  else readCounted E (readOne R E S sub f) lines

/-- The table of a message of type `T`, and the lines behind it. -/
def readMessage : Nat → SubReader
  | 0, _, _ => none
  | n + 1, T, lines =>
      readAll (fun f : Field => Key.name f.name) (readField R E S (readMessage n))
        (S.fields T) (Table.empty, lines)

end

/-! ### The shape of what is read -/

/-- A value of a base type. -/
def BaseShape (fieldBaseType : String) : Value → Prop
  | .boolean _ => fieldBaseType = "bool"
  | .string _ => fieldBaseType = "string" ∨ fieldBaseType = "bytes"
  | .number _ => fieldBaseType ≠ "bool" ∧ fieldBaseType ≠ "string" ∧ fieldBaseType ≠ "bytes"
  | .table _ => False

/-- A value of the type: one of a base type, a declared name of an enum, the table of a
message. -/
def OneShape (S : Schema) (sub : String → Table → Prop) (type : String) (v : Value) : Prop :=
  match S.find type with
  | none => BaseShape type v
  | some (.enum e) => ∃ s, v = .string s ∧ (e.valueOf s).isSome
  | some (.message _) => ∃ t, v = .table t ∧ sub type t

/-- An array of `k` values, and nothing else. -/
def ArrayShape (one : Value → Prop) (k : Nat) (u : Table) : Prop :=
  (∀ i ∈ List.range' 1 k, ∃ v, u (.index (i : Nat)) = some v ∧ one v) ∧
    ∀ key ∉ (List.range' 1 k).map (fun i : Nat => Key.index i), u key = none

def FieldShape (S : Schema) (sub : String → Table → Prop) (f : Field) (v : Value) : Prop :=
  if f.option = .optional then OneShape S sub f.type v
  else ∃ k u, v = .table u ∧ ArrayShape (OneShape S sub f.type) k u

/-- The table of a message: a value of its shape under the name of each field, and nothing
else. -/
def HasShape (S : Schema) : Nat → String → Table → Prop
  | 0, _, _ => False
  | n + 1, T, t =>
      (∀ f ∈ S.fields T, ∃ v, t (.name f.name) = some v ∧ FieldShape S (HasShape S n) f v) ∧
        ∀ key ∉ (S.fields T).map (fun f => Key.name f.name), t key = none

section
variable {E : Env} {S : Schema} {n k : Nat} {T type line : String} {lines : List String}
  {t : Table} {f : Field} {sub subH : SubReader} {shape : String → Table → Prop} {v : Value}

theorem nodup_indices : ((List.range' 1 k).map fun i : Nat => Key.index i).Nodup := by
  refine List.Nodup.map ?_ List.nodup_range'
  intro i j h
  injection h with h
  exact Int.ofNat.inj h

theorem nodup_names : ((S.fields T).map fun f => Key.name f.name).Nodup := by
  have h := List.Nodup.map (f := Key.name) (fun a b h => by injection h) (S.fields_nodup (T := T))
  simpa [Function.comp_def] using h

theorem literal_convert {w : Value} (h : literal E type line = some w) :
    convert E type (some line) = some w := by
  rw [literal] at h
  split at h
  · cases h
  · exact h

theorem literal_shape (h : literal E type line = some v) : BaseShape type v := by
  have hc := literal_convert h
  rw [convert] at hc
  split_ifs at hc with hbool hstring
  · cases hc
    exact hbool
  · cases hc
    exact hstring
  · obtain ⟨x, -, rfl⟩ := Option.map_eq_some_iff.mp hc
    exact ⟨hbool, not_or.mp hstring⟩

theorem readLine_eq_some {α : Type} {one : String → Option α} {r : α × List String} :
    readLine one lines = some r ↔ ∃ line, lines = line :: r.2 ∧ one line = some r.1 := by
  cases lines with
  | nil => simp [readLine]
  | cons line rest =>
      rw [readLine, Option.map_eq_some_iff]
      constructor
      · rintro ⟨a, ha, rfl⟩
        exact ⟨line, rfl, ha⟩
      · rintro ⟨line', hl, ha⟩
        obtain ⟨rfl, rfl⟩ := List.cons.inj hl
        exact ⟨r.1, ha, rfl⟩

/-- A field of a base type is built from the line as it is to be. -/
theorem literal_follows {r : Option Value × List String}
    (h : readLine (fun line => (literal E type line).map some) lines = some r) :
    convert E type lines.head? = r.1 ∧ lines.tail = r.2 := by
  obtain ⟨line, hline, hr⟩ := readLine_eq_some.mp h
  obtain ⟨w, hw, hr⟩ := Option.map_eq_some_iff.mp hr
  rw [hline, ← hr]
  exact ⟨literal_convert hw, rfl⟩

theorem readOne_shape (hsub : ∀ T lines r, sub T lines = some r → shape T r.1)
    {r : Option Value × List String} (h : readOne declared E S sub f lines = some r) :
    ∃ v, r.1 = some v ∧ OneShape S shape f.type v := by
  rw [readOne] at h
  simp only [OneShape]
  split at h
  case h_1 =>
      obtain ⟨line, -, h⟩ := readLine_eq_some.mp h
      obtain ⟨v, hv, h⟩ := Option.map_eq_some_iff.mp h
      exact ⟨v, h.symm, literal_shape hv⟩
  case h_2 e _ =>
      obtain ⟨line, -, h⟩ := readLine_eq_some.mp h
      split_ifs at h with hs
      exact ⟨_, (Option.some.inj h).symm, line, rfl, hs⟩
  case h_3 =>
      obtain ⟨r, hr, rfl⟩ := Option.map_eq_some_iff.mp h
      exact ⟨_, rfl, r.1, rfl, hsub _ _ _ hr⟩

theorem readArray_shape {one : List String → Option (Option Value × List String)}
    {P : Value → Prop} (hone : ∀ lines r, one lines = some r → ∃ v, r.1 = some v ∧ P v)
    {r : Table × List String} (h : readArray one k lines = some r) : ArrayShape P k r.1 := by
  refine ⟨fun i hi => ?_, fun key hkey => readAll_other h hkey⟩
  obtain ⟨lines', r', hr', heq⟩ := readAll_entry nodup_indices h hi
  obtain ⟨v, hv, hP⟩ := hone _ _ hr'
  exact ⟨v, heq.trans hv, hP⟩

theorem readField_shape (hsub : ∀ T lines r, sub T lines = some r → shape T r.1)
    {r : Option Value × List String} (h : readField declared E S sub f lines = some r) :
    ∃ v, r.1 = some v ∧ FieldShape S shape f v := by
  rw [readField, if_neg (by simp [declared])] at h
  split at h
  case isTrue ho =>
      simp only [FieldShape, if_pos ho]
      exact readOne_shape hsub h
  case isFalse ho =>
      rw [readCounted] at h
      simp only [FieldShape, if_neg ho]
      obtain ⟨k, -, h⟩ := Option.bind_eq_some_iff.mp h
      obtain ⟨u, hu, rfl⟩ := Option.map_eq_some_iff.mp h
      exact ⟨_, rfl, k.1, u.1, rfl, readArray_shape (fun _ _ => readOne_shape hsub) hu⟩

/-- **What is read has its shape** at every depth. -/
theorem readMessage_shape {r : Table × List String}
    (h : readMessage declared E S n T lines = some r) : HasShape S n T r.1 := by
  induction n generalizing T lines r with
  | zero => cases h
  | succ n ih =>
      rw [readMessage] at h
      refine ⟨fun f hf => ?_, fun key hkey => readAll_other h hkey⟩
      obtain ⟨lines', r', hr', heq⟩ := readAll_entry nodup_names h hf
      obtain ⟨v, hv, hP⟩ := readField_shape (fun _ _ _ hr => ih hr) hr'
      exact ⟨v, heq.trans hv, hP⟩

/-! ### The narrow reading -/

/-- The names the scan finds are declared. -/
theorem handled_names {e : EnumType} {s : String} (h : handled.names e s = true) :
    declared.names e s = true := by
  obtain ⟨n, hn, -⟩ := of_decide_eq_true h
  exact Option.isSome_of_mem hn

theorem readLine_mono {α : Type} {one one' : String → Option α} {r : α × List String}
    (hle : ∀ line a, one line = some a → one' line = some a) (h : readLine one lines = some r) :
    readLine one' lines = some r := by
  obtain ⟨line, hl, h⟩ := readLine_eq_some.mp h
  exact readLine_eq_some.mpr ⟨line, hl, hle line _ h⟩

theorem readOne_mono (hsub : ∀ T lines r, subH T lines = some r → sub T lines = some r)
    {r : Option Value × List String} (h : readOne handled E S subH f lines = some r) :
    readOne declared E S sub f lines = some r := by
  rw [readOne] at h ⊢
  split at h
  case h_1 => exact h
  case h_2 =>
      refine readLine_mono (fun line a ha => ?_) h
      split_ifs at ha with hs
      rw [if_pos (handled_names hs), ha]
  case h_3 =>
      obtain ⟨r, hr, rfl⟩ := Option.map_eq_some_iff.mp h
      rw [hsub _ _ _ hr]
      rfl

theorem readField_mono (hsub : ∀ T lines r, subH T lines = some r → sub T lines = some r)
    {r : Option Value × List String} (h : readField handled E S subH f lines = some r) :
    readField declared E S sub f lines = some r := by
  rw [readField] at h ⊢
  split_ifs at h with htakes ho
  · rw [if_neg (by simp [declared]), if_pos ho]
    exact readOne_mono hsub h
  · rw [if_neg (by simp [declared]), if_neg ho]
    rw [readCounted] at h ⊢
    obtain ⟨k, hk, h⟩ := Option.bind_eq_some_iff.mp h
    obtain ⟨u, hu, rfl⟩ := Option.map_eq_some_iff.mp h
    have hu' : readArray (readOne declared E S sub f) k.1 k.2 = some u :=
      readAll_mono (fun _ _ _ => readOne_mono hsub) hu
    rw [hk, Option.bind_some, hu']
    rfl

theorem readMessage_mono {r : Table × List String}
    (h : readMessage handled E S n T lines = some r) :
    readMessage declared E S n T lines = some r := by
  induction n generalizing T lines r with
  | zero => cases h
  | succ n ih => exact readAll_mono (fun _ _ _ => readField_mono fun _ _ _ hr => ih hr) h

/-! ### What is built -/

theorem floor_eq_num {q : Rat} (h : q.den = 1) : q.floor = q.num := by rw [Rat.floor, if_pos h]

/-- A count that is read is the number of rounds, of a loop that ends. -/
theorem rounds_count {num : Number} {k k' : Nat} (hk : num.count = some k)
    (hr : rounds num = some k') : k' = k := by
  obtain ⟨hlt, rfl⟩ := rounds_eq_some.mp hr
  rcases num with n | q | b
  · simp only [Number.count] at hk
    split_ifs at hk
    exact Option.some.inj hk
  · simp only [Number.count] at hk
    split_ifs at hk with hq
    obtain rfl := Option.some.inj hk
    simp only [forlimit, floor_eq_num hq.1] at hlt ⊢
    split_ifs at hlt ⊢ with hrange hpos
    · rfl
    · exact absurd hlt (lt_irrefl _)
    · have hnum : q.num ≤ 0 := not_lt.mp fun h => hpos (Rat.num_pos.mp h)
      exact absurd ⟨le_trans (by decide) hq.2, hnum.trans (by decide)⟩ hrange
  · cases hk

theorem convert_ne_table {v : Option String} {u : Table} : convert E type v ≠ some (.table u) := by
  rw [convert]
  split_ifs
  · simp
  · simp
  · cases tonumber E v <;> simp

theorem table_injective : Function.Injective fun u : Table => some (Value.table u) := by
  intro u u' h
  injection h with h
  injection h

section
variable {fuel : Nat} {num : Number} {one : Method (Option Value)} {c c' : Console}
  {t t' u : Table} {A H : List String → Option (Option Value × List String)}
  {make : String → Table → Method Table}

theorem array_ok (h : (array fuel num one).run c = .ok u c') : ∃ k, rounds num = some k ∧
    ((List.range' 1 k).foldlM (fun u (i : Nat) => Table.set u (.index i) <$> one)
      Table.empty).run c = .ok u c' := by
  obtain ⟨k, hk, h⟩ := forNum_ok h
  simp only [bind_pure_comp] at h
  exact ⟨k, hk, h⟩

/-- An array follows the readings its elements follow. -/
theorem array_follows (hone : ∀ {c c' : Console} {v}, one.run c = .ok v c' →
      Follows (A c.input) (H c.input) v c'.input)
    (hle : ∀ lines r, H lines = some r → A lines = some r) (hk : num.count = some k)
    (h : (array fuel num one).run c = .ok u c') :
    Follows (readArray A k c.input) (readArray H k c.input) u c'.input := by
  obtain ⟨k', hr, h⟩ := array_ok h
  obtain rfl := rounds_count hk hr
  have hentry : ∀ i : Nat, Entry Console.input (fun i : Nat => Key.index i)
      (fun u (i : Nat) => Table.set u (.index i) <$> one) (fun _ => A) (fun _ => H) i := by
    intro i
    constructor
    · intro t c t' c' hstep key hkey
      obtain ⟨v, -, rfl⟩ := Program.run_map_ok.mp hstep
      exact Table.set_other hkey
    · intro t c t' c' hstep _
      obtain ⟨v, hv, rfl⟩ := Program.run_map_ok.mp hstep
      rw [Table.set_self]
      exact hone hv
  exact foldlM_follows nodup_indices (fun i _ => hentry i) (fun _ => hle) (fun _ _ => rfl) h

/-- A count and an array of so many elements. -/
theorem counted_follows (hone : ∀ {c c' : Console} {v}, one.run c = .ok v c' →
      Follows (A c.input) (H c.input) v c'.input)
    (hle : ∀ lines r, H lines = some r → A lines = some r)
    (h : (enterNums E T f >>= fun num => t.put f <$> array fuel num one).run c = .ok t' c') :
    Follows (readCounted E A c.input) (readCounted E H c.input) (t' (.name f.name)) c'.input := by
  obtain ⟨num, c₁, hnum, h⟩ := Program.run_bind_ok.mp h
  obtain ⟨o, ho⟩ := run_enterNums (E := E) (T := T) (f := f) (c := c)
  rw [ho] at hnum
  cases hnum
  obtain ⟨u, hu, rfl⟩ := Program.run_map_ok.mp h
  simp only [readCounted]
  cases hl : readLine (fun line => (tonumber E (some line)).bind Number.count) c.input with
  | none => exact .same fun r hr => by cases hr
  | some k =>
      obtain ⟨line, hline, hcount⟩ := readLine_eq_some.mp hl
      obtain ⟨num, hnum, hk⟩ := Option.bind_eq_some_iff.mp hcount
      have hentered : entered E c.input.head? = num := by
        rw [hline, List.head?_cons, entered, hnum]
        rfl
      rw [hentered] at hu
      have hfollows := (array_follows hone hle hk hu).map table_injective
      rw [hline] at hfollows
      simpa [Table.put] using hfollows

theorem readField_optional {R : Reading} (htakes : R.takes (S.find f.type) f.option = true)
    (ho : f.option = .optional) : readField R E S sub f lines = readOne R E S sub f lines := by
  rw [readField, if_neg (by simp [htakes]), if_pos ho]

theorem readField_counted {R : Reading} (htakes : R.takes (S.find f.type) f.option = true)
    (ho : f.option ≠ .optional) :
    readField R E S sub f lines = readCounted E (readOne R E S sub f) lines := by
  rw [readField, if_neg (by simp [htakes]), if_neg ho]

/-- Where only the wide reading takes a field that is not `optional`, it reads a table. -/
theorem follows_of_not_taken (htakes : handled.takes (S.find f.type) f.option = false)
    (ho : f.option ≠ .optional) {v : Option Value} (hv : ∀ u, v ≠ some (.table u))
    {rest : List String} :
    Follows (readField declared E S sub f lines) (readField handled E S subH f lines) v rest := by
  have hH : readField handled E S subH f lines = none := if_pos (by simp [htakes])
  rw [hH]
  refine .miss fun r hr heq => ?_
  rw [readField, if_neg (by simp [declared]), if_neg ho, readCounted] at hr
  obtain ⟨k, -, hr⟩ := Option.bind_eq_some_iff.mp hr
  obtain ⟨u, -, rfl⟩ := Option.map_eq_some_iff.mp hr
  exact hv u.1 heq

/-- One value of a base type or a message. -/
theorem one_follows (hne : ∀ e, S.find f.type ≠ some (.enum e))
    (hmake : ∀ {T} {c c' : Console} {t}, (make T .empty).run c = .ok t c' →
      Follows (sub T c.input) (subH T c.input) t c'.input)
    {v : Option Value} (h : (enterOne E S make T f).run c = .ok v c') :
    Follows (readOne declared E S sub f c.input) (readOne handled E S subH f c.input) v
      c'.input := by
  match hf : S.find f.type with
  | none =>
      rw [enterOne_base hf] at h
      obtain ⟨o, ho⟩ := run_enterValue (E := E) (T := T) (f := f) (c := c)
      rw [ho] at h
      cases h
      simp only [readOne, hf]
      exact .same fun r => literal_follows
  | some (.enum e) => exact absurd hf (hne e)
  | some (.message m) =>
      rw [enterOne_message ⟨m, hf⟩] at h
      obtain ⟨t, ht, rfl⟩ := Program.run_map_ok.mp h
      simp only [readOne, hf]
      exact (hmake ht).map table_injective

/-- A single field of a base type; a `packed` one is built as if it were `optional`. -/
theorem base_follows (hf : S.find f.type = none) (ho : f.option ≠ .repeated)
    (h : (t.set (.name f.name) <$> enterValue E T f).run c = .ok t' c') :
    Follows (readField declared E S sub f c.input) (readField handled E S subH f c.input)
      (t' (.name f.name)) c'.input := by
  obtain ⟨v, hv, rfl⟩ := Program.run_map_ok.mp h
  obtain ⟨o, hrun⟩ := run_enterValue (E := E) (T := T) (f := f) (c := c)
  rw [Table.set_self]
  by_cases ho' : f.option = .optional
  · rw [readField_optional rfl ho', readField_optional (by simp [handled, hf, ho']) ho']
    simp only [readOne, hf]
    rw [hrun] at hv
    cases hv
    exact .same fun r => literal_follows
  · have hpacked : f.option = .packed := by
      cases hop : f.option with
      | optional => exact absurd hop ho'
      | repeated => exact absurd hop ho
      | packed => rfl
    rw [hrun] at hv
    cases hv
    exact follows_of_not_taken (by simp [handled, hf, hpacked]) ho' fun _ => convert_ne_table

theorem enum_follows {e : EnumType} (hpb : E.pb = true) (hf : S.find f.type = some (.enum e))
    (hnone : t (.name f.name) = none)
    (h : (handleMessageEnumType E fuel e t f).run c = .ok t' c') :
    Follows (readField declared E S sub f c.input) (readField handled E S subH f c.input)
      (t' (.name f.name)) c'.input := by
  obtain ⟨ht', hc'⟩ := (meets_enum hpb spent).returned h
  by_cases ho : f.option = .optional
  · rw [readField_optional rfl ho, readField_optional (by simp [handled, hf, ho]) ho]
    simp only [readOne, hf]
    cases hc : c.input with
    | nil => exact .same fun r hr => by cases hr
    | cons line rest =>
        simp only [hc, List.head?_cons, tostring, List.tail_cons] at ht' hc'
        by_cases hs : e.offers line
        · have hH : handled.names e line = true := decide_eq_true hs
          simp only [readLine, hH, handled_names hH, if_true]
          refine .same fun r hr => ?_
          cases hr
          rw [ht', if_pos hs, Table.set_self, hc']
          exact ⟨rfl, rfl⟩
        -- a line that names no value: the field is left out, and the line is gone
        · have hH : handled.names e line = false := decide_eq_false hs
          simp only [readLine, hH, Bool.false_eq_true, if_false, Option.map_none]
          refine .miss fun r hr => ?_
          obtain ⟨v, hv, rfl⟩ := Option.map_eq_some_iff.mp hr
          rw [ht', if_neg hs, hnone]
          split_ifs at hv
          cases hv
          exact (Option.some_ne_none _).symm
  · refine follows_of_not_taken (by simp [handled, hf, ho]) ho fun u => ?_
    rw [ht']
    split_ifs
    · simp
    · simp [hnone]

/-- A single message is stored as the array of it: its table is under 1, where a message has no
field. -/
theorem nest_follows (hm : S.IsMessage f.type) (ho : f.option = .optional)
    (hname : ∀ T lines r, sub T lines = some r → r.1 (.index 1) = none)
    (h : (t.put f <$> array fuel (.integer 1) (enterOne E S make T f)).run c = .ok t' c') :
    Follows (readField declared E S sub f c.input) (readField handled E S subH f c.input)
      (t' (.name f.name)) c'.input := by
  obtain ⟨u, hu, rfl⟩ := Program.run_map_ok.mp h
  have hu₁ : u (.index 1) ≠ none := by
    rw [enterOne_message hm] at hu
    refine (meets_array_one (P := fun _ => True) (Q := fun u _ => u (.index 1) ≠ none) trivial
      (.map (.imp .any (fun _ h => h) fun _ _ _ => ?_))).returned hu
    rw [Table.set_self]
    exact Option.some_ne_none _
  obtain ⟨m, hm⟩ := hm
  have hH : readField handled E S subH f c.input = none := if_pos (by simp [handled, hm, ho])
  rw [readField_optional rfl ho, hH]
  simp only [readOne, hm]
  refine .miss fun r' hr' heq => hu₁ ?_
  obtain ⟨r, hr, rfl⟩ := Option.map_eq_some_iff.mp hr'
  rw [Table.put, Table.set_self] at heq
  rw [table_injective heq]
  exact hname _ _ _ hr

/-- A handler assigns under the name of its field only. -/
theorem handleField_other (hpb : E.pb = true) (h : (handleField E S fuel make T t f).run c =
    .ok t' c') : ∀ key ≠ .name f.name, t' key = t key := by
  intro key hkey
  rcases fieldKind S f with ⟨e, he⟩ | ⟨hne, ho⟩ | ⟨hf, ho⟩ | ⟨hm, ho⟩
  · rw [handleField_enum he] at h
    obtain ⟨rfl, -⟩ := (meets_enum hpb spent).returned h
    split_ifs
    · exact Table.set_other hkey
    · rfl
  · rw [handleField_counted hne ho] at h
    obtain ⟨num, c₁, -, h⟩ := Program.run_bind_ok.mp h
    obtain ⟨u, -, rfl⟩ := Program.run_map_ok.mp h
    exact Table.set_other hkey
  · rw [handleField_base hf ho] at h
    obtain ⟨v, -, rfl⟩ := Program.run_map_ok.mp h
    exact Table.set_other hkey
  · rw [handleField_nest hm ho] at h
    obtain ⟨u, -, rfl⟩ := Program.run_map_ok.mp h
    exact Table.set_other hkey

/-- A handler follows the two readings of its field. -/
theorem field_follows (hpb : E.pb = true) (hf : f ∈ S.fields T)
    (hmake : ∀ {T} {c c' : Console} {t}, (make T .empty).run c = .ok t c' →
      Follows (sub T c.input) (subH T c.input) t c'.input)
    (hsub : ∀ T lines r, subH T lines = some r → sub T lines = some r)
    (hname : ∀ T lines r, sub T lines = some r → r.1 (.index 1) = none)
    (hnone : t (.name f.name) = none) (h : (handleField E S fuel make T t f).run c = .ok t' c') :
    Follows (readField declared E S sub f c.input) (readField handled E S subH f c.input)
      (t' (.name f.name)) c'.input := by
  rcases fieldKind S f with ⟨e, he⟩ | ⟨hne, ho⟩ | ⟨hkind, ho⟩ | ⟨hm, ho⟩
  · rw [handleField_enum he] at h
    exact enum_follows hpb he hnone h
  · rw [handleField_counted hne ho] at h
    have htakes : handled.takes (S.find f.type) f.option = true := by
      match hkind : S.find f.type with
      | none => simp [handled, ho]
      | some (.enum e) => exact absurd hkind (hne e)
      | some (.message m) => simp [handled, ho]
    have hno : f.option ≠ .optional := by simp [ho]
    rw [readField_counted rfl hno, readField_counted htakes hno]
    exact counted_follows (one_follows hne hmake) (fun _ _ => readOne_mono hsub) h
  · rw [handleField_base hkind ho] at h
    exact base_follows hkind ho h
  · rw [handleField_nest hm ho] at h
    have hopt : f.option = .optional := by
      cases hop : f.option with
      | optional => rfl
      | repeated => exact absurd hop ho
      | packed => exact absurd hm (Schema.not_message_of_packed hf hop)
    exact nest_follows hm hopt hname h

end

/-- **What is built follows the two readings**, by the depth they go to. -/
theorem make_follows (hpb : E.pb = true) {fuel : Nat} {c c' : Console} {t : Table}
    (h : (makeMessageTable E S fuel T .empty).run c = .ok t c') :
    Follows (readMessage declared E S n T c.input) (readMessage handled E S n T c.input) t
      c'.input := by
  induction n generalizing fuel T c c' t with
  | zero => exact .same fun r hr => by cases hr
  | succ n ih =>
      cases fuel with
      | zero => cases h
      | succ fuel =>
          have hname : ∀ T lines r, readMessage declared E S n T lines = some r →
              r.1 (.index 1) = none := by
            intro T lines r hr
            cases n with
            | zero => cases hr
            | succ n => exact readAll_other hr (by simp)
          refine foldlM_follows nodup_names (fun f hf => ?_)
            (fun _ _ _ => readField_mono fun _ _ _ => readMessage_mono) (fun _ _ => rfl) h
          exact ⟨fun hrun => handleField_other hpb hrun, fun hrun hnone =>
            field_follows hpb hf ih (fun _ _ _ => readMessage_mono) hname hnone hrun⟩

end

/-! ### The table that is to be built -/

/-- `t` is the table of the lines: it has the shape of `T` at every depth, and holds the values
that are entered. -/
def Shaped (E : Env) (S : Schema) (T : String) (lines : List String) (t : Table) : Prop :=
  ∃ n rest, readMessage declared E S n T lines = some (t, rest) ∧ HasShape S n T t

/-- The fields the lines are entered for are of the kinds the builder handles, and the names of
enums among them are ones the scan finds. -/
def Handled (E : Env) (S : Schema) (T : String) (lines : List String) : Prop :=
  ∃ n, (readMessage handled E S n T lines).isSome

/-- **A table that is built is the one to be built** exactly when the builder handles what is
entered: no `packed` field, no single message, no array of an enum, and no name of an enum behind
a gap of its values. -/
theorem shaped_iff (strtod : String → Option LuaFloat) (S : Schema) (T : String) (fuel : Nat)
    (lines : List String) (t : Table) (c : Console)
    (h : (makeMessageTable ⟨true, strtod⟩ S fuel T .empty).run ⟨lines, []⟩ = .ok t c) :
    Shaped ⟨true, strtod⟩ S T lines t ↔ Handled ⟨true, strtod⟩ S T lines := by
  have hiff : ∀ n, (∃ rest, readMessage declared ⟨true, strtod⟩ S n T lines = some (t, rest)) ↔
      (readMessage handled ⟨true, strtod⟩ S n T lines).isSome := fun n =>
    (make_follows rfl h).iff fun _ => readMessage_mono
  constructor
  · rintro ⟨n, rest, hread, -⟩
    exact ⟨n, (hiff n).mp ⟨rest, hread⟩⟩
  · rintro ⟨n, hn⟩
    obtain ⟨rest, hread⟩ := (hiff n).mpr hn
    exact ⟨n, rest, hread, readMessage_shape hread⟩

/-- Messages of `rs.proto`. -/
def rsSchema : Schema where
  types := [
    (".RS.GATE_GateInfoNtf", .message ⟨[⟨"server_type", 1, "uint32", .optional⟩,
      ⟨"server_id", 2, "uint32", .optional⟩, ⟨"gss", 3, ".RS.GsInfo", .repeated⟩], by decide⟩),
    (".RS.GsInfo", .message ⟨[⟨"app_id", 1, "string", .optional⟩,
      ⟨"gs_sid", 2, "uint64", .optional⟩], by decide⟩),
    (".RS.GATE_GsOnlineNtf", .message ⟨[⟨"gs", 1, ".RS.GsInfo", .optional⟩,
      ⟨"gate_server_id", 2, "uint32", .optional⟩], by decide⟩)]
  packed_scalar := by decide

/-- An array of messages is built as it is to be. -/
theorem gateInfo_shaped : ∃ t c,
    (makeMessageTable ⟨true, fun _ => none⟩ rsSchema 3 ".RS.GATE_GateInfoNtf" .empty).run
      ⟨["1", "2", "1", "app", "7"], []⟩ = .ok t c ∧
    Shaped ⟨true, fun _ => none⟩ rsSchema ".RS.GATE_GateInfoNtf" ["1", "2", "1", "app", "7"] t :=
  ⟨_, _, rfl, (shaped_iff _ _ _ 3 _ _ _ rfl).mpr ⟨3, rfl⟩⟩

/-- A single message is not: its table ends up one level too deep. -/
theorem gsOnline_misshaped :
    (∃ r, readMessage declared ⟨true, fun _ => none⟩ rsSchema 2 ".RS.GATE_GsOnlineNtf"
      ["app", "7", "3"] = some (r, [])) ∧
    ∃ t c,
      (makeMessageTable ⟨true, fun _ => none⟩ rsSchema 3 ".RS.GATE_GsOnlineNtf" .empty).run
        ⟨["app", "7", "3"], []⟩ = .ok t c ∧
      ¬ Shaped ⟨true, fun _ => none⟩ rsSchema ".RS.GATE_GsOnlineNtf" ["app", "7", "3"] t := by
  refine ⟨⟨_, rfl⟩, _, _, rfl, ?_⟩
  rintro ⟨n, rest, hread, -⟩
  have hfollows := @make_follows ⟨true, fun _ => none⟩ rsSchema n ".RS.GATE_GsOnlineNtf" rfl 3
    ⟨["app", "7", "3"], []⟩ _ _ rfl
  have hsome := (hfollows.iff fun _ => readMessage_mono).mp ⟨rest, hread⟩
  cases n with
  | zero => cases hsome
  | succ n => cases hsome

end PBTransfor.Proto
