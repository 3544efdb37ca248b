import PBTransfor.Proto.For
import PBTransfor.Proto.Schema

/-!
# Proto — building a message table

`MakeMessageTable` of `transpb.lua` and its helpers: for each field of a message they prompt,
read a line and store what it says.  A field is passed whole where the source passes its name,
number, type and option.

Each handler is shown equal to a form without Lua's checks: the value a field asks for, put under
its name, or an array of such values (`array`).
-/

namespace PBTransfor.Proto

/-! ### The functions of the source -/

/-- `randomData`. -/
def randomData (E : Env) : String → Option (Option String → Option Value)
  | "bool" => some fun str => some (.boolean (str = some "true"))
  | "string" => some fun str => some (.string (tostring str))
  | "bytes" => some fun str => some (.string (tostring str))
  | "other" => some fun str => (tonumber E str).map .number
  | _ => none

/-- `randomData[FieldBaseType](v)`, or `randomData["other"](v)` where there is none. -/
def callRandomData (E : Env) (fieldBaseType : String) (v : Option String) :
    Method (Option Value) :=
  match randomData E fieldBaseType with
  | some call => return call v
  | none =>
      match randomData E "other" with
      | some call => return call v
      | none => raise "attempt to call a nil value (field 'other')"

/-- The global `option`, which nothing assigns: the name is a parameter elsewhere. -/
def option : Option String := none

def getRepeatedFieldNums (E : Env) (messageType : String) (f : Field) :
    Method (Option Number × Bool) := do
  if f.option.text = "repeated" ∨ option = some "packed" then
    print ("Enter Repeated Nums :Message->" ++ messageType ++ "    FieldName->" ++ f.name)
    let repeatNum := tonumber E (← ioRead)
    return (if repeatNum = none then some (.integer 0) else repeatNum, true)
  else
    return (some (.integer 1), false)

/-- The prompt for a value of a base type, and the line that answers it. -/
def enterTypeValue (messageType : String) (f : Field) : Method (Option String) := do
  print "Enter Type Value"
  print ("Message       :    " ++ messageType)
  print ("FieldName     :    " ++ f.name)
  print ("FieldIndex    :    " ++ toString f.number)
  print ("FieldBaseType :    " ++ f.type)
  print ("FieldOption   :    " ++ f.option.text)
  ioRead

def handleMessageBaseType (E : Env) (fuel : Nat) (messageTable : Table) (messageType : String)
    (f : Field) : Method Table := do
  let (num, isRepeated) ← getRepeatedFieldNums E messageType f
  if (← exceedsOne num) || isRepeated then
    let messageTable := messageTable.set (.name f.name) (some (.table Table.empty))
    forNum fuel num (fun i messageTable => do
      let typeValue ← enterTypeValue messageType f
      setIndex messageTable f.name i (← callRandomData E f.type typeValue)) messageTable
  else
    let typeValue ← enterTypeValue messageType f
    return messageTable.set (.name f.name) (← callRandomData E f.type typeValue)

/-- `pb.enum(FieldBaseType, i)`, where `pb` is a global. -/
def enumName (E : Env) (e : EnumType) (i : Int) : Method (Option String) :=
  if E.pb then return e.nameOf i else raise "attempt to index a nil value (global 'pb')"

/-- `pb.enum(FieldBaseType, s)`. -/
def enumValue (E : Env) (e : EnumType) (s : String) : Method (Option Int) :=
  if E.pb then return e.valueOf s else raise "attempt to index a nil value (global 'pb')"

/-- The `while` over the values from `i` on: the names as one text, and the keys of
`enum_table`.  The three calls of a round give the same name. -/
def enumScan (E : Env) (e : EnumType) : Nat → Int → String → List String →
    Method (String × List String)
  | 0, _, _, _ => throw .spent
  | fuel + 1, i, enumText, enumTable => do
      match ← enumName E e i with
      | none => return (enumText, enumTable)
      | some s => enumScan E e fuel (i + 1) (enumText ++ s ++ "  ") (s :: enumTable)

/-- The prompt for a name of the enum; the line that answers it is stored if it is one. -/
def enterEnumValue (E : Env) (e : EnumType) (messageTable : Table) (f : Field)
    (enumText : String) (enumTable : List String) : Method Table := do
  print ("Choose Enum Value :Enum Type->" ++ f.type ++ "    Enum Value->" ++ enumText)
  print ("Name    :=    " ++ f.name)
  print ("Index   :    " ++ toString f.number)
  let value := tostring (← ioRead)
  if (← enumValue E e value) ≠ none ∧ value ∈ enumTable then
    return messageTable.set (.name f.name) (some (.string value))
  else
    return messageTable

def handleMessageEnumType (E : Env) (fuel : Nat) (e : EnumType) (messageTable : Table)
    (f : Field) : Method Table := do
  let (enumText, enumTable) ← enumScan E e fuel 0 "" []
  enterEnumValue E e messageTable f enumText enumTable

def handleMessageNestType (E : Env) (fuel : Nat) (make : String → Table → Method Table)
    (messageTable : Table) (messageType : String) (f : Field) : Method Table := do
  let (num, _) ← getRepeatedFieldNums E messageType f
  let messageTable := messageTable.set (.name f.name) (some (.table Table.empty))
  forNum fuel num (fun i messageTable => do
    let sub ← make f.type .empty
    setIndex messageTable f.name i (some (.table sub))) messageTable

/-- What `MakeMessageTable` does with a field. -/
def handleField (E : Env) (S : Schema) (fuel : Nat) (make : String → Table → Method Table)
    (fieldType : String) (mainTable : Table) (f : Field) : Method Table :=
  match S.find f.type with
  | none => handleMessageBaseType E fuel mainTable fieldType f
  | some (.enum e) => handleMessageEnumType E fuel e mainTable f
  | some (.message _) => handleMessageNestType E fuel make mainTable fieldType f

def makeMessageTable (E : Env) (S : Schema) : Nat → String → Table → Method Table
  | 0, _, _ => throw .spent
  | fuel + 1, fieldType, mainTable =>
      (S.fields fieldType).foldlM
        (handleField E S fuel (makeMessageTable E S fuel) fieldType) mainTable

/-! ### Without the checks -/

/-- The value a line is for a base type. -/
def convert (E : Env) (fieldBaseType : String) (v : Option String) : Option Value :=
  if fieldBaseType = "bool" then some (.boolean (v = some "true"))
  else if fieldBaseType = "string" ∨ fieldBaseType = "bytes" then some (.string (tostring v))
  else (tonumber E v).map .number

/-- The number of repetitions a line enters: none where it is no numeral. -/
def entered (E : Env) (line : Option String) : Number := (tonumber E line).getD (.integer 0)

/-- The prompt for the number of repetitions, and the number that is entered. -/
def enterNums (E : Env) (messageType : String) (f : Field) : Method Number := do
  print ("Enter Repeated Nums :Message->" ++ messageType ++ "    FieldName->" ++ f.name)
  return entered E (← ioRead)

/-- The prompt for a value of a base type, and the value that is entered. -/
def enterValue (E : Env) (messageType : String) (f : Field) : Method (Option Value) :=
  convert E f.type <$> enterTypeValue messageType f

/-- An array of `num` values, each entered by `one`. -/
def array (fuel : Nat) (num : Number) (one : Method (Option Value)) : Method Table :=
  forNum fuel (some num) (fun i u => do return Table.set u (.index i) (← one)) Table.empty

/-- One value of the field's type: that of a base type is entered, a message is made. -/
def enterOne (E : Env) (S : Schema) (make : String → Table → Method Table) (messageType : String)
    (f : Field) : Method (Option Value) :=
  match S.find f.type with
  | some (.message _) => (fun sub => some (.table sub)) <$> make f.type .empty
  | _ => enterValue E messageType f

/-- A table under the field's name. -/
def Table.put (t : Table) (f : Field) (u : Table) : Table :=
  t.set (.name f.name) (some (.table u))

section
variable {E : Env} {S : Schema} {fuel : Nat} {T : String} {t u : Table} {f : Field}
  {make : String → Table → Method Table}

theorem callRandomData_eq (type : String) (v : Option String) :
    callRandomData E type v = pure (convert E type v) := by
  simp only [callRandomData, randomData, convert]
  split
  · next h =>
    split at h <;> cases h <;> rfl
  · next h =>
    split at h <;> simp_all

theorem option_text (o : FieldOption) : o.text = "repeated" ↔ o = .repeated := by
  cases o <;> decide

theorem nums_repeated (h : f.option = .repeated) :
    getRepeatedFieldNums E T f = (fun n => (some n, true)) <$> enterNums E T f := by
  simp only [getRepeatedFieldNums, option_text, h, true_or, if_true, enterNums, map_bind, map_pure]
  congr 1
  funext _
  congr 1
  funext line
  rw [entered]
  cases tonumber E line with
  | none => rfl
  | some n => rfl

theorem nums_single (h : f.option ≠ .repeated) :
    getRepeatedFieldNums E T f = pure (some (.integer 1), false) := by
  rw [getRepeatedFieldNums, if_neg]
  rw [option_text]
  rintro (h' | h')
  · exact h h'
  · cases h'

theorem setIndex_put (i : Int) (v : Option Value) :
    setIndex (t.put f u) f.name i v = pure (t.put f (u.set (.index i) v)) := by
  simp only [setIndex, Table.put, Table.set_self, Table.set_set]

/-- Assignments into the table under a name are assignments into that table. -/
theorem forNum_setIndex {num : Number} {one : Method (Option Value)} :
    forNum fuel (some num) (fun i t => do setIndex t f.name i (← one)) (t.put f .empty) =
      t.put f <$> array fuel num one := by
  refine forNum_map (t.put f) (fun i u => ?_) .empty
  simp only [setIndex_put, map_bind, map_pure]

theorem base_single (h : f.option ≠ .repeated) :
    handleMessageBaseType E fuel t T f =
      t.set (.name f.name) <$> enterValue E T f := by
  have h1 : exceedsOne (some (.integer 1)) = pure false := rfl
  simp only [handleMessageBaseType, nums_single h, pure_bind, h1, Bool.or_self, callRandomData_eq,
    enterValue, Bool.false_eq_true, if_false, map_eq_pure_bind, bind_assoc]

/-- With `is_repeated` the comparison of the number with 1 does not matter. -/
theorem base_repeated (h : f.option = .repeated) :
    handleMessageBaseType E fuel t T f =
      enterNums E T f >>= fun num => t.put f <$> array fuel num (enterValue E T f) := by
  have h1 : ∀ n, ∃ b, exceedsOne (some n) = pure b := by
    rintro (n | q | b)
    · exact ⟨_, rfl⟩
    · exact ⟨_, rfl⟩
    · exact ⟨_, rfl⟩
  simp only [handleMessageBaseType, nums_repeated h, bind_map_left]
  congr 1
  funext n
  obtain ⟨b, hb⟩ := h1 n
  simp only [hb, pure_bind, Bool.or_true, if_true, callRandomData_eq]
  rw [← forNum_setIndex]
  simp only [enterValue, bind_map_left, Table.put]

theorem nest_single (h : f.option ≠ .repeated) :
    handleMessageNestType E fuel make t T f =
      t.put f <$> array fuel (.integer 1)
        ((fun sub => some (.table sub)) <$> make f.type .empty) := by
  rw [← forNum_setIndex]
  simp only [handleMessageNestType, nums_single h, pure_bind, bind_map_left, Table.put]

theorem nest_repeated (h : f.option = .repeated) :
    handleMessageNestType E fuel make t T f =
      enterNums E T f >>= fun num =>
        t.put f <$> array fuel num ((fun sub => some (.table sub)) <$> make f.type .empty) := by
  simp only [← forNum_setIndex]
  simp only [handleMessageNestType, nums_repeated h, bind_map_left, Table.put]

/-! ### The four ways a field is handled -/

variable {e : EnumType}

/-- A field is of an enum; or it is counted; or it is single, of a base type or a message. -/
inductive FieldKind (S : Schema) (f : Field) : Prop where
  | enum (e : EnumType) (he : S.find f.type = some (.enum e))
  | counted (hne : ∀ e, S.find f.type ≠ some (.enum e)) (ho : f.option = .repeated)
  | base (hf : S.find f.type = none) (ho : f.option ≠ .repeated)
  | nest (hm : S.IsMessage f.type) (ho : f.option ≠ .repeated)

theorem fieldKind (S : Schema) (f : Field) : FieldKind S f := by
  by_cases ho : f.option = .repeated
  · by_cases hne : ∃ e, S.find f.type = some (.enum e)
    · obtain ⟨e, he⟩ := hne
      exact .enum e he
    · exact .counted (not_exists.mp hne) ho
  · match hf : S.find f.type with
    | none => exact .base hf ho
    | some (.enum e) => exact .enum e hf
    | some (.message m) => exact .nest ⟨m, hf⟩ ho

theorem enterOne_base (hf : S.find f.type = none) : enterOne E S make T f = enterValue E T f := by
  rw [enterOne, hf]

theorem enterOne_message (hm : S.IsMessage f.type) :
    enterOne E S make T f = (fun sub => some (.table sub)) <$> make f.type .empty := by
  obtain ⟨m, hm⟩ := hm
  rw [enterOne, hm]

theorem handleField_enum (he : S.find f.type = some (.enum e)) :
    handleField E S fuel make T t f = handleMessageEnumType E fuel e t f := by
  rw [handleField, he]

/-- A base type and a message are counted alike. -/
theorem handleField_counted (hne : ∀ e, S.find f.type ≠ some (.enum e))
    (ho : f.option = .repeated) :
    handleField E S fuel make T t f =
      enterNums E T f >>= fun num => t.put f <$> array fuel num (enterOne E S make T f) := by
  match hf : S.find f.type with
  | none => rw [handleField, hf, enterOne_base hf, ← base_repeated ho]
  | some (.enum e) => exact absurd hf (hne e)
  | some (.message m) => rw [handleField, hf, enterOne_message ⟨m, hf⟩, ← nest_repeated ho]

theorem handleField_base (hf : S.find f.type = none) (ho : f.option ≠ .repeated) :
    handleField E S fuel make T t f = t.set (.name f.name) <$> enterValue E T f := by
  rw [handleField, hf, ← base_single ho]

theorem handleField_nest (hm : S.IsMessage f.type) (ho : f.option ≠ .repeated) :
    handleField E S fuel make T t f =
      t.put f <$> array fuel (.integer 1) (enterOne E S make T f) := by
  rw [enterOne_message hm]
  obtain ⟨m, hm⟩ := hm
  rw [handleField, hm]
  exact nest_single ho

end

end PBTransfor.Proto
