import PBTransfor.Head.Frames
import PBTransfor.Library.Program
import PBTransfor.Proto.Build

/-!
# Driver — the scripts

`transpb.lua` around the table builder, and `loop.lua`, which asks for a message, encodes it and
sends it.

* `prepare_ok`: what `loop.lua` has ready to send is the frame of an empty payload, when there is
  no such file or message, or of the encoding of the table that was entered, which lua-protobuf
  has decoded again (`Entered`).
-/

namespace PBTransfor.Driver

open Library.Program
open Head (LuaString LuaError frame frameBytes)
open Proto (Schema Console Method Env print ioRead raise makeMessageTable)

/-- lua-protobuf, but for what it tells of a schema, and serpent.  `loadfile` says whether it has
returned, and what schema it leaves.  `enumTable` is what the builder makes of an enum, whose
fields lua-protobuf has its own idea of. -/
structure Protobuf where
  loadfile : Schema → Option String → Bool × Schema
  encode : Schema → Option String → Proto.Table → Except String LuaString
  decode : Schema → Option String → LuaString → Except String Proto.Table
  enumTable : Schema → String → Method Proto.Table
  tohex : LuaString → String
  block : Proto.Table → String

/-- An error of the one kind as an error of the other. -/
def liftError : Except LuaError LuaString → Method LuaString
  | .ok s => pure s
  | .error (.argument arg msg) => raise ("bad argument #" ++ toString arg ++ " (" ++ msg ++ ")")
  | .error (.runtime msg) => raise msg

/-- `assert(v)`, of a call that may raise. -/
def assert {α : Type} : Except String α → Method α
  | .ok a => pure a
  | .error msg => raise msg

/-- `"."..message`. -/
def dotted : Option String → Method String
  | some message => pure ("." ++ message)
  | none => raise "attempt to concatenate a nil value (local 'message')"

/-! ### transpb.lua -/

/-- `transpb:find_message`; `type_table` is the schema. -/
def findMessage (S : Schema) (message : Option String) : Method (Option String) :=
  S.types.foldlM (fun dataType type => do
    if type.1 = (← dotted message) then return some type.1 else return dataType) none

section
variable (P : Protobuf) (E : Env) (fuel : Nat)

def encode (S : Schema) (message : Option String) (data : Proto.Table) : Method LuaString := do
  if (← findMessage S message) = none then return .empty
  let bytes ← assert (P.encode S message data)
  print (P.tohex bytes)
  let data₂ ← assert (P.decode S message bytes)
  print (P.block data₂)
  return bytes

/-- `MakeMessageTable(dataType, {}, type_table)`. -/
def makeTable (S : Schema) (dataType : String) : Method Proto.Table :=
  if S.IsMessage dataType then makeMessageTable E S fuel dataType .empty
  else P.enumTable S dataType

/-- `transpb:transpb_by_input`, and the schema it leaves.  The second call of `find_message` gives
what the first has given. -/
def transpbByInput (S : Schema) : Method (LuaString × Schema) := do
  print "Enter Proto File Name :"
  let filename ← ioRead
  let (loaded, S) := P.loadfile S filename
  if loaded = false then
    print "Error : Cant Find Input Proto File! Please Input Again"
    return (.empty, S)
  print "Enter Message Type Name :"
  let messageName ← ioRead
  match ← findMessage S messageName with
  | none =>
      print "Error : Cant Find Input Message! Please Input Again"
      return (.empty, S)
  | some dataType =>
      let data ← makeTable P E fuel S dataType
      let bytes ← encode P S messageName data
      return (bytes, S)

/-! ### loop.lua -/

/-- What `loop.lua` has when it comes to sending: the payload, what it is to send, and the
schema. -/
structure Prepared where
  bytes : LuaString
  data : LuaString
  schema : Schema

/-- `loop.lua`, up to where it sends. -/
def prepare (S : Schema) : Method Prepared := do
  print "===============TransPB Start================"
  let (bytes, S) ← transpbByInput P E fuel S
  let data ← liftError (frame bytes)
  print (P.tohex data)
  return ⟨bytes, data, S⟩

/-- The rest of `loop.lua`. -/
def finish : Method Unit := do
  print "===============TransPB End!!================"
  let _ ← ioRead

end

/-! ### What they send -/

/-- Where a payload comes from, by the lines that were entered: there is no such file, no such
message, or a table was made from the lines behind these two. -/
inductive Entered (P : Protobuf) (E : Env) (fuel : Nat) (S : Schema) (lines : List String) :
    LuaString → Prop where
  | noFile (hload : (P.loadfile S lines.head?).1 = false) : Entered P E fuel S lines .empty
  | noMessage (hload : (P.loadfile S lines.head?).1 = true)
      (hfind : ∀ name ∈ lines[1]?, (P.loadfile S lines.head?).2.find ("." ++ name) = none) :
      Entered P E fuel S lines .empty
  | table {name t t' bytes} {c c' : Console} (hload : (P.loadfile S lines.head?).1 = true)
      (hname : lines[1]? = some name)
      (hfind : (P.loadfile S lines.head?).2.find ("." ++ name) ≠ none)
      (hinput : c.input = lines.drop 2)
      (ht : (makeTable P E fuel (P.loadfile S lines.head?).2 ("." ++ name)).run c = .ok t c')
      (he : P.encode (P.loadfile S lines.head?).2 (some name) t = .ok bytes)
      (hd : P.decode (P.loadfile S lines.head?).2 (some name) bytes = .ok t') :
      Entered P E fuel S lines bytes

section
variable {P : Protobuf} {E : Env} {fuel : Nat} {S : Schema} {c c' : Console}

/-- The type there is of a name. -/
theorem findMessage_some (S : Schema) (name : String) : findMessage S (some name) =
    pure (if (S.find ("." ++ name)).isSome then some ("." ++ name) else none) := by
  have hround : ∀ (dataType : Option String) (type : String × Proto.TypeDef),
      (do if type.1 = (← dotted (some name)) then return some type.1 else return dataType) =
        (pure (if type.1 = "." ++ name then some type.1 else dataType) :
          Method (Option String)) := by
    intro dataType type
    rw [dotted, pure_bind]
    split <;> rfl
  simp only [findMessage, hround, List.foldlM_pure]
  congr 1
  have hgen : ∀ (l : List (String × Proto.TypeDef)) (dataType : Option String),
      l.foldl (fun dataType type =>
          if type.1 = "." ++ name then some type.1 else dataType) dataType =
        if (l.lookup ("." ++ name)).isSome then some ("." ++ name) else dataType := by
    intro l
    induction l with
    | nil => exact fun dataType => rfl
    | cons type l ih =>
        intro dataType
        rw [List.foldl_cons, ih, List.lookup_cons]
        by_cases h : type.1 = "." ++ name
        · rw [if_pos h, h, beq_self_eq_true]
          split <;> rfl
        · rw [if_neg h, beq_eq_false_iff_ne.mpr (Ne.symm h)]
  exact hgen S.types none

/-- What `find_message` says of a name it is given, or of `nil`. -/
theorem findMessage_ok {message dataType : Option String}
    (h : (findMessage S message).run c = .ok dataType c') : c' = c ∧
      ((dataType = none ∧ ∀ name ∈ message, S.find ("." ++ name) = none) ∨
        ∃ name, message = some name ∧ dataType = some ("." ++ name) ∧
          S.find ("." ++ name) ≠ none) := by
  cases message with
  | none =>
      rw [findMessage] at h
      cases ht : S.types with
      | nil =>
          rw [ht] at h
          cases h
          exact ⟨rfl, Or.inl ⟨rfl, nofun⟩⟩
      | cons type types =>
          rw [ht] at h
          cases h
  | some name =>
      rw [findMessage_some] at h
      cases h
      refine ⟨rfl, ?_⟩
      cases hf : S.find ("." ++ name) with
      | none => exact Or.inl ⟨rfl, fun _ hname => Option.mem_some.mp hname ▸ hf⟩
      | some d => exact Or.inr ⟨name, rfl, rfl, by rw [hf]; exact nofun⟩

theorem assert_ok {α : Type} {r : Except String α} {a : α} (h : (assert r).run c = .ok a c') :
    r = .ok a ∧ c' = c := by
  cases r with
  | ok a' =>
      cases h
      exact ⟨rfl, rfl⟩
  | error msg => cases h

/-- What has been encoded has been decoded again. -/
theorem encode_ok {name : String} {t : Proto.Table} {bytes : LuaString}
    (hfind : S.find ("." ++ name) ≠ none)
    (h : (encode P S (some name) t).run c = .ok bytes c') :
    P.encode S (some name) t = .ok bytes ∧ ∃ t', P.decode S (some name) bytes = .ok t' := by
  rw [encode, findMessage_some, pure_bind, if_pos (Option.isSome_iff_ne_none.mpr hfind),
    if_neg (Option.some_ne_none _)] at h
  obtain ⟨bytes', c₁, hencode, h₁⟩ := run_bind_ok.mp h
  obtain ⟨he, rfl⟩ := assert_ok hencode
  obtain ⟨_, c₂, -, h₂⟩ := run_bind_ok.mp h₁
  obtain ⟨t', c₃, hdecode, h₃⟩ := run_bind_ok.mp h₂
  obtain ⟨hd, rfl⟩ := assert_ok hdecode
  obtain ⟨_, c₄, -, h₄⟩ := run_bind_ok.mp h₃
  cases h₄
  exact ⟨he, t', hd⟩

theorem transpbByInput_ok {bytes : LuaString} {S' : Schema}
    (h : (transpbByInput P E fuel S).run c = .ok (bytes, S') c') :
    Entered P E fuel S c.input bytes ∧ S' = (P.loadfile S c.input.head?).2 := by
  rw [transpbByInput] at h
  obtain ⟨_, c₁, hp, h₁⟩ := run_bind_ok.mp h
  cases hp
  -- the first line is the file
  obtain ⟨filename, c₂, hr, h₂⟩ := run_bind_ok.mp h₁
  cases hr
  dsimp only at h₂
  split at h₂
  · next hload =>
      obtain ⟨_, c₃, -, h₃⟩ := run_bind_ok.mp h₂
      cases h₃
      exact ⟨.noFile hload, rfl⟩
  next hload =>
  rw [Bool.not_eq_false] at hload
  obtain ⟨_, c₃, hp, h₃⟩ := run_bind_ok.mp h₂
  cases hp
  -- the second line is the message
  obtain ⟨messageName, c₄, hr, h₄⟩ := run_bind_ok.mp h₃
  cases hr
  obtain ⟨dataType, c₅, hm, h₅⟩ := run_bind_ok.mp h₄
  obtain ⟨rfl, ⟨rfl, hno⟩ | ⟨name, hname, rfl, hfind⟩⟩ := findMessage_ok hm
  · obtain ⟨_, c₆, -, h₆⟩ := run_bind_ok.mp h₅
    cases h₆
    refine ⟨.noMessage hload fun name hname => hno name ?_, rfl⟩
    change name ∈ c.input.tail.head?
    rw [List.head?_tail]
    exact hname
  · obtain ⟨t, c₆, ht, h₆⟩ := run_bind_ok.mp h₅
    obtain ⟨bytes', c₇, he, h₇⟩ := run_bind_ok.mp h₆
    cases h₇
    dsimp only at hname
    rw [hname] at he
    obtain ⟨he, t', hd⟩ := encode_ok hfind he
    have hdrop : c.input.tail.tail = c.input.drop 2 := by
      rw [← List.drop_one, ← List.drop_one, List.drop_drop]
    exact ⟨.table hload (List.head?_tail.symm.trans hname) hfind hdrop ht he hd, rfl⟩

/-- **What `loop.lua` has ready to send.** -/
theorem prepare_ok {r : Prepared} (h : (prepare P E fuel S).run c = .ok r c') :
    Entered P E fuel S c.input r.bytes ∧ r.data.bytes = frameBytes r.bytes ∧
      r.bytes.bytes.length < 2 ^ 24 := by
  rw [prepare] at h
  obtain ⟨_, c₁, hp, h₁⟩ := run_bind_ok.mp h
  cases hp
  obtain ⟨⟨bytes, S'⟩, c₂, ht, h₂⟩ := run_bind_ok.mp h₁
  obtain ⟨hentered, rfl⟩ := transpbByInput_ok ht
  obtain ⟨data, c₃, hf, h₃⟩ := run_bind_ok.mp h₂
  obtain ⟨_, c₄, -, h₄⟩ := run_bind_ok.mp h₃
  cases h₄
  have hlen : bytes.bytes.length < 2 ^ 24 := by
    by_contra hlong
    rw [Head.frame_error (Nat.le_of_not_lt hlong)] at hf
    cases hf
  obtain ⟨w, hw, hbytes⟩ := Head.frame_ok hlen
  rw [hw] at hf
  cases hf
  exact ⟨hentered, hbytes, hlen⟩

end

end PBTransfor.Driver
