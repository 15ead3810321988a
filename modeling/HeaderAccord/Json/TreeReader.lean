import HeaderAccord.Json.ReadError
import HeaderAccord.Json.Tree

/-!
Readers of JSON texts. A reader walks the tree of a text in the order of the text and stops at the
first thing that is wrong.
-/

namespace HeaderAccord.Json

abbrev TreeReader (α : Type) := Tree → Except ReadError α

namespace TreeReader

variable {α : Type}

def ofFault (r : Except Fault α) : Except ReadError α := r.mapError .fault

/-- The error at a value that is not wanted. A scalar is read to its end first. -/
def unwanted (expected : String) : Tree → ReadError
  | .null => .wrongType .null expected
  | .bool b => .wrongType (.bool b) expected
  | .number n =>
    match n.value with
    | .ok v => .wrongType v.found expected
    | .error f => .fault f
  | .string s =>
    match s.text with
    | .ok t => .wrongType (.text t) expected
    | .error f => .fault f
  | .array _ _ => .wrongType .sequence expected
  | .object _ _ => .wrongType .map expected
  | .broken f => .fault f

def textAs (expected : String) : TreeReader String
  | .string s => ofFault s.text
  | t => .error (unwanted expected t)

def text : TreeReader String := textAs "a string"

def bool : TreeReader Bool
  | .bool b => .ok b
  | t => .error (unwanted "a boolean" t)

def unit : TreeReader Unit
  | .null => .ok ()
  | t => .error (unwanted "unit" t)

/-- Ends a container that is read to its end. -/
def ending (fault : Option Fault) (result : α) : Except ReadError α :=
  match fault with
  | some f => .error (.fault f)
  | none => .ok result

def list (item : TreeReader α) : TreeReader (List α)
  | .array items fault => do ending fault (← items.mapM item)
  | t => .error (unwanted "a sequence" t)

/-- Of members with one name the last counts. -/
def nameMap (value : TreeReader α) : TreeReader (NameMap α)
  | .object members fault => do
    let entries ← members.mapM fun (name, t) => do
      let name ← ofFault name.text
      return (name, ← value t)
    ending fault (NameMap.ofList entries)
  | t => .error (unwanted "a map" t)

/-- The error after the member of an object that stands for a variant. -/
def afterVariant (rest : List (RawString × Tree)) (fault : Option Fault) (v : α) :
    Except ReadError α :=
  match rest, fault with
  | [], none => .ok v
  | [], some .objectCutOff => .error (.fault .objectCutOff)
  | _, _ => .error (.fault .noValue)

/-- A value of an enumeration: its name, or an object with that name and nothing else in it. -/
def variant (known : List (String × α)) : TreeReader α :=
  let named (name : String) : Except ReadError α :=
    match known.lookup name with
    | some v => .ok v
    | none => .error (.unknownVariant name (known.map (·.1)))
  fun
  | .string s => do named (← ofFault s.text)
  | .object ((name, t) :: rest) fault => do
    let v ← named (← ofFault name.text)
    unit t
    afterVariant rest fault v
  | .object [] (some f) => .error (.fault f)
  | .broken .valueCutOff => .error (.fault .valueCutOff)
  | .broken .objectCutOff => .error (.fault .objectCutOff)
  | .broken .noColon => .error (.fault .noColon)
  | _ => .error (.fault .noValue)

/-- How a record is written. -/
structure RecordForm where
  name : String
  fields : List (Field Tree)
  /-- a name that is no field is passed over -/
  ignoresUnknown : Bool := true
  /-- every field may be absent, also from an array of fields -/
  hasDefaults : Bool := false

namespace RecordForm

/-- What a record of this form is called in messages. -/
def title (form : RecordForm) : String := "struct " ++ form.name

/-- The fields of an object; a name is looked at before its value. -/
def ofMembers (form : RecordForm) :
    (seen : FieldValues Tree) → List (RawString × Tree) → Except ReadError (FieldValues Tree)
  | seen, [] => .ok seen
  | seen, (name, t) :: rest => do
    let name ← ofFault name.text
    match form.fields.find? (·.name == name) with
    | some f =>
      if (seen.lookup name).isSome then throw (.duplicateField name)
      f.check t
      ofMembers form (seen ++ [(name, t)]) rest
    | none =>
      if form.ignoresUnknown then
        ofFault t.skip
        ofMembers form seen rest
      else throw (.unknownField name (form.fields.map (·.name)))

/-- Ends an array that holds all fields of a record. -/
def afterItems (extra : List Tree) (fault : Option Fault) (values : FieldValues Tree) :
    Except ReadError (FieldValues Tree) :=
  match extra, fault with
  | [], none => .ok values
  | [], some .listTrailingComma => .error (.fault .listTrailingComma)
  | [], some .listCutOff => .error (.fault .listCutOff)
  | _, _ => .error (.fault .trailingCharacters)

/-- The fields of an array of fields, of which `todo` are still to come. -/
def ofItems (form : RecordForm) (fault : Option Fault) :
    (seen : FieldValues Tree) → (todo : List (Field Tree)) → List Tree →
    Except ReadError (FieldValues Tree)
  | seen, [], items => afterItems items fault seen
  | seen, f :: todo, t :: items => do
    f.check t
    ofItems form fault (seen ++ [(f.name, t)]) todo items
  | seen, _ :: _, [] =>
    match fault with
    | some f => .error (.fault f)
    | none =>
      if form.hasDefaults then .ok seen
      else .error
        (.wrongLength seen.length (form.title ++ " with " ++ elementCount form.fields.length))

/-- The fields that a record holds, each checked in the order of the text. -/
def read (form : RecordForm) : TreeReader (FieldValues Tree)
  | .object members fault => do ending fault (← form.ofMembers [] members)
  | .array items fault => form.ofItems fault [] form.fields items
  | t => .error (unwanted form.title t)

end RecordForm

/-- Reads a text from end to end. -/
def run (read : TreeReader α) (s : String) : Except ReadError α := do
  let (tree, trailing) := Tree.ofText s
  let v ← read tree
  if trailing then throw (.fault .trailingCharacters)
  return v

/-- A value of any kind, with its objects ordered. -/
def anything : TreeReader OrderedJson := fun t =>
  (ofFault (t.free Tree.maxDepth)).map Json.toOrdered

end TreeReader

/-- The value of a JSON text. -/
def ofText (s : String) : Except ReadError OrderedJson := TreeReader.anything.run s

end HeaderAccord.Json
