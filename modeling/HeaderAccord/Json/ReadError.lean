import HeaderAccord.Json.Fault
import HeaderAccord.Json.Shortest
import HeaderAccord.Json.Value
import HeaderAccord.Text.Quoted

/-!
Why a JSON text or value cannot be read as what is wanted: a fault of the text, or a well-formed
value of the wrong kind.
-/

namespace HeaderAccord.Json

/-- A value as messages name it. -/
inductive Found
  | null
  | bool (b : Bool)
  | integer (n : Int)
  | double (d : Double)
  | text (s : String)
  | sequence
  | map
  deriving DecidableEq, Repr

def Found.message : Found → String
  | null => "null"
  | bool b => "boolean `" ++ toString b ++ "`"
  | integer n => "integer `" ++ toString n ++ "`"
  | double d => "floating point `" ++ d.text ++ "`"
  | text s => "string " ++ Text.quoted s
  | sequence => "sequence"
  | map => "map"

def found : Json → Found
  | .null => .null
  | .bool b => .bool b
  | .integer n => .integer n
  | .double d => .double d
  | .string s => .text s
  | .array _ => .sequence
  | .object _ => .map

inductive ReadError
  | fault (f : Fault)
  | wrongType (found : Found) (expected : String)
  | integerOutOfRange (n : Int) (expected : String)
  | wrongLength (n : Nat) (expected : String)
  | missingField (name : String)
  | duplicateField (name : String)
  | unknownField (name : String) (known : List String)
  | unknownVariant (name : String) (known : List String)
  /-- an object that stands for a variant has exactly one member -/
  | notOneKey
  deriving DecidableEq, Repr

namespace ReadError

def ticked (name : String) : String := "`" ++ name ++ "`"

/-- The names that would have been accepted; two are joined by `or`, more are listed. -/
def oneOf : List String → String
  | [a] => ticked a
  | [a, b] => ticked a ++ " or " ++ ticked b
  | names => "one of " ++ ", ".intercalate (names.map ticked)

def message : ReadError → String
  | fault f => f.message
  | wrongType found expected => "invalid type: " ++ found.message ++ ", expected " ++ expected
  | integerOutOfRange n expected =>
    "invalid value: integer " ++ ticked (toString n) ++ ", expected " ++ expected
  | wrongLength n expected => "invalid length " ++ toString n ++ ", expected " ++ expected
  | missingField name => "missing field " ++ ticked name
  | duplicateField name => "duplicate field " ++ ticked name
  | unknownField name known => "unknown field " ++ ticked name ++ ", expected " ++ oneOf known
  | unknownVariant name known => "unknown variant " ++ ticked name ++ ", expected " ++ oneOf known
  | notOneKey => "invalid value: map, expected map with a single key"

end ReadError

/-- A field of a record: its name, and what its value has to pass. -/
structure Field (α : Type) where
  name : String
  check : α → Except ReadError Unit

/-- The field whose value a reader accepts. -/
def field {α β : Type} (name : String) (read : α → Except ReadError β) : Field α where
  name := name
  check v := (read v).map fun _ => ()

/-- The values of the fields of a record that are present. -/
abbrev FieldValues (α : Type) := List (String × α)

namespace FieldValues

variable {α β : Type}

def required (values : FieldValues α) (name : String) (read : α → Except ReadError β) :
    Except ReadError β :=
  match values.lookup name with
  | some v => read v
  | none => .error (.missingField name)

def optional (values : FieldValues α) (name : String) (default : β)
    (read : α → Except ReadError β) : Except ReadError β :=
  match values.lookup name with
  | some v => read v
  | none => .ok default

end FieldValues

/-- The text of a number of elements. -/
def elementCount (n : Nat) : String := if n = 1 then "1 element" else toString n ++ " elements"

end HeaderAccord.Json
