import HeaderAccord.Json.ReadError

/-!
Readers of JSON values that have been read from a text before. Members come in the order of their
names, and unknown ones are passed over.
-/

namespace HeaderAccord.Json

abbrev ValueReader (α : Type) := Json → Except ReadError α

namespace ValueReader

variable {α : Type}

def unwanted (expected : String) (v : Json) : ReadError := .wrongType v.found expected

def text : ValueReader String
  | .string s => .ok s
  | v => .error (unwanted "a string" v)

def unit : ValueReader Unit
  | .null => .ok ()
  | v => .error (unwanted "unit" v)

/-- An integer from `low` to `high`. -/
def integer (low high : Int) (expected : String) : ValueReader Int
  | .integer n =>
    if low ≤ n && n ≤ high then .ok n else .error (.integerOutOfRange n expected)
  | v => .error (unwanted expected v)

def int32 : ValueReader Int32 := fun v =>
  (integer Int32.minValue.toInt Int32.maxValue.toInt "i32" v).map Int32.ofInt

def uint64 : ValueReader UInt64 := fun v =>
  (integer 0 (UInt64.size - 1) "u64" v).map fun n => UInt64.ofNat n.toNat

def list (item : ValueReader α) : ValueReader (List α)
  | .array items => items.mapM item
  | v => .error (unwanted "a sequence" v)

/-- A null stands for an absent value. -/
def option (read : ValueReader α) : ValueReader (Option α)
  | .null => .ok none
  | v => (read v).map some

/-- A value of an enumeration: its name, or an object with that name and nothing else in it. -/
def variant (known : List (String × α)) : ValueReader α :=
  let named (name : String) : Except ReadError α :=
    match known.lookup name with
    | some v => .ok v
    | none => .error (.unknownVariant name (known.map (·.1)))
  fun
  | .string s => named s
  | .object [(name, content)] => do
    let v ← named name
    unit content
    return v
  | .object _ => .error .notOneKey
  | v => .error (unwanted "string or map" v)

/-- How a record is written. -/
structure RecordForm where
  name : String
  fields : List (Field Json)

namespace RecordForm

def title (form : RecordForm) : String := "struct " ++ form.name

def ofMembers (form : RecordForm) :
    List (String × Json) → Except ReadError (FieldValues Json)
  | [] => .ok []
  | (name, v) :: rest =>
    match form.fields.find? (·.name == name) with
    | some f => do
      f.check v
      return (name, v) :: (← ofMembers form rest)
    | none => ofMembers form rest

/-- The fields of an array of fields, of which `todo` are still to come. -/
def ofItems (form : RecordForm) (length : Nat) :
    (seen : FieldValues Json) → (todo : List (Field Json)) → List Json →
    Except ReadError (FieldValues Json)
  | seen, [], [] => .ok seen
  | _, [], _ :: _ => .error (.wrongLength length "fewer elements in array")
  | seen, f :: todo, v :: items => do
    f.check v
    ofItems form length (seen ++ [(f.name, v)]) todo items
  | seen, _ :: _, [] =>
    .error (.wrongLength seen.length (form.title ++ " with " ++ elementCount form.fields.length))

/-- The fields that a record holds, each checked. -/
def read (form : RecordForm) : ValueReader (FieldValues Json)
  | .object members => form.ofMembers members
  | .array items => form.ofItems items.length [] form.fields items
  | v => .error (unwanted form.title v)

end RecordForm

end ValueReader

end HeaderAccord.Json
