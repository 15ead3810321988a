import HeaderAccord.Journal.Entry
import HeaderAccord.Json.TreeReader
import HeaderAccord.Json.ValueReader
import HeaderAccord.Text.Words

/-!
The schema of a journal. All violations of the rules on single fields are reported together; only
a line without any is read as an entry.
-/

namespace HeaderAccord

open Json

/-- A violation of the schema. -/
structure SchemaError where
  lineNumber : Nat
  field : String
  message : String
  deriving DecidableEq, Repr

def SchemaError.text (e : SchemaError) : String :=
  "line " ++ toString e.lineNumber ++ ": field '" ++ e.field ++ "': " ++ e.message

namespace LogEntry

def readLevel : ValueReader LogLevel :=
  ValueReader.variant (LogLevel.all.map fun l => (l.name, l))

def readChecker : ValueReader Checker :=
  ValueReader.variant (Checker.all.map fun c => (c.name, c))

def readOutcome : ValueReader CheckOutcome :=
  ValueReader.variant (CheckOutcome.all.map fun o => (o.name, o))

def readArtifact : ValueReader Artifact := fun v => do
  let values ← ValueReader.RecordForm.read
    { name := "ArtifactEntry"
      fields :=
        [field "path" ValueReader.text, field "kind" ValueReader.text,
         field "sha256" ValueReader.text, field "size_bytes" ValueReader.uint64] } v
  return { path := ← values.required "path" ValueReader.text
           kind := ← values.required "kind" ValueReader.text
           sha256 := ← values.required "sha256" ValueReader.text
           sizeBytes := ← values.required "size_bytes" ValueReader.uint64 }

def readArtifacts : ValueReader (List Artifact) := ValueReader.list readArtifact

def readDetails : ValueReader OrderedJson := fun v => .ok v.toOrdered

/-- Reads an entry; unknown fields are passed over, and a null stands for an absent one. -/
def read : ValueReader LogEntry := fun v => do
  let values ← ValueReader.RecordForm.read
    { name := "LogEntry"
      fields :=
        [field "timestamp" ValueReader.text, field "trace_id" ValueReader.text,
         field "level" readLevel, field "event" ValueReader.text,
         field "checker" (ValueReader.option readChecker),
         field "file" (ValueReader.option ValueReader.text),
         field "symbol" (ValueReader.option ValueReader.text),
         field "outcome" (ValueReader.option readOutcome),
         field "exit_code" (ValueReader.option ValueReader.int32),
         field "artifacts" (ValueReader.option readArtifacts),
         field "details" (ValueReader.option readDetails)] } v
  return { timestamp := ← values.required "timestamp" ValueReader.text
           traceId := ← values.required "trace_id" ValueReader.text
           level := ← values.required "level" readLevel
           event := ← values.required "event" ValueReader.text
           checker := ← values.optional "checker" none (ValueReader.option readChecker)
           file := ← values.optional "file" none (ValueReader.option ValueReader.text)
           symbol := ← values.optional "symbol" none (ValueReader.option ValueReader.text)
           outcome := ← values.optional "outcome" none (ValueReader.option readOutcome)
           exitCode := ← values.optional "exit_code" none (ValueReader.option ValueReader.int32)
           artifacts := ← values.optional "artifacts" none (ValueReader.option readArtifacts)
           details := ← values.optional "details" none (ValueReader.option readDetails) }

end LogEntry

namespace Schema

def requiredFields : List String := ["timestamp", "trace_id", "level", "event"]

def missingFields (members : List (String × Json)) : List (String × String) :=
  (requiredFields.filter fun name => (members.lookup name).isNone).map fun name =>
    (name, "required field missing")

/-- A field that is text has to be one of the names. -/
def wrongName (name : String) (allowed : List String) (members : List (String × Json)) :
    List (String × String) :=
  match members.lookup name with
  | some (.string s) =>
    if allowed.contains s then [] else [(name, "invalid " ++ name ++ ": '" ++ s ++ "'")]
  | _ => []

def hasSeparator (traceId : String) : Bool :=
  (Text.cutAt? [':', ':'] traceId.toList).isSome

/-- A trace id is the id of a run and a number, with two colons between them. -/
def wrongTraceId (members : List (String × Json)) : List (String × String) :=
  match members.lookup "trace_id" with
  | some (.string s) =>
    if hasSeparator s then []
    else
      [("trace_id", "trace_id should follow <run_id>::<seq> format, got: '" ++ s ++ "'")]
  | _ => []

/-- The violations of the rules on single fields, each with its field. -/
def violations (members : List (String × Json)) : List (String × String) :=
  missingFields members ++
    wrongName "level" (LogLevel.all.map (·.name)) members ++
    wrongName "outcome" (CheckOutcome.all.map (·.name)) members ++
    wrongName "checker" (Checker.all.map (·.name)) members ++
    wrongTraceId members

/-- The entry on a line, or what is wrong with it. -/
def readLine (line : String) : Except (List (String × String)) LogEntry :=
  match Json.ofText line with
  | .error e => .error [("<json>", "invalid JSON: " ++ e.message)]
  | .ok ⟨.object members, _⟩ =>
    match violations members with
    | [] =>
      match LogEntry.read (.object members) with
      | .ok entry => .ok entry
      | .error e => .error [("<deserialization>", "failed to deserialize: " ++ e.message)]
    | found => .error found
  | .ok _ => .error [("<root>", "expected JSON object")]

def validateLine (line : String) (lineNumber : Nat) : Except (List SchemaError) LogEntry :=
  (readLine line).mapError fun found =>
    found.map fun (field, message) => { lineNumber, field, message }

/-- How many lines a text has and what is wrong with them; blank lines do not count. -/
structure Validation where
  lineCount : Nat := 0
  errors : List SchemaError := []
  deriving DecidableEq, Repr

def Validation.add (v w : Validation) : Validation :=
  { lineCount := v.lineCount + w.lineCount, errors := v.errors ++ w.errors }

def validateOne (line : List Char) (lineNumber : Nat) : Validation :=
  match Text.trim line with
  | [] => {}
  | trimmed =>
    match validateLine (String.ofList trimmed) lineNumber with
    | .ok _ => { lineCount := 1 }
    | .error errors => { lineCount := 1, errors }

/-- Validates lines, the first of which has the number given. -/
def validateFrom : (lineNumber : Nat) → List (List Char) → Validation
  | _, [] => {}
  | n, line :: rest => (validateOne line n).add (validateFrom (n + 1) rest)

/-- Validates every line of a text. Lines are numbered from one, blank ones included. -/
def validate (text : String) : Validation := validateFrom 1 (Text.lines text.toList)

end Schema

end HeaderAccord
