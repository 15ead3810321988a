import HeaderAccord.Header.Index
import HeaderAccord.Json.Printer
import HeaderAccord.Json.TreeReader

/-!
The header index as a JSON document. What is written reads back as the same index.
-/

namespace HeaderAccord

open Json Header

namespace Header

def PointerArg.toJson (a : PointerArg) : Json :=
  .object [("name", .string a.name), ("c_param", .string a.cParam)]

def FunctionSignature.toJson (f : FunctionSignature) : Json :=
  .object [("name", .string f.name), ("pointer_args", .array (f.pointerArgs.map (·.toJson)))]

def StructField.toJson (f : StructField) : Json :=
  .object
    [("name", .string f.name), ("declared_name", .string f.declaredName),
     ("type_text", .string f.typeText)]

def StructureLayout.toJson (s : StructureLayout) : Json :=
  .object [("name", .string s.name), ("fields", .array (s.fields.map (·.toJson)))]

def PointerArg.read : TreeReader PointerArg := fun t => do
  let values ← TreeReader.RecordForm.read
    { name := "PointerArg"
      fields := [field "name" TreeReader.text, field "c_param" TreeReader.text] } t
  return { name := ← values.required "name" TreeReader.text
           cParam := ← values.required "c_param" TreeReader.text }

def FunctionSignature.read : TreeReader FunctionSignature := fun t => do
  let args := TreeReader.list PointerArg.read
  let values ← TreeReader.RecordForm.read
    { name := "FunctionSignature"
      fields := [field "name" TreeReader.text, field "pointer_args" args] } t
  return { name := ← values.required "name" TreeReader.text
           pointerArgs := ← values.required "pointer_args" args }

def StructField.read : TreeReader StructField := fun t => do
  let values ← TreeReader.RecordForm.read
    { name := "StructField"
      fields :=
        [field "name" TreeReader.text, field "declared_name" TreeReader.text,
         field "type_text" TreeReader.text] } t
  return { name := ← values.required "name" TreeReader.text
           declaredName := ← values.required "declared_name" TreeReader.text
           typeText := ← values.required "type_text" TreeReader.text }

def StructureLayout.read : TreeReader StructureLayout := fun t => do
  let fields := TreeReader.list StructField.read
  let values ← TreeReader.RecordForm.read
    { name := "StructureLayout"
      fields := [field "name" TreeReader.text, field "fields" fields] } t
  return { name := ← values.required "name" TreeReader.text
           fields := ← values.required "fields" fields }

end Header

namespace HeaderIndex

def toJson (index : HeaderIndex) : Json :=
  .object
    [("functions", .array (index.functions.map (·.toJson))),
     ("structures", Json.ofNameMap (·.toJson) index.structures)]

def read : TreeReader HeaderIndex := fun t => do
  let functions := TreeReader.list FunctionSignature.read
  let structures := TreeReader.nameMap StructureLayout.read
  let values ← TreeReader.RecordForm.read
    { name := "HeaderIndex"
      fields := [field "functions" functions, field "structures" structures] } t
  return { functions := ← values.required "functions" functions
           structures := ← values.required "structures" structures }

/-- The index written in a JSON text. -/
def ofJsonText (text : String) : Except ReadError HeaderIndex := read.run text

end HeaderIndex

end HeaderAccord
