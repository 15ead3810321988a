import HeaderAccord.Comment
import HeaderAccord.Header.Function
import HeaderAccord.Header.Structure

/-!
What the checks know of the headers: the exported functions, in the order of their first
declaration, and the simple structures by name. A later declaration replaces an earlier one of the
same name.
-/

namespace HeaderAccord

open Header

structure HeaderIndex where
  functions : List FunctionSignature := []
  structures : NameMap StructureLayout := .empty
  deriving DecidableEq

namespace HeaderIndex

def empty : HeaderIndex := {}

/-- Puts a function in the place of the first one of its name, or at the end. -/
def declare (f : FunctionSignature) : List FunctionSignature → List FunctionSignature
  | [] => [f]
  | g :: gs => if g.name = f.name then f :: gs else g :: declare f gs

def addFunctions (fs : List FunctionSignature) (index : HeaderIndex) : HeaderIndex :=
  { index with functions := fs.foldl (fun known f => declare f known) index.functions }

def addStructures (ss : List StructureLayout) (index : HeaderIndex) : HeaderIndex :=
  { index with structures := index.structures.insertAll (ss.map fun s => (s.name, s)) }

/-- Adds what a header text declares. -/
def addHeader (index : HeaderIndex) (text marker : String) : HeaderIndex :=
  let code := withoutComments text.toList
  (index.addFunctions (functionsIn marker.toList code)).addStructures (structuresIn code)

def ofText (text marker : String) : HeaderIndex := empty.addHeader text marker

/-- The index of several headers, added in order. -/
def ofTexts (texts : List String) (marker : String) : HeaderIndex :=
  texts.foldl (fun index text => index.addHeader text marker) empty

def function? (index : HeaderIndex) (name : String) : Option FunctionSignature :=
  index.functions.find? (·.name == name)

def structure? (index : HeaderIndex) (name : String) : Option StructureLayout :=
  index.structures.find? name

end HeaderIndex

end HeaderAccord
