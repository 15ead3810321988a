import HeaderAccord.Event
import HeaderAccord.Header.Index
import HeaderAccord.Override.Block

/-!
The check of a build script: each of its blocks must be a structure of the header with the same
fields. Order and types of the fields do not count.
-/

namespace HeaderAccord.Override

open Header

/-- The fields of one side only, by key, each spelled as its own side declares it. -/
def mismatch (reference declared : NameMap String) : NameMap String :=
  (reference.filterNames (!declared.contains ·)).insertAll
    (declared.filterNames (!reference.contains ·)).entries

def unknownFailure (label name : String) : CheckFailure :=
  { checker := .structures, message := "✖ Unknown " ++ label ++ " struct " ++ name }

def mismatchFailure (label name : String) (fields : List String) : CheckFailure :=
  { checker := .structures
    message := "✖ Key mismatch in " ++ label ++ " struct " ++ name ++ ": " ++ nameList fields }

/-- What is wrong with a block, if anything. -/
def verdict (index : HeaderIndex) (label : String) (b : Block) : Option CheckFailure :=
  match index.structure? b.name with
  | none => some (unknownFailure label b.name)
  | some layout =>
    match (mismatch layout.fieldKeys b.fields).values with
    | [] => none
    | fields => some (mismatchFailure label b.name fields)

section

variable {m : Type → Type} [Monad m] (notify : Event → m Unit)

def checkBlock (index : HeaderIndex) (label : String) (b : Block) : m (List CheckFailure) := do
  match verdict index label b with
  | none =>
    notify (.structurePassed label b.name)
    return []
  | some failure =>
    notify (.failureRecorded failure.message)
    return [failure]

/-- Checks the blocks of a script, which messages call `label`. -/
def checkScript (index : HeaderIndex) (script label : String) : m (List CheckFailure) := do
  return (← (blocks script).mapM (checkBlock notify index label)).flatten

end

end HeaderAccord.Override
