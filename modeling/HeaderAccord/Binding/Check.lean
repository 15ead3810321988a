import HeaderAccord.Binding.Mention
import HeaderAccord.Binding.Parameter
import HeaderAccord.Event
import HeaderAccord.Header.Index

/-!
The check of one binding source. A header function is bound by the first identifier with its key
that opens a parameter list. Each of its pointer parameters must be there and be represented by a
reference or pointer.

The check runs in any monad, which stands for what watches it: `notify` hands over an event.
-/

namespace HeaderAccord.Binding

open Header

/-- The header functions that a source binds, with what is wrong with them. -/
structure SourceScan where
  bound : List String := []
  failures : List CheckFailure := []
  deriving DecidableEq, Repr

/-- The parameter list of the first mention of `key` that opens one. -/
def boundParameters? (key : String) (mentions : List Mention) : Option (List Char) :=
  mentions.findSome? fun m => if m.key = key then parameterText? m.rest else none

def argumentFailure (function : String) (p : Parameter) : CheckFailure :=
  { checker := .arguments, message := "✖ " ++ function ++ ": " ++ p.name ++ ": " ++ p.type }

def missingFailure (function : String) (missing : List String) : CheckFailure :=
  { checker := .arguments, message := function ++ " has missing args: " ++ nameList missing }

/-- The pointer parameters of a function that a list of parameters does not name. -/
def missingArgs (f : FunctionSignature) (parameters : List Parameter) : List String :=
  f.pointerArgNames.filter fun name => !(parameters.map (·.name)).contains name

section

variable {m : Type → Type} [Monad m] (notify : Event → m Unit)

def checkParameter (f : FunctionSignature) (p : Parameter) : m (List CheckFailure) := do
  if (f.pointerArg? p.name).isSome then
    let accepted := isReference p.type
    notify (.argumentChecked p.name p.type accepted)
    return if accepted then [] else [argumentFailure f.name p]
  else return []

def checkMissing (f : FunctionSignature) (parameters : List Parameter) :
    m (List CheckFailure) := do
  match missingArgs f parameters with
  | [] => return []
  | missing =>
    let failure := missingFailure f.name missing
    notify (.failureRecorded failure.message)
    return [failure]

def checkParameters (f : FunctionSignature) (parameters : List Parameter) :
    m (List CheckFailure) := do
  let marked ← parameters.mapM (checkParameter notify f)
  let missing ← checkMissing notify f parameters
  return marked.flatten ++ missing

/-- Checks one header function: `none` when the source does not bind it. -/
def checkFunction (mentions : List Mention) (f : FunctionSignature) :
    m (Option (String × List CheckFailure)) := do
  match boundParameters? (Name.key f.name) mentions with
  | none => return none
  | some text =>
    notify (.functionFound f.name)
    return some (f.name, ← checkParameters notify f (parametersOf text))

/-- Checks a source against the header functions that have pointer parameters, in header order. -/
def checkSource (index : HeaderIndex) (source : String) : m SourceScan := do
  let mentions := mentions source.toList
  let checked := index.functions.filter (·.hasPointerArgs)
  let found := (← checked.mapM (checkFunction notify mentions)).filterMap id
  return { bound := found.map (·.1), failures := found.flatMap (·.2) }

end

end HeaderAccord.Binding
