import HeaderAccord.Bracket
import HeaderAccord.Name
import HeaderAccord.Text.Words

/-!
The parameters of a binding: what stands in the parentheses after its name, which a generic list
may precede.
-/

namespace HeaderAccord.Binding

/-- What follows a generic list, or the text itself if it does not start with one. -/
def afterGenerics? (cs : List Char) : Option (List Char) :=
  match Text.trimStart cs with
  | '<' :: opened => (Bracket.enclosed? '<' '>' opened).map fun (_, rest) => Text.trimStart rest
  | trimmed => some trimmed

/-- The text in the parentheses that open after a name, if they do and if they close again. -/
def parameterText? (rest : List Char) : Option (List Char) :=
  match afterGenerics? rest with
  | some ('(' :: opened) => (Bracket.enclosed? '(' ')' opened).map (·.1)
  | _ => none

/-- A parameter: the key of its name, and its type. -/
structure Parameter where
  name : String
  type : String
  deriving DecidableEq, Repr

def mutKeyword : List Char := "mut ".toList

/-- The name of a parameter without `mut` before it. -/
def bareName (pattern : List Char) : List Char :=
  let trimmed := Text.trim pattern
  (Text.afterPrefix? mutKeyword trimmed).getD trimmed

/-- A parameter without a colon has an empty type. -/
def parameterOf (text : List Char) : Parameter :=
  let (pattern, type) := (Text.cutFirst? ':' text).getD (text, [])
  { name := String.ofList (Name.keyChars (bareName pattern))
    type := String.ofList (Text.trim type) }

def parametersOf (text : List Char) : List Parameter :=
  (Bracket.splitTopLevel (Text.collapse text)).map parameterOf

/-- How a type starts that stands for a reference or pointer. -/
def referenceStarts : List String :=
  ["&", "*", "Option<&", "Option<*", "Option<NonNull<", "NonNull<"]

def isReference (type : String) : Bool :=
  referenceStarts.any fun start => start.toList.isPrefixOf type.toList

end HeaderAccord.Binding
