import HeaderAccord.Name

/-!
The identifiers of a binding source. An identifier is a maximal run of ASCII letters, digits and
underscores that does not start with a digit; digits in front of one are passed over.
-/

namespace HeaderAccord.Binding

def isIdentifierPart (c : Char) : Bool := c = '_' || c.isAlphanum

def isIdentifierStart (c : Char) : Bool := isIdentifierPart c && !c.isDigit

/-- The key of an identifier, and what follows it. -/
structure Mention where
  key : String
  rest : List Char
  deriving DecidableEq, Repr

def mentionOf (name rest : List Char) : Mention :=
  { key := String.ofList (Name.keyChars name), rest := rest }

/-- The identifiers of a text, of which `name` has already been read. -/
def mentionsAfter : (name : List Char) → List Char → List Mention
  | [], [] => []
  | n :: name, [] => [mentionOf (n :: name) []]
  | [], c :: cs => if isIdentifierStart c then mentionsAfter [c] cs else mentionsAfter [] cs
  | n :: name, c :: cs =>
    if isIdentifierPart c then mentionsAfter (n :: name ++ [c]) cs
    else mentionOf (n :: name) (c :: cs) :: mentionsAfter [] cs

def mentions (text : List Char) : List Mention := mentionsAfter [] text

end HeaderAccord.Binding
