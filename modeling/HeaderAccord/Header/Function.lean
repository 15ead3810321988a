import HeaderAccord.Name
import HeaderAccord.Text.Cut
import HeaderAccord.Text.Words

/-!
Exported functions of a header. A declaration starts on a line that begins with the export marker
and goes on over the lines that follow as long as its parentheses are open. Of its parameters,
those that mention a `*` are recorded.
-/

namespace HeaderAccord.Header

/-- A parameter declared with a pointer: the key of its name, and its C text. -/
structure PointerArg where
  name : String
  cParam : String
  deriving DecidableEq, Repr

/-- An exported function and its pointer parameters, in the order of declaration. -/
structure FunctionSignature where
  name : String
  pointerArgs : List PointerArg
  deriving DecidableEq, Repr

namespace FunctionSignature

def hasPointerArgs (f : FunctionSignature) : Bool := !f.pointerArgs.isEmpty

def pointerArg? (f : FunctionSignature) (key : String) : Option PointerArg :=
  f.pointerArgs.find? (·.name == key)

/-- The keys of the pointer parameters, each once and in order. -/
def pointerArgNames (f : FunctionSignature) : List String :=
  distinctNames (f.pointerArgs.map (·.name))

end FunctionSignature

/-- The name at the end of a declarator, without the stars written against it. -/
def declaredName? (declarator : List Char) : Option (List Char) :=
  match (Text.words declarator).getLast? with
  | none => none
  | some word =>
    let name := word.dropWhile (· = '*')
    if name.isEmpty then none else some name

def pointerArgOf? (param : List Char) : Option PointerArg :=
  if '*' ∈ param then
    (declaredName? param).map fun name =>
      { name := String.ofList (Name.keyChars name), cParam := String.ofList param }
  else none

/-- The parameters of a declaration, given what follows its first parenthesis. -/
def parameters (rest : List Char) : List (List Char) :=
  (Text.pieces (· = ',') (Text.beforeLast ')' rest)).map Text.trim

def signatureOf? (declaration : List Char) : Option FunctionSignature :=
  match Text.cutFirst? '(' declaration with
  | none => none
  | some (head, rest) =>
    (declaredName? head).map fun name =>
      { name := String.ofList name, pointerArgs := (parameters rest).filterMap pointerArgOf? }

/-- More parentheses are opened than closed. -/
def isOpen (declaration : List Char) : Bool :=
  declaration.count ')' < declaration.count '('

/--
The declarations on the lines, each joined to one line by single spaces. `pending` is a
declaration that the lines so far left open.
-/
def declarations (marker : List Char) :
    (pending : Option (List Char)) → List (List Char) → List (List Char)
  | none, [] => []
  | some declaration, [] => [declaration]
  | none, line :: rest =>
    if marker.isPrefixOf line then
      if isOpen line then declarations marker (some line) rest
      else line :: declarations marker none rest
    else declarations marker none rest
  | some declaration, line :: rest =>
    let joined := declaration ++ ' ' :: Text.trim line
    if isOpen joined then declarations marker (some joined) rest
    else joined :: declarations marker none rest

def functionsIn (marker code : List Char) : List FunctionSignature :=
  (declarations marker none (Text.lines code)).filterMap signatureOf?

/-- The exported functions of a text without comments, in order, repeated ones included. -/
def extractFunctions (code marker : String) : List FunctionSignature :=
  functionsIn marker.toList code.toList

end HeaderAccord.Header
