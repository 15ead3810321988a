import HeaderAccord.Text.Cut

/-!
Paths. A path keeps its text; what it means is the list of its components, in which repeated
slashes, a slash at the end and every `.` but a leading one do not count.
-/

namespace HeaderAccord

structure Path where
  text : String
  deriving DecidableEq, Repr

namespace Path

inductive Component
  | root
  | current
  | parent
  | name (text : String)
  deriving DecidableEq, Repr

def chars (p : Path) : List Char := p.text.toList

def isAbsolute (p : Path) : Bool := p.chars.head? = some '/'

/-- The parts between the slashes, the empty ones included. -/
def segments (cs : List Char) : List (List Char) := Text.pieces (· = '/') cs

def dot : List Char := ['.']

def dotDot : List Char := ['.', '.']

def isFiller (segment : List Char) : Bool := segment.isEmpty || segment = dot

def componentOf? (segment : List Char) : Option Component :=
  if isFiller segment then none
  else if segment = dotDot then some .parent
  else some (.name (String.ofList segment))

def components (p : Path) : List Component :=
  let named := (segments p.chars).filterMap componentOf?
  if p.isAbsolute then .root :: named
  else if (segments p.chars).head? = some dot then .current :: named
  else named

/-- Two paths with the same components. -/
def same (p q : Path) : Bool := p.components = q.components

namespace Component

def rank : Component → Nat
  | root => 0
  | current => 1
  | parent => 2
  | name _ => 3

/-- The order of components: by kind, and names by their characters. -/
def before : Component → Component → Bool
  | name a, name b => a < b
  | a, b => a.rank < b.rank

end Component

/-- The order of paths: by their components, the first difference deciding. -/
def componentsLe : List Component → List Component → Bool
  | [], _ => true
  | _ :: _, [] => false
  | a :: as, b :: bs => if a = b then componentsLe as bs else a.before b

def le (p q : Path) : Bool := componentsLe p.components q.components

/--
An absolute path replaces its base; otherwise a slash stands between the two unless the base is
empty or ends in one.
-/
def join (base p : Path) : Path :=
  if p.isAbsolute || base.text = "" then p
  else if base.chars.getLast? = some '/' then ⟨base.text ++ p.text⟩
  else ⟨base.text ++ "/" ++ p.text⟩

def joinName (base : Path) (name : String) : Path := base.join ⟨name⟩

/-- The name at the end of a path, if its last component is one. -/
def fileName? (p : Path) : Option String :=
  match p.components.getLast? with
  | some (.name text) => some text
  | _ => none

/-- What follows the last dot of a name; a dot at the start of the name does not count. -/
def extensionOf? (name : List Char) : Option (List Char) :=
  match Text.cutFirst? '.' name.reverse with
  | none => none
  | some (_, []) => none
  | some (extension, _) => some extension.reverse

def extension? (p : Path) : Option String :=
  p.fileName?.bind fun name => (extensionOf? name.toList).map String.ofList

/-- Drops the segments at the end that do not count. -/
def dropFillers (segments : List (List Char)) : List (List Char) :=
  (segments.reverse.dropWhile isFiller).reverse

/-- The text without its last component and the fillers around that. -/
def withoutLast (segments : List (List Char)) : List (List Char) :=
  dropFillers (dropFillers segments).dropLast

def ofSegments (segments : List (List Char)) : String :=
  String.ofList (['/'].intercalate segments)

/-- The path without its last component. The root and the empty path have none. -/
def parent? (p : Path) : Option Path :=
  if p.isAbsolute then
    let below := segments (p.chars.drop 1)
    if below.all isFiller then none else some ⟨"/" ++ ofSegments (withoutLast below)⟩
  else
    match segments p.chars with
    | first :: rest =>
      if first = dot then
        if rest.all isFiller then some ⟨""⟩ else some ⟨ofSegments (dot :: withoutLast rest)⟩
      else if isFiller first && rest.all isFiller then none
      else some ⟨ofSegments (withoutLast (first :: rest))⟩
    | [] => none

/-- A path and what is left of it after dropping its last component, up to `n` times. -/
def ancestorsUpTo : (n : Nat) → Path → List Path
  | 0, p => [p]
  | n + 1, p =>
    match p.parent? with
    | some parent => p :: ancestorsUpTo n parent
    | none => [p]

/-- A path and every path that it lies below, the nearest first. -/
def ancestors (p : Path) : List Path := p.ancestorsUpTo p.components.length

end Path

end HeaderAccord
