import HeaderAccord.Bracket
import HeaderAccord.Name
import HeaderAccord.Text.Cut

/-!
The `pub struct` blocks of a build script, read line by line. A block opens on a line that starts
with `pub struct ` and ends at the next `}`; its fields may share lines with either. A struct
without a brace whose line ends in `;` has no named fields and is no block.
-/

namespace HeaderAccord.Override

structure Block where
  name : String
  /-- the keys of the `pub` fields with the names as declared -/
  fields : NameMap String
  deriving DecidableEq

def structKeyword : List Char := "pub struct ".toList

def fieldKeyword : List Char := "pub ".toList

/-- The field that one of the declarations between commas makes public. -/
def publicField? (declaration : List Char) : Option (String × String) :=
  match Text.afterPrefix? fieldKeyword declaration with
  | none => none
  | some field =>
    let declared := Text.trim (Text.beforeFirst ':' field)
    if declared.isEmpty then none
    else some (String.ofList (Name.keyChars declared), String.ofList declared)

def publicFields (text : List Char) : List (String × String) :=
  (Bracket.splitTopLevel text).filterMap publicField?

def Block.addFields (b : Block) (text : List Char) : Block :=
  { b with fields := b.fields.insertAll (publicFields text) }

def endsName (c : Char) : Bool :=
  Text.isBlank c || c = '\x7b' || c = '<' || c = '(' || c = ';'

def structName (afterKeyword : List Char) : List Char := afterKeyword.takeWhile (!endsName ·)

/-- A line without its `//` comment and the blanks around it. -/
def codeOf (line : List Char) : List Char :=
  Text.trim (((Text.cutAt? ['/', '/'] line).map (·.1)).getD line)

/--
Reads the part of a line that lies in the body of a block: the block if it ends there, or the block
that stays open.
-/
def readBody (b : Block) (body : List Char) : Option Block × Option Block :=
  match Text.cutFirst? '}' body with
  | some (inside, _) => (some (b.addFields inside), none)
  | none => (none, some (b.addFields body))

/-- Reads what follows `pub struct ` on a line. -/
def readHead (afterKeyword : List Char) : Option Block × Option Block :=
  let name := structName afterKeyword
  match Text.cutFirst? '{' afterKeyword with
  | some (_, body) =>
    if name.isEmpty then (none, none)
    else readBody { name := String.ofList name, fields := .empty } body
  | none =>
    if name.isEmpty || afterKeyword.getLast? = some ';' then (none, none)
    else (none, some { name := String.ofList name, fields := .empty })

/-- Reads a line: the block that ends on it, and the block that is open after it. -/
def readLine (open? : Option Block) (code : List Char) : Option Block × Option Block :=
  match Text.afterPrefix? structKeyword code with
  | some afterKeyword => readHead afterKeyword
  | none =>
    match open? with
    | some b => readBody b code
    | none => (none, none)

def blocksFrom : (open? : Option Block) → List (List Char) → List Block
  | _, [] => []
  | open?, line :: rest =>
    let (ended, stillOpen) := readLine open? (codeOf line)
    ended.toList ++ blocksFrom stillOpen rest

/-- The blocks of a script, in order. -/
def blocks (script : String) : List Block := blocksFrom none (Text.lines script.toList)

end HeaderAccord.Override
