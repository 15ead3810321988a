import HeaderAccord.Json.Shortest
import HeaderAccord.Json.Value
import HeaderAccord.Text.Quoted

/-!
The text of a JSON value: compact, without any blank, or pretty, with two blanks for each level.
-/

namespace HeaderAccord.Json

/-- A quote, a backslash and the controls are escaped; every other character stands for itself. -/
def escapeChar (c : Char) : List Char :=
  if c = '"' then ['\\', '"']
  else if c = '\\' then ['\\', '\\']
  else if c = '\n' then ['\\', 'n']
  else if c = '\r' then ['\\', 'r']
  else if c = '\t' then ['\\', 't']
  else if c = '\x08' then ['\\', 'b']
  else if c = '\x0c' then ['\\', 'f']
  else if c.toNat < 32 then
    ['\\', 'u', '0', '0'] ++ (if c.toNat < 16 then ['0'] else []) ++ Text.hexDigits c.toNat
  else [c]

def stringText (s : String) : List Char := '"' :: s.toList.flatMap escapeChar ++ ['"']

def scalarText : Json → List Char
  | .null => "null".toList
  | .bool true => "true".toList
  | .bool false => "false".toList
  | .integer n => (toString n).toList
  | .double d => d.text.toList
  | .string s => stringText s
  | .array _ => []
  | .object _ => []

mutual

def compactChars : Json → List Char
  | .array items => '[' :: [','].intercalate (compactItems items) ++ [']']
  | .object members => '\x7b' :: [','].intercalate (compactMembers members) ++ ['\x7d']
  | v => scalarText v

def compactItems : List Json → List (List Char)
  | [] => []
  | v :: vs => compactChars v :: compactItems vs

def compactMembers : List (String × Json) → List (List Char)
  | [] => []
  | (name, v) :: rest => (stringText name ++ ':' :: compactChars v) :: compactMembers rest

end

def compact (v : Json) : String := String.ofList (compactChars v)

/-- A line break and the indentation of a level. -/
def lineBreak (level : Nat) : List Char := '\n' :: List.replicate (2 * level) ' '

/-- Items on lines of their own between brackets; nothing stands between those of an empty list. -/
def block (opener closer : Char) (level : Nat) (items : List (List Char)) : List Char :=
  if items.isEmpty then [opener, closer]
  else
    opener :: lineBreak (level + 1) ++ (',' :: lineBreak (level + 1)).intercalate items ++
      lineBreak level ++ [closer]

mutual

def prettyChars (level : Nat) : Json → List Char
  | .array items => block '[' ']' level (prettyItems (level + 1) items)
  | .object members => block '\x7b' '\x7d' level (prettyMembers (level + 1) members)
  | v => scalarText v

def prettyItems (level : Nat) : List Json → List (List Char)
  | [] => []
  | v :: vs => prettyChars level v :: prettyItems level vs

def prettyMembers (level : Nat) : List (String × Json) → List (List Char)
  | [] => []
  | (name, v) :: rest =>
    (stringText name ++ [':', ' '] ++ prettyChars level v) :: prettyMembers level rest

end

def pretty (v : Json) : String := String.ofList (prettyChars 0 v)

end HeaderAccord.Json
