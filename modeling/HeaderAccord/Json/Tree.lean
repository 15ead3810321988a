import HeaderAccord.Json.Token

/-!
The structure of a JSON text, as far as it can be made out. Where the text breaks off or goes wrong
the tree holds the fault in its place, so that a reader that walks the tree in the order of the
text meets whatever is wrong first: a fault of the text or a value that it does not want.
-/

namespace HeaderAccord.Json

inductive Tree
  | null
  | bool (b : Bool)
  | number (n : Numeral)
  | string (s : RawString)
  /-- the items, and why the array does not close after them -/
  | array (items : List Tree) (fault : Option Fault)
  /-- the members, and why the object does not close after them -/
  | object (members : List (RawString × Tree)) (fault : Option Fault)
  | broken (fault : Fault)

namespace Tree

instance : Inhabited Tree := ⟨.null⟩

/-- A container that is still open: what it holds so far, last first. -/
inductive Frame
  | array (before : List Tree)
  | object (before : List (RawString × Tree)) (name : RawString)

/-- What is to come next in the innermost open container. -/
inductive Phase
  | value
  | item (before : List Tree)
  | name (before : List (RawString × Tree))
  | colon (before : List (RawString × Tree)) (name : RawString)
  | done (v : Tree)

/-- The phase after the first token of a value. -/
def Phase.opening : Token → Phase
  | .null => .done .null
  | .bool b => .done (.bool b)
  | .number n => .done (.number n)
  | .text s => .done (.string s)
  | .openBracket => .item []
  | .openBrace => .name []
  | .fault f => .done (.broken f)
  | _ => .done (.broken .noValue)

/-- Puts a value into the innermost open container. -/
def Frame.fill (v : Tree) : Frame → Option Fault → Tree
  | .array before, fault => .array (v :: before).reverse fault
  | .object before name, fault => .object ((name, v) :: before).reverse fault

/-- Ends every open container after a value in which the text goes wrong. -/
def abandon (frames : List Frame) (v : Tree) : Tree :=
  frames.foldl (fun v frame => frame.fill v none) v

/-- The tree of the tokens from a phase on, and the tokens after the outermost value. -/
def build : Phase → List Frame → List Token → Tree × List Token
  | .value, frames, [] => (abandon frames (.broken .valueCutOff), [])
  | .value, frames, t :: ts => build (.opening t) frames ts
  | .item before, frames, [] =>
    let fault := if before.isEmpty then .listCutOff else .valueCutOff
    (abandon frames (.array before.reverse (some fault)), [])
  | .item before, frames, t :: ts =>
    match t with
    | .closeBracket =>
      if before.isEmpty then build (.done (.array [] none)) frames ts
      else (abandon frames (.array before.reverse (some .listTrailingComma)), ts)
    | t => build (.opening t) (.array before :: frames) ts
  | .name before, frames, [] =>
    let fault := if before.isEmpty then .objectCutOff else .memberCutOff
    (abandon frames (.object before.reverse (some fault)), [])
  | .name before, frames, t :: ts =>
    match t with
    | .text s => build (.colon before s) frames ts
    | .closeBrace =>
      if before.isEmpty then build (.done (.object [] none)) frames ts
      else (abandon frames (.object before.reverse (some .objectTrailingComma)), ts)
    | _ => (abandon frames (.object before.reverse (some .nameNotString)), ts)
  | .colon before name, frames, [] =>
    (abandon (.object before name :: frames) (.broken .objectCutOff), [])
  | .colon before name, frames, t :: ts =>
    match t with
    | .colon => build .value (.object before name :: frames) ts
    | _ => (abandon (.object before name :: frames) (.broken .noColon), ts)
  | .done v, [], ts => (v, ts)
  | .done v, .array before :: frames, [] =>
    (abandon frames ((Frame.array before).fill v (some .listCutOff)), [])
  | .done v, .array before :: frames, t :: ts =>
    match t with
    | .comma => build (.item (v :: before)) frames ts
    | .closeBracket => build (.done ((Frame.array before).fill v none)) frames ts
    | _ => (abandon frames ((Frame.array before).fill v (some .itemsNotSeparated)), ts)
  | .done v, .object before name :: frames, [] =>
    (abandon frames ((Frame.object before name).fill v (some .objectCutOff)), [])
  | .done v, .object before name :: frames, t :: ts =>
    match t with
    | .comma => build (.name ((name, v) :: before)) frames ts
    | .closeBrace => build (.done ((Frame.object before name).fill v none)) frames ts
    | _ => (abandon frames ((Frame.object before name).fill v (some .membersNotSeparated)), ts)
termination_by structural _ _ ts => ts

mutual

/-- The value of a tree whose containers nest at most `depth` deep. -/
def free (depth : Nat) : Tree → Except Fault Json
  | .null => .ok .null
  | .bool b => .ok (.bool b)
  | .number n => n.value
  | .string s => s.text.map .string
  | .array items fault => do
    if depth = 0 then throw .tooDeep
    let values ← freeItems (depth - 1) items
    match fault with
    | some f => throw f
    | none => return .array values
  | .object members fault => do
    if depth = 0 then throw .tooDeep
    let values ← freeMembers (depth - 1) members
    match fault with
    | some f => throw f
    | none => return .object values
  | .broken f => .error f

def freeItems (depth : Nat) : List Tree → Except Fault (List Json)
  | [] => .ok []
  | t :: ts => do
    let v ← free depth t
    let vs ← freeItems depth ts
    return v :: vs

def freeMembers (depth : Nat) : List (RawString × Tree) → Except Fault (List (String × Json))
  | [] => .ok []
  | (name, t) :: rest => do
    let name ← name.text
    let v ← free depth t
    let vs ← freeMembers depth rest
    return (name, v) :: vs

end

/-- The fault of a string that is skipped. -/
def skipString (s : RawString) : Except Fault Unit :=
  match s.fault with
  | some f => .error f
  | none => .ok ()

mutual

/-- Passes over a value: its form counts, but neither depth nor the range of its numbers. -/
def skip : Tree → Except Fault Unit
  | .null => .ok ()
  | .bool _ => .ok ()
  | .number _ => .ok ()
  | .string s => skipString s
  | .array items fault => do
    skipItems items
    match fault with
    | some f => throw f.whenSkipped
    | none => return
  | .object members fault => do
    skipMembers members
    match fault with
    | some f => throw f.whenSkipped
    | none => return
  | .broken f => .error f.whenSkipped

def skipItems : List Tree → Except Fault Unit
  | [] => .ok ()
  | t :: ts => do
    skip t
    skipItems ts

def skipMembers : List (RawString × Tree) → Except Fault Unit
  | [] => .ok ()
  | (name, t) :: rest => do
    skipString name
    skip t
    skipMembers rest

end

/-- Containers nest at most this deep in a value that is kept. -/
def maxDepth : Nat := 127

/-- The tree of a text, and whether anything follows it. -/
def ofText (text : String) : Tree × Bool :=
  let (tree, rest) := build .value [] (tokens text.toList)
  (tree, !rest.isEmpty)

end Tree

end HeaderAccord.Json
