import HeaderAccord.Override.Block

/-!
Blocks as they stand in a script. A block keeps one spelling for each key; a passage keeps all the
fields that a struct declares, in order, so that it can be said which of several spellings the block
has. Passages are read as blocks are, and a block is what a passage comes to.
-/

namespace HeaderAccord.Override

/-- A struct of a script: its name, and its `pub` fields in order, each with its key. -/
structure Passage where
  name : String
  declared : List (String × String) := []
  deriving DecidableEq, Repr

namespace Passage

def block (p : Passage) : Block := { name := p.name, fields := NameMap.ofList p.declared }

def extend (p : Passage) (text : List Char) : Passage :=
  { p with declared := p.declared ++ publicFields text }

/-- Reads the part of a line that lies in the body of a struct. -/
def readBody (p : Passage) (body : List Char) : Option Passage × Option Passage :=
  match Text.cutFirst? '}' body with
  | some (inside, _) => (some (p.extend inside), none)
  | none => (none, some (p.extend body))

/-- Reads what follows `pub struct ` on a line. -/
def readHead (afterKeyword : List Char) : Option Passage × Option Passage :=
  let name := structName afterKeyword
  match Text.cutFirst? '{' afterKeyword with
  | some (_, body) =>
    if name.isEmpty then (none, none) else readBody { name := String.ofList name } body
  | none =>
    if name.isEmpty || afterKeyword.getLast? = some ';' then (none, none)
    else (none, some { name := String.ofList name })

/-- Reads a line: the struct that ends on it, and the struct that is open after it. -/
def readLine (open? : Option Passage) (code : List Char) : Option Passage × Option Passage :=
  match Text.afterPrefix? structKeyword code with
  | some afterKeyword => readHead afterKeyword
  | none =>
    match open? with
    | some p => p.readBody code
    | none => (none, none)

end Passage

def passagesFrom : (open? : Option Passage) → List (List Char) → List Passage
  | _, [] => []
  | open?, line :: rest =>
    let (ended, stillOpen) := Passage.readLine open? (codeOf line)
    ended.toList ++ passagesFrom stillOpen rest

/-- The structs of a script, in order. -/
def passages (script : String) : List Passage := passagesFrom none (Text.lines script.toList)

/-! ### Passages and blocks -/

/-- What a line ends and leaves open, as blocks. -/
def asBlocks (read : Option Passage × Option Passage) : Option Block × Option Block :=
  (read.1.map (·.block), read.2.map (·.block))

theorem block_extend (p : Passage) (text : List Char) :
    (p.extend text).block = p.block.addFields text := by
  rw [Passage.extend, Passage.block, Passage.block, Block.addFields, NameMap.ofList, NameMap.ofList,
    NameMap.insertAll, NameMap.insertAll, NameMap.insertAll, List.foldl_append]

theorem readBody_block (p : Passage) (body : List Char) :
    readBody p.block body = asBlocks (p.readBody body) := by
  rw [readBody, Passage.readBody]
  cases Text.cutFirst? '}' body with
  | none => simp [asBlocks, block_extend]
  | some parts => simp [asBlocks, block_extend]

theorem readHead_eq_asBlocks (afterKeyword : List Char) :
    readHead afterKeyword = asBlocks (Passage.readHead afterKeyword) := by
  have hfresh (name : String) :
      ({ name, fields := .empty } : Block) = ({ name } : Passage).block := rfl
  rw [readHead, Passage.readHead]
  cases Text.cutFirst? '{' afterKeyword with
  | none =>
      dsimp only
      split <;> rfl
  | some parts =>
      dsimp only
      split
      · rfl
      · rw [hfresh, readBody_block]

theorem readLine_block (open? : Option Passage) (code : List Char) :
    readLine (open?.map (·.block)) code = asBlocks (Passage.readLine open? code) := by
  simp only [readLine, Passage.readLine]
  cases Text.afterPrefix? structKeyword code with
  | some afterKeyword => exact readHead_eq_asBlocks afterKeyword
  | none =>
      cases open? with
      | none => rfl
      | some p => exact readBody_block p code

theorem blocksFrom_block (open? : Option Passage) (lines : List (List Char)) :
    blocksFrom (open?.map (·.block)) lines = (passagesFrom open? lines).map (·.block) := by
  induction lines generalizing open? with
  | nil => rfl
  | cons line lines ih =>
      rw [blocksFrom, passagesFrom, readLine_block]
      rcases Passage.readLine open? (codeOf line) with ⟨ended, stillOpen⟩
      show (ended.map (·.block)).toList ++ blocksFrom (stillOpen.map (·.block)) lines = _
      rw [ih, List.map_append]
      cases ended <;> rfl

/-- The blocks of a script are what its passages come to. -/
theorem blocks_eq_map_passages (script : String) :
    blocks script = (passages script).map (·.block) :=
  blocksFrom_block none _

end HeaderAccord.Override
