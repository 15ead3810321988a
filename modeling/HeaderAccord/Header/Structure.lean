import HeaderAccord.Bracket
import HeaderAccord.Name
import HeaderAccord.Text.Words

/-!
Simple structures of a header: `typedef struct TAG { fields } NAME;` without an inner brace. A
handle, `typedef struct TAG *NAME;`, and a structure with a nested aggregate are passed over.
-/

namespace HeaderAccord.Header

/-- A field: the key of its name, its name as declared, and its type without `const`. -/
structure StructField where
  name : String
  declaredName : String
  typeText : String
  deriving DecidableEq, Repr

structure StructureLayout where
  name : String
  fields : List StructField
  deriving DecidableEq, Repr

/-- The keys of the fields with the names as declared; of two equal keys the later counts. -/
def StructureLayout.fieldKeys (s : StructureLayout) : NameMap String :=
  NameMap.ofList (s.fields.map fun f => (f.name, f.declaredName))

def structKeyword : List Char := "typedef struct".toList

def constKeyword : List Char := "const".toList

def fieldOf? (statement : List Char) : Option StructField :=
  let tokens := Text.words statement
  match tokens.getLast? with
  | none => none
  | some last =>
    let stars := last.takeWhile (· = '*')
    let declared := Text.beforeFirst '[' (Text.strip '*' last)
    let typeTokens := tokens.dropLast.filter (· ≠ constKeyword)
    if declared.isEmpty || typeTokens.isEmpty then none
    else some
      { name := String.ofList (Name.keyChars declared)
        declaredName := String.ofList declared
        typeText := String.ofList ([' '].intercalate typeTokens ++ stars) }

def fieldsIn (body : List Char) : List StructField :=
  (Text.pieces (· = ';') body).filterMap fieldOf?

/--
Reads what follows the keywords: the layout, if it is a simple structure, and what follows the
item. There is no result when the text ends inside the item.
-/
def structureItem? (cs : List Char) : Option (Option StructureLayout × List Char) :=
  match Text.cutFirst? '{' cs with
  | none => none
  | some (tag, opened) =>
    if ';' ∈ tag then (Text.cutFirst? ';' cs).map fun (_, rest) => (none, rest)
    else
      match Bracket.enclosed? '{' '}' opened with
      | none => none
      | some (body, closed) =>
        match Text.cutFirst? ';' closed with
        | none => none
        | some (declarator, rest) =>
          if '{' ∈ body then some (none, rest)
          else
            match Text.words declarator with
            | [] => some (none, rest)
            | name :: _ =>
              some (some { name := String.ofList name, fields := fieldsIn body }, rest)

theorem length_lt_of_structureItem? {cs rest : List Char} {layout : Option StructureLayout}
    (h : structureItem? cs = some (layout, rest)) : rest.length < cs.length := by
  rw [structureItem?] at h
  split at h
  · simp at h
  · next tag opened ho =>
    have hopened := Text.length_lt_of_cutFirst? ho
    split at h
    · obtain ⟨⟨_, r⟩, hr, heq⟩ := Option.map_eq_some_iff.1 h
      simp only [Prod.mk.injEq] at heq
      exact heq.2 ▸ Text.length_lt_of_cutFirst? hr
    · split at h
      · simp at h
      · next body closed hc =>
        have hclosed := Bracket.length_lt_of_enclosed? hc
        split at h
        · simp at h
        · next declarator after ha =>
          have hafter := Text.length_lt_of_cutFirst? ha
          have : rest = after := by
            split at h
            · simp_all
            · split at h <;> simp_all
          subst this
          omega

def structuresIn (code : List Char) : List StructureLayout :=
  match _hk : Text.cutAt? structKeyword code with
  | none => []
  | some (_, item) =>
    match _hi : structureItem? item with
    | none => []
    | some (layout, rest) => layout.toList ++ structuresIn rest
termination_by code.length
decreasing_by
  have := Text.length_le_of_cutAt? _hk
  have := length_lt_of_structureItem? _hi
  omega

/-- The simple structures of a text without comments, in order. -/
def extractStructures (code : String) : List StructureLayout := structuresIn code.toList

end HeaderAccord.Header
