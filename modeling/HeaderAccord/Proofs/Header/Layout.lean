import HeaderAccord.Proofs.Comment
import HeaderAccord.Proofs.Header.Structure

/-!
Headers as they are written. A header is a sequence of items on lines of their own: handles, simple
structures, structures with nested aggregates, and other text. Blanks and comments stand freely
between the tokens of an item. Read back, the header has its simple structures and no others.
-/

namespace HeaderAccord.Header

open Text HeaderAccord.Bracket

/-! ### Items -/

/-- A text that is a single statement of a simple structure. -/
def IsStatement (code : List Char) : Prop := ';' ∉ code ∧ '{' ∉ code ∧ '}' ∉ code

instance (code : List Char) : Decidable (IsStatement code) :=
  inferInstanceAs (Decidable (';' ∉ code ∧ '{' ∉ code ∧ '}' ∉ code))

/-- A field `types.. stars name suffix`, of which the suffix is empty or in brackets. -/
structure WrittenField where
  types : List (List Char)
  stars : List Char
  name : List Char
  suffix : List Char
  chunk : Chunk
  renders : Renders (types ++ [stars ++ (name ++ suffix)]) chunk
  statement : IsStatement chunk.code
  types_proper : ∃ t ∈ types, t ≠ constKeyword
  stars_spelled : ∀ c ∈ stars, c = '*'
  name_spelled : name ≠ [] ∧ '*' ∉ name ∧ '[' ∉ name
  suffix_spelled : suffix = [] ∨ ∃ inside, suffix = '[' :: (inside ++ [']'])

/-- The field that is meant: its type is that of the tokens other than `const`, with the stars. -/
def WrittenField.field (f : WrittenField) : StructField where
  name := Name.key (String.ofList f.name)
  declaredName := String.ofList f.name
  typeText :=
    String.ofList ([' '].intercalate (f.types.filter (· ≠ constKeyword)) ++ f.stars)

theorem WrittenField.fieldOf?_code (f : WrittenField) :
    fieldOf? f.chunk.code = some f.field := by
  rw [fieldOf?_of_words f.renders.words_code f.types_proper f.stars_spelled f.name_spelled
    f.suffix_spelled, field, Name.key, String.toList_ofList]

/-- Tokens of which none is a type: there is nothing but `const` before the last one. -/
structure UntypedTokens where
  tokens : List (List Char)
  chunk : Chunk
  renders : Renders tokens chunk
  statement : IsStatement chunk.code
  untyped : ∀ t ∈ tokens.dropLast, t = constKeyword

/-- A statement: a field, tokens without a type, or one of another form, which is read on its own. -/
inductive Statement
  | field (f : WrittenField)
  | untyped (u : UntypedTokens)
  | other (chunk : Chunk) (statement : IsStatement chunk.code)

namespace Statement

def chunk : Statement → Chunk
  | field f => f.chunk
  | untyped u => u.chunk
  | other chunk _ => chunk

def fields : Statement → List StructField
  | field f => [f.field]
  | untyped _ => []
  | other chunk _ => (fieldOf? chunk.code).toList

theorem isStatement (s : Statement) : IsStatement s.chunk.code := by
  cases s with
  | field f => exact f.statement
  | untyped u => exact u.statement
  | other chunk h => exact h

theorem fieldOf?_toList (s : Statement) : (fieldOf? s.chunk.code).toList = s.fields := by
  cases s with
  | field f => rw [chunk, f.fieldOf?_code]; rfl
  | untyped u =>
      have huntyped := u.untyped
      rw [← u.renders.words_code] at huntyped
      rw [chunk, fieldOf?_of_untyped huntyped]
      rfl
  | other chunk h => rfl

end Statement

/-- A simple structure `tag { statements; } name;`, without the keywords. -/
structure WrittenStruct where
  tag : Chunk
  statements : List Statement
  /-- what stands before the closing brace -/
  gap : Chunk
  name : List Char
  declarator : Chunk
  tag_plain : '{' ∉ tag.code ∧ ';' ∉ tag.code
  gap_blank : IsGap gap
  declarator_renders : Renders [name] declarator
  declarator_plain : ';' ∉ declarator.code

def WrittenStruct.layout (s : WrittenStruct) : StructureLayout where
  name := String.ofList s.name
  fields := s.statements.flatMap (·.fields)

/-- What follows the keywords, up to the semicolon at the end of the item. -/
inductive Shape
  /-- `tag *name` or `tag name` -/
  | handle (declarator : Chunk) (plain : '{' ∉ declarator.code ∧ ';' ∉ declarator.code)
  | simple (s : WrittenStruct)
  /-- `tag { body } name` with braces in the body -/
  | nested (tag body declarator : Chunk) (tag_plain : '{' ∉ tag.code ∧ ';' ∉ tag.code)
      (balanced : Encloses '{' '}' 0 '{' body.code) (braces : '{' ∈ body.code)
      (declarator_plain : ';' ∉ declarator.code)

namespace Shape

def chunk : Shape → Chunk
  | handle declarator _ => declarator
  | simple s =>
    s.tag ++ (Chunk.ofText "\x7b" ++ (s.statements.flatMap (fun t => t.chunk ++ Chunk.ofText ";") ++
      (s.gap ++ (Chunk.ofText "\x7d" ++ s.declarator))))
  | nested tag body declarator _ _ _ _ =>
    tag ++ (Chunk.ofText "\x7b" ++ (body ++ (Chunk.ofText "\x7d" ++ declarator)))

def layouts : Shape → List StructureLayout
  | simple s => [s.layout]
  | _ => []

end Shape

/-- An item with the keywords: gaps before and behind it, and a line comment up to the end of the
line. -/
structure WrittenItem where
  lead : Chunk
  shape : Shape
  trail : Chunk
  note : Option Note
  lead_blank : IsGap lead
  trail_blank : IsGap trail

def WrittenItem.chunk (w : WrittenItem) : Chunk :=
  w.lead ++ (Chunk.ofText "typedef struct" ++ (w.shape.chunk ++ (Chunk.ofText ";" ++ w.trail)))

/-- An item of a header. Other text may be any whose comments a line break ends, if the keywords are
not in what is left of it. -/
inductive Item
  | written (w : WrittenItem)
  | other (text code : List Char) (closed : Closed text code) (plain : ¬structKeyword <:+: code)

namespace Item

def text : Item → List Char
  | written w => w.chunk.text ++ (w.note.map Note.text).getD []
  | other text _ _ _ => text

def code : Item → List Char
  | written w => w.chunk.code
  | other _ code _ _ => code

/-- The simple structure that an item declares, if it does. -/
def layouts : Item → List StructureLayout
  | written w => w.shape.layouts
  | other _ _ _ _ => []

theorem closed (item : Item) : Closed item.text item.code := by
  cases item with
  | written w => exact closed_chunk w.chunk w.note
  | other text code h _ => exact h

end Item

/-- A header: items on lines of their own. -/
def headerText (items : List Item) : List Char := ['\n'].intercalate (items.map (·.text))

/-! ### Reading a header back -/

/-- The fields of a simple structure are those of its statements. -/
theorem WrittenStruct.fieldsIn_body (s : WrittenStruct) :
    fieldsIn ((s.statements.flatMap fun t => t.chunk.code ++ [';']) ++ s.gap.code) =
      s.layout.fields := by
  have hstatements : ∀ c ∈ s.statements.map (·.chunk.code), ';' ∉ c := by
    intro c hc hmem
    obtain ⟨t, -, rfl⟩ := List.mem_map.1 hc
    exact t.isStatement.1 hmem
  have hfields := fieldsIn_statements hstatements s.gap_blank
  rw [List.flatMap_map] at hfields
  rw [hfields]
  show _ = s.statements.flatMap (·.fields)
  induction s.statements with
  | nil => rfl
  | cons t ts ih =>
      rw [List.map_cons, List.filterMap_cons, List.flatMap_cons, ← t.fieldOf?_toList, ← ih]
      cases fieldOf? t.chunk.code <;> rfl

theorem WrittenStruct.no_brace_body (s : WrittenStruct) :
    let body := (s.statements.flatMap fun t => t.chunk.code ++ [';']) ++ s.gap.code
    '{' ∉ body ∧ '}' ∉ body := by
  have habsent {c : Char} (hcode : ∀ t ∈ s.statements, c ∉ t.chunk.code) (hc : c ≠ ';')
      (hblank : isBlank c = false) :
      c ∉ (s.statements.flatMap fun t => t.chunk.code ++ [';']) ++ s.gap.code := by
    intro hmem
    rcases List.mem_append.1 hmem with hmem | hmem
    · obtain ⟨t, ht, hmem⟩ := List.mem_flatMap.1 hmem
      rcases List.mem_append.1 hmem with hmem | hmem
      · exact hcode t ht hmem
      · exact hc (List.mem_singleton.1 hmem)
    · have hgap : isBlank c = true := s.gap_blank c hmem
      rw [hblank] at hgap
      exact Bool.noConfusion hgap
  refine ⟨?_, ?_⟩
  · exact habsent (fun t _ => t.isStatement.2.1) (by decide) (by decide)
  · exact habsent (fun t _ => t.isStatement.2.2) (by decide) (by decide)

/-- What a shape is read as, whatever follows it. -/
theorem Shape.structuresIn_append (shape : Shape) (rest : List Char) :
    structuresIn (structKeyword ++ (shape.chunk.code ++ ';' :: rest)) =
      shape.layouts ++ structuresIn rest := by
  cases shape with
  | handle declarator plain => exact structuresIn_handle plain.1 plain.2 rest
  | nested tag body declarator htag hbalanced hbraces hdeclarator =>
      have hitem := structureItem?_aggregate htag hbalanced hdeclarator rest
      rw [if_pos hbraces] at hitem
      rw [structuresIn_keyword]
      simp [chunk, hitem, layouts]
  | simple s =>
      -- without an inner brace, the first closing brace ends the body
      have hbody := s.no_brace_body
      have hencloses := encloses_of_not_mem (show '}' ≠ '>' by decide) hbody.1 hbody.2 '{'
      have hitem := structureItem?_aggregate s.tag_plain hencloses s.declarator_plain rest
      rw [if_neg hbody.1, s.declarator_renders.words_code, s.fieldsIn_body, List.append_assoc]
        at hitem
      have hcode : Chunk.code (s.statements.flatMap fun t => t.chunk ++ Chunk.ofText ";") =
          s.statements.flatMap fun t => t.chunk.code ++ [';'] := by
        induction s.statements with
        | nil => rfl
        | cons t ts ih => simp [ih]
      rw [structuresIn_keyword]
      simp [chunk, hcode, hitem, layouts, WrittenStruct.layout]

theorem WrittenItem.structuresIn_append (w : WrittenItem) (rest : List Char) :
    structuresIn (w.chunk.code ++ rest) =
      w.shape.layouts ++ structuresIn (w.trail.code ++ rest) := by
  have hkeyword : "typedef struct".toList = structKeyword := rfl
  have hcode : w.chunk.code ++ rest = w.lead.code ++
      (structKeyword ++ (w.shape.chunk.code ++ ';' :: (w.trail.code ++ rest))) := by
    simp [chunk, hkeyword]
  rw [hcode, structuresIn_blanks w.lead_blank, w.shape.structuresIn_append]

/-- An item is read as what it declares, and the next line as if it stood alone. -/
theorem Item.structuresIn_line (item : Item) (rest : List Char) :
    structuresIn (item.code ++ '\n' :: rest) = item.layouts ++ structuresIn rest := by
  cases item with
  | other text code _ hplain => exact Header.structuresIn_line hplain rest
  | written w =>
      have hblank : AllBlank (w.trail.code ++ ['\n']) := by
        have htrail : AllBlank w.trail.code := w.trail_blank
        simp [htrail]
        decide
      have hskip := structuresIn_blanks hblank rest
      rw [List.append_assoc, List.singleton_append] at hskip
      -- the line break is one more blank behind the item
      rw [code, w.structuresIn_append, hskip, layouts]

theorem Item.structuresIn_code (item : Item) : structuresIn item.code = item.layouts := by
  cases item with
  | other text code _ hplain => exact structuresIn_of_no_keyword hplain
  | written w =>
      have hskip := structuresIn_blanks w.trail_blank []
      have hnil : structuresIn [] = [] := structuresIn_of_no_brace (by simp)
      have h := w.structuresIn_append []
      rwa [hskip, hnil, List.append_nil, List.append_nil] at h

theorem structuresIn_intercalate (items : List Item) :
    structuresIn (['\n'].intercalate (items.map (·.code))) = items.flatMap (·.layouts) := by
  induction items with
  | nil => exact structuresIn_of_no_brace (by simp)
  | cons item items ih =>
      cases items with
      | nil => simpa using item.structuresIn_code
      | cons next items =>
          rw [List.map_cons, List.map_cons, List.intercalate_cons_cons, List.append_assoc,
            List.singleton_append, item.structuresIn_line, List.flatMap_cons]
          exact congrArg _ ih

/-- A header has the simple structures that were written into it, in order, each with its name and
its fields, and no others. -/
theorem extractStructures_header (items : List Item) :
    extractStructures (stripComments (String.ofList (headerText items))) =
      items.flatMap (·.layouts) := by
  have hclosed : ∀ p ∈ items.map fun item => (item.text, item.code), Closed p.1 p.2 := by
    intro p hp
    obtain ⟨item, -, rfl⟩ := List.mem_map.1 hp
    exact item.closed
  have hparts := withoutComments_intercalate hclosed
  rw [List.map_map, List.map_map] at hparts
  rw [extractStructures, stripComments, String.toList_ofList, String.toList_ofList, headerText]
  exact (congrArg structuresIn hparts).trans (structuresIn_intercalate items)

/-! A handle, and a structure with a brace in a comment. -/

def deviceItem : Item := .written
  { lead := []
    shape := .handle (Chunk.ofText " DeviceImpl* Device") (by decide)
    trail := []
    note := some { body := " opaque".toList, unbroken := by decide }
    lead_blank := by decide
    trail_blank := by decide }

def sizesGap : Chunk := Chunk.ofText " " ++ [.block " \x7b ".toList (by decide)]

def sizesChunk : Chunk :=
  Chunk.ofText " " ++ (Chunk.ofText "const" ++ (Chunk.ofText " " ++
    (Chunk.ofText "uint32_t" ++ (sizesGap ++ (Chunk.ofText "*sizes[4]" ++ [])))))

theorem renders_sizesChunk :
    Renders ["const".toList, "uint32_t".toList, "*sizes[4]".toList] sizesChunk := by
  have hname := Renders.token sizesGap (Chunk.ofText "*sizes[4]") (by decide) (by decide)
    (.gap [] (by decide)) (by decide)
  have htype := Renders.token (Chunk.ofText " ") (Chunk.ofText "uint32_t") (by decide) (by decide)
    hname (by decide)
  exact .token (Chunk.ofText " ") (Chunk.ofText "const") (by decide) (by decide) htype (by decide)

def sizesField : WrittenField where
  types := ["const".toList, "uint32_t".toList]
  stars := ['*']
  name := "sizes".toList
  suffix := "[4]".toList
  chunk := sizesChunk
  renders := renders_sizesChunk
  statement := by decide
  types_proper := ⟨"uint32_t".toList, by decide, by decide⟩
  stars_spelled := by simp
  name_spelled := by decide
  suffix_spelled := .inr ⟨['4'], rfl⟩

def extentItem : Item := .written
  { lead := []
    shape := .simple
      { tag := Chunk.ofText " "
        statements := [.field sizesField]
        gap := Chunk.ofText " "
        name := "Extent".toList
        declarator := Chunk.ofText " " ++ (Chunk.ofText "Extent" ++ [])
        tag_plain := by decide
        gap_blank := by decide
        declarator_renders := .token (Chunk.ofText " ") (Chunk.ofText "Extent") (by decide)
          (by decide) (.gap [] (by decide)) (by decide)
        declarator_plain := by decide }
    trail := []
    note := none
    lead_blank := by decide
    trail_blank := by decide }

theorem extractStructures_header_extent :
    extractStructures (stripComments
      ("typedef struct DeviceImpl* Device;// opaque\n" ++
        "typedef struct \x7b const uint32_t /* \x7b */*sizes[4]; \x7d Extent;")) =
      [{ name := "Extent"
         fields := [{ name := "sizes", declaredName := "sizes", typeText := "uint32_t*" }] }] := by
  have htext : String.ofList (headerText [deviceItem, extentItem]) =
      "typedef struct DeviceImpl* Device;// opaque\n" ++
        "typedef struct \x7b const uint32_t /* \x7b */*sizes[4]; \x7d Extent;" := by
    decide +kernel
  have hlayouts : [deviceItem, extentItem].flatMap (·.layouts) =
      [{ name := "Extent"
         fields := [{ name := "sizes", declaredName := "sizes", typeText := "uint32_t*" }] }] := by
    decide +kernel
  rw [← htext, extractStructures_header, hlayouts]

end HeaderAccord.Header
