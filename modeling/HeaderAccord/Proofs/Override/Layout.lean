import HeaderAccord.Override.Check
import HeaderAccord.Proofs.Comment
import HeaderAccord.Proofs.Lines
import HeaderAccord.Proofs.NameMap
import HeaderAccord.Proofs.Override.Field
import HeaderAccord.Proofs.Override.Passage

/-!
Structs as they are written in a script. The declaration `pub struct name { .. }` stands on any
number of lines: blanks and line breaks are free between its tokens, but a field stays on its line,
and a line may end in a comment. Read back, the struct has its fields, however they are spread over
the lines; only a field directly behind a brace that opens on a later line than the name is lost.
-/

namespace HeaderAccord.Override

open Text

/-! ### Comments at the end of a line -/

def noteText (note : Option Note) : List Char := (note.map Note.text).getD []

/-- The first slash of the comment, if there is one. -/
def noteSlash (note : Option Note) : List Char := if note.isSome then ['/'] else []

/-- The comment is where the first `//` of the line is, and there is no `//` without it. -/
def Uncommented (code : List Char) (note : Option Note) : Prop :=
  ¬['/', '/'] <:+: code ++ noteSlash note

theorem not_slashes_noteSlash (note : Option Note) : ¬['/', '/'] <:+: noteSlash note := by
  intro h
  have hlength := h.length_le
  cases note <;> simp [noteSlash] at hlength

theorem Uncommented.prepend {pre code : List Char} {note : Option Note}
    (h : Uncommented code note) (hpre : '/' ∉ pre) : Uncommented (pre ++ code) note := by
  rw [Uncommented, List.append_assoc]
  exact not_slashes_append hpre h

theorem cutAt?_slashes {code : List Char} (h : ¬['/', '/'] <:+: code ++ ['/'])
    (rest : List Char) : cutAt? ['/', '/'] (code ++ '/' :: '/' :: rest) = some (code, rest) := by
  induction code with
  | nil => rfl
  | cons c code ih =>
      have htail : ¬['/', '/'] <:+: code ++ ['/'] := fun hi => h (List.infix_cons hi)
      have hnone : afterPrefix? ['/', '/'] (c :: (code ++ '/' :: '/' :: rest)) = none := by
        apply afterPrefix?_eq_none
        intro hp
        obtain ⟨rfl, hsecond⟩ := List.cons_prefix_cons.1 hp
        cases code with
        | nil => exact h ⟨[], [], rfl⟩
        | cons d code =>
            obtain ⟨rfl, -⟩ := List.cons_prefix_cons.1 hsecond
            exact h ⟨[], code ++ ['/'], rfl⟩
      rw [List.cons_append, cutAt?, hnone, ih htail]
      rfl

/-- Blanks at the end of a line are no code. -/
theorem codeOf_append_allBlank {gap : List Char} (hgap : AllBlank gap) (line : List Char) :
    codeOf (line ++ gap) = codeOf line := by
  have hslashes : ['/', '/'] ≠ [] := by decide
  cases hcut : cutAt? ['/', '/'] line with
  | some parts =>
      rw [codeOf, codeOf, cutAt?_append hslashes hcut, hcut]
      rfl
  | none =>
      have hline := not_infix_of_cutAt?_eq_none hcut
      have hboth : ¬['/', '/'] <:+: line ++ gap := by
        cases gap with
        | nil => rwa [List.append_nil]
        | cons c gap =>
            obtain ⟨hc, hblanks⟩ := allBlank_cons.1 hgap
            have hslash : '/' ∉ gap := not_mem_of_allBlank hblanks (by decide)
            have hne : c ≠ '/' := fun heq => absurd (heq ▸ hc) (by decide)
            exact not_slashes_append_cons hne hline (not_slashes_of_not_mem hslash)
      rw [codeOf, codeOf, cutAt?_eq_none hslashes hboth, hcut]
      exact trim_append_of_allBlank hgap line

/-- The code of a line, of which blanks at the end may be missing. -/
theorem codeOf_line {code kept gap : List Char} {note : Option Note} (h : Uncommented code note)
    (heq : code ++ noteText note = kept ++ gap) (hgap : AllBlank gap) :
    codeOf kept = trim code := by
  rw [← codeOf_append_allBlank hgap, ← heq]
  cases note with
  | none =>
      have hplain : ¬['/', '/'] <:+: code := by simpa [Uncommented, noteSlash] using h
      have htext : code ++ noteText none = code := List.append_nil code
      rw [htext, codeOf, cutAt?_eq_none (by decide) hplain]
      rfl
  | some note =>
      have htext : code ++ noteText (some note) = code ++ '/' :: '/' :: note.body := rfl
      rw [htext, codeOf, cutAt?_slashes h]
      rfl

/-! ### Structs as they are written -/

/-- A line without code. -/
structure BlankLine where
  blanks : List Char
  note : Option Note
  blanks_blank : IsSpacing blanks

def BlankLine.text (l : BlankLine) : List Char := l.blanks ++ noteText l.note

/-- A line of the body of a struct. A comment at its end does not stand directly behind a slash. -/
structure BodyLine where
  parts : List Part
  note : Option Note
  note_apart : note.isSome = true → (partsText parts).getLast? ≠ some '/'

def BodyLine.text (l : BodyLine) : List Char := partsText l.parts ++ noteText l.note

/-- The spelling of a struct's name, which a blank, a brace or the end follows. -/
def IsStructName (name : List Char) : Prop := name ≠ [] ∧ ∀ c ∈ name, endsName c = false ∧ c ≠ '/'

instance (name : List Char) : Decidable (IsStructName name) :=
  decidable_of_iff (name ≠ [] ∧ name.all (fun c => endsName c = false ∧ c ≠ '/') = true)
    (by simp [IsStructName])

/-- Lines that end in a line break. -/
def endedLines (lines : List (List Char)) : List Char := lines.flatMap (· ++ ['\n'])

/-- A script with one struct `pub struct name { .. }`. -/
structure Layout where
  before : List BlankLine
  indent : List Char
  name : List Char
  /-- the lines that end between the name and the brace -/
  opening : List BlankLine
  braceIndent : List Char
  /-- the lines that end in the body -/
  body : List BodyLine
  last : List Part
  /-- the line of the closing brace, from there on -/
  trail : BlankLine
  after : List BlankLine
  indent_blank : IsSpacing indent
  name_spelled : IsStructName name
  braceIndent_blank : IsSpacing braceIndent

namespace Layout

variable (l : Layout)

/-- The body, the closing brace and what follows it. -/
def bodyText (body : List BodyLine) (last : List Part) (trail : BlankLine)
    (after : List BlankLine) : List Char :=
  endedLines (body.map (·.text)) ++
    (partsText last ++ '\x7d' :: (trail.text ++ after.flatMap fun b => '\n' :: b.text))

def text : List Char :=
  endedLines (l.before.map (·.text)) ++ (l.indent ++ (structKeyword ++ (l.name ++
    (endedLines (l.opening.map (·.text)) ++ (l.braceIndent ++
      '\x7b' :: bodyText l.body l.last l.trail l.after)))))

def script : String := String.ofList l.text

/-- The parts on the line of the opening brace. -/
def firstParts : List Part :=
  match l.body with
  | [] => l.last
  | line :: _ => line.parts

/-- The parts on the lines after that of the opening brace. -/
def laterParts : List Part :=
  match l.body with
  | [] => []
  | _ :: rest => rest.flatMap (·.parts) ++ l.last

def fields : List WrittenField := fieldsOf (l.firstParts ++ l.laterParts)

/-- The field directly behind the opening brace, if the brace is not on the line of the name. -/
def hidden : Option WrittenField :=
  if l.opening.isEmpty then none else l.firstParts.head?.bind (·.field)

/-- The fields without the hidden one. -/
def seen : List WrittenField :=
  if l.opening.isEmpty then l.fields else fieldsOf (l.firstParts.tail ++ l.laterParts)

theorem fields_eq : l.fields = l.hidden.toList ++ l.seen := by
  rw [seen, hidden, fields]
  split
  · rfl
  · cases l.firstParts with
    | nil => rfl
    | cons part parts => cases h : part.field <;> simp [fieldsOf, h]

end Layout

/-! ### Reading lines -/

/-- The structs that end in a text, of which the first may be open before it. -/
def passagesIn (open? : Option Passage) (text : List Char) : List Passage :=
  passagesFrom open? (lines text)

theorem newline_not_mem_noteText (note : Option Note) : '\n' ∉ noteText note := by
  cases note with
  | none => exact List.not_mem_nil
  | some note =>
      have hbody := note.unbroken
      simpa [noteText, Note.text] using hbody

section

variable {code : List Char} {note : Option Note} (huncommented : Uncommented code note)
  (hline : '\n' ∉ code) (open? : Option Passage)

include huncommented hline

/-- A line is read, and then what follows it. -/
theorem passagesIn_line (rest : List Char) :
    passagesIn open? (code ++ (noteText note ++ '\n' :: rest)) =
      (Passage.readLine open? (trim code)).1.toList ++
        passagesIn (Passage.readLine open? (trim code)).2 rest := by
  have hbreak : '\n' ∉ code ++ noteText note := by
    simp [hline, newline_not_mem_noteText]
  obtain ⟨kept, gap, heq, hgap, hlines⟩ := exists_lines_append hbreak rest
  rw [passagesIn, ← List.append_assoc, hlines, passagesFrom, codeOf_line huncommented heq hgap]
  rfl

theorem passagesIn_end :
    passagesIn open? (code ++ noteText note) =
      (Passage.readLine open? (trim code)).1.toList := by
  have hbreak : '\n' ∉ code ++ noteText note := by
    simp [hline, newline_not_mem_noteText]
  rw [passagesIn, lines_of_not_mem hbreak]
  split
  · next hempty =>
    rw [(List.append_eq_nil_iff.1 hempty).1]
    cases open? <;> rfl
  · rw [passagesFrom, codeOf_line huncommented (List.append_nil _).symm allBlank_nil]
    exact List.append_nil _

end

theorem Passage.readLine_nil (open? : Option Passage) :
    Passage.readLine open? [] = (none, open?) := by
  cases open? with
  | none => rfl
  | some p =>
      have hfields : publicFields [] = [] := rfl
      have hextend : p.extend [] = p := by
        rw [Passage.extend, hfields, List.append_nil]
      show p.readBody [] = _
      rw [Passage.readBody]
      exact congrArg (none, some ·) hextend

theorem Passage.readLine_keyword (open? : Option Passage) (rest : List Char) :
    Passage.readLine open? (structKeyword ++ rest) = Passage.readHead rest := by
  simp only [Passage.readLine, afterPrefix?_append]

namespace BlankLine

theorem uncommented (l : BlankLine) : Uncommented l.blanks l.note :=
  not_slashes_append (not_mem_of_allBlank l.blanks_blank.1 (by decide))
    (not_slashes_noteSlash l.note)

theorem trim_blanks (l : BlankLine) : trim l.blanks = [] := by
  rw [trim, trimStart_of_allBlank l.blanks_blank.1]
  rfl

end BlankLine

/-- Lines without code are passed over. -/
theorem passagesIn_blankLines (ls : List BlankLine) (open? : Option Passage) (rest : List Char) :
    passagesIn open? (endedLines (ls.map (·.text)) ++ rest) = passagesIn open? rest := by
  induction ls with
  | nil => rfl
  | cons l ls ih =>
      have htext : endedLines ((l :: ls).map (·.text)) ++ rest =
          l.blanks ++ (noteText l.note ++
            '\n' :: (endedLines (ls.map (·.text)) ++ rest)) := by
        simp [endedLines, BlankLine.text]
      rw [htext, passagesIn_line l.uncommented l.blanks_blank.2, l.trim_blanks,
        Passage.readLine_nil, ih]
      rfl

/-- After a line that leaves no struct open, lines without code add none. -/
theorem passagesIn_closing {code : List Char} {note : Option Note}
    (huncommented : Uncommented code note) (hline : '\n' ∉ code) {open? ended : Option Passage}
    (hread : Passage.readLine open? (trim code) = (ended, none)) (after : List BlankLine) :
    passagesIn open? (code ++ (noteText note ++ after.flatMap fun l => '\n' :: l.text)) =
      ended.toList := by
  induction after generalizing code note open? ended with
  | nil =>
      rw [List.flatMap_nil, List.append_nil, passagesIn_end huncommented hline, hread]
  | cons l after ih =>
      have hblank : Passage.readLine none (trim l.blanks) = (none, none) := by
        rw [l.trim_blanks, Passage.readLine_nil]
      rw [List.flatMap_cons, List.cons_append, passagesIn_line huncommented hline, hread,
        BlankLine.text, List.append_assoc, ih l.uncommented l.blanks_blank.2 hblank]
      exact List.append_nil _

/-! ### Reading a body -/

namespace Passage

variable (p : Passage)

theorem readBody_trim (text : List Char) : p.readBody (trim text) = p.readBody text := by
  have hextend {a b : List Char} (h : trim a = trim b) : p.extend a = p.extend b := by
    rw [extend, extend, ← publicFields_trim a, h, publicFields_trim]
  by_cases hbrace : '\x7d' ∈ text
  · obtain ⟨inside, rest, rfl, hinside⟩ := List.eq_append_cons_of_mem hbrace
    have hstart : '\x7d' ∉ trimStart inside := fun h => hinside (mem_of_mem_trimStart h)
    rw [trim_append_of_not_blank (by decide), readBody, cutFirst?_append hstart, readBody,
      cutFirst?_append hinside]
    dsimp only
    rw [hextend (trim_trimStart inside)]
  · have htrim : '\x7d' ∉ trim text := fun h => hbrace (mem_of_mem_trim h)
    rw [readBody, cutFirst?_eq_none_iff.2 htrim, readBody, cutFirst?_eq_none_iff.2 hbrace]
    dsimp only
    rw [hextend (trim_trim text)]

theorem readBody_trimEnd (text : List Char) : p.readBody (trimEnd text) = p.readBody text := by
  rw [← readBody_trim, trim_trimEnd, readBody_trim]

theorem readBody_of_not_mem {text : List Char} (h : '\x7d' ∉ text) :
    p.readBody text = (none, some (p.extend text)) := by
  rw [readBody, cutFirst?_eq_none_iff.2 h]

theorem readBody_append {text : List Char} (h : '\x7d' ∉ text) (rest : List Char) :
    p.readBody (text ++ '\x7d' :: rest) = (some (p.extend text), none) := by
  rw [readBody, cutFirst?_append h]

end Passage

/-- What follows the parts of a line of the body: nothing, or the closing brace. -/
def IsBodyEnd (text : List Char) : Prop := text = [] ∨ ∃ rest, text = '\x7d' :: rest

/-- What follows `pre` on a line is read as if it followed `front` in the body of `p`. -/
structure ReadsAs (open? : Option Passage) (pre : List Char) (p : Passage) (front : List Char) :
    Prop where
  read : ∀ parts text, IsBodyEnd text →
    Passage.readLine open? (trim (pre ++ (partsText parts ++ text))) =
      p.readBody (front ++ (partsText parts ++ text))
  pre_plain : '/' ∉ pre ∧ '\n' ∉ pre
  front_plain : '\x7d' ∉ front

theorem structKeyword_not_isPrefix_parts (parts : List Part) {text : List Char}
    (htext : IsBodyEnd text) : ¬structKeyword <+: trimStart (partsText parts ++ text) := by
  -- behind the blanks stands a field, a comma, a brace, or nothing
  have hcons {c : Char} (hc : isBlank c = false ∧ c ≠ 'p') (rest : List Char) :
      ¬structKeyword <+: trimStart (c :: rest) := by
    rw [trimStart_cons_of_not_blank hc.1]
    intro h
    exact hc.2 (List.cons_prefix_cons.1 h).1.symm
  have hend : ¬structKeyword <+: trimStart text := by
    rcases htext with rfl | ⟨rest, rfl⟩
    · decide
    · exact hcons (by decide) rest
  cases parts with
  | nil => exact hend
  | cons part parts =>
      obtain ⟨rest, hrest, hnot⟩ : ∃ rest,
          partsText (part :: parts) ++ text = part.text ++ rest ∧
            ¬structKeyword <+: trimStart rest := by
        rw [partsText_cons]
        split
        · exact ⟨text, by simp, hend⟩
        · exact ⟨',' :: (partsText parts ++ text), by simp, hcons (by decide) _⟩
      rw [hrest, Part.text, List.append_assoc, trimStart_append_of_allBlank part.lead_blank.1]
      cases part.field with
      | none => exact hnot
      | some f =>
          rw [Option.map_some, Option.getD_some, WrittenField.text, List.append_assoc,
            List.append_assoc, List.cons_append,
            show fieldKeyword = 'p' :: "ub ".toList from rfl, List.cons_append,
            trimStart_cons_of_not_blank (by decide)]
          exact f.structKeyword_not_isPrefix _

/-- A line of the body of an open struct. -/
theorem readsAs_body (p : Passage) : ReadsAs (some p) [] p [] where
  read parts text htext := by
    have hnone : afterPrefix? structKeyword (trim (partsText parts ++ text)) = none := by
      apply afterPrefix?_eq_none
      intro h
      exact structKeyword_not_isPrefix_parts parts htext (h.trans (trimEnd_isPrefix _))
    rw [List.nil_append, Passage.readLine, hnone]
    exact p.readBody_trim _
  pre_plain := by decide
  front_plain := by decide

/-- The line of an opening brace behind that of the name. -/
theorem readsAs_brace {indent : List Char} (hindent : IsSpacing indent) (p : Passage) :
    ReadsAs (some p) (indent ++ ['\x7b']) p ['\x7b'] where
  read parts text _ := by
    have htrim : trim (indent ++ '\x7b' :: (partsText parts ++ text)) =
        '\x7b' :: trimEnd (partsText parts ++ text) := by
      rw [trim_append_of_not_blank (by decide), trimStart_of_allBlank hindent.1]
      rfl
    rw [List.append_assoc, List.singleton_append, htrim]
    show p.readBody _ = _
    rw [← trimEnd_cons_of_not_blank (by decide), p.readBody_trimEnd]
  pre_plain := by
    have hslash : '/' ∉ indent := not_mem_of_allBlank hindent.1 (by decide)
    simp [hslash, hindent.2]
  front_plain := by decide

namespace Layout

variable (l : Layout)

/-- The line of the name up to the name itself. -/
def front : List Char := l.indent ++ (structKeyword ++ l.name)

theorem front_plain : '/' ∉ l.front ∧ '\n' ∉ l.front := by
  have hkeyword : '/' ∉ structKeyword ∧ '\n' ∉ structKeyword := by decide
  have hslash : '/' ∉ l.indent := not_mem_of_allBlank l.indent_blank.1 (by decide)
  have hname : '/' ∉ l.name ∧ '\n' ∉ l.name := by
    refine ⟨fun h => (l.name_spelled.2 _ h).2 rfl, fun h => ?_⟩
    have := (l.name_spelled.2 _ h).1
    simp [endsName, isBlank, blanks] at this
  simp [front, hkeyword, hslash, hname, l.indent_blank.2]

/-- The struct as it is open behind its name. -/
def opened : Passage := { name := String.ofList l.name }

theorem trimStart_front (rest : List Char) :
    trimStart (l.front ++ rest) = structKeyword ++ (l.name ++ rest) := by
  rw [front, List.append_assoc, List.append_assoc, trimStart_append_of_allBlank l.indent_blank.1]
  rfl

theorem structName_append {rest : List Char} (h : ∀ c ∈ rest.head?, endsName c = true) :
    structName (l.name ++ rest) = l.name := by
  have hname : ∀ c ∈ l.name, (!endsName c) = true := fun c hc => by
    simp [(l.name_spelled.2 c hc).1]
  rw [structName, List.takeWhile_append_of_pos hname]
  cases rest with
  | nil => simp
  | cons c rest => simp [h c rfl]

/-- A brace on the line of the name opens the body. -/
theorem readsAs_front {gap : List Char} (hgap : IsSpacing gap) (open? : Option Passage) :
    ReadsAs open? (l.front ++ (gap ++ ['\x7b'])) l.opened [] where
  read parts text _ := by
    have hline : l.front ++ (gap ++ ['\x7b']) ++ (partsText parts ++ text) =
        (l.front ++ gap) ++ '\x7b' :: (partsText parts ++ text) := by simp
    have hname : structName (l.name ++ (gap ++ '\x7b' :: trimEnd (partsText parts ++ text))) =
        l.name := by
      apply l.structName_append
      cases gap with
      | nil => simp [endsName]
      | cons c gap => simp [endsName, hgap.1 c (by simp)]
    have hbrace : '\x7b' ∉ l.name ++ gap := by
      have hgapBrace : '\x7b' ∉ gap := not_mem_of_allBlank hgap.1 (by decide)
      have hnameBrace : '\x7b' ∉ l.name := fun h => by
        have := (l.name_spelled.2 _ h).1
        simp [endsName] at this
      simp [hgapBrace, hnameBrace]
    rw [hline, trim_append_of_not_blank (by decide), trimStart_front, List.append_assoc,
      List.append_assoc, Passage.readLine_keyword, Passage.readHead, hname, ← List.append_assoc,
      cutFirst?_append hbrace]
    simp [l.name_spelled.1, opened, Passage.readBody_trimEnd]
  pre_plain := by
    have hslash : '/' ∉ gap := not_mem_of_allBlank hgap.1 (by decide)
    simp [l.front_plain, hslash, hgap.2]
  front_plain := by decide

/-- Without a brace on the line of the name, the struct stays open. -/
theorem readLine_front {gap : List Char} (hgap : IsSpacing gap) (open? : Option Passage) :
    Passage.readLine open? (trim (l.front ++ gap)) = (none, some l.opened) := by
  have hends (c : Char) (hc : c ∈ l.name) : isBlank c = false ∧ c ≠ '\x7b' ∧ c ≠ ';' := by
    have := (l.name_spelled.2 c hc).1
    simp only [endsName, Bool.or_eq_false_iff, decide_eq_false_iff_not] at this
    exact ⟨this.1.1.1.1, this.1.1.1.2, this.2⟩
  have htrim : trim (l.front ++ gap) = structKeyword ++ l.name := by
    have hlast := hends _ (List.getLast_mem l.name_spelled.1)
    have hkept := trimEnd_append_of_not_blank hlast.1 (structKeyword ++ l.name.dropLast) []
    rw [trimEnd_nil, List.append_assoc, List.dropLast_concat_getLast] at hkept
    have hstart := l.trimStart_front []
    rw [List.append_nil, List.append_nil] at hstart
    rw [trim_append_of_allBlank hgap.1, trim, hstart, hkept]
  have hname : structName (l.name ++ []) = l.name := l.structName_append (by simp)
  have hbrace : '\x7b' ∉ l.name := fun h => (hends _ h).2.1 rfl
  have hsemicolon : l.name.getLast? ≠ some ';' := fun h =>
    (hends _ (List.mem_of_getLast? h)).2.2 rfl
  rw [List.append_nil] at hname
  rw [htrim, Passage.readLine_keyword, Passage.readHead, cutFirst?_eq_none_iff.2 hbrace, hname]
  simp [l.name_spelled.1, hsemicolon, opened]

end Layout

/-! ### Reading a struct -/

namespace ReadsAs

variable {open? : Option Passage} {pre front : List Char} {p : Passage}

theorem uncommented_line (h : ReadsAs open? pre p front) (line : BodyLine) :
    Uncommented (pre ++ partsText line.parts) line.note := by
  refine Uncommented.prepend ?_ h.pre_plain.1
  have hplain := (plain_partsText line.parts).2.2
  cases hnote : line.note with
  | none => simpa [Uncommented, noteSlash] using hplain
  | some note =>
      -- the comment does not stand directly behind a slash
      have hapart := line.note_apart (by simp [hnote])
      rcases List.eq_nil_or_concat (partsText line.parts) with hnil | ⟨init, c, hinit⟩
      · rw [hnil]
        exact not_slashes_noteSlash (some note)
      · rw [List.concat_eq_append] at hinit
        rw [hinit] at hapart hplain ⊢
        have hc : c ≠ '/' := by simpa using hapart
        have hinitPlain : ¬['/', '/'] <:+: init := fun hi =>
          hplain (hi.trans (List.prefix_append _ _).isInfix)
        rw [Uncommented, List.append_assoc, List.singleton_append]
        exact not_slashes_append_cons hc hinitPlain (not_slashes_noteSlash _)

/-- A line that ends in the body adds its fields. -/
theorem passagesIn_bodyLine (h : ReadsAs open? pre p front) (line : BodyLine) (rest : List Char) :
    passagesIn open? (pre ++ (line.text ++ '\n' :: rest)) =
      passagesIn (some (p.extend (front ++ partsText line.parts))) rest := by
  obtain ⟨hbrace, hfeed, -⟩ := plain_partsText line.parts
  have hline : '\n' ∉ pre ++ partsText line.parts := by simp [hfeed, h.pre_plain.2]
  have hread : Passage.readLine open? (trim (pre ++ partsText line.parts)) =
      (none, some (p.extend (front ++ partsText line.parts))) := by
    have hfront : '\x7d' ∉ front ++ partsText line.parts := by simp [hbrace, h.front_plain]
    have hparts := h.read line.parts [] (.inl rfl)
    rwa [List.append_nil, p.readBody_of_not_mem hfront] at hparts
  rw [BodyLine.text, List.append_assoc, ← List.append_assoc,
    passagesIn_line (h.uncommented_line line) hline, hread]
  rfl

/-- The line of the closing brace adds its fields, and ends the struct. -/
theorem passagesIn_lastLine (h : ReadsAs open? pre p front) (last : List Part) (trail : BlankLine)
    (after : List BlankLine) :
    passagesIn open? (pre ++ (partsText last ++
        '\x7d' :: (trail.text ++ after.flatMap fun b => '\n' :: b.text))) =
      [p.extend (front ++ partsText last)] := by
  obtain ⟨hbrace, hfeed, hslashes⟩ := plain_partsText last
  have hline : '\n' ∉ pre ++ (partsText last ++ '\x7d' :: trail.blanks) := by
    simp [hfeed, h.pre_plain.2, trail.blanks_blank.2]
  have huncommented :
      Uncommented (pre ++ (partsText last ++ '\x7d' :: trail.blanks)) trail.note := by
    refine Uncommented.prepend ?_ h.pre_plain.1
    rw [Uncommented, List.append_assoc]
    exact not_slashes_append_cons (by decide) hslashes trail.uncommented
  have hread : Passage.readLine open? (trim (pre ++ (partsText last ++ '\x7d' :: trail.blanks))) =
      (some (p.extend (front ++ partsText last)), none) := by
    have hfront : '\x7d' ∉ front ++ partsText last := by simp [hbrace, h.front_plain]
    rw [h.read last _ (.inr ⟨_, rfl⟩), ← List.append_assoc, p.readBody_append hfront]
  have htext : pre ++ (partsText last ++
        '\x7d' :: (trail.text ++ after.flatMap fun b => '\n' :: b.text)) =
      (pre ++ (partsText last ++ '\x7d' :: trail.blanks)) ++
        (noteText trail.note ++ after.flatMap fun b => '\n' :: b.text) := by
    simp [BlankLine.text]
  rw [htext, passagesIn_closing huncommented hline hread]
  rfl

end ReadsAs

/-- The lines of the body that follow add their fields. -/
theorem passagesIn_bodyText (p : Passage) (body : List BodyLine) (last : List Part)
    (trail : BlankLine) (after : List BlankLine) :
    passagesIn (some p) (Layout.bodyText body last trail after) =
      [{ p with declared :=
          p.declared ++ (fieldsOf (body.flatMap (·.parts) ++ last)).map (·.entry) }] := by
  induction body generalizing p with
  | nil =>
      have h := (readsAs_body p).passagesIn_lastLine last trail after
      rwa [List.nil_append, List.nil_append, Passage.extend, publicFields_partsText] at h
  | cons line body ih =>
      have htext : Layout.bodyText (line :: body) last trail after =
          [] ++ (line.text ++ '\n' :: Layout.bodyText body last trail after) := by
        simp [Layout.bodyText, endedLines]
      rw [htext, (readsAs_body p).passagesIn_bodyLine, ih, List.nil_append, Passage.extend,
        publicFields_partsText, List.flatMap_cons, List.append_assoc line.parts,
        fieldsOf_append line.parts, List.map_append, List.append_assoc]

/-- What follows the opening brace adds the fields of its own line and those of the other lines. -/
theorem ReadsAs.passagesIn_bodyText {open? : Option Passage} {pre front : List Char} {p : Passage}
    (h : ReadsAs open? pre p front) (l : Layout) :
    passagesIn open? (pre ++ Layout.bodyText l.body l.last l.trail l.after) =
      [{ p with declared := p.declared ++ (publicFields (front ++ partsText l.firstParts) ++
          (fieldsOf l.laterParts).map (·.entry)) }] := by
  rw [Layout.firstParts, Layout.laterParts]
  cases l.body with
  | nil =>
      have hlast := h.passagesIn_lastLine l.last l.trail l.after
      rw [Passage.extend] at hlast
      simpa [Layout.bodyText, endedLines, fieldsOf] using hlast
  | cons line body =>
      have htext : Layout.bodyText (line :: body) l.last l.trail l.after =
          line.text ++ '\n' :: Layout.bodyText body l.last l.trail l.after := by
        simp [Layout.bodyText, endedLines]
      rw [htext, h.passagesIn_bodyLine, Override.passagesIn_bodyText, Passage.extend,
        List.append_assoc]

/-- A script with one struct is read as one struct, with all the fields but the hidden one. -/
theorem Layout.passages_script (l : Layout) :
    passages l.script =
      [{ name := String.ofList l.name, declared := l.seen.map (·.entry) }] := by
  have hpassages : passages l.script = passagesIn none l.text := by
    rw [passages, script, String.toList_ofList, passagesIn]
  have hseen {front : List Char}
      (h : publicFields (front ++ partsText l.firstParts) ++
          (fieldsOf l.laterParts).map (·.entry) = l.seen.map (·.entry)) :
      ({ l.opened with declared := l.opened.declared ++
          (publicFields (front ++ partsText l.firstParts) ++
            (fieldsOf l.laterParts).map (·.entry)) } : Passage) =
        { name := String.ofList l.name, declared := l.seen.map (·.entry) } := by
    rw [h]
    rfl
  rw [hpassages, text, passagesIn_blankLines]
  cases hopening : l.opening with
  | nil =>
      have htext : l.indent ++ (structKeyword ++ (l.name ++ (endedLines ([].map BlankLine.text) ++
          (l.braceIndent ++ '\x7b' :: bodyText l.body l.last l.trail l.after)))) =
          (l.front ++ (l.braceIndent ++ ['\x7b'])) ++
            bodyText l.body l.last l.trail l.after := by
        simp [front, endedLines]
      rw [htext, (l.readsAs_front l.braceIndent_blank none).passagesIn_bodyText, hseen]
      rw [List.nil_append, publicFields_partsText, ← List.map_append, ← fieldsOf_append, seen,
        hopening]
      rfl
  | cons line opening =>
      have htext : l.indent ++ (structKeyword ++ (l.name ++
          (endedLines ((line :: opening).map BlankLine.text) ++
            (l.braceIndent ++ '\x7b' :: bodyText l.body l.last l.trail l.after)))) =
          (l.front ++ line.blanks) ++ (noteText line.note ++ '\n' ::
            (endedLines (opening.map BlankLine.text) ++
              ((l.braceIndent ++ ['\x7b']) ++ bodyText l.body l.last l.trail l.after))) := by
        simp [front, endedLines, BlankLine.text]
      have hline : '\n' ∉ l.front ++ line.blanks := by
        simp [l.front_plain.2, line.blanks_blank.2]
      rw [htext, passagesIn_line (line.uncommented.prepend l.front_plain.1) hline,
        l.readLine_front line.blanks_blank, passagesIn_blankLines,
        (readsAs_brace l.braceIndent_blank l.opened).passagesIn_bodyText, hseen]
      · rfl
      · rw [List.singleton_append, publicFields_brace, ← List.map_append, ← fieldsOf_append, seen,
          hopening]
        rfl

/-! ### Layouts of one struct -/

/-- The block of a struct with these fields. -/
def blockOf (name : List Char) (fields : List WrittenField) : Block where
  name := String.ofList name
  fields := NameMap.ofList (fields.map (·.entry))

theorem Layout.blocks_script {l : Layout} (h : l.hidden = none) :
    blocks l.script = [blockOf l.name l.fields] := by
  have hseen : l.seen = l.fields := by simp [l.fields_eq, h]
  rw [blocks_eq_map_passages, l.passages_script, hseen]
  rfl

/-- A block has its fields by their names alone. -/
theorem blockOf_congr {name : List Char} {fields others : List WrittenField}
    (h : fields.map (·.name) = others.map (·.name)) :
    blockOf name fields = blockOf name others := by
  have hentries (fs : List WrittenField) : fs.map (·.entry) =
      (fs.map (·.name)).map fun n => (Name.key (String.ofList n), String.ofList n) := by
    rw [List.map_map]
    rfl
  rw [blockOf, blockOf, hentries, hentries, h]

theorem exists_find?_key (name : List Char) {fields : List WrittenField} {f : WrittenField}
    (hf : f ∈ fields) :
    ∃ g ∈ fields,
      g.key = f.key ∧ (blockOf name fields).fields.find? f.key = some (String.ofList g.name) := by
  have hkey : f.key ∈ (fields.map (·.entry)).map (·.1) := by
    rw [List.map_map]
    exact List.mem_map_of_mem hf
  obtain ⟨declared, hlast⟩ := exists_isLast hkey
  obtain ⟨before, after, heq, -⟩ := id hlast
  obtain ⟨g, hg, hentry⟩ : ∃ g ∈ fields, g.entry = (f.key, declared) := by
    rw [← List.mem_map, heq]
    simp
  obtain ⟨hgkey, rfl⟩ := Prod.mk.inj hentry
  exact ⟨g, hg, hgkey, NameMap.find?_ofList.2 hlast⟩

theorem exists_key_eq {name : List Char} {fields : List WrittenField} {key : String}
    (hkey : key ∈ (blockOf name fields).fields.names) : ∃ f ∈ fields, f.key = key := by
  rw [blockOf, NameMap.mem_names_ofList, List.map_map] at hkey
  exact List.mem_map.1 hkey

/-- Whatever lines a struct is spread over, it is read as one block of its name with the keys of its
fields, each with a name as declared, and it gets the verdict of every other layout of it. A field
directly behind a brace that opens on a later line than the name is the exception. -/
theorem blocks_layout (l : Layout) (h : l.hidden = none) :
    (∃ b, blocks l.script = [b] ∧ b.name = String.ofList l.name ∧
      (∀ f ∈ l.fields, ∃ g ∈ l.fields,
        g.key = f.key ∧ b.fields.find? f.key = some (String.ofList g.name)) ∧
      ∀ key ∈ b.fields.names, ∃ f ∈ l.fields, f.key = key) ∧
    ∀ other : Layout, other.hidden = none → other.name = l.name →
      other.fields.map (·.name) = l.fields.map (·.name) →
        ∀ {m : Type → Type} [Monad m] (notify : Event → m Unit) (index : HeaderIndex)
          (label : String), checkScript notify index other.script label =
            checkScript notify index l.script label := by
  constructor
  · refine ⟨blockOf l.name l.fields, Layout.blocks_script h, rfl, ?_, ?_⟩
    · intro f hf
      exact exists_find?_key l.name hf
    · intro key hkey
      exact exists_key_eq hkey
  · intro other hother hname hfields m _ notify index label
    rw [checkScript, checkScript, Layout.blocks_script h, Layout.blocks_script hother, hname,
      blockOf_congr hfields]

/-- The field directly behind a brace on a later line than the name is lost. -/
theorem blocks_late_brace :
    blocks "pub struct P\n\x7b pub x: u32 \x7d\n" = [{ name := "P", fields := .empty }] := by
  decide +kernel

/-! A struct with its brace on a later line, two fields on one line and a comma on a line of its
own, and the same struct on one line. -/

def widthField : WrittenField where
  gap := []
  name := "width".toList
  nameGap := []
  type := " u32".toList
  gap_blank := by decide
  name_spelled := by decide
  nameGap_blank := by decide
  type_nested := by decide
  type_plain := by decide
  type_uncommented := not_slashes_of_not_mem (by decide)

def heightField : WrittenField where
  gap := []
  name := "h_eight".toList
  nameGap := []
  type := " Option<(u8, u8)> ".toList
  gap_blank := by decide
  name_spelled := by decide
  nameGap_blank := by decide
  type_nested := by decide
  type_plain := by decide
  type_uncommented := not_slashes_of_not_mem (by decide)

def fieldPart (lead : String) (f : WrittenField) (h : IsSpacing lead.toList := by decide) :
    Part where
  lead := lead.toList
  field := some f
  lead_blank := h

def blankPart (lead : String) (h : IsSpacing lead.toList := by decide) : Part where
  lead := lead.toList
  field := none
  lead_blank := h

def blankLine (blanks : String) (h : IsSpacing blanks.toList := by decide) : BlankLine where
  blanks := blanks.toList
  note := none
  blanks_blank := h

def extentLayout : Layout where
  before := []
  indent := []
  name := "Extent".toList
  opening := [{ blankLine " " with note := some { body := " size".toList, unbroken := by decide } }]
  braceIndent := []
  body :=
    [{ parts := [blankPart ""], note := none, note_apart := nofun },
     { parts := [fieldPart "  " widthField, fieldPart " " heightField], note := none,
       note_apart := nofun }]
  last := [blankPart "  ", blankPart " "]
  trail := blankLine ""
  after := [blankLine ""]
  indent_blank := by decide
  name_spelled := by decide
  braceIndent_blank := by decide

def extentLine : Layout where
  before := []
  indent := []
  name := "Extent".toList
  opening := []
  braceIndent := " ".toList
  body := []
  last := [fieldPart " " widthField, fieldPart " " heightField]
  trail := blankLine ""
  after := []
  indent_blank := by decide
  name_spelled := by decide
  braceIndent_blank := by decide

theorem blocks_layout_extent :
    (∃ b, blocks ("pub struct Extent // size\n\x7b\n" ++
          "  pub width: u32, pub h_eight: Option<(u8, u8)> \n  , \x7d\n") = [b] ∧
      b.name = "Extent" ∧ ∀ key ∈ b.fields.names, key = "width" ∨ key = "height") ∧
    checkScript (m := Id) (fun _ => ()) {} ("pub struct Extent // size\n\x7b\n" ++
        "  pub width: u32, pub h_eight: Option<(u8, u8)> \n  , \x7d\n") "build.rs" =
      checkScript (m := Id) (fun _ => ()) {}
        "pub struct Extent \x7b pub width: u32, pub h_eight: Option<(u8, u8)> \x7d" "build.rs" := by
  have hscript : extentLayout.script = "pub struct Extent // size\n\x7b\n" ++
      "  pub width: u32, pub h_eight: Option<(u8, u8)> \n  , \x7d\n" := by decide +kernel
  have hline : extentLine.script =
      "pub struct Extent \x7b pub width: u32, pub h_eight: Option<(u8, u8)> \x7d" := by
    decide +kernel
  have hkeys : ∀ f ∈ extentLayout.fields, f.key = "width" ∨ f.key = "height" := by decide +kernel
  obtain ⟨⟨b, hb, hname, -, hnames⟩, hsame⟩ := blocks_layout extentLayout rfl
  rw [← hscript, ← hline]
  refine ⟨⟨b, hb, hname, fun key hkey => ?_⟩, (hsame extentLine rfl rfl rfl _ _ _).symm⟩
  obtain ⟨f, hf, rfl⟩ := hnames key hkey
  exact hkeys f hf

end HeaderAccord.Override
