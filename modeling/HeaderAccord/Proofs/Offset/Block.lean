import HeaderAccord.Override.Block
import HeaderAccord.Proofs.Bracket.Split
import HeaderAccord.Proofs.Offset.Slice

/-!
Lists and blocks by offsets. A list is cut at its commas by one pass over the text that keeps the
offset at which the current part starts; that offset and the one of the next comma are seams of the
text, as is the start of the last part. The lines of a script are cut at the first brace of either
kind, and at the end of a name.
-/

namespace HeaderAccord.Offset

open String (utf8Len)
open HeaderAccord.Bracket

/-! ### Lists between commas -/

/-- Passes over a text with the offsets at which the current part starts and the next character
stands: the parts that end at a comma, and where the last part starts. -/
def partsAt? (text : List Char) : (depth : Int) → (start offset : Nat) → (before : Char) →
    List Char → Option (List (List Char) × Nat)
  | _, start, _, _, [] => some ([], start)
  | depth, start, offset, before, c :: cs =>
    if c = ',' && depth = 0 then do
      let part ← slice? text start offset
      let (parts, last) ← partsAt? text depth (offset + 1) (offset + c.utf8Size) c cs
      return (Text.trim part :: parts, last)
    else partsAt? text (depth + depthChange before c) start (offset + c.utf8Size) c cs

/-- The trimmed parts of a list; the last one counts if it is not blank or there are others. -/
def splitTopLevelAt? (text : List Char) : Option (List (List Char)) := do
  let (parts, last) ← partsAt? text 0 0 0 '\x00' text
  let tail := Text.trim (← sliceFrom? text last)
  return if !tail.isEmpty || !parts.isEmpty then parts ++ [tail] else parts

/-- With the front of a part and what follows it to be passed over, the parts are those of
`cutAtCommas`. -/
theorem exists_partsAt? (done front cs : List Char) (depth : Int) (before : Char) :
    ∃ parts last tail,
      partsAt? (done ++ (front ++ cs)) depth (utf8Len done) (utf8Len (done ++ front)) before cs =
        some (parts, last) ∧
      sliceFrom? (done ++ (front ++ cs)) last = some tail ∧
      parts ++ [Text.trim tail] = (prepend front (cutAtCommas depth before cs)).map Text.trim := by
  induction cs generalizing done front depth before with
  | nil =>
      refine ⟨[], utf8Len done, front, rfl, ?_, by simp [cutAtCommas, prepend]⟩
      rw [List.append_nil, sliceFrom?_append]
  | cons c cs ih =>
      by_cases hcomma : c = ',' ∧ depth = 0
      · -- the next part starts one byte behind the comma
        obtain ⟨rfl, rfl⟩ := hcomma
        have hsize : (',' : Char).utf8Size = 1 := by decide
        obtain ⟨parts, last, tail, hparts, htail, heq⟩ := ih (done ++ (front ++ [','])) [] 0 ','
        have hseam : done ++ (front ++ [',']) ++ ([] ++ cs) = done ++ (front ++ ',' :: cs) := by
          simp
        have hstart : utf8Len (done ++ front) + 1 = utf8Len (done ++ (front ++ [','])) := by
          simp [hsize, Nat.add_assoc]
        have hslice := slice?_append done front (',' :: cs)
        rw [hseam, List.append_nil] at hparts
        rw [hseam] at htail
        rw [← String.utf8Len_append] at hslice
        rw [prepend_nil (cutAtCommas_ne_nil _ _ _)] at heq
        refine ⟨Text.trim front :: parts, last, tail, ?_, htail, ?_⟩
        · rw [partsAt?, if_pos (by simp), hslice, hsize, hstart]
          simp only [Option.bind_eq_bind, Option.bind_some, Option.pure_def, hparts]
        · rw [cutAtCommas, if_pos (by simp), prepend, List.cons_append, heq]
          simp
      · obtain ⟨parts, last, tail, hparts, htail, heq⟩ :=
          ih done (front ++ [c]) (depth + depthChange before c) c
        have hseam : done ++ (front ++ [c] ++ cs) = done ++ (front ++ c :: cs) := by simp
        rw [hseam] at hparts htail
        refine ⟨parts, last, tail, ?_, htail, ?_⟩
        · rw [partsAt?, if_neg (by simpa using hcomma), ← hparts]
          simp [Nat.add_assoc]
        · rw [cutAtCommas_cons hcomma, heq]
          cases cutAtCommas (depth + depthChange before c) c cs <;> simp [prepend]

theorem splitTopLevelAt?_eq (text : List Char) :
    splitTopLevelAt? text = some (splitTopLevel text) := by
  obtain ⟨parts, last, tail, hparts, htail, heq⟩ := exists_partsAt? [] [] text 0 '\x00'
  rw [prepend_nil (cutAtCommas_ne_nil _ _ _)] at heq
  rw [List.nil_append, List.nil_append] at hparts htail
  have hpass : partsAt? text 0 0 0 '\x00' text = some (parts, last) := hparts
  rw [splitTopLevelAt?, splitTopLevel, ← heq, hpass]
  simp only [Option.bind_eq_bind, Option.bind_some, Option.pure_def, htail]
  cases parts with
  | nil => cases Text.trim tail <;> rfl
  | cons part parts => simp

/-! ### Blocks -/

section

open Override Text

/-- The name of a struct, cut off at the offset where it ends. -/
def structNameAt? (afterKeyword : List Char) : Option (List Char) :=
  slice? afterKeyword 0 ((findChar? endsName afterKeyword).getD (utf8Len afterKeyword))

def addFieldsAt? (b : Block) (text : List Char) : Option Block := do
  let entries ← splitTopLevelAt? text
  return { b with fields := b.fields.insertAll (entries.filterMap publicField?) }

/-- Reads the part of a line that lies in the body of a block. -/
def readBodyAt? (b : Block) (body : List Char) : Option (Option Block × Option Block) := do
  match findChar? (· = '}') body with
  | some close => return (some (← addFieldsAt? b (← slice? body 0 close)), none)
  | none => return (none, some (← addFieldsAt? b body))

/-- Reads what follows `pub struct ` on a line. -/
def readHeadAt? (afterKeyword : List Char) : Option (Option Block × Option Block) := do
  let name ← structNameAt? afterKeyword
  let brace := findChar? (· = '{') afterKeyword
  if name.isEmpty || (brace.isNone && afterKeyword.getLast? = some ';') then return (none, none)
  else
    let body ← match brace with
      | some brace => sliceFrom? afterKeyword (brace + 1)
      | none => some []
    readBodyAt? { name := String.ofList name, fields := .empty } body

def readLineAt? (open? : Option Block) (code : List Char) :
    Option (Option Block × Option Block) :=
  match afterPrefix? structKeyword code with
  | some afterKeyword => readHeadAt? afterKeyword
  | none =>
    match open? with
    | some b => readBodyAt? b code
    | none => some (none, none)

def blocksAt? : (open? : Option Block) → List (List Char) → Option (List Block)
  | _, [] => some []
  | open?, line :: rest => do
    let (ended, stillOpen) ← readLineAt? open? (codeOf line)
    let blocks ← blocksAt? stillOpen rest
    return ended.toList ++ blocks

theorem structNameAt?_eq (afterKeyword : List Char) :
    structNameAt? afterKeyword = some (structName afterKeyword) := by
  rw [structNameAt?, findChar?_getD, slice?_takeWhile]
  rfl

theorem addFieldsAt?_eq (b : Block) (text : List Char) :
    addFieldsAt? b text = some (b.addFields text) := by
  rw [addFieldsAt?, splitTopLevelAt?_eq]
  rfl

theorem readBodyAt?_eq (b : Block) (body : List Char) :
    readBodyAt? b body = some (readBody b body) := by
  rw [readBodyAt?, readBody, findChar?_eq]
  cases hclose : cutFirst? '}' body with
  | none => simp [addFieldsAt?_eq]
  | some p =>
      obtain ⟨inside, after⟩ := p
      have hslice : slice? body 0 (utf8Len inside) = some inside := by
        rw [cutFirst?_eq_some hclose]
        simpa using slice?_append [] inside ('}' :: after)
      simp [hslice, addFieldsAt?_eq]

theorem addFields_nil (b : Block) : b.addFields [] = b := rfl

theorem readHeadAt?_eq (afterKeyword : List Char) :
    readHeadAt? afterKeyword = some (readHead afterKeyword) := by
  rw [readHeadAt?, readHead, structNameAt?_eq, findChar?_eq]
  simp only [Option.bind_eq_bind, Option.bind_some, Option.pure_def]
  cases hbrace : cutFirst? '{' afterKeyword with
  | none =>
      simp only [Option.map_none, Option.isNone_none, Bool.true_and]
      split
      · rfl
      · rw [readBodyAt?_eq, readBody, cutFirst?, addFields_nil]
  | some p =>
      obtain ⟨before, body⟩ := p
      have hslice : sliceFrom? afterKeyword (utf8Len before + 1) = some body := by
        have hsize : ('{' : Char).utf8Size = 1 := by decide
        refine sliceFrom?_eq_some_iff.2 ⟨before ++ ['{'], ?_, by simp [hsize]⟩
        simp [cutFirst?_eq_some hbrace]
      simp only [Option.map_some, Option.isNone_some, Bool.false_and, Bool.or_false, hslice,
        Option.bind_some, readBodyAt?_eq]
      split <;> rfl

theorem readLineAt?_eq (open? : Option Block) (code : List Char) :
    readLineAt? open? code = some (readLine open? code) := by
  simp only [readLineAt?, readLine]
  cases afterPrefix? structKeyword code with
  | some afterKeyword => exact readHeadAt?_eq afterKeyword
  | none =>
      cases open? with
      | some b => exact readBodyAt?_eq b code
      | none => rfl

/-- The collection of the blocks runs to the end of any lines. -/
theorem blocksAt?_eq (open? : Option Block) (lines : List (List Char)) :
    blocksAt? open? lines = some (blocksFrom open? lines) := by
  induction lines generalizing open? with
  | nil => rfl
  | cons line rest ih =>
      rw [blocksAt?, readLineAt?_eq, Option.bind_eq_bind, Option.bind_some, blocksFrom]
      simp [ih]

end

end HeaderAccord.Offset
