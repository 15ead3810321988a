import HeaderAccord.Override.Block
import HeaderAccord.Proofs.Bracket

/-!
Fields as they are written. A line of a struct is cut at its commas; what stands between two of them
is a field `pub name: type` with blanks between its tokens, or nothing. The fields are read back in
order, unless an opening brace is in front of the first one.
-/

namespace HeaderAccord.Override

open Text HeaderAccord.Bracket

/-! ### Slashes -/

theorem not_slashes_of_not_mem {cs : List Char} (h : '/' ∉ cs) : ¬['/', '/'] <:+: cs :=
  fun hi => h (hi.subset (by simp))

theorem not_slashes_append {a b : List Char} (ha : '/' ∉ a) (hb : ¬['/', '/'] <:+: b) :
    ¬['/', '/'] <:+: a ++ b := by
  induction a with
  | nil => exact hb
  | cons c a ih =>
      rw [List.mem_cons, not_or] at ha
      intro h
      rcases List.infix_cons_iff.1 h with h | h
      · exact ha.1 (List.cons_prefix_cons.1 h).1
      · exact ih ha.2 h

/-- Slashes on different sides of another character do not meet. -/
theorem not_slashes_append_cons {a b : List Char} {c : Char} (hc : c ≠ '/')
    (ha : ¬['/', '/'] <:+: a) (hb : ¬['/', '/'] <:+: b) : ¬['/', '/'] <:+: a ++ c :: b := by
  intro h
  rcases infix_or_infix_of_append_cons (by simpa using hc) h with h | h
  · exact ha h
  · exact hb h

/-! ### Fields and lists of them -/

/-- Blanks on one line. -/
def IsSpacing (g : List Char) : Prop := AllBlank g ∧ '\n' ∉ g

instance (g : List Char) : Decidable (IsSpacing g) :=
  inferInstanceAs (Decidable (AllBlank g ∧ '\n' ∉ g))

theorem isSpacing_nil : IsSpacing [] := ⟨allBlank_nil, List.not_mem_nil⟩

/-- A character that may stand in front of the colon of a field: no bracket, comma, colon, slash or
closing brace. -/
def IsFront (c : Char) : Prop := IsPlain c ∧ c ≠ ':' ∧ c ≠ '/' ∧ c ≠ '\x7d'

instance (c : Char) : Decidable (IsFront c) :=
  inferInstanceAs (Decidable (IsPlain c ∧ c ≠ ':' ∧ c ≠ '/' ∧ c ≠ '\x7d'))

/-- The spelling of a field's name: a word of such characters that is not the keyword `struct`. -/
def IsFieldName (name : List Char) : Prop :=
  IsWord name ∧ (∀ c ∈ name, IsFront c) ∧ name ≠ "struct".toList

instance (name : List Char) : Decidable (IsFieldName name) :=
  decidable_of_iff
    (IsWord name ∧ name.all (fun c => IsFront c) = true ∧ name ≠ "struct".toList)
    (by simp [IsFieldName])

/-- A field `pub name: type`. The blanks on both sides of the type belong to it. -/
structure WrittenField where
  /-- blanks after the one behind `pub` -/
  gap : List Char
  name : List Char
  nameGap : List Char
  type : List Char
  gap_blank : IsSpacing gap
  name_spelled : IsFieldName name
  nameGap_blank : IsSpacing nameGap
  type_nested : Nested type
  type_plain : '\x7d' ∉ type ∧ '\n' ∉ type
  type_uncommented : ¬['/', '/'] <:+: type

namespace WrittenField

/-- The part in front of the colon, without `pub` and the blank behind it. -/
def pattern (f : WrittenField) : List Char := f.gap ++ (f.name ++ f.nameGap)

def text (f : WrittenField) : List Char := fieldKeyword ++ (f.pattern ++ ':' :: f.type)

def key (f : WrittenField) : String := Name.key (String.ofList f.name)

/-- The key of the field with its name as declared. -/
def entry (f : WrittenField) : String × String := (f.key, String.ofList f.name)

end WrittenField

/-- What stands between two commas of a line: a field, or blanks. -/
structure Part where
  lead : List Char
  field : Option WrittenField
  lead_blank : IsSpacing lead

def Part.text (part : Part) : List Char := part.lead ++ (part.field.map (·.text)).getD []

def partsText (parts : List Part) : List Char := [','].intercalate (parts.map (·.text))

def fieldsOf (parts : List Part) : List WrittenField := parts.filterMap (·.field)

theorem fieldsOf_append (parts more : List Part) :
    fieldsOf (parts ++ more) = fieldsOf parts ++ fieldsOf more := List.filterMap_append

/-! ### Reading parts -/

theorem publicFields_trim (text : List Char) : publicFields (trim text) = publicFields text := by
  rw [publicFields, splitTopLevel_trim, publicFields]

/-- Nested parts between commas are read one by one. -/
theorem publicFields_intercalate {parts : List (List Char)} (h : ∀ p ∈ parts, Nested p) :
    publicFields ([','].intercalate parts) = (parts.map trim).filterMap publicField? := by
  cases parts with
  | nil => rfl
  | cons p ps =>
      rw [publicFields, splitTopLevel, cutAtCommas_intercalate (by simp) (by decide) h]
      split
      · next hblank =>
        rw [hblank]
        rfl
      · rfl

theorem isFront_of_isBlank {c : Char} (hc : isBlank c = true) : IsFront c := by
  apply of_isBlank _ hc
  decide

namespace WrittenField

variable (f : WrittenField)

theorem isFront_of_mem {c : Char} (hc : c ∈ fieldKeyword ++ f.pattern) : IsFront c := by
  have hkeyword : fieldKeyword.all (fun c => IsFront c) = true := by decide
  simp only [pattern, List.mem_append] at hc
  rcases hc with h | h | h | h
  · exact of_decide_eq_true (List.all_eq_true.1 hkeyword c h)
  · exact isFront_of_isBlank (f.gap_blank.1 c h)
  · exact f.name_spelled.2.1 c h
  · exact isFront_of_isBlank (f.nameGap_blank.1 c h)

theorem text_eq : f.text = (fieldKeyword ++ f.pattern) ++ ':' :: f.type := by
  rw [text, List.append_assoc]

theorem trim_pattern : trim f.pattern = f.name := by
  have hname := f.name_spelled.1
  rw [pattern, trim, trimStart_append_of_allBlank f.gap_blank.1, trimStart_isWord_append hname,
    trimEnd_append_of_allBlank f.nameGap_blank.1]
  simpa using trimEnd_isWord_append hname.2 []

/-- A field is read as its key and its name, whatever blanks are in front of it. -/
theorem publicField?_text {lead : List Char} (hlead : AllBlank lead) :
    publicField? (trim (lead ++ f.text)) = some f.entry := by
  have hcolon : ∀ c ∈ f.pattern, decide (c ≠ ':') = true := fun c hc =>
    decide_eq_true (f.isFront_of_mem (List.mem_append_right _ hc)).2.1
  have htrim : trim (lead ++ f.text) = fieldKeyword ++ (f.pattern ++ ':' :: trimEnd f.type) := by
    rw [text_eq, ← List.append_assoc, trim_append_of_not_blank (by decide),
      trimStart_append_of_allBlank hlead, ← List.append_assoc]
    rfl
  have hbefore : beforeFirst ':' (f.pattern ++ ':' :: trimEnd f.type) = f.pattern := by
    rw [beforeFirst, List.takeWhile_append_of_pos hcolon]
    simp
  rw [publicField?, htrim, afterPrefix?_append]
  dsimp only
  rw [hbefore, trim_pattern]
  simp [f.name_spelled.1.1, entry, key, Name.key]

/-- A field is not taken for the beginning of a struct. -/
theorem structKeyword_not_isPrefix (rest : List Char) :
    ¬structKeyword <+: fieldKeyword ++ (f.pattern ++ ':' :: rest) := by
  have hkeyword : structKeyword = fieldKeyword ++ "struct ".toList := by decide
  rw [hkeyword, List.prefix_append_right_inj]
  rintro ⟨more, hmore⟩
  -- the first word behind `pub` ends at a blank or at the colon
  have hword := congrArg (List.takeWhile fun c => !isBlank c && decide (c ≠ ':')) hmore
  have hstruct : ("struct ".toList ++ more).takeWhile (fun c => !isBlank c && decide (c ≠ ':')) =
      "struct".toList := rfl
  rw [hstruct, pattern] at hword
  cases hgap : f.gap with
  | cons b gap =>
      have hb : isBlank b = true := f.gap_blank.1 b (by simp [hgap])
      rw [hgap] at hword
      simp [hb] at hword
  | nil =>
      have hname : ∀ c ∈ f.name, (!isBlank c && decide (c ≠ ':')) = true := fun c hc => by
        simp [f.name_spelled.1.2 c hc, (f.name_spelled.2.1 c hc).2.1]
      rw [hgap, List.nil_append, List.append_assoc, List.takeWhile_append_of_pos hname] at hword
      refine f.name_spelled.2.2 ?_
      cases hnameGap : f.nameGap with
      | nil => simpa [hnameGap] using hword.symm
      | cons b gap =>
          have hb : isBlank b = true := f.nameGap_blank.1 b (by simp [hnameGap])
          simpa [hnameGap, hb] using hword.symm

end WrittenField

namespace Part

variable (part : Part)

theorem nested_text : Nested part.text := by
  rw [text]
  cases part.field with
  | none => simpa using nested_of_allBlank part.lead_blank.1
  | some f =>
      have hfront : ∀ c ∈ part.lead ++ (fieldKeyword ++ f.pattern), IsPlain c := by
        intro c hc
        rcases List.mem_append.1 hc with hc | hc
        · exact (isFront_of_isBlank (part.lead_blank.1 c hc)).1
        · exact (f.isFront_of_mem hc).1
      rw [Option.map_some, Option.getD_some, f.text_eq, ← List.append_assoc,
        nested_append_cons_iff hfront (by decide)]
      exact f.type_nested

theorem publicField?_text : publicField? (trim part.text) = part.field.map (·.entry) := by
  rw [text]
  cases part.field with
  | none =>
      have hblank := trimStart_of_allBlank part.lead_blank.1
      simp [trim, hblank]
      rfl
  | some f => exact f.publicField?_text part.lead_blank.1

/-- A part stays on its line and in its block, and has no comment. -/
theorem plain_text :
    '\x7d' ∉ part.text ∧ '\n' ∉ part.text ∧ ¬['/', '/'] <:+: part.text := by
  obtain ⟨hblank, hline⟩ := part.lead_blank
  have hbrace : '\x7d' ∉ part.lead := not_mem_of_allBlank hblank (by decide)
  have hslash : '/' ∉ part.lead := not_mem_of_allBlank hblank (by decide)
  rw [text]
  cases part.field with
  | none => simpa [hbrace, hline] using not_slashes_of_not_mem hslash
  | some f =>
      have hfront (c : Char) (hc : ¬IsFront c) : c ∉ fieldKeyword ++ f.pattern :=
        fun h => hc (f.isFront_of_mem h)
      have hfeed : '\n' ∉ fieldKeyword ++ f.pattern := by
        have hkeyword : '\n' ∉ fieldKeyword := by decide
        have hname : '\n' ∉ f.name := fun h => by
          have := f.name_spelled.1.2 _ h
          simp [isBlank, blanks] at this
        simp [WrittenField.pattern, hkeyword, hname, f.gap_blank.2, f.nameGap_blank.2]
      rw [Option.map_some, Option.getD_some, f.text_eq]
      refine ⟨?_, ?_, ?_⟩
      · simpa [hbrace, f.type_plain.1] using hfront '\x7d' (by decide)
      · simpa [hline, f.type_plain.2] using hfeed
      · exact not_slashes_append hslash (not_slashes_append (hfront '/' (by decide))
          (not_slashes_append (a := [':']) (by decide) f.type_uncommented))

end Part

theorem partsText_cons (part : Part) (parts : List Part) :
    partsText (part :: parts) =
      part.text ++ if parts.isEmpty then [] else ',' :: partsText parts := by
  cases parts with
  | nil => simp [partsText]
  | cons next parts =>
      rw [partsText, List.map_cons, List.map_cons, List.intercalate_cons_cons, List.append_assoc]
      rfl

theorem plain_partsText (parts : List Part) :
    '\x7d' ∉ partsText parts ∧ '\n' ∉ partsText parts ∧ ¬['/', '/'] <:+: partsText parts := by
  induction parts with
  | nil => decide
  | cons part parts ih =>
      obtain ⟨hbrace, hline, hslashes⟩ := part.plain_text
      rw [partsText_cons]
      split
      · rw [List.append_nil]
        exact ⟨hbrace, hline, hslashes⟩
      · refine ⟨?_, ?_, not_slashes_append_cons (by decide) hslashes ih.2.2⟩
        · simp [hbrace, ih.1]
        · simp [hline, ih.2.1]

/-- The fields of the parts between commas, in order. -/
theorem publicFields_partsText (parts : List Part) :
    publicFields (partsText parts) = (fieldsOf parts).map (·.entry) := by
  have hnested : ∀ p ∈ parts.map (·.text), Nested p := by
    intro p hp
    obtain ⟨part, -, rfl⟩ := List.mem_map.1 hp
    exact part.nested_text
  rw [partsText, publicFields_intercalate hnested, fieldsOf, List.map_map, List.filterMap_map,
    List.map_filterMap]
  congr 1
  funext part
  exact part.publicField?_text

/-- An opening brace hides the field behind it. -/
theorem publicFields_brace (parts : List Part) :
    publicFields ('\x7b' :: partsText parts) = (fieldsOf parts.tail).map (·.entry) := by
  cases parts with
  | nil => decide
  | cons part parts =>
      have htext : '\x7b' :: partsText (part :: parts) =
          [','].intercalate (('\x7b' :: part.text) :: parts.map (·.text)) := by
        cases parts with
        | nil => simp [partsText]
        | cons next parts => simp [partsText]
      have hnested : ∀ p ∈ ('\x7b' :: part.text) :: parts.map (·.text), Nested p := by
        intro p hp
        rcases List.mem_cons.1 hp with rfl | hp
        · exact (nested_append_cons_iff (List.forall_mem_nil _) (by decide)).2 part.nested_text
        · obtain ⟨part, -, rfl⟩ := List.mem_map.1 hp
          exact part.nested_text
      have hnone : publicField? (trim ('\x7b' :: part.text)) = none := by
        have htrim := trim_append_of_not_blank (c := '\x7b') (by decide) [] part.text
        rw [List.nil_append] at htrim
        rw [htrim]
        rfl
      rw [htext, publicFields_intercalate hnested, List.map_cons, List.filterMap_cons, hnone,
        List.tail_cons, ← publicFields_partsText, partsText, publicFields_intercalate]
      exact fun p hp => hnested p (List.mem_cons_of_mem _ hp)

end HeaderAccord.Override
