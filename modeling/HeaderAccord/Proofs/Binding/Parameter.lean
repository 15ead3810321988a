import HeaderAccord.Binding.Parameter
import HeaderAccord.Proofs.Bracket

/-!
Parameter lists. The first half says which texts open a parameter list after a name, by counting
brackets; the second half reads a list back that was laid out freely: blanks between any two of its
tokens, and a comma at its end or none.
-/

namespace HeaderAccord.Binding

open Text HeaderAccord.Bracket

/-! ### Opening a list -/

/-- A generic list and the blanks after it, or nothing. -/
inductive IsGenerics : List Char → Prop
  | absent : IsGenerics []
  | list {inside gap : List Char} (henc : Encloses '<' '>' 0 '<' inside) (hgap : AllBlank gap) :
      IsGenerics ('<' :: (inside ++ '>' :: gap))

/-- After a name, `rest` opens a list of the parameters `params`. -/
def Opens (rest params : List Char) : Prop :=
  ∃ gap generics tail, rest = gap ++ (generics ++ '(' :: (params ++ ')' :: tail)) ∧
    AllBlank gap ∧ IsGenerics generics ∧ Encloses '(' ')' 0 '(' params

theorem afterGenerics?_of_angle {rest opened : List Char} (h : trimStart rest = '<' :: opened) :
    afterGenerics? rest = (enclosed? '<' '>' opened).map fun (_, after) => trimStart after := by
  rw [afterGenerics?, h]
  rfl

theorem afterGenerics?_of_no_angle {rest : List Char}
    (h : ∀ opened, trimStart rest ≠ '<' :: opened) :
    afterGenerics? rest = some (trimStart rest) := by
  rw [afterGenerics?]
  split
  · next opened hopened => exact absurd hopened (h opened)
  · rfl

theorem parameterText?_of_paren {rest opened : List Char}
    (h : afterGenerics? rest = some ('(' :: opened)) :
    parameterText? rest = (enclosed? '(' ')' opened).map (·.1) := by
  rw [parameterText?, h]
  rfl

theorem parameterText?_of_no_paren {rest : List Char}
    (h : ∀ opened, afterGenerics? rest ≠ some ('(' :: opened)) : parameterText? rest = none := by
  rw [parameterText?]
  split
  · next opened hopened => exact absurd hopened (h opened)
  · rfl

theorem afterGenerics?_eq_some_paren_iff {rest opened : List Char} :
    afterGenerics? rest = some ('(' :: opened) ↔
      ∃ gap generics, rest = gap ++ (generics ++ '(' :: opened) ∧ AllBlank gap ∧
        IsGenerics generics := by
  have hangle : ('<' : Char) ≠ '>' := by decide
  constructor
  · intro h
    obtain ⟨gap, hgap, hrest⟩ := exists_trimStart rest
    rw [afterGenerics?] at h
    split at h
    · next cs hcs =>
      obtain ⟨⟨inside, after⟩, hclosing, hafter⟩ := Option.map_eq_some_iff.1 h
      obtain ⟨rfl, henc⟩ := (closing?_eq_some_iff hangle).1 hclosing
      obtain ⟨gap', hgap', hafter'⟩ := exists_trimStart after
      have hopened : trimStart after = '(' :: opened := hafter
      refine ⟨gap, '<' :: (inside ++ '>' :: gap'), ?_, hgap, .list henc hgap'⟩
      rw [hrest, hcs, hafter', hopened]
      simp
    · next hcs =>
      rw [Option.some.injEq] at h
      exact ⟨gap, [], by rw [hrest, h]; rfl, hgap, .absent⟩
  · rintro ⟨gap, generics, rfl, hgap, hgen⟩
    rw [afterGenerics?, trimStart_append_of_allBlank hgap]
    cases hgen with
    | absent => rfl
    | @list inside gap' henc hgap' =>
        rw [List.cons_append, trimStart_cons_of_not_blank (by decide)]
        have hclose : enclosed? '<' '>' (inside ++ '>' :: gap' ++ '(' :: opened) =
            some (inside, gap' ++ '(' :: opened) :=
          (closing?_eq_some_iff hangle).2 ⟨by simp, henc⟩
        simp only [hclose, Option.map_some]
        rw [trimStart_append_of_allBlank hgap', trimStart_cons_of_not_blank (by decide)]

/-- The scanner finds a parameter list exactly where one opens. -/
theorem parameterText?_eq_some_iff {rest params : List Char} :
    parameterText? rest = some params ↔ Opens rest params := by
  have hparen : ('(' : Char) ≠ ')' := by decide
  constructor
  · intro h
    rw [parameterText?] at h
    split at h
    · next opened hopened =>
      obtain ⟨⟨inside, tail⟩, hclosing, rfl⟩ := Option.map_eq_some_iff.1 h
      obtain ⟨rfl, henc⟩ := (closing?_eq_some_iff hparen).1 hclosing
      obtain ⟨gap, generics, rfl, hgap, hgen⟩ := afterGenerics?_eq_some_paren_iff.1 hopened
      exact ⟨gap, generics, tail, rfl, hgap, hgen, henc⟩
    · simp at h
  · rintro ⟨gap, generics, tail, rfl, hgap, hgen, henc⟩
    have hopened :
        afterGenerics? (gap ++ (generics ++ '(' :: (params ++ ')' :: tail))) =
          some ('(' :: (params ++ ')' :: tail)) :=
      afterGenerics?_eq_some_paren_iff.2 ⟨gap, generics, rfl, hgap, hgen⟩
    have hclose : enclosed? '(' ')' (params ++ ')' :: tail) = some (params, tail) :=
      (closing?_eq_some_iff hparen).2 ⟨rfl, henc⟩
    simp [parameterText?, hopened, hclose]

/-! ### Lists as they are written -/

/-- The spelling of a parameter's name: a word without brackets, commas and colons. -/
def IsParameterName (name : List Char) : Prop :=
  IsWord name ∧ ∀ c ∈ name, IsPlain c ∧ c ≠ ':'

instance (name : List Char) : Decidable (IsParameterName name) :=
  decidable_of_iff (IsWord name ∧ name.all (fun c => IsPlain c ∧ c ≠ ':') = true)
    (by simp [IsParameterName])

/-- A parameter `name: type` or `mut name: type`. The blanks on both sides of the type belong to
it. -/
structure WrittenParameter where
  lead : List Char
  /-- the blanks after `mut`, if it is there -/
  mutGap : Option (List Char)
  name : List Char
  gap : List Char
  type : List Char
  lead_blank : AllBlank lead
  mutGap_blank : ∀ g ∈ mutGap, AllBlank g ∧ g ≠ []
  name_spelled : IsParameterName name
  gap_blank : AllBlank gap
  type_nested : Nested type

namespace WrittenParameter

def mutText : Option (List Char) → List Char
  | none => []
  | some gap => "mut".toList ++ gap

def pattern (p : WrittenParameter) : List Char :=
  p.lead ++ (mutText p.mutGap ++ (p.name ++ p.gap))

def text (p : WrittenParameter) : List Char := p.pattern ++ ':' :: p.type

/-- The parameter that is meant: the key of its name, and its type with single spaces. -/
def parameter (p : WrittenParameter) : Parameter where
  name := Name.key (String.ofList p.name)
  type := String.ofList (collapse p.type)

variable (p : WrittenParameter)

theorem words_pattern :
    words p.pattern = (if p.mutGap.isSome then ["mut".toList] else []) ++ [p.name] := by
  have hname : words (p.name ++ p.gap) = [p.name] := by
    rw [words_append_allBlank p.gap_blank, words_of_isWord p.name_spelled.1]
  rw [pattern, words_allBlank_append p.lead_blank]
  cases h : p.mutGap with
  | none => simpa [mutText] using hname
  | some gap =>
      obtain ⟨hgap, hne⟩ := p.mutGap_blank gap (by simp [h])
      rw [mutText, List.append_assoc, words_append_gap hgap hne, hname,
        words_of_isWord (by decide)]
      rfl

theorem isPlain_of_mem_pattern {c : Char} (hc : c ∈ p.pattern) : IsPlain c ∧ c ≠ ':' := by
  have hblank {g : List Char} (hg : AllBlank g) (h : c ∈ g) : IsPlain c ∧ c ≠ ':' := by
    refine ⟨(isPlain_of_isBlank (hg c h)).1, ?_⟩
    rintro rfl
    exact absurd (hg ':' h) (by decide)
  have hmut : IsParameterName "mut".toList := by decide
  simp only [pattern, List.mem_append] at hc
  rcases hc with h | h | h | h
  · exact hblank p.lead_blank h
  · cases hgap : p.mutGap with
    | none => simp [mutText, hgap] at h
    | some gap =>
        rw [hgap, mutText, List.mem_append] at h
        rcases h with h | h
        · exact hmut.2 c h
        · exact hblank (p.mutGap_blank gap (by simp [hgap])).1 h
  · exact p.name_spelled.2 c h
  · exact hblank p.gap_blank h

theorem nested_text : Nested p.text := by
  rw [text, nested_append_cons_iff (fun c hc => (p.isPlain_of_mem_pattern hc).1) (by decide)]
  exact p.type_nested

/-- However a parameter is laid out, its collapsed text reads as what is meant. -/
theorem parameterOf_collapse : parameterOf (collapse p.text) = p.parameter := by
  have hcolon : ':' ∉ trimStart (squeeze p.pattern) := by
    intro h
    rcases mem_of_mem_squeeze (mem_of_mem_trimStart h) with h | h
    · exact (p.isPlain_of_mem_pattern h).2 rfl
    · exact absurd h (by decide)
  have hpattern : trim (trimStart (squeeze p.pattern)) =
      (if p.mutGap.isSome then mutKeyword else []) ++ p.name := by
    rw [trim_trimStart, ← collapse_eq_trim_squeeze, collapse, words_pattern]
    cases p.mutGap with
    | none => simp
    | some gap => simp [mutKeyword]
  have hbare : bareName (trimStart (squeeze p.pattern)) = p.name := by
    rw [bareName, hpattern]
    cases p.mutGap with
    | some gap => simp [afterPrefix?_append]
    | none =>
        -- a name has no blank, so it does not start with `mut` and a blank
        have hnone : afterPrefix? mutKeyword p.name = none := by
          cases h : afterPrefix? mutKeyword p.name with
          | none => rfl
          | some rest =>
              have hspace : ' ' ∈ p.name := by
                rw [eq_append_of_afterPrefix? h]
                simp [mutKeyword]
              have := p.name_spelled.1.2 ' ' hspace
              simp [isBlank_space] at this
        simp [hnone]
  have htype : trim (trimEnd (squeeze p.type)) = collapse p.type := by
    rw [trim_trimEnd, ← collapse_eq_trim_squeeze]
  rw [parameterOf, text, collapse_append_of_not_blank (by decide), cutFirst?_append hcolon]
  simp [hbare, htype, parameter, Name.key]

theorem collapse_text_ne_nil : collapse p.text ≠ [] := by
  rw [text, collapse_append_of_not_blank (by decide)]
  simp

end WrittenParameter

/-- The parts of a parameter list between its commas. What follows a comma at the end is `trailing`,
which without parameters stands for the blanks between the parentheses. -/
def listParts (ps : List WrittenParameter) (trailing : Option (List Char)) : List (List Char) :=
  ps.map (·.text) ++ trailing.toList

def listText (ps : List WrittenParameter) (trailing : Option (List Char)) : List Char :=
  [','].intercalate (listParts ps trailing)

section

variable {ps : List WrittenParameter} {trailing : Option (List Char)}

theorem nested_of_mem_listParts (h : ∀ g ∈ trailing, AllBlank g) {part : List Char}
    (hpart : part ∈ listParts ps trailing) : Nested part := by
  rcases List.mem_append.1 hpart with hpart | hpart
  · obtain ⟨p, -, rfl⟩ := List.mem_map.1 hpart
    exact p.nested_text
  · exact nested_of_allBlank (h part (by simpa using hpart))

theorem encloses_listText (h : ∀ g ∈ trailing, AllBlank g) :
    Encloses '(' ')' 0 '(' (listText ps trailing) :=
  ((closing?_eq_some_iff (by decide)).1
    (closing?_intercalate (fun _ hp => nested_of_mem_listParts h hp) '(' [])).2

/-- A parameter list reads as the parameters that are meant. A comma at its end adds one without
name and type. -/
theorem parametersOf_listText (h : ∀ g ∈ trailing, AllBlank g) :
    parametersOf (listText ps trailing) =
      ps.map (·.parameter) ++
        if ps.isEmpty then [] else trailing.toList.map fun _ => { name := "", type := "" } := by
  have hcollapse : (listParts ps trailing).map collapse =
      ps.map (fun p => collapse p.text) ++ trailing.toList.map fun _ => [] := by
    rw [listParts, List.map_append, List.map_map]
    cases trailing with
    | none => rfl
    | some g => simp [collapse_of_allBlank (h g rfl), Function.comp_def]
  have hempty : parameterOf [] = { name := "", type := "" } := by decide
  -- without a parameter the list is empty or blank, and `splitTopLevel` gives no part for it
  cases ps with
  | nil =>
      cases trailing with
      | none => simp [listText, listParts, parametersOf, collapse, splitTopLevel, cutAtCommas]
      | some g =>
          have hg : collapse g = [] := collapse_of_allBlank (h g rfl)
          simp [listText, listParts, parametersOf, hg, splitTopLevel, cutAtCommas]
  | cons p ps =>
      have hsplit : splitTopLevel (collapse (listText (p :: ps) trailing)) =
          (listParts (p :: ps) trailing).map collapse := by
        rw [listText, splitTopLevel_collapse_intercalate (by simp [listParts])
          fun _ hp => nested_of_mem_listParts h hp, if_neg]
        rw [hcollapse]
        simp [p.collapse_text_ne_nil]
      rw [parametersOf, hsplit, hcollapse, List.map_append, List.map_map, List.map_map]
      simp [Function.comp_def, WrittenParameter.parameterOf_collapse, hempty]

end

end HeaderAccord.Binding
