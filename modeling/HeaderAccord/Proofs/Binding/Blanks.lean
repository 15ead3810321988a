import HeaderAccord.Proofs.Binding.Mention
import HeaderAccord.Proofs.Binding.Parameter
import HeaderAccord.Proofs.Trace

/-!
Binding sources laid out anew. A blank ends an identifier, stands between brackets and separates
words, and nothing that reads a source looks at which blank it is or how many follow it. So the
source with its blanks squeezed has the same identifiers, each followed by what followed it with its
blanks squeezed, and the blanks at the ends of a source follow no identifier that opens a list.
-/

namespace HeaderAccord.Binding

open Text HeaderAccord.Bracket

/-! ### Identifiers -/

/-- A mention with a change to what follows it. -/
def Mention.mapRest (f : List Char → List Char) (m : Mention) : Mention :=
  { m with rest := f m.rest }

theorem mentionsAfter_blank {c : Char} (hc : isBlank c = true) (cs : List Char) :
    mentionsAfter [] (c :: cs) = mentionsAfter [] cs := by
  have hpart := isIdentifierPart_of_isBlank hc
  simp [mentionsAfter, isIdentifierStart, hpart]

theorem mentionsAfter_name_blank {c : Char} (hc : isBlank c = true) (n : Char)
    (name cs : List Char) :
    mentionsAfter (n :: name) (c :: cs) =
      mentionOf (n :: name) (c :: cs) :: mentionsAfter [] cs := by
  simp [mentionsAfter, isIdentifierPart_of_isBlank hc]

theorem mentionsAfter_allBlank_append {g : List Char} (hg : AllBlank g) (cs : List Char) :
    mentionsAfter [] (g ++ cs) = mentionsAfter [] cs := by
  induction g with
  | nil => rfl
  | cons c g ih =>
      rw [allBlank_cons] at hg
      rw [List.cons_append, mentionsAfter_blank hg.1, ih hg.2]

theorem mentionsAfter_trimStart (cs : List Char) :
    mentionsAfter [] (trimStart cs) = mentionsAfter [] cs := by
  obtain ⟨g, hg, heq⟩ := exists_trimStart cs
  conv => rhs; rw [heq]
  exact (mentionsAfter_allBlank_append hg _).symm

theorem mentionsAfter_squeeze (name cs : List Char) :
    mentionsAfter name (squeeze cs) = (mentionsAfter name cs).map (·.mapRest squeeze) := by
  induction cs generalizing name with
  | nil => cases name <;> rfl
  | cons c cs ih =>
      cases hc : isBlank c with
      | true =>
          -- the space that is left ends a name as well as the whole gap did
          rw [squeeze_cons_of_blank hc]
          cases name with
          | nil =>
              rw [mentionsAfter_blank isBlank_space, mentionsAfter_trimStart, ih,
                mentionsAfter_blank hc]
          | cons n name =>
              rw [mentionsAfter_name_blank isBlank_space, mentionsAfter_trimStart, ih,
                mentionsAfter_name_blank hc, List.map_cons, ← squeeze_cons_of_blank hc]
              rfl
      | false =>
          rw [squeeze_cons_of_not_blank hc]
          cases name with
          | nil =>
              rw [mentionsAfter, mentionsAfter, ih, ih]
              split <;> rfl
          | cons n name =>
              rw [mentionsAfter, mentionsAfter, ih, ih]
              split
              · rfl
              · rw [List.map_cons, ← squeeze_cons_of_not_blank hc]
                rfl

theorem mentionsAfter_append_allBlank {g : List Char} (hg : AllBlank g) (name cs : List Char) :
    mentionsAfter name (cs ++ g) = (mentionsAfter name cs).map (·.mapRest (· ++ g)) := by
  induction cs generalizing name with
  | nil =>
      have hnone : mentionsAfter [] g = [] := by
        simpa [mentionsAfter] using mentionsAfter_allBlank_append hg []
      cases name with
      | nil => exact hnone
      | cons n name =>
          have hends : ∀ c ∈ g.head?, isIdentifierPart c = false := fun c hc =>
            isIdentifierPart_of_isBlank (hg c (List.mem_of_mem_head? hc))
          rw [List.nil_append, mentionsAfter_nil_of_ends hends, hnone]
          rfl
  | cons c cs ih =>
      cases name with
      | nil =>
          rw [List.cons_append, mentionsAfter, mentionsAfter, ih, ih]
          split <;> rfl
      | cons n name =>
          rw [List.cons_append, mentionsAfter, mentionsAfter, ih, ih]
          split <;> rfl

/-! ### Parameter lists -/

/-- What a squeezed text starts with, if it is no blank, the text started with. -/
theorem squeeze_eq_cons {b : Char} (hb : isBlank b = false) {cs opened : List Char}
    (h : squeeze cs = b :: opened) : ∃ opened', cs = b :: opened' ∧ opened = squeeze opened' := by
  cases cs with
  | nil => simp at h
  | cons c cs =>
      cases hc : isBlank c with
      | true =>
          rw [squeeze_cons_of_blank hc] at h
          rw [← (List.cons.inj h).1, isBlank_space] at hb
          cases hb
      | false =>
          rw [squeeze_cons_of_not_blank hc] at h
          obtain ⟨rfl, rfl⟩ := List.cons.inj h
          exact ⟨cs, rfl, rfl⟩

theorem afterGenerics?_squeeze (cs : List Char) :
    afterGenerics? (squeeze cs) = (afterGenerics? cs).map squeeze := by
  by_cases hangle : ∃ opened, trimStart cs = '<' :: opened
  · obtain ⟨opened, htrim⟩ := hangle
    have hsqueeze : trimStart (squeeze cs) = '<' :: squeeze opened := by
      rw [trimStart_squeeze, htrim, squeeze_cons_of_not_blank (by decide)]
    rw [afterGenerics?_of_angle hsqueeze, afterGenerics?_of_angle htrim,
      enclosed?_squeeze (by decide) (by decide), Option.map_map, Option.map_map]
    exact Option.map_congr fun p _ => trimStart_squeeze p.2
  · have hsqueeze : ∀ opened, trimStart (squeeze cs) ≠ '<' :: opened := by
      intro opened hopened
      rw [trimStart_squeeze] at hopened
      obtain ⟨opened', htrim, -⟩ := squeeze_eq_cons (by decide) hopened
      exact hangle ⟨opened', htrim⟩
    rw [afterGenerics?_of_no_angle hsqueeze, afterGenerics?_of_no_angle (not_exists.1 hangle),
      trimStart_squeeze, Option.map_some]

/-- A source with its blanks squeezed opens the same lists, with their blanks squeezed. -/
theorem parameterText?_squeeze (cs : List Char) :
    parameterText? (squeeze cs) = (parameterText? cs).map squeeze := by
  by_cases hparen : ∃ opened, afterGenerics? cs = some ('(' :: opened)
  · obtain ⟨opened, hafter⟩ := hparen
    have hsqueeze : afterGenerics? (squeeze cs) = some ('(' :: squeeze opened) := by
      rw [afterGenerics?_squeeze, hafter, Option.map_some,
        squeeze_cons_of_not_blank (by decide)]
    rw [parameterText?_of_paren hsqueeze, parameterText?_of_paren hafter,
      enclosed?_squeeze (by decide) (by decide), Option.map_map, Option.map_map]
    rfl
  · have hsqueeze : ∀ opened, afterGenerics? (squeeze cs) ≠ some ('(' :: opened) := by
      intro opened hopened
      rw [afterGenerics?_squeeze] at hopened
      obtain ⟨rest, hrest, hsqueeze⟩ := Option.map_eq_some_iff.1 hopened
      obtain ⟨opened', rfl, -⟩ := squeeze_eq_cons (by decide) hsqueeze
      exact hparen ⟨opened', hrest⟩
    rw [parameterText?_of_no_paren hsqueeze, parameterText?_of_no_paren (not_exists.1 hparen)]
    rfl

theorem opens_append_allBlank_iff {g : List Char} (hg : AllBlank g) {rest params : List Char} :
    Opens (rest ++ g) params ↔ Opens rest params := by
  constructor
  · rintro ⟨gap, generics, tail, heq, hgap, hgenerics, henc⟩
    -- a parenthesis is no blank, so the list closes before the gap at the end
    have hsplit : (gap ++ (generics ++ '(' :: params)) ++ ')' :: tail = rest ++ g := by
      simpa using heq.symm
    obtain ⟨tail', hrest, -⟩ := exists_of_append_cons_eq (by decide) hg hsplit
    exact ⟨gap, generics, tail', by simpa using hrest, hgap, hgenerics, henc⟩
  · rintro ⟨gap, generics, tail, rfl, hgap, hgenerics, henc⟩
    exact ⟨gap, generics, tail ++ g, by simp, hgap, hgenerics, henc⟩

theorem parameterText?_append_allBlank {g : List Char} (hg : AllBlank g) (rest : List Char) :
    parameterText? (rest ++ g) = parameterText? rest := by
  refine Option.ext fun params => ?_
  rw [parameterText?_eq_some_iff, parameterText?_eq_some_iff, opens_append_allBlank_iff hg]

/-! ### Sources -/

theorem boundParameters?_squeeze (key : String) (source : List Char) :
    boundParameters? key (mentions (squeeze source)) =
      (boundParameters? key (mentions source)).map squeeze := by
  rw [boundParameters?, mentions, mentionsAfter_squeeze, List.findSome?_map, boundParameters?,
    List.map_findSome?, mentions]
  refine congrArg (List.findSome? · (mentionsAfter [] source)) (funext fun m => ?_)
  simp only [Function.comp_apply, Mention.mapRest, parameterText?_squeeze]
  split <;> rfl

theorem boundParameters?_trim (key : String) (source : List Char) :
    boundParameters? key (mentions (trim source)) = boundParameters? key (mentions source) := by
  obtain ⟨lead, trail, hlead, htrail, heq⟩ := exists_trim source
  conv => rhs; rw [heq]
  rw [mentions, mentions, mentionsAfter_allBlank_append hlead,
    mentionsAfter_append_allBlank htrail, boundParameters?, boundParameters?, List.findSome?_map]
  refine congrArg (List.findSome? · (mentionsAfter [] (trim source))) (funext fun m => ?_)
  simp only [Function.comp_apply, Mention.mapRest, parameterText?_append_allBlank htrail]

/-- With single spaces between its words, a source binds the same functions by lists with the same
words. -/
theorem boundParameters?_collapse (key : String) (source : List Char) :
    boundParameters? key (mentions (collapse source)) =
      (boundParameters? key (mentions source)).map squeeze := by
  rw [collapse_eq_trim_squeeze, boundParameters?_trim, boundParameters?_squeeze]

theorem parametersOf_squeeze (text : List Char) :
    parametersOf (squeeze text) = parametersOf text := by
  rw [parametersOf, collapse_squeeze, parametersOf]

section

variable {m : Type → Type} [Monad m] (notify : Event → m Unit)

theorem checkFunction_collapse (source : List Char) :
    checkFunction notify (mentions (collapse source)) =
      checkFunction notify (mentions source) := by
  funext f
  rw [checkFunction, checkFunction, boundParameters?_collapse]
  cases boundParameters? (Name.key f.name) (mentions source) with
  | none => rfl
  | some text =>
      dsimp only [Option.map_some]
      rw [parametersOf_squeeze]

theorem checkSource_ofList_collapse (index : HeaderIndex) (source : String) :
    checkSource notify index (String.ofList (collapse source.toList)) =
      checkSource notify index source := by
  rw [checkSource, String.toList_ofList, checkFunction_collapse, checkSource]

/-- The blanks of a source do not matter. Whoever watches, the check of a source is the check of its
words with single spaces between them, so sources with the same words get the same verdict by way of
the same events. -/
theorem checkSource_layout (index : HeaderIndex) (source : String) :
    checkSource notify index (String.ofList (collapse source.toList)) =
        checkSource notify index source ∧
      ∀ other : String, words other.toList = words source.toList →
        checkSource notify index other = checkSource notify index source := by
  refine ⟨checkSource_ofList_collapse notify index source, fun other hwords => ?_⟩
  have hcollapse : collapse other.toList = collapse source.toList := by
    rw [collapse, hwords, collapse]
  rw [← checkSource_ofList_collapse notify index other, hcollapse,
    checkSource_ofList_collapse notify index source]

end

/-- A declaration over several lines is checked as the same declaration on one line. -/
theorem checkSource_layout_getData :
    let index : HeaderIndex :=
      { functions := [{ name := "get_data", pointerArgs := [⟨"buf", "char *buf"⟩] }] }
    let spread := "\n fn get_data <T>\t(\n    buf: &mut  T,\r\n    n\n: usize\n)  {}"
    let inline := "fn get_data <T> ( buf: &mut T, n : usize ) {}"
    words spread.toList = words inline.toList ∧
      checkSource Traced.emit index spread = checkSource Traced.emit index inline ∧
      (checkSource Traced.emit index inline).result = { bound := ["get_data"] } := by
  intro index spread inline
  have hwords : words spread.toList = words inline.toList := by decide +kernel
  exact ⟨hwords, (checkSource_layout Traced.emit index inline).2 spread hwords, by decide +kernel⟩

end HeaderAccord.Binding
