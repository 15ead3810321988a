import HeaderAccord.Proofs.Comment
import HeaderAccord.Proofs.Header.Function
import HeaderAccord.Proofs.Header.Merge
import HeaderAccord.Proofs.Header.Structure

/-!
Headers one behind the other. A header text is complete if it ends outside of every comment, every
declaration and every structure; each of the three scanners then reads a line break behind it as the
end of the text, and what follows as a text of its own. So two headers declare together what they
declare one by one.
-/

namespace HeaderAccord.Header

open Text HeaderAccord.Bracket

/-! ### Declarations line by line -/

/-- The declaration that a line starts or goes on with. -/
def joined? (marker : List Char) (pending : Option (List Char)) (line : List Char) :
    Option (List Char) :=
  match pending with
  | some declaration => some (declaration ++ ' ' :: trim line)
  | none => if marker.isPrefixOf line then some line else none

/-- The declaration that is open after a line. -/
def openAfterLine (marker : List Char) (pending : Option (List Char)) (line : List Char) :
    Option (List Char) :=
  (joined? marker pending line).filter isOpen

/-- The declaration that is open after some lines. -/
def openAfter (marker : List Char) (pending : Option (List Char)) (ls : List (List Char)) :
    Option (List Char) :=
  ls.foldl (openAfterLine marker) pending

/-- The declarations that end on the lines. -/
def finished (marker : List Char) :
    (pending : Option (List Char)) → List (List Char) → List (List Char)
  | _, [] => []
  | pending, line :: rest =>
    ((joined? marker pending line).filter (!isOpen ·)).toList ++
      finished marker (openAfterLine marker pending line) rest

theorem declarations_eq (marker : List Char) (pending : Option (List Char))
    (ls : List (List Char)) :
    declarations marker pending ls =
      finished marker pending ls ++ (openAfter marker pending ls).toList := by
  induction ls generalizing pending with
  | nil => cases pending <;> rfl
  | cons line rest ih =>
      have hopen : openAfter marker pending (line :: rest) =
          openAfter marker (openAfterLine marker pending line) rest := rfl
      rw [finished, hopen, List.append_assoc, ← ih, openAfterLine]
      cases pending with
      | none =>
          rw [declarations, joined?]
          split
          · split <;> simp [Option.filter_some, *]
          · rfl
      | some declaration =>
          rw [declarations, joined?]
          split <;> simp [Option.filter_some, *]

theorem finished_append (marker : List Char) (pending : Option (List Char))
    (before after : List (List Char)) :
    finished marker pending (before ++ after) =
      finished marker pending before ++
        finished marker (openAfter marker pending before) after := by
  induction before generalizing pending with
  | nil => rfl
  | cons line before ih => rw [List.cons_append, finished, ih, finished, List.append_assoc]; rfl

theorem openAfter_append (marker : List Char) (pending : Option (List Char))
    (before after : List (List Char)) :
    openAfter marker pending (before ++ after) =
      openAfter marker (openAfter marker pending before) after :=
  List.foldl_append

/-! ### The end of the last line -/

/-- What is to be known of a declaration: whether it is open, and the function that it declares. -/
def reading (declaration : List Char) : Bool × Option FunctionSignature :=
  (isOpen declaration, signatureOf? declaration)

theorem parameters_concat_return (rest : List Char) :
    parameters (rest ++ ['\r']) = parameters rest := by
  have hreturn : ∀ c ∈ ['\r'], (fun c => decide (c = ',')) c = false := fun c hc => by
    rw [List.mem_singleton.1 hc]
    rfl
  rw [parameters, parameters, beforeLast_concat (by decide)]
  split
  · rfl
  · next hclose =>
    obtain ⟨init, last, hrest, hmore⟩ := exists_pieces_append hreturn rest
    rw [beforeLast_of_not_mem hclose, hrest, hmore, List.map_append, List.map_append,
      List.map_singleton, List.map_singleton, trim_append_of_allBlank (by decide)]

theorem signatureOf?_concat_return (line : List Char) :
    signatureOf? (line ++ ['\r']) = signatureOf? line := by
  by_cases hparen : '(' ∈ line
  · obtain ⟨head, rest, rfl, hhead⟩ := List.eq_append_cons_of_mem hparen
    rw [List.append_assoc, List.cons_append, signatureOf?, signatureOf?, cutFirst?_append hhead,
      cutFirst?_append hhead]
    simp only [parameters_concat_return]
  · have hnone : '(' ∉ line ++ ['\r'] := by simpa using hparen
    rw [signatureOf?, signatureOf?, cutFirst?_eq_none_iff.2 hparen, cutFirst?_eq_none_iff.2 hnone]

theorem reading_withoutReturn (line : List Char) :
    reading (withoutReturn line) = reading line := by
  rcases withoutReturn_eq_or line with h | h
  · rw [h]
  · conv => rhs; rw [h]
    rw [reading, reading, signatureOf?_concat_return]
    simp [isOpen, List.count_append]

/-- Without its carriage return, the last line of a text is read as with it, unless the return
belongs to the marker. -/
theorem joined?_withoutReturn {marker last : List Char}
    (h : marker.getLast? = some '\r' → marker ≠ last) (pending : Option (List Char)) :
    (joined? marker pending (withoutReturn last)).map reading =
      (joined? marker pending last).map reading := by
  cases pending with
  | some declaration =>
      have htrim : trim (withoutReturn last) = trim last := by
        rcases withoutReturn_eq_or last with hlast | hlast
        · rw [hlast]
        · conv => rhs; rw [hlast]
          rw [trim_append_of_allBlank (by decide)]
      rw [joined?, joined?, htrim]
  | none =>
      have hmarked : marker.isPrefixOf (withoutReturn last) = marker.isPrefixOf last := by
        rcases withoutReturn_eq_or last with hlast | hlast
        · rw [hlast]
        · have hne : marker ≠ withoutReturn last ++ ['\r'] := fun heq =>
            h (by rw [heq, List.getLast?_concat]) (heq.trans hlast.symm)
          rw [Bool.eq_iff_iff, List.isPrefixOf_iff_prefix, List.isPrefixOf_iff_prefix]
          conv => rhs; rw [hlast, List.prefix_concat_iff]
          exact (or_iff_right hne).symm
      rw [joined?, joined?, hmarked]
      split
      · rw [Option.map_some, Option.map_some, reading_withoutReturn]
      · rfl

/-- What a line finishes and leaves open is told by the reading of the declaration on it. -/
theorem filter_of_reading_eq {a b : Option (List Char)} (h : a.map reading = b.map reading) :
    (a.filter isOpen = none ↔ b.filter isOpen = none) ∧
      (a.filter (!isOpen ·)).toList.filterMap signatureOf? =
        (b.filter (!isOpen ·)).toList.filterMap signatureOf? := by
  cases a with
  | none =>
      rw [Option.map_none, eq_comm, Option.map_eq_none_iff] at h
      rw [h]
      exact ⟨Iff.rfl, rfl⟩
  | some x =>
      cases b with
      | none => cases h
      | some y =>
          obtain ⟨hopen, hsignature⟩ := Prod.mk.inj (Option.some.inj h)
          simp only [Option.filter_some, hopen]
          cases isOpen y with
          | true => simp
          | false => simp [List.filterMap_cons, hsignature]

section

variable {marker code : List Char} (hclosed : openAfter marker none (lines code) = none)
  (hreturn : marker.getLast? = some '\r' → (lines code).getLast? ≠ some marker)

include hclosed hreturn

/-- A line break at the end of a text is read as the end of the text. -/
theorem finished_concat_newline :
    openAfter marker none (lines (code ++ ['\n'])) = none ∧
      (finished marker none (lines (code ++ ['\n']))).filterMap signatureOf? =
        (finished marker none (lines code)).filterMap signatureOf? := by
  rcases lines_concat_newline code with hlines | ⟨init, last, hlines, hended⟩
  · -- an empty line, which only an empty marker starts
    have hempty : openAfterLine marker none [] = none ∧
        (finished marker none [[]]).filterMap signatureOf? = [] := by
      simp only [finished, openAfterLine, joined?]
      split <;> exact ⟨rfl, rfl⟩
    rw [hlines, openAfter_append, finished_append, hclosed, List.filterMap_append, hempty.2,
      List.append_nil]
    exact ⟨hempty.1, rfl⟩
  · have hmarker : marker.getLast? = some '\r' → marker ≠ last := fun hm heq =>
      hreturn hm (by rw [hlines, List.getLast?_concat, heq])
    obtain ⟨hopen, hsignatures⟩ :=
      filter_of_reading_eq (joined?_withoutReturn hmarker (openAfter marker none init))
    have hstep (line : List Char) : openAfter marker none (init ++ [line]) =
        openAfterLine marker (openAfter marker none init) line := openAfter_append ..
    have hfinished (line : List Char) :
        (finished marker none (init ++ [line])).filterMap signatureOf? =
          (finished marker none init).filterMap signatureOf? ++
            (((joined? marker (openAfter marker none init) line).filter
              (!isOpen ·)).toList).filterMap signatureOf? := by
      rw [finished_append, List.filterMap_append, finished, finished, List.append_nil]
    rw [hlines, hstep] at hclosed
    rw [hended, hlines, hstep, hfinished, hfinished, hsignatures]
    exact ⟨hopen.2 hclosed, rfl⟩

/-- Behind a text that leaves no declaration open, a line break and a second text add the functions
of the second one. -/
theorem functionsIn_append (rest : List Char) :
    functionsIn marker (code ++ '\n' :: rest) =
      functionsIn marker code ++ functionsIn marker rest := by
  obtain ⟨hopen, hsignatures⟩ := finished_concat_newline hclosed hreturn
  simp only [functionsIn, declarations_eq]
  rw [lines_append_newline, finished_append, openAfter_append, hopen, hclosed, List.append_assoc,
    List.filterMap_append, hsignatures, Option.toList_none, List.append_nil]

end

/-! ### Structures one behind the other -/

/-- An item ends in the text that follows its keywords: at a semicolon before any brace, or at the
first one behind the brace that closes its own. -/
inductive EndsItem : List Char → Prop
  | handle (declarator rest : List Char) (plain : '{' ∉ declarator ∧ ';' ∉ declarator) :
      EndsItem (declarator ++ ';' :: rest)
  | aggregate (tag body declarator rest : List Char) (tag_plain : '{' ∉ tag ∧ ';' ∉ tag)
      (balanced : Encloses '{' '}' 0 '{' body) (declarator_plain : ';' ∉ declarator) :
      EndsItem (tag ++ '{' :: (body ++ '}' :: (declarator ++ ';' :: rest)))

theorem endsItem_iff {cs : List Char} :
    EndsItem cs ↔ (cutFirst? ';' cs).any (fun p => '{' ∉ p.1) = true ∨
      ((cutFirst? '{' cs).bind fun p => enclosed? '{' '}' p.2).any (fun p => ';' ∈ p.2) = true := by
  constructor
  · intro h
    cases h with
    | handle declarator rest plain =>
        rw [cutFirst?_append plain.2]
        exact .inl (decide_eq_true plain.1)
    | aggregate tag body declarator rest tag_plain balanced declarator_plain =>
        have hclose : enclosed? '{' '}' (body ++ '}' :: (declarator ++ ';' :: rest)) =
            some (body, declarator ++ ';' :: rest) :=
          (closing?_eq_some_iff (by decide)).2 ⟨rfl, balanced⟩
        rw [cutFirst?_append tag_plain.1, Option.bind_some, hclose]
        exact .inr (decide_eq_true (by simp))
  · rintro (h | h)
    · by_cases hsemicolon : ';' ∈ cs
      · obtain ⟨declarator, rest, rfl, hdeclarator⟩ := List.eq_append_cons_of_mem hsemicolon
        rw [cutFirst?_append hdeclarator] at h
        exact .handle declarator rest ⟨of_decide_eq_true h, hdeclarator⟩
      · rw [cutFirst?_eq_none_iff.2 hsemicolon] at h
        cases h
    · by_cases hbrace : '{' ∈ cs
      · obtain ⟨tag, opened, rfl, htag⟩ := List.eq_append_cons_of_mem hbrace
        rw [cutFirst?_append htag, Option.bind_some] at h
        by_cases hsemicolon : ';' ∈ tag
        · obtain ⟨declarator, more, rfl, hdeclarator⟩ := List.eq_append_cons_of_mem hsemicolon
          rw [List.append_assoc]
          exact .handle declarator _ ⟨fun hmem => htag (List.mem_append_left _ hmem), hdeclarator⟩
        · cases hclose : enclosed? '{' '}' opened with
          | none =>
              rw [hclose] at h
              cases h
          | some parts =>
              obtain ⟨body, closed⟩ := parts
              rw [hclose] at h
              obtain ⟨rfl, hbody⟩ := (closing?_eq_some_iff (by decide)).1 hclose
              obtain ⟨declarator, rest, rfl, hdeclarator⟩ :=
                List.eq_append_cons_of_mem (of_decide_eq_true h)
              exact .aggregate tag body declarator rest ⟨htag, hsemicolon⟩ hbody hdeclarator
      · rw [cutFirst?_eq_none_iff.2 hbrace] at h
        cases h

instance (cs : List Char) : Decidable (EndsItem cs) := decidable_of_iff _ endsItem_iff.symm

/-- Every item of a text ends in it. -/
def EndsItems (code : List Char) : Prop :=
  ∀ before item, code = before ++ (structKeyword ++ item) → EndsItem item

theorem EndsItems.of_suffix {code rest : List Char} (h : EndsItems code) (hrest : rest <:+ code) :
    EndsItems rest := by
  obtain ⟨front, rfl⟩ := hrest
  rintro before item rfl
  exact h (front ++ before) item (List.append_assoc ..).symm

theorem endsItems_nil : EndsItems [] := fun _ _ h =>
  absurd (List.append_eq_nil_iff.1 (List.append_eq_nil_iff.1 h.symm).2).1 (by decide)

theorem endsItems_cons {c : Char} {cs : List Char} :
    EndsItems (c :: cs) ↔
      (afterPrefix? structKeyword (c :: cs)).all (fun item => EndsItem item) = true ∧
        EndsItems cs := by
  constructor
  · intro h
    refine ⟨?_, h.of_suffix (List.suffix_cons c cs)⟩
    rw [Option.all_eq_true]
    intro item hitem
    have hcons : c :: cs = structKeyword ++ item := eq_append_of_afterPrefix? hitem
    exact decide_eq_true (h [] item hcons)
  · rintro ⟨hfront, hrest⟩ before item heq
    cases before with
    | nil =>
        rw [heq, List.nil_append, afterPrefix?_append] at hfront
        exact of_decide_eq_true hfront
    | cons b before => exact hrest before item (List.cons.inj heq).2

instance decidableEndsItems : (code : List Char) → Decidable (EndsItems code)
  | [] => isTrue endsItems_nil
  | _ :: cs =>
    have := decidableEndsItems cs
    decidable_of_iff _ endsItems_cons.symm

/-- An item that ends in a text is read as what it declares, and then what follows it is read,
whatever stands behind the text. -/
theorem EndsItem.exists_rest {item : List Char} (h : EndsItem item) :
    ∃ (layouts : List StructureLayout) (rest : List Char), rest <:+ item ∧
      rest.length < item.length ∧ ∀ more,
        structuresIn (structKeyword ++ (item ++ more)) =
          layouts ++ structuresIn (rest ++ more) := by
  cases h with
  | handle declarator rest plain =>
      refine ⟨[], rest, ?_, ?_, fun more => ?_⟩
      · exact (List.suffix_cons _ _).trans (List.suffix_append _ _)
      · simp only [List.length_append, List.length_cons]
        omega
      · rw [List.append_assoc, List.cons_append, structuresIn_handle plain.1 plain.2]
        rfl
  | aggregate tag body declarator rest tag_plain balanced declarator_plain =>
      have hitem (more : List Char) :=
        structureItem?_aggregate tag_plain balanced declarator_plain (rest ++ more)
      generalize (if '{' ∈ body then none else _ : Option StructureLayout) = layout? at hitem
      refine ⟨layout?.toList, rest, ?_, ?_, fun more => ?_⟩
      · exact ⟨tag ++ '{' :: (body ++ '}' :: (declarator ++ [';'])), by simp⟩
      · simp only [List.length_append, List.length_cons]
        omega
      · have htext : tag ++ '{' :: (body ++ '}' :: (declarator ++ ';' :: rest)) ++ more =
            tag ++ '{' :: (body ++ '}' :: (declarator ++ ';' :: (rest ++ more))) := by simp
        rw [htext, structuresIn_keyword, hitem]

theorem structuresIn_of_cutAt? {code before item : List Char}
    (h : cutAt? structKeyword code = some (before, item)) :
    structuresIn code = structuresIn (structKeyword ++ item) := by
  rw [structuresIn_eq, structuresIn_keyword, h]

/-- Behind a text whose items end in it, a line break and a second text add the structures of the
second one. -/
theorem structuresIn_append {code : List Char} (h : EndsItems code) (rest : List Char) :
    structuresIn (code ++ '\n' :: rest) = structuresIn code ++ structuresIn rest := by
  -- the text shrinks by its first item
  induction hn : code.length using Nat.strongRecOn generalizing code with
  | ind n ih =>
    subst hn
    cases hcut : cutAt? structKeyword code with
    | none =>
        have hplain := not_infix_of_cutAt?_eq_none hcut
        rw [structuresIn_line hplain, structuresIn_of_no_keyword hplain, List.nil_append]
    | some parts =>
        obtain ⟨before, item⟩ := parts
        have hcode := cutAt?_eq_some hcut
        rw [List.append_assoc] at hcode
        obtain ⟨layouts, after, hsuffix, hlength, hread⟩ := (h before item hcode).exists_rest
        have hafter : after <:+ code := by
          rw [hcode]
          exact hsuffix.trans ((List.suffix_append _ _).trans (List.suffix_append _ _))
        have hshorter : after.length < code.length := by
          rw [hcode]
          simp only [List.length_append]
          omega
        have halone := hread []
        rw [List.append_nil, List.append_nil] at halone
        rw [structuresIn_of_cutAt? (cutAt?_append (by decide) hcut _), structuresIn_of_cutAt? hcut,
          hread, halone, ih _ hshorter (h.of_suffix hafter) rfl, List.append_assoc]

/-! ### Complete texts -/

/-- A header text that ends outside of every comment, declaration and item. -/
structure Complete (marker text : List Char) : Prop where
  comments_closed : ¬HasOpenBlock text
  declarations_closed : openAfter marker none (lines (withoutComments text)) = none
  items_closed : EndsItems (withoutComments text)

theorem complete_iff {marker text : List Char} :
    Complete marker text ↔ ¬HasOpenBlock text ∧
      openAfter marker none (lines (withoutComments text)) = none ∧
        EndsItems (withoutComments text) :=
  ⟨fun h => ⟨h.1, h.2, h.3⟩, fun h => ⟨h.1, h.2.1, h.2.2⟩⟩

instance (marker text : List Char) : Decidable (Complete marker text) :=
  decidable_of_iff _ complete_iff.symm

end HeaderAccord.Header

namespace HeaderAccord.HeaderIndex

open Header

/-- A complete header and another one, added one after the other, come to the same index as both in
one text with a line break between them. A marker that ends in a carriage return must not be the
last line of the first one: in one text, the return belongs to the line break. -/
theorem addHeader_addHeader (index : HeaderIndex) (marker text more : String)
    (hcomplete : Complete marker.toList text.toList)
    (hreturn : marker.toList.getLast? = some '\r' →
      (Text.lines (withoutComments text.toList)).getLast? ≠ some marker.toList) :
    (index.addHeader text marker).addHeader more marker =
      index.addHeader (text ++ "\n" ++ more) marker := by
  have hcode : withoutComments (text ++ "\n" ++ more).toList =
      withoutComments text.toList ++ '\n' :: withoutComments more.toList := by
    have happend := (closed_of_not_hasOpenBlock hcomplete.comments_closed).append more.toList
    simpa using happend
  have hfunctions := functionsIn_append hcomplete.declarations_closed hreturn
    (withoutComments more.toList)
  have hstructures := structuresIn_append hcomplete.items_closed (withoutComments more.toList)
  rw [addHeader, addHeader, addHeader, hcode, hfunctions, hstructures, addFunctions_append,
    addStructures_append]
  rfl

/-- With the marker for its last line, a header loses in one text the function that it has alone. -/
theorem addHeader_return :
    let marker := "f(int *p)\r"
    let index := (HeaderIndex.empty.addHeader "f(int *p)\r" marker).addHeader "" marker
    Complete marker.toList "f(int *p)\r".toList ∧
      index.functions =
        [{ name := "f", pointerArgs := [{ name := "p", cParam := "int *p" }] }] ∧
      index ≠ HeaderIndex.empty.addHeader ("f(int *p)\r" ++ "\n" ++ "") marker := by
  decide +kernel

/-! A header with an open line comment behind its last structure, and one that declares its function
again. -/

def firstText : String :=
  "API void f(int *p, /* q */\n  int *q);\n" ++
    "typedef struct \x7b int x; \x7d S; typedef struct T* H; // end"

theorem addHeader_addHeader_redeclared :
    Complete "API".toList firstText.toList ∧
      ("API".toList.getLast? = some '\r' →
        (Text.lines (withoutComments firstText.toList)).getLast? ≠ some "API".toList) ∧
      (HeaderIndex.empty.addHeader firstText "API").addHeader "API void f(int *r);" "API" =
        HeaderIndex.empty.addHeader (firstText ++ "\n" ++ "API void f(int *r);") "API" := by
  have hcomplete : Complete "API".toList firstText.toList := by decide +kernel
  have hreturn : "API".toList.getLast? = some '\r' →
      (Text.lines (withoutComments firstText.toList)).getLast? ≠ some "API".toList := by
    decide +kernel
  exact ⟨hcomplete, hreturn, addHeader_addHeader _ "API" firstText _ hcomplete hreturn⟩

end HeaderAccord.HeaderIndex
