import HeaderAccord.Proofs.Header.Prototype
import HeaderAccord.Proofs.Header.Structure

/-!
One declarator, as a field and as a parameter. Both readers go by the words of the text: the name is
looked for in the last one. So a blank has to stand somewhere between the type and the name, and
none before the brackets of an array.
-/

namespace HeaderAccord.Header

open Text

/-- A declarator with stars, laid out freely. Every blank between the type and the name can be
counted to the stars. -/
structure Declarator where
  /-- the words of the type, with the blanks around them -/
  type : List Char
  /-- the stars, with the blanks around them -/
  pointer : List Char
  name : List Char
  gap : List Char := []
  /-- what stands in the brackets of an array -/
  length? : Option (List Char) := none
  trail : List Char := []
  pointer_spelled : '*' ∈ pointer ∧ ∀ c ∈ pointer, c = '*' ∨ isBlank c = true
  name_spelled : IsWord name ∧ '*' ∉ name ∧ '[' ∉ name
  gap_blank : AllBlank gap := by exact allBlank_nil
  length_spelled : ∀ inside ∈ length?, ∀ c ∈ inside, isBlank c = false := by exact nofun
  trail_blank : AllBlank trail := by exact allBlank_nil

namespace Declarator

variable (d : Declarator)

def suffix : List Char := d.length?.elim [] fun inside => '[' :: (inside ++ [']'])

def text : List Char :=
  d.type ++ (d.pointer ++ (d.name ++ (d.gap ++ (d.suffix ++ d.trail))))

/-- A blank stands between the type and the name. -/
def IsSpaced : Prop := ∃ c ∈ d.pointer, isBlank c = true

instance : Decidable d.IsSpaced :=
  decidable_of_iff (d.pointer.any isBlank = true) (by simp [IsSpaced])

variable {d}

theorem suffix_eq : d.suffix = [] ∨ ∃ inside, d.suffix = '[' :: (inside ++ [']']) := by
  rw [suffix]
  cases d.length? with
  | none => exact .inl rfl
  | some inside => exact .inr ⟨inside, rfl⟩

/-- A name and the brackets behind it are one word. -/
theorem isWord_name_suffix : IsWord (d.name ++ d.suffix) := by
  refine ⟨List.append_ne_nil_of_left_ne_nil d.name_spelled.1.1 _, fun c hc => ?_⟩
  rcases List.mem_append.1 hc with hname | hsuffix
  · exact d.name_spelled.1.2 c hname
  · rw [suffix] at hsuffix
    cases hlength : d.length? with
    | none => simp [hlength] at hsuffix
    | some inside =>
        have hinside := d.length_spelled inside hlength
        simp only [hlength, Option.elim_some, List.mem_cons, List.mem_append, List.not_mem_nil,
          or_false] at hsuffix
        rcases hsuffix with rfl | hin | rfl
        · decide
        · exact hinside c hin
        · decide

/-- The last blank before the name parts the stars written against the name from what is before. -/
theorem exists_pointer_eq (h : d.IsSpaced) :
    ∃ front c stars, d.pointer = front ++ c :: stars ∧ isBlank c = true ∧ ∀ s ∈ stars, s = '*' := by
  have hspelled := d.pointer_spelled.2
  rw [IsSpaced] at h
  generalize d.pointer = pointer at h hspelled
  induction pointer with
  | nil => simp at h
  | cons c cs ih =>
      obtain ⟨hc, hcs⟩ := List.forall_mem_cons.1 hspelled
      by_cases hlater : ∃ c ∈ cs, isBlank c = true
      · obtain ⟨front, b, stars, rfl, hb, hstars⟩ := ih hlater hcs
        exact ⟨c :: front, b, stars, rfl, hb, hstars⟩
      · obtain ⟨b, hb, hblank⟩ := h
        rcases List.mem_cons.1 hb with rfl | hb
        · refine ⟨[], b, cs, rfl, hblank, fun s hs => (hcs s hs).resolve_right fun hs' => ?_⟩
          exact hlater ⟨s, hs, hs'⟩
        · exact absurd ⟨b, hb, hblank⟩ hlater

/-- A word behind the type can be read with the stars that are written against it. -/
theorem exists_words_eq (h : d.IsSpaced) {word : List Char} (hword : IsWord word)
    {trail : List Char} (htrail : AllBlank trail) :
    ∃ front stars, words (d.type ++ (d.pointer ++ (word ++ trail))) =
        words (d.type ++ front) ++ [stars ++ word] ∧
      (∀ s ∈ stars, s = '*') ∧ front ⊆ d.pointer := by
  obtain ⟨front, c, stars, hpointer, hc, hstars⟩ := exists_pointer_eq h
  have hlast : IsWord (stars ++ word) := by
    refine ⟨List.append_ne_nil_of_right_ne_nil _ hword.1, fun s hs => ?_⟩
    rcases List.mem_append.1 hs with hs | hs
    · rw [hstars s hs]
      decide
    · exact hword.2 s hs
  refine ⟨front, stars, ?_, hstars, ?_⟩
  · have hsplit : d.type ++ (d.pointer ++ (word ++ trail)) =
        (d.type ++ front) ++ c :: ((stars ++ word) ++ trail) := by
      simp [hpointer]
    rw [hsplit, words_append_blank hc, words_append_allBlank htrail, words_of_isWord hlast]
  · rw [hpointer]
    exact List.subset_append_left _ _

/-- Stars and blanks behind a type do not hide that it is more than `const`. -/
theorem exists_ne_const {type front : List Char} (h : ∃ t ∈ words type, t ≠ constKeyword)
    (hfront : ∀ c ∈ front, c = '*' ∨ isBlank c = true) :
    ∃ t ∈ words (type ++ front), t ≠ constKeyword := by
  by_cases hstar : '*' ∈ front
  · obtain ⟨t, ht, hmem⟩ := (exists_mem_words_iff (by decide)).2 (List.mem_append_right type hstar)
    refine ⟨t, ht, ?_⟩
    rintro rfl
    exact absurd hmem (by decide)
  · have hblank : AllBlank front := fun c hc =>
      (hfront c hc).resolve_left fun heq => hstar (heq ▸ hc)
    rwa [words_append_allBlank hblank]

/-! ### As a field -/

theorem fieldOf?_text (h : d.IsSpaced) (htight : d.length?.isSome → d.gap = [])
    (htype : ∃ t ∈ words d.type, t ≠ constKeyword) :
    ∃ typeText, fieldOf? d.text = some
      { name := String.ofList (Name.keyChars d.name)
        declaredName := String.ofList d.name
        typeText } := by
  obtain ⟨trail, htrail, htext⟩ : ∃ trail, AllBlank trail ∧
      d.text = d.type ++ (d.pointer ++ ((d.name ++ d.suffix) ++ trail)) := by
    cases hlength : d.length? with
    | none =>
        refine ⟨d.gap ++ d.trail, allBlank_append.2 ⟨d.gap_blank, d.trail_blank⟩, ?_⟩
        simp [text, suffix, hlength]
    | some inside =>
        refine ⟨d.trail, d.trail_blank, ?_⟩
        simp [text, htight (by simp [hlength])]
  obtain ⟨front, stars, hwords, hstars, hfront⟩ := exists_words_eq h d.isWord_name_suffix htrail
  rw [← htext] at hwords
  have htypes : ∃ t ∈ words (d.type ++ front), t ≠ constKeyword :=
    exists_ne_const htype fun c hc => d.pointer_spelled.2 c (hfront hc)
  obtain ⟨hname, hstar, hbracket⟩ := d.name_spelled
  exact ⟨_, fieldOf?_of_words hwords htypes hstars ⟨hname.1, hstar, hbracket⟩ d.suffix_eq⟩

/-! ### As a parameter -/

theorem pointerArgOf?_text (h : d.IsSpaced) (hlength : d.length? = none) :
    pointerArgOf? (trim d.text) = some
      { name := String.ofList (Name.keyChars d.name), cParam := String.ofList (trim d.text) } := by
  obtain ⟨hname, hunstarred, -⟩ := d.name_spelled
  have htrail : AllBlank (d.gap ++ d.trail) := allBlank_append.2 ⟨d.gap_blank, d.trail_blank⟩
  obtain ⟨front, stars, hwords, hstars, -⟩ := exists_words_eq h hname htrail
  have htext : d.text = d.type ++ (d.pointer ++ (d.name ++ (d.gap ++ d.trail))) := by
    simp [text, suffix, hlength]
  have hfirst : IsStarless d.name :=
    ⟨hname.1, fun hhead => hunstarred (List.mem_of_head? hhead)⟩
  have hdeclared : declaredName? (trim d.text) = some d.name := by
    have hlast : declaredName? (trim d.text) = lastName? (words d.text) := by
      rw [declaredName?, words_trim]
      rfl
    rw [hlast, htext, hwords, lastName?_append _ hstars hfirst]
  have hstar : '*' ∈ trim d.text := by
    have hmem : '*' ∈ d.text :=
      List.mem_append_right _ (List.mem_append_left _ d.pointer_spelled.1)
    rw [← exists_mem_words_iff (by decide), words_trim]
    exact (exists_mem_words_iff (by decide)).2 hmem
  rw [pointerArgOf?, if_pos hstar, hdeclared]
  rfl

end Declarator

/-- The parameters of a declaration are read one by one. -/
theorem signatureOf?_parameters {head name tail : List Char} (hhead : '(' ∉ head)
    (hname : declaredName? head = some name) (htail : ')' ∉ tail) {params : List (List Char)}
    (hne : params ≠ []) (hparams : ∀ p ∈ params, ',' ∉ p) :
    signatureOf? (head ++ '(' :: ([','].intercalate params ++ ')' :: tail)) = some
      { name := String.ofList name
        pointerArgs := params.filterMap fun p => pointerArgOf? (trim p) } := by
  have hlist : parameters ([','].intercalate params ++ ')' :: tail) = params.map trim := by
    rw [parameters, beforeLast_append htail, pieces_intercalate hne hparams]
  rw [signatureOf?, cutFirst?_append hhead]
  dsimp only
  rw [hname, hlist, List.filterMap_map]
  rfl

/-- Both readers find the name of a declarator with a blank between its type and its name: the one
of fields if the type is more than `const` and the brackets of an array are written against the
name, the one of functions if there are no brackets, whatever the other parameters are. -/
theorem recorded_of_isSpaced {d : Declarator} (h : d.IsSpaced) :
    ((d.length?.isSome → d.gap = []) → (∃ t ∈ words d.type, t ≠ constKeyword) →
      ∃ typeText, fieldOf? d.text = some
        { name := Name.key (String.ofList d.name)
          declaredName := String.ofList d.name
          typeText }) ∧
    (d.length? = none → ∀ (head name tail : List Char) (before after : List (List Char)),
      '(' ∉ head → declaredName? head = some name → ')' ∉ tail →
      (∀ p ∈ before ++ d.text :: after, ',' ∉ p) →
      signatureOf?
          (head ++ '(' :: ([','].intercalate (before ++ d.text :: after) ++ ')' :: tail)) = some
        { name := String.ofList name
          pointerArgs := before.filterMap (fun p => pointerArgOf? (trim p)) ++
            { name := Name.key (String.ofList d.name)
              cParam := String.ofList (trim d.text) } ::
            after.filterMap fun p => pointerArgOf? (trim p) }) := by
  have hkey : Name.key (String.ofList d.name) = String.ofList (Name.keyChars d.name) := by
    rw [Name.key, String.toList_ofList]
  rw [hkey]
  refine ⟨Declarator.fieldOf?_text h, fun hlength head name tail before after hhead hname htail
    hparams => ?_⟩
  have hthis := d.pointerArgOf?_text h hlength
  rw [signatureOf?_parameters hhead hname htail (by simp) hparams, List.filterMap_append,
    List.filterMap_cons, hthis]

/-- Two stars, one against the type and one against the name. -/
def labelPointer : Declarator where
  type := "const char".toList
  pointer := "* *".toList
  name := "label".toList
  pointer_spelled := by simp [isBlank_space]
  name_spelled := by decide

theorem recorded_of_isSpaced_label :
    (∃ typeText, fieldOf? "const char* *label".toList = some
      { name := "label", declaredName := "label", typeText }) ∧
    signatureOf? "API void f(int n,const char* *label);".toList = some
      { name := "f", pointerArgs := [⟨"label", "const char* *label"⟩] } := by
  have hrecorded := recorded_of_isSpaced (d := labelPointer) (by decide)
  have htext : "const char* *label".toList = labelPointer.text := by decide +kernel
  have hkey : Name.key (String.ofList labelPointer.name) = "label" := by decide +kernel
  have hname : String.ofList labelPointer.name = "label" := by decide +kernel
  rw [hkey, hname] at hrecorded
  constructor
  · rw [htext]
    exact hrecorded.1 nofun (by decide +kernel)
  · have hdeclaration : "API void f(int n,const char* *label);".toList =
        "API void f".toList ++ '(' :: ([','].intercalate
          (["int n".toList] ++ labelPointer.text :: []) ++ ')' :: ";".toList) := by
      decide +kernel
    rw [hdeclaration, hrecorded.2 rfl _ "f".toList _ _ _ (by decide +kernel) (by decide +kernel)
      (by decide +kernel) (by decide +kernel)]
    decide +kernel

/-- Without a blank before the stars, with one before the brackets, or with `const` for a type there
is no field; a parameter without a blank, or with brackets, is known by all of its last word. -/
theorem recorded_tight_and_gapped :
    fieldOf? "char*label".toList = none ∧
    signatureOf? "void f(char*label)".toList =
      some { name := "f", pointerArgs := [⟨"char*label", "char*label"⟩] } ∧
    fieldOf? "char *label [4]".toList = none ∧
    signatureOf? "void f(char *label [4])".toList =
      some { name := "f", pointerArgs := [⟨"[4]", "char *label [4]"⟩] } ∧
    fieldOf? "const *label".toList = none ∧
    signatureOf? "void f(char *label[4])".toList =
      some { name := "f", pointerArgs := [⟨"label[4]", "char *label[4]"⟩] } := by
  decide +kernel

end HeaderAccord.Header
