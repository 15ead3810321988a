import HeaderAccord.Proofs.Comment
import HeaderAccord.Proofs.Header.Function

/-!
Prototypes as they are written in a header. A prototype `marker types.. stars name(parameters) tail`
starts a line and may be broken into lines in its parameter list, with blanks and comments between
its tokens. Between prototypes stand lines that the marker does not start. Read back, the header has
the functions of its prototypes, in order, and no others.
-/

namespace HeaderAccord.Header

open Text

/-! ### Parameters -/

/-- What follows the stars at the front of a token. -/
def IsStarless (name : List Char) : Prop := name ≠ [] ∧ name.head? ≠ some '*'

instance (name : List Char) : Decidable (IsStarless name) :=
  inferInstanceAs (Decidable (name ≠ [] ∧ name.head? ≠ some '*'))

theorem lastName?_append (types : List (List Char)) {stars name : List Char}
    (hstars : ∀ c ∈ stars, c = '*') (hname : IsStarless name) :
    lastName? (types ++ [stars ++ name]) = some name := by
  have hdrop : (stars ++ name).dropWhile (· = '*') = name := by
    rw [List.dropWhile_append_of_pos fun c hc => decide_eq_true (hstars c hc)]
    cases name with
    | nil => rfl
    | cons c name =>
        have hc : c ≠ '*' := by simpa using hname.2
        simp [hc]
  rw [lastName?, List.getLast?_concat]
  dsimp only
  rw [hdrop]
  simp [hname.1]

/-- The tokens of a parameter. -/
inductive ParameterTokens
  | plain (tokens : List (List Char)) (unstarred : ∀ t ∈ tokens, '*' ∉ t)
  /-- the last token is stars only -/
  | unnamed (types : List (List Char)) (stars : List Char)
      (stars_spelled : stars ≠ [] ∧ ∀ c ∈ stars, c = '*')
  /-- the last token is `stars name`, and one of the tokens has a star -/
  | pointer (types : List (List Char)) (stars name : List Char)
      (stars_spelled : ∀ c ∈ stars, c = '*') (name_spelled : IsStarless name)
      (starred : ∃ t ∈ types ++ [stars ++ name], '*' ∈ t)

namespace ParameterTokens

def tokens : ParameterTokens → List (List Char)
  | plain tokens _ => tokens
  | unnamed types stars _ => types ++ [stars]
  | pointer types stars name _ _ _ => types ++ [stars ++ name]

/-- The pointer parameter that is meant: the key of its name, and its tokens. -/
def arg? : ParameterTokens → Option PointerArg
  | pointer types stars name _ _ _ => some {
      name := Name.key (String.ofList name)
      cParam := String.ofList ([' '].intercalate (types ++ [stars ++ name])) }
  | _ => none

theorem argOfWords?_tokens (p : ParameterTokens) : argOfWords? p.tokens = p.arg? := by
  cases p with
  | plain tokens unstarred =>
      rw [argOfWords?, if_neg]
      · rfl
      · rintro ⟨t, ht, hmem⟩
        exact unstarred t ht hmem
  | unnamed types stars hstars =>
      have hdrop : stars.dropWhile (· = '*') = [] := by
        rw [← List.append_nil stars, List.dropWhile_append_of_pos fun c hc =>
          decide_eq_true (hstars.2 c hc)]
        rfl
      have hnone : lastName? (types ++ [stars]) = none := by
        rw [lastName?, List.getLast?_concat]
        dsimp only
        rw [hdrop]
        rfl
      rw [tokens, argOfWords?, hnone]
      split <;> rfl
  | pointer types stars name hstars hname hstarred =>
      rw [tokens, argOfWords?, if_pos hstarred, lastName?_append types hstars hname]
      simp [arg?, Name.key]

end ParameterTokens

/-- A parameter with blanks and comments between its tokens. -/
structure PrototypeParameter where
  form : ParameterTokens
  chunk : Chunk
  renders : Renders form.tokens chunk
  plain : NoParens chunk.code ∧ ',' ∉ chunk.code

/-! ### Prototypes -/

/-- A prototype. Of the tokens before its parameter list the first ones are the marker, and the last
one is `stars name`. -/
structure Prototype (marker : List Char) where
  head : Chunk
  types : List (List Char)
  stars : List Char
  name : List Char
  parameters : List PrototypeParameter
  tail : Chunk
  note : Option Note
  head_marked : marker <+: head.code
  head_renders : Renders (types ++ [stars ++ name]) head
  head_plain : NoParens head.code ∧ '\n' ∉ head.code
  stars_spelled : ∀ c ∈ stars, c = '*'
  name_spelled : IsStarless name
  tail_plain : NoParens tail.code ∧ '\n' ∉ tail.code

/-- The functions of a text, with the C text of their parameters collapsed. -/
def signaturesIn (marker text : List Char) : List FunctionSignature :=
  ((declarationsIn marker none text).filterMap signatureOf?).map (·.collapsed)

namespace Prototype

variable {marker : List Char} (p : Prototype marker)

def list : Chunk := (Chunk.ofText ",").intercalate (p.parameters.map (·.chunk))

def chunk : Chunk := p.head ++ (Chunk.ofText "(" ++ (p.list ++ (Chunk.ofText ")" ++ p.tail)))

/-- The function that is meant. -/
def signature : FunctionSignature where
  name := String.ofList p.name
  pointerArgs := p.parameters.filterMap (·.form.arg?)

theorem code_chunk :
    p.chunk.code = p.head.code ++ '(' :: (p.list.code ++ ')' :: p.tail.code) := by
  simp [chunk]

theorem code_list : p.list.code = [','].intercalate (p.parameters.map (·.chunk.code)) := by
  rw [list]
  induction p.parameters with
  | nil => rfl
  | cons q qs ih =>
      cases qs with
      | nil => simp
      | cons r qs =>
          simp only [List.map_cons, List.intercalate_cons_cons, Chunk.code_append,
            Chunk.code_ofText] at ih ⊢
          rw [ih]
          rfl

theorem noParens_list : NoParens p.list.code := by
  rw [code_list]
  induction p.parameters with
  | nil => decide
  | cons q qs ih =>
      cases qs with
      | nil => simpa using q.plain.1
      | cons r qs =>
          rw [List.map_cons, List.map_cons, List.intercalate_cons_cons]
          exact noParens_append.2 ⟨noParens_append.2 ⟨q.plain.1, by decide⟩, ih⟩

/-- The parameters are read one by one. -/
theorem filterMap_argOfWords? :
    ((pieces (· = ',') p.list.code).map words).filterMap argOfWords? =
      p.parameters.filterMap (·.form.arg?) := by
  rw [code_list]
  cases hparameters : p.parameters with
  | nil => rfl
  | cons q qs =>
      have hcommas : ∀ c ∈ (q :: qs).map (·.chunk.code), ',' ∉ c := by
        intro c hc
        obtain ⟨r, -, rfl⟩ := List.mem_map.1 hc
        exact r.plain.2
      rw [pieces_intercalate (by simp) hcommas, List.map_map, List.filterMap_map]
      congr 1
      funext r
      show argOfWords? (words r.chunk.code) = r.form.arg?
      rw [r.renders.words_code, r.form.argOfWords?_tokens]

/-- A prototype is read as its function, and then what follows it. -/
theorem signaturesIn_chunk (rest : Option (List Char)) :
    signaturesIn marker (p.chunk.code ++ ended rest) =
      p.signature :: signaturesIn marker (rest.getD []) := by
  obtain ⟨list', tail', htail', hlist', hdeclarations⟩ :=
    declarationsIn_declaration p.head_marked p.head_plain p.noParens_list p.tail_plain rest
  have hname : declaredName? p.head.code = some p.name := by
    have hlast := lastName?_append p.types p.stars_spelled p.name_spelled
    rwa [← p.head_renders.words_code] at hlast
  have hsignature := signatureOf?_collapsed p.head_plain.1.1 hname htail' hlist'
  rw [p.filterMap_argOfWords?] at hsignature
  obtain ⟨f, hf, hcollapsed⟩ := Option.map_eq_some_iff.1 hsignature
  have htext : p.chunk.code ++ ended rest =
      p.head.code ++ '(' :: (p.list.code ++ ')' :: (p.tail.code ++ ended rest)) := by
    simp [code_chunk]
  rw [signaturesIn, htext, hdeclarations, List.filterMap_cons, hf]
  dsimp only
  rw [List.map_cons, hcollapsed]
  rfl

end Prototype

/-! ### Headers -/

/-- A stretch of a header: a prototype, or lines that the marker does not start. -/
inductive Stretch (marker : List Char)
  | prototype (p : Prototype marker)
  | other (text code : List Char) (closed : Closed text code)
      (plain : ∀ line ∈ pieces (· = '\n') code, ¬marker <+: line)

namespace Stretch

variable {marker : List Char}

def text : Stretch marker → List Char
  | prototype p => p.chunk.text ++ (p.note.map Note.text).getD []
  | other text _ _ _ => text

def code : Stretch marker → List Char
  | prototype p => p.chunk.code
  | other _ code _ _ => code

/-- The function that a stretch declares, if it does. -/
def signatures : Stretch marker → List FunctionSignature
  | prototype p => [p.signature]
  | other _ _ _ _ => []

theorem closed (s : Stretch marker) : Closed s.text s.code := by
  cases s with
  | prototype p => exact closed_chunk p.chunk p.note
  | other text code h _ => exact h

theorem signaturesIn_code (s : Stretch marker) (rest : Option (List Char)) :
    signaturesIn marker (s.code ++ ended rest) =
      s.signatures ++ signaturesIn marker (rest.getD []) := by
  cases s with
  | prototype p => exact p.signaturesIn_chunk rest
  | other text code _ hplain =>
      rw [signaturesIn, Stretch.code, declarationsIn_lines hplain]
      rfl

end Stretch

/-- A header: stretches on lines of their own. -/
def stretchesText {marker : List Char} (ss : List (Stretch marker)) : List Char :=
  ['\n'].intercalate (ss.map (·.text))

theorem signaturesIn_intercalate {marker : List Char} (ss : List (Stretch marker)) :
    signaturesIn marker (['\n'].intercalate (ss.map (·.code))) = ss.flatMap (·.signatures) := by
  induction ss with
  | nil => rfl
  | cons s ss ih =>
      cases ss with
      | nil =>
          have h := s.signaturesIn_code none
          have hend : signaturesIn marker [] = [] := rfl
          rw [ended, Option.getD_none, hend, List.append_nil] at h
          simpa using h
      | cons next ss =>
          have h := s.signaturesIn_code
            (some (['\n'].intercalate ((next :: ss).map (·.code))))
          rw [Option.getD_some, ih] at h
          rw [List.map_cons, List.map_cons, List.intercalate_cons_cons, List.append_assoc]
          exact h

/-- A header has the functions of its prototypes, in order, each with its pointer parameters, and no
others. -/
theorem extractFunctions_header (marker : String) (ss : List (Stretch marker.toList)) :
    (extractFunctions (stripComments (String.ofList (stretchesText ss))) marker).map
      (·.collapsed) = ss.flatMap (·.signatures) := by
  have hclosed : ∀ p ∈ ss.map fun s => (s.text, s.code), Closed p.1 p.2 := by
    intro p hp
    obtain ⟨s, -, rfl⟩ := List.mem_map.1 hp
    exact s.closed
  have hparts := withoutComments_intercalate hclosed
  rw [List.map_map, List.map_map] at hparts
  rw [extractFunctions, stripComments, String.toList_ofList, String.toList_ofList, stretchesText]
  exact (congrArg (signaturesIn marker.toList) hparts).trans (signaturesIn_intercalate ss)

/-- A parameter without a name is recorded under its last token, and a parenthesis in the marker is
taken for that of the parameter list. -/
theorem extractFunctions_unnamed_and_marker :
    extractFunctions (stripComments "API void f(const char*);") "API" =
        [{ name := "f", pointerArgs := [{ name := "char*", cParam := "const char*" }] }] ∧
      extractFunctions (stripComments "__declspec(dllexport) void f(int *x);")
          "__declspec(dllexport)" =
        [{ name := "__declspec"
           pointerArgs := [{ name := "x", cParam := "dllexport) void f(int *x" }] }] := by
  decide +kernel

/-! A prototype on two lines, with a parameter without a name, and a line without the marker. -/

theorem slash_not_mem_space : '/' ∉ " ".toList := by decide

theorem slash_not_mem_extent : '/' ∉ "Extent".toList := by decide

theorem slash_not_mem_semicolon : '/' ∉ ";".toList := by decide

theorem eq_star_of_mem : ∀ c ∈ ['*'], c = '*' := by simp

def space : Chunk := Chunk.ofText " " slash_not_mem_space

def getHead : Chunk :=
  [] ++ (Chunk.ofText "API" ++ (space ++ (Chunk.ofText "char" ++
    (space ++ (Chunk.ofText "*get" ++ [])))))

theorem renders_getHead : Renders ["API".toList, "char".toList, "*get".toList] getHead := by
  have hname := Renders.token space (Chunk.ofText "*get") (by decide) (by decide)
    (.gap [] (by decide)) (by decide)
  have htype := Renders.token space (Chunk.ofText "char") (by decide) (by decide)
    hname (by decide)
  exact .token [] (Chunk.ofText "API") (by decide) (by decide) htype (by decide)

def inputGap : Chunk := space ++ (.block " in ".toList (by decide) :: space)

def inputParameter : PrototypeParameter where
  form := .pointer ["char".toList, "*".toList] [] "input".toList nofun
    (by decide) ⟨"*".toList, by decide, by decide⟩
  chunk := [] ++ (Chunk.ofText "char" ++ (space ++ (Chunk.ofText "*" ++
    (inputGap ++ (Chunk.ofText "input" ++ [])))))
  renders := by
    have hname := Renders.token inputGap (Chunk.ofText "input") (by decide) (by decide)
      (.gap [] (by decide)) (by decide)
    have hstar := Renders.token space (Chunk.ofText "*") (by decide) (by decide)
      hname (by decide)
    exact .token [] (Chunk.ofText "char") (by decide) (by decide) hstar (by decide)
  plain := by decide

def unnamedParameter : PrototypeParameter where
  form := .unnamed ["Extent".toList] ['*'] (by simp)
  chunk := Chunk.ofText "\n  " ++ (Chunk.ofText "Extent" slash_not_mem_extent ++ (space ++
    (Chunk.ofText "*" ++ [])))
  renders := by
    have hstar := Renders.token space (Chunk.ofText "*") (by decide) (by decide)
      (.gap [] (by decide)) (by decide)
    exact .token (Chunk.ofText "\n  ") (Chunk.ofText "Extent" slash_not_mem_extent) (by decide)
      (by decide) hstar (by decide)
  plain := by decide

def getPrototype : Prototype "API".toList where
  head := getHead
  types := ["API".toList, "char".toList]
  stars := ['*']
  name := "get".toList
  parameters := [inputParameter, unnamedParameter]
  tail := Chunk.ofText ";" slash_not_mem_semicolon
  note := some { body := " end".toList, unbroken := by decide }
  head_marked := by decide
  head_renders := renders_getHead
  head_plain := by decide
  stars_spelled := eq_star_of_mem
  name_spelled := by decide
  tail_plain := by decide

def plainLine : Stretch "API".toList :=
  .other "int g(int *x);".toList "int g(int *x);".toList
    (closed_chunk (Chunk.ofText "int g(int *x);") none) (by decide)

theorem extractFunctions_header_get :
    (extractFunctions (stripComments
        "API char *get(char * /* in */ input,\n  Extent *);// end\nint g(int *x);") "API").map
      (·.collapsed) =
      [{ name := "get"
         pointerArgs := [{ name := "input", cParam := "char * input" }] }] := by
  have htext : String.ofList (stretchesText [.prototype getPrototype, plainLine]) =
      "API char *get(char * /* in */ input,\n  Extent *);// end\nint g(int *x);" := by
    decide +kernel
  have hsignatures : [Stretch.prototype getPrototype, plainLine].flatMap (·.signatures) =
      [{ name := "get"
         pointerArgs := [{ name := "input", cParam := "char * input" }] }] := by
    decide +kernel
  rw [← htext, extractFunctions_header "API", hsignatures]

end HeaderAccord.Header
