import HeaderAccord.Override.Block
import HeaderAccord.Proofs.CommentLexer
import HeaderAccord.Proofs.Header.Structure
import HeaderAccord.Proofs.Lines

/-!
Line breaks of two characters. A text may be stored with a carriage return before each line feed.
Taking the comments out of such a text leaves some of the returns and not others: a line comment takes
the return with it, a block comment takes the whole break. So what is read of the code is said for
`dropReturns`, which takes away whichever returns are left: a return before a line feed is never a part
of a line, and between the tokens of a structure it is one more blank.
-/

namespace HeaderAccord

namespace Text

/-- A text with a carriage return before each line feed. -/
def withReturns (cs : List Char) : List Char :=
  cs.flatMap fun c => if c = '\n' then ['\r', '\n'] else [c]

/-- A text without the carriage returns that stand before a line feed. -/
def dropReturns : List Char → List Char
  | [] => []
  | '\r' :: '\n' :: cs => '\n' :: dropReturns cs
  | c :: cs => c :: dropReturns cs

@[simp] theorem withReturns_nil : withReturns [] = [] := rfl

@[simp] theorem withReturns_newline (cs : List Char) :
    withReturns ('\n' :: cs) = '\r' :: '\n' :: withReturns cs := rfl

theorem withReturns_cons {c : Char} (hc : c ≠ '\n') (cs : List Char) :
    withReturns (c :: cs) = c :: withReturns cs := by
  simp [withReturns, hc]

@[simp] theorem dropReturns_nil : dropReturns [] = [] := by rw [dropReturns]

@[simp] theorem dropReturns_break (cs : List Char) :
    dropReturns ('\r' :: '\n' :: cs) = '\n' :: dropReturns cs := by rw [dropReturns]

theorem dropReturns_cons {c : Char} (hc : c ≠ '\r') (cs : List Char) :
    dropReturns (c :: cs) = c :: dropReturns cs := by
  rw [dropReturns]
  exact fun _ h _ => hc h

/-- A character other than a line feed divides the line breaks of a text. -/
theorem dropReturns_append_cons {c : Char} (hc : c ≠ '\n') (a b : List Char) :
    dropReturns (a ++ c :: b) = dropReturns a ++ dropReturns (c :: b) := by
  fun_induction dropReturns a with
  | case1 => rfl
  | case2 a ih => rw [List.cons_append, List.cons_append, dropReturns_break, ih, List.cons_append]
  | case3 d a hbreak ih =>
      rw [List.cons_append, dropReturns, ih, List.cons_append]
      rintro cs rfl heq
      cases a with
      | nil => exact hc (List.cons.inj heq).1
      | cons e a =>
          obtain ⟨rfl, -⟩ := List.cons.inj heq
          exact hbreak a rfl rfl

theorem mem_dropReturns_iff {c : Char} (hc : c ≠ '\r') {cs : List Char} :
    c ∈ dropReturns cs ↔ c ∈ cs := by
  fun_induction dropReturns cs with
  | case1 => rfl
  | case2 cs ih => simp [ih, hc]
  | case3 d cs _ ih => simp [ih]

/-- The returns of a text are dropped with the blanks that they stand among. -/
theorem squeeze_dropReturns (cs : List Char) : squeeze (dropReturns cs) = squeeze cs := by
  fun_induction dropReturns cs with
  | case1 => rfl
  | case2 cs ih =>
      have hreturn : isBlank '\r' = true := by decide
      have hfeed : isBlank '\n' = true := by decide
      rw [squeeze_cons_of_blank hfeed, ih, squeeze_cons_of_blank hreturn,
        squeeze_cons_of_blank hfeed, trimStart_cons_of_blank isBlank_space, trimStart_trimStart]
  | case3 c cs _ ih => rw [squeeze, squeeze, ih]

theorem words_dropReturns (cs : List Char) : words (dropReturns cs) = words cs := by
  rw [← words_collapse, ← collapse_squeeze, squeeze_dropReturns, collapse_squeeze, words_collapse]

/-- The lines of a text do not hold the returns of its breaks. -/
theorem lines_dropReturns {cs : List Char} (h : '\r' ∉ dropReturns cs) :
    lines (dropReturns cs) = lines cs := by
  fun_induction dropReturns cs with
  | case1 => rfl
  | case2 cs ih =>
      rw [List.mem_cons, not_or] at h
      rw [lines_newline, ih h.2, lines]
  | case3 c cs hbreak ih =>
      rw [List.mem_cons, not_or] at h
      by_cases hc : c = '\n'
      · rw [hc, lines_newline, lines_newline, ih h.2]
      · rw [lines, lines, ih h.2]
        · exact hc
        · exact hbreak
        · exact hc
        · exact fun _ hreturn _ => h.1 hreturn.symm

theorem dropReturns_withReturns {cs : List Char} (h : '\r' ∉ cs) :
    dropReturns (withReturns cs) = cs := by
  induction cs with
  | nil => simp
  | cons c cs ih =>
      rw [List.mem_cons, not_or] at h
      by_cases hc : c = '\n'
      · rw [hc, withReturns_newline, dropReturns_break, ih h.2]
      · rw [withReturns_cons hc, dropReturns_cons (Ne.symm h.1), ih h.2]

theorem lines_withReturns {cs : List Char} (h : '\r' ∉ cs) :
    lines (withReturns cs) = lines cs := by
  have hdrop := dropReturns_withReturns h
  rw [← lines_dropReturns (by rwa [hdrop]), hdrop]

/-! ### Cuts -/

theorem cutFirst?_dropReturns {sep : Char} (hsep : sep ≠ '\n' ∧ sep ≠ '\r') (cs : List Char) :
    cutFirst? sep (dropReturns cs) = (cutFirst? sep cs).map fun (before, after) =>
      (dropReturns before, dropReturns after) := by
  by_cases h : sep ∈ cs
  · obtain ⟨before, after, rfl, hbefore⟩ := List.eq_append_cons_of_mem h
    rw [dropReturns_append_cons hsep.1, dropReturns_cons hsep.2, cutFirst?_append hbefore,
      cutFirst?_append (mt (mem_dropReturns_iff hsep.2).1 hbefore)]
    rfl
  · rw [cutFirst?_eq_none_iff.2 h,
      cutFirst?_eq_none_iff.2 (mt (mem_dropReturns_iff hsep.2).1 h)]
    rfl

/-- The pieces of a text between separators that break no line. -/
theorem pieces_dropReturns {sep : Char} (hsep : sep ≠ '\n' ∧ sep ≠ '\r') (cs : List Char) :
    pieces (· = sep) (dropReturns cs) = (pieces (· = sep) cs).map dropReturns := by
  have hjoined (parts : List (List Char)) :
      dropReturns ([sep].intercalate parts) = [sep].intercalate (parts.map dropReturns) := by
    induction parts with
    | nil => exact dropReturns_nil
    | cons p parts ih =>
        cases parts with
        | nil => simp
        | cons q parts =>
            rw [List.intercalate_cons_cons, List.append_assoc, List.singleton_append,
              dropReturns_append_cons hsep.1, dropReturns_cons hsep.2, ih]
            simp [List.intercalate_cons_cons]
  have hne : (pieces (· = sep) cs).map dropReturns ≠ [] := by simp [pieces_ne_nil]
  conv => lhs; rw [← intercalate_pieces sep cs, hjoined]
  refine pieces_intercalate hne fun p hp hmem => ?_
  obtain ⟨q, hq, rfl⟩ := List.mem_map.1 hp
  have hpiece := exists_mem_pieces_iff.1 ⟨q, hq, (mem_dropReturns_iff hsep.2).1 hmem⟩
  simpa using hpiece.2

theorem afterPrefix?_dropReturns {pattern : List Char} (hpattern : '\n' ∉ pattern ∧ '\r' ∉ pattern)
    (cs : List Char) :
    afterPrefix? pattern (dropReturns cs) = (afterPrefix? pattern cs).map dropReturns := by
  induction pattern generalizing cs with
  | nil => rfl
  | cons p pattern ih =>
      simp only [List.mem_cons, not_or] at hpattern
      obtain ⟨⟨hfeed, hfeeds⟩, hreturn, hreturns⟩ := hpattern
      fun_cases dropReturns cs with
      | case1 => rfl
      | case2 cs => simp [afterPrefix?, Ne.symm hfeed, Ne.symm hreturn]
      | case3 c cs _ =>
          rw [afterPrefix?, afterPrefix?]
          split
          · exact ih ⟨hfeeds, hreturns⟩ cs
          · rfl

/-- What follows the first occurrence of a pattern that breaks no line. -/
theorem cutAt?_dropReturns {pattern : List Char} (hne : pattern ≠ [])
    (hpattern : '\n' ∉ pattern ∧ '\r' ∉ pattern) (cs : List Char) :
    (cutAt? pattern (dropReturns cs)).map (·.2) =
      (cutAt? pattern cs).map fun p => dropReturns p.2 := by
  -- a line break is passed over, as every other character in front of the pattern is
  have hpass {c : Char} {cs : List Char} (h : afterPrefix? pattern (c :: cs) = none) :
      (cutAt? pattern (c :: cs)).map (·.2) = (cutAt? pattern cs).map (·.2) := by
    rw [cutAt?, h, Option.map_map]
    rfl
  have hbreak {c : Char} (hc : c ∉ pattern) (cs : List Char) :
      afterPrefix? pattern (c :: cs) = none := by
    refine afterPrefix?_eq_none ?_
    rintro ⟨after, h⟩
    obtain ⟨p, pattern, rfl⟩ := List.exists_cons_of_ne_nil hne
    obtain ⟨rfl, -⟩ := List.cons.inj h
    exact hc (by simp)
  rw [← Function.comp_def dropReturns, ← Option.map_map]
  fun_induction dropReturns cs with
  | case1 => simp [cutAt?, hne]
  | case2 cs ih =>
      rw [hpass (hbreak hpattern.1 _), hpass (hbreak hpattern.2 _), hpass (hbreak hpattern.1 _), ih]
  | case3 c cs hcs ih =>
      have hkept : dropReturns (c :: cs) = c :: dropReturns cs := by
        rw [dropReturns]
        exact hcs
      have hprefix := afterPrefix?_dropReturns hpattern (c :: cs)
      rw [hkept] at hprefix
      cases hafter : afterPrefix? pattern (c :: cs) with
      | none =>
          rw [hafter] at hprefix
          rw [hpass hprefix, hpass hafter, ih]
      | some after =>
          rw [hafter] at hprefix
          rw [cutAt?, cutAt?, hprefix, hafter]
          rfl

end Text

open Text

/-! ### Structures -/

namespace Header

open HeaderAccord.Bracket

theorem closing?_dropReturns (depth : Nat) (before : Char) (cs : List Char) :
    closing? '{' '}' depth before (dropReturns cs) =
      (closing? '{' '}' depth before cs).map fun (inside, rest) =>
        (dropReturns inside, dropReturns rest) := by
  have hblank {c : Char} (hc : isBlank c = true) (depth : Nat) (before : Char) (cs : List Char) :
      closing? '{' '}' depth before (c :: cs) =
        (closing? '{' '}' depth c cs).map fun (inside, rest) => (c :: inside, rest) :=
    closing?_cons_of_blank (by decide) (by decide) hc depth before cs
  fun_induction dropReturns cs generalizing depth before with
  | case1 => rfl
  | case2 cs ih =>
      rw [hblank (by decide), ih, hblank (by decide), hblank (by decide), Option.map_map,
        Option.map_map, Option.map_map]
      exact Option.map_congr fun p _ => by simp
  | case3 c cs hcs ih =>
      -- the character stays in front of what is enclosed
      have hkept (depth' : Nat) :
          (closing? '{' '}' depth' c (dropReturns cs)).map
              (fun (inside, rest) => (c :: inside, rest)) =
            ((closing? '{' '}' depth' c cs).map fun (inside, rest) => (c :: inside, rest)).map
              fun (inside, rest) => (dropReturns inside, dropReturns rest) := by
        rw [ih, Option.map_map, Option.map_map]
        refine Option.map_congr fun p hp => ?_
        have hinside : dropReturns (c :: p.1) = c :: dropReturns p.1 := by
          rw [dropReturns]
          intro ds hc hds
          rw [closing?_eq_some hp, hds] at hcs
          exact hcs _ hc rfl
        simp [hinside]
      rw [closing?, closing?, hkept, hkept, hkept]
      split
      · rfl
      · split
        · split <;> rfl
        · rfl

theorem fieldOf?_dropReturns (statement : List Char) :
    fieldOf? (dropReturns statement) = fieldOf? statement := by
  rw [fieldOf?, words_dropReturns, fieldOf?]

theorem fieldsIn_dropReturns (body : List Char) : fieldsIn (dropReturns body) = fieldsIn body := by
  have hfields : fieldOf? ∘ dropReturns = fieldOf? := funext fieldOf?_dropReturns
  rw [fieldsIn, pieces_dropReturns (by decide), List.filterMap_map, hfields, fieldsIn]

/-- An item is read the same, up to what follows it. -/
theorem structureItem?_dropReturns (cs : List Char) :
    structureItem? (dropReturns cs) = (structureItem? cs).map fun (layout, rest) =>
      (layout, dropReturns rest) := by
  have hsemicolon (tag : List Char) : ';' ∈ dropReturns tag ↔ ';' ∈ tag :=
    mem_dropReturns_iff (by decide)
  have hbrace (body : List Char) : '{' ∈ dropReturns body ↔ '{' ∈ body :=
    mem_dropReturns_iff (by decide)
  have hcut := cutFirst?_dropReturns (show ';' ≠ '\n' ∧ ';' ≠ '\r' by decide)
  rw [structureItem?, structureItem?, cutFirst?_dropReturns (by decide)]
  cases cutFirst? '{' cs with
  | none => rfl
  | some parts =>
      obtain ⟨tag, opened⟩ := parts
      dsimp only [Option.map_some]
      rw [hcut, enclosed?, closing?_dropReturns, enclosed?]
      simp only [hsemicolon]
      split
      · rw [Option.map_map, Option.map_map]
        rfl
      · cases closing? '{' '}' 0 '{' opened with
        | none => rfl
        | some parts =>
            obtain ⟨body, closed⟩ := parts
            dsimp only [Option.map_some]
            rw [hcut]
            cases cutFirst? ';' closed with
            | none => rfl
            | some parts =>
                obtain ⟨declarator, rest⟩ := parts
                dsimp only [Option.map_some]
                rw [words_dropReturns, fieldsIn_dropReturns]
                simp only [hbrace]
                split
                · rfl
                · cases words declarator <;> rfl

theorem structuresIn_dropReturns (code : List Char) :
    structuresIn (dropReturns code) = structuresIn code := by
  have hkeyword : structKeyword ≠ [] ∧ '\n' ∉ structKeyword ∧ '\r' ∉ structKeyword := by decide
  -- the code shrinks by what is read of it
  induction hn : code.length using Nat.strongRecOn generalizing code with
  | ind n ih =>
    subst hn
    have hcut := cutAt?_dropReturns hkeyword.1 hkeyword.2 code
    rw [structuresIn_eq, structuresIn_eq code]
    cases hcode : cutAt? structKeyword code with
    | none =>
        rw [hcode, Option.map_none, Option.map_eq_none_iff] at hcut
        rw [hcut]
    | some parts =>
        obtain ⟨before, item⟩ := parts
        rw [hcode, Option.map_some] at hcut
        obtain ⟨⟨before', item'⟩, hcut, rfl⟩ := Option.map_eq_some_iff.1 hcut
        rw [hcut]
        dsimp only
        rw [structureItem?_dropReturns]
        cases hitem : structureItem? item with
        | none => rfl
        | some parts =>
            obtain ⟨layout, rest⟩ := parts
            have hshorter := length_le_of_cutAt? hcode
            have hrest := length_lt_of_structureItem? hitem
            dsimp only [Option.map_some]
            rw [ih rest.length (by omega) rest rfl]

end Header

/-! ### Comments -/

theorem exists_eq_cons_of_withReturns {c : Char} (hc : c ≠ '\r') {cs ds : List Char}
    (h : withReturns cs = c :: ds) : ∃ es, cs = c :: es := by
  cases cs with
  | nil => cases h
  | cons e es =>
      by_cases he : e = '\n'
      · rw [he, withReturns_newline] at h
        exact absurd (List.cons.inj h).1.symm hc
      · rw [withReturns_cons he] at h
        exact ⟨es, by rw [(List.cons.inj h).1]⟩

/-- What the lexer leaves of a text with returns is what it leaves of the text, with some of the
returns in it. -/
theorem dropReturns_codeFrom (mode : LexerMode) {cs : List Char} (h : '\r' ∉ cs) :
    dropReturns (codeFrom mode (withReturns cs)) = codeFrom mode cs := by
  have hslash (cs : List Char) : withReturns ('/' :: cs) = '/' :: withReturns cs :=
    withReturns_cons (by decide) cs
  have hstar (cs : List Char) : withReturns ('*' :: cs) = '*' :: withReturns cs :=
    withReturns_cons (by decide) cs
  fun_induction codeFrom mode cs with
  | case1 => simp [codeFrom]
  | case2 cs ih =>
      simp only [List.mem_cons, not_or] at h
      rw [hslash, hslash, codeFrom, ih h.2.2]
  | case3 cs ih =>
      simp only [List.mem_cons, not_or] at h
      rw [hslash, hstar, codeFrom, ih h.2.2]
  | case4 c cs hline hblock ih =>
      rw [List.mem_cons, not_or] at h
      by_cases hc : c = '\n'
      · -- a break in the code keeps its return
        rw [hc, withReturns_newline, codeFrom, codeFrom, dropReturns_break, ih h.2]
        all_goals simp
      · rw [withReturns_cons hc, codeFrom, dropReturns_cons (Ne.symm h.1), ih h.2]
        · intro ds hslash hds
          obtain ⟨es, hes⟩ := exists_eq_cons_of_withReturns (by decide) hds
          exact hline es hslash hes
        · intro ds hslash hds
          obtain ⟨es, hes⟩ := exists_eq_cons_of_withReturns (by decide) hds
          exact hblock es hslash hes
  | case5 cs ih =>
      -- the break that ends a line comment has lost its return to the comment
      rw [List.mem_cons, not_or] at h
      rw [withReturns_newline, codeFrom, codeFrom, dropReturns_cons (by decide), ih h.2]
      decide
  | case6 c cs hc ih =>
      rw [List.mem_cons, not_or] at h
      rw [withReturns_cons hc, codeFrom, ih h.2]
      exact hc
  | case7 cs ih =>
      simp only [List.mem_cons, not_or] at h
      rw [hstar, hslash, codeFrom, ih h.2.2]
  | case8 c cs hclose ih =>
      rw [List.mem_cons, not_or] at h
      by_cases hc : c = '\n'
      · rw [hc, withReturns_newline, codeFrom, codeFrom, ih h.2]
        all_goals simp
      · rw [withReturns_cons hc, codeFrom, ih h.2]
        intro ds hstar hds
        obtain ⟨es, hes⟩ := exists_eq_cons_of_withReturns (by decide) hds
        exact hclose es hstar hes

theorem mem_of_mem_codeFrom {mode : LexerMode} {c : Char} {cs : List Char}
    (h : c ∈ codeFrom mode cs) : c ∈ cs := by
  fun_induction codeFrom mode cs with
  | case1 => exact h
  | case2 cs ih => simp [ih h]
  | case3 cs ih => simp [ih h]
  | case4 d cs _ _ ih =>
      rcases List.mem_cons.1 h with rfl | h
      · simp
      · simp [ih h]
  | case5 cs ih =>
      rcases List.mem_cons.1 h with rfl | h
      · simp
      · simp [ih h]
  | case6 d cs _ ih => simp [ih h]
  | case7 cs ih => simp [ih h]
  | case8 d cs _ ih => simp [ih h]

/-- The code of a text with returns has the lines and the structures of the code of the text. -/
theorem withoutComments_withReturns {text : List Char} (h : '\r' ∉ text) :
    lines (withoutComments (withReturns text)) = lines (withoutComments text) ∧
      Header.structuresIn (withoutComments (withReturns text)) =
        Header.structuresIn (withoutComments text) := by
  have hcode : dropReturns (withoutComments (withReturns text)) = withoutComments text := by
    rw [withoutComments_eq_codeFrom, dropReturns_codeFrom .code h, withoutComments_eq_codeFrom]
  have hnone : '\r' ∉ withoutComments text := by
    rw [withoutComments_eq_codeFrom]
    exact mt mem_of_mem_codeFrom h
  rw [← hcode] at hnone
  rw [← lines_dropReturns hnone, ← Header.structuresIn_dropReturns, hcode]
  exact ⟨rfl, rfl⟩

/-! ### Headers and scripts -/

/-- How the lines of a text end does not matter. With a carriage return before each line feed, a
header declares the same functions and structures to whatever the headers before it declare, and a
build script has the same blocks. -/
theorem addHeader_blocks_withReturns {text : String} (h : '\r' ∉ text.toList) :
    let returned := String.ofList (withReturns text.toList)
    (∀ (index : HeaderIndex) (marker : String),
      index.addHeader returned marker = index.addHeader text marker) ∧
    Override.blocks returned = Override.blocks text := by
  intro returned
  have hreturned : returned.toList = withReturns text.toList := String.toList_ofList
  obtain ⟨hlines, hstructures⟩ := withoutComments_withReturns h
  refine ⟨fun index marker => ?_, ?_⟩
  · simp only [HeaderIndex.addHeader, hreturned, Header.functionsIn, hlines, hstructures]
  · rw [Override.blocks, hreturned, lines_withReturns h, Override.blocks]

/-- A declaration over several lines, comments of both kinds at the end of a line, and a structure of
each language. -/
theorem addHeader_blocks_withReturns_mixed :
    let text := "X f( // n\n char *b);\n/* n\n*/typedef struct\x7b int\n*a;\x7d S;\n" ++
      "pub struct S\x7b\npub a: u8\x7d"
    let returned := String.ofList (withReturns text.toList)
    '\r' ∉ text.toList ∧
      HeaderIndex.ofText returned "X" =
        { functions := [{ name := "f", pointerArgs := [⟨"b", "char *b"⟩] }]
          structures := .ofList [("S", { name := "S", fields := [⟨"a", "a", "int*"⟩] })] } ∧
      Override.blocks returned = [{ name := "S", fields := .ofList [("a", "a")] }] := by
  intro text returned
  have hnone : '\r' ∉ text.toList := by decide +kernel
  obtain ⟨hindex, hblocks⟩ := addHeader_blocks_withReturns hnone
  refine ⟨hnone, ?_, ?_⟩
  · rw [HeaderIndex.ofText, hindex .empty "X"]
    decide +kernel
  · rw [hblocks]
    decide +kernel

end HeaderAccord
