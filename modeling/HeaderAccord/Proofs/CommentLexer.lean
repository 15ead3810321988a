import HeaderAccord.Header.Index
import HeaderAccord.Proofs.Comment

/-!
Comments read character by character. `withoutComments` goes from one comment to the next by
searching for its opening and its end; the lexer here has no search, only a mode that says whether it
stands in the code or in a comment. In each mode it does what one of the searches does, so both leave
the same code. Nothing in that code opens a comment: behind a slash that is left stands the character
that stood there in the text. So the code has no comments to lose.
-/

namespace HeaderAccord

open Comment

/-- Where in a text a lexer stands. -/
inductive LexerMode
  | code
  | line
  | block

/-- The code that a lexer leaves of a text. -/
def codeFrom : LexerMode → List Char → List Char
  | _, [] => []
  | .code, '/' :: '/' :: cs => codeFrom .line cs
  | .code, '/' :: '*' :: cs => codeFrom .block cs
  | .code, c :: cs => c :: codeFrom .code cs
  | .line, '\n' :: cs => '\n' :: codeFrom .code cs
  | .line, _ :: cs => codeFrom .line cs
  | .block, '*' :: '/' :: cs => codeFrom .code cs
  | .block, _ :: cs => codeFrom .block cs

/-- The mode inside a comment. -/
def Comment.mode : Comment → LexerMode
  | .line => .line
  | .block => .block

/-! ### The modes are the searches -/

/-- In the code, the lexer goes on to the first comment. -/
theorem codeFrom_code (text : List Char) :
    codeFrom .code text = match first? text with
      | none => text
      | some (code, kind, body) => code ++ codeFrom kind.mode body := by
  fun_induction first? text with
  | case1 body => rfl
  | case2 body => rfl
  | case3 => rfl
  | case4 c cs hline hblock ih =>
      rw [codeFrom, ih]
      · cases first? cs <;> rfl
      · exact hline
      · exact hblock

theorem codeFrom_line (body : List Char) :
    codeFrom .line body = match Comment.line.after? body with
      | none => []
      | some rest => codeFrom .code rest := by
  induction body with
  | nil => rfl
  | cons c body ih =>
      by_cases hc : c = '\n'
      · subst hc
        rfl
      · rw [codeFrom, ih, after?, after?, Text.cutFirst?, if_neg hc]
        · cases Text.cutFirst? '\n' body <;> rfl
        · exact hc

theorem codeFrom_block (body : List Char) :
    codeFrom .block body = match Comment.block.after? body with
      | none => []
      | some rest => codeFrom .code rest := by
  induction body with
  | nil => rfl
  | cons c body ih =>
      rw [after?, Text.cutAt?]
      cases hprefix : Text.afterPrefix? ['*', '/'] (c :: body) with
      | some after =>
          obtain ⟨rfl, rfl⟩ := List.cons.inj (Text.eq_append_of_afterPrefix? hprefix)
          rfl
      | none =>
          rw [codeFrom, ih, after?]
          · cases Text.cutAt? ['*', '/'] body <;> rfl
          · rintro after rfl rfl
            simp [Text.afterPrefix?] at hprefix

/-- In a comment, the lexer goes on to the end of the comment. -/
theorem codeFrom_mode (kind : Comment) (body : List Char) :
    codeFrom kind.mode body = match kind.after? body with
      | none => []
      | some rest => codeFrom .code rest := by
  cases kind with
  | line => exact codeFrom_line body
  | block => exact codeFrom_block body

theorem withoutComments_eq_codeFrom (text : List Char) :
    withoutComments text = codeFrom .code text := by
  -- the text shrinks by the code in front of a comment and by the comment
  induction hn : text.length using Nat.strongRecOn generalizing text with
  | ind n ih =>
    subst hn
    rw [withoutComments_eq, codeFrom_code]
    cases hfirst : first? text with
    | none => rfl
    | some found =>
        obtain ⟨code, kind, body⟩ := found
        dsimp only
        rw [codeFrom_mode]
        cases hafter : kind.after? body with
        | none => exact (List.append_nil code).symm
        | some rest =>
            have hbody := length_lt_of_first? hfirst
            have hrest := length_le_of_after? hafter
            dsimp only
            rw [ih rest.length (by omega) rest rfl]

/-! ### Code without openings -/

theorem first?_eq_none_iff {cs : List Char} :
    first? cs = none ↔ ¬['/', '/'] <:+: cs ∧ ¬['/', '*'] <:+: cs := by
  fun_induction first? cs with
  | case1 body =>
      have hopen : ['/', '/'] <:+: '/' :: '/' :: body := ⟨[], body, rfl⟩
      simp [hopen]
  | case2 body =>
      have hopen : ['/', '*'] <:+: '/' :: '*' :: body := ⟨[], body, rfl⟩
      simp [hopen]
  | case3 => simp
  | case4 c cs hline hblock ih =>
      have hno_line : ¬['/', '/'] <+: c :: cs := by
        rintro ⟨after, h⟩
        obtain ⟨rfl, rfl⟩ := List.cons.inj h
        exact hline after rfl rfl
      have hno_block : ¬['/', '*'] <+: c :: cs := by
        rintro ⟨after, h⟩
        obtain ⟨rfl, rfl⟩ := List.cons.inj h
        exact hblock after rfl rfl
      rw [Option.map_eq_none_iff, ih, List.infix_cons_iff, List.infix_cons_iff]
      simp only [hno_line, hno_block, false_or]

theorem withoutComments_of_first?_eq_none {cs : List Char} (h : first? cs = none) :
    withoutComments cs = cs := by
  rw [withoutComments_eq, h]

theorem first?_cons_eq_none {c : Char} {cs : List Char}
    (h : c = '/' → ∀ d ∈ cs.head?, d ≠ '/' ∧ d ≠ '*') (hcs : first? cs = none) :
    first? (c :: cs) = none := by
  rw [first?_cons h, hcs]
  rfl

/-- The code of a chunk opens no comment, and it does not with what follows it either. -/
theorem first?_code_append (ps : Chunk) {rest : List Char} (hrest : first? rest = none) :
    first? (ps.code ++ rest) = none := by
  induction ps with
  | nil => exact hrest
  | cons p ps ih =>
      rw [Chunk.code_cons, List.append_assoc]
      cases p with
      | char c hc => exact first?_cons_eq_none (fun h => absurd h hc) ih
      | slash c hc =>
          have hchar : first? (c :: (Chunk.code ps ++ rest)) = none :=
            first?_cons_eq_none (fun h => absurd h hc.1) ih
          exact first?_cons_eq_none (fun _ => by simpa using hc) hchar
      | line body hbody => exact first?_cons_eq_none (fun h => absurd h (by decide)) ih
      | block body hbody => exact ih

theorem first?_withoutComments (text : List Char) : first? (withoutComments text) = none := by
  obtain ⟨ps, rest, rfl, hrest⟩ := isPieced text
  rw [withoutComments_append]
  refine first?_code_append ps ?_
  cases hrest with
  | nothing => rw [withoutComments_nil, first?]
  | slash =>
      rw [withoutComments_slash (by simp), withoutComments_nil]
      rfl
  | line body hbody => rw [withoutComments_open_line hbody, first?]
  | block body hbody => rw [withoutComments_open_block hbody, first?]

/-- Taking the comments out of a text is what a lexer does that goes through it once. Its code opens
no comment, so it stays as it is when it is read as a text again, and a header declares the same with
and without its comments. -/
theorem stripComments_eq_lexer (text : String) :
    stripComments text = String.ofList (codeFrom .code text.toList) ∧
      (¬"//".toList <:+: (stripComments text).toList ∧
        ¬"/*".toList <:+: (stripComments text).toList) ∧
      stripComments (stripComments text) = stripComments text ∧
      ∀ marker, HeaderIndex.ofText (stripComments text) marker = HeaderIndex.ofText text marker := by
  have hopen := first?_withoutComments text.toList
  have hcode : (stripComments text).toList = withoutComments text.toList := String.toList_ofList
  have hagain : withoutComments (stripComments text).toList = withoutComments text.toList := by
    rw [hcode, withoutComments_of_first?_eq_none hopen]
  refine ⟨?_, ?_, ?_, fun marker => ?_⟩
  · rw [stripComments, withoutComments_eq_codeFrom]
  · rw [hcode]
    exact first?_eq_none_iff.1 hopen
  · rw [stripComments, hagain, stripComments]
  · rw [HeaderIndex.ofText, HeaderIndex.addHeader, hagain]
    rfl

/-- The star of an opening belongs to no other opening or end. -/
example : codeFrom .code "a//*b\nc/*/d*/e".toList = "a\nce".toList := by decide +kernel

end HeaderAccord
