import HeaderAccord.Comment
import HeaderAccord.Proofs.Text

/-!
Code with comments. A text whose comments are all closed is given piece by piece, each piece a
character of the code or a comment. What is left of it without the comments follows from the
pieces, whatever stands behind it, so texts can be put together freely.
-/

namespace HeaderAccord

open Comment

/-- A piece of code. -/
inductive Piece
  | char (c : Char) (plain : c ≠ '/')
  /-- a slash, with what follows it, that opens no comment -/
  | slash (c : Char) (plain : c ≠ '/' ∧ c ≠ '*')
  /-- a line comment with its line break -/
  | line (body : List Char) (unbroken : '\n' ∉ body)
  | block (body : List Char) (unclosed : ¬['*', '/'] <:+: body)

namespace Piece

def text : Piece → List Char
  | char c _ => [c]
  | slash c _ => ['/', c]
  | line body _ => '/' :: '/' :: (body ++ ['\n'])
  | block body _ => '/' :: '*' :: (body ++ ['*', '/'])

/-- What is left of a piece without comments. -/
def code : Piece → List Char
  | char c _ => [c]
  | slash c _ => ['/', c]
  | line _ _ => ['\n']
  | block _ _ => []

end Piece

/-- Code with closed comments. -/
abbrev Chunk := List Piece

namespace Chunk

def text (ps : Chunk) : List Char := ps.flatMap Piece.text

def code (ps : Chunk) : List Char := ps.flatMap Piece.code

@[simp] theorem text_nil : text [] = [] := rfl

@[simp] theorem code_nil : code [] = [] := rfl

@[simp] theorem text_append (ps qs : Chunk) : text (ps ++ qs) = text ps ++ text qs :=
  List.flatMap_append

@[simp] theorem code_append (ps qs : Chunk) : code (ps ++ qs) = code ps ++ code qs :=
  List.flatMap_append

theorem text_cons (p : Piece) (ps : Chunk) : text (p :: ps) = p.text ++ text ps := rfl

theorem code_cons (p : Piece) (ps : Chunk) : code (p :: ps) = p.code ++ code ps := rfl

/-- The pieces of a text without slashes. -/
def plain : (cs : List Char) → '/' ∉ cs → Chunk
  | [], _ => []
  | c :: cs, h =>
    .char c (Ne.symm (List.ne_of_not_mem_cons h)) :: plain cs (List.not_mem_of_not_mem_cons h)

@[simp] theorem code_plain {cs : List Char} (h : '/' ∉ cs) :
    code (plain cs h) = cs := by
  induction cs with
  | nil => rfl
  | cons c cs ih => rw [plain, code_cons, ih]; rfl

def ofText (text : String) (h : '/' ∉ text.toList := by decide) : Chunk :=
  plain text.toList h

@[simp] theorem code_ofText (text : String) (h : '/' ∉ text.toList) :
    code (ofText text h) = text.toList :=
  code_plain h

end Chunk

/-! ### Reading code -/

theorem withoutComments_eq (text : List Char) :
    withoutComments text = match first? text with
      | none => text
      | some (code, kind, body) => match kind.after? body with
        | none => code
        | some rest => code ++ withoutComments rest := by
  rw [withoutComments]
  split <;> rename_i hfirst
  · rw [hfirst]
  · rw [hfirst]
    split <;> rename_i hafter <;> simp [hafter]

@[simp] theorem withoutComments_nil : withoutComments [] = [] := by
  rw [withoutComments_eq]
  rfl

theorem withoutComments_of_first?_cons {c : Char} {cs : List Char}
    (h : first? (c :: cs) = (first? cs).map fun (code, rest) => (c :: code, rest)) :
    withoutComments (c :: cs) = c :: withoutComments cs := by
  rw [withoutComments_eq, withoutComments_eq cs, h]
  rcases first? cs with - | ⟨code, kind, body⟩
  · rfl
  · dsimp only [Option.map_some]
    cases kind.after? body <;> rfl

/-- A slash opens a comment only before a slash or a star, and nothing else opens one. -/
theorem first?_cons {c : Char} {cs : List Char} (h : c = '/' → ∀ d ∈ cs.head?, d ≠ '/' ∧ d ≠ '*') :
    first? (c :: cs) = (first? cs).map fun (code, rest) => (c :: code, rest) := by
  rw [first?]
  · rintro _ rfl rfl
    exact (h rfl '/' rfl).1 rfl
  · rintro _ rfl rfl
    exact (h rfl '*' rfl).2 rfl

theorem withoutComments_cons {c : Char} (hc : c ≠ '/') (cs : List Char) :
    withoutComments (c :: cs) = c :: withoutComments cs :=
  withoutComments_of_first?_cons (first?_cons fun h => absurd h hc)

theorem withoutComments_slash {cs : List Char} (hcs : ∀ c ∈ cs.head?, c ≠ '/' ∧ c ≠ '*') :
    withoutComments ('/' :: cs) = '/' :: withoutComments cs :=
  withoutComments_of_first?_cons (first?_cons fun _ => hcs)

theorem withoutComments_line {body : List Char} (hbody : '\n' ∉ body) (rest : List Char) :
    withoutComments ('/' :: '/' :: (body ++ '\n' :: rest)) = '\n' :: withoutComments rest := by
  have hafter : Comment.line.after? (body ++ '\n' :: rest) = some ('\n' :: rest) := by
    rw [after?, Text.cutFirst?_append hbody]
    rfl
  rw [withoutComments_eq, first?]
  simp only [hafter, List.nil_append]
  exact withoutComments_cons (by decide) rest

/-- A line comment that goes on to the end drops the rest. -/
theorem withoutComments_open_line {body : List Char} (hbody : '\n' ∉ body) :
    withoutComments ('/' :: '/' :: body) = [] := by
  have hafter : Comment.line.after? body = none := by
    rw [after?, Option.map_eq_none_iff]
    exact Text.cutFirst?_eq_none_iff.2 hbody
  rw [withoutComments_eq, first?]
  simp only [hafter]

theorem cutAt?_close {body : List Char} (hbody : ¬['*', '/'] <:+: body) (rest : List Char) :
    Text.cutAt? ['*', '/'] (body ++ '*' :: '/' :: rest) = some (body, rest) := by
  induction body with
  | nil => rfl
  | cons c body ih =>
      have htail : ¬['*', '/'] <:+: body := fun h => hbody (List.infix_cons h)
      rw [List.cons_append, Text.cutAt?]
      split
      · next after hprefix =>
        -- a star and a slash at the front would be in the body, or the body would be a star
        exfalso
        have heq := Text.eq_append_of_afterPrefix? hprefix
        cases body with
        | nil => simp at heq
        | cons d body =>
            have heq' : c = '*' ∧ d = '/' ∧ body ++ '*' :: '/' :: rest = after := by
              simpa using heq
            exact hbody ⟨[], body, by simp [heq'.1, heq'.2.1]⟩
      · rw [ih htail]
        rfl

theorem withoutComments_block {body : List Char} (hbody : ¬['*', '/'] <:+: body)
    (rest : List Char) :
    withoutComments ('/' :: '*' :: (body ++ '*' :: '/' :: rest)) = withoutComments rest := by
  have hafter : Comment.block.after? (body ++ '*' :: '/' :: rest) = some rest := by
    rw [after?, cutAt?_close hbody]
    rfl
  rw [withoutComments_eq, first?]
  simp only [hafter, List.nil_append]

/-- The comments of a chunk go, and nothing of what follows it does. -/
theorem withoutComments_append (ps : Chunk) (rest : List Char) :
    withoutComments (ps.text ++ rest) = ps.code ++ withoutComments rest := by
  induction ps with
  | nil => rfl
  | cons p ps ih =>
      rw [Chunk.text_cons, Chunk.code_cons, List.append_assoc, List.append_assoc, ← ih]
      cases p with
      | char c hc => exact withoutComments_cons hc _
      | slash c hc =>
          have hslash : withoutComments ('/' :: c :: (Chunk.text ps ++ rest)) =
              '/' :: withoutComments (c :: (Chunk.text ps ++ rest)) :=
            withoutComments_slash (by simpa using hc)
          exact hslash.trans (congrArg _ (withoutComments_cons hc.1 _))
      | line body hbody => simpa [Piece.text, Piece.code] using withoutComments_line hbody _
      | block body hbody => simpa [Piece.text, Piece.code] using withoutComments_block hbody _

/-! ### Closed texts -/

/-- `code` is what is left of a text without comments, and a line break behind the text ends its last
comment. -/
structure Closed (text code : List Char) : Prop where
  code_eq : withoutComments text = code
  append : ∀ rest, withoutComments (text ++ '\n' :: rest) = code ++ '\n' :: withoutComments rest

/-- A note behind the code of a line: a line comment without the line break. -/
structure Note where
  body : List Char
  unbroken : '\n' ∉ body

def Note.text (note : Note) : List Char := '/' :: '/' :: note.body

theorem closed_chunk (ps : Chunk) (note : Option Note) :
    Closed (ps.text ++ (note.map Note.text).getD []) ps.code := by
  cases note with
  | none =>
      refine ⟨by simpa using withoutComments_append ps [], fun rest => ?_⟩
      have hbreak := withoutComments_cons (show '\n' ≠ '/' by decide) rest
      simpa [hbreak] using withoutComments_append ps ('\n' :: rest)
  | some note =>
      refine ⟨?_, fun rest => ?_⟩
      · have hopen := withoutComments_open_line note.unbroken
        simpa [Note.text, hopen] using withoutComments_append ps note.text
      · have hline := withoutComments_line note.unbroken rest
        simpa [Note.text, hline] using withoutComments_append ps (note.text ++ '\n' :: rest)

/-! ### Open comments -/

/-- A text that ends inside a block comment. -/
def HasOpenBlock (text : List Char) : Prop :=
  ∃ (ps : Chunk) (body : List Char), text = ps.text ++ '/' :: '*' :: body ∧ ¬['*', '/'] <:+: body

/-- What may be left of a text behind its pieces: a slash that nothing follows, or a comment that goes
on to the end. -/
inductive Remainder : List Char → Prop
  | nothing : Remainder []
  | slash : Remainder ['/']
  | line (body : List Char) (unbroken : '\n' ∉ body) : Remainder ('/' :: '/' :: body)
  | block (body : List Char) (unclosed : ¬['*', '/'] <:+: body) : Remainder ('/' :: '*' :: body)

/-- A text that is made of pieces up to a remainder. -/
def IsPieced (text : List Char) : Prop :=
  ∃ (ps : Chunk) (rest : List Char), text = ps.text ++ rest ∧ Remainder rest

theorem Remainder.isPieced {rest : List Char} (h : Remainder rest) : IsPieced rest :=
  ⟨[], rest, rfl, h⟩

theorem IsPieced.cons {text : List Char} (h : IsPieced text) (p : Piece) :
    IsPieced (p.text ++ text) := by
  obtain ⟨ps, rest, rfl, hrest⟩ := h
  exact ⟨p :: ps, rest, by rw [Chunk.text_cons, List.append_assoc], hrest⟩

theorem isPieced (text : List Char) : IsPieced text := by
  -- the text shrinks by a piece
  induction hn : text.length using Nat.strongRecOn generalizing text with
  | ind n ih =>
    subst hn
    cases text with
    | nil => exact Remainder.nothing.isPieced
    | cons c cs =>
        by_cases hc : c = '/'
        · subst hc
          cases cs with
          | nil => exact Remainder.slash.isPieced
          | cons d cs =>
              by_cases hline : d = '/'
              · subst hline
                by_cases hbreak : '\n' ∈ cs
                · obtain ⟨body, rest, rfl, hbody⟩ := List.eq_append_cons_of_mem hbreak
                  have hrest := ih rest.length (by simp; omega) rest rfl
                  simpa [Piece.text] using hrest.cons (.line body hbody)
                · exact (Remainder.line cs hbreak).isPieced
              by_cases hblock : d = '*'
              · subst hblock
                by_cases hclose : ['*', '/'] <:+: cs
                · obtain ⟨⟨body, rest⟩, hcut⟩ :=
                    Option.isSome_iff_exists.1 (Text.isSome_cutAt?_iff.2 hclose)
                  have hbody := Text.not_infix_of_cutAt? (by simp) hcut
                  obtain rfl := Text.cutAt?_eq_some hcut
                  have hrest := ih rest.length (by simp; omega) rest rfl
                  simpa [Piece.text] using hrest.cons (.block body hbody)
                · exact (Remainder.block cs hclose).isPieced
              · exact (ih cs.length (by simp only [List.length_cons]; omega) cs rfl).cons
                  (.slash d ⟨hline, hblock⟩)
        · exact (ih cs.length (by simp) cs rfl).cons (.char c hc)

/-- A text is closed unless it ends inside a block comment. -/
theorem closed_of_not_hasOpenBlock {text : List Char} (h : ¬HasOpenBlock text) :
    Closed text (withoutComments text) := by
  obtain ⟨ps, rest, rfl, hrest⟩ := isPieced text
  cases hrest with
  | nothing =>
      have hclosed := closed_chunk ps none
      rwa [← hclosed.code_eq] at hclosed
  | slash =>
      have hslash (more : List Char) (hmore : ∀ c ∈ more.head?, c ≠ '/' ∧ c ≠ '*') :
          withoutComments (ps.text ++ '/' :: more) = ps.code ++ '/' :: withoutComments more := by
        rw [withoutComments_append, withoutComments_slash hmore]
      refine ⟨rfl, fun rest => ?_⟩
      rw [List.append_assoc, List.singleton_append, hslash _ (by simp), hslash _ (by simp),
        withoutComments_cons (by decide), withoutComments_nil]
      simp
  | line body hbody =>
      have hclosed := closed_chunk ps (some ⟨body, hbody⟩)
      rwa [← hclosed.code_eq] at hclosed
  | block body hbody => exact absurd ⟨ps, body, rfl, hbody⟩ h

theorem withoutComments_open_block {body : List Char} (hbody : ¬['*', '/'] <:+: body) :
    withoutComments ('/' :: '*' :: body) = [] := by
  have hafter : Comment.block.after? body = none := by
    rw [after?, Text.cutAt?_eq_none (by simp) hbody]
    rfl
  rw [withoutComments_eq, first?]
  simp only [hafter]

/-- A line break behind an open block comment is part of the comment, and otherwise it is not. -/
theorem hasOpenBlock_iff {text : List Char} :
    HasOpenBlock text ↔ withoutComments (text ++ ['\n']) = withoutComments text := by
  constructor
  · rintro ⟨ps, body, rfl, hbody⟩
    have hbreak : ¬['*', '/'] <:+: body ++ ['\n'] := by
      intro hinfix
      rcases Text.infix_or_infix_of_append_cons (by decide) hinfix with hinfix | hinfix
      · exact hbody hinfix
      · exact absurd (List.infix_nil.1 hinfix) (by simp)
    rw [List.append_assoc, List.cons_append, List.cons_append, withoutComments_append,
      withoutComments_append, withoutComments_open_block hbreak, withoutComments_open_block hbody]
  · intro h
    refine Classical.byContradiction fun hopen => ?_
    rw [(closed_of_not_hasOpenBlock hopen).append [], withoutComments_nil] at h
    simp at h

instance (text : List Char) : Decidable (HasOpenBlock text) :=
  decidable_of_iff _ hasOpenBlock_iff.symm

/-- Closed texts on lines of their own. -/
theorem withoutComments_intercalate {parts : List (List Char × List Char)}
    (h : ∀ p ∈ parts, Closed p.1 p.2) :
    withoutComments (['\n'].intercalate (parts.map (·.1))) =
      ['\n'].intercalate (parts.map (·.2)) := by
  induction parts with
  | nil => exact withoutComments_nil
  | cons p parts ih =>
      obtain ⟨hp, hparts⟩ := List.forall_mem_cons.1 h
      cases parts with
      | nil => simpa using hp.code_eq
      | cons q parts =>
          rw [List.map_cons, List.map_cons, List.map_cons, List.map_cons,
            List.intercalate_cons_cons, List.intercalate_cons_cons, List.append_assoc,
            List.append_assoc, List.singleton_append, List.singleton_append, hp.append]
          exact congrArg _ (congrArg _ (ih hparts))

/-! ### Tokens and gaps -/

/-- Blanks and comments. -/
def IsGap (ps : Chunk) : Prop := Text.AllBlank ps.code

instance (ps : Chunk) : Decidable (IsGap ps) := inferInstanceAs (Decidable (Text.AllBlank ps.code))

/-- A chunk made of tokens with gaps between them. Outside of the comments, a token is followed by a
blank or by the end. -/
inductive Renders : List (List Char) → Chunk → Prop
  | gap (gap : Chunk) (hgap : IsGap gap) : Renders [] gap
  | token {tokens : List (List Char)} {rest : Chunk} (gap token : Chunk) (hgap : IsGap gap)
      (htoken : Text.IsWord token.code) (hrest : Renders tokens rest)
      (hends : rest.code.head?.all Text.isBlank = true) :
      Renders (token.code :: tokens) (gap ++ (token ++ rest))

theorem Renders.words_code {tokens : List (List Char)} {ps : Chunk} (h : Renders tokens ps) :
    Text.words ps.code = tokens := by
  induction h with
  | gap gap hgap => exact Text.words_of_allBlank hgap
  | @token tokens rest gap token hgap htoken hrest hends ih =>
      rw [Chunk.code_append, Chunk.code_append, Text.words_allBlank_append hgap]
      cases hcode : Chunk.code rest with
      | nil =>
          rw [hcode, Text.words_nil] at ih
          rw [List.append_nil, Text.words_of_isWord htoken, ih]
      | cons c cs =>
          have hc : Text.isBlank c = true := by simpa [hcode] using hends
          rw [hcode, Text.words_cons_of_blank hc] at ih
          rw [Text.words_isWord_append htoken hc, ih]

end HeaderAccord
