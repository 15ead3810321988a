import HeaderAccord.Text.Cut

/-!
Blank characters, trimming, and the words of a text: its maximal runs of characters that are not
blank. A blank is a character with the Unicode property White_Space, so U+200B and U+FEFF are not
blank. Everything about words follows from `words_append_blank`, which splits them at any blank.
-/

namespace HeaderAccord.Text

/-! ### Blanks -/

def blanks : List Char :=
  [' ', '\n', '\t', '\r', '\x0b', '\x0c', '\u0085', '\u00a0', '\u1680',
   '\u2000', '\u2001', '\u2002', '\u2003', '\u2004', '\u2005', '\u2006', '\u2007', '\u2008',
   '\u2009', '\u200a', '\u2028', '\u2029', '\u202f', '\u205f', '\u3000']

def isBlank (c : Char) : Bool := blanks.contains c

def trimStart (cs : List Char) : List Char := cs.dropWhile isBlank

def trimEnd : List Char → List Char
  | [] => []
  | c :: cs =>
    match trimEnd cs with
    | [] => if isBlank c then [] else [c]
    | kept => c :: kept

def trim (cs : List Char) : List Char := trimEnd (trimStart cs)

@[simp] theorem trimStart_nil : trimStart [] = [] := rfl

theorem trimStart_cons_of_blank {c : Char} {cs : List Char} (h : isBlank c = true) :
    trimStart (c :: cs) = trimStart cs := by
  simp [trimStart, h]

theorem trimStart_cons_of_not_blank {c : Char} {cs : List Char} (h : isBlank c = false) :
    trimStart (c :: cs) = c :: cs := by
  simp [trimStart, h]

/-! ### Words -/

def words (cs : List Char) : List (List Char) :=
  (pieces isBlank cs).filter (!·.isEmpty)

/-- The words of a text with single spaces between them. -/
def collapse (cs : List Char) : List Char := [' '].intercalate (words cs)

theorem pieces_append_separator (isSeparator : Char → Bool) {c : Char}
    (hc : isSeparator c = true) (a b : List Char) :
    pieces isSeparator (a ++ c :: b) = pieces isSeparator a ++ pieces isSeparator b := by
  induction a with
  | nil => simp [pieces, hc]
  | cons x a ih =>
    simp only [List.cons_append, pieces, ih]
    by_cases hx : isSeparator x = true
    · simp [hx]
    · obtain ⟨p, ps, hp⟩ := List.exists_cons_of_ne_nil (pieces_ne_nil isSeparator a)
      simp [hx, hp]

theorem words_append_blank {c : Char} (hc : isBlank c = true) (a b : List Char) :
    words (a ++ c :: b) = words a ++ words b := by
  simp [words, pieces_append_separator isBlank hc]

@[simp] theorem words_nil : words [] = [] := by simp [words, pieces]

theorem words_cons_of_blank {c : Char} (hc : isBlank c = true) (cs : List Char) :
    words (c :: cs) = words cs := by
  simpa using words_append_blank hc [] cs

end HeaderAccord.Text
