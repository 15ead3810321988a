import HeaderAccord.Json.Numeral
import HeaderAccord.Json.RawString

/-!
The tokens of a JSON text. After a fault there are no more tokens.
-/

namespace HeaderAccord.Json

inductive Token
  | openBrace
  | closeBrace
  | openBracket
  | closeBracket
  | comma
  | colon
  | null
  | bool (b : Bool)
  | number (n : Numeral)
  | text (s : RawString)
  | fault (f : Fault)

namespace Token

def isJsonBlank (c : Char) : Bool := c = ' ' || c = '\n' || c = '\t' || c = '\r'

/-- What follows a literal, of which `expected` is still to come. -/
def literalRest : (expected : List Char) → List Char → Except Fault (List Char)
  | [], cs => .ok cs
  | _ :: _, [] => .error .literalCutOff
  | e :: es, c :: cs => if c = e then literalRest es cs else .error .misspelt

def literal (token : Token) (expected cs : List Char) : Token × List Char :=
  match literalRest expected cs with
  | .ok rest => (token, rest)
  | .error f => (.fault f, [])

def numeral (negative : Bool) (cs : List Char) : Token × List Char :=
  match Numeral.ofUnsigned negative cs with
  | .ok (n, rest) => (.number n, rest)
  | .error f => (.fault f, [])

def string (read : RawString × List Char) : Token × List Char := (.text read.1, read.2)

/-- The token that starts with `c`, and what follows it. -/
def startingWith (c : Char) (cs : List Char) : Token × List Char :=
  match c with
  | '\x7b' => (.openBrace, cs)
  | '\x7d' => (.closeBrace, cs)
  | '[' => (.openBracket, cs)
  | ']' => (.closeBracket, cs)
  | ',' => (.comma, cs)
  | ':' => (.colon, cs)
  | '"' => string (RawString.ofChars cs)
  | 'n' => literal .null ['u', 'l', 'l'] cs
  | 't' => literal (.bool true) ['r', 'u', 'e'] cs
  | 'f' => literal (.bool false) ['a', 'l', 's', 'e'] cs
  | '-' => numeral true cs
  | _ => if c.isDigit then numeral false (c :: cs) else (.fault .noValue, [])

theorem length_le_of_literalRest {expected cs rest : List Char}
    (h : literalRest expected cs = .ok rest) : rest.length ≤ cs.length := by
  induction expected generalizing cs with
  | nil => simp_all [literalRest]
  | cons e es ih =>
    cases cs with
    | nil => simp [literalRest] at h
    | cons c cs =>
      rw [literalRest] at h
      split at h
      · have := ih h
        simp only [List.length_cons]
        omega
      · simp at h

theorem length_literal_le (token : Token) (expected cs : List Char) :
    (literal token expected cs).2.length ≤ cs.length := by
  unfold literal
  split
  · next h => exact length_le_of_literalRest h
  · simp

theorem length_numeral_lt (negative : Bool) (c : Char) (cs : List Char) :
    (numeral negative (c :: cs)).2.length ≤ cs.length := by
  unfold numeral
  split
  · next h => exact Nat.le_of_lt_succ (Numeral.length_lt_of_ofUnsigned h)
  · simp

theorem length_numeral_le (negative : Bool) (cs : List Char) :
    (numeral negative cs).2.length ≤ cs.length := by
  unfold numeral
  split
  · next h => exact Nat.le_of_lt (Numeral.length_lt_of_ofUnsigned h)
  · simp

theorem length_startingWith_le (c : Char) (cs : List Char) :
    (startingWith c cs).2.length ≤ cs.length := by
  unfold startingWith
  split
  · exact Nat.le_refl _
  · exact Nat.le_refl _
  · exact Nat.le_refl _
  · exact Nat.le_refl _
  · exact Nat.le_refl _
  · exact Nat.le_refl _
  · exact RawString.length_ofChars_le cs
  · exact length_literal_le ..
  · exact length_literal_le ..
  · exact length_literal_le ..
  · exact length_numeral_le ..
  · split
    · exact length_numeral_lt ..
    · simp

end Token

open Token in
/-- The tokens of a text, in order. -/
def tokens : List Char → List Token
  | [] => []
  | c :: cs =>
    if isJsonBlank c then tokens cs
    else
      match _h : startingWith c cs with
      | (token, rest) => token :: tokens rest
termination_by cs => cs.length
decreasing_by
  · simp
  · exact Nat.lt_succ_of_le (by simpa [_h] using length_startingWith_le c cs)

end HeaderAccord.Json
