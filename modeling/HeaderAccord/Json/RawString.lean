import HeaderAccord.Json.Fault

/-!
Strings as written in a JSON text. An escape `\u` stands for a UTF-16 code unit; only when the
string is read for its text do the units have to pair up.
-/

namespace HeaderAccord.Json

inductive Piece
  | char (c : Char)
  | unit (n : Nat)
  deriving DecidableEq, Repr

/-- The pieces of a string up to its closing quote or up to a fault. -/
structure RawString where
  pieces : List Piece
  fault : Option Fault
  deriving DecidableEq, Repr

namespace RawString

def faulty (f : Fault) : RawString := { pieces := [], fault := some f }

/-- Puts a piece in front of a string that has been read. -/
def prepend (p : Piece) (read : RawString × List Char) : RawString × List Char :=
  ({ read.1 with pieces := p :: read.1.pieces }, read.2)

@[simp] theorem prepend_snd (p : Piece) (read : RawString × List Char) :
    (prepend p read).2 = read.2 := rfl

def escaped? : Char → Option Char
  | '"' => some '"'
  | '\\' => some '\\'
  | '/' => some '/'
  | 'b' => some '\x08'
  | 'f' => some '\x0c'
  | 'n' => some '\n'
  | 'r' => some '\r'
  | 't' => some '\t'
  | _ => none

def hexDigit? (c : Char) : Option Nat :=
  if c.isDigit then some (c.toNat - '0'.toNat)
  else if 'a' ≤ c && c ≤ 'f' then some (c.toNat - 'a'.toNat + 10)
  else if 'A' ≤ c && c ≤ 'F' then some (c.toNat - 'A'.toNat + 10)
  else none

def unit? (a b c d : Char) : Option Nat := do
  let a ← hexDigit? a
  let b ← hexDigit? b
  let c ← hexDigit? c
  let d ← hexDigit? d
  return ((a * 16 + b) * 16 + c) * 16 + d

def byteCount (cs : List Char) : Nat := cs.foldr (fun c n => c.utf8Size + n) 0

/-- Reads a string after its opening quote: the string, and what follows it. -/
def ofChars : List Char → RawString × List Char
  | [] => (faulty .stringCutOff, [])
  | '"' :: cs => ({ pieces := [], fault := none }, cs)
  | '\\' :: [] => (faulty .stringCutOff, [])
  | '\\' :: 'u' :: a :: b :: c :: d :: cs =>
    match unit? a b c d with
    | some n => prepend (.unit n) (ofChars cs)
    | none => (faulty .badHexEscape, [])
  | '\\' :: 'u' :: cs =>
    (faulty (if byteCount cs < 4 then .stringCutOff else .badHexEscape), [])
  | '\\' :: e :: cs =>
    match escaped? e with
    | some c => prepend (.char c) (ofChars cs)
    | none => (faulty .unknownEscape, [])
  | c :: cs =>
    if c.toNat < 32 then (faulty .controlCharacter, [])
    else prepend (.char c) (ofChars cs)

theorem length_ofChars_le (cs : List Char) : (ofChars cs).2.length ≤ cs.length := by
  fun_induction ofChars cs <;> simp_all <;> omega

def isLeading (n : Nat) : Bool := 0xD800 ≤ n && n ≤ 0xDBFF

def isTrailing (n : Nat) : Bool := 0xDC00 ≤ n && n ≤ 0xDFFF

/-- The fault of a leading surrogate that is the last piece of its string. -/
def unpairedAtEnd : Option Fault → Fault
  | some .stringCutOff => .stringCutOff
  | some .badHexEscape => .badHexEscape
  | _ => .splitSurrogate

/-- The characters of the pieces, which `ending` follows. -/
def charsOf (ending : Option Fault) : List Piece → Except Fault (List Char)
  | [] =>
    match ending with
    | none => .ok []
    | some f => .error f
  | .char c :: ps => (charsOf ending ps).map (c :: ·)
  | .unit n :: ps =>
    if isTrailing n then .error .loneSurrogate
    else if isLeading n then
      match ps with
      | .unit low :: rest =>
        if isTrailing low then
          (charsOf ending rest).map
            (Char.ofNat (0x10000 + (n - 0xD800) * 0x400 + (low - 0xDC00)) :: ·)
        else .error .loneSurrogate
      | .char _ :: _ => .error .splitSurrogate
      | [] => .error (unpairedAtEnd ending)
    else (charsOf ending ps).map (Char.ofNat n :: ·)

/-- The text of a string. -/
def text (s : RawString) : Except Fault String := (charsOf s.fault s.pieces).map String.ofList

end RawString

end HeaderAccord.Json
