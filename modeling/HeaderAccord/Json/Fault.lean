/-!
What can be wrong with a text as JSON, whatever it is read for. The text of a fault depends on
whether the reader wants the value at that place or only skips it.
-/

namespace HeaderAccord.Json

inductive Fault
  /-- the text ends where a value has to stand -/
  | valueCutOff
  | literalCutOff
  | listCutOff
  | objectCutOff
  | stringCutOff
  | numberCutOff
  /-- the text ends after a comma of an object -/
  | memberCutOff
  | noValue
  | misspelt
  | noColon
  | itemsNotSeparated
  | membersNotSeparated
  | nameNotString
  | listTrailingComma
  | objectTrailingComma
  | badNumber
  | numberTooLarge
  | unknownEscape
  | badHexEscape
  /-- a leading surrogate that no `\u` follows -/
  | splitSurrogate
  | loneSurrogate
  | controlCharacter
  | tooDeep
  | trailingCharacters
  deriving DecidableEq, Repr

namespace Fault

def message : Fault → String
  | valueCutOff | literalCutOff | numberCutOff | memberCutOff => "EOF while parsing a value"
  | listCutOff => "EOF while parsing a list"
  | objectCutOff => "EOF while parsing an object"
  | stringCutOff => "EOF while parsing a string"
  | noValue => "expected value"
  | misspelt => "expected ident"
  | noColon => "expected `:`"
  | itemsNotSeparated => "expected `,` or `]`"
  | membersNotSeparated => "expected `,` or `\x7d`"
  | nameNotString => "key must be a string"
  | listTrailingComma | objectTrailingComma => "trailing comma"
  | badNumber => "invalid number"
  | numberTooLarge => "number out of range"
  | unknownEscape | badHexEscape => "invalid escape"
  | splitSurrogate => "unexpected end of hex escape"
  | loneSurrogate => "lone leading surrogate in hex escape"
  | controlCharacter => "control character (\\u0000-\\u001F) found while parsing a string"
  | tooDeep => "recursion limit exceeded"
  | trailingCharacters => "trailing characters"

/-- The fault as one finds it who skips the value: after a comma the next item has to follow. -/
def whenSkipped : Fault → Fault
  | numberCutOff => badNumber
  | listTrailingComma => noValue
  | objectTrailingComma => nameNotString
  | memberCutOff => objectCutOff
  | f => f

end Fault

end HeaderAccord.Json
