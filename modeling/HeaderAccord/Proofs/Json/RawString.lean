import HeaderAccord.Json.Printer
import HeaderAccord.Json.RawString

/-!
Strings as they are written and read. Every character is written as itself or as one escape, so a
written string is read piece by piece, and the pieces spell the text that was written. A control
character is always written as an escape.
-/

namespace HeaderAccord.Json

/-- The two hexadecimal digits of a control character. -/
def controlDigits (n : Nat) : List Char :=
  (if n < 16 then ['0'] else []) ++ Text.hexDigits n

theorem controlDigits_eq :
    ∀ n < 32, controlDigits n = [(n / 16).digitChar, (n % 16).digitChar] ∧
      RawString.unit? '0' '0' (n / 16).digitChar (n % 16).digitChar = some n := by
  decide

/-- No control character is written as it is. -/
theorem le_toNat_of_mem_escapeChar (c : Char) : ∀ d ∈ escapeChar c, 32 ≤ d.toNat := by
  have hcontrol : ∀ n < 32, (controlDigits n).all (32 ≤ ·.toNat) = true := by decide
  unfold escapeChar
  iterate 7
    split
    · simp
  split
  · next h =>
    intro d hd
    rw [List.append_assoc] at hd
    have hmark : ['\\', 'u', '0', '0'].all (32 ≤ ·.toNat) = true := by decide
    rcases List.mem_append.1 hd with hd | hd
    · exact of_decide_eq_true (List.all_eq_true.1 hmark d hd)
    · exact of_decide_eq_true (List.all_eq_true.1 (hcontrol c.toNat h) d hd)
  · next h => simpa using h

/-- The piece that a written character is read as. -/
def pieceOf (c : Char) : Piece :=
  if c.toNat < 32 ∧ c ∉ ['\n', '\r', '\t', '\x08', '\x0c'] then .unit c.toNat else .char c

namespace RawString

/-- The string that is read where a text is written. -/
def ofText (s : String) : RawString := { pieces := s.toList.map pieceOf, fault := none }

theorem ofChars_escapeChar (c : Char) (cs : List Char) :
    ofChars (escapeChar c ++ cs) = prepend (pieceOf c) (ofChars cs) := by
  by_cases hquote : c = '"'
  · subst hquote; rfl
  by_cases hslash : c = '\\'
  · subst hslash; rfl
  -- the controls that have a letter of their own
  by_cases hletter : c ∈ ['\n', '\r', '\t', '\x08', '\x0c']
  · have hall : ∀ c ∈ ['\n', '\r', '\t', '\x08', '\x0c'],
        ofChars (escapeChar c ++ cs) = prepend (pieceOf c) (ofChars cs) := by
      simp only [List.forall_mem_cons]
      exact ⟨rfl, rfl, rfl, rfl, rfl, nofun⟩
    exact hall c hletter
  have hletters : c ≠ '\n' ∧ c ≠ '\r' ∧ c ≠ '\t' ∧ c ≠ '\x08' ∧ c ≠ '\x0c' := by
    simpa using hletter
  by_cases hcontrol : c.toNat < 32
  · obtain ⟨hdigits, hunit⟩ := controlDigits_eq c.toNat hcontrol
    have hescape : escapeChar c = ['\\', 'u', '0', '0'] ++ controlDigits c.toNat := by
      simp [escapeChar, hquote, hslash, hletters, hcontrol, controlDigits]
    rw [hescape, hdigits, pieceOf, if_pos ⟨hcontrol, hletter⟩]
    simp [ofChars, hunit]
  · have hescape : escapeChar c = [c] := by
      simp [escapeChar, hquote, hslash, hletters, hcontrol]
    rw [hescape, pieceOf, if_neg fun h => hcontrol h.1, List.singleton_append, ofChars,
      if_neg hcontrol]
    all_goals simp [hquote, hslash]

theorem ofChars_escaped (cs rest : List Char) :
    ofChars (cs.flatMap escapeChar ++ '"' :: rest) =
      ({ pieces := cs.map pieceOf, fault := none }, rest) := by
  induction cs with
  | nil => rfl
  | cons c cs ih => rw [List.flatMap_cons, List.append_assoc, ofChars_escapeChar, ih]; rfl

theorem charsOf_pieceOf (cs : List Char) : charsOf none (cs.map pieceOf) = .ok cs := by
  induction cs with
  | nil => rfl
  | cons c cs ih =>
      rw [List.map_cons, pieceOf]
      split
      · next h =>
        have htrailing : isTrailing c.toNat = false := by
          rw [isTrailing, decide_eq_false (show ¬0xDC00 ≤ c.toNat by omega), Bool.false_and]
        have hleading : isLeading c.toNat = false := by
          rw [isLeading, decide_eq_false (show ¬0xD800 ≤ c.toNat by omega), Bool.false_and]
        rw [charsOf.eq_def]
        simp [htrailing, hleading, ih, Except.map]
      · simp [charsOf, ih, Except.map]

/-- A string that is written is read back. -/
theorem text_ofText (s : String) : (ofText s).text = .ok s := by
  simp [text, ofText, charsOf_pieceOf, Except.map]

end RawString

end HeaderAccord.Json
