/-!
Cutting a text at a character, at a pattern or into lines. Every function here returns the parts
around the cut, never a position in the text.
-/

namespace HeaderAccord.Text

/-- The parts of a text between the separators; there is always at least one. -/
def pieces (isSeparator : Char → Bool) : List Char → List (List Char)
  | [] => [[]]
  | c :: cs =>
    if isSeparator c then [] :: pieces isSeparator cs
    else
      match pieces isSeparator cs with
      | [] => [[c]]
      | p :: ps => (c :: p) :: ps

/-- What stands before and after the first `sep`. -/
def cutFirst? (sep : Char) : List Char → Option (List Char × List Char)
  | [] => none
  | c :: cs =>
    if c = sep then some ([], cs)
    else (cutFirst? sep cs).map fun (before, after) => (c :: before, after)

/-- What stands before the first `sep`, or the whole text. -/
def beforeFirst (sep : Char) (cs : List Char) : List Char := cs.takeWhile (· ≠ sep)

/-- What stands before the last `sep`, or the whole text. -/
def beforeLast (sep : Char) : List Char → List Char
  | [] => []
  | c :: cs =>
    if c = sep then (if sep ∈ cs then c :: beforeLast sep cs else [])
    else c :: beforeLast sep cs

/-- What follows `pattern` in a text that starts with it. -/
def afterPrefix? : (pattern : List Char) → List Char → Option (List Char)
  | [], cs => some cs
  | _ :: _, [] => none
  | p :: ps, c :: cs => if p = c then afterPrefix? ps cs else none

/-- What stands before and after the first occurrence of `pattern`. -/
def cutAt? (pattern : List Char) : List Char → Option (List Char × List Char)
  | [] => if pattern.isEmpty then some ([], []) else none
  | c :: cs =>
    match afterPrefix? pattern (c :: cs) with
    | some after => some ([], after)
    | none => (cutAt? pattern cs).map fun (before, after) => (c :: before, after)

/-- Removes every `c` at both ends. -/
def strip (c : Char) (cs : List Char) : List Char :=
  ((cs.dropWhile (· = c)).reverse.dropWhile (· = c)).reverse

/-- The lines of a text. A line ends at a line feed; one carriage return directly before the line
feed belongs to the ending, any other stays in the line. Nothing follows the last line feed, so an
empty remainder there is not a line. -/
def lines : List Char → List (List Char)
  | [] => []
  | '\n' :: cs => [] :: lines cs
  | '\r' :: '\n' :: cs => [] :: lines cs
  | c :: cs =>
    match lines cs with
    | [] => [[c]]
    | l :: ls => (c :: l) :: ls

theorem pieces_ne_nil (isSeparator : Char → Bool) (cs : List Char) :
    pieces isSeparator cs ≠ [] := by
  cases cs with
  | nil => simp [pieces]
  | cons c cs =>
    rw [pieces]
    split
    · simp
    · split <;> simp

theorem cutFirst?_eq_some {sep : Char} {cs before after : List Char}
    (h : cutFirst? sep cs = some (before, after)) : cs = before ++ sep :: after := by
  induction cs generalizing before with
  | nil => simp [cutFirst?] at h
  | cons c cs ih =>
    rw [cutFirst?] at h
    split at h
    · simp_all
    · obtain ⟨⟨b, a⟩, hb, heq⟩ := Option.map_eq_some_iff.1 h
      simp only [Prod.mk.injEq] at heq
      obtain ⟨rfl, rfl⟩ := heq
      simp [ih hb]

theorem length_lt_of_cutFirst? {sep : Char} {cs before after : List Char}
    (h : cutFirst? sep cs = some (before, after)) : after.length < cs.length := by
  simp only [cutFirst?_eq_some h, List.length_append, List.length_cons]
  omega

theorem eq_append_of_afterPrefix? {pattern cs after : List Char}
    (h : afterPrefix? pattern cs = some after) : cs = pattern ++ after := by
  induction pattern generalizing cs with
  | nil => simpa [afterPrefix?] using h
  | cons p ps ih =>
    cases cs with
    | nil => simp [afterPrefix?] at h
    | cons c cs =>
      rw [afterPrefix?] at h
      split at h
      · next hpc => simp [ih h, hpc]
      · simp at h

@[simp] theorem afterPrefix?_append (pattern cs : List Char) :
    afterPrefix? pattern (pattern ++ cs) = some cs := by
  induction pattern with
  | nil => rfl
  | cons p ps ih => simp [afterPrefix?, ih]

theorem cutAt?_eq_some {pattern cs before after : List Char}
    (h : cutAt? pattern cs = some (before, after)) : cs = before ++ pattern ++ after := by
  induction cs generalizing before with
  | nil =>
    rw [cutAt?] at h
    split at h <;> simp_all
  | cons c cs ih =>
    rw [cutAt?] at h
    split at h
    · next rest hp =>
      simp only [Option.some.injEq, Prod.mk.injEq] at h
      obtain ⟨rfl, rfl⟩ := h
      simpa using (eq_append_of_afterPrefix? hp)
    · obtain ⟨⟨b, a⟩, hb, heq⟩ := Option.map_eq_some_iff.1 h
      simp only [Prod.mk.injEq] at heq
      obtain ⟨rfl, rfl⟩ := heq
      simp [ih hb]

theorem length_le_of_cutAt? {pattern cs before after : List Char}
    (h : cutAt? pattern cs = some (before, after)) :
    after.length + pattern.length ≤ cs.length := by
  simp only [cutAt?_eq_some h, List.length_append]
  omega

@[simp] theorem lines_nil : lines [] = [] := by rw [lines]

@[simp] theorem lines_newline (cs : List Char) : lines ('\n' :: cs) = [] :: lines cs := by
  rw [lines]

end HeaderAccord.Text
