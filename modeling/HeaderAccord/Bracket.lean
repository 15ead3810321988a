import HeaderAccord.Text.Words

/-!
Brackets in code. A `>` directly after a `-` is an arrow, not a bracket.
-/

namespace HeaderAccord.Bracket

/-- Whether `c`, after the character `before`, closes a bracket closed by `closer`. -/
def closes (closer before c : Char) : Bool := c = closer && !(closer = '>' && before = '-')

/--
Splits a text at the bracket that closes the innermost of `depth + 1` open ones: what stands
before it, and what follows.
-/
def closing? (opener closer : Char) :
    (depth : Nat) → (before : Char) → List Char → Option (List Char × List Char)
  | _, _, [] => none
  | depth, before, c :: cs =>
    if c = opener then
      (closing? opener closer (depth + 1) c cs).map fun (inside, rest) => (c :: inside, rest)
    else if closes closer before c then
      if depth = 0 then some ([], cs)
      else
        (closing? opener closer (depth - 1) c cs).map fun (inside, rest) => (c :: inside, rest)
    else
      (closing? opener closer depth c cs).map fun (inside, rest) => (c :: inside, rest)

/-- What a bracket encloses, and what follows its end, given what follows the opener. -/
def enclosed? (opener closer : Char) (cs : List Char) : Option (List Char × List Char) :=
  closing? opener closer 0 opener cs

theorem closing?_eq_some {opener closer before : Char} {depth : Nat}
    {cs inside rest : List Char}
    (h : closing? opener closer depth before cs = some (inside, rest)) :
    cs = inside ++ closer :: rest := by
  induction cs generalizing depth before inside with
  | nil => simp [closing?] at h
  | cons c cs ih =>
    rw [closing?] at h
    split at h
    · obtain ⟨⟨i, r⟩, hr, heq⟩ := Option.map_eq_some_iff.1 h
      simp only [Prod.mk.injEq] at heq
      obtain ⟨rfl, rfl⟩ := heq
      simp [ih hr]
    · split at h
      · next hc =>
        have hcloser : c = closer := by simp [closes] at hc; exact hc.1
        split at h
        · simp_all
        · obtain ⟨⟨i, r⟩, hr, heq⟩ := Option.map_eq_some_iff.1 h
          simp only [Prod.mk.injEq] at heq
          obtain ⟨rfl, rfl⟩ := heq
          simp [ih hr]
      · obtain ⟨⟨i, r⟩, hr, heq⟩ := Option.map_eq_some_iff.1 h
        simp only [Prod.mk.injEq] at heq
        obtain ⟨rfl, rfl⟩ := heq
        simp [ih hr]

theorem length_lt_of_enclosed? {opener closer : Char} {cs inside rest : List Char}
    (h : enclosed? opener closer cs = some (inside, rest)) : rest.length < cs.length := by
  simp only [closing?_eq_some h, List.length_append, List.length_cons]
  omega

/-- How a character, after the character `before`, changes the nesting depth. -/
def depthChange (before c : Char) : Int :=
  if c = '(' || c = '<' || c = '[' then 1
  else if c = '>' && before = '-' then 0
  else if c = ')' || c = '>' || c = ']' then -1
  else 0

/-- The parts of a text between the commas at depth zero; there is always at least one. -/
def cutAtCommas : (depth : Int) → (before : Char) → List Char → List (List Char)
  | _, _, [] => [[]]
  | depth, before, c :: cs =>
    if c = ',' && depth = 0 then [] :: cutAtCommas depth c cs
    else
      match cutAtCommas (depth + depthChange before c) c cs with
      | [] => [[c]]
      | p :: ps => (c :: p) :: ps

/--
The trimmed parts of a list between the commas that no bracket encloses. A blank list has no
parts; a comma at the end leaves an empty last part.
-/
def splitTopLevel (cs : List Char) : List (List Char) :=
  let parts := (cutAtCommas 0 '\x00' cs).map Text.trim
  if parts = [[]] then [] else parts

end HeaderAccord.Bracket
