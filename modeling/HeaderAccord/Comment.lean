import HeaderAccord.Text.Cut

/-!
C comments. A comment opens at the first `//` or `/*` outside any other comment. A line comment
ends before the next line feed, which stays in the code; a block comment ends after the next
`*/`. A comment that never ends drops the rest of the text.
-/

namespace HeaderAccord

inductive Comment
  | line
  | block

namespace Comment

/-- The code before the first comment, the kind of that comment, and what follows its opening. -/
def first? : List Char → Option (List Char × Comment × List Char)
  | '/' :: '/' :: body => some ([], .line, body)
  | '/' :: '*' :: body => some ([], .block, body)
  | [] => none
  | c :: cs => (first? cs).map fun (code, rest) => (c :: code, rest)

/-- What follows a comment, given what follows its opening. -/
def after? : Comment → List Char → Option (List Char)
  | .line, body => (Text.cutFirst? '\n' body).map fun (_, rest) => '\n' :: rest
  | .block, body => (Text.cutAt? ['*', '/'] body).map (·.2)

theorem length_lt_of_first? {cs code body : List Char} {kind : Comment}
    (h : first? cs = some (code, kind, body)) : body.length < cs.length := by
  fun_induction first? cs generalizing code with
  | case1 => simp_all only [Option.some.injEq, Prod.mk.injEq, List.length_cons]; omega
  | case2 => simp_all only [Option.some.injEq, Prod.mk.injEq, List.length_cons]; omega
  | case3 => simp at h
  | case4 c cs _ _ ih =>
    obtain ⟨⟨code', rest⟩, hrest, heq⟩ := Option.map_eq_some_iff.1 h
    simp only [Prod.mk.injEq] at heq
    have := ih (heq.2 ▸ hrest)
    simp only [List.length_cons]
    omega

theorem length_le_of_after? {kind : Comment} {body rest : List Char}
    (h : kind.after? body = some rest) : rest.length ≤ body.length := by
  cases kind with
  | line =>
    obtain ⟨⟨before, after⟩, hcut, rfl⟩ := Option.map_eq_some_iff.1 h
    have := Text.length_lt_of_cutFirst? hcut
    simp only [List.length_cons]
    omega
  | block =>
    obtain ⟨⟨before, after⟩, hcut, rfl⟩ := Option.map_eq_some_iff.1 h
    have := Text.length_le_of_cutAt? hcut
    show after.length ≤ body.length
    omega

end Comment

/-- The text without its comments. -/
def withoutComments (text : List Char) : List Char :=
  match _ho : Comment.first? text with
  | none => text
  | some (code, kind, body) =>
    match _hr : kind.after? body with
    | none => code
    | some rest => code ++ withoutComments rest
termination_by text.length
decreasing_by
  have := Comment.length_lt_of_first? _ho
  have := Comment.length_le_of_after? _hr
  omega

def stripComments (code : String) : String := String.ofList (withoutComments code.toList)

end HeaderAccord
