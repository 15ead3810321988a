import HeaderAccord.Header.Structure
import HeaderAccord.Proofs.Bracket

/-!
How structures are read. The reader goes from one pair of keywords to the next; what it does at each
of them depends on which comes first, a brace or a semicolon. Each lemma here says what it makes of
one way in which its text can go on.
-/

namespace HeaderAccord.Header

open Text HeaderAccord.Bracket

/-! ### Up to the keywords -/

/-- A line without the keywords is passed over, since they stand on one line. -/
theorem cutAt?_line {cs : List Char} (hcs : ¬structKeyword <:+: cs) (rest : List Char) :
    cutAt? structKeyword (cs ++ '\n' :: rest) =
      (cutAt? structKeyword rest).map fun (before, after) => (cs ++ '\n' :: before, after) := by
  have hbreak : '\n' ∉ structKeyword := by decide
  induction cs with
  | nil =>
      have hnone : afterPrefix? structKeyword ('\n' :: rest) = none := by
        apply afterPrefix?_eq_none
        rintro ⟨after, hafter⟩
        have hprefix := prefix_of_append_cons_eq [] hbreak hafter.symm
        exact absurd (List.prefix_nil.1 hprefix) (by decide)
      rw [List.nil_append, cutAt?, hnone]
      rfl
  | cons c cs ih =>
      have hnone : afterPrefix? structKeyword (c :: (cs ++ '\n' :: rest)) = none := by
        apply afterPrefix?_eq_none
        rintro ⟨after, hafter⟩
        exact hcs (prefix_of_append_cons_eq (c :: cs) hbreak hafter.symm).isInfix
      rw [List.cons_append, cutAt?, hnone, ih fun h => hcs (List.infix_cons h), Option.map_map]
      rfl

/-- Blanks are passed over, since the keywords do not start with one. -/
theorem cutAt?_blanks {gap : List Char} (hgap : AllBlank gap) (rest : List Char) :
    cutAt? structKeyword (gap ++ rest) =
      (cutAt? structKeyword rest).map fun (before, after) => (gap ++ before, after) := by
  induction gap with
  | nil => simp
  | cons c gap ih =>
      obtain ⟨hc, hgap⟩ := List.forall_mem_cons.1 hgap
      have hnone : afterPrefix? structKeyword (c :: (gap ++ rest)) = none := by
        apply afterPrefix?_eq_none
        rintro ⟨after, hafter⟩
        have hfirst : 't' = c := (List.cons.inj hafter).1
        rw [← hfirst] at hc
        exact absurd hc (by decide)
      rw [List.cons_append, cutAt?, hnone, ih hgap, Option.map_map]
      rfl

theorem cutAt?_keyword (cs : List Char) :
    cutAt? structKeyword (structKeyword ++ cs) = some ([], cs) := by
  have hcons : structKeyword ++ cs = 't' :: ("ypedef struct".toList ++ cs) := rfl
  rw [hcons, cutAt?, ← hcons, afterPrefix?_append]

theorem structuresIn_eq (code : List Char) :
    structuresIn code = match cutAt? structKeyword code with
      | none => []
      | some (_, item) => match structureItem? item with
        | none => []
        | some (layout, rest) => layout.toList ++ structuresIn rest := by
  rw [structuresIn]
  split <;> rename_i hcut
  · rw [hcut]
  · rw [hcut]
    split <;> rename_i hitem <;> simp [hitem]

theorem structuresIn_skip {cs rest : List Char}
    (h : cutAt? structKeyword (cs ++ rest) =
      (cutAt? structKeyword rest).map fun (before, after) => (cs ++ before, after)) :
    structuresIn (cs ++ rest) = structuresIn rest := by
  rw [structuresIn_eq, structuresIn_eq rest, h]
  cases cutAt? structKeyword rest <;> rfl

theorem structuresIn_line {cs : List Char} (hcs : ¬structKeyword <:+: cs) (rest : List Char) :
    structuresIn (cs ++ '\n' :: rest) = structuresIn rest := by
  have h : cutAt? structKeyword ((cs ++ ['\n']) ++ rest) =
      (cutAt? structKeyword rest).map fun (before, after) => ((cs ++ ['\n']) ++ before, after) := by
    simpa using cutAt?_line hcs rest
  simpa using structuresIn_skip h

theorem structuresIn_blanks {gap : List Char} (hgap : AllBlank gap) (rest : List Char) :
    structuresIn (gap ++ rest) = structuresIn rest :=
  structuresIn_skip (cutAt?_blanks hgap rest)

theorem structuresIn_keyword (cs : List Char) :
    structuresIn (structKeyword ++ cs) = match structureItem? cs with
      | none => []
      | some (layout, rest) => layout.toList ++ structuresIn rest := by
  rw [structuresIn_eq, cutAt?_keyword]

theorem structuresIn_of_no_keyword {cs : List Char} (hcs : ¬structKeyword <:+: cs) :
    structuresIn cs = [] := by
  rw [structuresIn_eq]
  cases hcut : cutAt? structKeyword cs with
  | none => rfl
  | some parts => exact absurd ⟨parts.1, parts.2, (cutAt?_eq_some hcut).symm⟩ hcs

/-! ### After the keywords -/

/-- Without a brace there is no structure. -/
theorem structuresIn_of_no_brace {cs : List Char} (hcs : '{' ∉ cs) : structuresIn cs = [] := by
  rw [structuresIn_eq]
  cases hcut : cutAt? structKeyword cs with
  | none => rfl
  | some parts =>
      have hitem : '{' ∉ parts.2 := by
        intro h
        rw [cutAt?_eq_some hcut] at hcs
        exact hcs (List.mem_append_right _ h)
      simp [structureItem?, cutFirst?_eq_none_iff.2 hitem]

/-- A handle is passed over: its semicolon comes before any brace. -/
theorem structuresIn_handle {declarator : List Char} (hbrace : '{' ∉ declarator)
    (hsemicolon : ';' ∉ declarator) (rest : List Char) :
    structuresIn (structKeyword ++ (declarator ++ ';' :: rest)) = structuresIn rest := by
  have hnot : '{' ∉ declarator ++ [';'] := by simp [hbrace]
  have hopen : cutFirst? '{' (declarator ++ ';' :: rest) =
      (cutFirst? '{' rest).map fun (before, after) => (declarator ++ ';' :: before, after) := by
    simpa using cutFirst?_append_of_not_mem hnot rest
  rw [structuresIn_keyword, structureItem?, hopen]
  cases hrest : cutFirst? '{' rest with
  -- no brace is left: the reader stops at the handle, and nothing after it is a structure
  | none => exact (structuresIn_of_no_brace (cutFirst?_eq_none_iff.1 hrest)).symm
  | some parts => simp [cutFirst?_append hsemicolon]

/-- A structure is read whole, up to the semicolon after its name. -/
theorem structureItem?_aggregate {tag body declarator : List Char} (htag : '{' ∉ tag ∧ ';' ∉ tag)
    (hbody : Encloses '{' '}' 0 '{' body) (hdeclarator : ';' ∉ declarator) (rest : List Char) :
    structureItem? (tag ++ '{' :: (body ++ '}' :: (declarator ++ ';' :: rest))) =
      some (if '{' ∈ body then none
        else (words declarator).head?.map fun name =>
          { name := String.ofList name, fields := fieldsIn body }, rest) := by
  have hclose : enclosed? '{' '}' (body ++ '}' :: (declarator ++ ';' :: rest)) =
      some (body, declarator ++ ';' :: rest) :=
    (closing?_eq_some_iff (by decide)).2 ⟨rfl, hbody⟩
  rw [structureItem?, cutFirst?_append htag.1]
  simp only [htag.2, if_false, hclose, cutFirst?_append hdeclarator]
  split
  · rfl
  · cases words declarator <;> rfl

/-! ### Fields -/

/-- A field whose tokens are those of a type and a declared name, with stars before it and
brackets after it. -/
theorem fieldOf?_of_words {statement stars name suffix : List Char} {types : List (List Char)}
    (hwords : words statement = types ++ [stars ++ (name ++ suffix)])
    (htypes : ∃ t ∈ types, t ≠ constKeyword) (hstars : ∀ c ∈ stars, c = '*')
    (hname : name ≠ [] ∧ '*' ∉ name ∧ '[' ∉ name)
    (hsuffix : suffix = [] ∨ ∃ inside, suffix = '[' :: (inside ++ [']'])) :
    fieldOf? statement = some
      { name := String.ofList (Name.keyChars name)
        declaredName := String.ofList name
        typeText := String.ofList
          ([' '].intercalate (types.filter (· ≠ constKeyword)) ++ stars) } := by
  obtain ⟨hne, hstar, hbracket⟩ := hname
  obtain ⟨c, cs, rfl⟩ := List.exists_cons_of_ne_nil hne
  have hchars : ∀ d ∈ c :: cs, d ≠ '*' ∧ d ≠ '[' := fun d hd =>
    ⟨fun heq => hstar (heq ▸ hd), fun heq => hbracket (heq ▸ hd)⟩
  -- neither end of what follows the stars is a star: the name begins it, and it ends in the name
  -- or in a bracket
  have hstrip : strip '*' (stars ++ (c :: cs ++ suffix)) = c :: cs ++ suffix := by
    apply strip_append hstars
    · simpa using (hchars c (by simp)).1
    · rcases hsuffix with rfl | ⟨inside, rfl⟩
      · intro d hd
        rw [List.append_nil] at hd
        exact (hchars d (List.mem_of_getLast? hd)).1
      · intro d hd
        have hend : c :: cs ++ '[' :: (inside ++ [']']) = (c :: cs ++ '[' :: inside) ++ [']'] := by
          simp
        rw [hend, List.getLast?_concat] at hd
        cases hd
        decide
  have hdeclared : beforeFirst '[' (c :: cs ++ suffix) = c :: cs := by
    rw [beforeFirst, List.takeWhile_append_of_pos fun d hd => by simpa using (hchars d hd).2]
    rcases hsuffix with rfl | ⟨inside, rfl⟩ <;> simp
  have htake : (stars ++ (c :: cs ++ suffix)).takeWhile (· = '*') = stars := by
    rw [List.takeWhile_append_of_pos fun d hd => by simpa using hstars d hd]
    simp [(hchars c (by simp)).1]
  have hsome : (types.filter (· ≠ constKeyword)).isEmpty = false := by
    obtain ⟨t, ht, hconst⟩ := htypes
    rw [List.isEmpty_eq_false_iff_exists_mem]
    exact ⟨t, List.mem_filter.2 ⟨ht, by simpa using hconst⟩⟩
  rw [fieldOf?, hwords]
  simp only [List.getLast?_concat, List.dropLast_concat, hstrip, hdeclared, htake, hsome]
  rfl

/-- Without a type there is no field. -/
theorem fieldOf?_of_untyped {statement : List Char}
    (h : ∀ t ∈ (words statement).dropLast, t = constKeyword) : fieldOf? statement = none := by
  have htypes : (words statement).dropLast.filter (· ≠ constKeyword) = [] := by
    rw [List.filter_eq_nil_iff]
    intro t ht
    simpa using h t ht
  rw [fieldOf?]
  cases (words statement).getLast? with
  | none => rfl
  | some last => simp only [htypes, List.isEmpty_nil, Bool.or_true, if_true]

/-- The statements of a body, each read on its own. -/
theorem fieldsIn_statements {statements : List (List Char)} (h : ∀ s ∈ statements, ';' ∉ s)
    {rest : List Char} (hrest : AllBlank rest) :
    fieldsIn (statements.flatMap (· ++ [';']) ++ rest) = statements.filterMap fieldOf? := by
  have hpieces {s : List Char} (hs : ';' ∉ s) : pieces (· = ';') s = [s] := by
    apply pieces_of_forall
    intro c hc
    have : c ≠ ';' := fun heq => hs (heq ▸ hc)
    simp [this]
  induction statements with
  | nil =>
      have hsemicolon : ';' ∉ rest := fun hmem => absurd (hrest ';' hmem) (by decide)
      simp [fieldsIn, hpieces hsemicolon, fieldOf?, words_of_allBlank hrest]
  | cons s statements ih =>
      obtain ⟨hs, hstatements⟩ := List.forall_mem_cons.1 h
      have hsplit : pieces (· = ';') ((s :: statements).flatMap (· ++ [';']) ++ rest) =
          s :: pieces (· = ';') (statements.flatMap (· ++ [';']) ++ rest) := by
        rw [List.flatMap_cons, List.append_assoc, List.append_assoc, List.singleton_append,
          pieces_append_separator _ (by decide), hpieces hs, List.singleton_append]
      rw [fieldsIn, hsplit, List.filterMap_cons, List.filterMap_cons, ← ih hstatements]
      rfl

end HeaderAccord.Header
