import HeaderAccord.Proofs.Comment
import HeaderAccord.Proofs.Header.Structure
import HeaderAccord.Proofs.Offset.Matching

/-!
The two loops that search a text from a cursor on: for comments, and for structures. Each round
takes slices at offsets that it adds up from the cursor, the lengths of patterns and what it finds
behind them. A round that fails has no run, nor has a cursor that does not move on, so that a loop
has a run says that it ends and that nothing in it fails; the run gives what the functions do that
cut the text into its parts.
-/

namespace HeaderAccord.Offset

open String (utf8Len)

/-! ### Loops -/

/-- The runs of a loop over a cursor, with all that its rounds give. A round ends the loop, or moves
the cursor further on. -/
inductive Runs {α : Type} (round : Nat → Option (List α × Option Nat)) : Nat → List α → Prop
  | last {cursor : Nat} {out : List α} (hround : round cursor = some (out, none)) :
      Runs round cursor out
  | next {cursor cursor' : Nat} {out rest : List α}
      (hround : round cursor = some (out, some cursor')) (hlt : cursor < cursor')
      (hrest : Runs round cursor' rest) : Runs round cursor (out ++ rest)

/-- A round at the end of `before` gives all of the result for the rest of the text, or a front of
it and leaves what follows to a shorter rest. -/
inductive Advances {α : Type} (round : Nat → Option (List α × Option Nat))
    (result : List Char → List α) (before rest : List Char) : Prop
  | last (hround : round (utf8Len before) = some (result rest, none))
  | next (passed rest' : List Char) (out : List α) (hne : passed ≠ [])
      (hrest : rest = passed ++ rest')
      (hround : round (utf8Len before) = some (out, some (utf8Len (before ++ passed))))
      (hresult : result rest = out ++ result rest')

section

variable {α : Type} {round : List Char → Nat → Option (List α × Option Nat)}
  {result : List Char → List α}

/-- From any seam of a text on, a loop whose rounds advance has a run. -/
theorem runs_append_of_advances
    (h : ∀ before rest, Advances (round (before ++ rest)) result before rest)
    (before rest : List Char) :
    Runs (round (before ++ rest)) (utf8Len before) (result rest) := by
  cases h before rest with
  | last hround => exact .last hround
  | next passed rest' out hne hrest hround hresult =>
      have hpassed : 0 < utf8Len passed := Nat.pos_of_ne_zero (by simpa using hne)
      have hlength : 0 < passed.length := List.length_pos_iff.2 hne
      have hrun := runs_append_of_advances h (before ++ passed) rest'
      rw [List.append_assoc, ← hrest] at hrun
      rw [hresult]
      exact .next hround (by rw [String.utf8Len_append]; omega) hrun
termination_by rest.length
decreasing_by
  rw [hrest, List.length_append]
  omega

theorem runs_of_advances
    (h : ∀ before rest, Advances (round (before ++ rest)) result before rest)
    (code : List Char) : Runs (round code) 0 (result code) :=
  runs_append_of_advances h [] code

end

/-! ### Comments -/

/-- How a comment opens, and what ends it. -/
def opening : Comment → List Char
  | .line => ['/', '/']
  | .block => ['/', '*']

def terminator : Comment → List Char
  | .line => ['\n']
  | .block => ['*', '/']

/-- Of the offsets of the first opening of each kind, the one that comes first. -/
def firstOpening? : (line block : Option Nat) → Option (Nat × Comment)
  | none, none => none
  | some line, some block => if line < block then some (line, .line) else some (block, .block)
  | some line, none => some (line, .line)
  | none, some block => some (block, .block)

/-- Where the code goes on when the terminator of a comment stands at `stop`: a line feed stays. -/
def resume : Comment → (stop : Nat) → Nat
  | .line, stop => stop
  | .block, stop => stop + utf8Len (terminator .block)

/-- A round of the loop over the comments: what is kept of the text, and where to go on. -/
def commentRound? (code : List Char) (pos : Nat) : Option (List Char × Option Nat) := do
  let rest ← sliceFrom? code pos
  let line := (find? (opening .line) rest).map (pos + ·)
  let block := (find? (opening .block) rest).map (pos + ·)
  match firstOpening? line block with
  | none => return (rest, none)
  | some (start, kind) =>
    let kept ← slice? code pos start
    let body ← sliceFrom? code (start + 2)
    return (kept, (find? (terminator kind) body).map fun found => resume kind (start + 2 + found))

theorem find?_cons {pattern cs : List Char} {c : Char}
    (h : Text.afterPrefix? pattern (c :: cs) = none) :
    find? pattern (c :: cs) = (find? pattern cs).map (c.utf8Size + ·) := by
  rw [find?, Text.cutAt?, h, find?]
  simp [Function.comp_def, Nat.add_comm]

theorem firstOpening?_map (k : Nat) (line block : Option Nat) :
    firstOpening? (line.map (k + ·)) (block.map (k + ·)) =
      (firstOpening? line block).map fun (start, kind) => (k + start, kind) := by
  cases line with
  | none => cases block <;> rfl
  | some line =>
      cases block with
      | none => rfl
      | some block =>
          simp only [Option.map_some, firstOpening?, Nat.add_lt_add_iff_left]
          split <;> rfl

/-- The first opening of the two kinds is where the first comment starts. -/
theorem firstOpening?_find? (rest : List Char) :
    firstOpening? (find? (opening .line) rest) (find? (opening .block) rest) =
      (Comment.first? rest).map fun (kept, kind, _) => (utf8Len kept, kind) := by
  fun_induction Comment.first? rest with
  | case1 body =>
      have hline : find? (opening .line) ('/' :: '/' :: body) = some 0 := rfl
      have hblock : Text.afterPrefix? (opening .block) ('/' :: '/' :: body) = none := rfl
      rw [hline, find?_cons hblock]
      cases find? (opening .block) ('/' :: body) with
      | none => rfl
      | some block =>
          have hpos : 0 < ('/' : Char).utf8Size + block := by
            have := Char.utf8Size_pos '/'
            omega
          exact if_pos hpos
  | case2 body =>
      have hline : Text.afterPrefix? (opening .line) ('/' :: '*' :: body) = none := rfl
      have hblock : find? (opening .block) ('/' :: '*' :: body) = some 0 := rfl
      rw [hblock, find?_cons hline]
      cases find? (opening .line) ('*' :: body) <;> simp [firstOpening?]
  | case3 => rfl
  | case4 c cs hline hblock ih =>
      have hnone (kind : Comment) : Text.afterPrefix? (opening kind) (c :: cs) = none := by
        refine Text.afterPrefix?_eq_none ?_
        rintro ⟨body, hbody⟩
        cases kind with
        | line => exact hline body (List.cons.inj hbody).1.symm (List.cons.inj hbody).2.symm
        | block => exact hblock body (List.cons.inj hbody).1.symm (List.cons.inj hbody).2.symm
      rw [find?_cons (hnone .line), find?_cons (hnone .block), firstOpening?_map, ih]
      simp [Function.comp_def, Nat.add_comm]

theorem eq_append_of_first? {cs kept body : List Char} {kind : Comment}
    (h : Comment.first? cs = some (kept, kind, body)) : cs = kept ++ (opening kind ++ body) := by
  fun_induction Comment.first? cs generalizing kept with
  | case1 body => cases h; rfl
  | case2 body => cases h; rfl
  | case3 => cases h
  | case4 c cs hline hblock ih =>
      obtain ⟨⟨kept', rest⟩, hrest, heq⟩ := Option.map_eq_some_iff.1 h
      cases heq
      rw [ih hrest, List.cons_append]

/-- A round finds the first comment, and what follows it if it ends. -/
theorem commentRound?_of_first? {rest kept body : List Char} {kind : Comment}
    (hfirst : Comment.first? rest = some (kept, kind, body)) (before : List Char) :
    commentRound? (before ++ rest) (utf8Len before) =
      some (kept, (find? (terminator kind) body).map fun found =>
        resume kind (utf8Len (before ++ (kept ++ opening kind)) + found)) := by
  have hopening := firstOpening?_find? rest
  rw [hfirst, Option.map_some] at hopening
  have hsize : utf8Len (opening kind) = 2 := by cases kind <;> rfl
  have hstart : utf8Len before + utf8Len kept + 2 = utf8Len (before ++ (kept ++ opening kind)) := by
    simp only [String.utf8Len_append, hsize]
    omega
  -- the seams of the text before the comment and behind its opening
  have hkept : slice? (before ++ rest) (utf8Len before) (utf8Len before + utf8Len kept) =
      some kept := by
    rw [eq_append_of_first? hfirst]
    exact slice?_append _ _ _
  have hbody : sliceFrom? (before ++ rest) (utf8Len (before ++ (kept ++ opening kind))) =
      some body := by
    refine sliceFrom?_eq_some_iff.2 ⟨before ++ (kept ++ opening kind), ?_, rfl⟩
    simp [eq_append_of_first? hfirst]
  rw [commentRound?]
  simp only [Option.bind_eq_bind, Option.bind_some, Option.pure_def, sliceFrom?_append,
    firstOpening?_map, hopening, Option.map_some, hkept, hstart, hbody]

/-- A comment ends where its terminator is found. -/
theorem after?_eq (kind : Comment) (body : List Char) :
    kind.after? body = (Text.cutAt? (terminator kind) body).map fun (_, after) =>
      match kind with
      | .line => '\n' :: after
      | .block => after := by
  cases kind with
  | line => rw [Comment.after?, terminator, cutAt?_singleton]
  | block => rfl

/-- A round goes on at what follows the comment. -/
theorem exists_resume {kind : Comment} {body rest : List Char} (h : kind.after? body = some rest)
    (start : Nat) :
    ∃ passed, body = passed ++ rest ∧
      ((find? (terminator kind) body).map fun found => resume kind (start + found)) =
        some (start + utf8Len passed) := by
  rw [after?_eq] at h
  obtain ⟨⟨inside, after⟩, hcut, rfl⟩ := Option.map_eq_some_iff.1 h
  rw [find?, hcut]
  cases kind with
  | line => exact ⟨inside, by simpa [terminator] using Text.cutAt?_eq_some hcut, rfl⟩
  | block =>
      refine ⟨inside ++ terminator .block, Text.cutAt?_eq_some hcut, ?_⟩
      simp [resume, Nat.add_assoc]

theorem advances_commentRound? (before rest : List Char) :
    Advances (commentRound? (before ++ rest)) withoutComments before rest := by
  cases hfirst : Comment.first? rest with
  | none =>
      refine .last ?_
      have hopening := firstOpening?_find? rest
      rw [hfirst, Option.map_none] at hopening
      rw [withoutComments_eq, hfirst, commentRound?]
      simp only [Option.bind_eq_bind, Option.bind_some, Option.pure_def, sliceFrom?_append,
        firstOpening?_map, hopening, Option.map_none]
  | some p =>
      obtain ⟨kept, kind, body⟩ := p
      have hround := commentRound?_of_first? hfirst before
      have hresult := withoutComments_eq rest
      simp only [hfirst] at hresult
      cases hafter : kind.after? body with
      | none =>
          rw [hafter] at hresult
          rw [after?_eq, Option.map_eq_none_iff] at hafter
          rw [find?, hafter] at hround
          exact .last (hresult ▸ hround)
      | some rest' =>
          rw [hafter] at hresult
          obtain ⟨passed, rfl, hresume⟩ :=
            exists_resume hafter (utf8Len (before ++ (kept ++ opening kind)))
          refine .next (kept ++ (opening kind ++ passed)) rest' kept ?_ ?_ ?_ hresult
          · cases kind <;> simp [opening]
          · simp [eq_append_of_first? hfirst]
          · rw [hround, hresume, ← String.utf8Len_append]
            simp

/-- The loop over the comments runs to the end of any text. -/
theorem runs_commentRound? (code : List Char) :
    Runs (commentRound? code) 0 (withoutComments code) :=
  runs_of_advances advances_commentRound? code

/-! ### Structures -/

section

open Header Text

/-- A field of a structure; its name is cut off at the offset of its array bounds. -/
def fieldAt? (statement : List Char) : Option (Option StructField) :=
  let tokens := words statement
  match tokens.getLast? with
  | none => some none
  | some last => do
    let stars := last.takeWhile (· = '*')
    let declared ← upTo? '[' (strip '*' last)
    let typeTokens := tokens.dropLast.filter (· ≠ constKeyword)
    if declared.isEmpty || typeTokens.isEmpty then return none
    else
      let field : StructField :=
        { name := String.ofList (Name.keyChars declared)
          declaredName := String.ofList declared
          typeText := String.ofList ([' '].intercalate typeTokens ++ stars) }
      return some field

/-- Reads a structure whose brace opens at an offset: the layout, and where to go on. -/
def aggregateAt? (code : List Char) (opening : Nat) :
    Option (Option (Option StructureLayout × Nat)) := do
  match ← matching? '{' '}' code opening with
  | none => return none
  | some close =>
    match findChar? (· = ';') (← sliceFrom? code close) with
    | none => return none
    | some found =>
      let terminator := close + found
      let body ← slice? code (opening + 1) close
      if '{' ∈ body then return some (none, terminator + 1)
      else
        match words (← slice? code (close + 1) terminator) with
        | [] => return some (none, terminator + 1)
        | name :: _ =>
          let fields ← (pieces (· = ';') body).mapM fieldAt?
          return some (some { name := String.ofList name, fields := fields.filterMap id },
            terminator + 1)

/-- Reads what follows the keywords at an offset; a handle is passed over. -/
def structureItemAt? (code : List Char) (afterKeyword : Nat) :
    Option (Option (Option StructureLayout × Nat)) := do
  let rest ← sliceFrom? code afterKeyword
  match findChar? (· = '{') rest with
  | none => return none
  | some brace =>
    match (findChar? (· = ';') rest).filter (· < brace) with
    | some semicolon => return some (none, afterKeyword + semicolon + 1)
    | none => aggregateAt? code (afterKeyword + brace)

/-- A round of the loop over the structures: the layout it reads, and where to go on. -/
def structureRound? (code : List Char) (cursor : Nat) :
    Option (List StructureLayout × Option Nat) := do
  match find? structKeyword (← sliceFrom? code cursor) with
  | none => return ([], none)
  | some found =>
    match ← structureItemAt? code (cursor + found + utf8Len structKeyword) with
    | none => return ([], none)
    | some (layout, next) => return (layout.toList, some next)

theorem fieldAt?_eq (statement : List Char) : fieldAt? statement = some (fieldOf? statement) := by
  rw [fieldAt?, fieldOf?]
  cases (words statement).getLast? with
  | none => rfl
  | some last =>
      simp only [upTo?_eq, Option.bind_eq_bind, Option.bind_some, Option.pure_def]
      split <;> rfl

theorem mapM_fieldAt? (statements : List (List Char)) :
    statements.mapM fieldAt? = some (statements.map fieldOf?) := by
  have hfield : fieldAt? = fun statement => pure (fieldOf? statement) := funext fieldAt?_eq
  rw [hfield, List.mapM_pure]
  rfl

/-- An item at a seam of the text is read as its parts are, and what follows it starts where the
loop goes on. -/
def Reads (before cs : List Char) : Option (Option StructureLayout × Nat) →
    Option (Option StructureLayout × List Char) → Prop :=
  Option.Rel fun (layout, next) (layout', rest) =>
    layout = layout' ∧ ∃ passed, cs = passed ++ rest ∧ utf8Len (before ++ passed) = next

theorem exists_aggregateAt? {cs tag opened : List Char}
    (hbrace : cutFirst? '{' cs = some (tag, opened)) (hsemicolon : ';' ∉ tag)
    (before : List Char) :
    ∃ read, aggregateAt? (before ++ cs) (utf8Len before + utf8Len tag) = some read ∧
      Reads before cs read (structureItem? cs) := by
  have hcs := cutFirst?_eq_some hbrace
  have hopen : before ++ cs = (before ++ tag) ++ '{' :: opened := by simp [hcs]
  rw [structureItem?, hbrace, hopen, ← String.utf8Len_append, aggregateAt?, matching?_append]
  simp only [if_neg hsemicolon, Option.bind_eq_bind, Option.bind_some, Option.pure_def]
  cases henclosed : Bracket.enclosed? '{' '}' opened with
  | none => exact ⟨none, rfl, .none⟩
  | some p =>
      obtain ⟨body, closed⟩ := p
      obtain rfl := Bracket.closing?_eq_some henclosed
      -- `front` ends before the brace that closes the structure
      obtain ⟨front, hfront⟩ : ∃ front, front = before ++ tag ++ '{' :: body := ⟨_, rfl⟩
      have hclose : before ++ tag ++ '{' :: (body ++ '}' :: closed) = front ++ '}' :: closed := by
        simp [hfront]
      have hbody := slice?_enclosed '{' '}' (by decide) (before ++ tag) body closed
      rw [← hfront, hclose] at hbody
      have hsearch : findChar? (· = ';') ('}' :: closed) =
          (cutFirst? ';' closed).map fun (declarator, _) => utf8Len ('}' :: declarator) := by
        simp [findChar?_eq, cutFirst?, Function.comp_def]
      simp only [Option.map_some, ← hfront, hclose, sliceFrom?_append, Option.bind_some, hsearch]
      cases hterm : cutFirst? ';' closed with
      | none => exact ⟨none, rfl, .none⟩
      | some p =>
          obtain ⟨declarator, rest⟩ := p
          obtain rfl := cutFirst?_eq_some hterm
          have hdeclarator := slice?_enclosed '}' ';' (by decide) front declarator rest
          rw [String.utf8Len_append] at hdeclarator
          have hfields : (pieces (· = ';') body).mapM fieldAt? = some _ := mapM_fieldAt? _
          simp only [Option.map_some, hbody, hdeclarator, Option.bind_some, hfields]
          have hnext : ∃ passed, cs = passed ++ rest ∧
              utf8Len (before ++ passed) = utf8Len front + utf8Len ('}' :: declarator) + 1 := by
            refine ⟨tag ++ '{' :: (body ++ '}' :: (declarator ++ [';'])), by simp [hcs], ?_⟩
            have hsize : (';' : Char).utf8Size = 1 := by decide
            simp [hfront, hsize]
            omega
          split
          · exact ⟨_, rfl, .some ⟨rfl, hnext⟩⟩
          · cases words declarator with
            | nil => exact ⟨_, rfl, .some ⟨rfl, hnext⟩⟩
            | cons name _ =>
                refine ⟨_, rfl, .some ⟨?_, hnext⟩⟩
                simp [fieldsIn, List.filterMap_map]

theorem exists_structureItemAt? (before cs : List Char) :
    ∃ read, structureItemAt? (before ++ cs) (utf8Len before) = some read ∧
      Reads before cs read (structureItem? cs) := by
  rw [structureItemAt?]
  simp only [Option.bind_eq_bind, Option.bind_some, Option.pure_def, sliceFrom?_append]
  rw [findChar?_eq]
  cases hbrace : cutFirst? '{' cs with
  | none =>
      rw [structureItem?, hbrace]
      exact ⟨none, rfl, .none⟩
  | some p =>
      obtain ⟨tag, opened⟩ := p
      have hcs := cutFirst?_eq_some hbrace
      simp only [Option.map_some]
      have htag : (findChar? (· = ';') cs).filter (· < utf8Len tag) = findChar? (· = ';') tag := by
        rw [hcs, filter_findChar?_append]
      rw [htag, findChar?_eq]
      by_cases hsemicolon : ';' ∈ tag
      · obtain ⟨handle, more, rfl, hhandle⟩ := List.eq_append_cons_of_mem hsemicolon
        have hcut : cutFirst? ';' cs = some (handle, more ++ '{' :: opened) := by
          rw [hcs, List.append_assoc, List.cons_append, cutFirst?_append hhandle]
        rw [cutFirst?_append hhandle, structureItem?, hbrace]
        simp only [if_pos hsemicolon, hcut, Option.map_some]
        refine ⟨_, rfl, .some ⟨rfl, handle ++ [';'], by simp [hcs], ?_⟩⟩
        have hsize : (';' : Char).utf8Size = 1 := by decide
        simp [hsize]
        omega
      · rw [cutFirst?_eq_none_iff.2 hsemicolon]
        exact exists_aggregateAt? hbrace hsemicolon before

/-- A round goes on where the item behind the first keywords ends. -/
theorem structureRound?_of_read {before rest front item : List Char}
    {read : Option (Option StructureLayout × Nat)}
    (hcut : cutAt? structKeyword rest = some (front, item))
    (hread : structureItemAt? (before ++ rest) (utf8Len (before ++ (front ++ structKeyword))) =
      some read) :
    structureRound? (before ++ rest) (utf8Len before) =
      some (read.elim ([], none) fun (layout, next) => (layout.toList, some next)) := by
  have hoffset : utf8Len before + utf8Len front + utf8Len structKeyword =
      utf8Len (before ++ (front ++ structKeyword)) := by
    simp [Nat.add_assoc]
  rw [structureRound?]
  simp only [Option.bind_eq_bind, Option.bind_some, sliceFrom?_append, find?, hcut,
    Option.map_some, hoffset, hread, Option.pure_def]
  cases read <;> rfl

theorem advances_structureRound? (before rest : List Char) :
    Advances (structureRound? (before ++ rest)) structuresIn before rest := by
  cases hcut : cutAt? structKeyword rest with
  | none =>
      refine .last ?_
      rw [structuresIn_eq, hcut, structureRound?]
      simp only [Option.bind_eq_bind, Option.bind_some, sliceFrom?_append, find?, hcut,
        Option.map_none, Option.pure_def]
  | some p =>
      obtain ⟨front, item⟩ := p
      have hrest := cutAt?_eq_some hcut
      have hseam : before ++ (front ++ structKeyword) ++ item = before ++ rest := by simp [hrest]
      obtain ⟨read, hread, hrel⟩ :=
        exists_structureItemAt? (before ++ (front ++ structKeyword)) item
      rw [hseam] at hread
      have hround := structureRound?_of_read hcut hread
      have hresult := structuresIn_eq rest
      simp only [hcut] at hresult
      generalize structureItem? item = item? at hrel hresult
      cases hrel with
      | none =>
          refine .last ?_
          rw [hround, hresult]
          rfl
      | @some read item h =>
          obtain ⟨layout, next⟩ := read
          obtain ⟨layout', rest'⟩ := item
          obtain ⟨rfl, passed, rfl, rfl⟩ := h
          refine .next (front ++ (structKeyword ++ passed)) rest' layout.toList ?_ ?_ ?_ hresult
          · have hkeyword : structKeyword ≠ [] := by decide
            simp [hkeyword]
          · simp [hrest]
          · rw [hround]
            simp

/-- The loop over the structures runs to the end of any text. -/
theorem runs_structureRound? (code : List Char) :
    Runs (structureRound? code) 0 (structuresIn code) :=
  runs_of_advances advances_structureRound? code

end

end HeaderAccord.Offset
