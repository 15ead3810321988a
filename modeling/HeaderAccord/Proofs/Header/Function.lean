import HeaderAccord.Header.Function
import HeaderAccord.Proofs.Lines

/-!
Exported functions of a text. A declaration may be broken into lines inside its parameter list; the
lines are joined to one that differs from the text in its blanks only. What is read of the joined
line is decided by the words between its commas, so the blanks do not matter to it.
-/

namespace HeaderAccord.Header

open Text

/-! ### Joining lines -/

/-- The declarations of a text, of which the first may be open before it. -/
def declarationsIn (marker : List Char) (pending : Option (List Char)) (text : List Char) :
    List (List Char) :=
  declarations marker pending (lines text)

def NoParens (cs : List Char) : Prop := '(' ∉ cs ∧ ')' ∉ cs

instance (cs : List Char) : Decidable (NoParens cs) :=
  inferInstanceAs (Decidable ('(' ∉ cs ∧ ')' ∉ cs))

theorem noParens_append {a b : List Char} : NoParens (a ++ b) ↔ NoParens a ∧ NoParens b := by
  simp only [NoParens, List.mem_append, not_or]
  constructor
  · rintro ⟨⟨ha, hb⟩, ha', hb'⟩
    exact ⟨⟨ha, ha'⟩, hb, hb'⟩
  · rintro ⟨⟨ha, ha'⟩, hb, hb'⟩
    exact ⟨⟨ha, hb⟩, ha', hb'⟩

theorem NoParens.of_subset {part cs : List Char} (h : NoParens cs) (hpart : part ⊆ cs) :
    NoParens part :=
  ⟨fun hmem => h.1 (hpart hmem), fun hmem => h.2 (hpart hmem)⟩

/-- A declaration that ends inside its parameter list. -/
def EndsInList (declaration : List Char) : Prop :=
  declaration.count '(' = 1 ∧ declaration.count ')' = 0

theorem endsInList_of_noParens {head list : List Char} (hhead : NoParens head)
    (hlist : NoParens list) : EndsInList (head ++ '(' :: list) := by
  simp [EndsInList, List.count_append, List.count_eq_zero.2 hhead.1, List.count_eq_zero.2 hhead.2,
    List.count_eq_zero.2 hlist.1, List.count_eq_zero.2 hlist.2]

namespace EndsInList

variable {declaration : List Char} (h : EndsInList declaration)

include h

theorem append {more : List Char} (hmore : NoParens more) : EndsInList (declaration ++ more) := by
  simp [EndsInList, List.count_append, h.1, h.2, List.count_eq_zero.2 hmore.1,
    List.count_eq_zero.2 hmore.2]

theorem isOpen_eq : isOpen declaration = true := by
  simp [isOpen, h.1, h.2]

theorem isOpen_close {tail : List Char} (htail : NoParens tail) :
    isOpen (declaration ++ ')' :: tail) = false := by
  simp [isOpen, List.count_append, h.1, h.2, List.count_eq_zero.2 htail.1,
    List.count_eq_zero.2 htail.2]

end EndsInList

section

variable {pending : List Char} (hpending : EndsInList pending)

include hpending

/-- A line inside the parameter list is joined, and leaves the list open. -/
theorem declarationsIn_join (marker : List Char) {line : List Char} (hline : '\n' ∉ line)
    (hparens : NoParens line) (rest : List Char) :
    EndsInList (pending ++ ' ' :: trim line) ∧
      declarationsIn marker (some pending) (line ++ '\n' :: rest) =
        declarationsIn marker (some (pending ++ ' ' :: trim line)) rest := by
  have hjoined : EndsInList (pending ++ ([' '] ++ trim line)) :=
    hpending.append (noParens_append.2 ⟨by decide, hparens.of_subset fun _ => mem_of_mem_trim⟩)
  obtain ⟨kept, gap, rfl, hgap, hlines⟩ := exists_lines_append hline rest
  rw [trim_append_of_allBlank hgap] at hjoined ⊢
  refine ⟨hjoined, ?_⟩
  rw [declarationsIn, hlines, declarations]
  exact if_pos hjoined.isOpen_eq

/-- The line of the closing parenthesis is joined, and ends the declaration. -/
theorem declarationsIn_close (marker : List Char) {list tail : List Char}
    (hlist : NoParens list ∧ '\n' ∉ list) (htail : NoParens tail ∧ '\n' ∉ tail)
    (rest : Option (List Char)) :
    declarationsIn marker (some pending) (list ++ ')' :: (tail ++ ended rest)) =
      (pending ++ ' ' :: (trimStart list ++ ')' :: trimEnd tail)) ::
        declarationsIn marker none (rest.getD []) := by
  have hline : '\n' ∉ list ++ ')' :: tail := by simp [hlist.2, htail.2]
  have hjoined : EndsInList (pending ++ ([' '] ++ trimStart list)) :=
    hpending.append
      (noParens_append.2 ⟨by decide, hlist.1.of_subset fun _ => mem_of_mem_trimStart⟩)
  have hclosed := hjoined.isOpen_close (htail.1.of_subset (trimEnd_isPrefix tail).subset)
  rw [List.append_assoc, List.singleton_append, List.cons_append] at hclosed
  obtain ⟨kept, gap, heq, hgap, hlines⟩ := exists_lines_ended hline (by simp) rest
  have htrim : trim kept = trimStart list ++ ')' :: trimEnd tail := by
    rw [← trim_append_of_allBlank hgap, ← heq, trim_append_of_not_blank (by decide)]
  have htext : list ++ ')' :: (tail ++ ended rest) = (list ++ ')' :: tail) ++ ended rest := by simp
  rw [htext, declarationsIn, hlines, declarations, htrim, hclosed]
  rfl

end

/-- An open declaration is joined up to the line of its closing parenthesis. What is joined to it is
what follows it in the text, up to blanks. -/
theorem declarationsIn_open (marker : List Char) {pending list tail : List Char}
    (hpending : EndsInList pending) (hlist : NoParens list)
    (htail : NoParens tail ∧ '\n' ∉ tail) (rest : Option (List Char)) :
    ∃ more tail', ')' ∉ tail' ∧ squeeze (pending ++ more) = squeeze (pending ++ ' ' :: list) ∧
      declarationsIn marker (some pending) (list ++ ')' :: (tail ++ ended rest)) =
        (pending ++ (more ++ ')' :: tail')) :: declarationsIn marker none (rest.getD []) := by
  -- the text shrinks by a line
  induction hn : list.length using Nat.strongRecOn generalizing pending list with
  | ind n ih =>
    subst hn
    by_cases hbreak : '\n' ∈ list
    · obtain ⟨line, list, rfl, hline⟩ := List.eq_append_cons_of_mem hbreak
      obtain ⟨hparens, hnext⟩ := noParens_append.1 hlist
      obtain ⟨hjoined, hjoin⟩ := declarationsIn_join hpending marker hline hparens
        (list ++ ')' :: (tail ++ ended rest))
      obtain ⟨more, tail', htail', hsame, hdeclarations⟩ :=
        ih list.length (by simp; omega) hjoined (noParens_append (a := ['\n']).1 hnext).2 rfl
      refine ⟨' ' :: trim line ++ more, tail', htail', ?_, ?_⟩
      · have hlineBlank := squeeze_append_line ⟨show AllBlank [' '] by decide, by simp⟩
          ⟨show AllBlank ['\n'] by decide, by simp⟩ pending line list
        rw [← List.append_assoc, hsame, ← hlineBlank]
        rfl
      · rw [List.append_assoc, List.cons_append, hjoin, hdeclarations]
        simp
    · obtain ⟨lead, hlead, hstart⟩ := exists_trimStart list
      have hspace : AllBlank (' ' :: lead) := allBlank_cons.2 ⟨isBlank_space, hlead⟩
      have hgap := squeeze_append_gap hspace (by simp) pending (trimStart list)
      rw [List.cons_append, ← hstart] at hgap
      refine ⟨' ' :: trimStart list, trimEnd tail, ?_, hgap.symm, ?_⟩
      · exact fun hmem => htail.1.2 ((trimEnd_isPrefix tail).subset hmem)
      · exact declarationsIn_close hpending marker ⟨hlist, hbreak⟩ htail rest

/-- A declaration is joined to one line, on which its parameter list is what it is in the text, up
to blanks. -/
theorem declarationsIn_declaration {marker head list tail : List Char} (hmarked : marker <+: head)
    (hhead : NoParens head ∧ '\n' ∉ head) (hlist : NoParens list)
    (htail : NoParens tail ∧ '\n' ∉ tail) (rest : Option (List Char)) :
    ∃ list' tail', ')' ∉ tail' ∧ squeeze list' = squeeze list ∧
      declarationsIn marker none (head ++ '(' :: (list ++ ')' :: (tail ++ ended rest))) =
        (head ++ '(' :: (list' ++ ')' :: tail')) ::
          declarationsIn marker none (rest.getD []) := by
  have hstarts (more : List Char) : marker.isPrefixOf (head ++ '(' :: more) = true :=
    List.isPrefixOf_iff_prefix.2 (hmarked.trans (List.prefix_append _ _))
  by_cases hbreak : '\n' ∈ list
  · obtain ⟨line, list, rfl, hfirst⟩ := List.eq_append_cons_of_mem hbreak
    obtain ⟨hlineParens, hnext⟩ := noParens_append.1 hlist
    have hline : '\n' ∉ head ++ '(' :: line := by simp [hhead.2, hfirst]
    obtain ⟨kept, gap, heq, hgap, hlines⟩ :=
      exists_lines_append hline (list ++ ')' :: (tail ++ ended rest))
    obtain ⟨line, rfl, rfl⟩ := exists_of_append_cons_eq (by decide) hgap heq
    have hpending := endsInList_of_noParens hhead.1 (noParens_append.1 hlineParens).1
    obtain ⟨more, tail', htail', hsame, hdeclarations⟩ := declarationsIn_open marker hpending
      (noParens_append (a := ['\n']).1 hnext).2 htail rest
    refine ⟨line ++ more, tail', htail', ?_, ?_⟩
    · -- the head is the same on both sides
      have hbreakBlank : AllBlank (gap ++ ['\n']) := allBlank_append.2 ⟨hgap, by decide⟩
      have hspace := squeeze_append_gap hbreakBlank (by simp) (head ++ '(' :: line) list
      have hsame' : squeeze (head ++ '(' :: (line ++ more)) =
          squeeze (head ++ '(' :: (line ++ gap ++ '\n' :: list)) := by
        calc squeeze (head ++ '(' :: (line ++ more))
            = squeeze (head ++ '(' :: line ++ more) := by simp
          _ = squeeze (head ++ '(' :: line ++ ((gap ++ ['\n']) ++ list)) :=
            hsame.trans hspace.symm
          _ = squeeze (head ++ '(' :: (line ++ gap ++ '\n' :: list)) := by simp
      rw [squeeze_append_of_not_blank (by decide),
        squeeze_append_of_not_blank (by decide)] at hsame'
      exact (List.cons.inj (List.append_cancel_left hsame')).2
    · have htext : head ++ '(' :: (line ++ gap ++ '\n' :: list ++ ')' :: (tail ++ ended rest)) =
          head ++ '(' :: (line ++ gap) ++ '\n' :: (list ++ ')' :: (tail ++ ended rest)) := by simp
      rw [declarationsIn] at hdeclarations
      rw [htext, declarationsIn, hlines, declarations, hstarts, if_pos rfl, hpending.isOpen_eq,
        if_pos rfl, hdeclarations]
      simp
  · have hline : '\n' ∉ (head ++ '(' :: list) ++ ')' :: tail := by
      simp [hhead.2, hbreak, htail.2]
    obtain ⟨kept, gap, heq, hgap, hlines⟩ := exists_lines_ended hline (by simp) rest
    obtain ⟨tail', rfl, rfl⟩ := exists_of_append_cons_eq (by decide) hgap heq
    have htail' := (noParens_append.1 htail.1).1
    have hclosed := (endsInList_of_noParens hhead.1 hlist).isOpen_close htail'
    have htext : head ++ '(' :: (list ++ ')' :: (tail' ++ gap ++ ended rest)) =
        head ++ '(' :: list ++ ')' :: (tail' ++ gap) ++ ended rest := by simp
    refine ⟨list, tail', htail'.2, rfl, ?_⟩
    rw [htext, declarationsIn, hlines, declarations, List.append_assoc, List.cons_append, hstarts,
      if_pos rfl]
    rw [List.append_assoc, List.cons_append] at hclosed
    rw [hclosed]
    rfl

/-- A line that the marker does not start is passed over. -/
theorem declarationsIn_line {marker line : List Char} (hline : '\n' ∉ line)
    (hplain : ¬marker <+: line) (rest : Option (List Char)) :
    declarationsIn marker none (line ++ ended rest) =
      declarationsIn marker none (rest.getD []) := by
  by_cases hempty : line = []
  · subst hempty
    cases rest with
    | none => rfl
    | some rest =>
        have hmarker : marker.isPrefixOf [] = false :=
          Bool.eq_false_iff.2 fun h => hplain (List.isPrefixOf_iff_prefix.1 h)
        rw [List.nil_append, ended, declarationsIn, lines_newline, declarations, hmarker]
        rfl
  · obtain ⟨kept, gap, rfl, -, hlines⟩ := exists_lines_ended hline hempty rest
    have hmarker : marker.isPrefixOf kept = false := Bool.eq_false_iff.2 fun h =>
      hplain ((List.isPrefixOf_iff_prefix.1 h).trans (List.prefix_append _ _))
    rw [declarationsIn, hlines, declarations, hmarker]
    rfl

theorem declarationsIn_lines {marker code : List Char}
    (hplain : ∀ line ∈ pieces (· = '\n') code, ¬marker <+: line) (rest : Option (List Char)) :
    declarationsIn marker none (code ++ ended rest) =
      declarationsIn marker none (rest.getD []) := by
  have hunbroken : ∀ line ∈ pieces (· = '\n') code, '\n' ∉ line := fun line hline hmem => by
    simpa using (exists_mem_pieces_iff.1 ⟨line, hline, hmem⟩).2
  have hne := pieces_ne_nil (· = '\n') code
  rw [← intercalate_pieces '\n' code]
  generalize pieces (· = '\n') code = rows at hplain hunbroken hne ⊢
  induction rows with
  | nil => exact absurd rfl hne
  | cons line rows ih =>
      obtain ⟨hfirst, hrows⟩ := List.forall_mem_cons.1 hunbroken
      obtain ⟨hfirstPlain, hrowsPlain⟩ := List.forall_mem_cons.1 hplain
      cases rows with
      | nil =>
          rw [List.intercalate_singleton]
          exact declarationsIn_line hfirst hfirstPlain rest
      | cons next rows =>
          have h := declarationsIn_line hfirst hfirstPlain
            (some (['\n'].intercalate (next :: rows) ++ ended rest))
          rw [List.intercalate_cons_cons, List.append_assoc, List.append_assoc]
          exact h.trans (ih hrowsPlain hrows (by simp))

/-! ### Reading a declaration

The C text of a parameter keeps its blanks; collapsed, it is the words of the parameter. -/

def PointerArg.collapsed (a : PointerArg) : PointerArg :=
  { a with cParam := String.ofList (collapse a.cParam.toList) }

def FunctionSignature.collapsed (f : FunctionSignature) : FunctionSignature :=
  { f with pointerArgs := f.pointerArgs.map (·.collapsed) }

/-- The name that the last of some words ends in, without the stars written against it. -/
def lastName? (ws : List (List Char)) : Option (List Char) :=
  match ws.getLast? with
  | none => none
  | some word =>
    let name := word.dropWhile (· = '*')
    if name.isEmpty then none else some name

/-- The pointer parameter of some words. -/
def argOfWords? (ws : List (List Char)) : Option PointerArg :=
  if ∃ w ∈ ws, '*' ∈ w then
    (lastName? ws).map fun name =>
      { name := String.ofList (Name.keyChars name), cParam := String.ofList ([' '].intercalate ws) }
  else none

theorem pointerArgOf?_collapsed (param : List Char) :
    (pointerArgOf? (trim param)).map (·.collapsed) = argOfWords? (words param) := by
  have hname : declaredName? (trim param) = lastName? (words param) := by
    rw [declaredName?, words_trim]
    rfl
  have hstar : '*' ∈ trim param ↔ ∃ w ∈ words param, '*' ∈ w := by
    rw [← words_trim param]
    exact (exists_mem_words_iff (by decide)).symm
  rw [pointerArgOf?, argOfWords?]
  by_cases h : '*' ∈ trim param
  · rw [if_pos h, if_pos (hstar.1 h), hname, Option.map_map]
    congr 1
    funext name
    simp [PointerArg.collapsed, collapse, words_trim]
  · rw [if_neg h, if_neg (mt hstar.2 h), Option.map_none]

/-- Texts that differ in blanks only have the same words between their commas. -/
theorem map_words_pieces_eq {a b : List Char} (h : squeeze a = squeeze b) :
    (pieces (· = ',') a).map words = (pieces (· = ',') b).map words := by
  have hsqueeze (cs : List Char) :
      pieces (· = ',') (squeeze cs) = (pieces (· = ',') cs).map squeeze := by
    have hne : (pieces (· = ',') cs).map squeeze ≠ [] := by simp [pieces_ne_nil]
    conv => lhs; rw [← intercalate_pieces ',' cs, squeeze_intercalate]
    refine pieces_intercalate hne fun p hp hmem => ?_
    obtain ⟨q, hq, rfl⟩ := List.mem_map.1 hp
    rcases mem_of_mem_squeeze hmem with hmem | hmem
    · simpa using (exists_mem_pieces_iff.1 ⟨q, hq, hmem⟩).2
    · exact absurd hmem (by decide)
  have hwords (cs : List Char) : words (trim (squeeze cs)) = words cs := by
    rw [← collapse_eq_trim_squeeze, words_collapse]
  have hmap (cs : List Char) : (pieces (· = ',') cs).map words =
      (pieces (· = ',') (squeeze cs)).map fun p => words (trim p) := by
    rw [hsqueeze, List.map_map]
    exact List.map_congr_left fun p _ => (hwords p).symm
  rw [hmap a, hmap b, h]

/-- What is read of a joined declaration, from its parameter list as it is in the text. -/
theorem signatureOf?_collapsed {head name list list' tail : List Char} (hhead : '(' ∉ head)
    (hname : declaredName? head = some name) (htail : ')' ∉ tail)
    (hlist : squeeze list' = squeeze list) :
    (signatureOf? (head ++ '(' :: (list' ++ ')' :: tail))).map (·.collapsed) =
      some {
        name := String.ofList name
        pointerArgs := ((pieces (· = ',') list).map words).filterMap argOfWords? } := by
  have hparameters : parameters (list' ++ ')' :: tail) = (pieces (· = ',') list').map trim := by
    rw [parameters, beforeLast_append htail]
  have hargs : (((pieces (· = ',') list').map trim).filterMap pointerArgOf?).map (·.collapsed) =
      ((pieces (· = ',') list').map words).filterMap argOfWords? := by
    rw [List.filterMap_map, List.filterMap_map, List.map_filterMap]
    congr 1
    funext param
    exact pointerArgOf?_collapsed param
  rw [signatureOf?, cutFirst?_append hhead]
  dsimp only
  rw [hname, hparameters, Option.map_some, Option.map_some, FunctionSignature.collapsed, hargs,
    map_words_pieces_eq hlist]

end HeaderAccord.Header
