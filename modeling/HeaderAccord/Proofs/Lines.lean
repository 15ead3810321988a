import HeaderAccord.Proofs.Text
import HeaderAccord.Text.Cut

/-!
Lines put together. A text is given line by line; what is read of it are those lines, but for a
carriage return at the end of one, which is a blank.
-/

namespace HeaderAccord.Text

/-- A line without the carriage return that belongs to its ending. -/
def withoutReturn (line : List Char) : List Char :=
  if line.getLast? = some '\r' then line.dropLast else line

/-- A line has no carriage return in its ending, or it is the line without it and the return. -/
theorem withoutReturn_eq_or (line : List Char) :
    withoutReturn line = line ∨ line = withoutReturn line ++ ['\r'] := by
  rw [withoutReturn]
  split
  · next h =>
    obtain ⟨init, rfl⟩ := List.getLast?_eq_some_iff.1 h
    exact .inr (by rw [List.dropLast_concat])
  · exact .inl rfl

theorem withoutReturn_cons {c : Char} {line : List Char} (h : ¬(c = '\r' ∧ line = [])) :
    withoutReturn (c :: line) = c :: withoutReturn line := by
  cases line with
  | nil =>
      have hc : c ≠ '\r' := fun hc => h ⟨hc, rfl⟩
      simp [withoutReturn, hc]
  | cons d line =>
      rw [withoutReturn, withoutReturn, List.getLast?_cons_cons, List.dropLast_cons_cons]
      split <;> rfl

/-- Up to its line break, a text is one line. -/
theorem lines_line {line : List Char} (h : '\n' ∉ line) (rest : List Char) :
    lines (line ++ '\n' :: rest) = withoutReturn line :: lines rest := by
  induction line with
  | nil => exact lines_newline rest
  | cons c line ih =>
      rw [List.mem_cons, not_or] at h
      by_cases hreturn : c = '\r' ∧ line = []
      · obtain ⟨rfl, rfl⟩ := hreturn
        rw [List.singleton_append, lines]
        rfl
      · rw [withoutReturn_cons hreturn, List.cons_append, lines, ih h.2]
        · simpa using Ne.symm h.1
        · -- a line feed directly behind `c` would be the one that ends the line
          intro cs hc hcs
          cases line with
          | nil => exact hreturn ⟨hc, rfl⟩
          | cons d line =>
              rw [List.cons_append, List.cons.injEq] at hcs
              exact h.2 (by simp [hcs.1])

/-- Up to its line break, a text is one line, from which blanks at the end may be missing. -/
theorem exists_lines_append {line : List Char} (h : '\n' ∉ line) (rest : List Char) :
    ∃ kept gap, line = kept ++ gap ∧ AllBlank gap ∧
      lines (line ++ '\n' :: rest) = kept :: lines rest := by
  rcases withoutReturn_eq_or line with hkept | hkept
  · exact ⟨line, [], (List.append_nil _).symm, allBlank_nil, by rw [lines_line h, hkept]⟩
  · exact ⟨withoutReturn line, ['\r'], hkept, by decide, lines_line h rest⟩

/-- The end of a text, without a line break, is one line unless it is empty. -/
theorem lines_of_not_mem {line : List Char} (h : '\n' ∉ line) :
    lines line = if line = [] then [] else [line] := by
  induction line with
  | nil => simp
  | cons c line ih =>
      rw [List.mem_cons, not_or] at h
      rw [lines, ih h.2]
      · cases line <;> simp
      · simpa using Ne.symm h.1
      · rintro cs rfl rfl
        simp at h

/-- A line break divides the lines of a text. -/
theorem lines_append_newline (cs rest : List Char) :
    lines (cs ++ '\n' :: rest) = lines (cs ++ ['\n']) ++ lines rest := by
  -- the text shrinks by a line
  induction hn : cs.length using Nat.strongRecOn generalizing cs with
  | ind n ih =>
    subst hn
    by_cases hbreak : '\n' ∈ cs
    · obtain ⟨line, cs, rfl, hline⟩ := List.eq_append_cons_of_mem hbreak
      rw [List.append_assoc, List.cons_append, lines_line hline, List.append_assoc,
        List.cons_append, lines_line hline, ih cs.length (by simp; omega) cs rfl, List.cons_append]
    · rw [lines_line hbreak, lines_line hbreak, lines_nil]
      rfl

/-- A line break at the end of a text adds an empty line, or it ends the last line. -/
theorem lines_concat_newline (cs : List Char) :
    lines (cs ++ ['\n']) = lines cs ++ [[]] ∨
      ∃ init last, lines cs = init ++ [last] ∧
        lines (cs ++ ['\n']) = init ++ [withoutReturn last] := by
  induction hn : cs.length using Nat.strongRecOn generalizing cs with
  | ind n ih =>
    subst hn
    by_cases hbreak : '\n' ∈ cs
    · obtain ⟨line, cs, rfl, hline⟩ := List.eq_append_cons_of_mem hbreak
      rw [List.append_assoc, List.cons_append, lines_line hline, lines_line hline]
      rcases ih cs.length (by simp; omega) cs rfl with hempty | ⟨init, last, hlines, hended⟩
      · exact .inl (by rw [hempty, List.cons_append])
      · refine .inr ⟨withoutReturn line :: init, last, ?_, ?_⟩
        · rw [hlines, List.cons_append]
        · rw [hended, List.cons_append]
    · rw [lines_line hbreak, lines_of_not_mem hbreak, lines_nil]
      split
      · next hempty =>
        subst hempty
        exact .inl rfl
      · exact .inr ⟨[], cs, rfl, rfl⟩

/-- What follows a line: the end of the text, or a line break and the lines behind it. -/
def ended : (rest : Option (List Char)) → List Char
  | none => []
  | some rest => '\n' :: rest

/-- A line that is not empty is read as one line wherever it ends. -/
theorem exists_lines_ended {line : List Char} (h : '\n' ∉ line) (hne : line ≠ [])
    (rest : Option (List Char)) :
    ∃ kept gap, line = kept ++ gap ∧ AllBlank gap ∧
      lines (line ++ ended rest) = kept :: lines (rest.getD []) := by
  cases rest with
  | some rest => exact exists_lines_append h rest
  | none =>
      refine ⟨line, [], (List.append_nil _).symm, allBlank_nil, ?_⟩
      rw [ended, List.append_nil, lines_of_not_mem h, if_neg hne, Option.getD_none, lines_nil]

/-! ### Texts line by line -/

/-- A text that ends where a line does. -/
def EndsLine (cs : List Char) : Prop := cs = [] ∨ cs.getLast? = some '\n'

instance (cs : List Char) : Decidable (EndsLine cs) :=
  inferInstanceAs (Decidable (cs = [] ∨ cs.getLast? = some '\n'))

theorem lines_append_of_endsLine {cs : List Char} (h : EndsLine cs) (rest : List Char) :
    lines (cs ++ rest) = lines cs ++ lines rest := by
  rcases h with rfl | h
  · rw [lines_nil]
    rfl
  · obtain ⟨init, rfl⟩ := List.getLast?_eq_some_iff.1 h
    rw [List.append_assoc, List.singleton_append]
    exact lines_append_newline init rest

theorem trim_withoutReturn (line : List Char) : trim (withoutReturn line) = trim line := by
  rcases withoutReturn_eq_or line with h | h
  · rw [h]
  · conv => rhs; rw [h]
    exact (trim_append_of_allBlank (by decide) _).symm

theorem mem_of_mem_lines {cs line : List Char} (h : line ∈ lines cs) {c : Char} (hc : c ∈ line) :
    c ∈ cs := by
  fun_induction lines cs generalizing line with
  | case1 => simp at h
  | case2 cs ih =>
    rcases List.mem_cons.1 h with rfl | h
    · simp at hc
    · exact List.mem_cons_of_mem _ (ih h hc)
  | case3 cs ih =>
    rcases List.mem_cons.1 h with rfl | h
    · simp at hc
    · exact List.mem_cons_of_mem _ (List.mem_cons_of_mem _ (ih h hc))
  | case4 d cs _ _ hnil ih =>
    rw [List.mem_singleton.1 h] at hc
    exact List.mem_singleton.1 hc ▸ List.mem_cons_self
  | case5 d cs _ _ l ls hlines ih =>
    rw [hlines] at ih
    rcases List.mem_cons.1 h with rfl | h
    · rcases List.mem_cons.1 hc with rfl | hc
      · exact List.mem_cons_self
      · exact List.mem_cons_of_mem _ (ih List.mem_cons_self hc)
    · exact List.mem_cons_of_mem _ (ih (List.mem_cons_of_mem _ h) hc)

theorem map_trim_lines_of_allBlank {gap : List Char} (h : AllBlank gap) :
    (lines gap).map trim = List.replicate (lines gap).length [] := by
  refine List.eq_replicate_iff.2 ⟨List.length_map _, fun trimmed htrimmed => ?_⟩
  obtain ⟨line, hline, rfl⟩ := List.mem_map.1 htrimmed
  exact trim_of_allBlank fun c hc => h c (mem_of_mem_lines hline hc)

/-- Blanks at the end of a text are blanks at the end of its last line and blank lines after it. -/
theorem exists_map_trim_lines_append {gap : List Char} (h : AllBlank gap) (cs : List Char) :
    ∃ count, (lines (cs ++ gap)).map trim = (lines cs).map trim ++ List.replicate count [] := by
  -- the text shrinks by a line
  induction hn : cs.length using Nat.strongRecOn generalizing cs with
  | ind n ih =>
    subst hn
    by_cases hbreak : '\n' ∈ cs
    · obtain ⟨line, cs, rfl, hline⟩ := List.eq_append_cons_of_mem hbreak
      obtain ⟨count, hrest⟩ := ih cs.length (by simp; omega) cs rfl
      refine ⟨count, ?_⟩
      rw [List.append_assoc, List.cons_append, lines_line hline, lines_line hline, List.map_cons,
        hrest, List.map_cons, List.cons_append]
    · by_cases hempty : cs = []
      · subst hempty
        exact ⟨_, map_trim_lines_of_allBlank h⟩
      · rw [lines_of_not_mem hbreak, if_neg hempty]
        by_cases hgap : '\n' ∈ gap
        · obtain ⟨front, back, rfl, hfront⟩ := List.eq_append_cons_of_mem hgap
          obtain ⟨hblank, hback⟩ := allBlank_append.1 h
          have hline : '\n' ∉ cs ++ front := by simp [hbreak, hfront]
          refine ⟨(lines back).length, ?_⟩
          rw [← List.append_assoc, lines_line hline, List.map_cons, trim_withoutReturn,
            trim_append_of_allBlank hblank, map_trim_lines_of_allBlank (allBlank_cons.1 hback).2]
          rfl
        · have hline : '\n' ∉ cs ++ gap := by simp [hbreak, hgap]
          refine ⟨0, ?_⟩
          rw [lines_of_not_mem hline, if_neg (by simp [hempty]), List.map_singleton,
            trim_append_of_allBlank h]
          rfl

end HeaderAccord.Text

namespace HeaderAccord

/-! ### Texts that stay on their line -/

/-- A text that stays on its line. -/
def IsLine (text : List Char) : Prop := ∀ c ∈ text, c ≠ '\n' ∧ c ≠ '\r'

instance (text : List Char) : Decidable (IsLine text) :=
  decidable_of_iff (text.all (fun c => c ≠ '\n' ∧ c ≠ '\r') = true) (by simp [IsLine])

theorem Text.lines_append {line : List Char} (h : IsLine line) (rest : List Char) :
    Text.lines (line ++ '\n' :: rest) = line :: Text.lines rest := by
  induction line with
  | nil => exact Text.lines_newline rest
  | cons c line ih =>
      obtain ⟨⟨hfeed, hreturn⟩, hline⟩ := List.forall_mem_cons.1 h
      rw [List.cons_append, Text.lines, ih hline]
      · simpa using hfeed
      · intro _ hc _
        exact hreturn hc

theorem Text.lines_join {ls : List String} (h : ∀ l ∈ ls, IsLine l.toList) :
    (Text.lines (String.join (ls.map (· ++ "\n"))).toList).map String.ofList = ls := by
  induction ls with
  | nil => simp [String.join]
  | cons l ls ih =>
      obtain ⟨hl, hls⟩ := List.forall_mem_cons.1 h
      have hjoin : (String.join ((l :: ls).map (· ++ "\n"))).toList =
          l.toList ++ '\n' :: (String.join (ls.map (· ++ "\n"))).toList := by
        simp [String.join_cons]
      rw [hjoin, Text.lines_append hl, List.map_cons, ih hls, String.ofList_toList]

end HeaderAccord
