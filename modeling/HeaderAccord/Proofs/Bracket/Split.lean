import HeaderAccord.Proofs.Bracket

/-!
Where a list is split. The level of a text is the number of brackets that it opens less the number
that it closes, and a text is cut at exactly the commas in front of which the level is zero. So a
list of nested pieces is read back from its text, whatever blanks stand around its commas.
-/

namespace HeaderAccord.Bracket

open Text

/-! ### Levels -/

def openers : List Char := ['(', '<', '[']

/-- How often `->` stands in a text that comes after the character `before`. -/
def arrowsAfter (before : Char) (cs : List Char) : Nat :=
  ((before :: cs).zip cs).count ('-', '>')

/-- How many brackets a text opens less those that it closes; the `>` of an arrow closes none. -/
def levelAfter (before : Char) (cs : List Char) : Int :=
  cs.countP (· ∈ openers) - (cs.countP (· ∈ closers) - arrowsAfter before cs)

def level (cs : List Char) : Int :=
  cs.countP (· ∈ openers) - (cs.countP (· ∈ closers) - (cs.zip cs.tail).count ('-', '>'))

@[simp] theorem levelAfter_nil (before : Char) : levelAfter before [] = 0 := rfl

theorem depthChange_eq (before c : Char) :
    depthChange before c = (if c ∈ openers then 1 else 0) -
      ((if c ∈ closers then 1 else 0) - if (before, c) = ('-', '>') then 1 else 0) := by
  by_cases hopen : c ∈ openers
  · obtain rfl | rfl | rfl : c = '(' ∨ c = '<' ∨ c = '[' := by simpa [openers] using hopen
    all_goals simp [depthChange, openers, closers]
  · by_cases hclose : c ∈ closers
    · obtain rfl | rfl | rfl : c = ')' ∨ c = '>' ∨ c = ']' := by simpa [closers] using hclose
      · simp [depthChange, openers, closers]
      · by_cases hbefore : before = '-' <;> simp [depthChange, openers, closers, hbefore]
      · simp [depthChange, openers, closers]
    · have harrow : c ≠ '>' := fun h => hclose (by simp [h, closers])
      rw [if_neg hopen, if_neg hclose, if_neg fun h => harrow (Prod.mk.inj h).2]
      simp only [openers, closers, List.mem_cons, List.not_mem_nil, or_false, not_or]
        at hopen hclose
      simp [depthChange, hopen, hclose]

theorem levelAfter_cons (before c : Char) (cs : List Char) :
    levelAfter before (c :: cs) = depthChange before c + levelAfter c cs := by
  simp only [levelAfter, arrowsAfter, List.zip_cons_cons, List.countP_cons, List.count_cons,
    depthChange_eq, beq_iff_eq, decide_eq_true_eq]
  split <;> split <;> split <;> omega

theorem arrowsAfter_eq {before : Char} (h : before ≠ '-') (cs : List Char) :
    arrowsAfter before cs = (cs.zip cs.tail).count ('-', '>') := by
  cases cs with
  | nil => rfl
  | cons c cs => simp [arrowsAfter, h]

theorem level_eq {before : Char} (h : before ≠ '-') (cs : List Char) :
    level cs = levelAfter before cs := by
  rw [level, levelAfter, arrowsAfter_eq h]

/-! ### Cuts -/

/-- Between these parts of a text stands a comma with `front` before it and `back` behind it. -/
def IsCut (parts : List (List Char)) (front back : List Char) : Prop :=
  ∃ init rest, init ≠ [] ∧ rest ≠ [] ∧ parts = init ++ rest ∧ front = [','].intercalate init ∧
    back = [','].intercalate rest

theorem intercalate_prepend (c : Char) {parts : List (List Char)} (hne : parts ≠ []) :
    [','].intercalate (prepend [c] parts) = c :: [','].intercalate parts := by
  obtain ⟨p, parts, rfl⟩ := List.exists_cons_of_ne_nil hne
  cases parts with
  | nil => simp [prepend]
  | cons q parts => simp [prepend, List.intercalate_cons_cons]

theorem intercalate_nil_cons {parts : List (List Char)} (hne : parts ≠ []) :
    [','].intercalate ([] :: parts) = ',' :: [','].intercalate parts := by
  obtain ⟨p, parts, rfl⟩ := List.exists_cons_of_ne_nil hne
  rw [List.intercalate_cons_cons]
  rfl

/-- Behind an empty first part the comma at the front is a cut, and so are those of the others. -/
theorem isCut_nil_cons_iff {parts : List (List Char)} (hne : parts ≠ []) {front back : List Char} :
    IsCut ([] :: parts) front back ↔
      (front = [] ∧ back = [','].intercalate parts) ∨
        ∃ front', front = ',' :: front' ∧ IsCut parts front' back := by
  constructor
  · rintro ⟨_ | ⟨p, init⟩, rest, hinit, hrest, hparts, rfl, rfl⟩
    · exact absurd rfl hinit
    · rw [List.cons_append, List.cons.injEq] at hparts
      obtain ⟨rfl, rfl⟩ := hparts
      by_cases hempty : init = []
      · subst hempty
        exact .inl ⟨rfl, rfl⟩
      · exact .inr ⟨_, intercalate_nil_cons hempty, init, rest, hempty, hrest, rfl, rfl, rfl⟩
  · rintro (⟨rfl, rfl⟩ | ⟨front', rfl, init, rest, hinit, hrest, rfl, rfl, rfl⟩)
    · exact ⟨[[]], parts, by simp, hne, rfl, rfl, rfl⟩
    · exact ⟨[] :: init, rest, by simp, hrest, rfl, (intercalate_nil_cons hinit).symm, rfl⟩

theorem isCut_prepend_iff {c : Char} {parts : List (List Char)} (hne : parts ≠ [])
    {front back : List Char} :
    IsCut (prepend [c] parts) front back ↔
      ∃ front', front = c :: front' ∧ IsCut parts front' back := by
  obtain ⟨p, parts, rfl⟩ := List.exists_cons_of_ne_nil hne
  constructor
  · rintro ⟨_ | ⟨q, init⟩, rest, hinit, hrest, hparts, rfl, rfl⟩
    · exact absurd rfl hinit
    · obtain ⟨rfl, rfl⟩ : c :: p = q ∧ parts = init ++ rest := List.cons.inj hparts
      exact ⟨_, intercalate_prepend c (by simp : p :: init ≠ []), p :: init, rest, by simp, hrest,
        rfl, rfl, rfl⟩
  · rintro ⟨front', rfl, _ | ⟨q, init⟩, rest, hinit, hrest, hparts, rfl, rfl⟩
    · exact absurd rfl hinit
    · rw [List.cons_append, List.cons.injEq] at hparts
      obtain ⟨rfl, rfl⟩ := hparts
      exact ⟨prepend [c] (p :: init), rest, by simp [prepend], hrest, rfl,
        (intercalate_prepend c (by simp)).symm, rfl⟩

/-- The parts lose nothing of a text but the commas between them. -/
theorem intercalate_cutAtCommas (depth : Int) (before : Char) (cs : List Char) :
    [','].intercalate (cutAtCommas depth before cs) = cs := by
  induction cs generalizing depth before with
  | nil => rfl
  | cons c cs ih =>
      have hne (depth : Int) : cutAtCommas depth c cs ≠ [] := cutAtCommas_ne_nil _ _ _
      by_cases hcomma : c = ',' ∧ depth = 0
      · rw [cutAtCommas, if_pos (by simpa using hcomma), intercalate_nil_cons (hne _), ih, hcomma.1]
      · rw [cutAtCommas_cons hcomma, intercalate_prepend c (hne _), ih]

/-- The cuts are at the commas at level zero. -/
theorem isCut_cutAtCommas_iff {depth : Int} {before : Char} {cs front back : List Char}
    (h : cs = front ++ ',' :: back) :
    IsCut (cutAtCommas depth before cs) front back ↔ depth + levelAfter before front = 0 := by
  induction front generalizing depth before cs with
  | nil =>
      subst h
      have hne (depth : Int) : cutAtCommas depth ',' back ≠ [] := cutAtCommas_ne_nil _ _ _
      rw [List.nil_append, levelAfter_nil, Int.add_zero]
      by_cases hdepth : depth = 0
      · rw [cutAtCommas, if_pos (by simpa using hdepth), isCut_nil_cons_iff (hne _)]
        exact iff_of_true (.inl ⟨rfl, (intercalate_cutAtCommas _ _ _).symm⟩) hdepth
      · rw [cutAtCommas_cons (fun h => hdepth h.2), isCut_prepend_iff (hne _)]
        exact iff_of_false (by rintro ⟨_, h, -⟩; cases h) hdepth
  | cons c front ih =>
      subst h
      have hne (depth : Int) : cutAtCommas depth c (front ++ ',' :: back) ≠ [] :=
        cutAtCommas_ne_nil _ _ _
      rw [List.cons_append, levelAfter_cons, ← Int.add_assoc]
      by_cases hcomma : c = ',' ∧ depth = 0
      · obtain ⟨rfl, rfl⟩ := hcomma
        have hchange : depthChange before ',' = 0 := by simp [depthChange]
        rw [cutAtCommas, if_pos (by simp), isCut_nil_cons_iff (hne _), hchange, Int.add_zero,
          ← ih rfl]
        simp
      · rw [cutAtCommas_cons hcomma, isCut_prepend_iff (hne _), ← ih rfl]
        simp

/-! ### Lists -/

/-- The parts of a text as `splitTopLevel` cuts it, the blanks around them left. -/
def partsOf (cs : List Char) : List (List Char) := cutAtCommas 0 '\x00' cs

theorem isCut_partsOf_iff {cs front back : List Char} (h : cs = front ++ ',' :: back) :
    IsCut (partsOf cs) front back ↔ level front = 0 := by
  rw [partsOf, isCut_cutAtCommas_iff h, Int.zero_add, ← level_eq (by decide)]

/-- Only a blank text has no part that is more than blanks and no comma. -/
theorem map_trim_partsOf_eq_iff {cs : List Char} :
    (partsOf cs).map trim = [[]] ↔ AllBlank cs := by
  rw [List.map_eq_singleton_iff]
  constructor
  · rintro ⟨p, hp, htrim⟩
    have hcs := intercalate_cutAtCommas 0 '\x00' cs
    rw [← partsOf, hp, List.intercalate_singleton] at hcs
    exact hcs ▸ trim_eq_nil_iff.1 htrim
  · intro h
    have hpart : cutAtCommas 0 '\x00' ([','].intercalate [cs]) = [cs] :=
      cutAtCommas_intercalate (by simp) (by decide) (by simpa using nested_of_allBlank h)
    rw [List.intercalate_singleton] at hpart
    exact ⟨cs, hpart, trim_of_allBlank h⟩

theorem splitTopLevel_eq (cs : List Char) :
    splitTopLevel cs = if AllBlank cs then [] else (partsOf cs).map trim := by
  rw [splitTopLevel, ← partsOf]
  simp only [map_trim_partsOf_eq_iff]

theorem isBlank_comma : isBlank ',' = false := by decide

/-- A comma at the end leaves an empty last piece. -/
theorem getLast?_splitTopLevel {front gap : List Char} (h : level front = 0) (hgap : AllBlank gap) :
    (splitTopLevel (front ++ ',' :: gap)).getLast? = some [] := by
  have hcut : IsCut (partsOf (front ++ ',' :: gap)) front gap := (isCut_partsOf_iff rfl).2 h
  obtain ⟨init, rest, -, hrest, hparts, -, hback⟩ := hcut
  have hlast : rest = [gap] := by
    obtain ⟨p, rest, rfl⟩ := List.exists_cons_of_ne_nil hrest
    cases rest with
    | nil => rw [hback, List.intercalate_singleton]
    | cons q rest =>
        refine absurd ?_ (not_mem_of_allBlank hgap isBlank_comma)
        rw [hback, List.intercalate_cons_cons]
        simp
  have hblank : ¬AllBlank (front ++ ',' :: gap) := fun hblank =>
    not_mem_of_allBlank hblank isBlank_comma (by simp)
  rw [splitTopLevel_eq, if_neg hblank, hparts, hlast]
  simp [trim_of_allBlank hgap]

/-- A text in which the pieces stand one after the other, with a comma and any blanks around it
between each two. -/
inductive Joined : (pieces : List (List Char)) → (text : List Char) → Prop
  | last (piece : List Char) : Joined [piece] piece
  | cons {piece before after text : List Char} {pieces : List (List Char)}
      (hbefore : AllBlank before) (hafter : AllBlank after) (h : Joined pieces text) :
      Joined (piece :: pieces) (piece ++ (before ++ ',' :: (after ++ text)))

theorem nestsFrom_append_allBlank {gap : List Char} (h : AllBlank gap) (awaited : List Char)
    (before : Char) (cs : List Char) :
    nestsFrom awaited before (cs ++ gap) = nestsFrom awaited before cs := by
  induction cs generalizing awaited before with
  | nil =>
      rw [List.nil_append]
      induction gap generalizing before with
      | nil => rfl
      | cons c gap ih =>
          rw [allBlank_cons] at h
          rw [nestsFrom_plain (isPlain_of_isBlank h.1).1, ih h.2]
          rfl
  | cons c cs ih => simp [nestsFrom, ih]

theorem nestsFrom_allBlank_append {gap : List Char} (h : AllBlank gap) (awaited : List Char)
    {before : Char} (hbefore : before ≠ '-') (cs : List Char) :
    nestsFrom awaited before (gap ++ cs) = nestsFrom awaited before cs := by
  rw [← nestsFrom_trimStart hbefore, trimStart_append_of_allBlank h, nestsFrom_trimStart hbefore]

theorem trim_allBlank_append {gap : List Char} (h : AllBlank gap) (cs : List Char) :
    trim (gap ++ cs) = trim cs := by
  rw [trim, trimStart_append_of_allBlank h, trim]

/-- Between the commas of a joined text stand its pieces and blanks. -/
theorem exists_parts_of_joined {pieces : List (List Char)} {text : List Char}
    (hjoined : Joined pieces text) (h : ∀ p ∈ pieces, trim p = p ∧ Nested p) :
    ∃ parts, parts ≠ [] ∧ text = [','].intercalate parts ∧ parts.map trim = pieces ∧
      ∀ p ∈ parts, Nested p := by
  induction hjoined with
  | last piece =>
      obtain ⟨htrim, hnested⟩ := h piece (by simp)
      exact ⟨[piece], by simp, by simp, by simp [htrim], by simpa using hnested⟩
  | @cons piece before after text pieces hbefore hafter _ ih =>
      obtain ⟨⟨htrim, hnested⟩, hpieces⟩ := List.forall_mem_cons.1 h
      obtain ⟨parts, hne, rfl, rfl, hparts⟩ := ih hpieces
      obtain ⟨p, parts, rfl⟩ := List.exists_cons_of_ne_nil hne
      obtain ⟨hp, hparts⟩ := List.forall_mem_cons.1 hparts
      refine ⟨(piece ++ before) :: (after ++ p) :: parts, by simp, ?_, ?_, ?_⟩
      · cases parts with
        | nil => simp [List.intercalate_cons_cons]
        | cons q parts => simp [List.intercalate_cons_cons]
      · rw [List.map_cons, List.map_cons, List.map_cons, trim_append_of_allBlank hbefore, htrim,
          trim_allBlank_append hafter]
      · rw [List.forall_mem_cons, List.forall_mem_cons]
        refine ⟨?_, ?_, hparts⟩
        · rwa [Nested, nestsFrom_append_allBlank hbefore]
        · rwa [Nested, nestsFrom_allBlank_append hafter _ (by decide)]

theorem splitTopLevel_joined {pieces : List (List Char)} {text : List Char}
    (hjoined : Joined pieces text) (hblank : pieces ≠ [[]])
    (h : ∀ p ∈ pieces, trim p = p ∧ Nested p) : splitTopLevel text = pieces := by
  obtain ⟨parts, hne, rfl, rfl, hparts⟩ := exists_parts_of_joined hjoined h
  have hcut : partsOf ([','].intercalate parts) = parts :=
    cutAtCommas_intercalate hne (by decide) hparts
  have hnot : ¬AllBlank ([','].intercalate parts) := fun hall => hblank <| by
    rw [← map_trim_partsOf_eq_iff.2 hall, hcut]
  rw [splitTopLevel_eq, if_neg hnot, hcut]

/-- A text is cut at exactly the commas at level zero, nothing else of it is lost, and what is left
are the trimmed parts in order: none of a blank text, an empty one behind a comma at the end. So
nested pieces that are joined by commas are read back, unless there is only an empty one. -/
theorem splitTopLevel_exact (cs : List Char) :
    (∃ parts, [','].intercalate parts = cs ∧
      (∀ front back, cs = front ++ ',' :: back → (IsCut parts front back ↔ level front = 0)) ∧
      splitTopLevel cs = if AllBlank cs then [] else parts.map trim) ∧
    (∀ front gap, cs = front ++ ',' :: gap → level front = 0 → AllBlank gap →
      (splitTopLevel cs).getLast? = some []) ∧
    ∀ pieces, Joined pieces cs → pieces ≠ [[]] → (∀ p ∈ pieces, trim p = p ∧ Nested p) →
      splitTopLevel cs = pieces := by
  refine ⟨⟨partsOf cs, intercalate_cutAtCommas _ _ _, fun _ _ => isCut_partsOf_iff,
    splitTopLevel_eq cs⟩, ?_, fun _ => splitTopLevel_joined⟩
  rintro front gap rfl hlevel hgap
  exact getLast?_splitTopLevel hlevel hgap

/-- Pieces with an arrow and with commas in brackets, and an empty one at the end. -/
def arrowPieces : List (List Char) :=
  ["a: Option<extern fn(u32, u8) -> u32>".toList, "b: [u8; 4]".toList, []]

def arrowText : List Char := "a: Option<extern fn(u32, u8) -> u32> ,\n b: [u8; 4],".toList

theorem splitTopLevel_exact_arrow :
    Joined arrowPieces arrowText ∧ (∀ p ∈ arrowPieces, trim p = p ∧ Nested p) ∧
      splitTopLevel arrowText = arrowPieces ∧
      level arrowText.dropLast = 0 ∧ (splitTopLevel arrowText).getLast? = some [] := by
  have hjoined : Joined arrowPieces arrowText :=
    .cons (show AllBlank [' '] by decide) (show AllBlank ['\n', ' '] by decide)
      (.cons allBlank_nil allBlank_nil (.last []))
  have hpieces : ∀ p ∈ arrowPieces, trim p = p ∧ Nested p := by decide
  obtain ⟨-, htrailing, hread⟩ := splitTopLevel_exact arrowText
  exact ⟨hjoined, hpieces, hread arrowPieces hjoined (by decide) hpieces, by decide,
    htrailing arrowText.dropLast [] (by decide) (by decide) allBlank_nil⟩

end HeaderAccord.Bracket
