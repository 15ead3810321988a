import HeaderAccord.Text.Words

/-!
Blanks, words and cuts of a text. The scanners cut a text where it is laid out freely, so the facts
they need say what a run of blanks does to each operation: nothing at the ends of a text, and one
space between two words. `squeeze` is the step between a text and its `collapse`: it works character
by character, so that a cut before it is a cut after it.
-/

namespace HeaderAccord.Text

def AllBlank (cs : List Char) : Prop := ∀ c ∈ cs, isBlank c = true

instance (cs : List Char) : Decidable (AllBlank cs) :=
  decidable_of_iff (cs.all isBlank = true) List.all_eq_true

/-- A word: at least one character, and no blank. -/
def IsWord (w : List Char) : Prop := w ≠ [] ∧ ∀ c ∈ w, isBlank c = false

instance (w : List Char) : Decidable (IsWord w) :=
  decidable_of_iff (w ≠ [] ∧ w.all (fun c => !isBlank c) = true) (by simp [IsWord])

@[simp] theorem allBlank_nil : AllBlank [] := by simp [AllBlank]

@[simp] theorem allBlank_cons {c : Char} {cs : List Char} :
    AllBlank (c :: cs) ↔ isBlank c = true ∧ AllBlank cs := by
  simp [AllBlank]

@[simp] theorem allBlank_append {a b : List Char} :
    AllBlank (a ++ b) ↔ AllBlank a ∧ AllBlank b := by
  simp only [AllBlank, List.mem_append]
  constructor
  · intro h
    exact ⟨fun c hc => h c (.inl hc), fun c hc => h c (.inr hc)⟩
  · rintro ⟨ha, hb⟩ c (hc | hc)
    · exact ha c hc
    · exact hb c hc

theorem isBlank_space : isBlank ' ' = true := by decide

theorem not_mem_of_allBlank {g : List Char} (hg : AllBlank g) {c : Char}
    (hc : isBlank c = false) : c ∉ g := by
  intro h
  rw [hg c h] at hc
  cases hc

/-- Blanks at the end of a text are behind every other character of it. -/
theorem exists_of_append_cons_eq {a b kept gap : List Char} {c : Char} (hc : isBlank c = false)
    (hgap : AllBlank gap) (h : a ++ c :: b = kept ++ gap) :
    ∃ more, kept = a ++ c :: more ∧ b = more ++ gap := by
  have hnot : c ∉ gap := not_mem_of_allBlank hgap hc
  rcases List.append_eq_append_iff.1 h with ⟨more, hkept, hmore⟩ | ⟨more, -, hmore⟩
  · cases more with
    | nil =>
        rw [List.nil_append] at hmore
        exact absurd (by simp [← hmore]) hnot
    | cons d more =>
        obtain ⟨rfl, hb⟩ := List.cons.inj hmore
        exact ⟨more, hkept, hb⟩
  · exact absurd (by simp [hmore]) hnot

/-- What holds of the blanks one by one holds of every blank. -/
theorem of_isBlank {p : Char → Prop} [DecidablePred p] (h : blanks.all (fun c => p c) = true)
    {c : Char} (hc : isBlank c = true) : p c := by
  have hmem : c ∈ blanks := by simpa [isBlank] using hc
  exact of_decide_eq_true (List.all_eq_true.1 h c hmem)

/-! ### Trimming

Trimming one end passes over a character that is not blank, so a text around such a character is
trimmed on each side of it alone. -/

theorem trimStart_append_of_allBlank {g : List Char} (hg : AllBlank g) (cs : List Char) :
    trimStart (g ++ cs) = trimStart cs := by
  induction g with
  | nil => rfl
  | cons c g ih =>
      rw [allBlank_cons] at hg
      rw [List.cons_append, trimStart_cons_of_blank hg.1, ih hg.2]

theorem trimStart_of_allBlank {g : List Char} (hg : AllBlank g) : trimStart g = [] := by
  simpa using trimStart_append_of_allBlank hg []

theorem trimStart_append_of_not_blank {c : Char} (hc : isBlank c = false) (a b : List Char) :
    trimStart (a ++ c :: b) = trimStart a ++ c :: b := by
  induction a with
  | nil => exact trimStart_cons_of_not_blank hc
  | cons d a ih =>
      cases hd : isBlank d with
      | true => rw [List.cons_append, trimStart_cons_of_blank hd, ih, trimStart_cons_of_blank hd]
      | false =>
          rw [List.cons_append, trimStart_cons_of_not_blank hd, trimStart_cons_of_not_blank hd]
          rfl

@[simp] theorem trimStart_trimStart (cs : List Char) : trimStart (trimStart cs) = trimStart cs := by
  induction cs with
  | nil => rfl
  | cons c cs ih =>
      cases hc : isBlank c with
      | true => rw [trimStart_cons_of_blank hc, ih]
      | false => rw [trimStart_cons_of_not_blank hc, trimStart_cons_of_not_blank hc]

@[simp] theorem trimEnd_nil : trimEnd [] = [] := rfl

theorem trimEnd_cons_of_not_blank {c : Char} (hc : isBlank c = false) (cs : List Char) :
    trimEnd (c :: cs) = c :: trimEnd cs := by
  rw [trimEnd]
  cases trimEnd cs with
  | nil => simp [hc]
  | cons d ds => rfl

theorem trimEnd_of_allBlank {g : List Char} (hg : AllBlank g) : trimEnd g = [] := by
  induction g with
  | nil => rfl
  | cons c g ih =>
      rw [allBlank_cons] at hg
      rw [trimEnd, ih hg.2]
      simp [hg.1]

theorem trimEnd_append_of_not_blank {c : Char} (hc : isBlank c = false) (a b : List Char) :
    trimEnd (a ++ c :: b) = a ++ c :: trimEnd b := by
  induction a with
  | nil => exact trimEnd_cons_of_not_blank hc b
  | cons d a ih =>
      rw [List.cons_append, trimEnd, ih]
      cases a <;> rfl

theorem trimEnd_append_of_allBlank {g : List Char} (hg : AllBlank g) (cs : List Char) :
    trimEnd (cs ++ g) = trimEnd cs := by
  induction cs with
  | nil => exact trimEnd_of_allBlank hg
  | cons c cs ih => rw [List.cons_append, trimEnd, trimEnd, ih]

theorem trimStart_trimEnd (cs : List Char) : trimStart (trimEnd cs) = trimEnd (trimStart cs) := by
  induction cs with
  | nil => rfl
  | cons c cs ih =>
      cases hc : isBlank c with
      | false =>
          rw [trimEnd_cons_of_not_blank hc, trimStart_cons_of_not_blank hc,
            trimStart_cons_of_not_blank hc, trimEnd_cons_of_not_blank hc]
      | true =>
          rw [trimStart_cons_of_blank hc, ← ih, trimEnd]
          cases trimEnd cs with
          | nil => simp [hc]
          | cons d ds => simpa using trimStart_cons_of_blank hc

theorem exists_trimStart (cs : List Char) : ∃ g, AllBlank g ∧ cs = g ++ trimStart cs := by
  induction cs with
  | nil => exact ⟨[], by simp, rfl⟩
  | cons c cs ih =>
      cases hc : isBlank c with
      | false => exact ⟨[], by simp, by rw [trimStart_cons_of_not_blank hc]; rfl⟩
      | true =>
          obtain ⟨g, hg, heq⟩ := ih
          refine ⟨c :: g, by simp [hc, hg], ?_⟩
          rw [trimStart_cons_of_blank hc, List.cons_append, ← heq]

theorem exists_trimEnd (cs : List Char) : ∃ g, AllBlank g ∧ cs = trimEnd cs ++ g := by
  induction cs with
  | nil => exact ⟨[], allBlank_nil, rfl⟩
  | cons c cs ih =>
      obtain ⟨g, hg, heq⟩ := ih
      rw [trimEnd]
      cases h : trimEnd cs with
      | cons d ds => exact ⟨g, hg, by rw [List.cons_append, ← h, ← heq]⟩
      | nil =>
          rw [h, List.nil_append] at heq
          cases hc : isBlank c with
          | true => exact ⟨c :: cs, by simp [hc, heq, hg], by simp⟩
          | false => exact ⟨cs, heq ▸ hg, by simp⟩

theorem exists_trim (cs : List Char) :
    ∃ lead trail, AllBlank lead ∧ AllBlank trail ∧ cs = lead ++ (trim cs ++ trail) := by
  obtain ⟨lead, hlead, hstart⟩ := exists_trimStart cs
  obtain ⟨trail, htrail, hend⟩ := exists_trimEnd (trimStart cs)
  exact ⟨lead, trail, hlead, htrail, by rw [trim, ← hend, ← hstart]⟩

@[simp] theorem trim_nil : trim [] = [] := rfl

theorem trim_of_allBlank {g : List Char} (hg : AllBlank g) : trim g = [] := by
  rw [trim, trimStart_of_allBlank hg, trimEnd_nil]

theorem trim_eq_nil_iff {cs : List Char} : trim cs = [] ↔ AllBlank cs := by
  constructor
  · intro h
    obtain ⟨lead, trail, hlead, htrail, heq⟩ := exists_trim cs
    rw [heq, h]
    exact allBlank_append.2 ⟨hlead, allBlank_append.2 ⟨allBlank_nil, htrail⟩⟩
  · exact trim_of_allBlank

theorem trim_cons_of_blank {c : Char} (hc : isBlank c = true) (cs : List Char) :
    trim (c :: cs) = trim cs := by
  rw [trim, trimStart_cons_of_blank hc, trim]

@[simp] theorem trim_trimStart (cs : List Char) : trim (trimStart cs) = trim cs := by
  rw [trim, trimStart_trimStart, trim]

@[simp] theorem trimEnd_trimEnd (cs : List Char) : trimEnd (trimEnd cs) = trimEnd cs := by
  induction cs with
  | nil => rfl
  | cons c cs ih =>
      rw [trimEnd]
      cases h : trimEnd cs with
      | nil =>
          cases hc : isBlank c with
          | true => rfl
          | false => exact trimEnd_cons_of_not_blank hc []
      | cons d ds =>
          have htail : trimEnd (d :: ds) = d :: ds := by rw [← h]; exact ih
          show trimEnd (c :: d :: ds) = c :: d :: ds
          rw [trimEnd, htail]

@[simp] theorem trim_trimEnd (cs : List Char) : trim (trimEnd cs) = trim cs := by
  rw [trim, trimStart_trimEnd, trimEnd_trimEnd, trim]

@[simp] theorem trim_trim (cs : List Char) : trim (trim cs) = trim cs := by
  rw [show trim cs = trimEnd (trimStart cs) from rfl, trim_trimEnd, trim_trimStart]
  rfl

theorem trim_append_of_allBlank {g : List Char} (hg : AllBlank g) (cs : List Char) :
    trim (cs ++ g) = trim cs := by
  rw [trim, ← trimStart_trimEnd, trimEnd_append_of_allBlank hg, trimStart_trimEnd, trim]

theorem trim_append_of_not_blank {c : Char} (hc : isBlank c = false) (a b : List Char) :
    trim (a ++ c :: b) = trimStart a ++ c :: trimEnd b := by
  rw [trim, trimStart_append_of_not_blank hc, trimEnd_append_of_not_blank hc]

/-! ### Words

A run of blanks between two texts separates their words; at an end it adds none. -/

theorem words_of_allBlank {g : List Char} (hg : AllBlank g) : words g = [] := by
  induction g with
  | nil => exact words_nil
  | cons c g ih =>
      rw [allBlank_cons] at hg
      rw [words_cons_of_blank hg.1, ih hg.2]

theorem words_allBlank_append {g : List Char} (hg : AllBlank g) (cs : List Char) :
    words (g ++ cs) = words cs := by
  induction g with
  | nil => rfl
  | cons c g ih =>
      rw [allBlank_cons] at hg
      rw [List.cons_append, words_cons_of_blank hg.1, ih hg.2]

theorem words_append_gap {g : List Char} (hg : AllBlank g) (hne : g ≠ []) (a b : List Char) :
    words (a ++ (g ++ b)) = words a ++ words b := by
  obtain ⟨c, g, rfl⟩ := List.exists_cons_of_ne_nil hne
  rw [allBlank_cons] at hg
  rw [List.cons_append, words_append_blank hg.1, words_allBlank_append hg.2]

theorem words_append_allBlank {g : List Char} (hg : AllBlank g) (cs : List Char) :
    words (cs ++ g) = words cs := by
  cases g with
  | nil => rw [List.append_nil]
  | cons c g =>
      rw [allBlank_cons] at hg
      rw [words_append_blank hg.1, words_of_allBlank hg.2, List.append_nil]

theorem pieces_of_forall {isSeparator : Char → Bool} {cs : List Char}
    (h : ∀ c ∈ cs, isSeparator c = false) : pieces isSeparator cs = [cs] := by
  induction cs with
  | nil => rfl
  | cons c cs ih =>
      rw [pieces, h c (by simp), ih fun d hd => h d (by simp [hd])]
      rfl

/-- What follows a text without a separator goes to its last piece. -/
theorem exists_pieces_append {isSeparator : Char → Bool} {more : List Char}
    (h : ∀ c ∈ more, isSeparator c = false) (cs : List Char) :
    ∃ init last, pieces isSeparator cs = init ++ [last] ∧
      pieces isSeparator (cs ++ more) = init ++ [last ++ more] := by
  induction cs with
  | nil => exact ⟨[], [], rfl, by rw [List.nil_append, pieces_of_forall h]; rfl⟩
  | cons c cs ih =>
      obtain ⟨init, last, hcs, hmore⟩ := ih
      rw [List.cons_append, pieces, pieces, hcs, hmore]
      split
      · exact ⟨[] :: init, last, rfl, rfl⟩
      · cases init with
        | nil => exact ⟨[], c :: last, rfl, rfl⟩
        | cons p init => exact ⟨(c :: p) :: init, last, rfl, rfl⟩

/-- Of a text, its pieces miss the separators only. -/
theorem exists_mem_pieces_iff {isSeparator : Char → Bool} {cs : List Char} {c : Char} :
    (∃ p ∈ pieces isSeparator cs, c ∈ p) ↔ c ∈ cs ∧ isSeparator c = false := by
  induction cs with
  | nil => simp [pieces]
  | cons d cs ih =>
      rw [pieces]
      split
      · next hd =>
        have hne : isSeparator c = false → c ≠ d := by
          rintro hc rfl
          rw [hd] at hc
          cases hc
        simp only [List.mem_cons, exists_eq_or_imp, List.not_mem_nil, false_or, ih]
        exact and_congr_left fun hc => (or_iff_right (hne hc)).symm
      · next hd =>
        obtain ⟨p, ps, hp⟩ := List.exists_cons_of_ne_nil (pieces_ne_nil isSeparator cs)
        rw [hp] at ih ⊢
        have hcases : (∃ q ∈ (d :: p) :: ps, c ∈ q) ↔ c = d ∨ ∃ q ∈ p :: ps, c ∈ q := by
          simp [or_assoc]
        have hsep : c = d → isSeparator c = false := by
          rintro rfl
          simpa using hd
        rw [hcases, ih, List.mem_cons, or_and_right, and_iff_left_of_imp hsep]

theorem isWord_of_mem_words {w cs : List Char} (h : w ∈ words cs) : IsWord w := by
  rw [words, List.mem_filter] at h
  exact ⟨by simpa using h.2, fun c hc => (exists_mem_pieces_iff.1 ⟨w, h.1, hc⟩).2⟩

theorem exists_mem_words_iff {c : Char} (hc : isBlank c = false) {cs : List Char} :
    (∃ w ∈ words cs, c ∈ w) ↔ c ∈ cs := by
  have hpieces : (∃ w ∈ words cs, c ∈ w) ↔ ∃ p ∈ pieces isBlank cs, c ∈ p := by
    constructor
    · rintro ⟨w, hw, hmem⟩
      exact ⟨w, (List.mem_filter.1 hw).1, hmem⟩
    · rintro ⟨p, hp, hmem⟩
      exact ⟨p, List.mem_filter.2 ⟨hp, by cases p <;> simp_all⟩, hmem⟩
  rw [hpieces, exists_mem_pieces_iff, and_iff_left hc]

theorem words_of_isWord {w : List Char} (hw : IsWord w) : words w = [w] := by
  rw [words, pieces_of_forall hw.2]
  simp [hw.1]

theorem words_isWord_append {w : List Char} (hw : IsWord w) {c : Char} (hc : isBlank c = true)
    (cs : List Char) : words (w ++ c :: cs) = w :: words cs := by
  rw [words_append_blank hc, words_of_isWord hw, List.singleton_append]

/-- A text that does not start with a blank starts with a word, which a blank or the end follows. -/
theorem exists_isWord {c : Char} (hc : isBlank c = false) (cs : List Char) :
    IsWord (c :: cs) ∨
      ∃ w d rest, IsWord w ∧ isBlank d = true ∧ c :: cs = w ++ d :: rest := by
  induction cs generalizing c with
  | nil => exact .inl ⟨by simp, by simpa using hc⟩
  | cons d cs ih =>
      cases hd : isBlank d with
      | true => exact .inr ⟨[c], d, cs, ⟨by simp, by simpa using hc⟩, hd, rfl⟩
      | false =>
          rcases ih hd with ⟨_, hw⟩ | ⟨w, e, rest, hw, he, heq⟩
          · refine .inl ⟨by simp, fun x hx => ?_⟩
            rcases List.mem_cons.1 hx with rfl | hx
            · exact hc
            · exact hw x hx
          · refine .inr ⟨c :: w, e, rest, ⟨by simp, fun x hx => ?_⟩, he, by rw [heq]; rfl⟩
            rcases List.mem_cons.1 hx with rfl | hx
            · exact hc
            · exact hw.2 x hx

/-! ### Squeezing

`squeeze` leaves one space of every run of blanks, at the ends too. -/

def squeeze : List Char → List Char
  | [] => []
  | c :: cs => if isBlank c then ' ' :: trimStart (squeeze cs) else c :: squeeze cs

@[simp] theorem squeeze_nil : squeeze [] = [] := rfl

theorem squeeze_cons_of_blank {c : Char} (hc : isBlank c = true) (cs : List Char) :
    squeeze (c :: cs) = ' ' :: trimStart (squeeze cs) := by
  simp [squeeze, hc]

theorem squeeze_cons_of_not_blank {c : Char} (hc : isBlank c = false) (cs : List Char) :
    squeeze (c :: cs) = c :: squeeze cs := by
  simp [squeeze, hc]

theorem squeeze_append_of_not_blank {c : Char} (hc : isBlank c = false) (a b : List Char) :
    squeeze (a ++ c :: b) = squeeze a ++ c :: squeeze b := by
  induction a with
  | nil => exact squeeze_cons_of_not_blank hc b
  | cons d a ih =>
      cases hd : isBlank d with
      | true =>
          rw [List.cons_append, squeeze_cons_of_blank hd, ih, trimStart_append_of_not_blank hc,
            squeeze_cons_of_blank hd]
          rfl
      | false =>
          rw [List.cons_append, squeeze_cons_of_not_blank hd, ih, squeeze_cons_of_not_blank hd]
          rfl

theorem trimStart_squeeze (cs : List Char) : trimStart (squeeze cs) = squeeze (trimStart cs) := by
  induction cs with
  | nil => rfl
  | cons c cs ih =>
      cases hc : isBlank c with
      | true =>
          rw [squeeze_cons_of_blank hc, trimStart_cons_of_blank isBlank_space,
            trimStart_trimStart, ih, trimStart_cons_of_blank hc]
      | false =>
          rw [squeeze_cons_of_not_blank hc, trimStart_cons_of_not_blank hc,
            trimStart_cons_of_not_blank hc, squeeze_cons_of_not_blank hc]

@[simp] theorem squeeze_squeeze (cs : List Char) : squeeze (squeeze cs) = squeeze cs := by
  induction cs with
  | nil => rfl
  | cons c cs ih =>
      cases hc : isBlank c with
      | true =>
          rw [squeeze_cons_of_blank hc, squeeze_cons_of_blank isBlank_space, ← trimStart_squeeze,
            trimStart_trimStart, ih]
      | false => rw [squeeze_cons_of_not_blank hc, squeeze_cons_of_not_blank hc, ih]

theorem squeeze_isWord_append {w : List Char} (hw : ∀ c ∈ w, isBlank c = false)
    (cs : List Char) : squeeze (w ++ cs) = w ++ squeeze cs := by
  induction w with
  | nil => rfl
  | cons c w ih =>
      rw [List.cons_append, squeeze_cons_of_not_blank (hw c (by simp)),
        ih fun d hd => hw d (by simp [hd])]
      rfl

theorem trimStart_isWord_append {w : List Char} (hw : IsWord w) (cs : List Char) :
    trimStart (w ++ cs) = w ++ cs := by
  obtain ⟨c, w, rfl⟩ := List.exists_cons_of_ne_nil hw.1
  exact trimStart_cons_of_not_blank (hw.2 c (by simp))

theorem trimEnd_isWord_append {w : List Char} (hw : ∀ c ∈ w, isBlank c = false)
    (cs : List Char) : trimEnd (w ++ cs) = w ++ trimEnd cs := by
  induction w with
  | nil => rfl
  | cons c w ih =>
      rw [List.cons_append, trimEnd_cons_of_not_blank (hw c (by simp)),
        ih fun d hd => hw d (by simp [hd])]
      rfl

theorem trim_isWord_append {w : List Char} (hw : IsWord w) (cs : List Char) :
    trim (w ++ cs) = w ++ trimEnd cs := by
  rw [trim, trimStart_isWord_append hw, trimEnd_isWord_append hw.2]

theorem collapse_eq_nil_iff {cs : List Char} : collapse cs = [] ↔ words cs = [] := by
  constructor
  · intro h
    cases hw : words cs with
    | nil => rfl
    | cons w ws =>
        have hne : w ≠ [] := by
          have hmem : w ∈ words cs := by simp [hw]
          simpa [words] using (List.mem_filter.1 hmem).2
        rw [collapse, hw] at h
        cases ws <;> simp_all
  · intro h
    rw [collapse, h]
    rfl

/-- The words of a text with single spaces between them are what squeezing and trimming leave. -/
theorem collapse_eq_trim_squeeze (cs : List Char) : collapse cs = trim (squeeze cs) := by
  -- the text shrinks by a blank or by a word and the blank after it
  induction hn : cs.length using Nat.strongRecOn generalizing cs with
  | ind n ih =>
    subst hn
    cases cs with
    | nil => rfl
    | cons c cs =>
        cases hc : isBlank c with
        | true =>
            rw [squeeze_cons_of_blank hc, trim_cons_of_blank isBlank_space, trim_trimStart,
              ← ih _ (by simp) cs rfl, collapse, words_cons_of_blank hc, collapse]
        | false =>
            rcases exists_isWord hc cs with hw | ⟨w, d, rest, hw, hd, heq⟩
            · have hsq : squeeze (c :: cs) = c :: cs := by
                simpa using squeeze_isWord_append hw.2 []
              have htrim : trim (c :: cs) = c :: cs := by
                simpa using trim_isWord_append hw []
              rw [hsq, htrim, collapse, words_of_isWord hw]
              simp
            · have hrest : rest.length < (c :: cs).length := by
                rw [heq, List.length_append, List.length_cons]
                omega
              have hcol : trimEnd (trimStart (squeeze rest)) = collapse rest :=
                (ih _ hrest rest rfl).symm
              rw [heq, squeeze_isWord_append hw.2, squeeze_cons_of_blank hd,
                trim_isWord_append hw, trimEnd, hcol, collapse, words_isWord_append hw hd]
              cases hws : words rest with
              | nil =>
                  rw [collapse_eq_nil_iff.2 hws]
                  simp [isBlank_space]
              | cons v vs =>
                  obtain ⟨x, xs, hx⟩ := List.exists_cons_of_ne_nil
                    (mt collapse_eq_nil_iff.1 (by simp [hws] : words rest ≠ []))
                  rw [hx, List.intercalate_cons_cons, ← hws, ← collapse, hx]
                  simp

@[simp] theorem collapse_squeeze (cs : List Char) : collapse (squeeze cs) = collapse cs := by
  rw [collapse_eq_trim_squeeze, squeeze_squeeze, collapse_eq_trim_squeeze]

theorem words_intercalate {ws : List (List Char)} (h : ∀ w ∈ ws, IsWord w) :
    words ([' '].intercalate ws) = ws := by
  induction ws with
  | nil => exact words_nil
  | cons w ws ih =>
      obtain ⟨hw, hws⟩ := List.forall_mem_cons.1 h
      cases ws with
      | nil => rw [List.intercalate_singleton, words_of_isWord hw]
      | cons v ws =>
          rw [List.intercalate_cons_cons, List.append_assoc, List.singleton_append,
            words_isWord_append hw isBlank_space, ih hws]

theorem words_collapse (cs : List Char) : words (collapse cs) = words cs :=
  words_intercalate fun _ => isWord_of_mem_words

theorem words_trim (cs : List Char) : words (trim cs) = words cs := by
  obtain ⟨lead, trail, hlead, htrail, heq⟩ := exists_trim cs
  rw [heq, words_allBlank_append hlead, words_append_allBlank htrail, ← heq]

theorem mem_of_mem_trimStart {c : Char} {cs : List Char} (h : c ∈ trimStart cs) : c ∈ cs :=
  (List.dropWhile_sublist _).mem h

theorem mem_of_mem_squeeze {c : Char} {cs : List Char} (h : c ∈ squeeze cs) :
    c ∈ cs ∨ c = ' ' := by
  induction cs with
  | nil => simp at h
  | cons d cs ih =>
      cases hd : isBlank d with
      | true =>
          rw [squeeze_cons_of_blank hd] at h
          rcases List.mem_cons.1 h with rfl | h
          · exact .inr rfl
          · exact (ih (mem_of_mem_trimStart h)).imp_left (List.mem_cons_of_mem d)
      | false =>
          rw [squeeze_cons_of_not_blank hd] at h
          rcases List.mem_cons.1 h with rfl | h
          · simp
          · exact (ih h).imp_left (List.mem_cons_of_mem d)

theorem trimEnd_isPrefix (cs : List Char) : trimEnd cs <+: cs := by
  obtain ⟨g, -, heq⟩ := exists_trimEnd cs
  exact ⟨g, heq.symm⟩

theorem mem_of_mem_trim {c : Char} {cs : List Char} (h : c ∈ trim cs) : c ∈ cs :=
  mem_of_mem_trimStart ((trimEnd_isPrefix _).subset h)

theorem squeeze_allBlank_append {g : List Char} (hg : AllBlank g) (hne : g ≠ [])
    (cs : List Char) : squeeze (g ++ cs) = ' ' :: trimStart (squeeze cs) := by
  induction g with
  | nil => exact absurd rfl hne
  | cons c g ih =>
      rw [allBlank_cons] at hg
      rw [List.cons_append, squeeze_cons_of_blank hg.1]
      cases g with
      | nil => rfl
      | cons d g =>
          rw [ih hg.2 (by simp), trimStart_cons_of_blank isBlank_space, trimStart_trimStart]

/-- Any blanks between two texts count as one space. -/
theorem squeeze_append_gap {g : List Char} (hg : AllBlank g) (hne : g ≠ []) (a b : List Char) :
    squeeze (a ++ (g ++ b)) = squeeze (a ++ ' ' :: b) := by
  induction a with
  | nil =>
      rw [List.nil_append, List.nil_append, squeeze_allBlank_append hg hne,
        squeeze_cons_of_blank isBlank_space]
  | cons c a ih =>
      rw [List.cons_append, List.cons_append, squeeze, squeeze, ih]

theorem squeeze_intercalate (parts : List (List Char)) :
    squeeze ([','].intercalate parts) = [','].intercalate (parts.map squeeze) := by
  induction parts with
  | nil => rfl
  | cons p parts ih =>
      cases parts with
      | nil => simp
      | cons q parts =>
          rw [List.intercalate_cons_cons, List.append_assoc, List.singleton_append,
            squeeze_append_of_not_blank (by decide), ih]
          simp only [List.map_cons, List.intercalate_cons_cons, List.append_assoc,
            List.singleton_append]

/-- A line between two gaps counts as its trimmed text between two spaces. -/
theorem squeeze_append_line {g g' : List Char} (hg : AllBlank g ∧ g ≠ [])
    (hg' : AllBlank g' ∧ g' ≠ []) (a line b : List Char) :
    squeeze (a ++ (g ++ (line ++ (g' ++ b)))) = squeeze ((a ++ ' ' :: trim line) ++ ' ' :: b) := by
  obtain ⟨lead, trail, hlead, htrail, heq⟩ := exists_trim line
  have hfront : AllBlank (g ++ lead) := allBlank_append.2 ⟨hg.1, hlead⟩
  have hback : AllBlank (trail ++ g') := allBlank_append.2 ⟨htrail, hg'.1⟩
  calc squeeze (a ++ (g ++ (line ++ (g' ++ b))))
      = squeeze (a ++ ((g ++ lead) ++ (trim line ++ ((trail ++ g') ++ b)))) := by
        conv => lhs; rw [heq]
        simp only [List.append_assoc]
    _ = squeeze ((a ++ ' ' :: trim line) ++ ((trail ++ g') ++ b)) := by
        rw [squeeze_append_gap hfront (by simp [hg.2])]
        simp only [List.append_assoc, List.cons_append]
    _ = squeeze ((a ++ ' ' :: trim line) ++ ' ' :: b) :=
        squeeze_append_gap hback (by simp [hg'.2]) _ _

theorem collapse_append_of_not_blank {c : Char} (hc : isBlank c = false) (a b : List Char) :
    collapse (a ++ c :: b) = trimStart (squeeze a) ++ c :: trimEnd (squeeze b) := by
  rw [collapse_eq_trim_squeeze, squeeze_append_of_not_blank hc, trim_append_of_not_blank hc]

theorem collapse_of_allBlank {g : List Char} (hg : AllBlank g) : collapse g = [] :=
  collapse_eq_nil_iff.2 (words_of_allBlank hg)

/-! ### Cuts -/

theorem cutFirst?_append_of_not_mem {sep : Char} {a : List Char} (h : sep ∉ a) (b : List Char) :
    cutFirst? sep (a ++ b) = (cutFirst? sep b).map fun (before, after) => (a ++ before, after) := by
  induction a with
  | nil => simp
  | cons c a ih =>
      rw [List.mem_cons, not_or] at h
      rw [List.cons_append, cutFirst?, if_neg (Ne.symm h.1), ih h.2, Option.map_map]
      rfl

theorem cutFirst?_append {sep : Char} {a : List Char} (h : sep ∉ a) (b : List Char) :
    cutFirst? sep (a ++ sep :: b) = some (a, b) := by
  simp [cutFirst?_append_of_not_mem h, cutFirst?]

theorem cutFirst?_eq_none_iff {sep : Char} {cs : List Char} :
    cutFirst? sep cs = none ↔ sep ∉ cs := by
  constructor
  · intro h hmem
    obtain ⟨before, after, rfl, hbefore⟩ := List.eq_append_cons_of_mem hmem
    rw [cutFirst?_append hbefore] at h
    exact absurd h (by simp)
  · intro h
    simpa [cutFirst?] using cutFirst?_append_of_not_mem h []

/-- A pattern at the front of a text that does not hold `c` ends before the first `c`. -/
theorem prefix_of_append_cons_eq (before : List Char) {pattern after rest : List Char} {c : Char}
    (hc : c ∉ pattern) (h : before ++ c :: rest = pattern ++ after) : pattern <+: before := by
  rcases List.append_eq_append_iff.1 h with ⟨more, hpattern, hrest⟩ | ⟨more, hbefore, -⟩
  · cases more with
    | nil => exact ⟨[], by simpa using hpattern⟩
    | cons d more =>
        have hd : c = d := (List.cons.inj hrest).1
        exact absurd (by simp [hpattern, hd]) hc
  · exact ⟨more, hbefore.symm⟩

/-- A pattern in a text does not reach over a character that it does not hold. -/
theorem infix_or_infix_of_append_cons {pattern a b : List Char} {c : Char} (hc : c ∉ pattern)
    (h : pattern <:+: a ++ c :: b) : pattern <:+: a ∨ pattern <:+: b := by
  induction a with
  | nil =>
      rcases List.infix_cons_iff.1 h with ⟨after, hprefix⟩ | hinfix
      · exact .inl (prefix_of_append_cons_eq [] hc hprefix.symm).isInfix
      · exact .inr hinfix
  | cons d a ih =>
      rcases List.infix_cons_iff.1 h with ⟨after, hprefix⟩ | hinfix
      · exact .inl (prefix_of_append_cons_eq (d :: a) hc hprefix.symm).isInfix
      · exact (ih hinfix).imp_left List.infix_cons

theorem afterPrefix?_eq_none {pattern cs : List Char} (h : ¬pattern <+: cs) :
    afterPrefix? pattern cs = none := by
  cases hprefix : afterPrefix? pattern cs with
  | none => rfl
  | some after => exact absurd ⟨after, (eq_append_of_afterPrefix? hprefix).symm⟩ h

theorem cutAt?_eq_none {pattern cs : List Char} (hne : pattern ≠ [])
    (h : ¬pattern <:+: cs) : cutAt? pattern cs = none := by
  induction cs with
  | nil => simp [cutAt?, hne]
  | cons c cs ih =>
      rw [cutAt?, afterPrefix?_eq_none fun hp => h hp.isInfix,
        ih fun hi => h (List.infix_cons hi)]
      rfl

/-- A cut is at the first occurrence of the pattern. -/
theorem not_infix_of_cutAt? {pattern cs before after : List Char} (hne : pattern ≠ [])
    (h : cutAt? pattern cs = some (before, after)) : ¬pattern <:+: before := by
  induction cs generalizing before with
  | nil => simp [cutAt?, hne] at h
  | cons c cs ih =>
      rw [cutAt?] at h
      split at h
      · simp only [Option.some.injEq, Prod.mk.injEq] at h
        rw [← h.1, List.infix_nil]
        exact hne
      · next hnone =>
        obtain ⟨⟨before, after⟩, hcut, heq⟩ := Option.map_eq_some_iff.1 h
        simp only [Prod.mk.injEq] at heq
        obtain ⟨rfl, rfl⟩ := heq
        intro hinfix
        rcases List.infix_cons_iff.1 hinfix with ⟨more, hprefix⟩ | hinfix
        · rw [cutAt?_eq_some hcut, List.append_assoc, ← List.cons_append, ← hprefix,
            List.append_assoc, afterPrefix?_append] at hnone
          cases hnone
        · exact ih hcut hinfix

/-- What follows a text does not move the first cut in it. -/
theorem cutAt?_append {pattern cs before after : List Char} (hne : pattern ≠ [])
    (h : cutAt? pattern cs = some (before, after)) (rest : List Char) :
    cutAt? pattern (cs ++ rest) = some (before, after ++ rest) := by
  induction cs generalizing before with
  | nil => simp [cutAt?, hne] at h
  | cons c cs ih =>
      rw [cutAt?] at h
      rw [List.cons_append, cutAt?]
      split at h
      · next after' hprefix =>
        simp only [Option.some.injEq, Prod.mk.injEq] at h
        obtain ⟨rfl, rfl⟩ := h
        rw [← List.cons_append, eq_append_of_afterPrefix? hprefix, List.append_assoc,
          afterPrefix?_append]
      · next hnone =>
        obtain ⟨⟨before, after⟩, hcut, heq⟩ := Option.map_eq_some_iff.1 h
        simp only [Prod.mk.injEq] at heq
        obtain ⟨rfl, rfl⟩ := heq
        -- the pattern comes later in the text, so it does not reach beyond it from the front
        have hlength : pattern.length ≤ (c :: cs).length := by
          have := length_le_of_cutAt? hcut
          simp only [List.length_cons]
          omega
        have hnot : ¬pattern <+: c :: (cs ++ rest) := by
          intro hprefix
          obtain ⟨more, hmore⟩ := List.prefix_of_prefix_length_le hprefix
            (List.prefix_append (c :: cs) rest) hlength
          rw [← hmore, afterPrefix?_append] at hnone
          cases hnone
        rw [afterPrefix?_eq_none hnot, ih hcut]
        rfl

theorem isSome_cutAt?_iff {pattern cs : List Char} :
    (cutAt? pattern cs).isSome = true ↔ pattern <:+: cs := by
  constructor
  · intro h
    obtain ⟨⟨before, after⟩, hcut⟩ := Option.isSome_iff_exists.1 h
    exact ⟨before, after, (cutAt?_eq_some hcut).symm⟩
  · intro h
    induction cs with
    | nil => simp [cutAt?, List.infix_nil.1 h]
    | cons c cs ih =>
        rw [cutAt?]
        split
        · rfl
        · next hnone =>
          rcases List.infix_cons_iff.1 h with ⟨after, hprefix⟩ | hinfix
          · simp [← hprefix] at hnone
          · simpa using ih hinfix

theorem not_infix_of_cutAt?_eq_none {pattern cs : List Char} (h : cutAt? pattern cs = none) :
    ¬pattern <:+: cs := by
  rw [← isSome_cutAt?_iff, h]
  nofun

/-- A text is its pieces with the separators between them. -/
theorem intercalate_pieces (sep : Char) (cs : List Char) :
    [sep].intercalate (pieces (· = sep) cs) = cs := by
  induction cs with
  | nil => rfl
  | cons c cs ih =>
      obtain ⟨p, ps, hp⟩ := List.exists_cons_of_ne_nil (pieces_ne_nil (· = sep) cs)
      rw [hp] at ih
      rw [pieces, hp]
      split
      · next hc =>
        rw [List.intercalate_cons_cons, ih, of_decide_eq_true hc]
        rfl
      · cases ps with
        | nil =>
            rw [List.intercalate_singleton] at ih ⊢
            rw [ih]
        | cons q ps =>
            rw [List.intercalate_cons_cons] at ih ⊢
            rw [List.append_assoc, List.cons_append, ← List.append_assoc, ih]

theorem pieces_intercalate {sep : Char} {parts : List (List Char)} (hne : parts ≠ [])
    (h : ∀ p ∈ parts, sep ∉ p) : pieces (· = sep) ([sep].intercalate parts) = parts := by
  have hpiece {p : List Char} (hp : sep ∉ p) : pieces (· = sep) p = [p] :=
    pieces_of_forall fun c hc => decide_eq_false fun heq => hp (heq ▸ hc)
  induction parts with
  | nil => exact absurd rfl hne
  | cons p parts ih =>
      obtain ⟨hp, hparts⟩ := List.forall_mem_cons.1 h
      cases parts with
      | nil => rw [List.intercalate_singleton, hpiece hp]
      | cons q parts =>
          rw [List.intercalate_cons_cons, List.append_assoc, List.singleton_append,
            pieces_append_separator _ (decide_eq_true rfl), hpiece hp, ih (by simp) hparts]
          rfl

theorem beforeLast_append {sep : Char} {after : List Char} (h : sep ∉ after)
    (before : List Char) : beforeLast sep (before ++ sep :: after) = before := by
  induction before with
  | nil => simp [beforeLast, h]
  | cons c before ih =>
      rw [List.cons_append, beforeLast, ih]
      split
      · rw [if_pos (by simp)]
      · rfl

theorem beforeLast_of_not_mem {sep : Char} {cs : List Char} (h : sep ∉ cs) :
    beforeLast sep cs = cs := by
  induction cs with
  | nil => rfl
  | cons c cs ih =>
      rw [List.mem_cons, not_or] at h
      rw [beforeLast, if_neg (Ne.symm h.1), ih h.2]

theorem beforeLast_concat {sep c : Char} (hc : c ≠ sep) (cs : List Char) :
    beforeLast sep (cs ++ [c]) = if sep ∈ cs then beforeLast sep cs else cs ++ [c] := by
  induction cs with
  | nil => simp [beforeLast, hc]
  | cons d cs ih =>
      have hmem : sep ∈ cs ++ [c] ↔ sep ∈ cs := by simp [Ne.symm hc]
      rw [List.cons_append, beforeLast, ih, beforeLast]
      by_cases hd : d = sep
      · by_cases hcs : sep ∈ cs <;> simp [hd, hcs, hmem]
      · by_cases hcs : sep ∈ cs <;> simp [hd, hcs, Ne.symm hd]

theorem strip_append {c : Char} {stars cs : List Char} (hstars : ∀ d ∈ stars, d = c)
    (hfirst : ∀ d ∈ cs.head?, d ≠ c) (hlast : ∀ d ∈ cs.getLast?, d ≠ c) :
    strip c (stars ++ cs) = cs := by
  have hfront : (stars ++ cs).dropWhile (· = c) = cs := by
    induction stars with
    | nil =>
        cases cs with
        | nil => rfl
        | cons d cs => simp [hfirst d rfl]
    | cons d stars ih =>
        obtain ⟨rfl, hstars⟩ := List.forall_mem_cons.1 hstars
        simpa using ih hstars
  have hback : cs.reverse.dropWhile (· = c) = cs.reverse := by
    cases hcs : cs.reverse with
    | nil => rfl
    | cons d ds =>
        have hd : d ≠ c := hlast d (by simp [← List.head?_reverse, hcs])
        simp [hd]
  rw [strip, hfront, hback, List.reverse_reverse]

end HeaderAccord.Text
