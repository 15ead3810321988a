import HeaderAccord.Proofs.Override.Layout

/-!
Structs without named fields. A tuple or unit struct `pub struct name ..;` has nothing to compare,
and a script should be read as if it were not there. The reader takes it for such a struct by its
first line alone, which must have no opening brace and end in the semicolon. Any other one is open
behind that line, and it becomes a block if a closing brace comes before the next struct.
-/

namespace HeaderAccord.Override

open Text

/-! ### Lines -/

theorem codeOf_withoutReturn (line : List Char) : codeOf (withoutReturn line) = codeOf line := by
  rcases withoutReturn_eq_or line with h | h
  · rw [h]
  · conv => rhs; rw [h]
    exact (codeOf_append_allBlank (by decide) _).symm

/-- The line starts a struct. -/
def StartsStruct (line : List Char) : Prop := structKeyword <+: codeOf line

instance (line : List Char) : Decidable (StartsStruct line) :=
  inferInstanceAs (Decidable (structKeyword <+: codeOf line))

theorem readLine_startsStruct {line rest : List Char} (h : codeOf line = structKeyword ++ rest)
    (open? : Option Block) : readLine open? (codeOf line) = readHead rest := by
  simp only [readLine, h, afterPrefix?_append]

theorem readLine_none {line : List Char} (h : ¬StartsStruct line) :
    readLine none (codeOf line) = (none, none) := by
  simp only [readLine, afterPrefix?_eq_none h]

theorem readLine_some {line : List Char} (h : ¬StartsStruct line) (b : Block) :
    readLine (some b) (codeOf line) = readBody b (codeOf line) := by
  simp only [readLine, afterPrefix?_eq_none h]

theorem readBody_of_not_mem {body : List Char} (h : '\x7d' ∉ body) (b : Block) :
    readBody b body = (none, some (b.addFields body)) := by
  simp only [readBody, cutFirst?_eq_none_iff.2 h]

theorem exists_readBody_of_mem {body : List Char} (h : '\x7d' ∈ body) (b : Block) :
    ∃ ended, readBody b body = (some ended, none) := by
  obtain ⟨inside, behind, rfl, hinside⟩ := List.eq_append_cons_of_mem h
  exact ⟨b.addFields inside, by simp only [readBody, cutFirst?_append hinside]⟩

/-! ### Reading on with an open block -/

/-- Lines that start no struct add nothing unless a block is open. -/
theorem blocksFrom_none_append {ls : List (List Char)} (h : ∀ l ∈ ls, ¬StartsStruct l)
    (rest : List (List Char)) : blocksFrom none (ls ++ rest) = blocksFrom none rest := by
  induction ls with
  | nil => rfl
  | cons l ls ih =>
      obtain ⟨hl, hls⟩ := List.forall_mem_cons.1 h
      rw [List.cons_append, blocksFrom, readLine_none hl]
      exact ih hls

/-- An open block ends at the first closing brace. -/
theorem exists_blocksFrom_some {ls : List (List Char)} (h : ∀ l ∈ ls, ¬StartsStruct l)
    (hbrace : ∃ l ∈ ls, '\x7d' ∈ codeOf l) (b : Block) :
    ∃ ended, ∀ rest, blocksFrom (some b) (ls ++ rest) = ended :: blocksFrom none rest := by
  induction ls generalizing b with
  | nil => simp at hbrace
  | cons l ls ih =>
      obtain ⟨hl, hls⟩ := List.forall_mem_cons.1 h
      by_cases hclose : '\x7d' ∈ codeOf l
      · obtain ⟨ended, hended⟩ := exists_readBody_of_mem hclose b
        refine ⟨ended, fun rest => ?_⟩
        rw [List.cons_append, blocksFrom, readLine_some hl, hended]
        exact congrArg _ (blocksFrom_none_append hls rest)
      · have hlater : ∃ l ∈ ls, '\x7d' ∈ codeOf l := by simpa [hclose] using hbrace
        obtain ⟨ended, hended⟩ := ih hls hlater (b.addFields (codeOf l))
        refine ⟨ended, fun rest => ?_⟩
        rw [List.cons_append, blocksFrom, readLine_some hl, readBody_of_not_mem hclose]
        exact hended rest

/-- The lines before the next struct. -/
def beforeStruct (ls : List (List Char)) : List (List Char) :=
  ls.takeWhile fun l => !decide (StartsStruct l)

/-- A closing brace comes before the next struct. -/
def Closes (ls : List (List Char)) : Prop := ∃ l ∈ beforeStruct ls, '\x7d' ∈ codeOf l

instance (ls : List (List Char)) : Decidable (Closes ls) :=
  inferInstanceAs (Decidable (∃ l ∈ beforeStruct ls, '\x7d' ∈ codeOf l))

theorem Closes.exists_block {ls : List (List Char)} (h : Closes ls) (b : Block) :
    ∃ ended, blocksFrom (some b) ls = ended :: blocksFrom none ls := by
  have hplain : ∀ l ∈ beforeStruct ls, ¬StartsStruct l := fun l hl => by
    simpa using List.all_eq_true.1 List.all_takeWhile l hl
  obtain ⟨rest, hrest⟩ := List.takeWhile_prefix (l := ls) fun l => !decide (StartsStruct l)
  obtain ⟨ended, hended⟩ := exists_blocksFrom_some hplain h b
  refine ⟨ended, ?_⟩
  have hsome := hended rest
  have hnone := blocksFrom_none_append hplain rest
  rw [beforeStruct, hrest] at hsome hnone
  rw [hsome, hnone]

theorem blocksFrom_of_not_closes {ls : List (List Char)} (h : ¬Closes ls) (b : Block) :
    blocksFrom (some b) ls = blocksFrom none ls := by
  induction ls generalizing b with
  | nil => rfl
  | cons l ls ih =>
      rw [blocksFrom, blocksFrom]
      by_cases hstart : StartsStruct l
      · obtain ⟨rest, hrest⟩ := hstart
        rw [readLine_startsStruct hrest.symm, readLine_startsStruct hrest.symm]
      · have hcons : beforeStruct (l :: ls) = l :: beforeStruct ls :=
          List.takeWhile_cons_of_pos (by simpa using hstart)
        have hopen : '\x7d' ∉ codeOf l := fun hbrace => h ⟨l, by simp [hcons], hbrace⟩
        have hrest : ¬Closes ls := by
          rintro ⟨later, hmem, hbrace⟩
          exact h ⟨later, by simp [hcons, hmem], hbrace⟩
        rw [readLine_some hstart, readLine_none hstart, readBody_of_not_mem hopen]
        exact ih hrest _

/-! ### Structs that become blocks -/

/-- What stands behind the first opening brace. -/
def behindBrace (code : List Char) : List Char :=
  ((cutFirst? '\x7b' code).map (·.2)).getD []

theorem behindBrace_of_not_mem {code : List Char} (h : '\x7b' ∉ code) : behindBrace code = [] := by
  rw [behindBrace, cutFirst?_eq_none_iff.2 h]
  rfl

theorem behindBrace_append {before : List Char} (h : '\x7b' ∉ before) (code : List Char) :
    behindBrace (before ++ code) = behindBrace code := by
  rw [behindBrace, behindBrace, cutFirst?_append_of_not_mem h, Option.map_map]
  rfl

theorem behindBrace_append_cons {before : List Char} (h : '\x7b' ∉ before) (behind : List Char) :
    behindBrace (before ++ '\x7b' :: behind) = behind := by
  rw [behindBrace, cutFirst?_append h]
  rfl

theorem mem_of_mem_behindBrace {code : List Char} {c : Char} (h : c ∈ behindBrace code) :
    c ∈ code := by
  by_cases hbrace : '\x7b' ∈ code
  · obtain ⟨before, behind, rfl, hbefore⟩ := List.eq_append_cons_of_mem hbrace
    rw [behindBrace_append_cons hbefore] at h
    simp [h]
  · rw [behindBrace_of_not_mem hbrace] at h
    cases h

theorem mem_behindBrace_append {a b : List Char} {c : Char} (h : c ∈ behindBrace (a ++ b)) :
    c ∈ behindBrace a ∨ c ∈ b := by
  by_cases hbrace : '\x7b' ∈ a
  · obtain ⟨before, behind, rfl, hbefore⟩ := List.eq_append_cons_of_mem hbrace
    rw [List.append_assoc, List.cons_append, behindBrace_append_cons hbefore] at h
    rw [behindBrace_append_cons hbefore]
    exact List.mem_append.1 h
  · rw [behindBrace_append hbrace] at h
    exact .inr (mem_of_mem_behindBrace h)

/-- What follows `pub struct ` on its line opens a block: behind a name, there is an opening brace,
or no semicolon at the end. -/
def OpensBlock (afterKeyword : List Char) : Prop :=
  structName afterKeyword ≠ [] ∧ ('\x7b' ∈ afterKeyword ∨ afterKeyword.getLast? ≠ some ';')

instance (afterKeyword : List Char) : Decidable (OpensBlock afterKeyword) :=
  inferInstanceAs (Decidable (_ ∧ _))

theorem readHead_of_not_opensBlock {afterKeyword : List Char} (h : ¬OpensBlock afterKeyword) :
    readHead afterKeyword = (none, none) := by
  by_cases hname : structName afterKeyword = []
  · rw [readHead]
    cases cutFirst? '\x7b' afterKeyword <;> simp [hname]
  · have hbrace : '\x7b' ∉ afterKeyword := fun hmem => h ⟨hname, .inl hmem⟩
    have hend : afterKeyword.getLast? = some ';' :=
      Decidable.byContradiction fun hne => h ⟨hname, .inr hne⟩
    rw [readHead, cutFirst?_eq_none_iff.2 hbrace]
    simp [hend]

theorem readHead_of_opensBlock {afterKeyword : List Char} (h : OpensBlock afterKeyword) :
    readHead afterKeyword =
      readBody { name := String.ofList (structName afterKeyword), fields := .empty }
        (behindBrace afterKeyword) := by
  obtain ⟨hname, hbody⟩ := h
  have hempty : (structName afterKeyword).isEmpty = false := by simpa using hname
  by_cases hbrace : '\x7b' ∈ afterKeyword
  · obtain ⟨before, behind, heq, hbefore⟩ := List.eq_append_cons_of_mem hbrace
    have hcut : cutFirst? '\x7b' afterKeyword = some (before, behind) := by
      rw [heq, cutFirst?_append hbefore]
    simp [readHead, behindBrace, hcut, hempty]
  · have hend := hbody.resolve_left hbrace
    rw [behindBrace_of_not_mem hbrace, readHead, cutFirst?_eq_none_iff.2 hbrace]
    simp only [hempty, hend]
    rfl

/-- The first of the lines starts a struct that becomes a block: it opens a block, and a closing
brace comes behind that before the next struct. -/
def TakesPart : List (List Char) → Prop
  | [] => False
  | line :: follow => ∃ afterKeyword ∈ afterPrefix? structKeyword (codeOf line),
      OpensBlock afterKeyword ∧ ('\x7d' ∈ behindBrace afterKeyword ∨ Closes follow)

instance : (ls : List (List Char)) → Decidable (TakesPart ls)
  | [] => inferInstanceAs (Decidable False)
  | line :: _ => inferInstanceAs
      (Decidable (∃ afterKeyword ∈ afterPrefix? structKeyword (codeOf line), _ ∧ _))

/-- The blocks are the other ones, and one more in front of them. -/
def AddsBlock (more others : List Block) : Prop := ∃ ended, more = ended :: others

/-- A line adds a block if it starts a struct that takes part, and nothing otherwise. -/
theorem blocksFrom_line (line : List Char) (follow : List (List Char)) :
    (TakesPart (line :: follow) →
        AddsBlock (blocksFrom none (line :: follow)) (blocksFrom none follow)) ∧
      (¬TakesPart (line :: follow) →
        blocksFrom none (line :: follow) = blocksFrom none follow) := by
  by_cases hstart : StartsStruct line
  · obtain ⟨afterKeyword, hcode⟩ := hstart
    have hpart : TakesPart (line :: follow) ↔ OpensBlock afterKeyword ∧
        ('\x7d' ∈ behindBrace afterKeyword ∨ Closes follow) := by
      simp [TakesPart, ← hcode, afterPrefix?_append]
    rw [hpart, blocksFrom, readLine_startsStruct hcode.symm]
    by_cases hopens : OpensBlock afterKeyword
    · rw [and_iff_right hopens, readHead_of_opensBlock hopens]
      by_cases hclose : '\x7d' ∈ behindBrace afterKeyword
      · obtain ⟨ended, hended⟩ := exists_readBody_of_mem hclose
          { name := String.ofList (structName afterKeyword), fields := .empty }
        rw [hended]
        exact ⟨fun _ => ⟨ended, rfl⟩, fun hnot => absurd (.inl hclose) hnot⟩
      · rw [or_iff_right hclose, readBody_of_not_mem hclose]
        exact ⟨fun hcloses => hcloses.exists_block _,
          fun hcloses => blocksFrom_of_not_closes hcloses _⟩
    · rw [readHead_of_not_opensBlock hopens]
      exact ⟨fun hpart => absurd hpart.1 hopens, fun _ => rfl⟩
  · rw [blocksFrom, readLine_none hstart]
    refine ⟨fun hpart => ?_, fun _ => rfl⟩
    obtain ⟨afterKeyword, hcode, -⟩ := hpart
    rw [afterPrefix?_eq_none hstart] at hcode
    cases hcode

/-! ### Items of a script -/

/-- The lines of a text that a line break ends. -/
def rows (text : List Char) : List (List Char) := lines (text ++ ['\n'])

def publicStruct : List Char := "pub struct".toList

/-- A text that starts no struct. -/
structure OtherItem where
  text : List Char
  plain : ∀ line ∈ rows text, ¬StartsStruct line

/-- A struct with named fields, from its line to the next item. -/
structure NamedStruct where
  indent : List Char
  /-- the name, the fields and what follows them -/
  rest : List Char
  indent_blank : IsSpacing indent
  /-- no line but the first starts a struct -/
  alone : ∀ line ∈ (rows (indent ++ (publicStruct ++ rest))).tail, ¬StartsStruct line
  /-- its code opens a brace, and closes one behind it -/
  braced : '\x7d' ∈ behindBrace ((rows (indent ++ (publicStruct ++ rest))).flatMap codeOf)

/-- A tuple or unit struct `pub struct name ..;`, from its line to the next item. -/
structure BareStruct where
  indent : List Char
  /-- what stands between `pub struct` and the semicolon -/
  declarator : List Char
  /-- what follows the semicolon -/
  trail : List Char
  indent_blank : IsSpacing indent
  /-- no line but the first starts a struct -/
  alone : ∀ line ∈ (rows (indent ++ (publicStruct ++ (declarator ++ ';' :: trail)))).tail,
    ¬StartsStruct line
  trail_plain : ∀ line ∈ rows trail, ¬StartsStruct line

inductive Item
  | other (item : OtherItem)
  | named (item : NamedStruct)
  | bare (item : BareStruct)

def NamedStruct.text (s : NamedStruct) : List Char := s.indent ++ (publicStruct ++ s.rest)

def BareStruct.text (s : BareStruct) : List Char :=
  s.indent ++ (publicStruct ++ (s.declarator ++ ';' :: s.trail))

namespace Item

def text : Item → List Char
  | .other item => item.text
  | .named item => item.text
  | .bare item => item.text

/-- What is left when tuple and unit structs are removed. -/
def kept : Item → List Char
  | .other item => item.text
  | .named item => item.text
  | .bare item => item.trail

end Item

/-- A script of these texts, each on lines of its own. -/
def scriptOf (texts : List (List Char)) : String := String.ofList (['\n'].intercalate texts)

/-- The lines of texts that stand on lines of their own. -/
def rowsOf (texts : List (List Char)) : List (List Char) := texts.flatMap rows

/-- No tuple or unit struct becomes a block. -/
def NoneTakesPart (items : List Item) : Prop :=
  ∀ before s after, items = before ++ .bare s :: after →
    ¬TakesPart (rows s.text ++ rowsOf (after.map Item.text))

theorem noneTakesPart_cons {item : Item} {items : List Item} :
    NoneTakesPart (item :: items) ↔
      (∀ s, item = .bare s → ¬TakesPart (rows s.text ++ rowsOf (items.map Item.text))) ∧
        NoneTakesPart items := by
  constructor
  · intro h
    refine ⟨fun s heq => h [] s items (by rw [heq]; rfl), fun before s after heq => ?_⟩
    exact h (item :: before) s after (by rw [heq]; rfl)
  · rintro ⟨hitem, hitems⟩ before s after heq
    cases before with
    | nil =>
        obtain ⟨rfl, rfl⟩ := List.cons.inj heq
        exact hitem s rfl
    | cons first before => exact hitems before s after (List.cons.inj heq).2

/-! ### Reading the items -/

theorem blocksFrom_append_congr {ls ms : List (List Char)}
    (h : ∀ open?, blocksFrom open? ls = blocksFrom open? ms) (init : List (List Char))
    (open? : Option Block) : blocksFrom open? (init ++ ls) = blocksFrom open? (init ++ ms) := by
  induction init generalizing open? with
  | nil => exact h open?
  | cons l init ih =>
      rw [List.cons_append, blocksFrom, List.cons_append, blocksFrom]
      exact congrArg _ (ih _)

/-- The end of a text may be a line break or not. -/
theorem blocksFrom_lines (open? : Option Block) (text : List Char) :
    blocksFrom open? (lines text) = blocksFrom open? (rows text) := by
  rw [rows]
  rcases lines_concat_newline text with hempty | ⟨init, last, hlines, hended⟩
  · have hnil (open? : Option Block) : blocksFrom open? [] = blocksFrom open? [[]] := by
      cases open? <;> rfl
    rw [hempty, ← blocksFrom_append_congr hnil, List.append_nil]
  · have hlast (open? : Option Block) :
        blocksFrom open? [last] = blocksFrom open? [withoutReturn last] := by
      rw [blocksFrom, blocksFrom, codeOf_withoutReturn]
    rw [hlines, hended, blocksFrom_append_congr hlast]

theorem blocks_scriptOf (texts : List (List Char)) :
    blocks (scriptOf texts) = blocksFrom none (rowsOf texts) := by
  have hread (open? : Option Block) :
      blocksFrom open? (lines (['\n'].intercalate texts)) = blocksFrom open? (rowsOf texts) := by
    induction texts generalizing open? with
    | nil => rfl
    | cons text texts ih =>
        cases texts with
        | nil => simpa [rowsOf] using blocksFrom_lines open? text
        | cons next texts =>
            have hjoin : ['\n'].intercalate (text :: next :: texts) =
                text ++ '\n' :: ['\n'].intercalate (next :: texts) := by simp
            rw [hjoin, lines_append_newline]
            exact blocksFrom_append_congr ih (rows text) open?
  rw [blocks, scriptOf, String.toList_ofList, hread]

theorem exists_rows (text : List Char) : ∃ line follow, rows text = line :: follow := by
  refine List.exists_cons_of_ne_nil fun hnil => ?_
  rcases lines_concat_newline text with hempty | ⟨init, last, -, hended⟩
  · simp [rows, hempty] at hnil
  · simp [rows, hended] at hnil

/-- A struct with named fields is closed when the next item begins. -/
theorem NamedStruct.exists_blocks (s : NamedStruct) :
    ∃ ended, ∀ rest, blocksFrom none (rows s.text ++ rest) = ended ++ blocksFrom none rest := by
  obtain ⟨line, follow, hrows⟩ := exists_rows s.text
  have halone : ∀ l ∈ follow, ¬StartsStruct l := fun l hl =>
    s.alone l (by rw [← text, hrows]; exact hl)
  have hbraced := s.braced
  rw [← text, hrows, List.flatMap_cons] at hbraced
  rw [hrows]
  have hnone (rest : List (List Char)) := blocksFrom_none_append halone rest
  by_cases hstart : StartsStruct line
  · obtain ⟨afterKeyword, hcode⟩ := hstart
    have hread (rest : List (List Char)) : blocksFrom none (line :: follow ++ rest) =
        (readHead afterKeyword).1.toList ++
          blocksFrom (readHead afterKeyword).2 (follow ++ rest) := by
      rw [List.cons_append, blocksFrom, readLine_startsStruct hcode.symm]
    by_cases hopens : OpensBlock afterKeyword
    · rw [readHead_of_opensBlock hopens] at hread
      by_cases hclose : '\x7d' ∈ behindBrace afterKeyword
      · obtain ⟨ended, hended⟩ := exists_readBody_of_mem hclose
          { name := String.ofList (structName afterKeyword), fields := .empty }
        refine ⟨[ended], fun rest => ?_⟩
        rw [hread, hended, hnone]
        rfl
      · have hlater : '\x7d' ∈ follow.flatMap codeOf := by
          rw [← hcode, List.append_assoc, behindBrace_append (by decide)] at hbraced
          exact (mem_behindBrace_append hbraced).resolve_left hclose
        rw [readBody_of_not_mem hclose] at hread
        obtain ⟨ended, hended⟩ :=
          exists_blocksFrom_some halone (List.mem_flatMap.1 hlater) (Block.addFields _ _)
        refine ⟨[ended], fun rest => ?_⟩
        rw [hread, hended]
        rfl
    · refine ⟨[], fun rest => ?_⟩
      rw [hread, readHead_of_not_opensBlock hopens, hnone]
      rfl
  · exact ⟨[], fun rest => blocksFrom_none_append (List.forall_mem_cons.2 ⟨hstart, halone⟩) rest⟩

theorem BareStruct.blocksFrom_rows (s : BareStruct) (rest : List (List Char)) :
    (TakesPart (rows s.text ++ rest) →
        AddsBlock (blocksFrom none (rows s.text ++ rest)) (blocksFrom none rest)) ∧
      (¬TakesPart (rows s.text ++ rest) →
        blocksFrom none (rows s.text ++ rest) = blocksFrom none rest) := by
  obtain ⟨line, follow, hrows⟩ := exists_rows s.text
  have halone : ∀ l ∈ follow, ¬StartsStruct l := fun l hl => s.alone l (by
    rw [← BareStruct.text, hrows]; exact hl)
  rw [hrows, List.cons_append, ← blocksFrom_none_append halone rest]
  exact blocksFrom_line line (follow ++ rest)

/-- A line of code, which may end in a comment, is the first row of its text. -/
theorem exists_rows_line {code : List Char} {note : Option Note}
    (huncommented : Uncommented code note) (hline : '\n' ∉ code) (more : Option (List Char)) :
    ∃ line follow, rows (code ++ (noteText note ++ ended more)) = line :: follow ∧
      codeOf line = trim code := by
  have hbreak : '\n' ∉ code ++ noteText note := by
    simp [hline, newline_not_mem_noteText]
  obtain ⟨rest, hrest⟩ : ∃ rest, code ++ (noteText note ++ ended more) ++ ['\n'] =
      (code ++ noteText note) ++ '\n' :: rest := by
    cases more with
    | none => exact ⟨[], by simp [ended]⟩
    | some more => exact ⟨more ++ ['\n'], by simp [ended]⟩
  obtain ⟨line, gap, heq, hgap, hlines⟩ := exists_lines_append hbreak rest
  exact ⟨line, lines rest, by rw [rows, hrest, hlines], codeOf_line huncommented heq hgap⟩

/-- A struct without braces that stands on one line, with no code behind it, takes no part. -/
theorem BareStruct.not_takesPart_of_line {s : BareStruct}
    (hplain : '\n' ∉ s.declarator ∧ '\x7b' ∉ s.declarator ∧ ¬['/', '/'] <:+: s.declarator)
    {behind : BlankLine} {more : Option (List Char)} (htrail : s.trail = behind.text ++ ended more)
    (rest : List (List Char)) : ¬TakesPart (rows s.text ++ rest) := by
  obtain ⟨hfeed, hbrace, hslashes⟩ := hplain
  obtain ⟨hindent, hindentFeed⟩ := s.indent_blank
  obtain ⟨hblanks, hblanksFeed⟩ := behind.blanks_blank
  have hstruct : '\n' ∉ publicStruct ∧ '\x7b' ∉ publicStruct ∧ '/' ∉ publicStruct := by decide
  obtain ⟨front, hfront⟩ : ∃ front, front = s.indent ++ (publicStruct ++ s.declarator) := ⟨_, rfl⟩
  have hindentPlain : '\x7b' ∉ s.indent ∧ '/' ∉ s.indent :=
    ⟨not_mem_of_allBlank hindent (by decide), not_mem_of_allBlank hindent (by decide)⟩
  have hfrontBrace : '\x7b' ∉ front := by simp [hfront, hbrace, hstruct, hindentPlain]
  have huncommented : Uncommented (front ++ ';' :: behind.blanks) behind.note := by
    have hbehind : Uncommented (s.declarator ++ ';' :: behind.blanks) behind.note := by
      rw [Uncommented, List.append_assoc]
      exact not_slashes_append_cons (by decide) hslashes behind.uncommented
    have hslash : '/' ∉ s.indent ++ publicStruct := by simp [hstruct, hindentPlain]
    simpa [hfront] using hbehind.prepend hslash
  have hline : '\n' ∉ front ++ ';' :: behind.blanks := by
    simp [hfront, hfeed, hindentFeed, hblanksFeed, hstruct]
  have htext : s.text =
      (front ++ ';' :: behind.blanks) ++ (noteText behind.note ++ ended more) := by
    simp [BareStruct.text, htrail, hfront, BlankLine.text]
  obtain ⟨line, follow, hrows, hcode⟩ := exists_rows_line huncommented hline more
  have hsemicolon : isBlank ';' = false := by decide
  rw [trim_append_of_not_blank hsemicolon, trimEnd_of_allBlank hblanks] at hcode
  rw [htext, hrows, List.cons_append]
  rintro ⟨afterKeyword, hkeyword, ⟨hname, hopens⟩, -⟩
  have hkept := hcode.symm.trans (eq_append_of_afterPrefix? hkeyword)
  rcases hopens with hopens | hopens
  · have hmem : '\x7b' ∈ trimStart front ++ [';'] := by simp [hkept, hopens]
    rcases List.mem_append.1 hmem with hmem | hmem
    · exact hfrontBrace (mem_of_mem_trimStart hmem)
    · simp at hmem
  · have hlast := congrArg List.getLast? hkept
    rw [List.getLast?_concat, List.getLast?_append] at hlast
    cases hend : afterKeyword.getLast? with
    | none =>
        rw [List.getLast?_eq_none_iff.1 hend] at hname
        exact hname rfl
    | some c =>
        rw [hend, Option.some_or] at hlast
        exact hopens (hend.trans hlast.symm)

theorem blocksFrom_kept (items : List Item) :
    (blocksFrom none (rowsOf (items.map Item.kept))).Sublist
        (blocksFrom none (rowsOf (items.map Item.text))) ∧
      (blocksFrom none (rowsOf (items.map Item.text)) =
        blocksFrom none (rowsOf (items.map Item.kept)) ↔ NoneTakesPart items) := by
  induction items with
  | nil => exact ⟨.slnil, fun _ before s after heq => by simp at heq, fun _ => rfl⟩
  | cons item items ih =>
      obtain ⟨hsublist, hsame⟩ := ih
      have hrows (texts : Item → List Char) : rowsOf ((item :: items).map texts) =
          rows (texts item) ++ rowsOf (items.map texts) := rfl
      rw [hrows, hrows, noneTakesPart_cons]
      cases item with
      | other item =>
          rw [Item.kept, Item.text, blocksFrom_none_append item.plain,
            blocksFrom_none_append item.plain, hsame]
          exact ⟨hsublist, (and_iff_right nofun).symm⟩
      | named item =>
          obtain ⟨ended, hended⟩ := item.exists_blocks
          rw [Item.kept, Item.text, hended, hended, List.append_cancel_left_eq, hsame]
          exact ⟨hsublist.append_left ended, (and_iff_right nofun).symm⟩
      | bare item =>
          obtain ⟨hpart, hpassed⟩ := item.blocksFrom_rows (rowsOf (items.map Item.text))
          rw [Item.kept, Item.text, blocksFrom_none_append item.trail_plain]
          by_cases h : TakesPart (rows item.text ++ rowsOf (items.map Item.text))
          · obtain ⟨ended, hended⟩ := hpart h
            rw [hended]
            refine ⟨hsublist.cons ended, fun heq => ?_, fun hnone => absurd h (hnone.1 item rfl)⟩
            -- the other script has no more blocks
            have hlength := hsublist.length_le
            rw [← heq, List.length_cons] at hlength
            omega
          · rw [hpassed h, hsame]
            refine ⟨hsublist, (and_iff_right fun s hs => ?_).symm⟩
            cases hs
            exact h

/-- A script has the blocks that it has without its tuple and unit structs, and others only if one of
those takes part; if none does, the check finds the same failures. -/
theorem blocks_withoutBare (items : List Item) :
    (blocks (scriptOf (items.map Item.kept))).Sublist (blocks (scriptOf (items.map Item.text))) ∧
      (blocks (scriptOf (items.map Item.text)) = blocks (scriptOf (items.map Item.kept)) ↔
        NoneTakesPart items) ∧
      (NoneTakesPart items → ∀ {m : Type → Type} [Monad m] (notify : Event → m Unit)
        (index : HeaderIndex) (label : String),
          checkScript notify index (scriptOf (items.map Item.text)) label =
            checkScript notify index (scriptOf (items.map Item.kept)) label) := by
  obtain ⟨hsublist, hsame⟩ := blocksFrom_kept items
  rw [← blocks_scriptOf, ← blocks_scriptOf] at hsublist hsame
  refine ⟨hsublist, hsame, fun hnone m _ notify index label => ?_⟩
  rw [checkScript, checkScript, hsame.2 hnone]

/-- A tuple struct that is broken over lines is read up to the next closing brace. -/
theorem blocks_brokenTuple :
    blocks "pub struct T(\n    pub u32,\n);\nfn main() \x7b\n\x7d\n" =
        [{ name := "T", fields := NameMap.ofList [("u32", "u32")] }] ∧
      blocks "\nfn main() \x7b\n\x7d\n" = [] := by
  decide +kernel

/-! A tuple struct with a comment behind it, between a struct with named fields and a function. -/

def extentStruct : NamedStruct where
  indent := []
  rest := " Extent\n\x7b\n    pub width: u32,\n\x7d".toList
  indent_blank := isSpacing_nil
  alone := by decide +kernel
  braced := by decide +kernel

def boundsNote : BlankLine where
  blanks := [' ']
  note := some { body := " bounds".toList, unbroken := by decide }
  blanks_blank := by decide

def limitsStruct : BareStruct where
  indent := []
  declarator := " Limits(pub u32, pub u32)".toList
  trail := " // bounds".toList
  indent_blank := isSpacing_nil
  alone := by decide +kernel
  trail_plain := by decide +kernel

def mainItem : OtherItem where
  text := "fn main() \x7b\n    pub build();\n\x7d\n".toList
  plain := by decide +kernel

def limitsItems : List Item := [.named extentStruct, .bare limitsStruct, .other mainItem]

theorem blocks_withoutBare_limits :
    NoneTakesPart limitsItems ∧
      blocks ("pub struct Extent\n\x7b\n    pub width: u32,\n\x7d\n" ++
          "pub struct Limits(pub u32, pub u32); // bounds\n" ++
          "fn main() \x7b\n    pub build();\n\x7d\n") =
        blocks ("pub struct Extent\n\x7b\n    pub width: u32,\n\x7d\n // bounds\n" ++
          "fn main() \x7b\n    pub build();\n\x7d\n") := by
  have hscript : scriptOf (limitsItems.map Item.text) =
      "pub struct Extent\n\x7b\n    pub width: u32,\n\x7d\n" ++
        "pub struct Limits(pub u32, pub u32); // bounds\n" ++
        "fn main() \x7b\n    pub build();\n\x7d\n" := by decide +kernel
  have hkept : scriptOf (limitsItems.map Item.kept) =
      "pub struct Extent\n\x7b\n    pub width: u32,\n\x7d\n // bounds\n" ++
        "fn main() \x7b\n    pub build();\n\x7d\n" := by decide +kernel
  have hlimits : ¬TakesPart (rows limitsStruct.text ++ rowsOf [mainItem.text]) :=
    @BareStruct.not_takesPart_of_line limitsStruct
      ⟨by decide, by decide, not_slashes_of_not_mem (by decide)⟩ boundsNote none rfl _
  have hnone : NoneTakesPart limitsItems := by
    refine noneTakesPart_cons.2 ⟨nofun, noneTakesPart_cons.2 ⟨?_, noneTakesPart_cons.2 ⟨nofun, ?_⟩⟩⟩
    · rintro s ⟨⟩
      exact hlimits
    · intro before s after heq
      simp at heq
  rw [← hscript, ← hkept]
  exact ⟨hnone, (blocks_withoutBare limitsItems).2.1.2 hnone⟩

end HeaderAccord.Override
