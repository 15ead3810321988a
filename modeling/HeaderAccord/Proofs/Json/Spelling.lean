import Mathlib.Data.List.Forall2
import HeaderAccord.Json.Tree
import HeaderAccord.Proofs.Json.Numeral
import HeaderAccord.Proofs.Json.RawString

/-!
How trees are spelled. A text spells a tree if reading it, wherever a value may stand, comes to the
tree and goes on behind the text. What an array or an object is spelled by is put together from what
its items or members are spelled by, with any blanks between the tokens.
-/

namespace HeaderAccord.Json

open HeaderAccord.Json.Tree Token

/-! ### Tokens -/

/-- Characters that may stand between tokens. -/
def IsGap (cs : List Char) : Prop := ∀ c ∈ cs, isJsonBlank c = true

theorem isGap_nil : IsGap [] := nofun

theorem tokens_nil : tokens [] = [] := by rw [tokens]

theorem tokens_gap_append {gap : List Char} (h : IsGap gap) (cs : List Char) :
    tokens (gap ++ cs) = tokens cs := by
  induction gap with
  | nil => rfl
  | cons c gap ih =>
      obtain ⟨hc, hgap⟩ := List.forall_mem_cons.1 h
      rw [List.cons_append, tokens, if_pos hc, ih hgap]

theorem tokens_cons (c : Char) (token : Token) {cs rest : List Char}
    (hblank : isJsonBlank c = false) (h : startingWith c cs = (token, rest)) :
    tokens (c :: cs) = token :: tokens rest := by
  rw [tokens, if_neg (by simp [hblank]), h]

theorem tokens_string (s : String) (rest : List Char) :
    tokens (stringText s ++ rest) = .text (.ofText s) :: tokens rest := by
  have hread : startingWith '"' (s.toList.flatMap escapeChar ++ '"' :: rest) =
      (.text (.ofText s), rest) := by
    rw [startingWith, RawString.ofChars_escaped]
    rfl
  simp only [stringText, List.cons_append, List.append_assoc, List.nil_append]
  exact tokens_cons '"' _ (by decide) hread

theorem endsNumber_gap_append {gap : List Char} (h : IsGap gap) {cs : List Char}
    (hcs : EndsNumber cs) : EndsNumber (gap ++ cs) := by
  cases gap with
  | nil => exact hcs
  | cons c gap =>
      refine endsNumber_cons ?_ _
      have hc := h c (by simp)
      simp only [isJsonBlank, Bool.or_eq_true, decide_eq_true_eq] at hc
      rcases hc with ((rfl | rfl) | rfl) | rfl <;> decide

/-! ### Values -/

/-- Wherever a value may stand, reading the text comes to the tree; the text does not close a
list. -/
structure Spells (cs : List Char) (t : Tree) : Prop where
  build_eq : ∀ frames rest, EndsNumber rest →
    build .value frames (tokens (cs ++ rest)) = build (.done t) frames (tokens rest)
  opens : ∀ rest, EndsNumber rest →
    ∃ token ts, tokens (cs ++ rest) = token :: ts ∧ token ≠ .closeBracket

/-- Blanks behind a value belong to its text. -/
theorem Spells.append_gap {gap cs : List Char} {t : Tree} (hgap : IsGap gap) (h : Spells cs t) :
    Spells (cs ++ gap) t where
  build_eq frames rest hrest := by
    rw [List.append_assoc, h.build_eq frames _ (endsNumber_gap_append hgap hrest),
      tokens_gap_append hgap]
  opens rest hrest := by
    rw [List.append_assoc]
    exact h.opens _ (endsNumber_gap_append hgap hrest)

/-- A value that is one token. -/
theorem spells_token {c : Char} {cs : List Char} {token : Token} {t : Tree}
    (hblank : isJsonBlank c = false)
    (h : ∀ rest, EndsNumber rest → startingWith c (cs ++ rest) = (token, rest))
    (hopening : Phase.opening token = .done t) (hne : token ≠ .closeBracket) :
    Spells (c :: cs) t where
  build_eq frames rest hrest := by
    rw [List.cons_append, tokens_cons c token hblank (h rest hrest), build, hopening]
  opens rest hrest := ⟨token, _, tokens_cons c token hblank (h rest hrest), hne⟩

theorem spells_integer (n : Int) : Spells (toString n).toList (.number (.ofInteger n)) := by
  obtain ⟨c, cs, hcs, hblank, -⟩ := startingWith_integer n endsNumber_nil
  have hread : ∀ rest, EndsNumber rest →
      startingWith c (cs ++ rest) = (.number (.ofInteger n), rest) := by
    intro rest hrest
    obtain ⟨c', cs', hcs', -, hread⟩ := startingWith_integer n hrest
    obtain ⟨rfl, rfl⟩ := List.cons.inj (hcs.symm.trans hcs')
    exact hread
  rw [hcs]
  exact spells_token hblank hread rfl nofun

theorem spells_string (s : String) : Spells (stringText s) (.string (.ofText s)) where
  build_eq frames rest _ := by
    rw [tokens_string, build]
    rfl
  opens rest _ := ⟨_, _, tokens_string s rest, nofun⟩

/-! ### Arrays -/

section

variable {gap back : List Char} (hgap : IsGap gap) (hback : IsGap back)

include hgap hback

/-- The items of an array of which `before` have been read, up to its end. -/
theorem build_items {cs : List Char} {t : Tree} {texts : List (List Char)} {trees : List Tree}
    (h : Spells cs t) (hs : List.Forall₂ Spells texts trees) (before : List Tree)
    (frames : List Frame) (rest : List Char) :
    build (.item before) frames
        (tokens ((',' :: gap).intercalate (cs :: texts) ++ (back ++ ']' :: rest))) =
      build (.done (.array (before.reverse ++ t :: trees) none)) frames (tokens rest) := by
  -- an item is read like a value, since it does not start with the closing bracket
  have hitem {cs : List Char} {t : Tree} (h : Spells cs t) (before : List Tree)
      (rest : List Char) (hrest : EndsNumber rest) :
      build (.item before) frames (tokens (cs ++ rest)) =
        build (.done t) (.array before :: frames) (tokens rest) := by
    rw [← h.build_eq _ rest hrest]
    obtain ⟨token, ts, htokens, hne⟩ := h.opens rest hrest
    rw [htokens, build]
    cases token <;> first | rfl | exact absurd rfl hne
  induction hs generalizing cs t before with
  | nil =>
      have hend : EndsNumber (back ++ ']' :: rest) :=
        endsNumber_gap_append hback (endsNumber_cons (by decide) rest)
      rw [List.intercalate_singleton, hitem h before _ hend, tokens_gap_append hback,
        tokens_cons ']' .closeBracket (by decide) rfl, build]
      simp [Frame.fill]
  | @cons cs' t' texts trees h' _ ih =>
      have hend (more : List Char) : EndsNumber (',' :: more) := endsNumber_cons (by decide) more
      rw [List.intercalate_cons_cons, List.append_assoc, List.append_assoc, List.cons_append,
        hitem h before _ (hend _), tokens_cons ',' .comma (by decide) rfl, build,
        tokens_gap_append hgap, ih h']
      simp

theorem spells_array {front : List Char} (hfront : IsGap front) {texts : List (List Char)}
    {trees : List Tree} (hs : List.Forall₂ Spells texts trees) :
    Spells ('[' :: (front ++ ((',' :: gap).intercalate texts ++ (back ++ [']']))))
      (.array trees none) where
  build_eq frames rest _ := by
    rw [List.cons_append, tokens_cons '[' .openBracket (by decide) rfl, build, List.append_assoc,
      tokens_gap_append hfront, List.append_assoc, List.append_assoc, List.singleton_append]
    cases hs with
    | nil =>
        rw [List.intercalate_nil, List.nil_append, tokens_gap_append hback,
          tokens_cons ']' .closeBracket (by decide) rfl]
        rfl
    | cons h hs => exact build_items hgap hback h hs [] frames rest
  opens rest _ := ⟨.openBracket, _, tokens_cons '[' _ (by decide) rfl, nofun⟩

end

/-! ### Objects -/

/-- The text of a member: its name, a colon and its value. -/
structure SpellsMember (cs : List Char) (member : RawString × Tree) : Prop where
  reads : ∃ name gap value, cs = stringText name ++ ':' :: (gap ++ value) ∧
    member.1 = .ofText name ∧ IsGap gap ∧ Spells value member.2

section

variable {gap back : List Char} (hgap : IsGap gap) (hback : IsGap back)

include hgap hback

/-- The members of an object of which `before` have been read, up to its end. -/
theorem build_members {cs : List Char} {member : RawString × Tree} {texts : List (List Char)}
    {members : List (RawString × Tree)} (h : SpellsMember cs member)
    (hs : List.Forall₂ SpellsMember texts members) (before : List (RawString × Tree))
    (frames : List Frame) (rest : List Char) :
    build (.name before) frames
        (tokens ((',' :: gap).intercalate (cs :: texts) ++ (back ++ '\x7d' :: rest))) =
      build (.done (.object (before.reverse ++ member :: members) none)) frames (tokens rest) := by
  have hmember {cs : List Char} {member : RawString × Tree} (h : SpellsMember cs member)
      (before : List (RawString × Tree)) (rest : List Char) (hrest : EndsNumber rest) :
      build (.name before) frames (tokens (cs ++ rest)) =
        build (.done member.2) (.object before member.1 :: frames) (tokens rest) := by
    obtain ⟨name, gap', value, rfl, hname, hgap', hvalue⟩ := h.reads
    rw [List.append_assoc, tokens_string, build, List.cons_append,
      tokens_cons ':' .colon (by decide) rfl, List.append_assoc, tokens_gap_append hgap', hname]
    exact hvalue.build_eq _ rest hrest
  induction hs generalizing cs member before with
  | nil =>
      have hend : EndsNumber (back ++ '\x7d' :: rest) :=
        endsNumber_gap_append hback (endsNumber_cons (by decide) rest)
      rw [List.intercalate_singleton, hmember h before _ hend, tokens_gap_append hback,
        tokens_cons '\x7d' .closeBrace (by decide) rfl, build]
      simp [Frame.fill]
  | @cons cs' member' texts members h' _ ih =>
      have hend (more : List Char) : EndsNumber (',' :: more) := endsNumber_cons (by decide) more
      rw [List.intercalate_cons_cons, List.append_assoc, List.append_assoc, List.cons_append,
        hmember h before _ (hend _), tokens_cons ',' .comma (by decide) rfl, build,
        tokens_gap_append hgap, ih h']
      simp

theorem spells_object {front : List Char} (hfront : IsGap front) {texts : List (List Char)}
    {members : List (RawString × Tree)} (hs : List.Forall₂ SpellsMember texts members) :
    Spells ('\x7b' :: (front ++ ((',' :: gap).intercalate texts ++ (back ++ ['\x7d']))))
      (.object members none) where
  build_eq frames rest _ := by
    rw [List.cons_append, tokens_cons '\x7b' .openBrace (by decide) rfl, build,
      List.append_assoc, tokens_gap_append hfront, List.append_assoc, List.append_assoc,
      List.singleton_append]
    cases hs with
    | nil =>
        rw [List.intercalate_nil, List.nil_append, tokens_gap_append hback,
          tokens_cons '\x7d' .closeBrace (by decide) rfl]
        rfl
    | cons h hs => exact build_members hgap hback h hs [] frames rest
  opens rest _ := ⟨.openBrace, _, tokens_cons '\x7b' _ (by decide) rfl, nofun⟩

end

/-- A text that spells a tree is read as it from end to end. -/
theorem Spells.ofText_eq {s : String} {t : Tree} (h : Spells s.toList t) :
    Tree.ofText s = (t, false) := by
  have hbuild := h.build_eq [] [] endsNumber_nil
  rw [List.append_nil, tokens_nil] at hbuild
  rw [Tree.ofText, hbuild]
  rfl

end HeaderAccord.Json
