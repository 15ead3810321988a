import HeaderAccord.Bracket
import HeaderAccord.Proofs.Text

/-!
Brackets by counting. The depth of a text is the number of brackets that it opens less the number
that it closes; `closing?` finds the first closer at which the depth falls below zero, and
`cutAtCommas` cuts where it is zero. A text whose brackets are properly nested leaves the depth as it
was, so both pass over it as a whole.
-/

namespace HeaderAccord.Bracket

open Text

/-! ### Depth -/

/-- What a character, after the character `before`, adds to the depth. -/
def rise (opener closer before c : Char) : Int :=
  if c = opener then 1 else if closes closer before c then -1 else 0

/-- How many more brackets a text opens than it closes, after the character `before`. -/
def depthOf (opener closer : Char) : (before : Char) → List Char → Int
  | _, [] => 0
  | before, c :: cs => rise opener closer before c + depthOf opener closer c cs

/-- The last character of a text, or the one before it. -/
def lastOr (before : Char) (cs : List Char) : Char := cs.getLastD before

@[simp] theorem lastOr_nil (before : Char) : lastOr before [] = before := rfl

@[simp] theorem lastOr_cons (before c : Char) (cs : List Char) :
    lastOr before (c :: cs) = lastOr c cs := by
  cases cs <;> simp [lastOr, List.getLastD]

/-- A text that closes the brackets it opens and leaves `depth` open ones open, such that a closer
after it is no part of an arrow. -/
structure Encloses (opener closer : Char) (depth : Nat) (before : Char) (cs : List Char) : Prop where
  nonneg : ∀ p, p <+: cs → 0 ≤ depth + depthOf opener closer before p
  zero : depth + depthOf opener closer before cs = 0
  closes_last : closes closer (lastOr before cs) closer = true

theorem Encloses.cons_iff {opener closer before c : Char} {depth : Nat} {cs : List Char} :
    Encloses opener closer depth before (c :: cs) ↔
      ∃ depth' : Nat, (depth' : Int) = depth + rise opener closer before c ∧
        Encloses opener closer depth' c cs := by
  constructor
  · intro h
    have hfirst := h.nonneg [c] (by simp)
    simp only [depthOf] at hfirst
    refine ⟨(depth + rise opener closer before c).toNat, by omega, ?_, ?_, ?_⟩
    · intro p hp
      have := h.nonneg (c :: p) ((List.cons_prefix_cons).2 ⟨rfl, hp⟩)
      simp only [depthOf] at this
      omega
    · have := h.zero
      simp only [depthOf] at this
      omega
    · simpa using h.closes_last
  · rintro ⟨depth', hd, h⟩
    refine ⟨?_, ?_, by simpa using h.closes_last⟩
    · intro p hp
      cases p with
      | nil => simp [depthOf]
      | cons x p =>
          obtain ⟨rfl, htail⟩ := List.cons_prefix_cons.1 hp
          have := h.nonneg p htail
          simp only [depthOf]
          omega
    · have := h.zero
      simp only [depthOf]
      omega

theorem encloses_nil_iff {opener closer before : Char} {depth : Nat} :
    Encloses opener closer depth before [] ↔
      depth = 0 ∧ closes closer before closer = true := by
  constructor
  · intro h
    have := h.zero
    simp only [depthOf] at this
    exact ⟨by omega, by simpa using h.closes_last⟩
  · rintro ⟨rfl, hc⟩
    refine ⟨fun p hp => ?_, rfl, by simpa using hc⟩
    rw [List.prefix_nil.1 hp]
    exact Int.le_refl 0

theorem eq_closer_of_closes {closer before c : Char} (h : closes closer before c = true) :
    c = closer := by
  simp only [closes, Bool.and_eq_true, decide_eq_true_eq] at h
  exact h.1

/-- A text without brackets closes all that it opens. -/
theorem encloses_of_not_mem {opener closer : Char} (hangle : closer ≠ '>') {cs : List Char}
    (hopen : opener ∉ cs) (hclose : closer ∉ cs) (before : Char) :
    Encloses opener closer 0 before cs := by
  induction cs generalizing before with
  | nil => exact encloses_nil_iff.2 ⟨rfl, by simp [closes, hangle]⟩
  | cons c cs ih =>
      rw [List.mem_cons, not_or] at hopen hclose
      have hnone : closes closer before c = false :=
        Bool.eq_false_iff.2 fun h => hclose.1 (eq_closer_of_closes h).symm
      have hrise : rise opener closer before c = 0 := by
        rw [rise, if_neg (Ne.symm hopen.1), hnone]
        rfl
      exact Encloses.cons_iff.2 ⟨0, by omega, ih hopen.2 hclose.2 c⟩

theorem closing?_cons_eq_nil {opener closer before c : Char} (hne : opener ≠ closer) {depth : Nat}
    {cs rest : List Char} :
    closing? opener closer depth before (c :: cs) = some ([], rest) ↔
      depth = 0 ∧ closes closer before c = true ∧ cs = rest := by
  rw [closing?]
  split
  · next hc =>
    have hclose : closes closer before c = false :=
      Bool.eq_false_iff.2 fun h => hne (hc.symm.trans (eq_closer_of_closes h))
    simp [hclose]
  · split
    · next hc =>
      split
      · next hd => simp [hd, hc]
      · next hd => simp [hd]
    · next hc => simp [hc]

theorem map_cons_eq_some_iff {o : Option (List Char × List Char)} {c i : Char}
    {inside rest : List Char} :
    (o.map fun (inside, rest) => (c :: inside, rest)) = some (i :: inside, rest) ↔
      c = i ∧ o = some (inside, rest) := by
  cases o with
  | none => simp
  | some p => simp [Prod.ext_iff, and_assoc]

theorem closing?_cons_eq_cons {opener closer before c i : Char}
    {depth : Nat} {cs inside rest : List Char} :
    closing? opener closer depth before (c :: cs) = some (i :: inside, rest) ↔
      c = i ∧ ∃ depth' : Nat, (depth' : Int) = depth + rise opener closer before c ∧
        closing? opener closer depth' c cs = some (inside, rest) := by
  -- the depth after `c` is the one natural number that the rise leads to
  have hstep (d : Nat) (new : Int) (hd : (d : Int) = new) :
      (c = i ∧ closing? opener closer d c cs = some (inside, rest)) ↔
        c = i ∧ ∃ depth' : Nat, (depth' : Int) = new ∧
          closing? opener closer depth' c cs = some (inside, rest) := by
    subst hd
    simp only [Int.ofNat_inj, exists_eq_left]
  rw [closing?, rise]
  split
  · rw [map_cons_eq_some_iff]
    exact hstep (depth + 1) _ (by omega)
  · split
    · split
      · next hd =>
        subst hd
        constructor
        · intro h
          simp at h
        · rintro ⟨_, d, hd, _⟩
          omega
      · next hd =>
        rw [map_cons_eq_some_iff]
        exact hstep (depth - 1) _ (by omega)
    · rw [map_cons_eq_some_iff]
      exact hstep depth _ (by omega)

/-- `closing?` stops at the first closer that takes the depth below zero. -/
theorem closing?_eq_some_iff {opener closer : Char} (hne : opener ≠ closer) {depth : Nat}
    {before : Char} {cs inside rest : List Char} :
    closing? opener closer depth before cs = some (inside, rest) ↔
      cs = inside ++ closer :: rest ∧ Encloses opener closer depth before inside := by
  induction cs generalizing depth before inside with
  | nil => simp [closing?]
  | cons c cs ih =>
      cases inside with
      | nil =>
          rw [closing?_cons_eq_nil hne, encloses_nil_iff, List.nil_append, List.cons.injEq]
          constructor
          · rintro ⟨hd, hc, rfl⟩
            obtain rfl := eq_closer_of_closes hc
            exact ⟨⟨rfl, rfl⟩, hd, hc⟩
          · rintro ⟨⟨rfl, rfl⟩, hd, hc⟩
            exact ⟨hd, hc, rfl⟩
      | cons i inside =>
          rw [closing?_cons_eq_cons, Encloses.cons_iff, List.cons_append, List.cons.injEq]
          constructor
          · rintro ⟨rfl, d, hd, h⟩
            obtain ⟨hcs, henc⟩ := ih.1 h
            exact ⟨⟨rfl, hcs⟩, d, hd, henc⟩
          · rintro ⟨⟨rfl, hcs⟩, d, hd, henc⟩
            exact ⟨rfl, d, hd, ih.2 ⟨hcs, henc⟩⟩

/-! ### Nesting

`nestsFrom awaited` reads a text with the brackets that `awaited` closes, innermost first, open
around it. The count of one closer in that list is the depth `closing?` keeps for it, and its length
is the depth `cutAtCommas` keeps, so one reading serves both. -/

def closerOf? : Char → Option Char
  | '(' => some ')'
  | '<' => some '>'
  | '[' => some ']'
  | _ => none

def closers : List Char := [')', '>', ']']

/-- Whether a text, after the character `before`, closes every awaited bracket and every one that it
opens by its own closer, innermost first, and has no comma outside brackets. The `>` of an arrow is
no bracket. -/
def nestsFrom : (awaited : List Char) → (before : Char) → List Char → Bool
  | awaited, _, [] => awaited.isEmpty
  | awaited, before, c :: cs =>
    match closerOf? c with
    | some closer => nestsFrom (closer :: awaited) c cs
    | none =>
      if c ∈ closers && !(c = '>' && before = '-') then
        awaited.head? = some c && nestsFrom awaited.tail c cs
      else (c ≠ ',' || !awaited.isEmpty) && nestsFrom awaited c cs

/-- Properly nested, without a comma outside brackets. -/
def Nested (cs : List Char) : Prop := nestsFrom [] ' ' cs = true

instance (cs : List Char) : Decidable (Nested cs) :=
  inferInstanceAs (Decidable (nestsFrom [] ' ' cs = true))

/-- Neither a bracket nor a comma. -/
def IsPlain (c : Char) : Prop := closerOf? c = none ∧ c ∉ closers ∧ c ≠ ','

instance (c : Char) : Decidable (IsPlain c) :=
  inferInstanceAs (Decidable (closerOf? c = none ∧ c ∉ closers ∧ c ≠ ','))

theorem nestsFrom_plain {c : Char} (hc : IsPlain c) (awaited : List Char) (before : Char)
    (cs : List Char) :
    nestsFrom awaited before (c :: cs) = nestsFrom awaited c cs := by
  obtain ⟨ho, hcl, hcomma⟩ := hc
  simp [nestsFrom, ho, hcl, hcomma]

theorem closerOf?_eq_some {c closer : Char} (h : closerOf? c = some closer) :
    (c = '(' ∧ closer = ')') ∨ (c = '<' ∧ closer = '>') ∨ (c = '[' ∧ closer = ']') := by
  unfold closerOf? at h
  split at h <;> simp_all [eq_comm]

theorem closerOf?_eq_none {c : Char} (h : closerOf? c = none) : c ≠ '(' ∧ c ≠ '<' ∧ c ≠ '[' := by
  refine ⟨?_, ?_, ?_⟩ <;> (rintro rfl; simp [closerOf?] at h)

/-- One character of a nested text: it opens a bracket, closes the innermost one, or does
neither. -/
theorem nestsFrom_cons {awaited : List Char} {before c : Char} {cs : List Char}
    (h : nestsFrom awaited before (c :: cs) = true) :
    (∃ closer, closerOf? c = some closer ∧ nestsFrom (closer :: awaited) c cs = true) ∨
    (∃ outer, closerOf? c = none ∧ c ∈ closers ∧ ¬(c = '>' ∧ before = '-') ∧
      awaited = c :: outer ∧ nestsFrom outer c cs = true) ∨
    (closerOf? c = none ∧ (c ∈ closers → c = '>' ∧ before = '-') ∧
      (c = ',' → awaited ≠ []) ∧ nestsFrom awaited c cs = true) := by
  rw [nestsFrom] at h
  split at h
  · next closer ho => exact .inl ⟨closer, ho, h⟩
  · next ho =>
    split at h
    · next hc =>
      have harrow : c ∈ closers ∧ ¬(c = '>' ∧ before = '-') := by
        simpa [Decidable.imp_iff_not_or] using hc
      simp only [Bool.and_eq_true, decide_eq_true_eq] at h
      obtain ⟨outer, rfl⟩ := List.head?_eq_some_iff.1 h.1
      exact .inr (.inl ⟨outer, ho, harrow.1, harrow.2, rfl, h.2⟩)
    · next hc =>
      have harrow : c ∈ closers → c = '>' ∧ before = '-' := by simpa using hc
      have hcomma : (c = ',' → awaited ≠ []) ∧ nestsFrom awaited c cs = true := by
        simpa [Decidable.imp_iff_not_or] using h
      exact .inr (.inr ⟨ho, harrow, hcomma⟩)

theorem closing?_paren_before (depth : Nat) (before before' : Char) (cs : List Char) :
    closing? '(' ')' depth before cs = closing? '(' ')' depth before' cs := by
  cases cs with
  | nil => rfl
  | cons c cs => simp [closing?, closes]

/-- The scan for the end of a parameter list passes over a nested text. -/
theorem closing?_of_nestsFrom {awaited : List Char} {before : Char} {cs : List Char}
    (h : nestsFrom awaited before cs = true) (tail : List Char) :
    closing? '(' ')' (awaited.count ')') before (cs ++ tail) =
      (closing? '(' ')' 0 ' ' tail).map fun (inside, rest) => (cs ++ inside, rest) := by
  induction cs generalizing awaited before with
  | nil =>
      obtain rfl : awaited = [] := by simpa [nestsFrom] using h
      rw [List.nil_append, List.count_nil, closing?_paren_before _ before ' ']
      cases closing? '(' ')' 0 ' ' tail <;> rfl
  | cons c cs ih =>
      have hmap : (fun p : List Char × List Char => (c :: cs ++ p.1, p.2)) =
          (fun p => (c :: p.1, p.2)) ∘ fun p => (cs ++ p.1, p.2) := rfl
      rw [hmap, ← Option.map_map, List.cons_append, closing?]
      rcases nestsFrom_cons h with
        ⟨closer, ho, hcs⟩ | ⟨outer, ho, -, -, rfl, hcs⟩ | ⟨ho, hc, -, hcs⟩
      -- a bracket of another kind changes the awaited closers, but not how many of them are `)`
      · rw [← ih hcs]
        rcases closerOf?_eq_some ho with ⟨rfl, rfl⟩ | ⟨rfl, rfl⟩ | ⟨rfl, rfl⟩ <;> simp [closes]
      · rw [if_neg (closerOf?_eq_none ho).1, ← ih hcs]
        by_cases hparen : c = ')'
        · subst hparen
          simp [closes]
        · simp [closes, hparen]
      · have hparen : c ≠ ')' := by
          rintro rfl
          exact absurd (hc (by simp [closers])).1 (by decide)
        rw [if_neg (closerOf?_eq_none ho).1, ← ih hcs]
        simp [closes, hparen]

/-- The end of a parameter list of nested parts is the closer after them. -/
theorem closing?_intercalate {parts : List (List Char)} (h : ∀ p ∈ parts, Nested p)
    (before : Char) (tail : List Char) :
    closing? '(' ')' 0 before ([','].intercalate parts ++ ')' :: tail) =
      some ([','].intercalate parts, tail) := by
  have hend : closing? '(' ')' 0 ' ' (')' :: tail) = some ([], tail) := by
    simp [closing?, closes]
  rw [closing?_paren_before 0 before ' ']
  induction parts with
  | nil => exact hend
  | cons p parts ih =>
      have hpass (rest : List Char) := closing?_of_nestsFrom (h p (by simp)) rest
      rw [List.count_nil] at hpass
      cases parts with
      | nil =>
          rw [List.intercalate_singleton, hpass, hend]
          simp
      | cons q parts =>
          have hcomma (rest : List Char) : closing? '(' ')' 0 ' ' (',' :: rest) =
              (closing? '(' ')' 0 ' ' rest).map fun (inside, rest) => (',' :: inside, rest) := by
            rw [closing?, closing?_paren_before 0 ',' ' ']
            simp [closes]
          rw [List.intercalate_cons_cons, List.append_assoc, List.append_assoc, hpass,
            List.singleton_append, hcomma, ih fun r hr => h r (by simp [hr])]
          simp

/-- A text put in front of the first of several parts. -/
def prepend (cs : List Char) : List (List Char) → List (List Char)
  | [] => [cs]
  | p :: ps => (cs ++ p) :: ps

theorem prepend_cons (c : Char) (cs : List Char) (parts : List (List Char)) :
    prepend (c :: cs) parts = prepend [c] (prepend cs parts) := by
  cases parts <;> rfl

theorem cutAtCommas_cons {c : Char} {depth : Int} (hc : ¬(c = ',' ∧ depth = 0)) (before : Char)
    (cs : List Char) :
    cutAtCommas depth before (c :: cs) =
      prepend [c] (cutAtCommas (depth + depthChange before c) c cs) := by
  rw [cutAtCommas, if_neg (by simpa using hc)]
  cases cutAtCommas (depth + depthChange before c) c cs <;> rfl

theorem cutAtCommas_ne_nil (depth : Int) (before : Char) (cs : List Char) :
    cutAtCommas depth before cs ≠ [] := by
  cases cs with
  | nil => simp [cutAtCommas]
  | cons c cs =>
      rw [cutAtCommas]
      split
      · simp
      · split <;> simp

theorem prepend_nil {parts : List (List Char)} (h : parts ≠ []) : prepend [] parts = parts := by
  cases parts with
  | nil => exact absurd rfl h
  | cons p ps => rfl

/-- The cut at the commas passes over a nested text. -/
theorem cutAtCommas_of_nestsFrom {awaited : List Char} {before : Char} {cs : List Char}
    (h : nestsFrom awaited before cs = true) (tail : List Char) :
    cutAtCommas awaited.length before (cs ++ tail) =
      prepend cs (cutAtCommas 0 (lastOr before cs) tail) := by
  induction cs generalizing awaited before with
  | nil =>
      obtain rfl : awaited = [] := by simpa [nestsFrom] using h
      exact (prepend_nil (cutAtCommas_ne_nil _ _ _)).symm
  | cons c cs ih =>
      rw [prepend_cons, List.cons_append, lastOr_cons]
      rcases nestsFrom_cons h with
        ⟨closer, ho, hcs⟩ | ⟨outer, ho, hc, harrow, rfl, hcs⟩ | ⟨ho, hc, hcomma, hcs⟩
      -- in each case the depth changes as the number of awaited closers does
      · have hdepth : (awaited.length : Int) + depthChange before c = (closer :: awaited).length := by
          rcases closerOf?_eq_some ho with ⟨rfl, rfl⟩ | ⟨rfl, rfl⟩ | ⟨rfl, rfl⟩ <;>
            simp [depthChange]
        rw [cutAtCommas_cons (by rintro ⟨rfl, -⟩; simp [closerOf?] at ho), hdepth, ih hcs]
      · have hchange : depthChange before c = -1 := by
          obtain rfl | rfl | rfl : c = ')' ∨ c = '>' ∨ c = ']' := by simpa [closers] using hc
          · simp [depthChange]
          · have hbefore : before ≠ '-' := fun h => harrow ⟨rfl, h⟩
            simp [depthChange, hbefore]
          · simp [depthChange]
        have hdepth : ((c :: outer).length : Int) + depthChange before c = outer.length := by
          rw [hchange, List.length_cons]
          omega
        rw [cutAtCommas_cons (by rintro ⟨rfl, -⟩; simp [closers] at hc), hdepth, ih hcs]
      · have hdepth : depthChange before c = 0 := by
          obtain ⟨h1, h2, h3⟩ := closerOf?_eq_none ho
          by_cases harrow : c = '>' ∧ before = '-'
          · simp [depthChange, harrow]
          · have hc : c ∉ closers := fun h => harrow (hc h)
            simp only [closers, List.mem_cons, List.not_mem_nil, or_false, not_or] at hc
            simp [depthChange, h1, h2, h3, hc]
        have hcut : ¬(c = ',' ∧ (awaited.length : Int) = 0) := by
          rintro ⟨rfl, hlen⟩
          exact hcomma rfl (List.length_eq_zero_iff.1 (by omega))
        rw [cutAtCommas_cons hcut, hdepth, Int.add_zero, ih hcs]

/-! ### Blanks between brackets

Where a bracket closes does not depend on the blanks between it and the others: a blank is no bracket
and no part of an arrow, and one that stands between a `-` and a `>` keeps them apart however long it
is. -/

theorem isPlain_of_isBlank {c : Char} (hc : isBlank c = true) : IsPlain c ∧ c ≠ '-' := by
  apply of_isBlank _ hc
  decide

theorem closing?_before {before before' : Char} (h : before ≠ '-') (h' : before' ≠ '-')
    (opener closer : Char) (depth : Nat) (cs : List Char) :
    closing? opener closer depth before cs = closing? opener closer depth before' cs := by
  cases cs with
  | nil => rfl
  | cons c cs => simp [closing?, closes, h, h']

section

variable {opener closer : Char} (hopener : isBlank opener = false)
  (hcloser : isBlank closer = false)

include hopener hcloser

theorem closing?_cons_of_blank {c : Char} (hc : isBlank c = true) (depth : Nat) (before : Char)
    (cs : List Char) :
    closing? opener closer depth before (c :: cs) =
      (closing? opener closer depth c cs).map fun (inside, rest) => (c :: inside, rest) := by
  have hopen : c ≠ opener := by
    rintro rfl
    rw [hc] at hopener
    cases hopener
  have hclose : closes closer before c = false := by
    refine Bool.eq_false_iff.2 fun h => ?_
    rw [← eq_closer_of_closes h, hc] at hcloser
    cases hcloser
  rw [closing?, if_neg hopen, hclose]
  rfl

theorem closing?_trimStart (depth : Nat) {before : Char} (hbefore : before ≠ '-')
    (cs : List Char) :
    closing? opener closer depth before (trimStart cs) =
      (closing? opener closer depth before cs).map fun (inside, rest) =>
        (trimStart inside, rest) := by
  induction cs with
  | nil => rfl
  | cons c cs ih =>
      cases hc : isBlank c with
      | true =>
          rw [trimStart_cons_of_blank hc, ih, closing?_cons_of_blank hopener hcloser hc,
            closing?_before (isPlain_of_isBlank hc).2 hbefore, Option.map_map]
          exact Option.map_congr fun p _ => by simp [trimStart_cons_of_blank hc]
      | false =>
          rw [trimStart_cons_of_not_blank hc]
          cases h : closing? opener closer depth before (c :: cs) with
          | none => rfl
          | some p =>
              obtain ⟨inside, rest⟩ := p
              have hinside : trimStart inside = inside := by
                cases inside with
                | nil => rfl
                | cons d inside =>
                    obtain ⟨rfl, -⟩ := List.cons.inj (closing?_eq_some h)
                    exact trimStart_cons_of_not_blank hc
              simp [hinside]

theorem closing?_squeeze (depth : Nat) (before : Char) (cs : List Char) :
    closing? opener closer depth before (squeeze cs) =
      (closing? opener closer depth before cs).map fun (inside, rest) =>
        (squeeze inside, squeeze rest) := by
  induction cs generalizing depth before with
  | nil => rfl
  | cons c cs ih =>
      cases hc : isBlank c with
      | true =>
          have hspace : (' ' : Char) ≠ '-' := by decide
          rw [squeeze_cons_of_blank hc, closing?_cons_of_blank hopener hcloser isBlank_space,
            closing?_trimStart hopener hcloser depth hspace,
            closing?_before hspace (isPlain_of_isBlank hc).2, ih,
            closing?_cons_of_blank hopener hcloser hc, Option.map_map, Option.map_map,
            Option.map_map]
          exact Option.map_congr fun p _ => by simp [squeeze_cons_of_blank hc]
      | false =>
          -- the character stays in front of what is enclosed
          have hkept (depth' : Nat) :
              (closing? opener closer depth' c (squeeze cs)).map
                  (fun (inside, rest) => (c :: inside, rest)) =
                ((closing? opener closer depth' c cs).map
                  fun (inside, rest) => (c :: inside, rest)).map
                  fun (inside, rest) => (squeeze inside, squeeze rest) := by
            rw [ih, Option.map_map, Option.map_map]
            exact Option.map_congr fun p _ => by simp [squeeze_cons_of_not_blank hc]
          rw [squeeze_cons_of_not_blank hc, closing?, closing?, hkept, hkept, hkept]
          split
          · rfl
          · split
            · split <;> rfl
            · rfl

theorem enclosed?_squeeze (cs : List Char) :
    enclosed? opener closer (squeeze cs) = (enclosed? opener closer cs).map fun (inside, rest) =>
      (squeeze inside, squeeze rest) :=
  closing?_squeeze hopener hcloser 0 opener cs

end

/-! ### Lists between commas

Only a `-` before a text matters to its brackets, so a part can be read as if it stood alone, and
the blanks around the whole list are blanks around its parts. -/

theorem nestsFrom_before {before before' : Char} (h : before ≠ '-') (h' : before' ≠ '-')
    (awaited : List Char) (cs : List Char) :
    nestsFrom awaited before cs = nestsFrom awaited before' cs := by
  cases cs with
  | nil => rfl
  | cons c cs => simp [nestsFrom, h, h']

theorem cutAtCommas_before {before before' : Char} (h : before ≠ '-') (h' : before' ≠ '-')
    (depth : Int) (cs : List Char) :
    cutAtCommas depth before cs = cutAtCommas depth before' cs := by
  cases cs with
  | nil => rfl
  | cons c cs => simp [cutAtCommas, depthChange, h, h']

/-- A front without brackets and commas does not matter to the brackets behind it. -/
theorem nested_append_cons_iff {front rest : List Char} {c : Char}
    (hfront : ∀ d ∈ front, IsPlain d) (hc : IsPlain c ∧ c ≠ '-') :
    Nested (front ++ c :: rest) ↔ Nested rest := by
  have hpass (before : Char) : nestsFrom [] before (front ++ c :: rest) = nestsFrom [] c rest := by
    induction front generalizing before with
    | nil => exact nestsFrom_plain hc.1 _ _ _
    | cons d front ih =>
        rw [List.cons_append, nestsFrom_plain (hfront d (by simp)),
          ih fun e he => hfront e (by simp [he])]
  rw [Nested, hpass, nestsFrom_before hc.2 (show ' ' ≠ '-' by decide), Nested]

/-- Nested parts with commas between them are cut into the parts. -/
theorem cutAtCommas_intercalate {before : Char} {parts : List (List Char)} (hne : parts ≠ [])
    (hbefore : before ≠ '-') (h : ∀ p ∈ parts, Nested p) :
    cutAtCommas 0 before ([','].intercalate parts) = parts := by
  induction parts generalizing before with
  | nil => exact absurd rfl hne
  | cons p parts ih =>
      have hp : nestsFrom [] before p = true := by
        rw [nestsFrom_before hbefore (show ' ' ≠ '-' by decide)]
        exact h p (by simp)
      have hpass (tail : List Char) :
          cutAtCommas 0 before (p ++ tail) = prepend p (cutAtCommas 0 (lastOr before p) tail) :=
        cutAtCommas_of_nestsFrom hp tail
      cases parts with
      | nil => simpa [cutAtCommas, prepend] using hpass []
      | cons q parts =>
          have hrest := @ih ',' (by simp) (by decide) fun r hr => h r (by simp [hr])
          rw [List.intercalate_cons_cons, List.append_assoc, hpass, List.singleton_append,
            cutAtCommas, if_pos (by simp), hrest]
          simp [prepend]

theorem depthChange_of_isPlain {c : Char} (hc : IsPlain c) (before : Char) :
    depthChange before c = 0 := by
  obtain ⟨ho, hcl, -⟩ := hc
  obtain ⟨h1, h2, h3⟩ := closerOf?_eq_none ho
  simp only [closers, List.mem_cons, List.not_mem_nil, or_false, not_or] at hcl
  simp [depthChange, h1, h2, h3, hcl]

theorem cutAtCommas_cons_of_blank {c : Char} (hc : isBlank c = true) (depth : Int)
    {before : Char} (hbefore : before ≠ '-') (cs : List Char) :
    cutAtCommas depth before (c :: cs) = prepend [c] (cutAtCommas depth before cs) := by
  obtain ⟨hplain, hdash⟩ := isPlain_of_isBlank hc
  rw [cutAtCommas_cons (fun h => hplain.2.2 h.1), depthChange_of_isPlain hplain, Int.add_zero,
    cutAtCommas_before hdash hbefore]

theorem map_trim_prepend_of_blank {c : Char} (hc : isBlank c = true) {parts : List (List Char)}
    (hne : parts ≠ []) : (prepend [c] parts).map trim = parts.map trim := by
  obtain ⟨p, ps, rfl⟩ := List.exists_cons_of_ne_nil hne
  simp [prepend, trim_cons_of_blank hc]

theorem map_trim_cutAtCommas_trimStart {before : Char} (hbefore : before ≠ '-') (depth : Int)
    (cs : List Char) :
    (cutAtCommas depth before (trimStart cs)).map trim =
      (cutAtCommas depth before cs).map trim := by
  induction cs with
  | nil => rfl
  | cons c cs ih =>
      cases hc : isBlank c with
      | false => rw [trimStart_cons_of_not_blank hc]
      | true =>
          rw [trimStart_cons_of_blank hc, ih, cutAtCommas_cons_of_blank hc depth hbefore,
            map_trim_prepend_of_blank hc (cutAtCommas_ne_nil _ _ _)]

/-- The end of the text is the end of the last part, whatever stands before it. -/
theorem map_trimEnd_cutAtCommas_trimEnd (depth : Int) (before : Char) (cs : List Char) :
    (cutAtCommas depth before (trimEnd cs)).map trimEnd =
      (cutAtCommas depth before cs).map trimEnd := by
  induction cs generalizing depth before with
  | nil => rfl
  | cons c cs ih =>
      -- trimming the end of the first part sees only what is left of the part after `c`
      have hprepend (X Y : List (List Char)) (hXY : X.map trimEnd = Y.map trimEnd) :
          (prepend [c] X).map trimEnd = (prepend [c] Y).map trimEnd := by
        cases X <;> cases Y <;> simp_all [prepend, trimEnd]
      have hkept : (cutAtCommas depth before (c :: trimEnd cs)).map trimEnd =
          (cutAtCommas depth before (c :: cs)).map trimEnd := by
        by_cases hcomma : c = ',' ∧ depth = 0
        · rw [cutAtCommas, cutAtCommas, if_pos (by simpa using hcomma),
            if_pos (by simpa using hcomma), List.map_cons, List.map_cons, ih]
        · rw [cutAtCommas_cons hcomma, cutAtCommas_cons hcomma]
          exact hprepend _ _ (ih _ _)
      rw [← hkept, trimEnd]
      cases h : trimEnd cs with
      | cons d ds => rfl
      | nil =>
          cases hc : isBlank c with
          | false => rfl
          | true =>
              have hplain := (isPlain_of_isBlank hc).1
              simp [cutAtCommas, trimEnd, hc, hplain.2.2]

/-- Blanks around a list do not matter to it. -/
theorem splitTopLevel_trim (cs : List Char) : splitTopLevel (trim cs) = splitTopLevel cs := by
  have htrim (X : List (List Char)) : X.map trim = (X.map trimEnd).map trimStart := by
    simp [List.map_map, Function.comp_def, trim, trimStart_trimEnd]
  have hmap : (cutAtCommas 0 '\x00' (trim cs)).map trim = (cutAtCommas 0 '\x00' cs).map trim := by
    rw [trim, htrim, map_trimEnd_cutAtCommas_trimEnd, ← htrim,
      map_trim_cutAtCommas_trimStart (by decide)]
  rw [splitTopLevel, splitTopLevel, hmap]

theorem nestsFrom_trimStart {before : Char} (hbefore : before ≠ '-') (awaited : List Char)
    (cs : List Char) : nestsFrom awaited before (trimStart cs) = nestsFrom awaited before cs := by
  induction cs with
  | nil => rfl
  | cons c cs ih =>
      cases hc : isBlank c with
      | false => rw [trimStart_cons_of_not_blank hc]
      | true =>
          obtain ⟨hplain, hdash⟩ := isPlain_of_isBlank hc
          rw [trimStart_cons_of_blank hc, ih, nestsFrom_plain hplain,
            nestsFrom_before hdash hbefore]

theorem nested_of_allBlank {cs : List Char} (h : AllBlank cs) : Nested cs := by
  rw [Nested, ← nestsFrom_trimStart (by decide), trimStart_of_allBlank h]
  rfl

/-- Squeezing the blanks of a text keeps its brackets: no `-` comes to stand before a `>`. -/
theorem nestsFrom_squeeze (awaited : List Char) (before : Char) (cs : List Char) :
    nestsFrom awaited before (squeeze cs) = nestsFrom awaited before cs := by
  induction cs generalizing awaited before with
  | nil => rfl
  | cons c cs ih =>
      cases hc : isBlank c with
      | false =>
          rw [squeeze_cons_of_not_blank hc]
          simp [nestsFrom, ih]
      | true =>
          obtain ⟨hplain, hdash⟩ := isPlain_of_isBlank hc
          have hspace : (' ' : Char) ≠ '-' := by decide
          rw [squeeze_cons_of_blank hc, nestsFrom_plain (isPlain_of_isBlank isBlank_space).1,
            nestsFrom_trimStart hspace, ih, nestsFrom_plain hplain,
            nestsFrom_before hspace hdash]

/-- A list of nested parts, whatever its blanks, splits into the parts without their blanks. -/
theorem splitTopLevel_collapse_intercalate {parts : List (List Char)} (hne : parts ≠ [])
    (h : ∀ p ∈ parts, Nested p) :
    splitTopLevel (collapse ([','].intercalate parts)) =
      if parts.map collapse = [[]] then [] else parts.map collapse := by
  have hparts : (cutAtCommas 0 '\x00' ([','].intercalate (parts.map squeeze))).map trim =
      parts.map collapse := by
    rw [cutAtCommas_intercalate (by simpa using hne) (by decide), List.map_map]
    · exact List.map_congr_left fun p _ => (collapse_eq_trim_squeeze p).symm
    · intro q hq
      obtain ⟨p, hp, rfl⟩ := List.mem_map.1 hq
      rw [Nested, nestsFrom_squeeze]
      exact h p hp
  rw [collapse_eq_trim_squeeze, splitTopLevel_trim, squeeze_intercalate, splitTopLevel, hparts]

end HeaderAccord.Bracket
