import HeaderAccord.Proofs.Binding.Parameter
import HeaderAccord.Proofs.Bracket.Split
import HeaderAccord.Proofs.Offset.Slice

/-!
Brackets by offsets. The scan for the end of a bracket keeps an unsigned depth, which has no value
below zero, and answers with the first offset at which the depth is zero again. Started at an opener
the depth stays above zero until then, so the scan never fails, and it ends where `closing?` cuts.
From there on every offset that the reader of a parameter list computes is a seam of the text.
-/

namespace HeaderAccord.Offset

open String (utf8Len)
open HeaderAccord.Bracket

/-! ### The end of a bracket -/

/-- The first number with a property, or none if no number has it. -/
def IsFirst (P : Nat → Prop) : Option Nat → Prop
  | none => ∀ n, ¬P n
  | some n => P n ∧ ∀ m, P m → n ≤ m

theorem IsFirst.congr {P Q : Nat → Prop} {found : Option Nat} (h : IsFirst P found)
    (hiff : ∀ n, P n ↔ Q n) : IsFirst Q found := by
  rwa [← funext fun n => propext (hiff n)]

/-- Scans for the offset of the closer that takes the depth to zero. The depth is unsigned: where it
falls below zero, the scan fails. -/
def scan? (opener closer : Char) :
    (depth offset : Nat) → (before : Char) → List Char → Option (Option Nat)
  | _, _, _, [] => some none
  | depth, offset, before, c :: cs =>
    if c = opener then scan? opener closer (depth + 1) (offset + c.utf8Size) c cs
    else if closes closer before c then do
      let depth ← depth.ppred
      if depth = 0 then return some offset
      else scan? opener closer depth (offset + c.utf8Size) c cs
    else scan? opener closer depth (offset + c.utf8Size) c cs

/-- The offset of the bracket that closes the one at `opening`. -/
def matching? (opener closer : Char) (text : List Char) (opening : Nat) : Option (Option Nat) := do
  let rest ← sliceFrom? text opening
  scan? opener closer 0 opening '\x00' rest

variable {opener closer : Char}

/-- From one of `depth + 1` open brackets on, the scan ends where `closing?` does. -/
theorem scan?_succ (depth offset : Nat) (before : Char) (cs : List Char) :
    scan? opener closer (depth + 1) offset before cs =
      some ((closing? opener closer depth before cs).map fun (inside, _) =>
        offset + utf8Len inside) := by
  induction cs generalizing depth offset before with
  | nil => rfl
  | cons c cs ih =>
      have hstep (o : Option (List Char × List Char)) :
          (o.map fun (inside, _) => offset + c.utf8Size + utf8Len inside) =
            (o.map fun (inside, rest) => (c :: inside, rest)).map fun (inside, _) =>
              offset + utf8Len inside := by
        rw [Option.map_map]
        exact Option.map_congr fun p _ => by
          simp only [Function.comp_apply, String.utf8Len_cons]
          omega
      rw [scan?, closing?]
      split
      · rw [ih, hstep]
      · split
        · cases depth with
          | zero => simp
          | succ depth => simp [ih, hstep]
        · rw [ih, hstep]

theorem matching?_append (before rest : List Char) :
    matching? opener closer (before ++ opener :: rest) (utf8Len before) =
      some ((enclosed? opener closer rest).map fun (inside, _) =>
        utf8Len (before ++ opener :: inside)) := by
  rw [matching?, sliceFrom?_append, Option.bind_eq_bind, Option.bind_some, scan?, if_pos rfl,
    scan?_succ, enclosed?]
  congr 1
  exact Option.map_congr fun p _ => by simp; omega

/-! ### The depth -/

/-- At a position of a text that is read from `start` on, the depth, at first `depth`, is zero. -/
def ZeroFrom (opener closer : Char) (depth : Int) (before : Char) (cs : List Char)
    (start position : Nat) : Prop :=
  ∃ inside c after, cs = inside ++ c :: after ∧ start + utf8Len inside = position ∧
    depth + depthOf opener closer before (inside ++ [c]) = 0

/-- At a position behind `opening`, the depth counted from there on is zero. -/
def ZeroAt (opener closer : Char) (text : List Char) (opening position : Nat) : Prop :=
  ∃ before inside c after, text = before ++ (inside ++ c :: after) ∧ utf8Len before = opening ∧
    inside ≠ [] ∧ opening + utf8Len inside = position ∧
    depthOf opener closer '\x00' (inside ++ [c]) = 0

theorem rise_eq (hne : opener ≠ closer) (before c : Char) :
    rise opener closer before c = (if c = opener then 1 else 0) -
      ((if c = closer then 1 else 0) -
        if closer = '>' ∧ before = '-' ∧ c = '>' then 1 else 0) := by
  by_cases hopen : c = opener
  · subst hopen
    have hangle : ¬(closer = '>' ∧ before = '-' ∧ c = '>') := fun h => hne (h.2.2.trans h.1.symm)
    rw [rise, if_pos rfl, if_pos rfl, if_neg hne, if_neg hangle]
    rfl
  · by_cases hclose : c = closer
    · subst hclose
      by_cases hangle : c = '>'
      · subst hangle
        by_cases hbefore : before = '-' <;> simp [rise, closes, hopen, hbefore]
      · simp [rise, closes, hopen, hangle]
    · have hangle : ¬(closer = '>' ∧ before = '-' ∧ c = '>') := fun h =>
        hclose (h.2.2.trans h.1.symm)
      simp [rise, closes, hopen, hclose, hangle]

/-- The depth is the number of openers less that of the closers, of which those that end an arrow
do not count. -/
theorem depthOf_eq_count (hne : opener ≠ closer) (before : Char) (cs : List Char) :
    depthOf opener closer before cs =
      cs.count opener - (cs.count closer - if closer = '>' then arrowsAfter before cs else 0) := by
  induction cs generalizing before with
  | nil => simp [depthOf, arrowsAfter]
  | cons c cs ih =>
      rw [depthOf, rise_eq hne, ih]
      simp only [arrowsAfter, List.zip_cons_cons, List.count_cons, beq_iff_eq, Prod.mk.injEq]
      by_cases hangle : closer = '>'
      · simp only [hangle, true_and, if_true]
        split <;> split <;> split <;> omega
      · simp only [hangle, false_and, if_false]
        split <;> split <;> omega

theorem zeroFrom_cons {depth : Int} {before c : Char} {cs : List Char} {start position : Nat} :
    ZeroFrom opener closer depth before (c :: cs) start position ↔
      (start = position ∧ depth + rise opener closer before c = 0) ∨
        ZeroFrom opener closer (depth + rise opener closer before c) c cs (start + c.utf8Size)
          position := by
  constructor
  · rintro ⟨inside, d, after, htext, rfl, hzero⟩
    cases inside with
    | nil =>
        obtain ⟨rfl, rfl⟩ := List.cons.inj htext
        exact .inl ⟨rfl, by simpa [depthOf] using hzero⟩
    | cons e inside =>
        obtain ⟨rfl, rfl⟩ := List.cons.inj htext
        refine .inr ⟨inside, d, after, rfl, by simp only [String.utf8Len_cons]; omega, ?_⟩
        rw [List.cons_append, depthOf] at hzero
        omega
  · rintro (⟨rfl, hzero⟩ | ⟨inside, d, after, rfl, rfl, hzero⟩)
    · exact ⟨[], c, cs, rfl, rfl, by simpa [depthOf] using hzero⟩
    · refine ⟨c :: inside, d, after, rfl, by simp only [String.utf8Len_cons]; omega, ?_⟩
      rw [List.cons_append, depthOf]
      omega

theorem ZeroFrom.le {depth : Int} {before : Char} {cs : List Char} {start position : Nat}
    (h : ZeroFrom opener closer depth before cs start position) : start ≤ position := by
  obtain ⟨inside, c, after, -, rfl, -⟩ := h
  exact Nat.le_add_right _ _

/-- While the depth is not zero, its first zero is further on. -/
theorem isFirst_zeroFrom_cons {depth depth' : Int} {before c : Char} {cs : List Char} {start : Nat}
    {found : Option Nat} (hdepth : depth' = depth + rise opener closer before c) (hne : depth' ≠ 0)
    (h : IsFirst (ZeroFrom opener closer depth' c cs (start + c.utf8Size)) found) :
    IsFirst (ZeroFrom opener closer depth before (c :: cs) start) found := by
  refine h.congr fun position => ?_
  rw [zeroFrom_cons, ← hdepth]
  exact (or_iff_right fun h => hne h.2).symm

/-- With `depth + 1` brackets open, the scan finds the first zero of the depth. -/
theorem exists_scan?_succ (opener closer : Char) (depth offset : Nat) (before : Char)
    (cs : List Char) :
    ∃ found, scan? opener closer (depth + 1) offset before cs = some found ∧
      IsFirst (ZeroFrom opener closer (depth + 1 : Nat) before cs offset) found := by
  induction cs generalizing depth offset before with
  | nil =>
      refine ⟨none, rfl, ?_⟩
      rintro position ⟨inside, c, after, htext, -⟩
      simp at htext
  | cons c cs ih =>
      rw [scan?]
      split
      · next hopen =>
        have hrise : rise opener closer before c = 1 := if_pos hopen
        obtain ⟨found, hfound, hfirst⟩ := ih (depth + 1) (offset + c.utf8Size) c
        exact ⟨found, hfound, isFirst_zeroFrom_cons (by omega) (by omega) hfirst⟩
      · next hopen =>
        split
        · next hclose =>
          have hrise : rise opener closer before c = -1 := by simp [rise, hopen, hclose]
          cases depth with
          | zero =>
              -- the depth is zero here, and every other position is further on
              refine ⟨some offset, by simp, ?_, fun position h => h.le⟩
              exact zeroFrom_cons.2 (.inl ⟨rfl, by simp [hrise]⟩)
          | succ depth =>
              obtain ⟨found, hfound, hfirst⟩ := ih depth (offset + c.utf8Size) c
              refine ⟨found, by simpa using hfound, ?_⟩
              exact isFirst_zeroFrom_cons (by omega) (by omega) hfirst
        · next hclose =>
          have hrise : rise opener closer before c = 0 := by simp [rise, hopen, hclose]
          obtain ⟨found, hfound, hfirst⟩ := ih depth (offset + c.utf8Size) c
          exact ⟨found, hfound, isFirst_zeroFrom_cons (by omega) (by omega) hfirst⟩

theorem zeroAt_iff {before rest : List Char} {position : Nat} :
    ZeroAt opener closer (before ++ opener :: rest) (utf8Len before) position ↔
      ZeroFrom opener closer (0 + 1 : Nat) opener rest (utf8Len before + opener.utf8Size)
        position := by
  have hrise : rise opener closer '\x00' opener = 1 := if_pos rfl
  constructor
  · rintro ⟨before', inside, c, after, htext, hlength, hne, rfl, hzero⟩
    obtain ⟨rfl, hrest⟩ := append_inj_of_utf8Len htext hlength.symm
    cases inside with
    | nil => exact absurd rfl hne
    | cons d inside =>
        obtain ⟨rfl, rfl⟩ := List.cons.inj hrest
        rw [List.cons_append, depthOf, hrise] at hzero
        exact ⟨inside, c, after, rfl, by simp only [String.utf8Len_cons]; omega, by omega⟩
  · rintro ⟨inside, c, after, rfl, rfl, hzero⟩
    refine ⟨before, opener :: inside, c, after, rfl, rfl, by simp,
      by simp only [String.utf8Len_cons]; omega, ?_⟩
    rw [List.cons_append, depthOf, hrise]
    omega

/-- A bracket is matched by the first position at which the depth is zero, or by none if it never
is; the depth does not fall below zero. -/
theorem exists_matching? (before rest : List Char) :
    ∃ found, matching? opener closer (before ++ opener :: rest) (utf8Len before) = some found ∧
      IsFirst (ZeroAt opener closer (before ++ opener :: rest) (utf8Len before)) found := by
  obtain ⟨found, hfound, hfirst⟩ :=
    exists_scan?_succ opener closer 0 (utf8Len before + opener.utf8Size) opener rest
  refine ⟨found, ?_, ?_⟩
  · rw [matching?, sliceFrom?_append, Option.bind_eq_bind, Option.bind_some, scan?, if_pos rfl,
      hfound]
  · exact hfirst.congr fun position => zeroAt_iff.symm

/-! ### The parameters of a binding -/

/-- Where the blanks end that stand at an offset. -/
def skipBlanks? (text : List Char) (start : Nat) : Option Nat := do
  let rest ← sliceFrom? text start
  let blanks ← (utf8Len rest).psub (utf8Len (Text.trimStart rest))
  return start + blanks

/-- Where a parameter list could open after a name that ends at an offset. -/
def openingAt? (text : List Char) (afterName : Nat) : Option (Option Nat) := do
  let opening ← skipBlanks? text afterName
  let rest ← sliceFrom? text opening
  if rest.head? = some '<' then
    match ← matching? '<' '>' text opening with
    | none => return none
    | some genericsEnd => return some (← skipBlanks? text (genericsEnd + 1))
  else return some opening

/-- The text in the parentheses that open after a name that ends at an offset. -/
def parameterTextAt? (text : List Char) (afterName : Nat) : Option (Option (List Char)) := do
  match ← openingAt? text afterName with
  | none => return none
  | some opening =>
    let rest ← sliceFrom? text opening
    if rest.head? = some '(' then
      match ← matching? '(' ')' text opening with
      | none => return none
      | some close => return some (← slice? text (opening + 1) close)
    else return none

theorem exists_skipBlanks? (before rest : List Char) :
    ∃ front, before ++ rest = front ++ Text.trimStart rest ∧
      skipBlanks? (before ++ rest) (utf8Len before) = some (utf8Len front) := by
  obtain ⟨gap, -, hrest⟩ := Text.exists_trimStart rest
  generalize htrim : Text.trimStart rest = trimmed at hrest
  subst hrest
  refine ⟨before ++ gap, (List.append_assoc _ _ _).symm, ?_⟩
  simp [skipBlanks?, sliceFrom?_append, htrim]

/-- The list could open where the text stands that follows the generics. -/
theorem exists_openingAt? (before rest : List Char) :
    ∃ opening?, openingAt? (before ++ rest) (utf8Len before) = some opening? ∧
      Option.Rel (fun opening opened => ∃ front, before ++ rest = front ++ opened ∧
        utf8Len front = opening) opening? (Binding.afterGenerics? rest) := by
  obtain ⟨front, htext, hfront⟩ := exists_skipBlanks? before rest
  rw [openingAt?, hfront, htext]
  simp only [Option.bind_eq_bind, Option.bind_some, Option.pure_def, sliceFrom?_append]
  by_cases hangle : ∃ opened, Text.trimStart rest = '<' :: opened
  · obtain ⟨opened, htrim⟩ := hangle
    rw [Binding.afterGenerics?_of_angle htrim, htrim, if_pos List.head?_cons,
      matching?_append]
    cases henclosed : enclosed? '<' '>' opened with
    | none => exact ⟨none, rfl, .none⟩
    | some p =>
        obtain ⟨inside, closed⟩ := p
        obtain rfl := closing?_eq_some henclosed
        -- the blanks behind the generics start one byte after their end
        have hseam : front ++ '<' :: (inside ++ '>' :: closed) =
            (front ++ '<' :: (inside ++ ['>'])) ++ closed := by simp
        have hend : utf8Len (front ++ '<' :: inside) + 1 =
            utf8Len (front ++ '<' :: (inside ++ ['>'])) := by
          have hsize : ('>' : Char).utf8Size = 1 := by decide
          simp [hsize]
          omega
        obtain ⟨front', htext', hfront'⟩ :=
          exists_skipBlanks? (front ++ '<' :: (inside ++ ['>'])) closed
        refine ⟨some (utf8Len front'), ?_, .some ⟨front', hseam.trans htext', rfl⟩⟩
        simp only [Option.map_some, Option.bind_some]
        rw [hend, hseam, hfront', Option.bind_some]
  · have hno : ∀ opened, Text.trimStart rest ≠ '<' :: opened := fun opened h => hangle ⟨opened, h⟩
    have hhead : (Text.trimStart rest).head? ≠ some '<' := fun h => by
      obtain ⟨opened, hopened⟩ := List.head?_eq_some_iff.1 h
      exact hno opened hopened
    rw [Binding.afterGenerics?_of_no_angle hno, if_neg hhead]
    exact ⟨some (utf8Len front), rfl, .some ⟨front, rfl, rfl⟩⟩

/-- The reader of a parameter list finds the text between its parentheses, at whatever boundary the
name before it ends. -/
theorem parameterTextAt?_append (before rest : List Char) :
    parameterTextAt? (before ++ rest) (utf8Len before) = some (Binding.parameterText? rest) := by
  obtain ⟨opening?, hopening, hrel⟩ := exists_openingAt? before rest
  rw [parameterTextAt?, hopening, Binding.parameterText?]
  generalize Binding.afterGenerics? rest = opened? at hrel
  cases hrel with
  | none => rfl
  | @some opening opened h =>
      obtain ⟨front, htext, rfl⟩ := h
      rw [htext]
      simp only [Option.bind_eq_bind, Option.bind_some, Option.pure_def, sliceFrom?_append]
      by_cases hparen : opened.head? = some '('
      · obtain ⟨opened, rfl⟩ := List.head?_eq_some_iff.1 hparen
        rw [if_pos List.head?_cons, matching?_append]
        cases henclosed : enclosed? '(' ')' opened with
        | none => simp [henclosed]
        | some p =>
            obtain ⟨inside, closed⟩ := p
            obtain rfl := closing?_eq_some henclosed
            have hslice := slice?_enclosed '(' ')' (by decide) front inside closed
            simp only [henclosed, Option.map_some, Option.bind_some, hslice]
      · rw [if_neg hparen]
        split
        · next opened hopened => simp at hopened; simp [hopened] at hparen
        · rfl

end HeaderAccord.Offset
