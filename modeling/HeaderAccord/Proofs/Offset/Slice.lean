import HeaderAccord.Proofs.Text
import Mathlib.Data.List.TakeWhile
import Mathlib.Data.Nat.PSub
import Mathlib.Data.String.Basic

/-!
Byte offsets. The functions that cut a text return its parts; here the same is done by offsets, with
everything that can go wrong. A slice of a text exists between two offsets in order that both stand
on a character boundary, and for any other two there is none: `none` is the failure that ends the
program. A text that is found to be a concatenation has all its seams as boundaries, so whether a
slice exists is answered by what it is.
-/

namespace HeaderAccord.Offset

open String (utf8Len)

variable {text before after part : List Char} {offset start stop : Nat}

/-! ### Boundaries -/

/-- The offset is within the text, at its end or where a character starts. -/
def IsBoundary (text : List Char) (offset : Nat) : Prop :=
  String.Pos.Raw.IsValid (String.ofList text) ⟨offset⟩

theorem isBoundary_iff :
    IsBoundary text offset ↔ ∃ before after, text = before ++ after ∧ utf8Len before = offset := by
  rw [IsBoundary, String.Pos.Raw.isValid_iff_exists_append]
  constructor
  · rintro ⟨s, t, htext, hoffset⟩
    refine ⟨s.toList, t.toList, by simpa using congrArg String.toList htext, ?_⟩
    simpa [String.rawEndPos] using (congrArg String.Pos.Raw.byteIdx hoffset).symm
  · rintro ⟨before, after, rfl, rfl⟩
    exact ⟨String.ofList before, String.ofList after, String.ofList_append, by simp⟩

/-- What stands before a boundary and behind it. -/
def splitAt? : (offset : Nat) → List Char → Option (List Char × List Char)
  | 0, cs => some ([], cs)
  | _ + 1, [] => none
  | offset + 1, c :: cs =>
    if c.utf8Size ≤ offset + 1 then
      (splitAt? (offset + 1 - c.utf8Size) cs).map fun (before, after) => (c :: before, after)
    else none

theorem splitAt?_eq_some_iff :
    splitAt? offset text = some (before, after) ↔
      text = before ++ after ∧ utf8Len before = offset := by
  fun_induction splitAt? offset text generalizing before with
  | case1 cs =>
      constructor
      · rintro ⟨⟩
        exact ⟨rfl, rfl⟩
      · rintro ⟨rfl, hempty⟩
        simp [String.utf8Len_eq_zero.1 hempty]
  | case2 offset => simp +contextual
  | case3 offset c cs hsize ih =>
      rw [Option.map_eq_some_iff, Prod.exists]
      constructor
      · rintro ⟨before, after, hsplit, ⟨⟩⟩
        obtain ⟨rfl, hlength⟩ := ih.1 hsplit
        exact ⟨rfl, by simp only [String.utf8Len_cons]; omega⟩
      · rintro ⟨htext, hlength⟩
        cases before with
        | nil => simp at hlength
        | cons d before =>
            obtain ⟨rfl, rfl⟩ := List.cons.inj htext
            rw [String.utf8Len_cons] at hlength
            exact ⟨before, after, ih.2 ⟨rfl, by omega⟩, rfl⟩
  | case4 offset c cs hsize =>
      simp only [reduceCtorEq, false_iff, not_and]
      intro htext hlength
      cases before with
      | nil => simp at hlength
      | cons d before =>
          obtain ⟨rfl, -⟩ := List.cons.inj htext
          rw [String.utf8Len_cons] at hlength
          omega

theorem append_inj_of_utf8Len {before' after' : List Char}
    (htext : before ++ after = before' ++ after') (hlength : utf8Len before = utf8Len before') :
    before = before' ∧ after = after' := by
  have hsplit := splitAt?_eq_some_iff.2 ⟨htext, hlength.symm⟩
  rw [splitAt?_eq_some_iff.2 ⟨rfl, rfl⟩, Option.some.injEq, Prod.mk.injEq] at hsplit
  exact hsplit

/-! ### Slices -/

/-- The text from an offset on. -/
def sliceFrom? (text : List Char) (start : Nat) : Option (List Char) :=
  (splitAt? start text).map (·.2)

/-- The text between two offsets. -/
def slice? (text : List Char) (start stop : Nat) : Option (List Char) :=
  if start ≤ stop then do
    let (_, rest) ← splitAt? start text
    let (part, _) ← splitAt? (stop - start) rest
    return part
  else none

theorem sliceFrom?_eq_some_iff :
    sliceFrom? text start = some part ↔
      ∃ before, text = before ++ part ∧ utf8Len before = start := by
  simp [sliceFrom?, splitAt?_eq_some_iff]

theorem slice?_eq_some_iff :
    slice? text start stop = some part ↔
      ∃ before after, text = before ++ (part ++ after) ∧ utf8Len before = start ∧
        start + utf8Len part = stop := by
  rw [slice?]
  split
  · next hle =>
    simp only [Option.bind_eq_bind, Option.bind_eq_some_iff, Prod.exists, splitAt?_eq_some_iff,
      Option.pure_def, Option.some.injEq]
    constructor
    · rintro ⟨before, rest, ⟨rfl, rfl⟩, part', after, ⟨rfl, hlength⟩, rfl⟩
      exact ⟨before, after, rfl, rfl, by omega⟩
    · rintro ⟨before, after, rfl, rfl, rfl⟩
      exact ⟨before, part ++ after, ⟨rfl, rfl⟩, part, after, ⟨rfl, by omega⟩, rfl⟩
  · next hlt =>
    simp only [reduceCtorEq, false_iff]
    rintro ⟨before, after, -, rfl, rfl⟩
    omega

theorem isSome_sliceFrom?_iff : (sliceFrom? text start).isSome ↔ IsBoundary text start := by
  simp only [Option.isSome_iff_exists, sliceFrom?_eq_some_iff, isBoundary_iff]
  rw [exists_comm]

/-- A slice exists between boundaries that are in order. -/
theorem isSome_slice?_iff :
    (slice? text start stop).isSome ↔
      start ≤ stop ∧ IsBoundary text start ∧ IsBoundary text stop := by
  simp only [Option.isSome_iff_exists, slice?_eq_some_iff, isBoundary_iff]
  constructor
  · rintro ⟨part, before, after, rfl, rfl, rfl⟩
    exact ⟨by omega, ⟨before, _, rfl, rfl⟩, before ++ part, after, by simp, by simp⟩
  · rintro ⟨hle, ⟨before, rest, rfl, rfl⟩, front, after, htext, rfl⟩
    rcases List.append_eq_append_iff.1 htext with ⟨part, rfl, rfl⟩ | ⟨more, rfl, rfl⟩
    · exact ⟨part, before, after, rfl, rfl, by simp⟩
    · -- the later boundary would be in front of the earlier one, unless they are the same
      have hempty : more = [] := by
        rw [String.utf8Len_append] at hle
        exact String.utf8Len_eq_zero.1 (by omega)
      subst hempty
      exact ⟨[], front, rest, by simp, by simp, by simp⟩

theorem sliceFrom?_append (before after : List Char) :
    sliceFrom? (before ++ after) (utf8Len before) = some after :=
  sliceFrom?_eq_some_iff.2 ⟨before, rfl, rfl⟩

theorem slice?_append (before part after : List Char) :
    slice? (before ++ (part ++ after)) (utf8Len before) (utf8Len before + utf8Len part) =
      some part :=
  slice?_eq_some_iff.2 ⟨before, after, rfl, rfl, rfl⟩

/-- What two brackets enclose, sliced from one byte behind the opening one. -/
theorem slice?_enclosed (opener closer : Char) (hsize : opener.utf8Size = 1)
    (before inside after : List Char) :
    slice? (before ++ opener :: (inside ++ closer :: after)) (utf8Len before + 1)
      (utf8Len (before ++ opener :: inside)) = some inside := by
  refine slice?_eq_some_iff.2 ⟨before ++ [opener], closer :: after, by simp, by simp [hsize], ?_⟩
  simp only [String.utf8Len_append, String.utf8Len_cons, hsize]
  omega

/-! ### Searching -/

/-- The offset of the first occurrence of a pattern. -/
def find? (pattern cs : List Char) : Option Nat :=
  (Text.cutAt? pattern cs).map fun (before, _) => utf8Len before

/-- The offset of the first character that has a property. -/
def findChar? (p : Char → Bool) : List Char → Option Nat
  | [] => none
  | c :: cs => if p c then some 0 else (findChar? p cs).map (· + c.utf8Size)

theorem findChar?_eq (c : Char) (cs : List Char) :
    findChar? (· = c) cs = (Text.cutFirst? c cs).map fun (before, _) => utf8Len before := by
  induction cs with
  | nil => rfl
  | cons d cs ih =>
      rw [findChar?, Text.cutFirst?, ih]
      split
      · simp_all
      · simp_all [Function.comp_def]

/-- What is found before the end of a front is found in the front. -/
theorem filter_findChar?_append (p : Char → Bool) (front rest : List Char) :
    (findChar? p (front ++ rest)).filter (· < utf8Len front) = findChar? p front := by
  induction front with
  | nil => cases hrest : findChar? p rest <;> simp [hrest, findChar?]
  | cons c front ih =>
      rw [List.cons_append, findChar?, findChar?, ← ih]
      split
      · have := Char.utf8Size_pos c
        simp [this]
      · cases findChar? p (front ++ rest) <;> simp [Option.filter, apply_ite]

/-- A search for a line feed is a search for a character. -/
theorem cutAt?_singleton (c : Char) (cs : List Char) :
    Text.cutAt? [c] cs = Text.cutFirst? c cs := by
  induction cs with
  | nil => rfl
  | cons d cs ih =>
      rw [Text.cutAt?, Text.cutFirst?, ih]
      by_cases h : d = c
      · subst h
        simp [Text.afterPrefix?]
      · simp [Text.afterPrefix?, h, Ne.symm h]

/-- Up to the first character with a property, or the end, none has it. -/
theorem findChar?_getD (p : Char → Bool) (cs : List Char) :
    (findChar? p cs).getD (utf8Len cs) = utf8Len (cs.takeWhile (!p ·)) := by
  induction cs with
  | nil => rfl
  | cons c cs ih =>
      rw [findChar?, List.takeWhile_cons]
      cases hc : p c with
      | true => rfl
      | false =>
          cases hfind : findChar? p cs <;> simp_all

theorem slice?_takeWhile (p : Char → Bool) (cs : List Char) :
    slice? cs 0 (utf8Len (cs.takeWhile p)) = some (cs.takeWhile p) := by
  refine slice?_eq_some_iff.2 ⟨[], cs.dropWhile p, ?_, rfl, Nat.zero_add _⟩
  rw [List.nil_append, List.takeWhile_append_dropWhile]

/-- The text before the first `c`, cut off at its offset. -/
def upTo? (c : Char) (cs : List Char) : Option (List Char) :=
  match findChar? (· = c) cs with
  | some stop => slice? cs 0 stop
  | none => some cs

theorem upTo?_eq (c : Char) (cs : List Char) : upTo? c cs = some (Text.beforeFirst c cs) := by
  rw [upTo?]
  cases hfind : findChar? (· = c) cs with
  | some stop =>
      have hstop := findChar?_getD (· = c) cs
      rw [hfind, Option.getD_some] at hstop
      dsimp only
      rw [hstop, slice?_takeWhile]
      simp [Text.beforeFirst]
  | none =>
      rw [findChar?_eq, Option.map_eq_none_iff, Text.cutFirst?_eq_none_iff] at hfind
      have hall : cs.takeWhile (· ≠ c) = cs :=
        List.takeWhile_eq_self_iff.2 fun d hd => by simpa using ne_of_mem_of_not_mem hd hfind
      rw [Text.beforeFirst, hall]

@[simp] theorem psub_add_self (m n : Nat) : (m + n).psub n = some m :=
  Nat.psub_eq_some.2 rfl

end HeaderAccord.Offset
