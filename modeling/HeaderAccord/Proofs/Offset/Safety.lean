import HeaderAccord.Proofs.Binding.Mention
import HeaderAccord.Proofs.Offset.Block
import HeaderAccord.Proofs.Offset.Loop

/-!
No reader of a text asks for a slice that does not exist. Each of them, done with byte offsets, has
a result for any text, which is the one of the functions that cut the text into its parts, and its
loops come to an end.
-/

namespace HeaderAccord.Offset

open String (utf8Len)
open HeaderAccord.Bracket

/-- Slices exist between boundaries in order only, and every reader gets the ones it asks for. A
bracket is matched by the first later position at which the depth is zero, or by none if it is zero
nowhere, and the unsigned depth does not fall below zero. The loops over comments and structures
move their cursors on and end, and the lists, blocks and parameters are read to their end. -/
theorem slices_in_range (text : List Char) :
    (∀ start stop, (slice? text start stop).isSome ↔
      start ≤ stop ∧ IsBoundary text start ∧ IsBoundary text stop) ∧
    (∀ start, (sliceFrom? text start).isSome ↔ IsBoundary text start) ∧
    (∀ opener closer before rest, text = before ++ opener :: rest →
      ∃ found, matching? opener closer text (utf8Len before) = some found ∧
        IsFirst (ZeroAt opener closer text (utf8Len before)) found) ∧
    (∀ opener closer cs, opener ≠ closer → depthOf opener closer '\x00' cs =
      cs.count opener -
        (cs.count closer - if closer = '>' then (cs.zip cs.tail).count ('-', '>') else 0)) ∧
    Runs (commentRound? text) 0 (withoutComments text) ∧
    Runs (structureRound? text) 0 (Header.structuresIn text) ∧
    (∀ before rest, text = before ++ rest →
      parameterTextAt? text (utf8Len before) = some (Binding.parameterText? rest)) ∧
    (∀ m ∈ Binding.mentions text, m.rest <:+ text) ∧
    splitTopLevelAt? text = some (splitTopLevel text) ∧
    blocksAt? none (Text.lines text) = some (Override.blocksFrom none (Text.lines text)) := by
  refine ⟨fun _ _ => isSome_slice?_iff, fun _ => isSome_sliceFrom?_iff, ?_, ?_,
    runs_commentRound? text, runs_structureRound? text, ?_,
    fun m => Binding.rest_isSuffix_of_mem_mentions, splitTopLevelAt?_eq text, blocksAt?_eq none _⟩
  · rintro opener closer before rest rfl
    exact exists_matching? before rest
  · intro opener closer cs hne
    rw [depthOf_eq_count hne, arrowsAfter_eq (by decide)]
  · rintro before rest rfl
    exact parameterTextAt?_append before rest

/-- A text with characters of two bytes in a comment and in a parameter list. -/
def accentedText : List Char := "/* ß */ fn f<T>(ä: &T)".toList

theorem slices_in_range_accented :
    slice? accentedText 3 5 = some ['ß'] ∧ ¬IsBoundary accentedText 4 ∧
      ZeroAt '<' '>' accentedText 13 15 ∧ depthOf '<' '>' '\x00' ['<', '-', '>'] = 1 ∧
      (∃ m ∈ Binding.mentions accentedText,
        m.rest = "<T>(ä: &T)".toList ∧ m.rest <:+ accentedText) ∧
      parameterTextAt? accentedText 13 = some (some "ä: &T".toList) := by
  obtain ⟨hslice, -, hmatch, hdepth, -, -, hparameters, hmention, -, -⟩ :=
    slices_in_range accentedText
  have hgeneric : accentedText = "/* ß */ fn f".toList ++ '<' :: "T>(ä: &T)".toList := by decide
  have hcut : ¬IsBoundary accentedText 4 := fun h => by
    obtain ⟨-, h3, -⟩ := (hslice 3 5).1 (by decide)
    exact absurd ((hslice 3 4).2 ⟨by decide, h3, h⟩) (by decide)
  have hzero : ZeroAt '<' '>' accentedText 13 15 := by
    obtain ⟨found, hfound, hfirst⟩ := hmatch '<' '>' _ _ hgeneric
    obtain rfl : some 15 = found := by
      have hscan : matching? '<' '>' accentedText 13 = some (some 15) := by decide
      exact Option.some.inj (hscan.symm.trans hfound)
    exact hfirst.1
  have hf : (⟨"f", "<T>(ä: &T)".toList⟩ : Binding.Mention) ∈ Binding.mentions accentedText := by
    decide
  refine ⟨by decide, hcut, hzero, ?_, ⟨_, hf, rfl, hmention _ hf⟩, ?_⟩
  · rw [hdepth '<' '>' _ (by decide)]
    decide
  · exact hparameters _ _ hgeneric

end HeaderAccord.Offset
