import HeaderAccord.Proofs.Json.Reading

/-!
Pretty texts read back. What the indentation adds to a text are blanks around its tokens, so a
pretty text is read as the value that was written, like a compact one.
-/

namespace HeaderAccord.Json

open HeaderAccord.Json.Tree

theorem isGap_lineBreak (level : Nat) : IsGap (lineBreak level) := by
  refine List.forall_mem_cons.2 ⟨by decide, fun c hc => ?_⟩
  rw [List.eq_of_mem_replicate hc]
  decide

/-- A block is its items between brackets, with blanks at its ends and behind its commas. -/
theorem exists_block_eq (opener closer : Char) (level : Nat) (items : List (List Char)) :
    ∃ front gap back, IsGap front ∧ IsGap gap ∧ IsGap back ∧
      block opener closer level items =
        opener :: (front ++ ((',' :: gap).intercalate items ++ (back ++ [closer]))) := by
  cases items with
  | nil => exact ⟨[], [], [], isGap_nil, isGap_nil, isGap_nil, rfl⟩
  | cons item items =>
      exact ⟨lineBreak (level + 1), lineBreak (level + 1), lineBreak level,
        isGap_lineBreak _, isGap_lineBreak _, isGap_lineBreak _, by simp [block]⟩

theorem isGap_space : IsGap [' '] := by
  rintro _ (_ | ⟨_, ⟨⟩⟩)
  rfl

mutual

theorem readsAs_prettyChars : (v : Json) → v.isWhole = true → (level : Nat) →
    ReadsAs (prettyChars level v) v
  | .null, h, _ => readsAs_compactChars .null (isIntegral_of_isWhole _ h)
  | .bool b, h, _ => readsAs_compactChars (.bool b) (isIntegral_of_isWhole _ h)
  | .integer n, h, _ => readsAs_compactChars (.integer n) (isIntegral_of_isWhole _ h)
  | .double _, h, _ => nomatch h
  | .string s, h, _ => readsAs_compactChars (.string s) (isIntegral_of_isWhole _ h)
  | .array items, h, level => by
      obtain ⟨front, gap, back, hfront, hgap, hback, hblock⟩ :=
        exists_block_eq '[' ']' level (prettyItems (level + 1) items)
      rw [prettyChars, hblock]
      exact readsAs_array hfront hgap hback (readsAs_prettyItems items h (level + 1))
  | .object members, h, level => by
      obtain ⟨front, gap, back, hfront, hgap, hback, hblock⟩ :=
        exists_block_eq '\x7b' '\x7d' level (prettyMembers (level + 1) members)
      rw [prettyChars, hblock]
      exact readsAs_object hfront hgap hback (readsAs_prettyMembers members h (level + 1))

theorem readsAs_prettyItems : (items : List Json) → areWhole items = true → (level : Nat) →
    List.Forall₂ ReadsAs (prettyItems level items) items
  | [], _, _ => .nil
  | v :: vs, h, level => by
      rw [areWhole, Bool.and_eq_true] at h
      exact .cons (readsAs_prettyChars v h.1 level) (readsAs_prettyItems vs h.2 level)

theorem readsAs_prettyMembers : (members : List (String × Json)) →
    areWholeMembers members = true → (level : Nat) →
    List.Forall₂ ReadsAsMember (prettyMembers level members) members
  | [], _, _ => .nil
  | (name, v) :: rest, h, level => by
      rw [areWholeMembers, Bool.and_eq_true] at h
      have hmember : ReadsAsMember (stringText name ++ [':', ' '] ++ prettyChars level v)
          (name, v) :=
        ⟨[' '], prettyChars level v, by simp, isGap_space, readsAs_prettyChars v h.1 level⟩
      exact .cons hmember (readsAs_prettyMembers rest h.2 level)

end

theorem readsAs_pretty {v : Json} (h : v.isWhole = true) : ReadsAs v.pretty.toList v := by
  rw [pretty, String.toList_ofList]
  exact readsAs_prettyChars v h 0

theorem hasValue_pretty {v : Json} (hwhole : v.isWhole = true) (hdepth : v.nesting ≤ maxDepth) :
    HasValue v.pretty v :=
  (readsAs_pretty hwhole).hasValue hdepth

/-- A printed line ends in a line break. -/
theorem hasValue_pretty_line {v : Json} (hwhole : v.isWhole = true)
    (hdepth : v.nesting ≤ maxDepth) : HasValue (v.pretty ++ "\n") v := by
  refine ReadsAs.hasValue ?_ hdepth
  rw [String.toList_append]
  exact (readsAs_pretty hwhole).append_gap (isGap_lineBreak 0)

end HeaderAccord.Json
