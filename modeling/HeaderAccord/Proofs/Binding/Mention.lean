import HeaderAccord.Binding.Mention
import HeaderAccord.Proofs.Text

/-!
Where the identifiers of a text stand. `mentions` reads a text from the front; here an identifier is
given by the text before it, its characters and the text after it, and `mentions_eq` finds it in
its place among the mentions: those in front of it come from identifiers that stand further left.
-/

namespace HeaderAccord.Binding

/-- A text that no identifier is open after: apart from the digits at its end, which no identifier
starts with, its last character is no part of one. -/
def EndsOutside (before : List Char) : Prop :=
  ∀ c ∈ (before.reverse.dropWhile Char.isDigit).head?, isIdentifierPart c = false

/-- The spelling of an identifier. -/
def IsIdentifier (name : List Char) : Prop :=
  (∀ c ∈ name.head?, isIdentifierStart c = true) ∧ name ≠ [] ∧
    ∀ c ∈ name, isIdentifierPart c = true

instance (name : List Char) : Decidable (IsIdentifier name) :=
  decidable_of_iff
    (name.head?.all isIdentifierStart = true ∧ name ≠ [] ∧ name.all isIdentifierPart = true)
    (by simp [IsIdentifier, Option.all_eq_true])

/-- `name` is an identifier where `before` ends and `after` starts, and goes on no further on either
side. -/
structure IsIdentifierAt (before name after : List Char) : Prop where
  spelled : IsIdentifier name
  starts : EndsOutside before
  ends : ∀ c ∈ after.head?, isIdentifierPart c = false

theorem isIdentifierPart_of_isDigit {c : Char} (h : c.isDigit = true) :
    isIdentifierPart c = true := by
  simp [isIdentifierPart, Char.isAlphanum, h]

theorem isIdentifierPart_of_start {c : Char} (h : isIdentifierStart c = true) :
    isIdentifierPart c = true ∧ c.isDigit = false := by
  simpa [isIdentifierStart] using h

theorem isIdentifierPart_of_isBlank {c : Char} (h : Text.isBlank c = true) :
    isIdentifierPart c = false := by
  apply Text.of_isBlank _ h
  decide

/-! ### The text before an identifier -/

theorem endsOutside_nil : EndsOutside [] := by simp [EndsOutside]

theorem endsOutside_append_singleton {before : List Char} (h : EndsOutside before) {c : Char}
    (hc : isIdentifierStart c = false) : EndsOutside (before ++ [c]) := by
  rw [EndsOutside, List.reverse_append, List.reverse_singleton, List.singleton_append,
    List.dropWhile_cons]
  split
  · exact h
  · next hdigit =>
    have hpart : isIdentifierPart c = false := by
      simpa [isIdentifierStart, hdigit] using hc
    simpa using hpart

theorem endsOutside_append_of_not_part (before : List Char) {c : Char}
    (hc : isIdentifierPart c = false) : EndsOutside (before ++ [c]) := by
  have hdigit : c.isDigit = false :=
    Bool.eq_false_iff.2 fun h => by simp [isIdentifierPart_of_isDigit h] at hc
  simp [EndsOutside, hdigit, hc]

theorem exists_dropWhile_digits {c : Char} (hc : c.isDigit = false) (cs : List Char) :
    ∃ d ∈ cs ++ [c], ∃ ds, (cs ++ [c]).dropWhile Char.isDigit = d :: ds := by
  induction cs with
  | nil => exact ⟨c, by simp, [], by simp [hc]⟩
  | cons x cs ih =>
      rw [List.cons_append, List.dropWhile_cons]
      split
      · obtain ⟨d, hd, ds, h⟩ := ih
        exact ⟨d, List.mem_cons_of_mem x hd, ds, h⟩
      · exact ⟨x, by simp, cs ++ [c], rfl⟩

/-- An identifier that a text ends with is still open. -/
theorem not_endsOutside_append {before name : List Char} (hname : IsIdentifier name) :
    ¬EndsOutside (before ++ name) := by
  obtain ⟨hstart, hne, hparts⟩ := hname
  obtain ⟨c, cs, rfl⟩ := List.exists_cons_of_ne_nil hne
  have hc := isIdentifierPart_of_start (hstart c rfl)
  intro h
  -- the digits at the end stop at a part of the name, at its first character at the latest
  obtain ⟨d, hmem, ds, hd⟩ := exists_dropWhile_digits hc.2 cs.reverse
  rw [EndsOutside, List.reverse_append, List.reverse_cons, List.dropWhile_append, hd] at h
  have hfalse : isIdentifierPart d = false := h d (by simp)
  have htrue : isIdentifierPart d = true := hparts d (by simpa [or_comm] using hmem)
  rw [htrue] at hfalse
  exact Bool.noConfusion hfalse

/-- Identifiers of one text do not overlap. -/
theorem IsIdentifierAt.end_le_start {before name after before' name' after' : List Char}
    (h : IsIdentifierAt before name after) (h' : IsIdentifierAt before' name' after')
    (heq : before ++ (name ++ after) = before' ++ (name' ++ after'))
    (hlt : before.length < before'.length) : (before ++ name).length ≤ before'.length := by
  refine Nat.le_of_not_lt fun hover => ?_
  have hbefore : before <+: before ++ (name ++ after) := List.prefix_append _ _
  have hname : before ++ name <+: before ++ (name ++ after) := ⟨after, by simp⟩
  have hbefore' : before' <+: before ++ (name ++ after) := heq ▸ List.prefix_append _ _
  -- the second one would start behind a part of the first
  obtain ⟨part, rfl⟩ := List.prefix_of_prefix_length_le hbefore hbefore' (by omega)
  have hpart : part <+: name := by
    have := List.prefix_of_prefix_length_le hbefore' hname (by omega)
    rwa [List.prefix_append_right_inj] at this
  have hne : part ≠ [] := by
    rintro rfl
    simp at hlt
  obtain ⟨hstart, -, hparts⟩ := h.spelled
  refine not_endsOutside_append ⟨fun c hc => ?_, hne, fun c hc => hparts c (hpart.subset hc)⟩
    h'.starts
  obtain ⟨tail, rfl⟩ := hpart
  exact hstart c (by rw [List.head?_append, Option.mem_def.1 hc]; rfl)

/-! ### Reading up to an identifier -/

theorem mentionsAfter_nil_of_ends {after : List Char}
    (h : ∀ c ∈ after.head?, isIdentifierPart c = false) (n : Char) (name : List Char) :
    mentionsAfter (n :: name) after = mentionOf (n :: name) after :: mentionsAfter [] after := by
  cases after with
  | nil => rfl
  | cons c after =>
      have hc : isIdentifierPart c = false := h c rfl
      simp [mentionsAfter, isIdentifierStart, hc]

theorem mentionsAfter_parts {after : List Char}
    (h : ∀ c ∈ after.head?, isIdentifierPart c = false) {parts : List Char}
    (hparts : ∀ c ∈ parts, isIdentifierPart c = true) (n : Char) (name : List Char) :
    mentionsAfter (n :: name) (parts ++ after) =
      mentionOf (n :: name ++ parts) after :: mentionsAfter [] after := by
  induction parts generalizing name with
  | nil => simpa using mentionsAfter_nil_of_ends h n name
  | cons c parts ih =>
      rw [List.cons_append, mentionsAfter, if_pos (hparts c (by simp)), List.cons_append,
        ih fun d hd => hparts d (by simp [hd])]
      simp

theorem mentions_identifier_append {name after : List Char} (hname : IsIdentifier name)
    (h : ∀ c ∈ after.head?, isIdentifierPart c = false) :
    mentionsAfter [] (name ++ after) = mentionOf name after :: mentionsAfter [] after := by
  obtain ⟨hstart, hne, hparts⟩ := hname
  obtain ⟨c, cs, rfl⟩ := List.exists_cons_of_ne_nil hne
  rw [List.cons_append, mentionsAfter, if_pos (hstart c rfl),
    mentionsAfter_parts h fun d hd => hparts d (by simp [hd])]
  simp

/-- A mention of an identifier that starts within the first `bound` characters of a text. -/
def IsMentionBefore (text : List Char) (bound : Nat) (m : Mention) : Prop :=
  ∃ before name after, text = before ++ (name ++ after) ∧ IsIdentifierAt before name after ∧
    before.length < bound ∧ m = mentionOf name after

/-- Reading `todo`, with `acc` read of an identifier that may be open, up to an identifier. -/
theorem mentionsAfter_append {name after : List Char} (hname : IsIdentifier name)
    (hafter : ∀ c ∈ after.head?, isIdentifierPart c = false) {done acc todo : List Char}
    (hdone : EndsOutside done) (hacc : acc = [] ∨ IsIdentifier acc)
    (htodo : EndsOutside (done ++ (acc ++ todo))) :
    ∃ earlier, mentionsAfter acc (todo ++ (name ++ after)) =
        earlier ++ mentionOf name after :: mentionsAfter [] after ∧
      ∀ m ∈ earlier, IsMentionBefore (done ++ (acc ++ (todo ++ (name ++ after))))
        (done ++ (acc ++ todo)).length m := by
  -- `done` is read, and `acc` is the identifier that is open after it
  induction todo generalizing done acc with
  | nil =>
      -- an open identifier would reach up to `name`, which starts outside of one
      have hnil : acc = [] := by
        rcases hacc with h | h
        · exact h
        · rw [List.append_nil] at htodo
          exact absurd htodo (not_endsOutside_append h)
      subst hnil
      exact ⟨[], by simpa using mentions_identifier_append hname hafter, by simp⟩
  | cons c todo ih =>
      cases acc with
      | nil =>
          rw [List.cons_append, mentionsAfter]
          cases hc : isIdentifierStart c with
          | true =>
              have hsingle : IsIdentifier [c] :=
                ⟨by simpa using hc, by simp, by simpa using (isIdentifierPart_of_start hc).1⟩
              simpa using ih hdone (.inr hsingle) (by simpa using htodo)
          | false =>
              simpa using ih (endsOutside_append_singleton hdone hc) (.inl rfl)
                (by simpa using htodo)
      | cons a acc =>
          have hname' : IsIdentifier (a :: acc) := by simpa using hacc
          rw [List.cons_append, mentionsAfter]
          cases hc : isIdentifierPart c with
          | true =>
              have hlonger : IsIdentifier (a :: acc ++ [c]) := by
                refine ⟨by simpa using hname'.1, by simp, fun d hd => ?_⟩
                rcases List.mem_append.1 hd with hd | hd
                · exact hname'.2.2 d hd
                · rwa [List.mem_singleton.1 hd]
              simpa using ih hdone (.inr hlonger) (by simpa using htodo)
          | false =>
              -- the open identifier ends here and is a mention further left
              have hmore := @ih (done ++ (a :: acc ++ [c])) []
                (by simpa using endsOutside_append_of_not_part (done ++ (a :: acc)) hc)
                (.inl rfl) (by simpa using htodo)
              obtain ⟨earlier, heq, hearlier⟩ := hmore
              refine ⟨mentionOf (a :: acc) (c :: (todo ++ (name ++ after))) :: earlier,
                by simp [heq], fun m hm => ?_⟩
              rcases List.mem_cons.1 hm with rfl | hm
              · exact ⟨done, a :: acc, c :: (todo ++ (name ++ after)), by simp,
                  ⟨hname', hdone, by simpa using hc⟩, by simp, rfl⟩
              · simpa using hearlier m hm

/-- An identifier of a text among its mentions: those before it come from identifiers further
left. -/
theorem mentions_eq {before name after : List Char} (h : IsIdentifierAt before name after) :
    ∃ earlier, mentions (before ++ (name ++ after)) =
        earlier ++ mentionOf name after :: mentions after ∧
      ∀ m ∈ earlier, IsMentionBefore (before ++ (name ++ after)) before.length m := by
  simpa [mentions] using
    mentionsAfter_append h.spelled h.ends endsOutside_nil (.inl rfl) h.starts

/-! ### What follows a mention -/

theorem rest_isSuffix_of_mem_mentionsAfter {name cs : List Char} {m : Mention}
    (h : m ∈ mentionsAfter name cs) : m.rest <:+ cs := by
  fun_induction mentionsAfter name cs with
  | case1 => simp at h
  | case2 n name =>
      rw [List.mem_singleton.1 h]
      exact List.nil_suffix
  | case3 c cs _ ih => exact (ih h).trans (List.suffix_cons c cs)
  | case4 c cs _ ih => exact (ih h).trans (List.suffix_cons c cs)
  | case5 n name c cs _ ih => exact (ih h).trans (List.suffix_cons c cs)
  | case6 n name c cs _ ih =>
      rcases List.mem_cons.1 h with rfl | h
      · exact List.suffix_rfl
      · exact (ih h).trans (List.suffix_cons c cs)

/-- An identifier ends where an end of the text starts. -/
theorem rest_isSuffix_of_mem_mentions {text : List Char} {m : Mention} (h : m ∈ mentions text) :
    m.rest <:+ text :=
  rest_isSuffix_of_mem_mentionsAfter h

end HeaderAccord.Binding
