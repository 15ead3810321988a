import HeaderAccord.Proofs.Binding.Blanks

/-!
A text in front of a source. A character that is no part of an identifier divides the identifiers of
a text, and what follows an identifier in front of it is only looked at up to the first character
that is no blank. So a text that ends in such a character, and that opens no list behind the name of
a header function, may stand in front of any source: the search for a declaration passes over it, and
nothing that comes later looks back.
-/

namespace HeaderAccord.Binding

open Header Text

/-! ### Identifiers at a seam -/

/-- Every mention of a text comes from an identifier of it: `done` is read, and `acc` is the
identifier that is open after it. -/
theorem exists_of_mem_mentionsAfter {done acc todo : List Char} (hdone : EndsOutside done)
    (hacc : acc = [] ∨ IsIdentifier acc) {m : Mention} (hm : m ∈ mentionsAfter acc todo) :
    ∃ before name after, done ++ (acc ++ todo) = before ++ (name ++ after) ∧
      IsIdentifierAt before name after ∧ m = mentionOf name after := by
  induction todo generalizing done acc with
  | nil =>
      cases acc with
      | nil => cases hm
      | cons a acc =>
          obtain rfl := List.mem_singleton.1 hm
          have hname : IsIdentifier (a :: acc) := by simpa using hacc
          exact ⟨done, a :: acc, [], rfl, ⟨hname, hdone, nofun⟩, rfl⟩
  | cons c todo ih =>
      cases acc with
      | nil =>
          rw [mentionsAfter] at hm
          cases hc : isIdentifierStart c with
          | true =>
              have hsingle : IsIdentifier [c] :=
                ⟨by simpa using hc, by simp, by simpa using (isIdentifierPart_of_start hc).1⟩
              rw [hc] at hm
              exact ih hdone (.inr hsingle) hm
          | false =>
              rw [hc] at hm
              simpa using ih (endsOutside_append_singleton hdone hc) (.inl rfl) hm
      | cons a acc =>
          have hname : IsIdentifier (a :: acc) := by simpa using hacc
          rw [mentionsAfter] at hm
          cases hc : isIdentifierPart c with
          | true =>
              have hlonger : IsIdentifier (a :: acc ++ [c]) := by
                refine ⟨by simpa using hname.1, by simp, fun d hd => ?_⟩
                rcases List.mem_append.1 hd with hd | hd
                · exact hname.2.2 d hd
                · rwa [List.mem_singleton.1 hd]
              rw [hc] at hm
              simpa using ih hdone (.inr hlonger) hm
          | false =>
              rw [hc] at hm
              rcases List.mem_cons.1 hm with rfl | hm
              · exact ⟨done, a :: acc, c :: todo, rfl, ⟨hname, hdone, by simpa using hc⟩, rfl⟩
              · have houtside : EndsOutside (done ++ (a :: acc ++ [c])) := by
                  simpa using endsOutside_append_of_not_part (done ++ (a :: acc)) hc
                simpa using ih houtside (.inl rfl) hm

/-- The mentions of a text are its identifiers, each with what follows it. -/
theorem mem_mentions_iff {text : List Char} {m : Mention} :
    m ∈ mentions text ↔ ∃ before name after, text = before ++ (name ++ after) ∧
      IsIdentifierAt before name after ∧ m = mentionOf name after := by
  constructor
  · intro hm
    exact exists_of_mem_mentionsAfter endsOutside_nil (.inl rfl) hm
  · rintro ⟨before, name, after, rfl, hat, rfl⟩
    obtain ⟨earlier, hmentions, -⟩ := mentions_eq hat
    rw [hmentions]
    simp

/-- A character that is no part of an identifier divides the mentions of a text. -/
theorem mentionsAfter_append_cons {c : Char} (hc : isIdentifierPart c = false)
    (name front rest : List Char) :
    mentionsAfter name (front ++ c :: rest) =
      (mentionsAfter name (front ++ [c])).map (·.mapRest (· ++ rest)) ++
        mentionsAfter [] rest := by
  have hstart : isIdentifierStart c = false := by simp [isIdentifierStart, hc]
  induction front generalizing name with
  | nil => cases name <;> simp [mentionsAfter, hc, hstart, Mention.mapRest, mentionOf]
  | cons d front ih =>
      cases name with
      | nil =>
          rw [List.cons_append, List.cons_append, mentionsAfter, mentionsAfter, ih, ih]
          split <;> rfl
      | cons n name =>
          rw [List.cons_append, List.cons_append, mentionsAfter, mentionsAfter, ih, ih]
          split
          · rfl
          · simp [Mention.mapRest, mentionOf]

/-! ### Lists at a seam -/

/-- What follows an identifier opens a list: blanks, and then a parenthesis or an angle bracket. -/
def OpensList (after : List Char) : Prop := ∃ c ∈ (trimStart after).head?, c = '(' ∨ c = '<'

instance (after : List Char) : Decidable (OpensList after) :=
  decidable_of_iff ((trimStart after).head?.any (fun c => c = '(' ∨ c = '<') = true)
    (by simp [OpensList, Option.any_eq_true])

theorem parameterText?_of_not_opensList {rest : List Char} (h : ¬OpensList rest) :
    parameterText? rest = none := by
  have hangle (opened : List Char) : trimStart rest ≠ '<' :: opened := fun heq =>
    h ⟨'<', by simp [heq], .inr rfl⟩
  refine parameterText?_of_no_paren fun opened hopened => ?_
  rw [afterGenerics?_of_no_angle hangle] at hopened
  exact h ⟨'(', by simp [Option.some.inj hopened], .inl rfl⟩

/-- Whether a list opens is told by a text that has something else than blanks. -/
theorem opensList_append_iff {after : List Char} (hafter : ¬AllBlank after) (rest : List Char) :
    OpensList (after ++ rest) ↔ OpensList after := by
  obtain ⟨c, hc, hblank⟩ : ∃ c ∈ after, isBlank c = false := by
    simpa [AllBlank] using hafter
  obtain ⟨front, back, rfl⟩ := List.append_of_mem hc
  have hhead : (trimStart (front ++ c :: back ++ rest)).head? =
      (trimStart (front ++ c :: back)).head? := by
    rw [List.append_assoc, List.cons_append, trimStart_append_of_not_blank hblank,
      trimStart_append_of_not_blank hblank]
    cases trimStart front <;> rfl
  rw [OpensList, hhead, OpensList]

/-! ### Sources -/

/-- Where a text names a header function that is checked, it opens no list. -/
def OnlyMentions (index : HeaderIndex) (front : List Char) : Prop :=
  ∀ f ∈ index.functions, f.hasPointerArgs = true →
    ∀ before name after, front = before ++ (name ++ after) → IsIdentifierAt before name after →
      Name.key (String.ofList name) = Name.key f.name → ¬OpensList after

/-- It is enough to look at the mentions of the text. -/
theorem onlyMentions_iff {index : HeaderIndex} {front : List Char} :
    OnlyMentions index front ↔
      ∀ f ∈ index.functions, f.hasPointerArgs = true →
        ∀ m ∈ mentions front, m.key = Name.key f.name → ¬OpensList m.rest := by
  have hkey (name after : List Char) :
      (mentionOf name after).key = Name.key (String.ofList name) := by
    rw [Name.key, String.toList_ofList]
    rfl
  constructor
  · intro h f hf hargs m hm hname
    obtain ⟨before, name, after, heq, hat, rfl⟩ := mem_mentions_iff.1 hm
    exact h f hf hargs before name after heq hat ((hkey name after).symm.trans hname)
  · intro h f hf hargs before name after heq hat hname
    have hm := mem_mentions_iff.2 ⟨before, name, after, heq, hat, rfl⟩
    exact h f hf hargs _ hm ((hkey name after).trans hname)

instance (index : HeaderIndex) (front : List Char) : Decidable (OnlyMentions index front) :=
  decidable_of_iff _ onlyMentions_iff.symm

/-- The character ends a text so that what follows is read on its own: it is no blank, and no part
of an identifier. -/
def IsSeam (c : Char) : Prop := isBlank c = false ∧ isIdentifierPart c = false

instance (c : Char) : Decidable (IsSeam c) :=
  inferInstanceAs (Decidable (isBlank c = false ∧ isIdentifierPart c = false))

theorem boundParameters?_append {key : String} {front : List Char} {c : Char} (hc : IsSeam c)
    (hfront : ∀ m ∈ mentions (front ++ [c]), m.key = key → ¬OpensList m.rest)
    (rest : List Char) :
    boundParameters? key (mentions (front ++ c :: rest)) = boundParameters? key (mentions rest) := by
  -- an identifier in front of the seam is followed by the seam, so by more than blanks
  have hrest : ∀ m ∈ mentions (front ++ [c]), ¬AllBlank m.rest := by
    intro m hm hblank
    obtain ⟨before, name, after, heq, hat, rfl⟩ := mem_mentions_iff.1 hm
    have hend := congrArg List.getLast? heq
    rw [List.getLast?_concat, ← List.append_assoc, List.getLast?_append] at hend
    cases hafter : after.getLast? with
    | some d =>
        have hd : c = d := by simpa [hafter] using hend
        have hdblank : isBlank d = true := hblank d (List.mem_of_getLast? hafter)
        rw [← hd, hc.1] at hdblank
        cases hdblank
    | none =>
        rw [hafter, Option.none_or, List.getLast?_append] at hend
        obtain ⟨d, hd⟩ := Option.ne_none_iff_exists'.1 (mt List.getLast?_eq_none_iff.1 hat.spelled.2.1)
        have hcd : c = d := by simpa [hd] using hend
        have hpart := hat.spelled.2.2 d (List.mem_of_getLast? hd)
        rw [← hcd, hc.2] at hpart
        cases hpart
  have hnone : ((mentions (front ++ [c])).map (·.mapRest (· ++ rest))).findSome? (fun m =>
      if m.key = key then parameterText? m.rest else none) = none := by
    rw [List.findSome?_eq_none_iff]
    intro m hm
    obtain ⟨before, hbefore, rfl⟩ := List.mem_map.1 hm
    split
    · next hkey =>
      have hopens := mt (opensList_append_iff (hrest before hbefore) rest).1
        (hfront before hbefore hkey)
      exact parameterText?_of_not_opensList hopens
    · rfl
  rw [mentions] at hnone
  rw [boundParameters?, mentions, mentionsAfter_append_cons hc.2, List.findSome?_append, hnone,
    Option.none_or, boundParameters?, mentions]

section

variable {m : Type → Type} [Monad m]

/-- Steps that agree on every element of a list make the same run. -/
theorem mapM_congr {α β : Type} {f g : α → m β} {xs : List α} (h : ∀ x ∈ xs, f x = g x) :
    xs.mapM f = xs.mapM g := by
  have hloop : ∀ done, List.mapM.loop f xs done = List.mapM.loop g xs done := by
    induction xs with
    | nil => exact fun _ => rfl
    | cons x xs ih =>
        obtain ⟨hx, hxs⟩ := List.forall_mem_cons.1 h
        intro done
        rw [List.mapM.loop, List.mapM.loop, hx]
        exact congrArg (g x >>= ·) (funext fun y => ih hxs (y :: done))
  exact hloop []

/-- Mentions of header functions in front of a source do not matter. Whoever watches, a text that
opens no list behind the name of a checked function, and that ends in a character which is neither a
blank nor a part of an identifier, leaves the check of the source behind it as it is. -/
theorem checkSource_append (notify : Event → m Unit) {index : HeaderIndex} {front : String}
    (hend : ∀ c ∈ front.toList.getLast?, IsSeam c) (hfront : OnlyMentions index front.toList)
    (rest : String) :
    checkSource notify index (front ++ rest) = checkSource notify index rest := by
  have hbound : ∀ f ∈ index.functions.filter (·.hasPointerArgs),
      boundParameters? (Name.key f.name) (mentions (front ++ rest).toList) =
        boundParameters? (Name.key f.name) (mentions rest.toList) := by
    intro f hf
    obtain ⟨hmem, hargs⟩ := List.mem_filter.1 hf
    rw [String.toList_append]
    rcases List.eq_nil_or_concat front.toList with hempty | ⟨cs, c, heq⟩
    · rw [hempty, List.nil_append]
    · rw [List.concat_eq_append] at heq
      rw [heq] at hend hfront
      rw [heq, List.append_assoc, List.singleton_append]
      exact boundParameters?_append (hend c (by simp))
        (onlyMentions_iff.1 hfront f hmem hargs) rest.toList
  have hcheck : ∀ f ∈ index.functions.filter (·.hasPointerArgs),
      checkFunction notify (mentions (front ++ rest).toList) f =
        checkFunction notify (mentions rest.toList) f := by
    intro f hf
    rw [checkFunction, hbound f hf, checkFunction]
  rw [checkSource, mapM_congr hcheck, checkSource]

end

/-- The function is called by name, and another one is called, in front of its declaration. -/
theorem checkSource_append_getData :
    let index : HeaderIndex :=
      { functions := [{ name := "get_data", pointerArgs := [⟨"buf", "char *buf"⟩] }] }
    let front := "use ffi::get_data;\nlet f = getData /* (buf) */ + other(get_data);"
    let rest := " fn get_data(buf: u8) {}"
    (∀ c ∈ front.toList.getLast?, IsSeam c) ∧ OnlyMentions index front.toList ∧
      checkSource Traced.emit index (front ++ rest) = checkSource Traced.emit index rest ∧
      (checkSource Traced.emit index rest).result =
        { bound := ["get_data"],
          failures := [argumentFailure "get_data" { name := "buf", type := "u8" }] } := by
  intro index front rest
  have hlast : front.toList.getLast? = some ';' := by decide +kernel
  have hend : ∀ c ∈ front.toList.getLast?, IsSeam c := by
    rw [hlast]
    rintro c ⟨rfl⟩
    decide
  have hfront : OnlyMentions index front.toList := by decide +kernel
  exact ⟨hend, hfront, checkSource_append Traced.emit hend hfront rest, by decide +kernel⟩

end HeaderAccord.Binding
