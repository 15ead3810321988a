import HeaderAccord.Proofs.Text
import HeaderAccord.Path

/-!
Joining paths, and paths by their components. Joining is associative; a name that is joined to a
path is one component more, and the order of paths is a total order of their components.
-/

namespace HeaderAccord.Path

open Text

/-! ### Joining

A relative path is put behind its base, which ends in a slash then. Whether one had to be added
shows at the end of the base alone, so it does not matter which of two joins comes first. -/

/-- The text of a path with a slash at its end. -/
def asFolder (cs : List Char) : List Char := if cs.getLast? = some '/' then cs else cs ++ ['/']

theorem asFolder_append (as : List Char) {bs : List Char} (h : bs ≠ []) :
    asFolder (as ++ bs) = as ++ asFolder bs := by
  have hlast : (as ++ bs).getLast? = bs.getLast? := by
    rw [List.getLast?_append, Option.or_of_isSome (by simpa using h)]
  rw [asFolder, asFolder, hlast]
  split
  · rfl
  · exact List.append_assoc as bs ['/']

@[simp] theorem asFolder_asFolder (cs : List Char) : asFolder (asFolder cs) = asFolder cs := by
  have hlast : (asFolder cs).getLast? = some '/' := by
    rw [asFolder]
    split
    · assumption
    · exact List.getLast?_concat
  rw [asFolder, if_pos hlast]

theorem eq_of_chars {p q : Path} (h : p.chars = q.chars) : p = q := by
  cases p
  cases q
  exact congrArg Path.mk (String.toList_inj.1 h)

theorem join_of_isAbsolute {p : Path} (h : p.isAbsolute = true) (base : Path) :
    base.join p = p := by
  rw [join, h]
  rfl

theorem join_of_text_eq_empty {base : Path} (h : base.text = "") (p : Path) : base.join p = p := by
  simp [join, h]

theorem chars_join {base p : Path} (hbase : base.text ≠ "") (hp : p.isAbsolute = false) :
    (base.join p).chars = asFolder base.chars ++ p.chars := by
  have hjoin : (false || decide (base.text = "")) = false := by simpa using hbase
  rw [join, hp, hjoin, if_neg Bool.false_ne_true, asFolder]
  split <;> simp [chars]

theorem chars_ne_nil {p : Path} (h : p.text ≠ "") : p.chars ≠ [] := by simpa [chars] using h

theorem text_join_ne_empty {base p : Path} (hbase : base.text ≠ "") (hp : p.isAbsolute = false) :
    (base.join p).text ≠ "" := by
  intro h
  have hchars := chars_join hbase hp
  rw [chars, h, asFolder] at hchars
  split at hchars <;> simp_all [chars_ne_nil hbase]

/-- A relative path behind a base starts as the base does. -/
theorem isAbsolute_join {base p : Path} (hbase : base.text ≠ "") (hp : p.isAbsolute = false) :
    (base.join p).isAbsolute = base.isAbsolute := by
  obtain ⟨c, cs, hchars⟩ := List.exists_cons_of_ne_nil (chars_ne_nil hbase)
  rw [isAbsolute, isAbsolute, chars_join hbase hp, hchars, asFolder]
  split <;> rfl

/-- Joining is associative, whichever of the paths are empty, absolute or end in a slash. -/
theorem join_join (base p q : Path) : (base.join p).join q = base.join (p.join q) := by
  cases hq : q.isAbsolute with
  | true => rw [join_of_isAbsolute hq, join_of_isAbsolute hq, join_of_isAbsolute hq]
  | false =>
      by_cases hbase : base.text = ""
      · rw [join_of_text_eq_empty hbase, join_of_text_eq_empty hbase]
      by_cases hp : p.text = ""
      · -- an empty path leaves the base as a folder, and a base is made one by any join
        have hrelative : p.isAbsolute = false := by simp [isAbsolute, chars, hp]
        have hfolder : (base.join p).chars = asFolder base.chars := by
          rw [chars_join hbase hrelative]
          simp [chars, hp]
        rw [join_of_text_eq_empty hp]
        apply eq_of_chars
        rw [chars_join (text_join_ne_empty hbase hrelative) hq, hfolder, asFolder_asFolder,
          chars_join hbase hq]
      · cases habs : p.isAbsolute with
        | true =>
            have habsolute : (p.join q).isAbsolute = true := by rw [isAbsolute_join hp hq, habs]
            rw [join_of_isAbsolute habs, join_of_isAbsolute habsolute]
        | false =>
            have hrelative : (p.join q).isAbsolute = false := by rw [isAbsolute_join hp hq, habs]
            apply eq_of_chars
            rw [chars_join (text_join_ne_empty hbase habs) hq, chars_join hbase habs,
              chars_join hbase hrelative, chars_join hp hq, asFolder_append _ (chars_ne_nil hp),
              List.append_assoc]

/-! ### Joining a name -/

/-- A name that an entry of a folder can have. -/
def IsEntryName (name : String) : Prop :=
  name ≠ "" ∧ '/' ∉ name.toList ∧ name ≠ "." ∧ name ≠ ".."

instance (name : String) : Decidable (IsEntryName name) :=
  inferInstanceAs (Decidable (name ≠ "" ∧ '/' ∉ name.toList ∧ name ≠ "." ∧ name ≠ ".."))

theorem componentOf?_of_isEntryName {name : String} (h : IsEntryName name) :
    componentOf? name.toList = some (.name name) := by
  obtain ⟨hne, -, hdot, hdots⟩ := h
  have hdot' : name.toList ≠ dot := fun h => hdot (String.toList_inj.1 h)
  have hdots' : name.toList ≠ dotDot := fun h => hdots (String.toList_inj.1 h)
  simp [componentOf?, isFiller, hne, hdot', hdots']

theorem segments_of_isEntryName {name : String} (h : IsEntryName name) :
    segments name.toList = [name.toList] := by
  refine pieces_of_forall fun c hc => ?_
  have : c ≠ '/' := fun heq => h.2.1 (heq ▸ hc)
  simp [this]

/-- What a path means up to a slash after `cs`. -/
def stem (cs : List Char) : List Component :=
  (if (cs ++ ['/']).head? = some '/' then [.root]
    else if (segments cs).head? = some dot then [.current]
    else []) ++ (segments cs).filterMap componentOf?

theorem segments_append_slash (before after : List Char) :
    segments (before ++ '/' :: after) = segments before ++ segments after :=
  pieces_append_separator _ (by decide) before after

theorem components_of_slash {p : Path} (before after : List Char)
    (h : p.chars = before ++ '/' :: after) :
    p.components = stem before ++ (segments after).filterMap componentOf? := by
  have hhead : (before ++ '/' :: after).head? = (before ++ ['/']).head? := by
    cases before <;> rfl
  have hdot : (segments before ++ segments after).head? = (segments before).head? := by
    cases hsegments : segments before with
    | nil => exact absurd hsegments (pieces_ne_nil _ before)
    | cons => rfl
  rw [components, stem, isAbsolute, h, hhead, segments_append_slash, hdot, List.filterMap_append]
  simp only [decide_eq_true_eq]
  split
  · rfl
  · split <;> rfl

theorem components_eq_stem {p : Path} (h : p.text ≠ "") : p.components = stem p.chars := by
  have hne : p.chars ≠ [] := chars_ne_nil h
  have hhead : (p.chars ++ ['/']).head? = p.chars.head? := by
    cases hchars : p.chars with
    | nil => exact absurd hchars hne
    | cons => rfl
  rw [components, stem, isAbsolute, hhead]
  simp only [decide_eq_true_eq]
  split
  · rfl
  · split <;> rfl

theorem isAbsolute_of_isEntryName {name : String} (h : IsEntryName name) :
    (⟨name⟩ : Path).isAbsolute = false := by
  cases hname : name.toList with
  | nil => simp [isAbsolute, chars, hname]
  | cons c cs =>
      have : c ≠ '/' := fun heq => h.2.1 (by simp [hname, heq])
      simp [isAbsolute, chars, hname, this]

theorem chars_joinName {base : Path} {name : String} (hbase : base.text ≠ "")
    (hname : IsEntryName name) :
    (base.joinName name).chars =
      if base.chars.getLast? = some '/' then base.chars ++ name.toList
      else base.chars ++ '/' :: name.toList := by
  have hchars : (⟨name⟩ : Path).chars = name.toList := rfl
  rw [joinName, chars_join hbase (isAbsolute_of_isEntryName hname), hchars, asFolder]
  split <;> simp

/-- Joining a name adds one component. -/
theorem components_joinName {base : Path} {name : String} (hbase : base.text ≠ "")
    (hname : IsEntryName name) :
    (base.joinName name).components = base.components ++ [.name name] := by
  have hlast : (segments name.toList).filterMap componentOf? = [.name name] := by
    simp [segments_of_isEntryName hname, componentOf?_of_isEntryName hname]
  have hchars := chars_joinName hbase hname
  split at hchars
  · next hslash =>
    obtain ⟨cs, hcs⟩ := List.getLast?_eq_some_iff.1 hslash
    have hnone : (segments []).filterMap componentOf? = [] := by decide
    rw [components_of_slash cs name.toList (by simp [hchars, hcs]), hlast,
      components_of_slash cs [] hcs, hnone, List.append_nil]
  · rw [components_of_slash _ _ hchars, hlast, components_eq_stem hbase]

theorem text_joinName_ne_empty {base : Path} {name : String} (hbase : base.text ≠ "")
    (hname : IsEntryName name) : (base.joinName name).text ≠ "" :=
  text_join_ne_empty hbase (isAbsolute_of_isEntryName hname)

/-! ### The order -/

namespace Component

theorem before_irrefl (a : Component) : a.before a = false := by
  cases a with
  | name a => exact decide_eq_false (String.lt_irrefl a)
  | _ => rfl

theorem before_name {a b : String} : (name a).before (name b) = true ↔ a < b :=
  decide_eq_true_iff

theorem before_trans {a b c : Component} (hab : a.before b = true) (hbc : b.before c = true) :
    a.before c = true := by
  -- the kinds alone settle every case but that of three names
  cases a <;> cases b <;> cases c <;>
    first | rfl | exact Bool.noConfusion hab | exact Bool.noConfusion hbc | skip
  next a b c => exact before_name.2 (String.lt_trans (before_name.1 hab) (before_name.1 hbc))

theorem before_or_before {a b : Component} (h : a ≠ b) : a.before b = true ∨ b.before a = true := by
  cases a <;> cases b <;> first | exact absurd rfl h | exact .inl rfl | exact .inr rfl | skip
  next a b =>
    have hne : a ≠ b := fun heq => h (congrArg name heq)
    rw [before_name, before_name]
    rcases String.le_total a b with hle | hle
    · left
      exact Decidable.byContradiction fun hn => hne (String.le_antisymm hle (String.not_lt.1 hn))
    · right
      exact Decidable.byContradiction fun hn => hne (String.le_antisymm (String.not_lt.1 hn) hle)

end Component

theorem componentsLe_trans {as bs cs : List Component} (hab : componentsLe as bs = true)
    (hbc : componentsLe bs cs = true) : componentsLe as cs = true := by
  induction as generalizing bs cs with
  | nil => rfl
  | cons a as ih =>
      cases bs with
      | nil => simp [componentsLe] at hab
      | cons b bs =>
          cases cs with
          | nil => simp [componentsLe] at hbc
          | cons c cs =>
              rw [componentsLe] at hab hbc ⊢
              split at hab
              · next h =>
                subst h
                split at hbc
                · next h => rw [if_pos h]; exact ih hab hbc
                · next h => rw [if_neg h]; exact hbc
              · split at hbc
                · next h =>
                  rwa [← h, if_neg (by assumption)]
                · split
                  · next h =>
                    -- the first difference would lead back to where it started
                    subst h
                    have := Component.before_trans hab hbc
                    simp [Component.before_irrefl] at this
                  · exact Component.before_trans hab hbc

theorem componentsLe_total (as bs : List Component) :
    (componentsLe as bs || componentsLe bs as) = true := by
  induction as generalizing bs with
  | nil => rfl
  | cons a as ih =>
      cases bs with
      | nil => rfl
      | cons b bs =>
          rw [componentsLe, componentsLe]
          by_cases h : a = b
          · simpa [h] using ih bs
          · simpa [h, Ne.symm h] using Component.before_or_before h

theorem componentsLe_antisymm {as bs : List Component} (hab : componentsLe as bs = true)
    (hba : componentsLe bs as = true) : as = bs := by
  induction as generalizing bs with
  | nil =>
      cases bs with
      | nil => rfl
      | cons => simp [componentsLe] at hba
  | cons a as ih =>
      cases bs with
      | nil => simp [componentsLe] at hab
      | cons b bs =>
          rw [componentsLe] at hab hba
          by_cases h : a = b
          · rw [if_pos h] at hab
            rw [if_pos h.symm] at hba
            rw [h, ih hab hba]
          · rw [if_neg h] at hab
            rw [if_neg (Ne.symm h)] at hba
            have := Component.before_trans hab hba
            simp [Component.before_irrefl] at this

/-! ### Extensions -/

theorem dot_not_mem_of_extensionOf? {name extension : List Char}
    (h : extensionOf? name = some extension) : '.' ∉ extension := by
  by_cases hdot : '.' ∈ name.reverse
  · obtain ⟨before, after, heq, hbefore⟩ := List.eq_append_cons_of_mem hdot
    rw [extensionOf?, heq, cutFirst?_append hbefore] at h
    cases after with
    | nil => cases h
    | cons c after =>
        cases h
        simpa using hbefore
  · rw [extensionOf?, cutFirst?_eq_none_iff.2 hdot] at h
    cases h

end HeaderAccord.Path
