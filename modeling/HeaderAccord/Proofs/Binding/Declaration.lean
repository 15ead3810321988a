import HeaderAccord.Proofs.Binding.Mention
import HeaderAccord.Proofs.Binding.Parameter
import HeaderAccord.Proofs.Binding.Record
import HeaderAccord.Proofs.NameMap

/-!
The verdict on a declared function. The scanners meet here: a declaration `fn name<..>(..)` that
stands anywhere in a source is found by its name, its parameter list is found behind the generic
list, and the parameters are read back as they were written. What is left to say is which of them
fail.
-/

namespace HeaderAccord.Binding

open Header Text HeaderAccord.Bracket

/-- A declaration `fn name<generics>(parameters)`, with blanks between its tokens. -/
structure Declaration where
  gap : List Char
  name : List Char
  nameGap : List Char
  /-- the generic list and the blanks after it -/
  generics : List Char
  parameters : List WrittenParameter
  /-- what follows a comma at the end of the list -/
  trailing : Option (List Char)
  gap_blank : AllBlank gap ∧ gap ≠ []
  name_spelled : IsIdentifier name
  nameGap_blank : AllBlank nameGap
  generics_written : IsGenerics generics
  trailing_blank : ∀ g ∈ trailing, AllBlank g

namespace Declaration

def rest (d : Declaration) (after : List Char) : List Char :=
  d.nameGap ++ (d.generics ++ '(' :: (listText d.parameters d.trailing ++ ')' :: after))

/-- A text with the declaration between `before` and `after`. -/
def within (d : Declaration) (before after : List Char) : List Char :=
  before ++ ("fn".toList ++ d.gap) ++ (d.name ++ d.rest after)

/-- Where its name starts, in a text with the declaration after `before`. -/
def start (d : Declaration) (before : List Char) : Nat :=
  (before ++ ("fn".toList ++ d.gap)).length

def written (d : Declaration) : List Parameter := d.parameters.map (·.parameter)

theorem opens (d : Declaration) (after : List Char) :
    Opens (d.rest after) (listText d.parameters d.trailing) :=
  ⟨d.nameGap, d.generics, after, rfl, d.nameGap_blank, d.generics_written,
    encloses_listText d.trailing_blank⟩

/-- The name of a declaration is an identifier of the text around it. -/
theorem isIdentifierAt (d : Declaration) (before after : List Char) :
    IsIdentifierAt (before ++ ("fn".toList ++ d.gap)) d.name (d.rest after) where
  spelled := d.name_spelled
  starts := by
    -- the last character before the name is one of the blanks after `fn`
    obtain ⟨hblank, hne⟩ := d.gap_blank
    rw [← List.dropLast_concat_getLast hne, ← List.append_assoc, ← List.append_assoc]
    exact endsOutside_append_of_not_part _
      (isIdentifierPart_of_isBlank (hblank _ (List.getLast_mem hne)))
  ends c hc := by
    rw [rest] at hc
    cases hgap : d.nameGap with
    | cons b gap =>
        have hb : b = c := by simpa [hgap] using hc
        exact isIdentifierPart_of_isBlank (d.nameGap_blank c (by simp [hgap, hb]))
    | nil =>
        have hgen := d.generics_written
        rw [hgap, List.nil_append] at hc
        cases h : d.generics with
        | nil =>
            have hparen : '(' = c := by simpa [h] using hc
            subst hparen
            decide
        | cons g gs =>
            rw [h] at hgen hc
            have hg : g = c := by simpa using hc
            cases hgen
            subst hg
            decide

end Declaration

/-- No identifier that starts in the first `bound` characters of a source and has the key `key`
opens a parameter list. -/
def NoneOpensBefore (source : List Char) (key : List Char) (bound : Nat) : Prop :=
  ∀ before name after params, source = before ++ (name ++ after) →
    IsIdentifierAt before name after → before.length < bound → Name.keyChars name = key →
      ¬Opens after params

/-- It is enough to look at the mentions that are read before an identifier that starts there. -/
theorem noneOpensBefore_of_mentions {source before name after key : List Char}
    (hsource : source = before ++ (name ++ after)) (hat : IsIdentifierAt before name after)
    (h : ∀ m ∈ mentions source, m.key = String.ofList key → after.length < m.rest.length →
      parameterText? m.rest = none) :
    NoneOpensBefore source key before.length := by
  intro before' name' after' params htext hat' hlt hkey hopens
  obtain ⟨earlier, hmentions, -⟩ := mentions_eq hat'
  have hmem : mentionOf name' after' ∈ mentions source := by
    rw [htext, hmentions]
    simp
  have hafter : after.length < after'.length := by
    have hend := hat'.end_le_start hat (htext ▸ hsource) hlt
    have hlength := congrArg List.length (htext ▸ hsource)
    have hname := List.length_pos_iff.2 hat.spelled.2.1
    simp only [List.length_append] at hend hlength
    omega
  have hnone := h _ hmem (congrArg String.ofList hkey) hafter
  have hsome : parameterText? after' = some params := parameterText?_eq_some_iff.2 hopens
  rw [show (mentionOf name' after').rest = after' from rfl, hsome] at hnone
  simp at hnone

/-- The first identifier with a key that opens a parameter list decides which list is checked. -/
theorem boundParameters?_of_opens {before name after params : List Char}
    (hat : IsIdentifierAt before name after) (hopens : Opens after params)
    (hfirst : NoneOpensBefore (before ++ (name ++ after)) (Name.keyChars name) before.length) :
    boundParameters? (String.ofList (Name.keyChars name)) (mentions (before ++ (name ++ after))) =
      some params := by
  obtain ⟨earlier, hmentions, hearlier⟩ := mentions_eq hat
  have hnone : earlier.findSome? (fun m =>
      if m.key = String.ofList (Name.keyChars name) then parameterText? m.rest else none) =
        none := by
    rw [List.findSome?_eq_none_iff]
    intro m hm
    split
    · next hkey =>
      obtain ⟨before', name', after', htext, hat', hlt, rfl⟩ := hearlier m hm
      have hkey' : Name.keyChars name' = Name.keyChars name := String.ofList_injective hkey
      cases hlist : parameterText? after' with
      | none => exact hlist
      | some params' =>
          exact absurd (parameterText?_eq_some_iff.1 hlist)
            (hfirst before' name' after' params' htext hat' hlt hkey')
    · rfl
  rw [boundParameters?, hmentions, List.findSome?_append, hnone]
  simp [mentionOf, parameterText?_eq_some_iff.2 hopens]

/-! ### What fails

A parameter is recorded when its key is that of one of the function's pointer parameters. -/

/-- The type does not start as one that stands for a reference or pointer. -/
def IsValueType (type : String) : Prop :=
  ∀ start ∈ ["&", "*", "Option<&", "Option<*", "Option<NonNull<", "NonNull<"],
    ¬start.toList <+: type.toList

instance (type : String) : Decidable (IsValueType type) :=
  inferInstanceAs (Decidable (∀ start ∈ _, _))

theorem isReference_eq_false_iff {type : String} : isReference type = false ↔ IsValueType type := by
  rw [isReference, List.any_eq_false]
  simp [IsValueType, referenceStarts]

def marks (f : FunctionSignature) (ps : List Parameter) : List CheckFailure :=
  (ps.filter fun p => (f.pointerArgs.any (·.name == p.name)) && !isReference p.type).map
    (argumentFailure f.name)

theorem flatMap_parameterFailures (f : FunctionSignature) (ps : List Parameter) :
    ps.flatMap (parameterFailures f) = marks f ps := by
  have hrecorded (p : Parameter) :
      (f.pointerArg? p.name).isSome = f.pointerArgs.any (·.name == p.name) := by
    rw [FunctionSignature.pointerArg?, Bool.eq_iff_iff, List.find?_isSome, List.any_eq_true]
  induction ps with
  | nil => rfl
  | cons p ps ih =>
      rw [List.flatMap_cons, ih, parameterFailures, hrecorded]
      simp only [marks, List.filter_cons]
      split <;> simp

/-- The marks in full: each is put down to the arguments, and names the function, the parameter and
its type. -/
theorem marks_eq (f : FunctionSignature) (ps : List Parameter) :
    marks f ps =
      (ps.filter fun p => (∃ a ∈ f.pointerArgs, a.name = p.name) ∧ IsValueType p.type).map fun p =>
        { checker := .arguments
          message := "✖ " ++ f.name ++ ": " ++ p.name ++ ": " ++ p.type } := by
  refine congrArg (List.map _) (List.filter_congr fun p _ => ?_)
  rw [Bool.eq_iff_iff]
  simp [← isReference_eq_false_iff]

/-- A parameter that no pointer parameter is called after changes nothing. -/
theorem marks_append_of_not_recorded {f : FunctionSignature} {extra : List Parameter}
    (h : ∀ p ∈ extra, ∀ a ∈ f.pointerArgs, a.name ≠ p.name) (ps : List Parameter) :
    marks f (ps ++ extra) = marks f ps := by
  have hnone : extra.filter (fun p =>
      (f.pointerArgs.any (·.name == p.name)) && !isReference p.type) = [] := by
    rw [List.filter_eq_nil_iff]
    intro p hp
    have : f.pointerArgs.any (·.name == p.name) = false := by simpa using h p hp
    simp [this]
  simp [marks, List.filter_append, hnone]

theorem missingArgs_append_of_not_recorded {f : FunctionSignature} {extra : List Parameter}
    (h : ∀ p ∈ extra, ∀ a ∈ f.pointerArgs, a.name ≠ p.name) (ps : List Parameter) :
    missingArgs f (ps ++ extra) = missingArgs f ps := by
  refine List.filter_congr fun name hname => ?_
  obtain ⟨a, ha, rfl⟩ := List.mem_map.1 (mem_distinctNames.1 hname)
  have hextra : (extra.map (·.name)).contains a.name = false := by
    simpa using fun p hp => (h p hp a ha).symm
  simp only [List.map_append, List.contains_append, hextra, Bool.or_false]

theorem mem_missingArgs {f : FunctionSignature} {ps : List Parameter} {name : String} :
    name ∈ missingArgs f ps ↔
      (∃ a ∈ f.pointerArgs, a.name = name) ∧ ∀ p ∈ ps, p.name ≠ name := by
  rw [missingArgs, List.mem_filter, FunctionSignature.pointerArgNames, mem_distinctNames]
  simp

theorem pairwise_missingArgs (f : FunctionSignature) (ps : List Parameter) :
    (missingArgs f ps).Pairwise (· < ·) :=
  (pairwise_distinctNames _).filter _

/-- The verdict on a function, from the first declaration of its name: a mark of each pointer
parameter whose type is no reference or pointer, in the order of the declaration, and then one
failure that lists those that the declaration does not name, in the order of their names. The
functions before and after it are judged as if they stood alone. -/
theorem checkSource_declaration {m : Type → Type} [Monad m] [LawfulMonad m]
    (notify : Event → m Unit) {index : HeaderIndex} {fs gs : List FunctionSignature}
    {f : FunctionSignature} (hindex : index.functions = fs ++ f :: gs)
    (hargs : f.hasPointerArgs = true) (hnames : ∀ a ∈ f.pointerArgs, a.name ≠ "")
    {source : String} (d : Declaration) {before after : List Char}
    (hsource : source.toList = d.within before after)
    (hkey : Name.key (String.ofList d.name) = Name.key f.name)
    (hfirst : NoneOpensBefore source.toList (Name.keyChars d.name) (d.start before)) :
    ∃ missing : List String,
      missing.Pairwise (· < ·) ∧
      (∀ name, name ∈ missing ↔
        (∃ a ∈ f.pointerArgs, a.name = name) ∧ ∀ p ∈ d.written, p.name ≠ name) ∧
      checkSource notify index source = do
        (checkSource Traced.emit index source).events.forM notify
        return {
          bound := (scanOf fs source).bound ++ f.name :: (scanOf gs source).bound
          failures := (scanOf fs source).failures ++
            ((d.written.filter fun p =>
                (∃ a ∈ f.pointerArgs, a.name = p.name) ∧ IsValueType p.type).map (fun p =>
              { checker := .arguments
                message := "✖ " ++ f.name ++ ": " ++ p.name ++ ": " ++ p.type }) ++
            if missing = [] then []
            else
              [{ checker := .arguments
                 message := f.name ++ " has missing args: " ++
                   ("\x7b" ++ ", ".intercalate missing ++ "\x7d") }]) ++
            (scanOf gs source).failures } := by
  refine ⟨missingArgs f d.written, pairwise_missingArgs _ _, fun _ => mem_missingArgs, ?_⟩
  have hbound : boundParameters? (Name.key f.name) (mentions source.toList) =
      some (listText d.parameters d.trailing) := by
    rw [hsource] at hfirst ⊢
    rw [← hkey, Name.key, String.toList_ofList]
    exact boundParameters?_of_opens (d.isIdentifierAt before after) (d.opens after) hfirst
  -- a comma at the end of the list adds a parameter without a name, which nothing is called
  obtain ⟨extra, hlist, hextra⟩ : ∃ extra,
      parametersOf (listText d.parameters d.trailing) = d.written ++ extra ∧
        ∀ p ∈ extra, ∀ a ∈ f.pointerArgs, a.name ≠ p.name := by
    refine ⟨_, parametersOf_listText d.trailing_blank, fun p hp a ha => ?_⟩
    have hp' : p.name = "" := by
      split at hp
      · simp at hp
      · obtain ⟨_, -, rfl⟩ := List.mem_map.1 hp
        rfl
    exact hp' ▸ hnames a ha
  have hscan := scanOf_singleton_of_bound hargs hbound
  rw [hlist, flatMap_parameterFailures, marks_append_of_not_recorded hextra, marks_eq,
    missingFailures, missingArgs_append_of_not_recorded hextra, missingFailure, nameList] at hscan
  rw [Traced.checkSource_eq_replay, Traced.replay, result_checkSource, hindex,
    List.append_cons, scanOf_append, scanOf_append, hscan]
  simp

/-- `fn get_data<F: Fn(u8) -> u8>(mut buf: u8, len : &mut  u32 , )` -/
def getData : Declaration where
  gap := [' ']
  name := "get_data".toList
  nameGap := []
  generics := '<' :: ("F: Fn(u8) -> u8".toList ++ '>' :: [])
  parameters :=
    [{ lead := [], mutGap := some [' '], name := "buf".toList, gap := [], type := " u8".toList,
       lead_blank := by decide, mutGap_blank := by decide, name_spelled := by decide,
       gap_blank := by decide, type_nested := by decide },
     { lead := [' '], mutGap := none, name := "len".toList, gap := [' '],
       type := " &mut  u32 ".toList,
       lead_blank := by decide, mutGap_blank := by decide, name_spelled := by decide,
       gap_blank := by decide, type_nested := by decide }]
  trailing := some [' ']
  gap_blank := by decide
  name_spelled := by decide
  nameGap_blank := by decide
  generics_written := by
    have hclosing : closing? '<' '>' 0 '<' "F: Fn(u8) -> u8>".toList =
        some ("F: Fn(u8) -> u8".toList, []) := by decide
    exact .list ((closing?_eq_some_iff (by decide)).1 hclosing).2 (by decide)
  trailing_blank := by decide

def getDataSignature : FunctionSignature where
  name := "GetData"
  pointerArgs := [⟨"buf", "char *buf"⟩, ⟨"len", "int *len"⟩, ⟨"out", "int *out"⟩]

/-- A mention of the name without a list after it does not stand in the way. -/
theorem checkSource_declaration_getData :
    checkSource Traced.emit { functions := [getDataSignature] }
        "use get_data; fn get_data<F: Fn(u8) -> u8>(mut buf: u8, len : &mut  u32 , ) {}" = do
      (checkSource Traced.emit { functions := [getDataSignature] }
        "use get_data; fn get_data<F: Fn(u8) -> u8>(mut buf: u8, len : &mut  u32 , ) {}"
        ).events.forM Traced.emit
      return {
        bound := ["GetData"]
        failures :=
          [{ checker := .arguments, message := "✖ GetData: buf: u8" },
           { checker := .arguments, message := "GetData has missing args: \x7bout\x7d" }] } := by
  have hindex : HeaderIndex.functions { functions := [getDataSignature] } =
      [] ++ getDataSignature :: [] := rfl
  have hnames : ∀ a ∈ getDataSignature.pointerArgs, a.name ≠ "" := by decide
  have hsource :
      "use get_data; fn get_data<F: Fn(u8) -> u8>(mut buf: u8, len : &mut  u32 , ) {}".toList =
        getData.within "use get_data; ".toList " {}".toList := by decide +kernel
  have hfirst := noneOpensBefore_of_mentions hsource (getData.isIdentifierAt _ _)
    (show ∀ m ∈ mentions _, m.key = String.ofList (Name.keyChars getData.name) → _ by
      decide +kernel)
  obtain ⟨missing, hordered, hmissing, hcheck⟩ :=
    checkSource_declaration Traced.emit hindex rfl hnames getData hsource rfl hfirst
  have hout (name : String) : name ∈ missing ↔ name ∈ ["out"] := by
    have hwritten : getData.written =
        [{ name := "buf", type := "u8" }, { name := "len", type := "&mut u32" }] := by
      decide +kernel
    rw [hmissing, hwritten]
    simp only [getDataSignature, List.mem_cons, List.not_mem_nil, or_false, exists_eq_or_imp,
      exists_eq_left, forall_eq_or_imp, forall_eq]
    constructor
    · rintro ⟨hbuf | hlen | rfl, hneBuf, hneLen⟩
      · exact absurd hbuf hneBuf
      · exact absurd hlen hneLen
      · rfl
    · rintro rfl
      decide
  have hnodup : missing.Nodup := hordered.imp fun hlt => String.ne_of_lt hlt
  obtain rfl : missing = ["out"] :=
    List.perm_singleton.1 ((List.perm_ext_iff_of_nodup hnodup (by simp)).2 hout)
  have hmarked : (getData.written.filter fun p =>
      (∃ a ∈ getDataSignature.pointerArgs, a.name = p.name) ∧ IsValueType p.type) =
        [{ name := "buf", type := "u8" }] := by decide +kernel
  rw [hmarked] at hcheck
  exact hcheck

end HeaderAccord.Binding
