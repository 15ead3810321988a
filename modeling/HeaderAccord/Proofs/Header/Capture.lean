import HeaderAccord.Proofs.Header.Merge
import HeaderAccord.Proofs.Header.Structure
import HeaderAccord.Proofs.Name

/-!
What the names in an index are worth. Every field has a type and a declared name, and every pointer
parameter has a declared name. The key of a name is empty only if there is nothing but underscores
in the name; such a name is taken up all the same, and all such names have one key.
-/

namespace HeaderAccord

open Text

namespace Header

/-! ### Fields and parameters -/

/-- The field has a type and a name, and a key unless the name is made of underscores. -/
structure StructField.IsCaptured (f : StructField) : Prop where
  typed : f.typeText ≠ ""
  declared : f.declaredName ≠ ""
  keyed : f.name = Name.key f.declaredName
  key_empty : f.name = "" ↔ ∀ c ∈ f.declaredName.toList, c = '_'

/-- The parameter has a star and this name, and a key unless the name is made of underscores. -/
structure PointerArg.IsCaptured (a : PointerArg) (declared : List Char) : Prop where
  starred : '*' ∈ a.cParam.toList
  declared_eq : declaredName? a.cParam.toList = some declared
  declared_ne : declared ≠ []
  keyed : a.name = String.ofList (Name.keyChars declared)
  key_empty : a.name = "" ↔ ∀ c ∈ declared, c = '_'

theorem ofList_ne_empty {cs : List Char} (h : cs ≠ []) : String.ofList cs ≠ "" := by
  intro heq
  apply h
  rw [← String.toList_ofList (l := cs), heq]
  rfl

/-- A text of words has a character, since its first word has one. -/
theorem intercalate_words_ne_nil {types : List (List Char)} (h : ∀ t ∈ types, IsWord t)
    (hne : types ≠ []) (stars : List Char) : [' '].intercalate types ++ stars ≠ [] := by
  obtain ⟨t, rest, rfl⟩ := List.exists_cons_of_ne_nil hne
  intro heq
  apply (h t List.mem_cons_self).1
  have hempty : [' '].intercalate (t :: rest) = [] := (List.append_eq_nil_iff.1 heq).1
  cases rest with
  | nil => simpa using hempty
  | cons u rest =>
      rw [List.intercalate_cons_cons] at hempty
      simp at hempty

theorem isCaptured_of_fieldOf? {statement : List Char} {f : StructField}
    (h : fieldOf? statement = some f) : f.IsCaptured := by
  rw [fieldOf?] at h
  split at h
  · cases h
  · next last hlast =>
    dsimp only at h
    generalize htypes : (words statement).dropLast.filter (· ≠ constKeyword) = types at h
    generalize beforeFirst '[' (strip '*' last) = declared at h
    split at h
    · cases h
    · next hkept =>
      obtain ⟨hdeclared, hsome⟩ : declared ≠ [] ∧ types ≠ [] := by
        simpa using hkept
      have hwords : ∀ t ∈ types, IsWord t := by
        intro t ht
        rw [← htypes] at ht
        exact isWord_of_mem_words (List.dropLast_subset _ (List.mem_filter.1 ht).1)
      cases h
      exact {
        typed := ofList_ne_empty (intercalate_words_ne_nil hwords hsome _)
        declared := ofList_ne_empty hdeclared
        keyed := by rw [Name.key, String.toList_ofList]
        key_empty := by rw [String.toList_ofList, Name.ofList_keyChars_eq_empty_iff] }

theorem exists_isCaptured_of_pointerArgOf? {param : List Char} {a : PointerArg}
    (h : pointerArgOf? param = some a) : ∃ declared, a.IsCaptured declared := by
  rw [pointerArgOf?] at h
  split at h
  · next hstar =>
    obtain ⟨declared, hdeclared, rfl⟩ := Option.map_eq_some_iff.1 h
    refine ⟨declared, ?_, ?_, ?_, rfl, Name.ofList_keyChars_eq_empty_iff⟩
    · rwa [String.toList_ofList]
    · rwa [String.toList_ofList]
    · rw [declaredName?] at hdeclared
      split at hdeclared
      · cases hdeclared
      · dsimp only at hdeclared
        split at hdeclared
        · cases hdeclared
        · next hne =>
          cases hdeclared
          simpa using hne
  · cases h

/-! ### What a header adds -/

theorem exists_isCaptured_of_mem_functionsIn {marker code : List Char} {fn : FunctionSignature}
    (h : fn ∈ functionsIn marker code) :
    ∀ a ∈ fn.pointerArgs, ∃ declared, a.IsCaptured declared := by
  obtain ⟨declaration, -, hsignature⟩ := List.mem_filterMap.1 h
  rw [signatureOf?] at hsignature
  split at hsignature
  · cases hsignature
  · obtain ⟨name, -, rfl⟩ := Option.map_eq_some_iff.1 hsignature
    intro a ha
    obtain ⟨param, -, harg⟩ := List.mem_filterMap.1 ha
    exact exists_isCaptured_of_pointerArgOf? harg

theorem isCaptured_of_structureItem? {item rest : List Char} {s : StructureLayout}
    (h : structureItem? item = some (some s, rest)) : ∀ f ∈ s.fields, f.IsCaptured := by
  have hbody {body : List Char} : ∀ f ∈ fieldsIn body, f.IsCaptured := by
    intro f hf
    obtain ⟨statement, -, hfield⟩ := List.mem_filterMap.1 hf
    exact isCaptured_of_fieldOf? hfield
  rw [structureItem?] at h
  split at h
  · cases h
  · split at h
    · obtain ⟨_, -, heq⟩ := Option.map_eq_some_iff.1 h
      cases heq
    · split at h
      · cases h
      · split at h
        · cases h
        · split at h
          · cases h
          · split at h <;> cases h
            exact hbody

/-- Structure after structure, by the run of the reader. -/
theorem isCaptured_of_mem_structuresIn {code : List Char} {s : StructureLayout}
    (h : s ∈ structuresIn code) : ∀ f ∈ s.fields, f.IsCaptured := by
  fun_induction structuresIn code with
  | case1 code hcut => cases h
  | case2 code before item hcut hitem => cases h
  | case3 code before item hcut layout rest hitem ih =>
      rcases List.mem_append.1 h with hhere | hlater
      · cases layout with
        | none => cases hhere
        | some layout =>
            obtain rfl : s = layout := by simpa using hhere
            exact isCaptured_of_structureItem? hitem
      · exact ih hlater

end Header

/-! ### Headers one after the other -/

namespace HeaderIndex

open Header

/-- Whatever stands in the index was taken up from a name and, for a field, from a type. -/
structure Captures (index : HeaderIndex) : Prop where
  args : ∀ fn ∈ index.functions, ∀ a ∈ fn.pointerArgs, ∃ declared, a.IsCaptured declared
  fields : ∀ entry ∈ index.structures.entries, ∀ f ∈ entry.2.fields, f.IsCaptured

theorem eq_or_mem_of_mem_declare {f g : FunctionSignature} {known : List FunctionSignature}
    (h : g ∈ declare f known) : g = f ∨ g ∈ known := by
  induction known with
  | nil => exact .inl (List.mem_singleton.1 h)
  | cons k known ih =>
      rw [declare] at h
      split at h
      · rcases List.mem_cons.1 h with heq | hmem
        · exact .inl heq
        · exact .inr (List.mem_cons_of_mem k hmem)
      · rcases List.mem_cons.1 h with rfl | hmem
        · exact .inr List.mem_cons_self
        · exact (ih hmem).imp_right (List.mem_cons_of_mem k)

/-- A declaration puts in nothing but itself. -/
theorem captures_declare {index : HeaderIndex} (h : index.Captures) {fn : FunctionSignature}
    (hfn : ∀ a ∈ fn.pointerArgs, ∃ declared, a.IsCaptured declared) :
    Captures { index with functions := declare fn index.functions } where
  args g hg := by
    rcases eq_or_mem_of_mem_declare hg with rfl | hg
    · exact hfn
    · exact h.args g hg
  fields := h.fields

theorem captures_insert {index : HeaderIndex} (h : index.Captures) {s : StructureLayout}
    (hs : ∀ f ∈ s.fields, f.IsCaptured) :
    Captures { index with structures := index.structures.insert s.name s } where
  args := h.args
  fields entry hentry := by
    rcases mem_insertEntry hentry with rfl | hentry
    · exact hs
    · exact h.fields entry hentry

theorem captures_addFunctions {index : HeaderIndex} (h : index.Captures)
    {fs : List FunctionSignature}
    (hfs : ∀ fn ∈ fs, ∀ a ∈ fn.pointerArgs, ∃ declared, a.IsCaptured declared) :
    (index.addFunctions fs).Captures :=
  List.foldlRecOn fs (fun known f => declare f known)
    (motive := fun known => Captures { index with functions := known }) h
    fun _ hknown fn hfn => captures_declare hknown (hfs fn hfn)

theorem captures_addStructures {index : HeaderIndex} (h : index.Captures)
    {ss : List StructureLayout} (hss : ∀ s ∈ ss, ∀ f ∈ s.fields, f.IsCaptured) :
    (index.addStructures ss).Captures :=
  List.foldlRecOn (ss.map fun s : StructureLayout => (s.name, s)) (fun m e => m.insert e.1 e.2)
    (motive := fun known => Captures { index with structures := known }) h
    fun _ hknown e he => by
      obtain ⟨s, hs, rfl⟩ := List.mem_map.1 he
      exact captures_insert hknown (hss s hs)

theorem captures_addHeader {index : HeaderIndex} (h : index.Captures) (text marker : String) :
    (index.addHeader text marker).Captures := by
  rw [addHeader]
  apply captures_addStructures
  · apply captures_addFunctions h
    intro fn hfn
    exact exists_isCaptured_of_mem_functionsIn hfn
  · intro s hs
    exact isCaptured_of_mem_structuresIn hs

theorem captures_ofCalls (calls : List (String × String)) : (ofCalls calls).Captures :=
  List.foldlRecOn calls _ ⟨nofun, nofun⟩ fun _ h call _ => captures_addHeader h call.1 call.2

/-- Every field of a header has a type, every field and every pointer parameter a declared name,
and the key of the name is empty only if the name is made of underscores. -/
theorem ofText_captures (text marker : String) :
    (∀ name s, (ofText text marker).structure? name = some s → ∀ f ∈ s.fields, f.IsCaptured) ∧
      ∀ fn ∈ (ofText text marker).functions, ∀ a ∈ fn.pointerArgs,
        ∃ declared, a.IsCaptured declared := by
  have hcaptures : (ofText text marker).Captures := captures_ofCalls [(text, marker)]
  refine ⟨fun name s hs => ?_, hcaptures.args⟩
  exact hcaptures.fields _ (NameMap.find?_eq_some_iff.1 hs)

/-- A name of underscores is taken up without a key, for a field and for a parameter. -/
theorem ofText_underscores :
    ofText "typedef struct \x7b int _; \x7d S;\nAPI void f(int *__);" "API" =
      { functions := [⟨"f", [⟨"", "int *__"⟩]⟩]
        structures := .ofList [("S", ⟨"S", [⟨"", "_", "int"⟩]⟩)] } := by
  decide +kernel

end HeaderIndex

end HeaderAccord
