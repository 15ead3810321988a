import HeaderAccord.Header.Index
import HeaderAccord.Proofs.NameMap

/-!
What the index of several headers holds. Each declaration is put in the place of the first one of
its name. So the functions have distinct names, in the order in which the names first occur, and
each name leads to its last declaration; the structures are a map from each name to its last layout.
-/

namespace HeaderAccord.HeaderIndex

open Header

/-! ### One declaration -/

theorem map_name_declare (f : FunctionSignature) (known : List FunctionSignature) :
    (declare f known).map (·.name) =
      if f.name ∈ known.map (·.name) then known.map (·.name)
      else known.map (·.name) ++ [f.name] := by
  induction known with
  | nil => rfl
  | cons g gs ih =>
      rw [declare]
      by_cases hname : g.name = f.name
      · simp [hname]
      · rw [if_neg hname, List.map_cons, ih]
        by_cases hmem : f.name ∈ gs.map (·.name)
        · have hmem' : f.name ∈ (g :: gs).map (·.name) := List.mem_cons_of_mem _ hmem
          rw [if_pos hmem, if_pos hmem', List.map_cons]
        · have hmem' : f.name ∉ (g :: gs).map (·.name) :=
            List.not_mem_cons_of_ne_of_not_mem (Ne.symm hname) hmem
          rw [if_neg hmem, if_neg hmem', List.map_cons, List.cons_append]

theorem find?_cons_name (f : FunctionSignature) (known : List FunctionSignature) (name : String) :
    (f :: known).find? (·.name == name) =
      if name = f.name then some f else known.find? (·.name == name) := by
  rw [List.find?_cons]
  by_cases hname : name = f.name
  · simp [hname]
  · rw [if_neg hname, beq_eq_false_iff_ne.2 (Ne.symm hname)]

theorem find?_declare (f : FunctionSignature) (known : List FunctionSignature) (name : String) :
    (declare f known).find? (·.name == name) =
      if name = f.name then some f else known.find? (·.name == name) := by
  induction known with
  | nil => exact find?_cons_name f [] name
  | cons g gs ih =>
      rw [declare]
      split
      · next heq =>
        rw [find?_cons_name, find?_cons_name, heq]
        split <;> rfl
      · next hne =>
        rw [find?_cons_name, ih, find?_cons_name]
        by_cases hname : name = g.name
        · rw [if_pos hname, if_pos hname, hname, if_neg hne]
        · rw [if_neg hname, if_neg hname]

/-! ### A run of declarations -/

def declareAll (known fs : List FunctionSignature) : List FunctionSignature :=
  fs.foldl (fun known f => declare f known) known

/-- No step makes two functions of one name. -/
theorem nodup_declareAll {known : List FunctionSignature} (h : (known.map (·.name)).Nodup)
    (fs : List FunctionSignature) : ((declareAll known fs).map (·.name)).Nodup := by
  induction fs generalizing known with
  | nil => exact h
  | cons f fs ih =>
      refine ih ?_
      rw [map_name_declare]
      split
      · exact h
      · next hnot =>
        refine List.nodup_append.2 ⟨h, by simp, fun name hname other hother => ?_⟩
        rw [List.mem_singleton.1 hother]
        exact fun heq => hnot (heq ▸ hname)

theorem removeAll_concat (names known : List String) (name : String) :
    names.removeAll (known ++ [name]) =
      (names.removeAll known).filter fun other => !other == name := by
  rw [List.removeAll, List.removeAll, List.filter_filter]
  refine List.filter_congr fun other _ => ?_
  simp [Bool.and_comm, Bool.beq_eq_decide_eq]

/-- The names that are new come behind the known ones, in the order of their first occurrence. -/
theorem map_name_declareAll (known fs : List FunctionSignature) :
    (declareAll known fs).map (·.name) =
      known.map (·.name) ++ ((fs.map (·.name)).removeAll (known.map (·.name))).eraseDups := by
  induction fs generalizing known with
  | nil => rw [List.map_nil, List.nil_removeAll, List.eraseDups_nil, List.append_nil]; rfl
  | cons f fs ih =>
      have hstep : declareAll known (f :: fs) = declareAll (declare f known) fs := rfl
      rw [hstep, ih, map_name_declare, List.map_cons]
      split
      · next hmem =>
        have hskip : (f.name :: fs.map (·.name)).removeAll (known.map (·.name)) =
            (fs.map (·.name)).removeAll (known.map (·.name)) :=
          List.filter_cons_of_neg (by simpa using hmem)
        rw [hskip]
      · next hnot =>
        have hkeep : (f.name :: fs.map (·.name)).removeAll (known.map (·.name)) =
            f.name :: (fs.map (·.name)).removeAll (known.map (·.name)) :=
          List.filter_cons_of_pos (by simpa using hnot)
        rw [hkeep, List.eraseDups_cons, removeAll_concat, List.append_assoc, List.singleton_append]

/-- A name leads to its last declaration. -/
theorem find?_declareAll (fs : List FunctionSignature) {name : String} {f : FunctionSignature} :
    (declareAll [] fs).find? (·.name == name) = some f ↔
      IsLast (fs.map fun f => (f.name, f)) name f := by
  have hfold := @foldl_eq_some_iff _ _ _ (fun f : FunctionSignature => (f.name, f))
    (fun known f => declare f known) (fun known name => known.find? (·.name == name))
    (fun known f name => find?_declare f known name) [] fs name f
  simpa [declareAll] using hfold

/-- Functions of distinct names are found by their names. -/
theorem find?_name_eq_some_iff {known : List FunctionSignature} (h : (known.map (·.name)).Nodup)
    {name : String} {f : FunctionSignature} :
    known.find? (·.name == name) = some f ↔ f ∈ known ∧ f.name = name := by
  induction known with
  | nil => simp
  | cons g gs ih =>
      obtain ⟨hhead, htail⟩ := List.nodup_cons.1 h
      rw [find?_cons_name, List.mem_cons]
      by_cases hname : name = g.name
      · have hnot : ¬(f ∈ gs ∧ f.name = name) := fun ⟨hmem, heq⟩ =>
          hhead (List.mem_map.2 ⟨f, hmem, heq.trans hname⟩)
        rw [if_pos hname, or_and_right, or_iff_left hnot, Option.some.injEq, eq_comm]
        exact (and_iff_left_of_imp fun heq => heq ▸ hname.symm).symm
      · have hne : ¬(f = g ∧ f.name = name) := fun ⟨heq, hf⟩ => hname (heq ▸ hf.symm)
        rw [if_neg hname, ih htail, or_and_right, or_iff_right hne]

/-! ### Several headers -/

/-- The index of header texts, each with an export marker of its own, added in order. -/
def ofCalls (calls : List (String × String)) : HeaderIndex :=
  calls.foldl (fun index call => index.addHeader call.1 call.2) empty

/-- All functions that the headers declare, in order, repeated ones included. -/
def declaredFunctions (calls : List (String × String)) : List FunctionSignature :=
  calls.flatMap fun call => extractFunctions (stripComments call.1) call.2

/-- All structures that the headers declare, in order, repeated ones included. -/
def declaredStructures (calls : List (String × String)) : List StructureLayout :=
  calls.flatMap fun call => extractStructures (stripComments call.1)

theorem addFunctions_append (fs gs : List FunctionSignature) (index : HeaderIndex) :
    index.addFunctions (fs ++ gs) = (index.addFunctions fs).addFunctions gs := by
  simp only [addFunctions, List.foldl_append]

theorem addStructures_append (ss ts : List StructureLayout) (index : HeaderIndex) :
    index.addStructures (ss ++ ts) = (index.addStructures ss).addStructures ts := by
  simp only [addStructures, NameMap.insertAll, List.map_append, List.foldl_append]

/-- Functions and structures do not mind each other. -/
theorem addFunctions_addStructures (index : HeaderIndex) (ss : List StructureLayout)
    (fs : List FunctionSignature) :
    (index.addStructures ss).addFunctions fs = (index.addFunctions fs).addStructures ss := rfl

theorem addHeader_eq (index : HeaderIndex) (text marker : String) :
    index.addHeader text marker =
      (index.addFunctions (extractFunctions (stripComments text) marker)).addStructures
        (extractStructures (stripComments text)) := by
  have hcode : (stripComments text).toList = withoutComments text.toList := String.toList_ofList
  rw [extractFunctions, extractStructures, hcode]
  rfl

/-- Headers added in order put in their declarations in order. -/
theorem foldl_addHeader (calls : List (String × String)) (index : HeaderIndex) :
    calls.foldl (fun index call => index.addHeader call.1 call.2) index =
      (index.addFunctions (declaredFunctions calls)).addStructures (declaredStructures calls) := by
  induction calls generalizing index with
  | nil => rfl
  | cons call calls ih =>
      have hfunctions : declaredFunctions (call :: calls) =
          extractFunctions (stripComments call.1) call.2 ++ declaredFunctions calls := rfl
      have hstructures : declaredStructures (call :: calls) =
          extractStructures (stripComments call.1) ++ declaredStructures calls := rfl
      rw [List.foldl_cons, ih, addHeader_eq, hfunctions, hstructures, addFunctions_append,
        addStructures_append, addFunctions_addStructures]

/-- An index holds what these functions and structures come to, declared one after the other. -/
structure Merges (index : HeaderIndex) (fs : List FunctionSignature) (ss : List StructureLayout) :
    Prop where
  functions_distinct : (index.functions.map (·.name)).Nodup
  functions_order : index.functions.map (·.name) = (fs.map (·.name)).eraseDups
  functions_last : ∀ f ∈ index.functions, IsLast (fs.map fun f => (f.name, f)) f.name f
  function_some : ∀ name f, index.function? name = some f ↔ f ∈ index.functions ∧ f.name = name
  function_none : ∀ name, index.function? name = none ↔ name ∉ fs.map (·.name)
  structures_names : ∀ name, name ∈ index.structures.names ↔ name ∈ ss.map (·.name)
  structures_keyed : ∀ entry ∈ index.structures.entries, entry.2.name = entry.1
  structures_last : ∀ entry ∈ index.structures.entries,
    IsLast (ss.map fun s => (s.name, s)) entry.1 entry.2
  structure_some : ∀ name s, index.structure? name = some s ↔ (name, s) ∈ index.structures.entries
  structure_none : ∀ name, index.structure? name = none ↔ name ∉ ss.map (·.name)

/-- The index of any headers has each function and each structure once, the functions in the order
of their first declarations, and leads from each name to its last declaration. -/
theorem ofCalls_merges (calls : List (String × String)) :
    Merges (ofCalls calls) (declaredFunctions calls) (declaredStructures calls) := by
  have hindex := foldl_addHeader calls empty
  generalize declaredFunctions calls = fs at hindex ⊢
  generalize declaredStructures calls = ss at hindex ⊢
  have hfunctions : (ofCalls calls).functions = declareAll [] fs := congrArg functions hindex
  have hstructures : (ofCalls calls).structures = NameMap.ofList (ss.map fun s => (s.name, s)) :=
    congrArg structures hindex
  have hdistinct : ((ofCalls calls).functions.map (·.name)).Nodup := by
    rw [hfunctions]
    exact @nodup_declareAll [] List.nodup_nil fs
  have horder : (ofCalls calls).functions.map (·.name) = (fs.map (·.name)).eraseDups := by
    rw [hfunctions, map_name_declareAll, List.map_nil, List.removeAll_nil, List.nil_append]
  have hsome (name f) : (ofCalls calls).function? name = some f ↔
      f ∈ (ofCalls calls).functions ∧ f.name = name := find?_name_eq_some_iff hdistinct
  have hlayout (name s) : (name, s) ∈ (ofCalls calls).structures.entries ↔
      IsLast (ss.map fun s => (s.name, s)) name s := by
    rw [← NameMap.find?_eq_some_iff, hstructures, NameMap.find?_ofList]
  have hnames (name) : name ∈ (ofCalls calls).structures.names ↔ name ∈ ss.map (·.name) := by
    rw [hstructures, NameMap.mem_names_ofList, List.map_map]
    rfl
  exact {
    functions_distinct := hdistinct
    functions_order := horder
    functions_last := fun f hf => by
      have hfound := (hsome f.name f).2 ⟨hf, rfl⟩
      rw [function?, hfunctions] at hfound
      exact (find?_declareAll fs).1 hfound
    function_some := hsome
    function_none := fun name => by
      rw [← List.mem_eraseDups, ← horder, Option.eq_none_iff_forall_ne_some, List.mem_map]
      exact ⟨fun h ⟨f, hf⟩ => h f ((hsome name f).2 hf),
        fun h f hf => h ⟨f, (hsome name f).1 hf⟩⟩
    structures_names := hnames
    structures_keyed := fun entry hentry => by
      obtain ⟨before, after, heq, -⟩ := (hlayout entry.1 entry.2).1 hentry
      have hmem : entry ∈ ss.map fun s => (s.name, s) := by simp [heq]
      obtain ⟨s, -, rfl⟩ := List.mem_map.1 hmem
      rfl
    structures_last := fun entry hentry => (hlayout entry.1 entry.2).1 hentry
    structure_some := fun name s => NameMap.find?_eq_some_iff
    structure_none := fun name => by
      rw [structure?, NameMap.find?_eq_none_iff, hnames] }

/-! The second header has a marker of its own and declares the first function again. -/

example : (ofCalls [("API void f(int *p);\nAPI void g(int *q);", "API"),
      ("SDK void f(int *r, /* s */ int *t);", "SDK")]).functions.map
        (fun f => (f.name, f.pointerArgs.map (·.name))) =
    [("f", ["r", "t"]), ("g", ["q"])] := by
  decide +kernel

end HeaderAccord.HeaderIndex
