import HeaderAccord.CommandLine.Outcome
import HeaderAccord.Proofs.Header.Merge
import HeaderAccord.Proofs.Json.Pretty
import HeaderAccord.Proofs.Run.Inputs

/-!
The document of a header index reads back. Each record is read by what its fields were written
from, lists and the map of structures by what their elements were; so an index is found again in
every text that has its value, in the printed one as in the compact one.
-/

namespace HeaderAccord

open Json TreeReader

namespace Header

/-! ### Records -/

theorem reads_pointerArg : Reads PointerArg.read PointerArg.toJson := by
  intro t a h
  refine RecordForm.read_bind_of_denotes h (by simp) ?_ fun entries hentries => ?_
  · rintro _ (_ | ⟨_, _ | ⟨_, ⟨⟩⟩⟩)
    · exact RecordForm.accepts_field reads_text a.name rfl
    · exact RecordForm.accepts_field reads_text a.cParam rfl
  · rw [required_of_denotes reads_text hentries "name" rfl,
      required_of_denotes reads_text hentries "c_param" rfl]
    rfl

theorem reads_functionSignature : Reads FunctionSignature.read FunctionSignature.toJson := by
  intro t f h
  have hargs := reads_list reads_pointerArg
  refine RecordForm.read_bind_of_denotes h (by simp) ?_ fun entries hentries => ?_
  · rintro _ (_ | ⟨_, _ | ⟨_, ⟨⟩⟩⟩)
    · exact RecordForm.accepts_field reads_text f.name rfl
    · exact RecordForm.accepts_field hargs f.pointerArgs rfl
  · rw [required_of_denotes reads_text hentries "name" rfl,
      required_of_denotes hargs hentries "pointer_args" rfl]
    rfl

theorem reads_structField : Reads StructField.read StructField.toJson := by
  intro t f h
  refine RecordForm.read_bind_of_denotes h (by simp) ?_ fun entries hentries => ?_
  · rintro _ (_ | ⟨_, _ | ⟨_, _ | ⟨_, ⟨⟩⟩⟩⟩)
    · exact RecordForm.accepts_field reads_text f.name rfl
    · exact RecordForm.accepts_field reads_text f.declaredName rfl
    · exact RecordForm.accepts_field reads_text f.typeText rfl
  · rw [required_of_denotes reads_text hentries "name" rfl,
      required_of_denotes reads_text hentries "declared_name" rfl,
      required_of_denotes reads_text hentries "type_text" rfl]
    rfl

theorem reads_structureLayout : Reads StructureLayout.read StructureLayout.toJson := by
  intro t s h
  have hfields := reads_list reads_structField
  refine RecordForm.read_bind_of_denotes h (by simp) ?_ fun entries hentries => ?_
  · rintro _ (_ | ⟨_, _ | ⟨_, ⟨⟩⟩⟩)
    · exact RecordForm.accepts_field reads_text s.name rfl
    · exact RecordForm.accepts_field hfields s.fields rfl
  · rw [required_of_denotes reads_text hentries "name" rfl,
      required_of_denotes hfields hentries "fields" rfl]
    rfl

end Header

namespace HeaderIndex

open Header

theorem reads_headerIndex : Reads HeaderIndex.read HeaderIndex.toJson := by
  intro t index h
  have hfunctions := reads_list reads_functionSignature
  have hstructures := reads_nameMap reads_structureLayout
  refine RecordForm.read_bind_of_denotes h (by simp) ?_ fun entries hentries => ?_
  · rintro _ (_ | ⟨_, _ | ⟨_, ⟨⟩⟩⟩)
    · exact RecordForm.accepts_field hfunctions index.functions rfl
    · exact RecordForm.accepts_field hstructures index.structures rfl
  · rw [required_of_denotes hfunctions hentries "functions" rfl,
      required_of_denotes hstructures hentries "structures" rfl]
    rfl

/-! ### Texts of an index -/

/-- No number of an index is a double, since it has no numbers. -/
theorem isWhole_toJson (index : HeaderIndex) : index.toJson.isWhole = true := by
  have harg (a : PointerArg) : a.toJson.isWhole = true := by
    simp [PointerArg.toJson, isWhole, areWholeMembers]
  have hfunction (f : FunctionSignature) : f.toJson.isWhole = true := by
    simp [FunctionSignature.toJson, isWhole, areWholeMembers, areWhole_iff, harg]
  have hfield (f : StructField) : f.toJson.isWhole = true := by
    simp [StructField.toJson, isWhole, areWholeMembers]
  have hlayout (s : StructureLayout) : s.toJson.isWhole = true := by
    simp [StructureLayout.toJson, isWhole, areWholeMembers, areWhole_iff, hfield]
  have hstructures := isWhole_ofNameMap hlayout index.structures
  simp [toJson, isWhole, areWholeMembers, areWhole_iff, hfunction, hstructures]

/-- From the index down to the text of a name there are five containers. -/
theorem nesting_toJson_le (index : HeaderIndex) : index.toJson.nesting ≤ 5 := by
  have harg (a : PointerArg) : a.toJson.nesting ≤ 1 := by
    simp [PointerArg.toJson, nesting, nestingMembers]
  have hargs (f : FunctionSignature) : nestingItems (f.pointerArgs.map (·.toJson)) ≤ 1 := by
    simp [nestingItems_le_iff, harg]
  have hfunction (f : FunctionSignature) : f.toJson.nesting ≤ 3 := by
    have hf := hargs f
    simp only [FunctionSignature.toJson, nesting, nestingMembers]
    omega
  have hfield (f : StructField) : f.toJson.nesting ≤ 1 := by
    simp [StructField.toJson, nesting, nestingMembers]
  have hfields (s : StructureLayout) : nestingItems (s.fields.map (·.toJson)) ≤ 1 := by
    simp [nestingItems_le_iff, hfield]
  have hlayout (s : StructureLayout) : s.toJson.nesting ≤ 3 := by
    have hs := hfields s
    simp only [StructureLayout.toJson, nesting, nestingMembers]
    omega
  have hfunctions : nestingItems (index.functions.map (·.toJson)) ≤ 3 := by
    simp [nestingItems_le_iff, hfunction]
  have hstructures : (ofNameMap (·.toJson) index.structures).nesting ≤ 4 :=
    nesting_ofNameMap_le hlayout index.structures
  simp only [toJson, nesting, nestingMembers]
  omega

theorem ofJsonText_of_hasValue {text : String} {index : HeaderIndex}
    (h : HasValue text index.toJson) : ofJsonText text = .ok index :=
  run_of_hasValue reads_headerIndex h

theorem inspect_of_headerIndex {d : Disk} {inputs : CommandLine.Inputs} {config : Config}
    {index : HeaderIndex} (hload : inputs.load d = .ok config)
    (hindex : d.headerIndex config.headers config.exportMarker = .ok index) :
    CommandLine.inspect d inputs =
      { exitCode := 0, stdout := index.toJson.pretty ++ "\n", disk := d } := by
  rw [CommandLine.inspect, hload]
  simp only [hindex]

/-- The index of any headers reads back from its pretty text and from its compact text, and the
index that is shown for the headers on a disk from what is shown. -/
theorem ofJsonText_shown (calls : List (String × String)) :
    ofJsonText (ofCalls calls).toJson.pretty = .ok (ofCalls calls) ∧
      ofJsonText (ofCalls calls).toJson.compact = .ok (ofCalls calls) ∧
      ∀ (d : Disk) (inputs : CommandLine.Inputs) (config : Config) (texts : List String),
        inputs.load d = .ok config → config.headers.mapM d.readText = .ok texts →
        (CommandLine.inspect d inputs).exitCode = 0 ∧
          ofJsonText (CommandLine.inspect d inputs).stdout =
            .ok (ofTexts texts config.exportMarker) := by
  have hdepth (index : HeaderIndex) : index.toJson.nesting ≤ Tree.maxDepth :=
    Nat.le_trans (nesting_toJson_le index) (by decide)
  refine ⟨?_, ?_, fun d inputs config texts hload htexts => ?_⟩
  · exact ofJsonText_of_hasValue (hasValue_pretty (isWhole_toJson _) (hdepth _))
  · exact ofJsonText_of_hasValue (hasValue_compact (isWhole_toJson _) (hdepth _))
  · rw [inspect_of_headerIndex hload (Disk.headerIndex_of_texts htexts _)]
    exact ⟨rfl, ofJsonText_of_hasValue (hasValue_pretty_line (isWhole_toJson _) (hdepth _))⟩

/-- The name of the parameter holds a quote and a backslash. -/
theorem ofJsonText_shown_quoted :
    ofJsonText (CommandLine.inspect
        { root := .file "a.h" "API void f(int *\"\\);".toUTF8 .nil, cwd := [] }
        { overrides := { headers := [⟨"a.h"⟩], exportMarker := some "API" } }).stdout =
      .ok { functions := [⟨"f", [⟨"\"\\", "int *\"\\"⟩]⟩] } := by
  have hshown := ((ofJsonText_shown []).2.2
    { root := .file "a.h" "API void f(int *\"\\);".toUTF8 .nil, cwd := [] }
    { overrides := { headers := [⟨"a.h"⟩], exportMarker := some "API" } }
    { headers := [⟨"a.h"⟩], exportMarker := "API" } ["API void f(int *\"\\);"] rfl rfl).2
  rw [hshown]
  decide +kernel

end HeaderIndex

end HeaderAccord
