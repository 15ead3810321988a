import HeaderAccord.Proofs.Binding.Spelling
import HeaderAccord.Proofs.Override.Spelling

/-!
Names match by their spelling. The checks compare keys, and a key is canonical: it stands for all
spellings of an ASCII name and for nothing else. So a name of a source or of a build script is taken
for a name of the header just when it respells it, whichever convention either side follows.
-/

namespace HeaderAccord

open Binding Header Name Override

section

variable {m : Type → Type} [Monad m] [LawfulMonad m] (notify : Event → m Unit)

/-- The check of a source finds its header functions one by one. -/
theorem checkSource_eq_scans (index : HeaderIndex) (source : String) :
    checkSource notify index source = do
      (checkSource Traced.emit index source).events.forM notify
      return {
        bound := index.functions.flatMap fun f => (scanOf [f] source).bound
        failures := index.functions.flatMap fun f => (scanOf [f] source).failures } := by
  rw [Traced.checkSource_eq_replay, Traced.replay, result_checkSource, scanOf_eq_flatMap]

/-- The check of a script judges its blocks one by one. -/
theorem checkScript_eq_judgements (index : HeaderIndex) (script label : String) :
    checkScript notify index script label = do
      ((blocks script).map fun b => (judgement index label b).1).forM notify
      return (blocks script).flatMap fun b => (judgement index label b).2 := by
  rw [Traced.checkScript_eq_replay, Traced.replay, checkScript_emit]

/-- Keys are put together as names are, a key is its own key, and two ASCII names have one key just
when one respells the other, as all conventions do that join the same words. So the checks of a
source and of a script, which compare keys, match the names of the headers by their spelling. -/
theorem key_canonical (headers : List (String × String)) (source script label : String) :
    let index := HeaderIndex.ofCalls headers
    (∀ a b : String, key (a ++ b) = key a ++ key b) ∧
    (∀ a : String, key (key a) = key a) ∧
    (∀ a b : String, IsAscii a.toList → IsAscii b.toList →
      (key a = key b ↔ Respells a.toList b.toList)) ∧
    (∀ (k l : Convention) (words : List (List Char)), Respells (k.spell words) (l.spell words)) ∧
    (checkSource notify index source = do
      (checkSource Traced.emit index source).events.forM notify
      return {
        bound := index.functions.flatMap fun f => (scanOf [f] source).bound
        failures := index.functions.flatMap fun f => (scanOf [f] source).failures }) ∧
    (∀ f ∈ index.functions, f.hasPointerArgs = true → IsAscii f.name.toList →
      FoundBySpelling f source (scanOf [f] source)) ∧
    (checkScript notify index script label = do
      ((blocks script).map fun b => (judgement index label b).1).forM notify
      return (blocks script).flatMap fun b => (judgement index label b).2) ∧
    blocks script = (passages script).map (·.block) ∧
    ∀ p ∈ passages script, ∀ layout, index.structure? p.name = some layout →
      (∀ f ∈ layout.fields, IsAscii f.declaredName.toList) →
      (∀ e ∈ p.declared, IsAscii e.2.toList) →
        JudgedBySpelling label p layout (judgement index label p.block).1
          (judgement index label p.block).2 := by
  intro index
  have hcaptures : index.Captures := HeaderIndex.captures_ofCalls headers
  refine ⟨key_append, key_key, fun a b => key_eq_key_iff, respells_spell,
    checkSource_eq_scans notify index source, fun f hf hargs hname => ?_,
    checkScript_eq_judgements notify index script label, blocks_eq_map_passages script,
    fun p hp layout hlayout hfields hdeclared => ?_⟩
  · exact foundBySpelling_scanOf hargs hname (hcaptures.args f hf) source
  · have hcaptured := hcaptures.fields _ (NameMap.find?_eq_some_iff.1 hlayout)
    exact (judged_judgement index label p).bySpelling hlayout (spelled_fieldList hcaptured hfields)
      ⟨keyed_of_mem_passages hp, hdeclared⟩

end

/-! A header in camel case, with a source and a script that follow other conventions. -/

def bufferHeader : String :=
  "API void wgpuGetBuffer(char *outData, int *len);\n" ++
    "typedef struct \x7b int depthOrLayers; int width; \x7d Extent;"

def bufferSignature : FunctionSignature where
  name := "wgpuGetBuffer"
  pointerArgs := [⟨"outdata", "char *outData"⟩, ⟨"len", "int *len"⟩]

def bufferLayout : StructureLayout where
  name := "Extent"
  fields := [⟨"depthorlayers", "depthOrLayers", "int"⟩, ⟨"width", "width", "int"⟩]

def bufferPassage : Passage where
  name := "Extent"
  declared := [("depthorlayers", "depth_or_layers"), ("height", "height")]

theorem key_canonical_buffer :
    let source := "use wgpu_get_buffer;\nunsafe fn wgpu_get_buffer(OUT_DATA: u8) \x7b\x7d"
    let script := "pub struct Extent \x7b pub depth_or_layers: u32, pub height: u32 \x7d"
    let index := HeaderIndex.ofCalls [(bufferHeader, "API")]
    key "OUT_DATA" = key "outData" ∧
    bufferSignature ∈ index.functions ∧
    (scanOf [bufferSignature] source).bound = ["wgpuGetBuffer"] ∧
    (∃ missing : List String, "len" ∈ missing ∧ "outdata" ∉ missing ∧
      (scanOf [bufferSignature] source).failures =
        argumentFailure "wgpuGetBuffer" { name := "outdata", type := "u8" } ::
          if missing = [] then [] else [missingFailure "wgpuGetBuffer" missing]) ∧
    bufferPassage ∈ passages script ∧
    ∃ names, AreUnmatched ["depthOrLayers", "width"] ["depth_or_layers", "height"] names ∧
      (judgement index "build.rs" bufferPassage.block).2 =
        [mismatchFailure "build.rs" "Extent" names] := by
  intro source script index
  obtain ⟨-, -, hkey, -, -, hfound, -, -, hjudged⟩ :=
    key_canonical Traced.emit [(bufferHeader, "API")] source script "build.rs"
  have hf : bufferSignature ∈ index.functions := by decide +kernel
  have hascii : IsAscii bufferSignature.name.toList := by decide +kernel
  have hfirst : DeclaredFirst source.toList bufferSignature.name.toList "OUT_DATA: u8".toList :=
    (boundParameters?_eq_some_iff hascii).1 (by decide +kernel)
  have hspelled := hfound bufferSignature hf rfl hascii
  have hp : bufferPassage ∈ passages script := by decide +kernel
  have hlayout : index.structure? bufferPassage.name = some bufferLayout := by decide +kernel
  refine ⟨(hkey _ _ (by decide +kernel) (by decide +kernel)).2 (by decide +kernel), hf, ?_, ?_, hp,
    ?_⟩
  · obtain ⟨start, hdeclared, -⟩ := hfirst
    exact hspelled.bound_iff.2 ⟨start, _, hdeclared⟩
  · obtain ⟨missing, -, hmissing, hfailures⟩ :=
      hspelled.failures_eq _ hfirst (by decide +kernel) (by decide +kernel)
    refine ⟨missing, (hmissing "len").2 (by decide +kernel),
      mt (hmissing "outdata").1 (by decide +kernel), ?_⟩
    have hmarked : ((spelledParameters "OUT_DATA: u8".toList).filter fun p =>
        (∃ a ∈ bufferSignature.pointerArgs, a.IsCalled p.name.toList) ∧
          isReference p.type = false) = [{ name := "OUT_DATA", type := "u8" }] := by
      decide +kernel
    have hkeyed : ({ name := "OUT_DATA", type := "u8" } : Parameter).keyed =
        { name := "outdata", type := "u8" } := by decide +kernel
    rw [hfailures, hmarked, List.map_singleton, hkeyed]
    rfl
  · have hnot : ¬Match (bufferLayout.fields.map (·.declaredName))
        (bufferPassage.declared.map (·.2)) := fun h =>
      absurd (h.of_reference "width" (by decide)) (by decide +kernel)
    obtain ⟨names, hnames, -, hfailures⟩ :=
      (hjudged bufferPassage hp bufferLayout hlayout (by decide +kernel)
        (by decide +kernel)).mismatched hnot
    exact ⟨names, hnames, hfailures⟩

end HeaderAccord
