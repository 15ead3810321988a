import HeaderAccord.Proofs.Binding.Sources
import HeaderAccord.Proofs.Run.Course

/-!
What a whole run reports. If all inputs can be read, the report is put together from what the
checkers find in the single files, and only a log that cannot be written keeps the run from it. The
files are those of the tree, so the order in which folders list their entries does not show.
-/

namespace HeaderAccord.Run

open Disk Binding

/-- The step comes to `a` unless the console runs full. A console without limit stays so. -/
def Yields {α : Type} (x : Running α) (a : α) : Prop :=
  ∀ log : RunLog,
    ((x.run.run log).1 = .ok a ∨
      ∃ fault, (x.run.run log).1 = .error (.log fault) ∧ log.console.room ≠ none) ∧
    (log.console.room = none → (x.run.run log).2.console.room = none)

/-! ### Runs whose inputs can be read -/

/-- The inputs of a run on a disk can be read: the headers and the build script are texts, and so is
every file below the source folder that has the extension. -/
structure Readable (d : Disk) (config : Config) (headers : List String) (entries : Listing)
    (script : String) : Prop where
  tree : d.root.IsTree
  reads_headers : config.headers.mapM d.readText = .ok headers
  lists_sources : d.list config.sourceDir = .ok entries
  reads_sources : ∀ address content, entries.at? address = some (.file content) →
    (Listing.descend config.sourceDir address).extension? = some config.extension →
      ∃ text, Disk.decode content = .ok text
  reads_script : d.readText config.buildScript = .ok script

/-- The failures of the functions with pointer parameters that no file binds. -/
def uncovered (index : HeaderIndex) (files : List (Path × String)) : List CheckFailure :=
  ((index.functions.filter (·.hasPointerArgs)).filter fun f =>
    files.all fun file => !(scanOf index.functions file.2).bound.contains f.name).map
      fun f => { checker := .coverage, message := f.name ++ " is not bound in any source file" }

theorem coverageFailures_eq_uncovered (index : HeaderIndex) (files : List (Path × String)) :
    coverageFailures index ((files.map fun f => scanOf index.functions f.2).flatMap (·.bound)) =
      uncovered index files := by
  have hbound (name : String) :
      (!((files.map fun f => scanOf index.functions f.2).flatMap (·.bound)).contains name) =
        files.all fun file => !(scanOf index.functions file.2).bound.contains name := by
    induction files with
    | nil => rfl
    | cons file files ih =>
        simp only [List.map_cons, List.flatMap_cons, List.contains_append, Bool.not_or, ih,
          List.all_cons]
  rw [coverageFailures, uncovered]
  simp only [hbound, coverageFailure]

namespace Readable

variable {d : Disk} {config : Config} {headers : List String} {entries : Listing}
  {script : String}

theorem sourceDir_ne (h : Readable d config headers entries script) :
    config.sourceDir.text ≠ "" :=
  text_ne_of_list h.lists_sources

theorem isTree_entries (h : Readable d config headers entries script) : entries.IsTree :=
  isTree_of_list h.tree h.lists_sources

theorem sourceFiles_decode (h : Readable d config headers entries script) :
    ∀ f ∈ sourceFiles config.sourceDir entries config.extension,
      ∃ text, Disk.decode f.2 = .ok text := by
  intro f hf
  obtain ⟨address, hat, hpath, hext⟩ := (mem_sourceFiles h.isTree_entries).1 hf
  exact h.reads_sources address f.2 hat (hpath ▸ hext)

/-- The files are there with their texts, in strict order. -/
theorem mem_sourceTexts (h : Readable d config headers entries script) {path : Path}
    {text : String} :
    (path, text) ∈ sourceTexts config.sourceDir entries config.extension ↔
      ∃ address content, entries.at? address = some (.file content) ∧
        path = Listing.descend config.sourceDir address ∧
        path.extension? = some config.extension ∧ Disk.decode content = .ok text := by
  rw [sourceTexts, List.mem_map]
  constructor
  · rintro ⟨f, hf, heq⟩
    obtain ⟨address, hat, hpath, hext⟩ := (mem_sourceFiles h.isTree_entries).1 hf
    obtain ⟨text', htext⟩ := h.sourceFiles_decode f hf
    obtain ⟨rfl, rfl⟩ := Prod.mk.inj heq
    exact ⟨address, f.2, hat, hpath, hext, textOf_of_decode htext ▸ htext⟩
  · rintro ⟨address, content, hat, hpath, hext, htext⟩
    exact ⟨(path, content), (mem_sourceFiles h.isTree_entries).2 ⟨address, hat, hpath, hext⟩,
      by rw [textOf_of_decode htext]⟩

theorem pairwise_sourceTexts (h : Readable d config headers entries script) :
    (sourceTexts config.sourceDir entries config.extension).Pairwise fun a b =>
      a.1.le b.1 = true ∧ a.1.components ≠ b.1.components :=
  List.pairwise_map.2 (pairwise_sourceFiles h.sourceDir_ne h.isTree_entries)

/-- Another listing of the same tree can be read as well. -/
theorem of_sameTree (h : Readable d config headers entries script) {d' : Disk}
    (hsame : d.SameTree d') (htree : d'.root.IsTree) :
    ∃ entries', entries.SameTree entries' ∧ Readable d' config headers entries' script := by
  obtain ⟨entries', hlist, hentries⟩ := hsame.list h.lists_sources
  have hread : d'.readText = d.readText := funext fun p => (hsame.readText_eq p).symm
  exact ⟨entries', hentries,
    { tree := htree
      reads_headers := hread ▸ h.reads_headers
      lists_sources := hlist
      reads_sources := fun address content hat =>
        h.reads_sources address content (hentries.file_iff.2 hat)
      reads_script := hread ▸ h.reads_script }⟩

theorem hasText_inputFiles (h : Readable d config headers entries script) :
    ∀ p ∈ config.inputFiles, d.HasText p := by
  intro p hp
  refine exists_readText_eq_ok_iff.1 ?_
  rcases List.mem_append.1 hp with hp | hp
  · exact exists_mapM_eq_ok_iff.1 ⟨headers, h.reads_headers⟩ p hp
  · exact ⟨script, List.mem_singleton.1 hp ▸ h.reads_script⟩

end Readable

/-- The report of a run whose inputs can be read: the failures of the source files, and those of
the build script. -/
theorem yields_checks {d : Disk} {config : Config} {headers : List String} {entries : Listing}
    {script : String} (h : Readable d config headers entries script) :
    Yields (checks d config)
      (CheckReport.aggregate
        (filesRecord (HeaderIndex.ofTexts headers config.exportMarker)
          (sourceTexts config.sourceDir entries config.extension) config.strictCoverage).result
        (scriptRecord (HeaderIndex.ofTexts headers config.exportMarker) config.buildScript
          script).result) := by
  intro log
  have hbytes : ∀ p ∈ config.inputFiles, d.HasBytes p := fun p hp =>
    (h.hasText_inputFiles p hp).imp fun _ => And.left
  have hpinned := congrArg Traced.result (congrArg ExceptT.run
    (pinned_of_headers hbytes h.reads_headers))
  rw [Recorded.run_bind_of_ok (run_checkSources_of_ok _ h.lists_sources h.sourceFiles_decode),
    Recorded.run_bind_of_ok (run_checkScriptFile_of_ok _ h.reads_script)] at hpinned
  rcases hrun : (checks d config).run.run log with ⟨result, log'⟩
  obtain ⟨fault, rfl, hfull⟩ | ⟨entries, events, hcourse, hleaves⟩ := course_of_run hrun
  · exact ⟨.inr ⟨fault, rfl, hfull⟩, fun hnone => absurd hnone hfull⟩
  · rw [hcourse.run_pinned] at hpinned
    exact ⟨.inl hpinned, hleaves.room⟩

/-- Whatever the order in which folders list their entries and whether or not coverage is asked
for, a run whose inputs can be read reports the failures of every source file of the tree, in the
order of the paths, then the functions that none of them binds, if asked for, and then the failures
of the build script. Only a console that runs full can keep it from that. -/
theorem checks_of_readable {d : Disk} {config : Config} {headers : List String}
    {entries : Listing} {script : String} (h : Readable d config headers entries script) :
    ∃ files : List (Path × String),
      files.Pairwise (fun a b => a.1.le b.1 = true ∧ a.1.components ≠ b.1.components) ∧
      (∀ path text, (path, text) ∈ files ↔
        ∃ address content, entries.at? address = some (.file content) ∧
          path = Listing.descend config.sourceDir address ∧
          path.extension? = some config.extension ∧ Disk.decode content = .ok text) ∧
      ∀ d' : Disk, d.SameTree d' → d'.root.IsTree → ∀ (strict : Bool) (log : RunLog),
        let index := HeaderIndex.ofTexts headers config.exportMarker
        let result := ((checks d' { config with strictCoverage := strict }).run.run log).1
        result = .ok
            { failures := files.flatMap (fun file => (scanOf index.functions file.2).failures) ++
                (if strict then uncovered index files else []) ++
                (scriptRecord index config.buildScript script).result } ∨
          ∃ fault, result = .error (.log fault) ∧ log.console.room ≠ none := by
  refine ⟨sourceTexts config.sourceDir entries config.extension, h.pairwise_sourceTexts,
    fun path text => h.mem_sourceTexts, fun d' hsame htree strict log => ?_⟩
  -- the other listing has the same tree, and so the same files in the same order
  obtain ⟨entries', hentries, h'⟩ := h.of_sameTree hsame htree
  have hstrict : Readable d' { config with strictCoverage := strict } headers entries' script :=
    { h' with }
  have htexts : sourceTexts config.sourceDir entries' config.extension =
      sourceTexts config.sourceDir entries config.extension := by
    rw [sourceTexts, sourceTexts,
      sourceFiles_eq_of_sameTree h.sourceDir_ne h.isTree_entries h'.isTree_entries hentries]
  have hresult := (yields_checks hstrict log).1
  rw [show sourceTexts _ entries' _ = _ from htexts] at hresult
  intro index result
  rw [← coverageFailures_eq_uncovered]
  simpa [index, result, CheckReport.aggregate, filesRecord, List.flatMap_map] using hresult

/-! A source folder with two files, listed in two orders. -/

def twoFiles : Listing :=
  .folder "sub" (.file "b.rs" "fn g(p: u8)".toUTF8 .nil)
    (.file "a.rs" "fn f(p: u8)".toUTF8 .nil)

def twoFilesAgain : Listing :=
  .file "a.rs" "fn f(p: u8)".toUTF8
    (.folder "sub" (.file "b.rs" "fn g(p: u8)".toUTF8 .nil) .nil)

def threeFunctions : String := "API void f(int *p);\nAPI void g(int *p);\nAPI void h(int *p);"

def oneStruct : String := "pub struct S \x7b \x7d"

def diskWith (header script : String) (sources : Listing) : Disk where
  root := .file "a.h" header.toUTF8 (.file "build.rs" script.toUTF8 (.folder "src" sources .nil))
  cwd := []

def project (sources : Listing) : Disk := diskWith threeFunctions oneStruct sources

def oneHeader : Config := { headers := [⟨"a.h"⟩] }

/-- The configuration of the project, which asks for coverage. -/
def projectConfig : Config := { oneHeader with exportMarker := "API", strictCoverage := true }

theorem isTree_diskWith {sources : Listing} (h : sources.IsTree) (header script : String) :
    (diskWith header script sources).root.IsTree := by
  have houter : (diskWith header script .nil).root.IsTree := by
    simp only [diskWith, Listing.IsTree, Listing.names]
    decide
  obtain ⟨hheader, hfirst, hscript, hsecond, hsrc, hlast, -, hnil⟩ := houter
  exact ⟨hheader, hfirst, hscript, hsecond, hsrc, hlast, h, hnil⟩

theorem isTree_twoFiles : twoFiles.IsTree ∧ twoFilesAgain.IsTree := by
  simp only [twoFiles, twoFilesAgain, Listing.IsTree, Listing.names]
  decide

theorem readable_twoFiles :
    Readable (project twoFiles) projectConfig [threeFunctions] twoFiles oneStruct where
  tree := isTree_diskWith isTree_twoFiles.1 _ _
  reads_headers := rfl
  lists_sources := rfl
  reads_sources address content hat _ := by
    have hmem := (Listing.mem_addressed_iff isTree_twoFiles.1).2 hat
    simp only [twoFiles, Listing.addressed, List.map_cons, List.map_nil,
      List.cons_append, List.nil_append, List.mem_cons, Prod.mk.injEq, List.not_mem_nil,
      or_false] at hmem
    rcases hmem with ⟨-, rfl⟩ | ⟨-, rfl⟩
    · exact ⟨"fn g(p: u8)", rfl⟩
    · exact ⟨"fn f(p: u8)", rfl⟩
  reads_script := rfl

theorem sameTree_twoFiles : (project twoFiles).SameTree (project twoFilesAgain) where
  cwd := rfl
  root address := by
    have hsources : twoFiles.SameTree twoFilesAgain := by
      rintro (- | ⟨name, address⟩)
      · rfl
      · simp only [twoFiles, twoFilesAgain, Listing.file_at?_cons, Listing.folder_at?_cons]
        by_cases hsub : "sub" = name
        · subst hsub
          simp
        · simp [hsub]
    rcases address with - | ⟨name, address⟩
    · rfl
    · simp only [project, diskWith, Listing.file_at?_cons, Listing.folder_at?_cons,
        hsources address, apply_ite (Option.map Node.content?)]

/-- What the project is found to fail by. -/
def projectFailures : List CheckFailure :=
  [{ checker := .arguments, message := "✖ f: p: u8" },
   { checker := .arguments, message := "✖ g: p: u8" },
   { checker := .coverage, message := "h is not bound in any source file" },
   { checker := .structures, message := "✖ Unknown build.rs struct S" }]

/-- The line of the first of these failures in the journal, behind those of the start, the index, the
file and the function. -/
def firstFailureLine : String :=
  "\x7b\"timestamp\":\"\",\"trace_id\":\"run::005\",\"level\":\"error\"," ++
    "\"event\":\"argument_checked\",\"checker\":\"arguments\",\"file\":\"src/a.rs\"," ++
    "\"symbol\":\"f\",\"outcome\":\"fail\"," ++
    "\"details\":\x7b\"argument\":\"p\",\"type\":\"u8\"\x7d\x7d"

def projectLog : RunLog := { journal := some { runId := "run" } }

theorem sourceFiles_twoFiles : sourceFiles ⟨"src"⟩ twoFiles "rs" =
    [(⟨"src/a.rs"⟩, "fn f(p: u8)".toUTF8), (⟨"src/sub/b.rs"⟩, "fn g(p: u8)".toUTF8)] := by
  have hfound : Search.run "rs" { pending := [(⟨"src"⟩, twoFiles)] } =
      [(⟨"src/a.rs"⟩, "fn f(p: u8)".toUTF8), (⟨"src/sub/b.rs"⟩, "fn g(p: u8)".toUTF8)] := by
    decide +kernel
  rw [sourceFiles, hfound]
  exact List.mergeSort_of_pairwise (by decide +kernel)

theorem run_twoFiles :
    ∃ log, (checks (project twoFiles) projectConfig).run.run projectLog =
        (.ok { failures := projectFailures }, log) ∧
      log.journal.bind (·.lines[4]?) = some firstFailureLine := by
  have hlist : (project twoFiles).list projectConfig.sourceDir = .ok twoFiles := rfl
  have hfiles : sourceFiles projectConfig.sourceDir twoFiles
      projectConfig.argumentOptions.extension = _ := sourceFiles_twoFiles
  have houtcome : ((checks (project twoFiles) projectConfig).run.run projectLog).1.toOption =
        some { failures := projectFailures } ∧
      ((checks (project twoFiles) projectConfig).run.run projectLog).2.journal.bind (·.lines[4]?) =
        some firstFailureLine := by
    -- the sort does not compute, so the files are written out before the run is
    simp only [checks, checkSources, hlist, mapError_ok, liftM_ok, pure_bind, hfiles]
    decide +kernel
  rcases hrun : (checks (project twoFiles) projectConfig).run.run projectLog with ⟨_ | report, log⟩
  · rw [hrun] at houtcome
    cases houtcome.1
  · rw [hrun] at houtcome
    obtain ⟨hreport, hline⟩ := houtcome
    obtain rfl : report = { failures := projectFailures } := Option.some.inj hreport
    exact ⟨log, rfl, hline⟩

/-- Listed in either order, the folder gives the same report: the failures of the file `src/a.rs`
and then of `src/sub/b.rs`, the function that neither binds, and the struct of the script. -/
theorem checks_of_readable_twoFiles :
    ((checks (project twoFiles) projectConfig).run.run projectLog).1 =
        .ok { failures := projectFailures } ∧
      ((checks (project twoFilesAgain) projectConfig).run.run projectLog).1 =
        .ok { failures := projectFailures } := by
  have htree : (project twoFilesAgain).root.IsTree := isTree_diskWith isTree_twoFiles.2 _ _
  have hsame : { projectConfig with strictCoverage := true } = projectConfig := rfl
  obtain ⟨log, hreport, -⟩ := run_twoFiles
  obtain ⟨files, -, -, hrun⟩ := checks_of_readable readable_twoFiles
  obtain hlisted | ⟨_, _, hroom⟩ :=
    hrun (project twoFiles) ⟨rfl, fun _ => rfl⟩ readable_twoFiles.tree true projectLog
  · obtain hagain | ⟨_, _, hroom⟩ :=
      hrun (project twoFilesAgain) sameTree_twoFiles htree true projectLog
    · rw [hsame] at hlisted hagain
      rw [hagain, ← hlisted, hreport]
      exact ⟨rfl, rfl⟩
    · exact absurd rfl hroom
  · exact absurd rfl hroom

end HeaderAccord.Run
