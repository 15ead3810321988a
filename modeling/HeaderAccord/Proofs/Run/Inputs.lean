import HeaderAccord.Proofs.Disk.Reading
import HeaderAccord.Proofs.Except
import HeaderAccord.Proofs.Run.Record

/-!
What a run makes of its inputs. Once the listing of the source folder, the texts of the source files
and the text of the build script are known, the records of the two checkers are put together from
the records of the single files.
-/

namespace HeaderAccord

open Disk Binding

/-! ### Texts -/

/-- The text of a file; for bytes that are no text, the empty one. -/
def Disk.textOf (content : ByteArray) : String := (String.fromUTF8? content).getD ""

theorem Disk.textOf_of_decode {content : ByteArray} {text : String}
    (h : Disk.decode content = .ok text) : Disk.textOf content = text := by
  rw [Disk.decode] at h
  rw [Disk.textOf]
  cases hbytes : String.fromUTF8? content <;> simp_all

theorem Disk.decode_of_isValidUTF8 {content : ByteArray} (h : content.IsValidUTF8) :
    Disk.decode content = .ok (Disk.textOf content) := by
  obtain ⟨text, htext⟩ := exists_decode_eq_ok_iff.2 h
  rw [htext, textOf_of_decode htext]

/-! ### The artifacts and the index -/

section

variable {d : Disk} {p : Path} {kind : String} {fault : IoFault}

theorem Disk.exists_artifact_eq_ok_iff : (∃ a, d.artifact p kind = .ok a) ↔ d.HasBytes p := by
  simp only [HasBytes, ← read_eq_ok_iff]
  rw [artifact]
  cases d.read p <;> simp [bind, Except.bind, pure, Except.pure]

theorem Disk.artifact_of_fault (h : d.read p = .error fault) :
    d.artifact p kind = .error fault := by
  rw [artifact, h]
  rfl

end

section

variable {d : Disk} {config : Config} {before after : List Path} {p : Path} {fault : IoFault}

theorem Run.exists_artifacts_eq_ok_iff :
    (∃ as, Run.artifacts d config = .ok as) ↔ ∀ p ∈ config.inputFiles, d.HasBytes p := by
  rw [Run.artifacts, exists_mapM_eq_ok_iff]
  simp only [mapError_eq_ok_iff, exists_artifact_eq_ok_iff]

theorem Run.artifacts_of_fault (hsplit : config.inputFiles = before ++ p :: after)
    (hbefore : ∀ q ∈ before, d.HasBytes q) (hfault : d.read p = .error fault) :
    Run.artifacts d config = .error (.readInput p fault) := by
  rw [Run.artifacts, hsplit]
  refine mapM_eq_error (fun q hq => ?_) ?_
  · simpa only [mapError_eq_ok_iff, exists_artifact_eq_ok_iff] using hbefore q hq
  · simp only [artifact_of_fault hfault, mapError_error]

theorem Disk.headerIndex_of_texts {paths : List Path} {texts : List String}
    (h : paths.mapM d.readText = .ok texts) (marker : String) :
    d.headerIndex paths marker = .ok (HeaderIndex.ofTexts texts marker) := by
  have hread : paths.mapM d.readInput = .ok texts := mapM_mapError_eq_ok_iff.2 h
  rw [Disk.headerIndex, hread]
  rfl

theorem Disk.headerIndex_of_fault (hbefore : ∀ q ∈ before, d.HasText q)
    (hfault : d.readText p = .error fault) (marker : String) :
    d.headerIndex (before ++ p :: after) marker = .error (.readInput p fault) := by
  have hread : (before ++ p :: after).mapM d.readInput = .error (.readInput p fault) := by
    refine mapM_eq_error (fun q hq => ?_) ?_
    · simpa only [Disk.readInput, mapError_eq_ok_iff] using
        exists_readText_eq_ok_iff.2 (hbefore q hq)
    · rw [Disk.readInput, hfault]
      rfl
  rw [Disk.headerIndex, hread]
  rfl

end

/-! ### The record of the source files -/

theorem run_checkFile_of_decode {index : HeaderIndex} {file : Path × ByteArray} {text : String}
    (h : Disk.decode file.2 = .ok text) :
    (checkFile Recorded.emit index file).run =
      { events := .fileStarted file.1 :: (checkSource Traced.emit index text).events
        result := .ok (scanOf index.functions text) } := by
  have hsource : checkSource Recorded.emit index text =
      Recorded.ofTraced (checkSource Traced.emit index text) :=
    (Recorded.ofTracedHom.map_checkSource Traced.emit index text).symm
  rw [checkFile, h]
  simp only [mapError_ok, liftM_ok, pure_bind, hsource]
  rw [Recorded.run_bind_of_ok (Recorded.run_emit _), Recorded.run_ofTraced]
  rfl

theorem run_checkFile_of_texts (index : HeaderIndex) {files : List (Path × ByteArray)}
    (htexts : ∀ f ∈ files, ∃ text, Disk.decode f.2 = .ok text) :
    ∀ f ∈ files, (checkFile Recorded.emit index f).run =
      { events := .fileStarted f.1 :: (checkSource Traced.emit index (Disk.textOf f.2)).events
        result := .ok (scanOf index.functions (Disk.textOf f.2)) } := by
  intro f hf
  obtain ⟨text, htext⟩ := htexts f hf
  rw [run_checkFile_of_decode htext, Disk.textOf_of_decode htext]

theorem run_checkFile_of_fault {index : HeaderIndex} {file : Path × ByteArray} {fault : IoFault}
    (h : Disk.decode file.2 = .error fault) :
    (checkFile Recorded.emit index file).run =
      { events := [], result := .error (.readInput file.1 fault) } := by
  rw [checkFile, h]
  rfl

theorem run_checkCoverage (index : HeaderIndex) (bound : List String) :
    (checkCoverage Recorded.emit index bound).run =
      { events := recordedEvents (coverageFailures index bound)
        result := .ok (coverageFailures index bound) } := by
  have hstep (failure : CheckFailure) :
      (do Recorded.emit (.failureRecorded failure.message); pure failure : Recorded _).run =
        { events := [.failureRecorded failure.message], result := .ok (id failure) } := rfl
  rw [checkCoverage, Recorded.run_mapM_of_ok fun failure _ => hstep failure, recordedEvents,
    List.map_id, List.map_eq_flatMap]

/-- What the check of source files with known texts records. -/
def filesRecord (index : HeaderIndex) (files : List (Path × String)) (strict : Bool) :
    Traced (List CheckFailure) :=
  let scans := files.map fun f => scanOf index.functions f.2
  let uncovered := if strict then coverageFailures index (scans.flatMap (·.bound)) else []
  { events :=
      (files.flatMap fun f => .fileStarted f.1 :: (checkSource Traced.emit index f.2).events) ++
        recordedEvents uncovered
    result := scans.flatMap (·.failures) ++ uncovered }

/-- The source files of a folder with their texts. -/
def sourceTexts (dir : Path) (entries : Listing) (extension : String) : List (Path × String) :=
  (sourceFiles dir entries extension).map fun f => (f.1, Disk.textOf f.2)

theorem run_checkSources_of_ok {d : Disk} (index : HeaderIndex) {dir : Path}
    {options : ArgumentOptions} {entries : Listing} (hlist : d.list dir = .ok entries)
    (htexts : ∀ f ∈ sourceFiles dir entries options.extension,
      ∃ text, Disk.decode f.2 = .ok text) :
    (checkSources Recorded.emit d index dir options).run =
      { events := (filesRecord index (sourceTexts dir entries options.extension)
          options.strictCoverage).events
        result := .ok (filesRecord index (sourceTexts dir entries options.extension)
          options.strictCoverage).result } := by
  have hmap := Recorded.run_mapM_of_ok (run_checkFile_of_texts index htexts)
  rw [checkSources, hlist]
  simp only [mapError_ok, liftM_ok, pure_bind]
  rw [Recorded.run_bind_of_ok hmap]
  cases options.strictCoverage with
  | false => simp [filesRecord, sourceTexts, recordedEvents, List.flatMap_map, Function.comp_def]
  | true =>
      simp [filesRecord, sourceTexts, run_checkCoverage, List.flatMap_map, Function.comp_def,
        Except.map]

theorem run_checkSources_of_unlisted {d : Disk} (index : HeaderIndex) {dir : Path}
    (options : ArgumentOptions) {fault : IoFault} (hlist : d.list dir = .error fault) :
    (checkSources Recorded.emit d index dir options).run =
      { events := [], result := .error (.readDir dir fault) } := by
  rw [checkSources, hlist]
  rfl

/-- The first source file that is no text ends the check; what is recorded are the events of the
files before it. -/
theorem run_checkSources_of_fault {d : Disk} (index : HeaderIndex) {dir : Path}
    {options : ArgumentOptions} {entries : Listing} (hlist : d.list dir = .ok entries)
    {before after : List (Path × ByteArray)} {file : Path × ByteArray} {fault : IoFault}
    (hfiles : sourceFiles dir entries options.extension = before ++ file :: after)
    (hbefore : ∀ f ∈ before, ∃ text, Disk.decode f.2 = .ok text)
    (hfault : Disk.decode file.2 = .error fault) :
    (checkSources Recorded.emit d index dir options).run =
      { events := before.flatMap fun f =>
          .fileStarted f.1 :: (checkSource Traced.emit index (Disk.textOf f.2)).events
        result := .error (.readInput file.1 fault) } := by
  rw [checkSources, hlist]
  simp only [mapError_ok, liftM_ok, pure_bind]
  rw [hfiles, Recorded.run_bind_of_error (Recorded.run_mapM_of_error
    (run_checkFile_of_texts index hbefore) (run_checkFile_of_fault hfault))]

/-- If the check of the source files comes to its end, they were all read. -/
theorem exists_sources_of_run_ok {d : Disk} {index : HeaderIndex} {dir : Path}
    {options : ArgumentOptions} {failures : List CheckFailure}
    (h : (checkSources Recorded.emit d index dir options).run.result = .ok failures) :
    ∃ entries, d.list dir = .ok entries ∧
      ∀ f ∈ sourceFiles dir entries options.extension, ∃ text, Disk.decode f.2 = .ok text := by
  cases hlist : d.list dir with
  | error fault =>
      rw [run_checkSources_of_unlisted index options hlist] at h
      cases h
  | ok entries =>
      refine ⟨entries, rfl, fun f hf => ?_⟩
      cases hdecode : Disk.decode f.2 with
      | ok text => exact ⟨text, rfl⟩
      | error fault =>
          rw [checkSources, hlist] at h
          simp only [mapError_ok, liftM_ok, pure_bind] at h
          -- a file that is no text stops the check, so the check of this one cannot have ended
          rcases hmap : ((sourceFiles dir entries options.extension).mapM
            (checkFile Recorded.emit index)).run with ⟨events, e | scans⟩
          · rw [Recorded.run_bind_of_error hmap] at h
            simp at h
          · obtain ⟨scan, hscan⟩ := Recorded.exists_ok_of_mapM (congrArg Traced.result hmap) f hf
            rw [run_checkFile_of_fault hdecode] at hscan
            simp at hscan

/-! ### The record of the build script -/

/-- What the check of a build script finds, whoever watches it. -/
def scriptRecord (index : HeaderIndex) (script : Path) (code : String) :
    Traced (List CheckFailure) :=
  let checked := Override.checkScript Traced.emit index code (script.fileName?.getD script.text)
  { events := .fileStarted script :: checked.events, result := checked.result }

theorem run_checkScriptFile_of_ok {d : Disk} (index : HeaderIndex) {script : Path} {code : String}
    (h : d.readText script = .ok code) :
    (Override.checkScriptFile Recorded.emit d index script).run =
      { events := (scriptRecord index script code).events
        result := .ok (scriptRecord index script code).result } := by
  have hscript (label : String) : Override.checkScript Recorded.emit index code label =
      Recorded.ofTraced (Override.checkScript Traced.emit index code label) :=
    (Recorded.ofTracedHom.map_checkScript Traced.emit index code label).symm
  have hread : d.readInput script = .ok code := mapError_eq_ok_iff.2 h
  rw [Override.checkScriptFile, hread]
  simp only [liftM_ok, pure_bind, hscript]
  rw [Recorded.run_bind_of_ok (Recorded.run_emit _), Recorded.run_ofTraced]
  rfl

theorem run_checkScriptFile_of_fault {d : Disk} (index : HeaderIndex) {script : Path}
    {fault : IoFault} (h : d.readText script = .error fault) :
    (Override.checkScriptFile Recorded.emit d index script).run =
      { events := [], result := .error (.readInput script fault) } := by
  have hread : d.readInput script = .error (.readInput script fault) := by
    rw [Disk.readInput, h]
    rfl
  rw [Override.checkScriptFile, hread]
  rfl

theorem exists_code_of_run_ok {d : Disk} {index : HeaderIndex} {script : Path}
    {failures : List CheckFailure}
    (h : (Override.checkScriptFile Recorded.emit d index script).run.result = .ok failures) :
    ∃ code, d.readText script = .ok code := by
  cases hread : d.readText script with
  | ok code => exact ⟨code, rfl⟩
  | error fault =>
      rw [run_checkScriptFile_of_fault index hread] at h
      cases h

end HeaderAccord
