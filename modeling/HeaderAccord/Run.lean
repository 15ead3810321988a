import HeaderAccord.Binding.Sources
import HeaderAccord.Digest
import HeaderAccord.Override.Check
import HeaderAccord.Report
import HeaderAccord.RunLog
import HeaderAccord.Text.Cut

/-!
A run: the inputs are pinned, the headers indexed, the bindings and the build script checked, and
the failures of both gathered in a report.
-/

namespace HeaderAccord

/-- A run of checks, which logs what it does. -/
abbrev Running := ExceptT CheckError (StateM RunLog)

/-- A file as an artifact of some kind. -/
def Disk.artifact (d : Disk) (p : Path) (kind : String) : Except IoFault Artifact := do
  let content ← d.read p
  return { path := p.text, kind, sha256 := Digest.sha256 content
           sizeBytes := UInt64.ofNat content.size }

/-- The index of the headers in files, added in order. -/
def Disk.headerIndex (d : Disk) (paths : List Path) (marker : String) :
    Except CheckError HeaderIndex := do
  return HeaderIndex.ofTexts (← paths.mapM d.readInput) marker

/-- Checks the build script in a file, which messages call by the file's name. -/
def Override.checkScriptFile {m : Type → Type} [Monad m]
    (notify : Event → ExceptT CheckError m Unit) (d : Disk) (index : HeaderIndex)
    (script : Path) : ExceptT CheckError m (List CheckFailure) := do
  let code ← d.readInput script
  notify (.fileStarted script)
  checkScript notify index code (script.fileName?.getD script.text)

namespace Run

def logging {α : Type} (action : Logging α) : Running α := ExceptT.adapt CheckError.log action

def notify (e : Event) : Running Unit := logging (RunLog.notify e)

/-- Every input file with its digest; the build script is told from the headers by its path. -/
def artifacts (d : Disk) (config : Config) : Except CheckError (List Artifact) :=
  config.inputFiles.mapM fun path =>
    let kind := if path.same config.buildScript then "build_script" else "header"
    (d.artifact path kind).mapError (CheckError.readInput path)

def recordStart (config : Config) (artifacts : List Artifact) : Logging Unit := do
  RunLog.record
    { (← get).plainEntry .info "run_started" with
      artifacts := some artifacts
      details := RunLog.details
        [("source_dir", .string config.sourceDir.text),
         ("export_marker", .string config.exportMarker),
         ("strict_coverage", .bool config.strictCoverage)] }

def recordIndex (index : HeaderIndex) : Logging Unit := do
  RunLog.record
    { (← get).plainEntry .info "headers_indexed" with
      details := RunLog.details
        [("functions", Json.natural index.functions.length),
         ("functions_with_pointer_args",
          Json.natural (index.functions.filter (·.hasPointerArgs)).length),
         ("structures", Json.natural index.structures.size)] }

/-- Runs both checkers. The summary is not written. -/
def checks (d : Disk) (config : Config) : Running CheckReport := do
  let artifacts ← artifacts d config
  logging (recordStart config artifacts)
  let index ← d.headerIndex config.headers config.exportMarker
  logging (recordIndex index)
  logging (RunLog.setChecker .arguments)
  let arguments ← Binding.checkSources notify d index config.sourceDir config.argumentOptions
  logging (RunLog.setChecker .structures)
  let structures ← Override.checkScriptFile notify d index config.buildScript
  return CheckReport.aggregate arguments structures

/-- Writes the summary and records the verdict. -/
def finish (report : CheckReport) : Logging Unit := do
  for line in Text.lines report.summary.toList do
    RunLog.line (String.ofList line)
  RunLog.record
    { (← get).plainEntry (if report.passed then .info else .error) "run_finished" with
      exitCode := some (Int32.ofNat report.exitStatus)
      details := RunLog.details [("failures", report.failuresJson)] }

end Run

end HeaderAccord
