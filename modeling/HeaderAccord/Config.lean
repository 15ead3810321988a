import HeaderAccord.Disk.Basic
import HeaderAccord.Json.TreeReader

/-!
The configuration of a run. A JSON document may give any of the settings, the others have their
defaults; settings from the command line win. Relative paths of a document belong to its folder.
-/

namespace HeaderAccord

open Json

/-- Settings of the check of the bindings. -/
structure ArgumentOptions where
  /-- the extension of the source files, without the dot -/
  extension : String := "rs"
  /-- a header function that no source file binds is a failure -/
  strictCoverage : Bool := false
  deriving DecidableEq, Repr

structure Config where
  headers : List Path := [⟨"ffi/webgpu-headers/webgpu.h"⟩]
  sourceDir : Path := ⟨"src"⟩
  buildScript : Path := ⟨"build.rs"⟩
  exportMarker : String := "WGPU_EXPORT"
  extension : String := "rs"
  strictCoverage : Bool := false
  deriving DecidableEq, Repr

/-- Settings that replace those of a configuration; an empty list of headers replaces nothing. -/
structure ConfigOverrides where
  headers : List Path := []
  sourceDir : Option Path := none
  buildScript : Option Path := none
  exportMarker : Option String := none
  extension : Option String := none
  strictCoverage : Bool := false

inductive ConfigError
  | read (path : Path) (fault : IoFault)
  | parse (path : Path) (error : ReadError)

def ConfigError.message : ConfigError → String
  | read path fault => "failed to read config " ++ path.text ++ ": " ++ fault.message
  | parse path error => "invalid config " ++ path.text ++ ": " ++ error.message

namespace Config

def readPath : TreeReader Path := fun t => (TreeReader.textAs "path string" t).map (⟨·⟩)

def readPaths : TreeReader (List Path) := TreeReader.list readPath

def form : TreeReader.RecordForm :=
  { name := "CheckConfig"
    fields :=
      [field "headers" readPaths, field "source_dir" readPath, field "build_script" readPath,
       field "export_marker" TreeReader.text, field "extension" TreeReader.text,
       field "strict_coverage" TreeReader.bool]
    ignoresUnknown := false
    hasDefaults := true }

def read : TreeReader Config := fun t => do
  let values ← form.read t
  let default : Config := {}
  return { headers := ← values.optional "headers" default.headers readPaths
           sourceDir := ← values.optional "source_dir" default.sourceDir readPath
           buildScript := ← values.optional "build_script" default.buildScript readPath
           exportMarker := ← values.optional "export_marker" default.exportMarker TreeReader.text
           extension := ← values.optional "extension" default.extension TreeReader.text
           strictCoverage :=
             ← values.optional "strict_coverage" default.strictCoverage TreeReader.bool }

/-- The configuration written in a JSON text. -/
def ofJsonText (text : String) : Except ReadError Config := read.run text

/-- The configuration with its relative paths taken from `base` on. -/
def rebased (c : Config) (base : Path) : Config :=
  { c with
    headers := c.headers.map base.join
    sourceDir := base.join c.sourceDir
    buildScript := base.join c.buildScript }

/-- The configuration in a file, its paths taken from the file's folder on. -/
def ofFile (d : Disk) (path : Path) : Except ConfigError Config := do
  let text ← (d.readText path).mapError (.read path)
  let config ← (ofJsonText text).mapError (.parse path)
  return config.rebased (path.parent?.getD ⟨""⟩)

/-- An extension may be given with dots in front of it. -/
def bareExtension (extension : String) : String :=
  String.ofList (extension.toList.dropWhile (· = '.'))

def withOverrides (c : Config) (o : ConfigOverrides) : Config :=
  { headers := if o.headers.isEmpty then c.headers else o.headers
    sourceDir := o.sourceDir.getD c.sourceDir
    buildScript := o.buildScript.getD c.buildScript
    exportMarker := o.exportMarker.getD c.exportMarker
    extension := (o.extension.map bareExtension).getD c.extension
    strictCoverage := c.strictCoverage || o.strictCoverage }

def argumentOptions (c : Config) : ArgumentOptions :=
  { extension := c.extension, strictCoverage := c.strictCoverage }

/-- The files that a run reads by name: the headers, then the build script. -/
def inputFiles (c : Config) : List Path := c.headers ++ [c.buildScript]

/-- Two configurations whose paths have the same components. -/
def same (a b : Config) : Bool :=
  a.headers.map (·.components) = b.headers.map (·.components) &&
    a.sourceDir.same b.sourceDir && a.buildScript.same b.buildScript &&
    a.exportMarker = b.exportMarker && a.extension = b.extension &&
    a.strictCoverage = b.strictCoverage

end Config

end HeaderAccord
