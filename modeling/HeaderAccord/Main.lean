import HeaderAccord.CommandLine.Outcome
import Std.Time.DateTime.Timestamp

/-!
The program. It loads what a command may look at from the real disk, carries the command out, and
hands over its output and the file of its journal.
-/

namespace HeaderAccord.Program

open CommandLine Disk

def usage : String :=
  "Usage: bindcheck check|inspect [--config FILE] [--header FILE]... [--export-marker WORD]\n" ++
    "  check also takes: [--source-dir DIR] [--build-script FILE] [--extension EXT]\n" ++
    "    [--strict-coverage] [--log-jsonl FILE]\n"

def addressText (address : List String) : String := "/" ++ "/".intercalate address

/-- The address that a path names when it is followed by its segments alone. -/
def addressOf (d : Disk) (p : Path) : List String :=
  (Path.segments p.chars).foldl (fun address segment =>
    if Path.isFiller segment then address
    else if segment = Path.dotDot then address.dropLast
    else address ++ [String.ofList segment]) (d.start p)

def isReal (address : List String) : IO Bool := do
  return (← (IO.FS.realPath (addressText address)).toBaseIO).toBool

def isRealFolder (address : List String) : IO Bool := do
  if ← isReal address then (← IO.FS.realPath (addressText address)).isDir else return false

/-- Loads a file, or a folder without what it holds. -/
def loadEntry (root : Listing) (address : List String) : IO Listing := do
  match address.getLast? with
  | none => return root
  | some name =>
    if (root.at? address).isSome || !(← isReal address) then return root
    let put (change : Listing → Listing) : Listing := root.modifyAt change address.dropLast
    if ← isRealFolder address then return put (·.putFolder name)
    return put (·.putFile name (← IO.FS.readBinFile (addressText address)))

/-- Loads the entries that an address leads through. -/
def loadWay (root : Listing) (address : List String) : IO Listing :=
  (List.range (address.length + 1)).foldlM (fun root n => loadEntry root (address.take n)) root

/-- Loads the files below a folder whose name passes the test. -/
partial def loadTree (keep : String → Bool) (root : Listing) (address : List String) :
    IO Listing := do
  if !(← isRealFolder address) then return root
  let entries ← (← IO.FS.realPath (addressText address)).readDir
  entries.foldlM (fun root entry => do
    let inner := address ++ [entry.fileName]
    if ← isRealFolder inner then loadTree keep (← loadEntry root inner) inner
    else if keep entry.fileName then loadEntry root inner
    else return root) root

def loadPath (d : Disk) (p : Path) : IO Disk := do
  return { d with root := ← loadWay d.root (addressOf d p) }

def loadSources (d : Disk) (config : Config) : IO Disk := do
  let keep (name : String) : Bool := (Path.mk name).extension? = some config.extension
  let d ← loadPath d config.sourceDir
  return { d with root := ← loadTree keep d.root (addressOf d config.sourceDir) }

/-- Loads what a command may look at. -/
def loadDisk (c : Command) (cwd : Path) : IO Disk := do
  let top : Disk := { root := .nil, cwd := [] }
  let d ← loadPath { top with cwd := addressOf top cwd } cwd
  let d ← c.inputs.config.toList.foldlM loadPath d
  match c.inputs.load d with
  | .error _ => return d
  | .ok config =>
    let d ← (config.inputFiles ++ c.journal?.toList).foldlM loadPath d
    match c with
    | .check _ _ => loadSources d config
    | .inspect _ => return d

/-- Writes the file of the journal, if the command has changed it. -/
def saveJournal (before after : Disk) (path : Path) : IO Unit := do
  match (before.read path).toOption.map (·.data), after.read path with
  | _, .error _ => return
  | old, .ok content =>
    if old == some content.data then return
    for parent in path.parent? do
      if !parent.text.isEmpty then IO.FS.createDirAll parent.text
    IO.FS.writeBinFile path.text content

def runCommand (c : Command) : IO UInt32 := do
  let d ← loadDisk c ⟨(← IO.currentDir).toString⟩
  let milliseconds := (← Std.Time.Timestamp.now).toMillisecondsSinceUnixEpoch.val.toNat
  let outcome := c.run d (Journal.timestamp milliseconds) (toString milliseconds)
  for path in c.journal? do saveJournal d outcome.disk path
  IO.print outcome.stdout
  for f in outcome.fatal do IO.eprint f.text
  return UInt32.ofNat outcome.exitCode

end HeaderAccord.Program

open HeaderAccord CommandLine Program

def main (args : List String) : IO UInt32 := do
  match Command.ofWords args with
  | .ok c => runCommand c
  | .error .help =>
    IO.print usage
    return 0
  | .error .usage =>
    IO.eprint usage
    return 2
