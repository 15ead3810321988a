import HeaderAccord.CommandLine.Flag
import HeaderAccord.Config

/-!
The commands. `check` runs the checks and may keep a journal; `inspect` shows the header index.
-/

namespace HeaderAccord.CommandLine

/-- Where the configuration of a command comes from. -/
structure Inputs where
  config : Option Path := none
  overrides : ConfigOverrides := {}

inductive Command
  | check (inputs : Inputs) (journal : Option Path)
  | inspect (inputs : Inputs)

namespace Inputs

def ofGiven (given : List Given) : Inputs :=
  { config := Given.path? given .config
    overrides :=
      { headers := (Given.values given .header).map (⟨·⟩)
        sourceDir := Given.path? given .sourceDir
        buildScript := Given.path? given .buildScript
        exportMarker := Given.value? given .exportMarker
        extension := Given.value? given .extension
        strictCoverage := (Given.value? given .strictCoverage).isSome } }

/-- The configuration, with the settings of the command line in place of its own. -/
def load (i : Inputs) (d : Disk) : Except ConfigError Config := do
  match i.config with
  | some path => return (← Config.ofFile d path).withOverrides i.overrides
  | none => return ({} : Config).withOverrides i.overrides

end Inputs

namespace Command

def names : List String := ["check", "inspect", "help"]

/-- What `help` is asked about: the program or one command. -/
def helpRefusal : (topics : List String) → Refusal
  | [] => .help
  | [name] => if names.contains name then .help else .usage
  | _ => .usage

/-- The command that the words of a command line stand for. -/
def ofWords : List String → Except Refusal Command
  | "check" :: rest => do
    let given ← readFlags Flag.all [] none rest
    return check (.ofGiven given) (Given.path? given .logJsonl)
  | "inspect" :: rest => do return inspect (.ofGiven (← readFlags Flag.ofHeaders [] none rest))
  | "help" :: topics => .error (helpRefusal topics)
  | word :: _ => .error (if Word.of [] word = .help then .help else .usage)
  | [] => .error .usage

def inputs : Command → Inputs
  | check inputs _ => inputs
  | inspect inputs => inputs

def journal? : Command → Option Path
  | check _ journal => journal
  | inspect _ => none

end Command

end HeaderAccord.CommandLine
