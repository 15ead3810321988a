import HeaderAccord.Path

/-!
The flags of the command line. A flag that is no switch has a value, which is the next word or
stands behind an equals sign in the same one; only the latter may start with a dash.
-/

namespace HeaderAccord.CommandLine

inductive Flag
  | config
  | header
  | exportMarker
  | sourceDir
  | buildScript
  | extension
  | strictCoverage
  | logJsonl
  deriving DecidableEq, Repr

namespace Flag

def word : Flag → String
  | config => "--config"
  | header => "--header"
  | exportMarker => "--export-marker"
  | sourceDir => "--source-dir"
  | buildScript => "--build-script"
  | extension => "--extension"
  | strictCoverage => "--strict-coverage"
  | logJsonl => "--log-jsonl"

/-- The flags that say what the headers are. -/
def ofHeaders : List Flag := [config, header, exportMarker]

def all : List Flag :=
  ofHeaders ++ [sourceDir, buildScript, extension, strictCoverage, logJsonl]

def isSwitch (f : Flag) : Bool := f = strictCoverage

def isRepeatable (f : Flag) : Bool := f = header

/-- The value is a path, which must not be empty. -/
def hasPath (f : Flag) : Bool := f ∈ [config, header, sourceDir, buildScript, logJsonl]

end Flag

/-- Why the words of a command line are no command. -/
inductive Refusal
  | help
  | usage
  deriving DecidableEq, Repr

/-- A flag as it is given; a switch has the empty value. -/
structure Given where
  flag : Flag
  value : String
  deriving DecidableEq, Repr

namespace Given

/-- A flag may only be given again if it is repeatable. -/
def fits (given : List Given) (g : Given) : Bool :=
  (g.flag.isRepeatable || !given.any (·.flag = g.flag)) && !(g.flag.hasPath && g.value.isEmpty)

def add (given : List Given) (g : Given) : Except Refusal (List Given) :=
  if fits given g then .ok (given ++ [g]) else .error .usage

def value? (given : List Given) (f : Flag) : Option String :=
  (given.find? (·.flag = f)).map (·.value)

def path? (given : List Given) (f : Flag) : Option Path := (value? given f).map (⟨·⟩)

def values (given : List Given) (f : Flag) : List String :=
  (given.filter (·.flag = f)).map (·.value)

end Given

/-- What a word is where a flag may stand. -/
inductive Word
  | flag (f : Flag)
  | valued (f : Flag) (value : String)
  | help
  | endOfFlags
  | unknown
  deriving DecidableEq, Repr

/-- A word that starts with a dash is no value of a flag before it, unless it is only a dash. -/
def isDashed (word : String) : Bool := word.toList.head? = some '-' && word != "-"

def flag? (known : List Flag) (word : String) : Option Flag := known.find? (·.word = word)

def Word.of (known : List Flag) (word : String) : Word :=
  if word = "--" then endOfFlags
  else if word = "--help" || "-h".toList.isPrefixOf word.toList then help
  else
    match Text.cutFirst? '=' word.toList with
    | none => ((flag? known word).map flag).getD unknown
    | some (name, value) =>
      match flag? known (String.ofList name) with
      | some f => if f.isSwitch then unknown else valued f (String.ofList value)
      | none => unknown

/-- Reads words, of which `waiting` is a flag that still needs its value. -/
def readFlags (known : List Flag) :
    (given : List Given) → (waiting : Option Flag) → List String → Except Refusal (List Given)
  | given, none, [] => .ok given
  | _, some _, [] => .error .usage
  | given, some f, word :: rest => do
    if isDashed word then throw .usage
    readFlags known (← Given.add given ⟨f, word⟩) none rest
  | given, none, word :: rest =>
    match Word.of known word with
    | .flag f => do
      if f.isSwitch then readFlags known (← Given.add given ⟨f, ""⟩) none rest
      else readFlags known given (some f) rest
    | .valued f value => do readFlags known (← Given.add given ⟨f, value⟩) none rest
    | .help => .error .help
    | .endOfFlags => if rest.isEmpty then .ok given else .error .usage
    | .unknown => .error .usage

end HeaderAccord.CommandLine
