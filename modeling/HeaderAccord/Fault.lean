import HeaderAccord.Path

/-!
What can go wrong with a file or with a place that output goes to, and what of it keeps a run from a
verdict: an input that cannot be read, or a log that cannot be written.
-/

namespace HeaderAccord

inductive IoFault
  | notFound
  | alreadyExists
  | notADirectory
  | isADirectory
  | invalidUtf8
  | other (message : String)
  deriving DecidableEq, Repr

namespace IoFault

def sinkFull : IoFault := other "sink full"

/-- The number, the kind and the words of a fault that the operating system reports. -/
def system? : IoFault → Option (Nat × String × String)
  | notFound => some (2, "NotFound", "No such file or directory")
  | alreadyExists => some (17, "AlreadyExists", "File exists")
  | notADirectory => some (20, "NotADirectory", "Not a directory")
  | isADirectory => some (21, "IsADirectory", "Is a directory")
  | _ => none

def invalidUtf8Message : String := "stream did not contain valid UTF-8"

def message (f : IoFault) : String :=
  match f.system? with
  | some (code, _, words) => words ++ " (os error " ++ toString code ++ ")"
  | none =>
    match f with
    | other message => message
    | _ => invalidUtf8Message

end IoFault

inductive CheckError
  | readInput (path : Path) (fault : IoFault)
  | readDir (path : Path) (fault : IoFault)
  | log (fault : IoFault)
  deriving DecidableEq, Repr

namespace CheckError

def message : CheckError → String
  | readInput path fault => "failed to read " ++ path.text ++ ": " ++ fault.message
  | readDir path fault => "failed to list " ++ path.text ++ ": " ++ fault.message
  | log fault => "run log: " ++ fault.message

end CheckError

end HeaderAccord
