import HeaderAccord.Disk.Listing
import HeaderAccord.Fault

/-!
A disk: the folder at its root, and the address of the working folder. A path is followed segment by
segment; a segment of any kind can only follow a folder.
-/

namespace HeaderAccord

open Disk

structure Disk where
  root : Listing
  cwd : List String

namespace Disk

def isFolderAt (root : Listing) (address : List String) : Bool :=
  match root.at? address with
  | some (.folder _) => true
  | _ => false

/-- Follows one segment of a path. The root is its own parent. -/
def follow (root : Listing) (address : List String) (segment : List Char) :
    Except IoFault (List String) :=
  if !isFolderAt root address then .error .notADirectory
  else if Path.isFiller segment then .ok address
  else if segment = Path.dotDot then .ok address.dropLast
  else
    let next := address ++ [String.ofList segment]
    if (root.at? next).isSome then .ok next else .error .notFound

/-- Where a path starts. -/
def start (d : Disk) (p : Path) : List String := if p.isAbsolute then [] else d.cwd

/-- The address that a path leads to. The empty path leads nowhere. -/
def locate (d : Disk) (p : Path) : Except IoFault (List String) :=
  if p.text = "" then .error .notFound
  else (Path.segments p.chars).foldlM (follow d.root) (d.start p)

def isFolder (d : Disk) (p : Path) : Bool :=
  match d.locate p with
  | .ok address => isFolderAt d.root address
  | .error _ => false

def read (d : Disk) (p : Path) : Except IoFault ByteArray := do
  match d.root.at? (← d.locate p) with
  | some (.file content) => return content
  | some (.folder _) => throw .isADirectory
  | none => throw .notFound

/-- The entries of a folder. -/
def list (d : Disk) (p : Path) : Except IoFault Listing := do
  match d.root.at? (← d.locate p) with
  | some (.folder entries) => return entries
  | some (.file _) => throw .notADirectory
  | none => throw .notFound

/-- The text of a file's bytes. -/
def decode (content : ByteArray) : Except IoFault String :=
  match String.fromUTF8? content with
  | some text => .ok text
  | none => .error .invalidUtf8

def readText (d : Disk) (p : Path) : Except IoFault String := do decode (← d.read p)

/-! ### Changes -/

/-- The folder that a path names something in: its address, and the last segment. -/
def locateLast (d : Disk) (p : Path) : Except IoFault (List String × List Char) := do
  let segments := Path.segments p.chars
  let named := (segments.reverse.dropWhile (·.isEmpty)).reverse
  let address ← named.dropLast.foldlM (follow d.root) (d.start p)
  if !isFolderAt d.root address then throw .notADirectory
  return (address, named.getLastD [])

def makeFolder (d : Disk) (p : Path) : Except IoFault Disk :=
  match d.locate p with
  | .ok _ => .error .alreadyExists
  | .error _ => do
    let (address, last) ← d.locateLast p
    if (d.root.at? (address ++ [String.ofList last])).isSome then throw .alreadyExists
    if Path.isFiller last || last = Path.dotDot then throw .notFound
    return { d with root := d.root.modifyAt (·.putFolder (String.ofList last)) address }

/-- Makes the first of a list of folders, each of which lies in the next one, and for that the
others that are missing. -/
def makeFoldersUp (d : Disk) : List Path → Except IoFault Disk
  | [] => .ok d
  | p :: above =>
    if p.components.isEmpty || p.parent?.isNone then .ok d
    else
      let orFolder (d : Disk) (f : IoFault) : Except IoFault Disk :=
        if d.isFolder p then .ok d else .error f
      match d.makeFolder p with
      | .ok made => .ok made
      | .error .notFound => do
        let d ← d.makeFoldersUp above
        match d.makeFolder p with
        | .ok made => return made
        | .error f => orFolder d f
      | .error f => orFolder d f

/-- Makes a folder and those it lies in, as far as they are missing. -/
def makeFolders (d : Disk) (p : Path) : Except IoFault Disk := d.makeFoldersUp p.ancestors

/-- Writes a file, which is made if it is missing. -/
def write (d : Disk) (p : Path) (content : ByteArray) : Except IoFault Disk := do
  if p.text = "" then throw .notFound
  let (address, last) ← d.locateLast p
  if p.chars.getLast? = some '/' then throw .isADirectory
  if Path.isFiller last || last = Path.dotDot then throw .isADirectory
  let name := String.ofList last
  if isFolderAt d.root (address ++ [name]) then throw .isADirectory
  return { d with root := d.root.modifyAt (·.putFile name content) address }

/-- The text of an input. -/
def readInput (d : Disk) (p : Path) : Except CheckError String :=
  (d.readText p).mapError (.readInput p)

end Disk

end HeaderAccord
