import HeaderAccord.Binding.Check
import HeaderAccord.Config
import HeaderAccord.Disk.Basic

/-!
The check of all binding sources: every file below the source folder with the right extension, in
the order of the paths. A function is covered when any of them binds it.
-/

namespace HeaderAccord.Binding

open Header Disk

/-- How far the search for source files has come. -/
structure Search where
  /-- the folders that are still to be visited, the one put off last in front -/
  pending : List (Path × Listing) := []
  found : List (Path × ByteArray) := []

/-- Goes through the entries of a folder: a folder is put off, a file with the right extension is
found. -/
def Search.visit (extension : String) (dir : Path) : Listing → Search → Search
  | .nil, s => s
  | .file name content rest, s =>
    let path := dir.joinName name
    visit extension dir rest
      (if path.extension? = some extension then { s with found := s.found ++ [(path, content)] }
       else s)
  | .folder name entries rest, s =>
    visit extension dir rest { s with pending := (dir.joinName name, entries) :: s.pending }

/-- The folders that the search still has to visit, counted with those that they hold. -/
def Search.load (s : Search) : Nat :=
  s.pending.foldr (fun dir rest => dir.2.folderCount + 1 + rest) 0

theorem Search.load_visit (extension : String) (dir : Path) (entries : Listing) (s : Search) :
    (s.visit extension dir entries).load = s.load + entries.folderCount := by
  induction entries generalizing s with
  | nil => rfl
  | file name content rest ih =>
    rw [visit, ih, Listing.folderCount]
    split <;> rfl
  | folder name entries rest _ ih =>
    rw [visit, ih, Listing.folderCount]
    simp only [load, List.foldr_cons]
    omega

/-- Visits the pending folders until there are none. -/
def Search.run (extension : String) : Search → List (Path × ByteArray)
  | { pending := [], found } => found
  | { pending := (dir, entries) :: pending, found } =>
    run extension (visit extension dir entries { pending, found })
termination_by s => s.load
decreasing_by
  rw [load_visit]
  simp only [load, List.foldr_cons]
  omega

/-- The source files below a folder with what it holds, in the order of their paths. -/
def sourceFiles (dir : Path) (entries : Listing) (extension : String) :
    List (Path × ByteArray) :=
  (Search.run extension { pending := [(dir, entries)] }).mergeSort fun a b => a.1.le b.1

def coverageFailure (function : String) : CheckFailure :=
  { checker := .coverage, message := function ++ " is not bound in any source file" }

/-- The failures of the functions with pointer parameters that are not among the bound ones. -/
def coverageFailures (index : HeaderIndex) (bound : List String) : List CheckFailure :=
  ((index.functions.filter (·.hasPointerArgs)).filter fun f => !bound.contains f.name).map
    fun f => coverageFailure f.name

section

variable {m : Type → Type} [Monad m] (notify : Event → ExceptT CheckError m Unit)

def checkFile (index : HeaderIndex) (file : Path × ByteArray) :
    ExceptT CheckError m SourceScan := do
  let text ← (Disk.decode file.2).mapError (CheckError.readInput file.1)
  notify (.fileStarted file.1)
  checkSource notify index text

def checkCoverage (index : HeaderIndex) (bound : List String) :
    ExceptT CheckError m (List CheckFailure) :=
  (coverageFailures index bound).mapM fun failure => do
    notify (.failureRecorded failure.message)
    return failure

/-- Checks the source files on a disk. -/
def checkSources (d : Disk) (index : HeaderIndex) (dir : Path) (options : ArgumentOptions) :
    ExceptT CheckError m (List CheckFailure) := do
  let entries ← (d.list dir).mapError (CheckError.readDir dir)
  let scans ← (sourceFiles dir entries options.extension).mapM (checkFile notify index)
  let found := scans.flatMap (·.failures)
  if options.strictCoverage then
    return found ++ (← checkCoverage notify index (scans.flatMap (·.bound)))
  else return found

end

end HeaderAccord.Binding
