import HeaderAccord.Journal.Entry
import HeaderAccord.Json.TreeReader

/-!
The report of a run: its failures in the order in which they were found, and the verdict.
-/

namespace HeaderAccord

open Json

def CheckFailure.toJson (f : CheckFailure) : Json :=
  .object [("checker", .string f.checker.name), ("message", .string f.message)]

def Checker.read : TreeReader Checker :=
  TreeReader.variant (Checker.all.map fun c => (c.name, c))

def CheckFailure.read : TreeReader CheckFailure := fun t => do
  let values ← TreeReader.RecordForm.read
    { name := "CheckFailure"
      fields := [field "checker" Checker.read, field "message" TreeReader.text] } t
  return { checker := ← values.required "checker" Checker.read
           message := ← values.required "message" TreeReader.text }

structure CheckReport where
  failures : List CheckFailure := []
  deriving DecidableEq, Repr

namespace CheckReport

/-- The failures of the bindings, then those of the structures. -/
def aggregate (arguments structures : List CheckFailure) : CheckReport :=
  { failures := arguments ++ structures }

def passed (r : CheckReport) : Bool := r.failures.isEmpty

def byChecker (r : CheckReport) (checker : Checker) : List CheckFailure :=
  r.failures.filter (·.checker = checker)

/-- Zero if there is no failure, otherwise one. -/
def exitStatus (r : CheckReport) : Nat := if r.passed then 0 else 1

def banner : String := "==================== Summary ===================="

def summaryLines (r : CheckReport) : List String :=
  if r.passed then [banner, "All checks passed."]
  else
    [banner, "There were " ++ toString r.failures.length ++ " failed checks:"] ++
      r.failures.map (·.message) ++ ["Failed"]

/-- The summary; each of its lines ends in a line break. -/
def summary (r : CheckReport) : String := String.join (r.summaryLines.map (· ++ "\n"))

def failuresJson (r : CheckReport) : Json := .array (r.failures.map (·.toJson))

def read : TreeReader CheckReport := fun t => do
  let failures := TreeReader.list CheckFailure.read
  let values ← TreeReader.RecordForm.read
    { name := "CheckReport", fields := [field "failures" failures] } t
  return { failures := ← values.required "failures" failures }

/-- The report written in a JSON text. -/
def ofJsonText (text : String) : Except ReadError CheckReport := read.run text

end CheckReport

end HeaderAccord
