import HeaderAccord.Journal.Entry

/-!
Journals. A journal gives each entry without a trace id the next one of its run; an entry that has
its own keeps it and does not advance the count.
-/

namespace HeaderAccord

structure Journal where
  runId : String
  /-- how many trace ids have been given out; not a machine word, as no run gets to `2 ^ 64` -/
  issued : Nat := 0
  lines : Array String := #[]
  deriving DecidableEq

namespace Journal

/-- A number with at least three digits. -/
def paddedNumber (n : Nat) : String :=
  let digits := toString n
  String.ofList (List.replicate (3 - digits.length) '0') ++ digits

/-- The time stamp of a moment, from the milliseconds since the epoch. -/
def timestamp (milliseconds : Nat) : String :=
  toString (milliseconds / 1000) ++ "." ++ paddedNumber (milliseconds % 1000) ++ "Z"

def traceId (runId : String) (n : Nat) : String := runId ++ "::" ++ paddedNumber n

def emit (j : Journal) (e : LogEntry) : Journal :=
  if e.traceId.isEmpty then
    let issued := j.issued + 1
    { j with
      issued
      lines := j.lines.push { e with traceId := traceId j.runId issued }.line }
  else { j with lines := j.lines.push e.line }

/-- The text of a journal: each line ends in a line break. -/
def text (j : Journal) : String := String.join (j.lines.toList.map (· ++ "\n"))

end Journal

end HeaderAccord
