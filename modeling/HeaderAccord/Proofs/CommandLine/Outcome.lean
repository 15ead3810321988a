import HeaderAccord.CommandLine.Outcome
import HeaderAccord.Proofs.Run.Logging

/-!
What a command makes of a run of the checks that comes to an error.
-/

namespace HeaderAccord.CommandLine

variable {d₀ d : Disk} {config : Config} {journal? : Option Path}

/-- The checks of a command begin on a disk on which the file of its journal has been made. -/
def Opens (d₀ : Disk) (journal? : Option Path) (d : Disk) : Prop :=
  match journal? with
  | none => d = d₀
  | some path => openJournal d₀ path = .ok d

theorem check_of_opens {inputs : Inputs} (hload : inputs.load d₀ = .ok config)
    (hopens : Opens d₀ journal? d) (now runName : String) :
    CommandLine.check d₀ inputs journal? now runName =
      checkOpen d config journal? now runName := by
  rw [CommandLine.check, hload]
  cases journal? with
  | none =>
      obtain rfl : d = d₀ := hopens
      rfl
  | some path =>
      rw [Opens] at hopens
      simp only [hopens]

/-- Whether or not the journal can be written, a run that comes to an error fails the command, and
what is on the console is all that it puts out. -/
theorem checkOpen_of_error {now runName : String} {log' : RunLog} {e : CheckError}
    (h : (Run.checks d config).run.run (startLog journal? now runName) = (.error e, log')) :
    (checkOpen d config journal? now runName).exitCode ≠ 0 ∧
      (checkOpen d config journal? now runName).stdout = log'.console.text := by
  have hrun : (runToEnd d config).run.run (startLog journal? now runName) =
      (.error (.check e), log') := by
    rw [runToEnd, run_bind, run_adapt, h]
    rfl
  rw [checkOpen, hrun]
  dsimp only
  cases closeJournals d journal? log'.journal <;> exact ⟨Nat.one_ne_zero, rfl⟩

end HeaderAccord.CommandLine
