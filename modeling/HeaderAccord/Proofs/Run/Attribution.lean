import HeaderAccord.Proofs.Run.Channels

/-!
To what the entries of failures are put down. The checker and the symbol of an entry are not taken
from the failure but from the context that the events before have led to. They are the right ones,
except where a function is found to be bound nowhere: no checker is announced for that.
-/

namespace HeaderAccord.Run

open Disk Binding

theorem checker_of_mem_failures_scanOf {fs : List Header.FunctionSignature} {source : String}
    {failure : CheckFailure} (h : failure ∈ (scanOf fs source).failures) :
    failure.checker = .arguments := by
  rw [failures_scanOf, List.mem_flatMap] at h
  obtain ⟨f, -, hmem⟩ := h
  cases hbound : boundParameters? (Name.key f.name) (mentions source.toList) with
  | none => simp [functionRecord_of_unbound hbound] at hmem
  | some text =>
      rw [functionRecord_of_bound hbound, checkParameters_emit] at hmem
      rcases List.mem_append.1 hmem with hmem | hmem
      · obtain ⟨p, -, hmem⟩ := List.mem_flatMap.1 hmem
        rw [parameterFailures] at hmem
        split at hmem
        · rw [List.mem_singleton.1 hmem]
          rfl
        · exact absurd hmem List.not_mem_nil
      · rw [missingFailures] at hmem
        split at hmem
        · exact absurd hmem List.not_mem_nil
        · rw [List.mem_singleton.1 hmem]
          rfl

theorem checker_of_mem_scriptRecord {index : HeaderIndex} {script : Path} {code : String}
    {failure : CheckFailure} (h : failure ∈ (scriptRecord index script code).result) :
    failure.checker = .structures := by
  simp only [scriptRecord, Override.checkScript, Traced.result_bind, Traced.result_pure,
    Traced.result_mapM, ← List.flatMap_def, List.mem_flatMap] at h
  obtain ⟨b, -, hmem⟩ := h
  rw [Override.checkBlock] at hmem
  cases hverdict : Override.verdict index (script.fileName?.getD script.text) b with
  | none => simp [hverdict] at hmem
  | some found =>
      obtain rfl : failure = found := by simpa [hverdict] using hmem
      exact checker_of_verdict hverdict

/-- Unless it is asked for, nothing is said of the coverage. -/
theorem strict_of_coverage {d : Disk} {config : Config} {report : CheckReport} {log log' : RunLog}
    (h : (checks d config).run.run log = (.ok report, log')) {failure : CheckFailure}
    (hfailure : failure ∈ report.failures) (hcoverage : failure.checker = .coverage) :
    config.strictCoverage = true := by
  obtain ⟨_, hfull, -⟩ | ⟨entries, told, hcourse, -⟩ := course_of_run h
  · cases hfull
  · obtain ⟨_, _, index, listing, code, -, -, -, -, -, -, rfl, -, -⟩ := hcourse.of_ok
    rcases List.mem_append.1 hfailure with hmem | hmem
    · rw [filesRecord] at hmem
      rcases List.mem_append.1 hmem with hmem | hmem
      · obtain ⟨scan, hscan, hmem⟩ := List.mem_flatMap.1 hmem
        obtain ⟨file, -, rfl⟩ := List.mem_map.1 hscan
        cases hcoverage.symm.trans (checker_of_mem_failures_scanOf hmem)
      · by_contra hlax
        rw [if_neg hlax] at hmem
        exact absurd hmem List.not_mem_nil
    · cases hcoverage.symm.trans (checker_of_mem_scriptRecord hmem)

/-- Of a run that comes to its end the entries with the outcome of a failure are, in order, those of
the failures of the report. Each has the failure's checker and, if any, the symbol of the function
that the failure is about. With a function that is bound nowhere it is otherwise: its entry has the
checker of the arguments, and the symbol of another function, if any; but such a failure is only
found if it is asked for. -/
theorem entries_of_failures {d : Disk} {config : Config} {report : CheckReport}
    {log log' : RunLog} {j : Journal} (hjournal : log.journal = some j)
    (h : (checks d config).run.run log = (.ok report, log')) :
    ∃ entries, log'.journal = some (j.emitAll entries) ∧
      List.Forall₂ (fun e failure =>
          if failure.checker = .coverage then
            e.checker = some .arguments ∧ ∀ name, e.symbol = some name → ¬failure.IsAbout name
          else
            e.checker = some failure.checker ∧ ∀ name, e.symbol = some name → failure.IsAbout name)
        (entries.filter (·.isFailure)) report.failures ∧
      (config.strictCoverage = false → ∀ failure ∈ report.failures,
        failure.checker ≠ .coverage) := by
  obtain ⟨_, hfull, -⟩ | ⟨entries, told, hcourse, hleaves⟩ := course_of_run h
  · cases hfull
  · obtain ⟨-, hattributed⟩ := attributed_of_course hcourse
    refine ⟨entries, by rw [hleaves.journal, hjournal, Option.map_some],
      hattributed.imp fun e failure hfailure => ?_, fun hlax failure hfailure hcoverage => ?_⟩
    · obtain ⟨-, hnames, hchecker⟩ := hfailure
      rw [LogEntry.Names] at hnames
      cases hkind : failure.checker with
      | arguments =>
          rw [hkind] at hnames hchecker
          obtain ⟨function, hsymbol, habout⟩ := hnames
          refine ⟨hchecker, fun name hname => ?_⟩
          obtain rfl := Option.some.inj (hsymbol.symm.trans hname)
          exact habout
      | coverage =>
          rw [hkind] at hnames hchecker
          exact ⟨hchecker, hnames⟩
      | structures =>
          rw [hkind] at hnames hchecker
          exact ⟨hchecker, fun name hname => by cases hnames.symm.trans hname⟩
    · have hstrict := strict_of_coverage h hfailure hcoverage
      rw [hlax] at hstrict
      cases hstrict

/-- Of the four failures of a run the one of the coverage is put down to the arguments. The entry of
the first, the fifth line of the journal, has the function that it is about. -/
theorem entries_of_failures_twoFiles :
    ∃ (log' : RunLog) (entries : List LogEntry),
      (checks (project twoFiles) projectConfig).run.run projectLog =
        (.ok { failures := projectFailures }, log') ∧
      log'.journal = some (({ runId := "run" } : Journal).emitAll entries) ∧
      (entries.filter (·.isFailure)).map (·.checker) =
        [some .arguments, some .arguments, some .arguments, some .structures] ∧
      (∀ e ∈ (entries.filter (·.isFailure))[2]?, ∀ name, e.symbol = some name → name ≠ "h") ∧
      log'.journal.bind (·.lines[4]?) = some firstFailureLine := by
  obtain ⟨log', hchecks, hline⟩ := run_twoFiles
  obtain ⟨entries, hentries, hpaired, -⟩ :=
    entries_of_failures (j := { runId := "run" }) rfl hchecks
  obtain ⟨e₁, _, ⟨h₁, -⟩, hpaired₁, hfilter⟩ := List.forall₂_cons_right_iff.1 hpaired
  obtain ⟨e₂, _, ⟨h₂, -⟩, hpaired₂, rfl⟩ := List.forall₂_cons_right_iff.1 hpaired₁
  obtain ⟨e₃, _, ⟨h₃, hother⟩, hpaired₃, rfl⟩ := List.forall₂_cons_right_iff.1 hpaired₂
  obtain ⟨e₄, _, ⟨h₄, -⟩, hnone, rfl⟩ := List.forall₂_cons_right_iff.1 hpaired₃
  cases hnone
  refine ⟨log', entries, hchecks, hentries, ?_, ?_, hline⟩
  · rw [hfilter]
    simp [h₁, h₂, h₃, h₄]
  · rw [hfilter]
    rintro _ ⟨⟩ name hname rfl
    exact hother "h" hname (.uncovered "h")

/-- A function that is bound nowhere is a failure of the coverage, but its entry has the checker of
the arguments. -/
theorem coverage_entry_of_arguments :
    let outcome := (checks (diskWith "WGPU_EXPORT void f(int *p);" "" .nil)
      { oneHeader with strictCoverage := true }).run.run { journal := some { runId := "run" } }
    outcome.1.toOption =
        some { failures :=
          [{ checker := .coverage, message := "f is not bound in any source file" }] } ∧
      outcome.2.journal.bind (·.lines[2]?) = some
        ({ timestamp := "", traceId := "run::003", level := .error, event := "check_failed"
           checker := some .arguments, outcome := some .fail
           details := RunLog.details
             [("message", .string "f is not bound in any source file")] } : LogEntry).line := by
  decide +kernel

end HeaderAccord.Run
