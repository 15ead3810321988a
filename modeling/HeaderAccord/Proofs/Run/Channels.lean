import HeaderAccord.Proofs.Lines
import HeaderAccord.Proofs.Run.Composition
import HeaderAccord.Proofs.Run.Tells

/-!
The verdict of a run on all its channels. The report, the exit status, the journal and the console
are written at different places; a run that comes to its end says the same on all of them.
-/

namespace HeaderAccord

open RunLog

/-! ### The lines of the summary -/

theorem isLine_digits (n : Nat) : IsLine (toString n).toList := by
  intro c hc
  have hdigit : c.isDigit = true :=
    Nat.isDigit_of_mem_toDigits (b := 10) (n := n) (by decide) (by decide) (by simpa using hc)
  refine ⟨?_, ?_⟩ <;> rintro rfl <;> exact absurd hdigit (by decide)

/-- Unless a message breaks a line, the lines of the summary are those it is made of. -/
theorem CheckReport.lines_summary {report : CheckReport}
    (h : ∀ f ∈ report.failures, IsLine f.message.toList) :
    (Text.lines report.summary.toList).map String.ofList = report.summaryLines := by
  refine Text.lines_join fun l hl => ?_
  rw [summaryLines] at hl
  split at hl
  · have hfixed : ∀ l ∈ [banner, "All checks passed."], IsLine l.toList := by decide
    exact hfixed l hl
  · have hfixed : ∀ l ∈ [banner, "Failed"], IsLine l.toList := by decide
    simp only [List.mem_append, List.mem_cons, List.not_mem_nil, or_false, List.mem_map] at hl
    rcases hl with ((rfl | rfl) | ⟨f, hf, rfl⟩) | rfl
    · exact hfixed _ (by simp)
    · have hends : IsLine "There were ".toList ∧ IsLine " failed checks:".toList := by decide
      intro c hc
      simp only [String.toList_append, List.mem_append] at hc
      rcases hc with (hc | hc) | hc
      · exact hends.1 c hc
      · exact isLine_digits _ c hc
      · exact hends.2 c hc
    · exact h f hf
    · exact hfixed _ (by simp)

namespace Run

/-! ### From the start to the end of a run -/

/-- The events of a run, in order. -/
def events (d : Disk) (config : Config) : List Event := (recorded d config).run.events

theorem events_of_run_eq {d : Disk} {config : Config} {index : HeaderIndex}
    {sources script : List Event} {arguments structures : List CheckFailure}
    (hindex : d.headerIndex config.headers config.exportMarker = .ok index)
    (hsources : (Binding.checkSources Recorded.emit d index config.sourceDir
      config.argumentOptions).run = { events := sources, result := .ok arguments })
    (hscript : (Override.checkScriptFile Recorded.emit d index config.buildScript).run =
      { events := script, result := .ok structures }) :
    events d config = sources ++ script := by
  rw [events, recorded, hindex]
  simp only [liftM_ok, pure_bind]
  rw [Recorded.run_bind_of_ok hsources, Recorded.run_bind_of_ok hscript]
  simp

/-- A run that comes to its end tells of its events, and its entries of failures are those of the
failures of its report. -/
theorem attributed_of_course {d : Disk} {config : Config} {log : RunLog}
    {report : CheckReport} {entries : List LogEntry} {told : List Event}
    (h : Course d config log (.ok report) entries told) :
    told = events d config ∧ List.Forall₂ LogEntry.Attributed (entries.filter (·.isFailure))
      report.failures := by
  obtain ⟨start, indexed, index, listing, code, hstart, hindexed, hindex, hlist, htexts, hcode,
    rfl, rfl, rfl⟩ := h.of_ok
  have hsilent {name : String} {e : LogEntry} (h : IsNote name e) : e.isFailure = false := by
    simp [LogEntry.isFailure, h.2]
  constructor
  · exact (events_of_run_eq hindex (run_checkSources_of_ok index hlist htexts)
      (run_checkScriptFile_of_ok index hcode)).symm
  · rw [List.filter_cons, hsilent hstart, List.filter_cons, hsilent hindexed, List.filter_append]
    exact List.rel_append ((marks_filesRecord _ _ _).attributed rfl log)
      ((marks_scriptRecord _ _ _).attributed rfl log)

/-- What a run of the checks writes: the lines of its events, and entries that tell of the failures
of its report. -/
theorem writes_of_checks_ok {d : Disk} {config : Config} {report : CheckReport}
    {log log' : RunLog} (hjournal : log.journal.isSome)
    (h : (checks d config).run.run log = (.ok report, log')) :
    ∃ entries, Writes ((events d config).map (·.line)) entries log log' ∧
      LogEntry.TellAll entries report.failures := by
  obtain ⟨j, hj⟩ := Option.isSome_iff_exists.1 hjournal
  obtain ⟨_, hfull, -⟩ | ⟨entries, told, hcourse, hleaves⟩ := course_of_run h
  · cases hfull
  · obtain ⟨rfl, hspeak⟩ := attributed_of_course hcourse
    exact ⟨_, hleaves.writes hj,
      j.tellAll_written ⟨hspeak.imp fun _ _ h => h.tells, hcourse.unfinished⟩⟩

/-! ### The end of a run -/

theorem forIn_lines (ls : List (List Char)) :
    (forIn ls PUnit.unit fun line _ => do
        RunLog.line (String.ofList line)
        pure (ForInStep.yield PUnit.unit) : Logging PUnit) =
      ls.forM fun line => RunLog.line (String.ofList line) := by
  induction ls with
  | nil => rfl
  | cons l ls ih =>
      rw [List.forIn_cons, List.forM_eq_forM, List.forM_cons, bind_assoc]
      exact bind_congr fun _ => by rw [pure_bind]; exact ih

theorem writes_lines {ls : List (List Char)} {log log' : RunLog} (hjournal : log.journal.isSome)
    (h : (ls.forM fun line => RunLog.line (String.ofList line)).run.run log = (.ok (), log')) :
    Writes (ls.map String.ofList) [] log log' := by
  induction ls generalizing log with
  | nil =>
      obtain rfl : log = log' := congrArg Prod.snd h
      obtain ⟨j, hj⟩ := Option.isSome_iff_exists.1 hjournal
      exact ⟨by simp [String.join], j, j, hj, hj, by simp⟩
  | cons l ls ih =>
      obtain ⟨⟨⟩, log₁, hline, hrest⟩ := run_bind_eq_ok_iff.1 h
      rw [run_line] at hline
      rcases hwrite : log.console.write (String.ofList l ++ "\n") with ⟨fault | _, console⟩
      · rw [hwrite] at hline
        cases hline
      · rw [hwrite] at hline
        obtain rfl : { log with console } = log₁ := congrArg Prod.snd hline
        obtain ⟨j, hj⟩ := Option.isSome_iff_exists.1 hjournal
        have hfirst : Writes [String.ofList l] [] log { log with console } :=
          ⟨by simp [Console.text_of_write_ok hwrite, String.join], j, j, hj, hj, by simp⟩
        exact hfirst.trans (ih hjournal hrest)

/-- An entry that ends a run. -/
def IsVerdict (report : CheckReport) (e : LogEntry) : Prop :=
  e.event = "run_finished" ∧ e.outcome = none ∧
    e.exitCode = some (Int32.ofNat report.exitStatus) ∧
    e.Holds [("failures", .array (report.failures.map fun f =>
      .object [("checker", .string f.checker.name), ("message", .string f.message)]))]

/-- The failures of a report stand in an entry as they are. -/
theorem holds_failures (report : CheckReport) (e : LogEntry)
    (h : e.details = RunLog.details [("failures", report.failuresJson)]) :
    e.Holds [("failures", .array (report.failures.map fun f =>
      .object [("checker", .string f.checker.name), ("message", .string f.message)]))] := by
  have hitems (failures : List CheckFailure) :
      Json.areOrdered (failures.map (·.toJson)) = true := by
    induction failures with
    | nil => rfl
    | cons f failures ih =>
        rw [List.map_cons, Json.areOrdered, ih, CheckFailure.toJson,
          Json.isOrdered_pair (by decide), Bool.and_self]
  rw [LogEntry.Holds, h]
  refine RunLog.val_details ?_
  simp [Json.isOrdered, Json.areOrderedMembers, CheckReport.failuresJson, hitems]

/-- What the end of a run writes: the summary, and the verdict. -/
theorem writes_of_finish_ok {report : CheckReport} {log log' : RunLog}
    (hjournal : log.journal.isSome) (h : (finish report).run.run log = (.ok (), log')) :
    ∃ last, Writes ((Text.lines report.summary.toList).map String.ofList) [last] log log' ∧
      IsVerdict report last := by
  rw [finish, forIn_lines] at h
  obtain ⟨⟨⟩, log₁, hlines, h⟩ := run_bind_eq_ok_iff.1 h
  have hw := writes_lines hjournal hlines
  obtain ⟨j, hj⟩ := Option.isSome_iff_exists.1 hw.journal_after
  let verdict : LogEntry :=
    { log₁.plainEntry (if report.passed then .info else .error) "run_finished" with
      exitCode := some (Int32.ofNat report.exitStatus)
      details := RunLog.details [("failures", report.failuresJson)] }
  obtain rfl : log₁.emit verdict = log' := congrArg Prod.snd h
  refine ⟨j.stamped verdict, by simpa using hw.trans (writes_emit hj verdict), ?_⟩
  have hholds := holds_failures report verdict rfl
  rw [Journal.stamped, IsVerdict]
  split <;> exact ⟨rfl, rfl, rfl, hholds⟩

/-- The verdict of a run is the same on all channels: the entries that speak of a failure are those
of the report's failures, the last entry and no other gives the verdict, the exit status is zero
exactly if no entry speaks of a failure, and the console shows the events and then the summary. -/
theorem channels_agree {d : Disk} {config : Config} {report : CheckReport}
    {log log₁ log₂ : RunLog} {j : Journal} (hjournal : log.journal = some j)
    (hchecks : (checks d config).run.run log = (.ok report, log₁))
    (hfinish : (finish report).run.run log₁ = (.ok (), log₂)) :
    ∃ (entries : List LogEntry) (last : LogEntry) (j' : Journal),
      log₂.journal = some j' ∧
      j'.lines.toList = j.lines.toList ++ (entries ++ [last]).map (·.line) ∧
      List.Forall₂ LogEntry.Tells ((entries ++ [last]).filter (·.isFailure)) report.failures ∧
      IsVerdict report last ∧ (∀ e ∈ entries, e.event ≠ "run_finished") ∧
      (report.exitStatus = 0 ↔ ∀ e ∈ entries ++ [last], e.isFailure = false) ∧
      ((∀ f ∈ report.failures, IsLine f.message.toList) →
        log₂.console.text = log.console.text ++
          String.join ((events d config).map (·.line ++ "\n")) ++ report.summary) := by
  obtain ⟨entries, hw, htells, hevents⟩ := writes_of_checks_ok (by simp [hjournal]) hchecks
  obtain ⟨last, hw', hlast⟩ := writes_of_finish_ok hw.journal_after hfinish
  obtain ⟨htext, j₀, j', hj₀, hj', hlines⟩ := hw.trans hw'
  obtain rfl : j = j₀ := Option.some.inj (hjournal.symm.trans hj₀)
  have hfilter : (entries ++ [last]).filter (·.isFailure) = entries.filter (·.isFailure) := by
    simp [LogEntry.isFailure, hlast.2.1]
  -- the last entry has no outcome, so the entries of failures are those of the checks
  refine ⟨entries, last, j', hj', hlines, hfilter ▸ htells, hlast, hevents, ?_, fun hline => ?_⟩
  · have hempty : report.failures = [] ↔ (entries ++ [last]).filter (·.isFailure) = [] := by
      rw [← List.length_eq_zero_iff, ← List.length_eq_zero_iff, hfilter, htells.length_eq]
    have hstatus : report.exitStatus = 0 ↔ report.failures = [] := by
      simp [CheckReport.exitStatus, CheckReport.passed]
    rw [hstatus, hempty, List.filter_eq_nil_iff]
    simp only [Bool.not_eq_true]
  · rw [htext, List.map_append, String.join_append, CheckReport.lines_summary hline,
      CheckReport.summary, List.map_map, String.append_assoc]
    rfl

/-- A console without limit takes the summary. -/
theorem exists_finish {log : RunLog} (hroom : log.console.room = none) (report : CheckReport) :
    ∃ log', (finish report).run.run log = (.ok (), log') := by
  have hlines : ∀ (ls : List (List Char)) (log : RunLog), log.console.room = none →
      ∃ log', (ls.forM fun line => RunLog.line (String.ofList line)).run.run log =
        (.ok (), log') := by
    intro ls
    induction ls with
    | nil => exact fun log _ => ⟨log, rfl⟩
    | cons l ls ih =>
        intro log hroom
        have hline := RunLog.run_line (String.ofList l) log
        rw [Console.write_of_room_none hroom] at hline
        obtain ⟨log', hrest⟩ := ih
          { log with console := { text := log.console.text ++ (String.ofList l ++ "\n") } } rfl
        exact ⟨log', run_bind_eq_ok_iff.2 ⟨(), _, hline, hrest⟩⟩
  obtain ⟨log₁, hrun⟩ := hlines (Text.lines report.summary.toList) log hroom
  rw [finish, forIn_lines]
  exact ⟨_, run_bind_eq_ok_iff.2 ⟨(), log₁, hrun, rfl⟩⟩

/-- A run over two source files. The entry of its first failure is the fifth line of the journal,
and the journal ends in the verdict with all the failures of the report. -/
theorem channels_agree_twoFiles :
    ∃ (log₁ log₂ : RunLog) (entries : List LogEntry) (last : LogEntry) (j' : Journal),
      (checks (project twoFiles) projectConfig).run.run projectLog =
        (.ok { failures := projectFailures }, log₁) ∧
      (finish { failures := projectFailures }).run.run log₁ = (.ok (), log₂) ∧
      log₂.journal = some j' ∧
      j'.lines.toList = (entries ++ [last]).map (·.line) ∧
      j'.lines[4]? = some firstFailureLine ∧
      List.Forall₂ LogEntry.Tells ((entries ++ [last]).filter (·.isFailure)) projectFailures ∧
      last.event = "run_finished" ∧ last.exitCode = some 1 ∧
      last.Holds [("failures", .array
        [.object [("checker", .string "arguments"), ("message", .string "✖ f: p: u8")],
         .object [("checker", .string "arguments"), ("message", .string "✖ g: p: u8")],
         .object [("checker", .string "coverage"),
          ("message", .string "h is not bound in any source file")],
         .object [("checker", .string "structures"),
          ("message", .string "✖ Unknown build.rs struct S")]])] ∧
      log₂.console.text =
        String.join ((events (project twoFiles) projectConfig).map (·.line ++ "\n")) ++
          ("==================== Summary ====================\nThere were 4 failed checks:\n" ++
            "✖ f: p: u8\n✖ g: p: u8\nh is not bound in any source file\n" ++
            "✖ Unknown build.rs struct S\nFailed\n") := by
  obtain ⟨log₁, hchecks, hline⟩ := run_twoFiles
  have hroom := (yields_checks readable_twoFiles projectLog).2 rfl
  rw [hchecks] at hroom
  obtain ⟨log₂, hfinish⟩ := exists_finish hroom { failures := projectFailures }
  obtain ⟨entries, last, j', hj', hlines, htells, ⟨hevent, -, hexit, hholds⟩, -, -, hconsole⟩ :=
    channels_agree (j := { runId := "run" }) rfl hchecks hfinish
  refine ⟨log₁, log₂, entries, last, j', hchecks, hfinish, hj', by simpa using hlines, ?_, htells,
    hevent, hexit, hholds, ?_⟩
  · -- the end of a run writes behind the lines of the checks
    obtain ⟨j₁, hj₁, hfifth⟩ := Option.bind_eq_some_iff.1 hline
    obtain ⟨_, ⟨-, j₀, j₂, hj₀, hj₂, hwritten⟩, -⟩ :=
      writes_of_finish_ok (Option.isSome_iff_exists.2 ⟨j₁, hj₁⟩) hfinish
    obtain rfl : j₁ = j₀ := Option.some.inj (hj₁.symm.trans hj₀)
    obtain rfl : j' = j₂ := Option.some.inj (hj'.symm.trans hj₂)
    rw [← Array.getElem?_toList] at hfifth ⊢
    rw [hwritten, List.getElem?_append_left (List.getElem?_eq_some_iff.1 hfifth).1]
    exact hfifth
  · have hline : ∀ f ∈ projectFailures, IsLine f.message.toList := by decide
    have hsummary : CheckReport.summary { failures := projectFailures } =
        "==================== Summary ====================\nThere were 4 failed checks:\n" ++
          "✖ f: p: u8\n✖ g: p: u8\nh is not bound in any source file\n" ++
          "✖ Unknown build.rs struct S\nFailed\n" := by decide +kernel
    rw [hconsole hline, hsummary]
    rfl

end Run

end HeaderAccord
