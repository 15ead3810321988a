import HeaderAccord.Proofs.Journal.Session
import HeaderAccord.Proofs.Run.Inputs
import HeaderAccord.Proofs.Run.Logging

/-!
The course of a run. What a run comes to depends on its inputs alone, and what it leaves in its log
is told by the records of its checkers as far as the run gets; the one other thing that can end it
is a console that runs full. There are five places at which the inputs can end a run.
-/

namespace HeaderAccord

namespace RunLog

/-! ### The entries of events -/

/-- The entries of events that are told one after the other. -/
def entriesOf (log : RunLog) : List Event → List LogEntry
  | [] => []
  | e :: events => (log.enter e).entryOf e :: entriesOf (log.enter e) events

/-- The context after a number of events. -/
def enterAll (log : RunLog) (events : List Event) : RunLog := events.foldl enter log

theorem entriesOf_append (log : RunLog) (events events' : List Event) :
    log.entriesOf (events ++ events') =
      log.entriesOf events ++ (log.enterAll events).entriesOf events' := by
  induction events generalizing log with
  | nil => rfl
  | cons e events ih =>
      rw [List.cons_append, entriesOf, ih, entriesOf, List.cons_append]
      rfl

/-- Events do not change the checker, and none ends the run. -/
theorem forall_mem_entriesOf (log : RunLog) (events : List Event) :
    ∀ entry ∈ log.entriesOf events,
      entry.checker = log.checker ∧ entry.event ≠ "run_finished" := by
  induction events generalizing log with
  | nil => simp [entriesOf]
  | cons e events ih =>
      have henter : (log.enter e).checker = log.checker := by cases e <;> rfl
      have hmore := ih (log.enter e)
      rw [henter] at hmore
      rw [entriesOf, List.forall_mem_cons, ← henter]
      refine ⟨?_, henter ▸ hmore⟩
      cases e <;> exact ⟨rfl, by simp [entryOf, contextEntry, plainEntry]⟩

/-- Two logs whose entries have the same context and time stamp. -/
structure SameContext (a b : RunLog) : Prop where
  now : a.now = b.now
  checker : a.checker = b.checker
  file : a.file = b.file
  symbol : a.symbol = b.symbol

variable {a b : RunLog}

theorem SameContext.enter (h : SameContext a b) (e : Event) :
    SameContext (a.enter e) (b.enter e) := by
  obtain ⟨hnow, hchecker, hfile, hsymbol⟩ := h
  cases e <;> constructor <;> simp_all [RunLog.enter]

theorem SameContext.entryOf_eq (h : SameContext a b) (e : Event) : a.entryOf e = b.entryOf e := by
  obtain ⟨hnow, hchecker, hfile, hsymbol⟩ := h
  cases e <;> simp [RunLog.entryOf, contextEntry, plainEntry, hnow, hchecker, hfile, hsymbol]

theorem SameContext.entriesOf_eq (h : SameContext a b) (events : List Event) :
    a.entriesOf events = b.entriesOf events := by
  induction events generalizing a b with
  | nil => rfl
  | cons e events ih =>
      have henter := h.enter e
      rw [entriesOf, entriesOf, henter.entryOf_eq, ih henter]

/-- The context in which a checker begins. -/
def beginning (log : RunLog) (checker : Checker) : RunLog :=
  { log with checker := some checker, file := none, symbol := none }

/-! ### What is left in the log -/

/-- Between two states of a log, `entries` go to the journal and the lines of `events` to the
console. -/
structure Leaves (log log' : RunLog) (entries : List LogEntry) (events : List Event) : Prop where
  now : log'.now = log.now
  journal : log'.journal = log.journal.map (·.emitAll entries)
  console : log'.console.text = log.console.text ++ String.join (events.map (·.line ++ "\n"))
  room : log.console.room = none → log'.console.room = none

theorem leaves_nothing (log : RunLog) : Leaves log log [] [] where
  now := rfl
  journal := by cases log.journal <;> rfl
  console := by simp [String.join]
  room := id

theorem leaves_emit (log : RunLog) (e : LogEntry) : Leaves log (log.emit e) [e] [] where
  now := rfl
  journal := rfl
  console := by simp [RunLog.emit, String.join]
  room := id

theorem Leaves.trans {log log₁ log₂ : RunLog} {entries entries' : List LogEntry}
    {events events' : List Event} (h : Leaves log log₁ entries events)
    (h' : Leaves log₁ log₂ entries' events') :
    Leaves log log₂ (entries ++ entries') (events ++ events') where
  now := h'.now.trans h.now
  journal := by
    rw [h'.journal, h.journal, Option.map_map]
    simp only [Journal.emitAll, List.foldl_append, Function.comp_def]
  console := by
    rw [h'.console, h.console, List.map_append, String.join_append, String.append_assoc]
  room := h'.room ∘ h.room

theorem Leaves.of_beginning {log log' : RunLog} {checker : Checker} {entries : List LogEntry}
    {events : List Event} (h : Leaves (log.beginning checker) log' entries events) :
    Leaves log log' entries events :=
  ⟨h.now, h.journal, h.console, h.room⟩

end RunLog

namespace Run

open RunLog

/-! ### Steps -/

/-- A step comes to `result` and leaves `entries` and `events` unless the console runs full. -/
def Comes {α : Type} (x : Running α) (log : RunLog) (result : Except CheckError α)
    (entries : List LogEntry) (events : List Event) : Prop :=
  (∃ fault log', x.run.run log = (.error (.log fault), log') ∧ log.console.room ≠ none) ∨
    ∃ log', x.run.run log = (result, log') ∧ Leaves log log' entries events

section

variable {α β : Type} {log : RunLog} {x : Running α} {f : α → Running β} {a : α} {e : CheckError}
  {result : Except CheckError β} {entries entries' : List LogEntry} {events events' : List Event}

theorem comes_lift (y : Except CheckError α) (log : RunLog) : Comes (liftM y) log y [] [] := by
  refine .inr ⟨log, ?_, leaves_nothing log⟩
  cases y <;> rfl

theorem comes_pure (a : α) (log : RunLog) : Comes (pure a : Running α) log (.ok a) [] [] :=
  comes_lift (.ok a) log

theorem Comes.bind (hx : Comes x log (.ok a) entries events)
    (hf : ∀ log', x.run.run log = (.ok a, log') → Leaves log log' entries events →
      Comes (f a) log' result entries' events') :
    Comes (x >>= f) log result (entries ++ entries') (events ++ events') := by
  obtain ⟨fault, log₁, hrun, hfull⟩ | ⟨log₁, hrun, hleaves⟩ := hx
  · exact .inl ⟨fault, log₁, by rw [run_bind, hrun], hfull⟩
  · obtain ⟨fault, log₂, hrun', hfull⟩ | ⟨log₂, hrun', hleaves'⟩ := hf log₁ hrun hleaves
    · exact .inl ⟨fault, log₂, by rw [run_bind, hrun]; exact hrun', mt hleaves.room hfull⟩
    · exact .inr ⟨log₂, by rw [run_bind, hrun]; exact hrun', hleaves.trans hleaves'⟩

theorem Comes.bind_error (hx : Comes x log (.error e) entries events) :
    Comes (x >>= f) log (.error e) entries events := by
  obtain ⟨fault, log₁, hrun, hfull⟩ | ⟨log₁, hrun, hleaves⟩ := hx
  · exact .inl ⟨fault, log₁, by rw [run_bind, hrun], hfull⟩
  · exact .inr ⟨log₁, by rw [run_bind, hrun], hleaves⟩

theorem Comes.bind_emit {entry : LogEntry} (hx : x.run.run log = (.ok a, log.emit entry))
    (hf : Comes (f a) (log.emit entry) result entries events) :
    Comes (x >>= f) log result (entry :: entries) events := by
  have hone : Comes x log (.ok a) [entry] [] := .inr ⟨_, hx, leaves_emit log entry⟩
  change Comes (x >>= f) log result ([entry] ++ entries) ([] ++ events)
  refine hone.bind fun log' hrun _ => ?_
  obtain rfl : log.emit entry = log' := congrArg Prod.snd (hx.symm.trans hrun)
  exact hf

/-- Nothing is left behind where the checker changes, but the context is another one. -/
theorem Comes.bind_setChecker {checker : Checker} {f : Unit → Running β}
    (h : Comes (f ()) (log.beginning checker) result entries events) :
    Comes (logging (setChecker checker) >>= f) log result entries events := by
  obtain ⟨fault, log', hrun, hfull⟩ | ⟨log', hrun, hleaves⟩ := h
  · exact .inl ⟨fault, log', by rw [run_bind, run_setChecker]; exact hrun, hfull⟩
  · exact .inr ⟨log', by rw [run_bind, run_setChecker]; exact hrun, hleaves.of_beginning⟩

/-- An event is told in the context that it leads to. -/
theorem comes_notify (e : Event) (log : RunLog) :
    Comes (notify e) log (.ok ()) [(log.enter e).entryOf e] [e] := by
  rw [Comes, notify, run_logging, run_notify]
  rcases hwrite : log.console.write (e.line ++ "\n") with ⟨fault | ⟨⟩, console⟩
  · refine .inl ⟨fault, _, rfl, fun hroom => ?_⟩
    rw [Console.write_of_room_none hroom] at hwrite
    cases hwrite
  · refine .inr ⟨_, rfl, ?_⟩
    have hcontext : SameContext ({ log with console }.enter e) (log.enter e) := by
      cases e <;> exact ⟨rfl, rfl, rfl, rfl⟩
    constructor
    · cases e <;> rfl
    · rw [journal_told, hcontext.entryOf_eq]
      rfl
    · simp [Console.text_of_write_ok hwrite, String.join]
    · intro hroom
      rw [Console.write_of_room_none hroom] at hwrite
      cases hwrite
      simp

theorem sameContext_of_run_notify {e : Event} {log log' : RunLog}
    (h : (notify e).run.run log = (.ok (), log')) : SameContext log' (log.enter e) := by
  rw [notify, run_logging, run_notify] at h
  rcases hwrite : log.console.write (e.line ++ "\n") with ⟨fault | ⟨⟩, console⟩
  · rw [hwrite] at h
    cases h
  · rw [hwrite] at h
    obtain rfl : { log with console }.told e = log' := congrArg Prod.snd h
    cases e <;> exact ⟨rfl, rfl, rfl, rfl⟩

theorem comes_events (events : List Event) (log : RunLog) :
    Comes (events.forM notify) log (.ok ()) (log.entriesOf events) events := by
  induction events generalizing log with
  | nil => exact comes_pure () log
  | cons e events ih =>
      change Comes (notify e >>= fun _ => events.forM notify) log (.ok ())
        ([_] ++ (log.enter e).entriesOf events) ([e] ++ events)
      refine (comes_notify e log).bind fun log' hrun _ => ?_
      rw [← (sameContext_of_run_notify hrun).entriesOf_eq]
      exact ih log'

/-- A record is replayed to its result. -/
theorem comes_replay {y : Recorded α} {result : Except CheckError α} {events : List Event}
    (h : y.run = { events, result }) (log : RunLog) :
    Comes (Recorded.replay notify y) log result (log.entriesOf events) events := by
  rw [Recorded.replay, h]
  have hboth := (comes_events events log).bind (f := fun _ => liftM result)
    fun log' _ _ => comes_lift result log'
  simpa using hboth

/-- What a checker leaves depends on the log that it begins with only by the time stamp. -/
theorem comes_replay_beginning {y : Recorded α} {result : Except CheckError α}
    {events : List Event} (h : y.run = { events, result }) {log' : RunLog}
    (hnow : log'.now = log.now) (checker : Checker) :
    Comes (Recorded.replay notify y) (log'.beginning checker) result
      ((log.beginning checker).entriesOf events) events := by
  have hcontext : SameContext (log'.beginning checker) (log.beginning checker) :=
    ⟨hnow, rfl, rfl, rfl⟩
  rw [← hcontext.entriesOf_eq]
  exact comes_replay h _

end

/-! ### The course of the checks -/

/-- An entry of the run itself, which says how far it has come. -/
def IsNote (name : String) (e : LogEntry) : Prop := e.event = name ∧ e.outcome = none

/-- What the checks come to, with the entries and the events that they leave in the log on the
way. -/
inductive Course (d : Disk) (config : Config) (log : RunLog) :
    Except CheckError CheckReport → List LogEntry → List Event → Prop
  /-- an input has no digest -/
  | unpinned {e : CheckError} (hartifacts : artifacts d config = .error e) :
      Course d config log (.error e) [] []
  | unindexed {as : List Artifact} {start : LogEntry} {e : CheckError}
      (hartifacts : artifacts d config = .ok as) (hstart : IsNote "run_started" start)
      (hindex : d.headerIndex config.headers config.exportMarker = .error e) :
      Course d config log (.error e) [start] []
  /-- a source file or their folder cannot be read -/
  | unsourced {as : List Artifact} {start indexed : LogEntry} {index : HeaderIndex}
      {sources : List Event} {e : CheckError}
      (hartifacts : artifacts d config = .ok as) (hstart : IsNote "run_started" start)
      (hindex : d.headerIndex config.headers config.exportMarker = .ok index)
      (hindexed : IsNote "headers_indexed" indexed)
      (hsources : (Binding.checkSources Recorded.emit d index config.sourceDir
        config.argumentOptions).run = { events := sources, result := .error e }) :
      Course d config log (.error e)
        (start :: indexed :: (log.beginning .arguments).entriesOf sources) sources
  | unscripted {as : List Artifact} {start indexed : LogEntry} {index : HeaderIndex}
      {sources script : List Event} {arguments : List CheckFailure} {e : CheckError}
      (hartifacts : artifacts d config = .ok as) (hstart : IsNote "run_started" start)
      (hindex : d.headerIndex config.headers config.exportMarker = .ok index)
      (hindexed : IsNote "headers_indexed" indexed)
      (hsources : (Binding.checkSources Recorded.emit d index config.sourceDir
        config.argumentOptions).run = { events := sources, result := .ok arguments })
      (hscript : (Override.checkScriptFile Recorded.emit d index config.buildScript).run =
        { events := script, result := .error e }) :
      Course d config log (.error e)
        (start :: indexed :: ((log.beginning .arguments).entriesOf sources ++
          (log.beginning .structures).entriesOf script)) (sources ++ script)
  | done {as : List Artifact} {start indexed : LogEntry} {index : HeaderIndex}
      {sources script : List Event} {arguments structures : List CheckFailure}
      (hartifacts : artifacts d config = .ok as) (hstart : IsNote "run_started" start)
      (hindex : d.headerIndex config.headers config.exportMarker = .ok index)
      (hindexed : IsNote "headers_indexed" indexed)
      (hsources : (Binding.checkSources Recorded.emit d index config.sourceDir
        config.argumentOptions).run = { events := sources, result := .ok arguments })
      (hscript : (Override.checkScriptFile Recorded.emit d index config.buildScript).run =
        { events := script, result := .ok structures }) :
      Course d config log (.ok (CheckReport.aggregate arguments structures))
        (start :: indexed :: ((log.beginning .arguments).entriesOf sources ++
          (log.beginning .structures).entriesOf script)) (sources ++ script)

/-- No entry of the checks ends the run. -/
theorem Course.unfinished {d : Disk} {config : Config} {log : RunLog}
    {result : Except CheckError CheckReport} {entries : List LogEntry} {events : List Event}
    (h : Course d config log result entries events) :
    ∀ e ∈ entries, e.event ≠ "run_finished" := by
  have hevents (checker : Checker) (events : List Event) :
      ∀ e ∈ (log.beginning checker).entriesOf events, e.event ≠ "run_finished" :=
    fun e he => (forall_mem_entriesOf _ _ e he).2
  have hnote {name : String} {e : LogEntry} (h : IsNote name e) (hname : name ≠ "run_finished") :
      e.event ≠ "run_finished" := h.1 ▸ hname
  cases h with
  | unpinned => exact List.forall_mem_nil _
  | unindexed _ hstart => exact List.forall_mem_singleton.2 (hnote hstart (by decide))
  | unsourced _ hstart _ hindexed =>
      exact List.forall_mem_cons.2 ⟨hnote hstart (by decide),
        List.forall_mem_cons.2 ⟨hnote hindexed (by decide), hevents _ _⟩⟩
  | unscripted _ hstart _ hindexed =>
      exact List.forall_mem_cons.2 ⟨hnote hstart (by decide),
        List.forall_mem_cons.2 ⟨hnote hindexed (by decide),
          List.forall_mem_append.2 ⟨hevents _ _, hevents _ _⟩⟩⟩
  | done _ hstart _ hindexed =>
      exact List.forall_mem_cons.2 ⟨hnote hstart (by decide),
        List.forall_mem_cons.2 ⟨hnote hindexed (by decide),
          List.forall_mem_append.2 ⟨hevents _ _, hevents _ _⟩⟩⟩

/-- The course of a run that comes to a report: every input was read, and what is left is told by
the records of the two checkers. -/
theorem Course.of_ok {d : Disk} {config : Config} {log : RunLog} {report : CheckReport}
    {entries : List LogEntry} {told : List Event}
    (h : Course d config log (.ok report) entries told) :
    ∃ start indexed index listing code,
      IsNote "run_started" start ∧ IsNote "headers_indexed" indexed ∧
      d.headerIndex config.headers config.exportMarker = .ok index ∧
      d.list config.sourceDir = .ok listing ∧
      (∀ f ∈ Binding.sourceFiles config.sourceDir listing config.extension,
        ∃ text, Disk.decode f.2 = .ok text) ∧
      d.readText config.buildScript = .ok code ∧
      let arguments := filesRecord index (sourceTexts config.sourceDir listing config.extension)
        config.strictCoverage
      let structures := scriptRecord index config.buildScript code
      report = CheckReport.aggregate arguments.result structures.result ∧
      entries = start :: indexed :: ((log.beginning .arguments).entriesOf arguments.events ++
        (log.beginning .structures).entriesOf structures.events) ∧
      told = arguments.events ++ structures.events := by
  generalize hresult : Except.ok report = result at h
  cases h with
  | unpinned => cases hresult
  | unindexed => cases hresult
  | unsourced => cases hresult
  | unscripted => cases hresult
  | @done _ start indexed index _ _ _ _ _ hstart hindex hindexed hsources hscript =>
      obtain ⟨listing, hlist, htexts⟩ :=
        exists_sources_of_run_ok (congrArg Traced.result hsources)
      obtain ⟨code, hcode⟩ := exists_code_of_run_ok (congrArg Traced.result hscript)
      rw [run_checkSources_of_ok index hlist htexts] at hsources
      rw [run_checkScriptFile_of_ok index hcode] at hscript
      cases hsources
      cases hscript
      exact ⟨start, indexed, index, listing, code, hstart, hindexed, hindex, hlist, htexts, hcode,
        Except.ok.inj hresult, rfl, rfl⟩

/-- Every run takes one of these courses unless the console runs full. -/
theorem exists_course (d : Disk) (config : Config) (log : RunLog) :
    ∃ result entries events, Course d config log result entries events ∧
      Comes (checks d config) log result entries events := by
  simp only [checks, Recorded.checkSources_eq_replay notify,
    Recorded.checkScriptFile_eq_replay notify]
  cases hartifacts : artifacts d config with
  | error e => exact ⟨_, _, _, .unpinned hartifacts, (comes_lift _ log).bind_error⟩
  | ok as =>
  obtain ⟨start, hstart, hstart', hrun⟩ := run_recordStart config as log
  have hnote : IsNote "run_started" start := ⟨hstart, hstart'⟩
  simp only [liftM_ok, pure_bind]
  cases hindex : d.headerIndex config.headers config.exportMarker with
  | error e =>
      exact ⟨_, _, _, .unindexed hartifacts hnote hindex,
        .bind_emit hrun (comes_lift _ _).bind_error⟩
  | ok index =>
  obtain ⟨indexed, hindexed, hindexed', hrun'⟩ := run_recordIndex index (log.emit start)
  have hnote' : IsNote "headers_indexed" indexed := ⟨hindexed, hindexed'⟩
  simp only [liftM_ok, pure_bind]
  have hnow : ((log.emit start).emit indexed).now = log.now := rfl
  rcases hsources : (Binding.checkSources Recorded.emit d index config.sourceDir
    config.argumentOptions).run with ⟨sources, e | arguments⟩
  · have hreplay := comes_replay_beginning hsources hnow .arguments
    exact ⟨_, _, _, .unsourced hartifacts hnote hindex hnote' hsources,
      .bind_emit hrun (.bind_emit hrun' hreplay.bind_error.bind_setChecker)⟩
  have hreplay := comes_replay_beginning hsources hnow .arguments
  rcases hscript : (Override.checkScriptFile Recorded.emit d index config.buildScript).run with
    ⟨script, e | structures⟩
  · refine ⟨_, _, _, .unscripted hartifacts hnote hindex hnote' hsources hscript,
      .bind_emit hrun (.bind_emit hrun' (.bind_setChecker (hreplay.bind fun log' _ hleaves => ?_)))⟩
    have hnow' : log'.now = log.now := hleaves.now
    have hreplay' := comes_replay_beginning hscript hnow' .structures
    exact hreplay'.bind_error.bind_setChecker
  · refine ⟨_, _, _, .done hartifacts hnote hindex hnote' hsources hscript,
      .bind_emit hrun (.bind_emit hrun' (.bind_setChecker (hreplay.bind fun log' _ hleaves => ?_)))⟩
    have hnow' : log'.now = log.now := hleaves.now
    have hreplay' := comes_replay_beginning hscript hnow' .structures
    have hend := hreplay'.bind (f := fun structures =>
      pure (CheckReport.aggregate arguments structures)) fun log' _ _ => comes_pure _ log'
    rw [List.append_nil, List.append_nil] at hend
    exact .bind_setChecker hend

/-- The course of a run that the console does not stop. -/
theorem course_of_run {d : Disk} {config : Config} {log log' : RunLog}
    {result : Except CheckError CheckReport} (h : (checks d config).run.run log = (result, log')) :
    (∃ fault, result = .error (.log fault) ∧ log.console.room ≠ none) ∨
      ∃ entries events, Course d config log result entries events ∧
        Leaves log log' entries events := by
  obtain ⟨result', entries, events, hcourse, hcomes⟩ := exists_course d config log
  obtain ⟨fault, log₁, hrun, hfull⟩ | ⟨log₁, hrun, hleaves⟩ := hcomes
  · obtain ⟨rfl, -⟩ := Prod.mk.inj (h.symm.trans hrun)
    exact .inl ⟨fault, rfl, hfull⟩
  · obtain ⟨rfl, rfl⟩ := Prod.mk.inj (h.symm.trans hrun)
    exact .inr ⟨entries, events, hcourse, hleaves⟩

/-! ### The record of a run -/

/-- The record of both checkers. -/
def recorded (d : Disk) (config : Config) : Recorded CheckReport := do
  let index ← d.headerIndex config.headers config.exportMarker
  let arguments ← Binding.checkSources Recorded.emit d index config.sourceDir
    config.argumentOptions
  let structures ← Override.checkScriptFile Recorded.emit d index config.buildScript
  return CheckReport.aggregate arguments structures

/-- The record of a run, which begins when every input has its digest. -/
def pinned (d : Disk) (config : Config) : Recorded CheckReport := do
  let _ ← artifacts d config
  recorded d config

/-- Whatever its log, a run comes to what its record comes to and tells of the same events. -/
theorem Course.run_pinned {d : Disk} {config : Config} {log : RunLog}
    {result : Except CheckError CheckReport} {entries : List LogEntry} {events : List Event}
    (h : Course d config log result entries events) :
    (pinned d config).run = { events, result } := by
  cases h with
  | unpinned hartifacts =>
      rw [pinned, hartifacts]
      rfl
  | unindexed hartifacts _ hindex =>
      rw [pinned, hartifacts, recorded, hindex]
      rfl
  | unsourced hartifacts _ hindex _ hsources =>
      simp only [pinned, recorded, hartifacts, hindex, liftM_ok, pure_bind]
      exact Recorded.run_bind_of_error hsources _
  | unscripted hartifacts _ hindex _ hsources hscript =>
      simp only [pinned, recorded, hartifacts, hindex, liftM_ok, pure_bind]
      rw [Recorded.run_bind_of_ok hsources, Recorded.run_bind_of_error hscript]
  | done hartifacts _ hindex _ hsources hscript =>
      simp only [pinned, recorded, hartifacts, hindex, liftM_ok, pure_bind]
      rw [Recorded.run_bind_of_ok hsources, Recorded.run_bind_of_ok hscript]
      simp

theorem pinned_of_headers {d : Disk} {config : Config} {headers : List String}
    (hbytes : ∀ q ∈ config.inputFiles, d.HasBytes q)
    (hheaders : config.headers.mapM d.readText = .ok headers) :
    pinned d config = do
      let index := HeaderIndex.ofTexts headers config.exportMarker
      let arguments ← Binding.checkSources Recorded.emit d index config.sourceDir
        config.argumentOptions
      let structures ← Override.checkScriptFile Recorded.emit d index config.buildScript
      return CheckReport.aggregate arguments structures := by
  obtain ⟨as, hartifacts⟩ := exists_artifacts_eq_ok_iff.2 hbytes
  rw [pinned, recorded, hartifacts, Disk.headerIndex_of_texts hheaders]
  simp only [liftM_ok, pure_bind]

end Run

end HeaderAccord
