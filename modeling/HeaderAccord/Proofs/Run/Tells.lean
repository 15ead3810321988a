import Mathlib.Data.List.Forall2
import HeaderAccord.Proofs.Run.Course

/-!
What the entries of a run tell. The entries that speak of a failure are, in order, those of the
failures that the checkers report, and their contexts name what the failures are about, except for
the functions that no source file binds: these are told after the last file, in the context that it
leaves. This is shown for the events of each part of a check and put together along the parts; what
the parts have to agree on is the symbol that the context holds when the next one begins.
-/

namespace HeaderAccord

open Header Binding

/-! ### What is written to a log -/

/-- Between two states of a log, `lines` are written to the console and `entries` to the journal. -/
def RunLog.Writes (lines : List String) (entries : List LogEntry) (log log' : RunLog) : Prop :=
  log'.console.text = log.console.text ++ String.join (lines.map (· ++ "\n")) ∧
    ∃ j j', log.journal = some j ∧ log'.journal = some j' ∧
      j'.lines.toList = j.lines.toList ++ entries.map (·.line)

theorem RunLog.Writes.trans {lines lines' : List String} {entries entries' : List LogEntry}
    {log log₁ log₂ : RunLog} (h : Writes lines entries log log₁)
    (h' : Writes lines' entries' log₁ log₂) :
    Writes (lines ++ lines') (entries ++ entries') log log₂ := by
  obtain ⟨htext, j, j₁, hj, hj₁, hlines⟩ := h
  obtain ⟨htext', j₁', j₂, hj₁', hj₂, hlines'⟩ := h'
  obtain rfl : j₁ = j₁' := Option.some.inj (hj₁.symm.trans hj₁')
  refine ⟨?_, j, j₂, hj, hj₂, ?_⟩
  · rw [htext', htext, List.map_append, String.join_append, String.append_assoc]
  · rw [hlines', hlines, List.map_append, List.append_assoc]

theorem RunLog.Writes.journal_after {lines : List String} {entries : List LogEntry}
    {log log' : RunLog} (h : Writes lines entries log log') : log'.journal.isSome := by
  obtain ⟨-, -, j', -, hj', -⟩ := h
  simp [hj']

/-- An entry that is added to a journal is written, whatever else of the log changes. -/
theorem RunLog.writes_emit {log : RunLog} {j : Journal} (hj : log.journal = some j)
    (e : LogEntry) : Writes [] [j.stamped e] log (log.emit e) := by
  refine ⟨by simp [RunLog.emit, String.join], j, j.emit e, hj, by simp [RunLog.emit, hj], ?_⟩
  simpa using j.lines_emit e

theorem RunLog.Leaves.writes {log log' : RunLog} {entries : List LogEntry} {events : List Event}
    {j : Journal} (hj : log.journal = some j) (h : Leaves log log' entries events) :
    Writes (events.map (·.line)) (j.written entries) log log' := by
  refine ⟨?_, j, j.emitAll entries, hj, ?_, j.lines_emitAll entries⟩
  · rw [h.console, List.map_map]
    rfl
  · rw [h.journal, hj, Option.map_some]

/-! ### Failures and entries -/

/-- The details of an entry are an object with these members. -/
def LogEntry.Holds (e : LogEntry) (members : List (String × Json)) : Prop :=
  e.details.map (·.val) = some (.object members)

/-- Members that are in order are written as they are. -/
theorem RunLog.val_details {members : List (String × Json)}
    (h : (Json.object members).isOrdered = true) :
    (RunLog.details members).map (·.val) = some (.object members) :=
  congrArg some (Json.ordered_eq_self _ h)

theorem Json.isOrdered_pair {a b : String} (h : a < b) (x y : String) :
    (Json.object [(a, .string x), (b, .string y)]).isOrdered = true := by
  simp only [isOrdered, areOrderedMembers, List.all_cons, List.all_nil, decide_eq_true h,
    Bool.and_true]

/-- An entry that tells of a failure: it has the failure's message, or it holds the function, the
argument and the type that the message names. -/
def LogEntry.Tells (e : LogEntry) (failure : CheckFailure) : Prop :=
  (e.event = "check_failed" ∧ e.Holds [("message", .string failure.message)]) ∨
    e.event = "argument_checked" ∧ ∃ function argument type,
      e.symbol = some function ∧
      e.Holds [("argument", .string argument), ("type", .string type)] ∧
      failure.message = "✖ " ++ function ++ ": " ++ argument ++ ": " ++ type

def LogEntry.isFailure (e : LogEntry) : Bool := e.outcome = some .fail

/-- The entries that speak of a failure tell, in order, of `failures`, and none ends the run. -/
def LogEntry.TellAll (entries : List LogEntry) (failures : List CheckFailure) : Prop :=
  List.Forall₂ LogEntry.Tells (entries.filter (·.isFailure)) failures ∧
    ∀ e ∈ entries, e.event ≠ "run_finished"

theorem LogEntry.TellAll.append {entries entries' : List LogEntry}
    {failures failures' : List CheckFailure} (h : TellAll entries failures)
    (h' : TellAll entries' failures') : TellAll (entries ++ entries') (failures ++ failures') := by
  refine ⟨?_, fun e he => ?_⟩
  · rw [List.filter_append]
    exact List.rel_append h.1 h'.1
  · rcases List.mem_append.1 he with he | he
    · exact h.2 e he
    · exact h'.2 e he

/-- A trace id makes no difference to what entries tell. -/
theorem Journal.tellAll_written {entries : List LogEntry} {failures : List CheckFailure}
    (h : LogEntry.TellAll entries failures) (j : Journal) :
    LogEntry.TellAll (j.written entries) failures := by
  have hstamped (j : Journal) (e : LogEntry) : (j.stamped e).isFailure = e.isFailure ∧
      (j.stamped e).event = e.event ∧ ∀ failure, (j.stamped e).Tells failure ↔ e.Tells failure := by
    rw [stamped]
    split <;> exact ⟨rfl, rfl, fun _ => Iff.rfl⟩
  induction entries generalizing failures j with
  | nil => exact h
  | cons e entries ih =>
      obtain ⟨htells, hevents⟩ := h
      obtain ⟨hfailure, hevent, htell⟩ := hstamped j e
      obtain ⟨hfirst, hrest⟩ := List.forall_mem_cons.1 hevents
      rw [List.filter_cons] at htells
      rw [written, LogEntry.TellAll, List.filter_cons, hfailure, List.forall_mem_cons, hevent]
      split at htells
      · next hspeaks =>
        obtain ⟨failure, failures', hone, hmore, rfl⟩ := List.forall₂_cons_left_iff.1 htells
        obtain ⟨hmore', hrest'⟩ := ih ⟨hmore, hrest⟩ (j.emit e)
        rw [if_pos hspeaks]
        exact ⟨.cons ((htell failure).2 hone) hmore', hfirst, hrest'⟩
      · next hsilent =>
        obtain ⟨hmore', hrest'⟩ := ih ⟨htells, hrest⟩ (j.emit e)
        rw [if_neg hsilent]
        exact ⟨hmore', hfirst, hrest'⟩

/-! ### What failures are about -/

/-- The function or the structure that a failure is about. -/
inductive CheckFailure.IsAbout : CheckFailure → String → Prop
  | argument (function argument type : String) :
      IsAbout
        { checker := .arguments, message := "✖ " ++ function ++ ": " ++ argument ++ ": " ++ type }
        function
  | missing (function names : String) :
      IsAbout { checker := .arguments, message := function ++ " has missing args: " ++ names }
        function
  | uncovered (function : String) :
      IsAbout { checker := .coverage, message := function ++ " is not bound in any source file" }
        function
  | unknown (label name : String) :
      IsAbout { checker := .structures, message := "✖ Unknown " ++ label ++ " struct " ++ name }
        name
  | mismatch (label name fields : String) :
      IsAbout
        { checker := .structures
          message := "✖ Key mismatch in " ++ label ++ " struct " ++ name ++ ": " ++ fields }
        name

/-- The message tells which function is bound nowhere. -/
theorem isAbout_coverageFailure {function name : String} :
    (coverageFailure function).IsAbout name ↔ function = name := by
  constructor
  · intro h
    generalize hfailure : coverageFailure function = failure at h
    cases h with
    | uncovered name =>
        have hmessage := congrArg (fun f : CheckFailure => f.message.toList) hfailure
        simp only [coverageFailure, String.toList_append] at hmessage
        exact String.toList_injective (List.append_cancel_right hmessage)
    | argument => cases congrArg CheckFailure.checker hfailure
    | missing => cases congrArg CheckFailure.checker hfailure
    | unknown => cases congrArg CheckFailure.checker hfailure
    | mismatch => cases congrArg CheckFailure.checker hfailure
  · rintro rfl
    exact .uncovered function

/-- What the symbol of an entry has to do with a failure: the function that an argument belongs to
is named, a structure is not, and what is named with a function that is bound nowhere is another
one. -/
def LogEntry.Names (e : LogEntry) (failure : CheckFailure) : Prop :=
  match failure.checker with
  | .arguments => ∃ name, e.symbol = some name ∧ failure.IsAbout name
  | .coverage => ∀ name, e.symbol = some name → ¬failure.IsAbout name
  | .structures => e.symbol = none

/-- The checker that runs when a failure is told: bindings are missed with the arguments. -/
def Checker.stage : Checker → Checker
  | coverage => arguments
  | checker => checker

/-- How an entry speaks of a failure while a checker runs. -/
structure LogEntry.Speaks (running : Checker) (e : LogEntry) (failure : CheckFailure) : Prop where
  tells : e.Tells failure
  names : e.Names failure
  stage : failure.checker.stage = running

/-! ### Events that speak of failures -/

/-- Events that, told in a context whose symbol is as `P` says, speak of failures; the symbol is
then as `Q` says. -/
def Marks (running : Checker) (P : Option String → Prop) (events : List Event)
    (failures : List CheckFailure) (Q : Option String → Prop) : Prop :=
  ∀ log : RunLog, P log.symbol → Q (log.enterAll events).symbol ∧
    List.Forall₂ (LogEntry.Speaks running) ((log.entriesOf events).filter (·.isFailure)) failures

section

variable {running : Checker} {P Q R : Option String → Prop} {events events' : List Event}
  {failures failures' : List CheckFailure}

theorem marks_nil : Marks running P [] [] P := fun _ h => ⟨h, .nil⟩

theorem Marks.append (h : Marks running P events failures Q)
    (h' : Marks running Q events' failures' R) :
    Marks running P (events ++ events') (failures ++ failures') R := by
  intro log hP
  obtain ⟨hQ, hentries⟩ := h log hP
  obtain ⟨hR, hentries'⟩ := h' (log.enterAll events) hQ
  refine ⟨by rwa [RunLog.enterAll, List.foldl_append], ?_⟩
  rw [RunLog.entriesOf_append, List.filter_append]
  exact List.rel_append hentries hentries'

theorem Marks.flatMap {α : Type} {xs : List α} {f : α → List Event} {g : α → List CheckFailure}
    (h : ∀ x ∈ xs, Marks running P (f x) (g x) P) :
    Marks running P (xs.flatMap f) (xs.flatMap g) P := by
  induction xs with
  | nil => exact marks_nil
  | cons x xs ih =>
      obtain ⟨hx, hxs⟩ := List.forall_mem_cons.1 h
      exact hx.append (ih hxs)

theorem Marks.weaken {P' Q' : Option String → Prop} (h : Marks running P events failures Q)
    (hP : ∀ s, P' s → P s) (hQ : ∀ s, Q s → Q' s) : Marks running P' events failures Q' :=
  fun log hlog => (h log (hP _ hlog)).imp_left (hQ _)

/-- An event whose entry speaks of no failure. -/
theorem marks_silent {e : Event} (hsymbol : ∀ log : RunLog, P log.symbol → Q (log.enter e).symbol)
    (hsilent : ∀ log : RunLog, (log.entryOf e).outcome ≠ some .fail) :
    Marks running P [e] [] Q := by
  intro log hP
  refine ⟨hsymbol log hP, ?_⟩
  simp [RunLog.entriesOf, LogEntry.isFailure, hsilent]

/-- Failures that are recorded by their messages leave the symbol as it is. -/
theorem marks_recordedEvents
    (hnames : ∀ failure ∈ failures, ∀ e : LogEntry, P e.symbol → e.Names failure)
    (hstage : ∀ failure ∈ failures, failure.checker.stage = running) :
    Marks running P (recordedEvents failures) failures P := by
  induction failures with
  | nil => exact marks_nil
  | cons failure failures ih =>
      obtain ⟨hname, hnames⟩ := List.forall_mem_cons.1 hnames
      obtain ⟨hrunning, hstage⟩ := List.forall_mem_cons.1 hstage
      have hone : Marks running P [.failureRecorded failure.message] [failure] P := fun log hP =>
        ⟨hP, .cons ⟨.inl ⟨rfl, RunLog.val_details rfl⟩,
          hname (log.entryOf (.failureRecorded failure.message)) hP, hrunning⟩ .nil⟩
      exact hone.append (ih hnames hstage)

end

/-- An entry that speaks of a failure in the context of the checker that runs. -/
structure LogEntry.Attributed (e : LogEntry) (failure : CheckFailure) : Prop where
  tells : e.Tells failure
  names : e.Names failure
  checker : e.checker = some failure.checker.stage

theorem Marks.attributed {running : Checker} {P Q : Option String → Prop} {events : List Event}
    {failures : List CheckFailure} (h : Marks running P events failures Q) (hP : P none)
    (log : RunLog) :
    List.Forall₂ LogEntry.Attributed
      (((log.beginning running).entriesOf events).filter (·.isFailure)) failures := by
  have hchecker : ∀ e ∈ ((log.beginning running).entriesOf events).filter (·.isFailure),
      e.checker = some running := fun e he =>
    (RunLog.forall_mem_entriesOf _ _ e (List.mem_filter.1 he).1).1
  refine ((List.forall₂_and_left _ _).2 ⟨hchecker, (h (log.beginning running) hP).2⟩).imp ?_
  rintro e failure ⟨hrunning, htells, hnames, hstage⟩
  exact ⟨htells, hnames, hstage ▸ hrunning⟩

/-! ### The events of the checks -/

/-- The mark of a parameter names the function that the context holds. -/
theorem marks_parameterEvents (f : FunctionSignature) (p : Parameter) :
    Marks .arguments (· = some f.name) (parameterEvents f p) (parameterFailures f p)
      (· = some f.name) := by
  rw [parameterEvents, parameterFailures]
  cases (f.pointerArg? p.name).isSome with
  | false => exact marks_nil
  | true =>
      cases isReference p.type with
      | true => exact marks_silent (fun _ h => h) fun _ h => by cases h
      | false => exact fun log hsymbol => ⟨hsymbol,
          .cons ⟨.inr ⟨rfl, f.name, p.name, p.type, hsymbol,
              RunLog.val_details (Json.isOrdered_pair (by decide) _ _), rfl⟩,
            ⟨f.name, hsymbol, .argument f.name p.name p.type⟩, rfl⟩ .nil⟩

theorem marks_checkParameters (f : FunctionSignature) (ps : List Parameter) :
    Marks .arguments (· = some f.name) (checkParameters Traced.emit f ps).events
      (checkParameters Traced.emit f ps).result (· = some f.name) := by
  rw [checkParameters_emit]
  refine (Marks.flatMap fun p _ => marks_parameterEvents f p).append ?_
  rw [missingFailures]
  split
  · exact marks_nil
  · exact marks_recordedEvents
      (List.forall_mem_singleton.2 fun e hsymbol => ⟨f.name, hsymbol, .missing f.name _⟩)
      (List.forall_mem_singleton.2 rfl)

/-- No symbol, or a bound function. -/
def NamesBound (bound : List String) (symbol : Option String) : Prop :=
  ∀ name, symbol = some name → name ∈ bound

theorem marks_fileStarted {running : Checker} {P Q : Option String → Prop} (hQ : Q none)
    (path : Path) :
    Marks running P [.fileStarted path] [] Q :=
  marks_silent (fun _ _ => hQ) fun _ => nofun

section

variable {bound : List String}

theorem marks_functionRecord {mentions : List Mention} {f : FunctionSignature}
    (hbound : ∀ name, (functionRecord mentions f).result.map (·.1) = some name → name ∈ bound) :
    Marks .arguments (NamesBound bound) (functionRecord mentions f).events
      (((functionRecord mentions f).result.map (·.2)).getD []) (NamesBound bound) := by
  cases h : boundParameters? (Name.key f.name) mentions with
  | none =>
      rw [functionRecord_of_unbound h]
      exact marks_nil
  | some text =>
      rw [functionRecord_of_bound h] at hbound ⊢
      have hfound : Marks .arguments (NamesBound bound) [.functionFound f.name] []
          (· = some f.name) :=
        marks_silent (fun _ _ => rfl) fun _ => nofun
      refine (hfound.append (marks_checkParameters f (parametersOf text))).weaken
        (fun _ => id) ?_
      rintro _ rfl name hname
      exact hbound name hname

theorem marks_checkSource {index : HeaderIndex} {source : String}
    (hbound : ∀ name ∈ (scanOf index.functions source).bound, name ∈ bound) :
    Marks .arguments (NamesBound bound) (checkSource Traced.emit index source).events
      (scanOf index.functions source).failures (NamesBound bound) := by
  rw [events_checkSource, failures_scanOf]
  refine Marks.flatMap fun f hf => marks_functionRecord fun name hname => hbound name ?_
  rw [bound_scanOf, List.mem_filterMap]
  exact ⟨f, hf, hname⟩

end

/-- The functions that no file binds are told in the context that the last file leaves, and so with
a function that is bound, if with any. -/
theorem marks_filesRecord (index : HeaderIndex) (files : List (Path × String)) (strict : Bool) :
    Marks .arguments (· = none) (filesRecord index files strict).events
      (filesRecord index files strict).result fun _ => True := by
  let bound := (files.map fun f => scanOf index.functions f.2).flatMap (·.bound)
  have hfiles : Marks .arguments (NamesBound bound)
      (files.flatMap fun f => .fileStarted f.1 :: (checkSource Traced.emit index f.2).events)
      (files.flatMap fun f => (scanOf index.functions f.2).failures) (NamesBound bound) := by
    refine Marks.flatMap fun file hfile => ?_
    refine (marks_fileStarted (Q := NamesBound bound) nofun file.1).append
      (marks_checkSource fun name hname => ?_)
    exact List.mem_flatMap.2 ⟨_, List.mem_map_of_mem hfile, hname⟩
  have huncovered : Marks .arguments (NamesBound bound)
      (recordedEvents (if strict then coverageFailures index bound else []))
      (if strict then coverageFailures index bound else []) (NamesBound bound) := by
    split
    · refine marks_recordedEvents (fun failure hfailure e hsymbol => ?_) fun failure hfailure => ?_
      · obtain ⟨f, hf, rfl⟩ := List.mem_map.1 hfailure
        have hunbound : f.name ∉ bound := by simpa using (List.mem_filter.1 hf).2
        intro name hname habout
        obtain rfl := isAbout_coverageFailure.1 habout
        exact hunbound (hsymbol _ hname)
      · obtain ⟨f, -, rfl⟩ := List.mem_map.1 hfailure
        rfl
    · exact marks_nil
  have hfailures : (files.map fun f => scanOf index.functions f.2).flatMap (·.failures) =
      files.flatMap fun f => (scanOf index.functions f.2).failures := List.flatMap_map ..
  rw [filesRecord, hfailures]
  refine (hfiles.append huncovered).weaken (fun symbol hnone => ?_)
    fun _ _ => trivial
  rw [hnone]
  nofun

theorem checker_of_verdict {index : HeaderIndex} {label : String} {b : Override.Block}
    {failure : CheckFailure} (h : Override.verdict index label b = some failure) :
    failure.checker = .structures := by
  rw [Override.verdict] at h
  split at h
  · exact Option.some.inj h ▸ rfl
  · split at h
    · cases h
    · exact Option.some.inj h ▸ rfl

theorem marks_checkBlock (index : HeaderIndex) (label : String) (b : Override.Block) :
    Marks .structures (· = none) (Override.checkBlock Traced.emit index label b).events
      (Override.checkBlock Traced.emit index label b).result (· = none) := by
  rw [Override.checkBlock]
  cases hverdict : Override.verdict index label b with
  | none => exact marks_silent (fun _ h => h) fun _ h => by cases h
  | some failure =>
      change Marks .structures _ (recordedEvents [failure]) [failure] _
      have hchecker := checker_of_verdict hverdict
      refine marks_recordedEvents (List.forall_mem_singleton.2 fun e hsymbol => ?_)
        (List.forall_mem_singleton.2 (by rw [hchecker]; rfl))
      rw [LogEntry.Names, hchecker]
      exact hsymbol

/-- The structures of the build script are not named where they fail. -/
theorem marks_scriptRecord (index : HeaderIndex) (script : Path) (code : String) :
    Marks .structures (· = none) (scriptRecord index script code).events
      (scriptRecord index script code).result (· = none) := by
  rw [scriptRecord]
  refine (marks_fileStarted (Q := (· = none)) rfl script).append ?_
  simp only [Override.checkScript, Traced.events_bind, Traced.events_pure, Traced.events_mapM,
    Traced.result_mapM, List.append_nil, ← List.flatMap_def]
  exact Marks.flatMap fun b _ => marks_checkBlock index _ b

end HeaderAccord
