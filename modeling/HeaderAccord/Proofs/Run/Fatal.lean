import HeaderAccord.Proofs.CommandLine.Outcome
import HeaderAccord.Proofs.Run.Channels

/-!
Runs that an input ends. The inputs are read in five stages, and each stage is over before the next
one begins: so the error of a run is the first fault of the first stage that has one, which is said
here of the disk alone. The log of such a run tells of no source file that cannot be read, nor of
any later one, and never of a verdict.
-/

namespace HeaderAccord.Run

open Disk Binding RunLog CommandLine

/-! ### Faults -/

/-- A file below the source folder with the right extension. -/
def IsSource (d : Disk) (config : Config) (path : Path) (content : ByteArray) : Prop :=
  ∃ entries address, d.list config.sourceDir = .ok entries ∧
    entries.at? address = some (.file content) ∧
    path = Listing.descend config.sourceDir address ∧ path.extension? = some config.extension

/-- The stages in which a run reads its inputs. -/
inductive Stage
  /-- the headers and the build script, for their digests -/
  | bytes
  | headerText
  /-- the listing of the source folder -/
  | folder
  | sourceText
  | scriptText

/-- The first fault among the inputs of a run, with the stage that comes upon it. -/
inductive FirstFault (d : Disk) (config : Config) : Stage → CheckError → Prop
  | bytes {before after : List Path} {p : Path} {fault : IoFault}
      (hsplit : config.inputFiles = before ++ p :: after) (hbefore : ∀ q ∈ before, d.HasBytes q)
      (hfault : d.read p = .error fault) :
      FirstFault d config .bytes (.readInput p fault)
  | headerText {before after : List Path} {p : Path}
      (hbytes : ∀ q ∈ config.inputFiles, d.HasBytes q)
      (hsplit : config.headers = before ++ p :: after) (hbefore : ∀ q ∈ before, d.HasText q)
      (hfault : ¬d.HasText p) :
      FirstFault d config .headerText (.readInput p .invalidUtf8)
  | folder {fault : IoFault}
      (hbytes : ∀ q ∈ config.inputFiles, d.HasBytes q)
      (hheaders : ∀ q ∈ config.headers, d.HasText q)
      (hfault : d.list config.sourceDir = .error fault) :
      FirstFault d config .folder (.readDir config.sourceDir fault)
  /-- the least of the source files that are no text -/
  | sourceText {path : Path} {content : ByteArray}
      (hbytes : ∀ q ∈ config.inputFiles, d.HasBytes q)
      (hheaders : ∀ q ∈ config.headers, d.HasText q)
      (hsource : IsSource d config path content) (hfault : ¬content.IsValidUTF8)
      (hleast : ∀ path' content', IsSource d config path' content' → ¬content'.IsValidUTF8 →
        path.le path' = true) :
      FirstFault d config .sourceText (.readInput path .invalidUtf8)
  | scriptText {entries : Listing}
      (hbytes : ∀ q ∈ config.inputFiles, d.HasBytes q)
      (hheaders : ∀ q ∈ config.headers, d.HasText q)
      (hlist : d.list config.sourceDir = .ok entries)
      (hsources : ∀ path content, IsSource d config path content → content.IsValidUTF8)
      (hfault : ¬d.HasText config.buildScript) :
      FirstFault d config .scriptText (.readInput config.buildScript .invalidUtf8)

/-- Some input of a run cannot be read. -/
def Unreadable (d : Disk) (config : Config) : Prop :=
  (∃ p ∈ config.inputFiles, ¬d.HasText p) ∨
    (¬∃ entries, d.list config.sourceDir = .ok entries) ∨
    ∃ path content, IsSource d config path content ∧ ¬content.IsValidUTF8

theorem exists_first_of_not_forall {α : Type} {P : α → Prop} {xs : List α}
    (h : ¬∀ x ∈ xs, P x) :
    ∃ before x after, xs = before ++ x :: after ∧ (∀ y ∈ before, P y) ∧ ¬P x := by
  classical
  have hexists : ∃ x ∈ xs, decide (¬P x) = true := by simpa using h
  obtain ⟨x, hx⟩ := Option.isSome_iff_exists.1 (List.find?_isSome.2 hexists)
  obtain ⟨hnot, before, after, hsplit, hbefore⟩ := List.find?_eq_some_iff_append.1 hx
  exact ⟨before, x, after, hsplit, fun y hy => by simpa using hbefore y hy, by simpa using hnot⟩

section

variable {d : Disk} {config : Config} {entries : Listing}

theorem isSource_iff (htree : d.root.IsTree) (hlist : d.list config.sourceDir = .ok entries)
    {path : Path} {content : ByteArray} :
    IsSource d config path content ↔
      (path, content) ∈ sourceFiles config.sourceDir entries config.extension := by
  rw [mem_sourceFiles (isTree_of_list htree hlist)]
  constructor
  · rintro ⟨entries', address, hlist', hat, hpath, hext⟩
    cases hlist.symm.trans hlist'
    exact ⟨address, hat, hpath, hext⟩
  · exact fun ⟨address, hat, hpath, hext⟩ => ⟨entries, address, hlist, hat, hpath, hext⟩

theorem FirstFault.unreadable {stage : Stage} {e : CheckError} (h : FirstFault d config stage e) :
    Unreadable d config := by
  cases h with
  | @bytes before after p fault hsplit _ hfault =>
      refine .inl ⟨p, by simp [hsplit], fun ⟨content, hcontent, _⟩ => ?_⟩
      cases hfault.symm.trans (read_eq_ok_iff.2 hcontent)
  | @headerText before after p _ hsplit _ hfault =>
      exact .inl ⟨p, by simp [Config.inputFiles, hsplit], hfault⟩
  | folder _ _ hfault =>
      exact .inr (.inl fun ⟨entries, hlist⟩ => by cases hfault.symm.trans hlist)
  | sourceText _ _ hsource hfault => exact .inr (.inr ⟨_, _, hsource, hfault⟩)
  | scriptText _ _ _ _ hfault => exact .inl ⟨_, by simp [Config.inputFiles], hfault⟩

theorem Readable.not_unreadable {headers : List String} {script : String}
    (h : Readable d config headers entries script) : ¬Unreadable d config := by
  rintro (⟨p, hp, hfault⟩ | hfault |
    ⟨path, content, ⟨entries', address, hlist, hat, rfl, hext⟩, hfault⟩)
  · exact hfault (h.hasText_inputFiles p hp)
  · exact hfault ⟨entries, h.lists_sources⟩
  · cases h.lists_sources.symm.trans hlist
    exact hfault (exists_decode_eq_ok_iff.1 (h.reads_sources address content hat hext))

theorem valid_sourceFiles (htree : d.root.IsTree) (hlist : d.list config.sourceDir = .ok entries)
    (h : ∀ path content, IsSource d config path content → content.IsValidUTF8) :
    ∀ f ∈ sourceFiles config.sourceDir entries config.extension, f.2.IsValidUTF8 :=
  fun f hf => h f.1 f.2 ((isSource_iff htree hlist).2 hf)

/-- In the list of the source files a file stands strictly before all that follow it. -/
theorem le_of_sourceFiles_split (htree : d.root.IsTree)
    (hlist : d.list config.sourceDir = .ok entries) {before after : List (Path × ByteArray)}
    {f : Path × ByteArray}
    (hsplit : sourceFiles config.sourceDir entries config.extension = before ++ f :: after) :
    (∀ a ∈ before, ∀ b ∈ f :: after, a.1.le b.1 = true ∧ a.1.components ≠ b.1.components) ∧
      ∀ b ∈ f :: after, f.1.le b.1 = true := by
  have hsorted : (sourceFiles config.sourceDir entries config.extension).Pairwise _ :=
    pairwise_sourceFiles (text_ne_of_list hlist) (isTree_of_list htree hlist)
  rw [hsplit, List.pairwise_append, List.pairwise_cons] at hsorted
  refine ⟨hsorted.2.2, List.forall_mem_cons.2 ⟨?_, fun b hb => (hsorted.2.1.1 b hb).1⟩⟩
  simpa [Path.le] using Path.componentsLe_total f.1.components f.1.components

theorem exists_headers (h : ∀ q ∈ config.headers, d.HasText q) :
    ∃ headers, config.headers.mapM d.readText = .ok headers :=
  exists_mapM_eq_ok_iff.2 fun q hq => exists_readText_eq_ok_iff.2 (h q hq)

/-- Either there is a first fault or everything can be read. -/
theorem exists_firstFault_or_readable (config : Config) (htree : d.root.IsTree) :
    (∃ stage e, FirstFault d config stage e) ∨
      ∃ headers entries script, Readable d config headers entries script := by
  by_cases hbytes : ∀ q ∈ config.inputFiles, d.HasBytes q
  case neg =>
    obtain ⟨before, p, after, hsplit, hbefore, hp⟩ := exists_first_of_not_forall hbytes
    cases hread : d.read p with
    | ok content => exact absurd ⟨content, read_eq_ok_iff.1 hread⟩ hp
    | error fault => exact .inl ⟨_, _, .bytes hsplit hbefore hread⟩
  by_cases hheaders : ∀ q ∈ config.headers, d.HasText q
  case neg =>
    obtain ⟨before, p, after, hsplit, hbefore, hp⟩ := exists_first_of_not_forall hheaders
    exact .inl ⟨_, _, .headerText hbytes hsplit hbefore hp⟩
  cases hlist : d.list config.sourceDir with
  | error fault => exact .inl ⟨_, _, .folder hbytes hheaders hlist⟩
  | ok entries =>
  by_cases hsources : ∀ f ∈ sourceFiles config.sourceDir entries config.extension,
    f.2.IsValidUTF8
  case neg =>
    obtain ⟨before, f, after, hsplit, hbefore, hf⟩ := exists_first_of_not_forall hsources
    have hsource := (isSource_iff htree hlist).2 (hsplit ▸ List.mem_append_right before
      (List.mem_cons_self (a := f) (l := after)))
    refine .inl ⟨_, _, .sourceText hbytes hheaders hsource hf fun path' content' hsource' hf' => ?_⟩
    have hmem := (isSource_iff htree hlist).1 hsource'
    rw [hsplit, List.mem_append] at hmem
    obtain hmem | hmem := hmem
    · exact absurd (hbefore _ hmem) hf'
    · exact (le_of_sourceFiles_split htree hlist hsplit).2 _ hmem
  by_cases hscript : d.HasText config.buildScript
  case neg =>
    exact .inl ⟨_, _, .scriptText hbytes hheaders hlist
      (fun path content h => hsources _ ((isSource_iff htree hlist).1 h)) hscript⟩
  obtain ⟨headers, htexts⟩ := exists_headers hheaders
  obtain ⟨script, hcode⟩ := exists_readText_eq_ok_iff.2 hscript
  exact .inr ⟨headers, entries, script,
    { tree := htree
      reads_headers := htexts
      lists_sources := hlist
      reads_sources := fun address content hat hext => exists_decode_eq_ok_iff.2 <|
        hsources _ ((isSource_iff htree hlist).1 ⟨entries, address, hlist, hat, rfl, hext⟩)
      reads_script := hcode }⟩

end

/-! ### The record up to a fault -/

section

variable {d : Disk} {config : Config} {log : RunLog} {result : Except CheckError CheckReport}
  {entries : List LogEntry} {events : List Event}

/-- The entries of a run that comes to an error: those of the run itself, and those of its events,
all of which come from the check of the source files. -/
theorem Course.entries_of_error {e : CheckError}
    (h : Course d config log (.error e) entries events) :
    ∃ notes, notes.map (·.event) <+: ["run_started", "headers_indexed"] ∧
      entries = notes ++ (log.beginning .arguments).entriesOf events := by
  generalize hresult : Except.error e = result at h
  cases h with
  | unpinned => exact ⟨[], List.nil_prefix, rfl⟩
  | @unindexed _ start _ _ hstart =>
      exact ⟨[start], by simp [hstart.1], rfl⟩
  | @unsourced _ start indexed _ _ _ _ hstart _ hindexed =>
      exact ⟨[start, indexed], by simp [hstart.1, hindexed.1], rfl⟩
  | @unscripted _ start indexed index _ script _ _ _ hstart _ hindexed _ hscript =>
      -- the build script is read before any event of its check
      cases hread : d.readText config.buildScript with
      | ok code =>
          rw [run_checkScriptFile_of_ok index hread] at hscript
          cases hscript
      | error fault =>
          rw [run_checkScriptFile_of_fault index hread] at hscript
          cases hscript
          refine ⟨[start, indexed], by simp [hstart.1, hindexed.1], ?_⟩
          simp [entriesOf]
  | done => cases hresult

end

section

variable {d : Disk} {config : Config} {headers : List String} {entries : Listing}

theorem run_pinned_of_bytes {before after : List Path} {p : Path} {fault : IoFault}
    (hsplit : config.inputFiles = before ++ p :: after) (hbefore : ∀ q ∈ before, d.HasBytes q)
    (hfault : d.read p = .error fault) :
    (pinned d config).run = { events := [], result := .error (.readInput p fault) } := by
  rw [pinned, artifacts_of_fault hsplit hbefore hfault]
  rfl

theorem run_pinned_of_headerText {before after : List Path} {p : Path}
    (hbytes : ∀ q ∈ config.inputFiles, d.HasBytes q)
    (hsplit : config.headers = before ++ p :: after) (hbefore : ∀ q ∈ before, d.HasText q)
    (hfault : ¬d.HasText p) :
    (pinned d config).run = { events := [], result := .error (.readInput p .invalidUtf8) } := by
  obtain ⟨as, hartifacts⟩ := exists_artifacts_eq_ok_iff.2 hbytes
  have hp : d.HasBytes p := hbytes p (by simp [Config.inputFiles, hsplit])
  rw [pinned, recorded, hartifacts, hsplit,
    headerIndex_of_fault hbefore (readText_of_not_hasText hp hfault)]
  rfl

theorem run_pinned_of_folder {fault : IoFault} (hbytes : ∀ q ∈ config.inputFiles, d.HasBytes q)
    (hheaders : config.headers.mapM d.readText = .ok headers)
    (hfault : d.list config.sourceDir = .error fault) :
    (pinned d config).run =
      { events := [], result := .error (.readDir config.sourceDir fault) } := by
  rw [pinned_of_headers hbytes hheaders]
  exact Recorded.run_bind_of_error (run_checkSources_of_unlisted _ _ hfault) _

theorem run_pinned_of_sourceText {before after : List (Path × ByteArray)} {path : Path}
    {content : ByteArray} (hbytes : ∀ q ∈ config.inputFiles, d.HasBytes q)
    (hheaders : config.headers.mapM d.readText = .ok headers)
    (hlist : d.list config.sourceDir = .ok entries)
    (hsplit : sourceFiles config.sourceDir entries config.extension =
      before ++ (path, content) :: after)
    (hbefore : ∀ f ∈ before, f.2.IsValidUTF8) (hfault : ¬content.IsValidUTF8) :
    (pinned d config).run =
      { events := before.flatMap fun f =>
          .fileStarted f.1 :: (checkSource Traced.emit
            (HeaderIndex.ofTexts headers config.exportMarker) (Disk.textOf f.2)).events
        result := .error (.readInput path .invalidUtf8) } := by
  have hdecode : Disk.decode (path, content).2 = .error .invalidUtf8 :=
    decode_of_not_isValidUTF8 hfault
  rw [pinned_of_headers hbytes hheaders]
  exact Recorded.run_bind_of_error (run_checkSources_of_fault _ hlist hsplit
    (fun f hf => exists_decode_eq_ok_iff.2 (hbefore f hf)) hdecode) _

theorem run_pinned_of_scriptText (hbytes : ∀ q ∈ config.inputFiles, d.HasBytes q)
    (hheaders : config.headers.mapM d.readText = .ok headers)
    (hlist : d.list config.sourceDir = .ok entries)
    (hsources : ∀ f ∈ sourceFiles config.sourceDir entries config.extension, f.2.IsValidUTF8)
    (hfault : ¬d.HasText config.buildScript) :
    (pinned d config).run =
      { events := (filesRecord (HeaderIndex.ofTexts headers config.exportMarker)
          (sourceTexts config.sourceDir entries config.extension) config.strictCoverage).events
        result := .error (.readInput config.buildScript .invalidUtf8) } := by
  have hscript : d.HasBytes config.buildScript := hbytes _ (by simp [Config.inputFiles])
  rw [pinned_of_headers hbytes hheaders, Recorded.run_bind_of_ok (run_checkSources_of_ok _ hlist
    fun f hf => exists_decode_eq_ok_iff.2 (hsources f hf)), Recorded.run_bind_of_error
    (run_checkScriptFile_of_fault _ (readText_of_not_hasText hscript hfault)), List.append_nil]
  rfl

end

/-! ### What a fault comes to -/

/-- The events of source files that are texts and stand strictly before every one that is none; only
if there is none of these, those of functions that are bound nowhere may follow. -/
def TellsBeforeFaults (d : Disk) (config : Config) (events : List Event) : Prop :=
  ∃ (index : HeaderIndex) (files : List (Path × String)) (uncovered : List CheckFailure),
    events = files.flatMap (fun f =>
      .fileStarted f.1 :: (checkSource Traced.emit index f.2).events) ++
        recordedEvents uncovered ∧
    (∀ f ∈ files, ∃ content, IsSource d config f.1 content ∧ Disk.decode content = .ok f.2) ∧
    ∀ path content, IsSource d config path content → ¬content.IsValidUTF8 →
      uncovered = [] ∧ ∀ f ∈ files, f.1.le path = true ∧ f.1.components ≠ path.components

section

variable {d : Disk} {config : Config} {stage : Stage} {e : CheckError}

theorem tellsBeforeFaults_nil (d : Disk) (config : Config) : TellsBeforeFaults d config [] :=
  ⟨{}, [], [], rfl, List.forall_mem_nil _, fun _ _ _ _ => ⟨rfl, List.forall_mem_nil _⟩⟩

/-- The least source file that is no text, in the list of the source files. -/
theorem exists_split_of_least (htree : d.root.IsTree) {path : Path} {content : ByteArray}
    (hsource : IsSource d config path content)
    (hleast : ∀ path' content', IsSource d config path' content' → ¬content'.IsValidUTF8 →
      path.le path' = true) :
    ∃ entries before after, d.list config.sourceDir = .ok entries ∧
      sourceFiles config.sourceDir entries config.extension = before ++ (path, content) :: after ∧
      ∀ f ∈ before, f.2.IsValidUTF8 := by
  obtain ⟨entries, -, hlist, -⟩ := id hsource
  obtain ⟨before, after, hsplit⟩ :=
    List.append_of_mem ((isSource_iff htree hlist).1 hsource)
  refine ⟨entries, before, after, hlist, hsplit, fun f hf => ?_⟩
  by_contra hinvalid
  have hf' : IsSource d config f.1 f.2 :=
    (isSource_iff htree hlist).2 (hsplit ▸ List.mem_append_left _ hf)
  obtain ⟨hle, hne⟩ := (le_of_sourceFiles_split htree hlist hsplit).1 f hf _ List.mem_cons_self
  exact hne (Path.componentsLe_antisymm hle (hleast f.1 f.2 hf' hinvalid))

/-- A run comes to its first fault, and tells of no file that is no text nor of any later one. -/
theorem FirstFault.run_pinned (htree : d.root.IsTree) (h : FirstFault d config stage e) :
    ∃ events, (pinned d config).run = { events, result := .error e } ∧
      TellsBeforeFaults d config events := by
  cases h with
  | bytes hsplit hbefore hfault =>
      exact ⟨[], run_pinned_of_bytes hsplit hbefore hfault, tellsBeforeFaults_nil d config⟩
  | headerText hbytes hsplit hbefore hfault =>
      exact ⟨[], run_pinned_of_headerText hbytes hsplit hbefore hfault,
        tellsBeforeFaults_nil d config⟩
  | folder hbytes hheaders hfault =>
      obtain ⟨headers, hheaders⟩ := exists_headers hheaders
      exact ⟨[], run_pinned_of_folder hbytes hheaders hfault, tellsBeforeFaults_nil d config⟩
  | sourceText hbytes hheaders hsource hfault hleast =>
      obtain ⟨headers, hheaders⟩ := exists_headers hheaders
      obtain ⟨entries, before, after, hlist, hsplit, hbefore⟩ :=
        exists_split_of_least htree hsource hleast
      have hfiles := le_of_sourceFiles_split htree hlist hsplit
      refine ⟨_, run_pinned_of_sourceText hbytes hheaders hlist hsplit hbefore hfault,
        HeaderIndex.ofTexts headers config.exportMarker,
        before.map fun f => (f.1, Disk.textOf f.2), [], ?_, ?_, ?_⟩
      · simp [recordedEvents, List.flatMap_map]
      · refine List.forall_mem_map.2 fun f hf => ⟨f.2, ?_, decode_of_isValidUTF8 (hbefore f hf)⟩
        exact (isSource_iff htree hlist).2 (hsplit ▸ List.mem_append_left _ hf)
      · refine fun path' content' hsource' hfault' => ⟨rfl, List.forall_mem_map.2 fun f hf => ?_⟩
        -- the other file is not before the first one that is no text
        have hmem := (isSource_iff htree hlist).1 hsource'
        rw [hsplit, List.mem_append] at hmem
        obtain hmem | hmem := hmem
        · exact absurd (hbefore _ hmem) hfault'
        · exact hfiles.1 f hf _ hmem
  | scriptText hbytes hheaders hlist hsources hfault =>
      obtain ⟨headers, hheaders⟩ := exists_headers hheaders
      have hfiles := valid_sourceFiles htree hlist hsources
      refine ⟨_, run_pinned_of_scriptText hbytes hheaders hlist hfiles hfault,
        _, _, _, rfl, ?_, fun path content hsource hfault => absurd (hsources _ _ hsource) hfault⟩
      exact List.forall_mem_map.2 fun f hf =>
        ⟨f.2, (isSource_iff htree hlist).2 hf, decode_of_isValidUTF8 (hfiles f hf)⟩

/-- On a console without limit the run ends in the first fault. -/
theorem FirstFault.run_checks (htree : d.root.IsTree) (h : FirstFault d config stage e)
    {log : RunLog} (hroom : log.console.room = none) :
    ∃ log' entries events, (checks d config).run.run log = (.error e, log') ∧
      Course d config log (.error e) entries events ∧ Leaves log log' entries events ∧
      (pinned d config).run = { events, result := .error e } := by
  obtain ⟨events, hpinned, -⟩ := h.run_pinned htree
  rcases hrun : (checks d config).run.run log with ⟨result, log'⟩
  obtain ⟨_, -, hfull⟩ | ⟨entries, events', hcourse, hleaves⟩ := course_of_run hrun
  · exact absurd hroom hfull
  · obtain ⟨rfl, rfl⟩ := Traced.mk.inj (hcourse.run_pinned.symm.trans hpinned)
    exact ⟨log', entries, _, rfl, hcourse, hleaves, hpinned⟩

/-- If the build script is the first input that cannot be read, and that only as text, the console
shows the whole check of the source files before the run ends. If a header or the bytes of the build
script cannot be read, it shows nothing. -/
theorem console_of_firstFault (htree : d.root.IsTree) (h : FirstFault d config stage e)
    {log : RunLog} (hroom : log.console.room = none) :
    ∃ log', (checks d config).run.run log = (.error e, log') ∧
      (stage = .bytes ∨ stage = .headerText → log'.console.text = log.console.text) ∧
      (stage = .scriptText → ∃ headers entries,
        config.headers.mapM d.readText = .ok headers ∧
        d.list config.sourceDir = .ok entries ∧
        log'.console.text = log.console.text ++
          String.join ((filesRecord (HeaderIndex.ofTexts headers config.exportMarker)
            (sourceTexts config.sourceDir entries config.extension)
            config.strictCoverage).events.map (·.line ++ "\n"))) := by
  obtain ⟨log', entries, events, hrun, -, hleaves, hpinned⟩ := h.run_checks htree hroom
  have hevents {events' : List Event} {e' : CheckError}
      (hrun' : (pinned d config).run = { events := events', result := .error e' }) :
      events = events' := congrArg Traced.events (hpinned.symm.trans hrun')
  refine ⟨log', hrun, ?_, ?_⟩
  · have hnothing (hnil : events = []) : log'.console.text = log.console.text := by
      rw [hleaves.console, hnil]
      exact String.append_empty
    rintro (rfl | rfl)
    · cases h with
      | bytes hsplit hbefore hfault =>
          exact hnothing (hevents (run_pinned_of_bytes hsplit hbefore hfault))
    · cases h with
      | headerText hbytes hsplit hbefore hfault =>
          exact hnothing (hevents (run_pinned_of_headerText hbytes hsplit hbefore hfault))
  · rintro rfl
    cases h with
    | scriptText hbytes hheaders hlist hsources hfault =>
        obtain ⟨headers, hheaders⟩ := exists_headers hheaders
        refine ⟨headers, _, hheaders, hlist, ?_⟩
        rw [hleaves.console, hevents (run_pinned_of_scriptText hbytes hheaders hlist
          (valid_sourceFiles htree hlist hsources) hfault)]

end

/-! A project whose source file and build script have any bytes. -/

def projectOf (source script : ByteArray) : Disk where
  root := .file "a.h" "WGPU_EXPORT void f(int *p);".toUTF8
    (.file "build.rs" script (.folder "src" (.file "a.rs" source .nil) .nil))
  cwd := []

def noText : ByteArray := ⟨#[0xff]⟩

section

variable (source script : ByteArray)

theorem isTree_projectOf : (projectOf source script).root.IsTree := by
  simp only [projectOf, Listing.IsTree, Listing.names]
  decide

theorem hasBytes_projectOf : ∀ q ∈ oneHeader.inputFiles, (projectOf source script).HasBytes q :=
  List.forall_mem_cons.2 ⟨⟨_, ["a.h"], rfl, rfl⟩,
    List.forall_mem_singleton.2 ⟨script, ["build.rs"], rfl, rfl⟩⟩

theorem hasText_projectOf : ∀ q ∈ oneHeader.headers, (projectOf source script).HasText q :=
  List.forall_mem_singleton.2 ⟨_, ⟨["a.h"], rfl, rfl⟩, String.isValidUTF8 _⟩

theorem isSource_projectOf_iff {path : Path} {content : ByteArray} :
    IsSource (projectOf source script) oneHeader path content ↔
      path = ⟨"src/a.rs"⟩ ∧ content = source := by
  constructor
  · rintro ⟨entries, address, hlist, hat, rfl, -⟩
    obtain rfl : Listing.file "a.rs" source .nil = entries := Except.ok.inj hlist
    cases address with
    | nil => simp at hat
    | cons name address =>
        rw [Listing.file_at?_cons, Listing.nil_at?_cons] at hat
        obtain ⟨rfl, rfl, rfl⟩ : "a.rs" = name ∧ address = [] ∧ source = content := by
          simpa using hat
        exact ⟨rfl, rfl⟩
  · rintro ⟨rfl, rfl⟩
    exact ⟨_, ["a.rs"], rfl, rfl, rfl, rfl⟩

end

theorem console_of_firstFault_noText :
    ∃ log' headers entries,
      (checks (projectOf "fn f(p: u8)".toUTF8 noText) oneHeader).run.run {} =
        (.error (.readInput ⟨"build.rs"⟩ .invalidUtf8), log') ∧
      log'.console.text = "" ++ String.join ((filesRecord
        (HeaderIndex.ofTexts headers oneHeader.exportMarker)
        (sourceTexts oneHeader.sourceDir entries oneHeader.extension) false).events.map
          (·.line ++ "\n")) := by
  have hfault : ¬(projectOf "fn f(p: u8)".toUTF8 noText).HasText ⟨"build.rs"⟩ := by
    rintro ⟨content, ⟨address, hlocate, hat⟩, hvalid⟩
    obtain rfl : ["build.rs"] = address := Except.ok.inj hlocate
    obtain rfl : noText = content := Node.file.inj (Option.some.inj hat)
    exact absurd hvalid (by decide)
  have hfirst : FirstFault (projectOf "fn f(p: u8)".toUTF8 noText) oneHeader .scriptText
      (.readInput ⟨"build.rs"⟩ .invalidUtf8) :=
    .scriptText (hasBytes_projectOf _ _) (hasText_projectOf _ _) rfl
      (fun path content hsource => by
        rw [((isSource_projectOf_iff _ _).1 hsource).2]
        exact String.isValidUTF8 _) hfault
  have hroom : ({} : RunLog).console.room = none := rfl
  obtain ⟨log', hrun, -, htext⟩ := console_of_firstFault (isTree_projectOf _ _) hfirst hroom
  obtain ⟨headers, entries, -, -, htext⟩ := htext rfl
  exact ⟨log', headers, entries, hrun, htext⟩

/-- The run ends because the build script is no text, but the check of a source file shows. -/
theorem console_of_checks_noText :
    let outcome := (checks (projectOf "fn f(p: u8)".toUTF8 noText) oneHeader).run.run {}
    outcome.1 = .error (.readInput ⟨"build.rs"⟩ .invalidUtf8) ∧
      outcome.2.console.text = "== Checking src/a.rs\nIn f:\n  ✖ p: u8\n" := by
  decide +kernel

/-! ### When a run fails -/

section

variable {d : Disk} {config : Config} {log log' : RunLog} {result : Except CheckError CheckReport}

/-- On a console without limit every run comes to its first fault or, if there is none, to a
report. -/
theorem firstFault_or_readable_of_run (htree : d.root.IsTree) (hroom : log.console.room = none)
    (h : (checks d config).run.run log = (result, log')) :
    (∃ stage e, FirstFault d config stage e ∧ result = .error e) ∨
      ∃ report headers entries script, result = .ok report ∧
        Readable d config headers entries script := by
  obtain ⟨stage, e, hfault⟩ | ⟨headers, entries, script, hreadable⟩ :=
    exists_firstFault_or_readable config htree
  · obtain ⟨_, _, _, hrun, -⟩ := hfault.run_checks htree hroom
    exact .inl ⟨stage, e, hfault, congrArg Prod.fst (h.symm.trans hrun)⟩
  · have hresult := (yields_checks hreadable log).1
    rw [h] at hresult
    obtain hok | ⟨_, -, hfull⟩ := hresult
    · exact .inr ⟨_, headers, entries, script, hok, hreadable⟩
    · exact absurd hroom hfull

/-- The error of a run is its first fault. -/
theorem eq_error_iff_firstFault (htree : d.root.IsTree) (hroom : log.console.room = none)
    (h : (checks d config).run.run log = (result, log')) (e : CheckError) :
    result = .error e ↔ ∃ stage, FirstFault d config stage e := by
  constructor
  · rintro rfl
    obtain ⟨stage, e', hfault, heq⟩ | ⟨_, _, _, _, hok, -⟩ :=
      firstFault_or_readable_of_run htree hroom h
    · cases heq
      exact ⟨stage, hfault⟩
    · cases hok
  · rintro ⟨stage, hfault⟩
    obtain ⟨_, _, _, hrun, -⟩ := hfault.run_checks htree hroom
    exact congrArg Prod.fst (h.symm.trans hrun)

/-- A run comes to an error exactly if an input cannot be read. -/
theorem exists_error_iff_unreadable (htree : d.root.IsTree) (hroom : log.console.room = none)
    (h : (checks d config).run.run log = (result, log')) :
    (∃ e, result = .error e) ↔ Unreadable d config := by
  obtain ⟨stage, e, hfault, heq⟩ | ⟨report, _, _, _, hok, hreadable⟩ :=
    firstFault_or_readable_of_run htree hroom h
  · exact iff_of_true ⟨e, heq⟩ hfault.unreadable
  · refine iff_of_false (fun ⟨e, he⟩ => ?_) hreadable.not_unreadable
    cases hok.symm.trans he

end

/-- A run errs exactly if one of its inputs cannot be read, and its error is the first fault among
them. Such a run tells of no source file that is no text nor of any later one; none of its entries
gives a verdict. The command that it belongs to fails, and puts out no more than the lines of its
events. -/
theorem checks_fail_iff {d : Disk} {config : Config} {log log' : RunLog}
    {result : Except CheckError CheckReport} (htree : d.root.IsTree)
    (hroom : log.console.room = none) (h : (checks d config).run.run log = (result, log')) :
    ((∃ e, result = .error e) ↔ Unreadable d config) ∧
    (∀ e, result = .error e ↔ ∃ stage, FirstFault d config stage e) ∧
    ∀ e, result = .error e → ∃ notes entries events,
      notes.map (·.event) <+: ["run_started", "headers_indexed"] ∧
      entries = notes ++ (log.beginning .arguments).entriesOf events ∧
      TellsBeforeFaults d config events ∧
      log'.journal = log.journal.map (·.emitAll entries) ∧
      (∀ entry ∈ entries, entry.event ≠ "run_finished") ∧
      log'.console.text = log.console.text ++ String.join (events.map (·.line ++ "\n")) ∧
      ∀ d₀ inputs journal? now runName, inputs.load d₀ = .ok config → Opens d₀ journal? d →
        let outcome := CommandLine.check d₀ inputs journal? now runName
        outcome.exitCode ≠ 0 ∧ outcome.stdout = String.join (events.map (·.line ++ "\n")) := by
  refine ⟨exists_error_iff_unreadable htree hroom h, eq_error_iff_firstFault htree hroom h, ?_⟩
  rintro e rfl
  obtain ⟨stage, hfault⟩ := (eq_error_iff_firstFault htree hroom h e).1 rfl
  obtain ⟨events, hpinned, htells⟩ := hfault.run_pinned htree
  obtain ⟨log₁, entries, events', hrun, hcourse, hleaves, hpinned'⟩ := hfault.run_checks htree hroom
  obtain rfl : log' = log₁ := congrArg Prod.snd (h.symm.trans hrun)
  obtain rfl : events = events' := congrArg Traced.events (hpinned.symm.trans hpinned')
  obtain ⟨notes, hnotes, hentries⟩ := hcourse.entries_of_error
  refine ⟨notes, entries, events, hnotes, hentries, htells, hleaves.journal, hcourse.unfinished,
    hleaves.console, fun d₀ inputs journal? now runName hload hopens => ?_⟩
  -- the log of the command begins on an empty console, and the record is the same
  have hroom' : (startLog journal? now runName).console.room = none := rfl
  obtain ⟨log₂, _, events', hrun', -, hleaves', hpinned'⟩ := hfault.run_checks htree hroom'
  obtain rfl : events = events' := congrArg Traced.events (hpinned.symm.trans hpinned')
  obtain ⟨hexit, hstdout⟩ := checkOpen_of_error hrun'
  rw [check_of_opens hload hopens]
  refine ⟨hexit, ?_⟩
  rw [hstdout, hleaves'.console]
  exact String.empty_append

/-- Of a source file and a build script that are both no texts, the source file is the error. -/
theorem checks_fail_iff_noText :
    ((checks (projectOf noText noText) oneHeader).run.run {}).1 =
        .error (.readInput ⟨"src/a.rs"⟩ .invalidUtf8) ∧
      (CommandLine.check (projectOf noText noText) { overrides := { headers := [⟨"a.h"⟩] } } none
        "" "").exitCode ≠ 0 := by
  have hroom : ({} : RunLog).console.room = none := rfl
  rcases hrun : (checks (projectOf noText noText) oneHeader).run.run {} with ⟨result, log'⟩
  obtain ⟨-, herror, hends⟩ := checks_fail_iff (isTree_projectOf _ _) hroom hrun
  have hresult := (herror (.readInput ⟨"src/a.rs"⟩ .invalidUtf8)).2 ⟨.sourceText,
    .sourceText (hasBytes_projectOf _ _) (hasText_projectOf _ _)
      ((isSource_projectOf_iff _ _).2 ⟨rfl, rfl⟩) (by decide) fun path content hsource _ => by
        obtain ⟨rfl, -⟩ := (isSource_projectOf_iff _ _).1 hsource
        decide⟩
  obtain ⟨_, _, _, -, -, -, -, -, -, hcommand⟩ := hends _ hresult
  exact ⟨hresult, (hcommand (projectOf noText noText) _ none _ _ rfl rfl).1⟩

end HeaderAccord.Run
