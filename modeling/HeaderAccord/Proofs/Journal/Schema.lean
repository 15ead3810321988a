import HeaderAccord.Journal.Schema
import HeaderAccord.Proofs.Json.ValueReading
import HeaderAccord.Proofs.Text

/-!
Which lines fit the schema. The rules on single fields and the reader of entries look at different
things; together they accept exactly the objects that are written for an entry whose trace id has
two colons in it. A level, a checker or an outcome may also be written as an object with its name
and a null in it, and an artifact as the array of its values.
-/

namespace HeaderAccord.Schema

open Json ValueReader LogEntry Text

/-! ### What an entry is written as -/

def IsText (v : Json) (s : String) : Prop := v = .string s

def IsExitCode (v : Json) (n : Int32) : Prop := v = .integer n.toInt

def IsSize (v : Json) (n : UInt64) : Prop := v = .integer n.toNat

/-- An artifact is written as an object, or as the array of its values. -/
inductive IsArtifact : Json → Artifact → Prop
  | object {members : List (String × Json)} {a : Artifact}
      (path : Has IsText members "path" a.path) (kind : Has IsText members "kind" a.kind)
      (sha256 : Has IsText members "sha256" a.sha256)
      (sizeBytes : Has IsSize members "size_bytes" a.sizeBytes) : IsArtifact (.object members) a
  | array {path kind sha256 size : Json} {a : Artifact} (path_eq : IsText path a.path)
      (kind_eq : IsText kind a.kind) (sha256_eq : IsText sha256 a.sha256)
      (size_eq : IsSize size a.sizeBytes) : IsArtifact (.array [path, kind, sha256, size]) a

def AreArtifacts (v : Json) (as : List Artifact) : Prop :=
  ∃ items, v = .array items ∧ List.Forall₂ IsArtifact items as

def IsDetails (v : Json) (d : OrderedJson) : Prop := v.toOrdered = d

/-- The members of an object are written for an entry: of several members of one name the last one
counts, and other names are passed over. -/
structure Fits (members : List (String × Json)) (e : LogEntry) : Prop where
  timestamp : Has IsText members "timestamp" e.timestamp
  traceId : Has IsText members "trace_id" e.traceId
  level : Has (fun v l => IsNamed (LogLevel.name l) v) members "level" e.level
  event : Has IsText members "event" e.event
  checker : MayHave (fun v c => IsNamed (Checker.name c) v) members "checker" e.checker
  file : MayHave IsText members "file" e.file
  symbol : MayHave IsText members "symbol" e.symbol
  outcome : MayHave (fun v o => IsNamed (CheckOutcome.name o) v) members "outcome" e.outcome
  exitCode : MayHave IsExitCode members "exit_code" e.exitCode
  artifacts : MayHave AreArtifacts members "artifacts" e.artifacts
  details : MayHave IsDetails members "details" e.details

structure Conforms (members : List (String × Json)) (e : LogEntry) : Prop
    extends Fits members e where
  separated : [':', ':'] <:+: e.traceId.toList

/-! ### Single values -/

theorem readsIff_level : ReadsIff readLevel fun v l => IsNamed (LogLevel.name l) v :=
  readsIff_variant (by rintro ⟨⟩ ⟨⟩ <;> simp [LogLevel.name]) (by rintro ⟨⟩ <;> decide)

theorem readsIff_checker : ReadsIff readChecker fun v c => IsNamed (Checker.name c) v :=
  readsIff_variant (by rintro ⟨⟩ ⟨⟩ <;> simp [Checker.name]) (by rintro ⟨⟩ <;> decide)

theorem readsIff_outcome : ReadsIff readOutcome fun v o => IsNamed (CheckOutcome.name o) v :=
  readsIff_variant (by rintro ⟨⟩ ⟨⟩ <;> simp [CheckOutcome.name]) (by rintro ⟨⟩ <;> decide)

theorem readsIff_details : ReadsIff readDetails IsDetails := by
  intro v d
  have hval : v.ordered = v.toOrdered.val := rfl
  rw [readDetails, hval, toOrdered_val, Except.ok.injEq, IsDetails]

/-! ### Artifacts -/

theorem readsIff_isText : ReadsIff ValueReader.text IsText := readsIff_text

theorem readsIff_isSize : ReadsIff ValueReader.uint64 IsSize := readsIff_uint64

theorem readArtifact_object_iff {members : List (String × Json)} {a : Artifact} :
    readArtifact (.object (orderedMembers members)) = .ok a ↔ IsArtifact (.object members) a := by
  have htext := readsIff_isText
  have hsize := readsIff_isSize
  constructor
  · intro h
    obtain ⟨values, hlookup, h⟩ := RecordForm.exists_of_read_object_bind h
    simp only [List.forall_mem_cons, field_name] at hlookup
    obtain ⟨hpath, hkind, hsha256, hbytes, -⟩ := hlookup
    simp only [bind_eq_ok_iff] at h
    obtain ⟨path, h₁, kind, h₂, sha256, h₃, size, h₄, h⟩ := h
    cases h
    exact .object ((required_eq_ok_iff htext hpath).1 h₁) ((required_eq_ok_iff htext hkind).1 h₂)
      ((required_eq_ok_iff htext hsha256).1 h₃) ((required_eq_ok_iff hsize hbytes).1 h₄)
  · rintro ⟨path, kind, sha256, size⟩
    refine RecordForm.read_object_bind ?_ fun values hlookup => ?_
    · simp only [List.forall_mem_cons]
      exact ⟨passes_of_has htext path, passes_of_has htext kind, passes_of_has htext sha256,
        passes_of_has hsize size, nofun⟩
    · simp only [List.forall_mem_cons, field_name] at hlookup
      obtain ⟨hpath, hkind, hsha256, hbytes, -⟩ := hlookup
      rw [(required_eq_ok_iff htext hpath).2 path, (required_eq_ok_iff htext hkind).2 kind,
        (required_eq_ok_iff htext hsha256).2 sha256, (required_eq_ok_iff hsize hbytes).2 size]
      rfl

theorem readArtifact_array_iff {items : List Json} {a : Artifact} :
    readArtifact (.array (orderedItems items)) = .ok a ↔ IsArtifact (.array items) a := by
  have htext := readsIff_isText
  have hsize := readsIff_isSize
  constructor
  · intro h
    obtain ⟨values, hvalues, h⟩ := bind_eq_ok_iff.1 h
    obtain ⟨hitems, rfl⟩ := RecordForm.ofItems_eq_ok_iff.1 hvalues
    simp only [bind_eq_ok_iff] at h
    obtain ⟨path, h₁, kind, h₂, sha256, h₃, size, h₄, h⟩ := h
    cases h
    rcases items with _ | ⟨v₁, _ | ⟨v₂, _ | ⟨v₃, _ | ⟨v₄, _ | ⟨v₅, items⟩⟩⟩⟩⟩
    · cases hitems
    · simp [orderedItems] at hitems
    · simp [orderedItems] at hitems
    · simp [orderedItems] at hitems
    · exact .array ((htext v₁ path).1 h₁) ((htext v₂ kind).1 h₂) ((htext v₃ sha256).1 h₃)
        ((hsize v₄ size).1 h₄)
    · simp [orderedItems] at hitems
  · intro h
    cases h with
    | array path kind sha256 size =>
        have h₁ := (htext _ _).2 path
        have h₂ := (htext _ _).2 kind
        have h₃ := (htext _ _).2 sha256
        have h₄ := (hsize _ _).2 size
        refine bind_eq_ok_iff.2 ⟨_, RecordForm.ofItems_eq_ok_iff.2 ⟨?_, rfl⟩, ?_⟩
        · exact .cons (check_of_ok h₁ _) <| .cons (check_of_ok h₂ _) <|
            .cons (check_of_ok h₃ _) <| .cons (check_of_ok h₄ _) .nil
        · refine bind_eq_ok_iff.2 ⟨_, h₁, bind_eq_ok_iff.2 ⟨_, h₂, bind_eq_ok_iff.2 ⟨_, h₃,
            bind_eq_ok_iff.2 ⟨_, h₄, rfl⟩⟩⟩⟩

theorem readsIff_artifact : ReadsIff readArtifact IsArtifact := by
  intro v a
  cases v with
  | object members => exact readArtifact_object_iff
  | array items => exact readArtifact_array_iff
  | _ =>
      constructor
      · nofun
      · nofun

theorem readsIff_artifacts : ReadsIff readArtifacts AreArtifacts := readsIff_list readsIff_artifact

/-! ### Entries -/

theorem read_object_iff {members : List (String × Json)} {e : LogEntry} :
    LogEntry.read (.object (orderedMembers members)) = .ok e ↔ Fits members e := by
  have htext := readsIff_isText
  have hcode : ReadsIff ValueReader.int32 IsExitCode := readsIff_int32
  constructor
  · intro h
    obtain ⟨values, hlookup, h⟩ := RecordForm.exists_of_read_object_bind h
    simp only [List.forall_mem_cons, field_name] at hlookup
    obtain ⟨htimestamp, htraceId, hlevel, hevent, hchecker, hfile, hsymbol, houtcome, hexitCode,
      hartifacts, hdetails, -⟩ := hlookup
    simp only [bind_eq_ok_iff] at h
    obtain ⟨timestamp, h₁, traceId, h₂, level, h₃, event, h₄, checker, h₅, file, h₆, symbol, h₇,
      outcome, h₈, exitCode, h₉, artifacts, h₁₀, details, h₁₁, h⟩ := h
    cases h
    exact {
      timestamp := (required_eq_ok_iff htext htimestamp).1 h₁
      traceId := (required_eq_ok_iff htext htraceId).1 h₂
      level := (required_eq_ok_iff readsIff_level hlevel).1 h₃
      event := (required_eq_ok_iff htext hevent).1 h₄
      checker := (optional_eq_ok_iff readsIff_checker hchecker).1 h₅
      file := (optional_eq_ok_iff htext hfile).1 h₆
      symbol := (optional_eq_ok_iff htext hsymbol).1 h₇
      outcome := (optional_eq_ok_iff readsIff_outcome houtcome).1 h₈
      exitCode := (optional_eq_ok_iff hcode hexitCode).1 h₉
      artifacts := (optional_eq_ok_iff readsIff_artifacts hartifacts).1 h₁₀
      details := (optional_eq_ok_iff readsIff_details hdetails).1 h₁₁ }
  · intro h
    refine RecordForm.read_object_bind ?_ fun values hlookup => ?_
    · simp only [List.forall_mem_cons]
      exact ⟨passes_of_has htext h.timestamp, passes_of_has htext h.traceId,
        passes_of_has readsIff_level h.level, passes_of_has htext h.event,
        passes_of_mayHave readsIff_checker h.checker, passes_of_mayHave htext h.file,
        passes_of_mayHave htext h.symbol, passes_of_mayHave readsIff_outcome h.outcome,
        passes_of_mayHave hcode h.exitCode, passes_of_mayHave readsIff_artifacts h.artifacts,
        passes_of_mayHave readsIff_details h.details, nofun⟩
    · simp only [List.forall_mem_cons, field_name] at hlookup
      obtain ⟨htimestamp, htraceId, hlevel, hevent, hchecker, hfile, hsymbol, houtcome, hexitCode,
        hartifacts, hdetails, -⟩ := hlookup
      rw [(required_eq_ok_iff htext htimestamp).2 h.timestamp,
        (required_eq_ok_iff htext htraceId).2 h.traceId,
        (required_eq_ok_iff readsIff_level hlevel).2 h.level,
        (required_eq_ok_iff htext hevent).2 h.event,
        (optional_eq_ok_iff readsIff_checker hchecker).2 h.checker,
        (optional_eq_ok_iff htext hfile).2 h.file, (optional_eq_ok_iff htext hsymbol).2 h.symbol,
        (optional_eq_ok_iff readsIff_outcome houtcome).2 h.outcome,
        (optional_eq_ok_iff hcode hexitCode).2 h.exitCode,
        (optional_eq_ok_iff readsIff_artifacts hartifacts).2 h.artifacts,
        (optional_eq_ok_iff readsIff_details hdetails).2 h.details]
      rfl

/-! ### Rules on single fields -/

theorem lookup_string_iff {members : List (String × Json)} {name s : String} :
    (orderedMembers members).lookup name = some (.string s) ↔ IsLast members name (.string s) := by
  rw [lookup_orderedMembers_eq_some_iff]
  constructor
  · rintro ⟨v, hlast, hv⟩
    cases v <;> simp_all [ordered]
  · exact fun hlast => ⟨_, hlast, rfl⟩

theorem wrongName_of_isLast {members : List (String × Json)} {name : String}
    {allowed : List String}
    (h : ∀ s, IsLast members name (.string s) → allowed.contains s = true) :
    wrongName name allowed (orderedMembers members) = [] := by
  rw [wrongName]
  split
  · next s hs => exact if_pos (h s (lookup_string_iff.1 hs))
  · rfl

/-- A text that is written for a named value is its name. -/
theorem eq_of_has_named {α : Type} {nameOf : α → String} {members : List (String × Json)}
    {name s : String} {a : α} (h : Has (fun v a => IsNamed (nameOf a) v) members name a)
    (hlast : IsLast members name (.string s)) : s = nameOf a := by
  obtain ⟨v, hv, hnamed⟩ := h
  obtain rfl := hv.unique hlast
  rcases hnamed with heq | ⟨_, heq, -⟩
  · exact Json.string.inj heq
  · cases heq

theorem exists_eq_of_mayHave_named {α : Type} {nameOf : α → String}
    {members : List (String × Json)} {name s : String} {x : Option α}
    (h : MayHave (fun v a => IsNamed (nameOf a) v) members name x)
    (hlast : IsLast members name (.string s)) : ∃ a, s = nameOf a := by
  rcases h with ⟨v, hv, hoptional⟩ | ⟨hname, -⟩
  · obtain rfl := hv.unique hlast
    cases x with
    | none => cases hoptional
    | some a => exact ⟨a, eq_of_has_named ⟨_, hlast, hoptional.2⟩ hlast⟩
  · exact absurd hlast.mem_names hname

theorem missingFields_of_fits {members : List (String × Json)} {e : LogEntry}
    (h : Fits members e) : missingFields (orderedMembers members) = [] := by
  have hpresent {α : Type} {R : Json → α → Prop} {name : String} {a : α}
      (hhas : Has R members name a) :
      ¬((orderedMembers members).lookup name).isNone = true := by
    obtain ⟨v, hlast, -⟩ := hhas
    rw [lookup_orderedMembers_eq_some_iff.2 ⟨v, hlast, rfl⟩]
    exact Bool.false_ne_true
  have hnone : ∀ name ∈ requiredFields,
      ¬((orderedMembers members).lookup name).isNone = true := by
    simp only [requiredFields, List.forall_mem_cons]
    exact ⟨hpresent h.timestamp, hpresent h.traceId, hpresent h.level, hpresent h.event, nofun⟩
  rw [missingFields, List.filter_eq_nil_iff.2 hnone, List.map_nil]

/-- Members that are written for an entry can only break the rule on trace ids. -/
theorem violations_eq_nil_iff {members : List (String × Json)} {e : LogEntry}
    (h : Fits members e) :
    violations (orderedMembers members) = [] ↔ [':', ':'] <:+: e.traceId.toList := by
  have hlevel : wrongName "level" (LogLevel.all.map (·.name)) (orderedMembers members) = [] := by
    apply wrongName_of_isLast
    intro s hs
    obtain rfl := eq_of_has_named h.level hs
    cases e.level <;> rfl
  have houtcome :
      wrongName "outcome" (CheckOutcome.all.map (·.name)) (orderedMembers members) = [] := by
    apply wrongName_of_isLast
    intro s hs
    obtain ⟨o, rfl⟩ := exists_eq_of_mayHave_named h.outcome hs
    cases o <;> rfl
  have hchecker :
      wrongName "checker" (Checker.all.map (·.name)) (orderedMembers members) = [] := by
    apply wrongName_of_isLast
    intro s hs
    obtain ⟨c, rfl⟩ := exists_eq_of_mayHave_named h.checker hs
    cases c <;> rfl
  have htraceId : (orderedMembers members).lookup "trace_id" = some (.string e.traceId) := by
    obtain ⟨v, hlast, rfl⟩ := h.traceId
    exact lookup_string_iff.2 hlast
  rw [violations, missingFields_of_fits h, hlevel, houtcome, hchecker, wrongTraceId, htraceId,
    ← isSome_cutAt?_iff]
  show (if hasSeparator e.traceId then [] else _) = [] ↔ hasSeparator e.traceId = true
  split <;> simp_all

/-! ### Lines -/

/-- Members are accepted if they are written for an entry whose trace id has two colons. -/
theorem readLine_object_iff {line : String} {members : List (String × Json)} {e : LogEntry}
    (h : HasValue line (.object members)) : readLine line = .ok e ↔ Conforms members e := by
  rw [readLine, ofText_eq_ok_iff.2 ⟨_, h, rfl⟩]
  simp only [toOrdered, ordered]
  constructor
  · intro hok
    split at hok
    · next hnone =>
      split at hok
      · next entry hentry =>
        cases hok
        have hfits := read_object_iff.1 hentry
        exact ⟨hfits, (violations_eq_nil_iff hfits).1 hnone⟩
      · cases hok
    · cases hok
  · intro hconforms
    have hfits := hconforms.toFits
    rw [(violations_eq_nil_iff hfits).2 hconforms.separated]
    simp only [read_object_iff.2 hfits]

/-- An accepted line is an object that is written for its entry. -/
theorem exists_conforms_of_readLine {line : String} {e : LogEntry} (hline : readLine line = .ok e) :
    ∃ members, HasValue line (.object members) ∧ Conforms members e := by
  have h := hline
  rw [readLine] at h
  split at h
  · cases h
  · next _ _ htext =>
    obtain ⟨v, hvalue, heq⟩ := ofText_eq_ok_iff.1 htext
    cases v with
    | object members => exact ⟨members, hvalue, (readLine_object_iff hvalue).1 hline⟩
    | _ => cases congrArg Subtype.val heq
  · cases h

/-- The entry on a line is the one that the members of its object are written for; a line is
accepted if there is one. -/
theorem validateLine_eq_ok_iff (line : String) (lineNumber : Nat) (e : LogEntry) :
    validateLine line lineNumber = .ok e ↔
      ∃ members, HasValue line (.object members) ∧ Conforms members e := by
  rw [validateLine, mapError_eq_ok_iff]
  constructor
  · exact exists_conforms_of_readLine
  · rintro ⟨members, hvalue, hconforms⟩
    exact (readLine_object_iff hvalue).2 hconforms

/-- The members of a line whose level is an object and whose artifact is an array. -/
def looseMembers : List (String × Json) :=
  [("timestamp", .string "t"), ("trace_id", .string "a::1"),
   ("level", .object [("info", .null)]), ("event", .string "e"),
   ("artifacts", .array [.array [.string "p", .string "k", .string "s", .integer 1]])]

theorem validateLine_loose :
    validateLine
        ("\x7b\"timestamp\":\"t\",\"trace_id\":\"a::1\",\"level\":\x7b\"info\":null\x7d," ++
          "\"event\":\"e\",\"artifacts\":[[\"p\",\"k\",\"s\",1]]\x7d") 1 =
      .ok {
        timestamp := "t", traceId := "a::1", level := .info, event := "e"
        artifacts := some [{ path := "p", kind := "k", sha256 := "s", sizeBytes := 1 }] } := by
  have htext : "\x7b\"timestamp\":\"t\",\"trace_id\":\"a::1\",\"level\":\x7b\"info\":null\x7d," ++
      "\"event\":\"e\",\"artifacts\":[[\"p\",\"k\",\"s\",1]]\x7d" =
        (Json.object looseMembers).compact := by
    decide +kernel
  have hvalue : HasValue (Json.object looseMembers).compact (.object looseMembers) :=
    hasValue_compact (by decide) (by decide)
  rw [htext, validateLine, readLine, ofText_eq_ok_iff.2 ⟨_, hvalue, rfl⟩]
  rfl

end HeaderAccord.Schema
