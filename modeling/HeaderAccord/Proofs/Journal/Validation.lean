import HeaderAccord.Proofs.Journal.Schema
import HeaderAccord.Proofs.Lines

/-!
Texts validated line by line. A validation is the sum of those of the lines, each under its own
number, so the parts of a text are validated apart and the second is moved down by the lines of the
first; blank lines do nothing but move. On the line of an object stand all the rules on single
fields that it breaks, and what the reader of entries says only if there are none.
-/

namespace HeaderAccord.Schema

open Json ValueReader LogEntry Text

/-! ### Sums -/

namespace Validation

@[simp] theorem nothing_add (v : Validation) : Validation.add {} v = v := by
  simp [add]

@[simp] theorem add_nothing (v : Validation) : v.add {} = v := by
  simp [add]

theorem add_assoc (u v w : Validation) : (u.add v).add w = u.add (v.add w) := by
  simp [add, Nat.add_assoc]

/-- The validation of lines that stand further down by `count`. -/
def after (count : Nat) (v : Validation) : Validation :=
  { v with errors := v.errors.map fun e => { e with lineNumber := count + e.lineNumber } }

theorem after_add (count : Nat) (v w : Validation) :
    (v.add w).after count = (v.after count).add (w.after count) := by
  simp [add, after]

theorem after_after (m n : Nat) (v : Validation) :
    (v.after n).after m = v.after (m + n) := by
  simp [after, Function.comp_def, Nat.add_assoc]

end Validation

/-- What is wrong with a line, by field. -/
def faultsOf (line : String) : List (String × String) :=
  match readLine line with
  | .ok _ => []
  | .error found => found

/-- The faults of a line, as the errors of one that has this number. -/
def numbered (number : Nat) (faults : List (String × String)) : List SchemaError :=
  faults.map fun (field, message) => { lineNumber := number, field, message }

theorem validateOne_eq (line : List Char) (number : Nat) :
    validateOne line number =
      if AllBlank line then {}
      else { lineCount := 1, errors := numbered number (faultsOf (String.ofList (trim line))) } := by
  rw [validateOne]
  cases htrim : trim line with
  | nil => rw [if_pos (trim_eq_nil_iff.1 htrim)]
  | cons c cs =>
      have hline : ¬AllBlank line := fun h => by
        rw [trim_of_allBlank h] at htrim
        cases htrim
      rw [if_neg hline, faultsOf]
      dsimp only
      rw [validateLine]
      cases readLine (String.ofList (c :: cs)) <;> rfl

theorem validateOne_after (line : List Char) (count number : Nat) :
    validateOne line (count + number) = (validateOne line number).after count := by
  rw [validateOne_eq, validateOne_eq]
  split
  · rfl
  · simp [Validation.after, numbered]

theorem validateFrom_after (ls : List (List Char)) (count number : Nat) :
    validateFrom (count + number) ls = (validateFrom number ls).after count := by
  induction ls generalizing number with
  | nil => rfl
  | cons line ls ih =>
      rw [validateFrom, validateFrom, validateOne_after, Validation.after_add, ← ih, Nat.add_assoc]

theorem validateFrom_append (number : Nat) (ls ms : List (List Char)) :
    validateFrom number (ls ++ ms) =
      (validateFrom number ls).add ((validateFrom number ms).after ls.length) := by
  induction ls generalizing number with
  | nil =>
      rw [List.nil_append, ← validateFrom_after, List.length_nil, Nat.zero_add, validateFrom,
        Validation.nothing_add]
  | cons line ls ih =>
      rw [List.cons_append, validateFrom, validateFrom, ih, ← validateFrom_after,
        ← validateFrom_after, Validation.add_assoc, List.length_cons]
      congr 3
      omega

/-! ### Blank lines -/

/-- What is said of a line does not depend on the blanks around it. -/
theorem validateOne_trim (line : List Char) (number : Nat) :
    validateOne (trim line) number = validateOne line number := by
  rw [validateOne, validateOne, trim_trim]

theorem validateFrom_map_trim (number : Nat) (ls : List (List Char)) :
    validateFrom number (ls.map trim) = validateFrom number ls := by
  induction ls generalizing number with
  | nil => rfl
  | cons line ls ih => rw [List.map_cons, validateFrom, validateFrom, validateOne_trim, ih]

theorem validateFrom_replicate (number count : Nat) :
    validateFrom number (List.replicate count []) = {} := by
  induction count generalizing number with
  | zero => rfl
  | succ count ih =>
      rw [List.replicate_succ, validateFrom, ih, Validation.add_nothing]
      rfl

theorem validateFrom_of_allBlank {gap : List Char} (h : AllBlank gap) (number : Nat) :
    validateFrom number (lines gap) = {} := by
  rw [← validateFrom_map_trim, map_trim_lines_of_allBlank h, validateFrom_replicate]

/-! ### Line numbers -/

theorem lineNumber_of_mem_validateOne {line : List Char} {number : Nat} {e : SchemaError}
    (h : e ∈ (validateOne line number).errors) : e.lineNumber = number := by
  rw [validateOne_eq] at h
  split at h
  · simp at h
  · obtain ⟨_, -, rfl⟩ := List.mem_map.1 h
    rfl

theorem lineNumber_of_mem_validateFrom {ls : List (List Char)} {number : Nat} {e : SchemaError}
    (h : e ∈ (validateFrom number ls).errors) :
    number ≤ e.lineNumber ∧ e.lineNumber < number + ls.length := by
  induction ls generalizing number with
  | nil => simp [validateFrom] at h
  | cons line ls ih =>
      rw [validateFrom, Validation.add, List.mem_append] at h
      rw [List.length_cons]
      rcases h with h | h
      · have := lineNumber_of_mem_validateOne h
        omega
      · have := ih h
        omega

/-- The lines that count are those that are not blank. -/
theorem lineCount_validateFrom (ls : List (List Char)) (number : Nat) :
    (validateFrom number ls).lineCount = ls.countP fun line => ¬AllBlank line := by
  induction ls generalizing number with
  | nil => rfl
  | cons line ls ih =>
      rw [validateFrom, Validation.add, ih, validateOne_eq, List.countP_cons]
      by_cases hline : AllBlank line <;> simp [hline, Nat.add_comm]

/-! ### Rules on single fields -/

/-- The members of an object break a rule on this field, which is told by this message. Of several
members of one name the last one counts. -/
inductive Violates (members : List (String × Json)) : (field message : String) → Prop
  | missing {field : String} (hrequired : field ∈ ["timestamp", "trace_id", "level", "event"])
      (habsent : field ∉ members.map (·.1)) : Violates members field "required field missing"
  | level {s : String} (h : IsLast members "level" (.string s))
      (hname : s ∉ ["debug", "info", "warn", "error"]) :
      Violates members "level" ("invalid level: '" ++ s ++ "'")
  | outcome {s : String} (h : IsLast members "outcome" (.string s)) (hname : s ∉ ["pass", "fail"]) :
      Violates members "outcome" ("invalid outcome: '" ++ s ++ "'")
  | checker {s : String} (h : IsLast members "checker" (.string s))
      (hname : s ∉ ["arguments", "coverage", "structures"]) :
      Violates members "checker" ("invalid checker: '" ++ s ++ "'")
  | traceId {s : String} (h : IsLast members "trace_id" (.string s))
      (hcolons : ¬[':', ':'] <:+: s.toList) :
      Violates members "trace_id"
        ("trace_id should follow <run_id>::<seq> format, got: '" ++ s ++ "'")

theorem mem_missingFields_iff {members : List (String × Json)} {field message : String} :
    (field, message) ∈ missingFields (orderedMembers members) ↔
      field ∈ requiredFields ∧ field ∉ members.map (·.1) ∧ message = "required field missing" := by
  simp only [missingFields, List.mem_map, List.mem_filter, Option.isNone_iff_eq_none,
    lookup_orderedMembers_eq_none_iff, Prod.mk.injEq]
  constructor
  · rintro ⟨name, ⟨hrequired, habsent⟩, rfl, rfl⟩
    exact ⟨hrequired, habsent, rfl⟩
  · rintro ⟨hrequired, habsent, rfl⟩
    exact ⟨field, ⟨hrequired, habsent⟩, rfl, rfl⟩

theorem mem_wrongName_iff {name : String} {allowed : List String} {members : List (String × Json)}
    {field message : String} :
    (field, message) ∈ wrongName name allowed (orderedMembers members) ↔
      ∃ s, IsLast members name (.string s) ∧ s ∉ allowed ∧ field = name ∧
        message = "invalid " ++ name ++ ": '" ++ s ++ "'" := by
  simp only [← lookup_string_iff]
  rw [wrongName]
  split
  · next s hs =>
    by_cases hallowed : s ∈ allowed <;> simp [hs, hallowed]
  · next hother =>
    have hnone (s : String) : (orderedMembers members).lookup name ≠ some (.string s) := hother s
    simp [hnone]

theorem hasSeparator_iff {traceId : String} :
    hasSeparator traceId = true ↔ [':', ':'] <:+: traceId.toList :=
  isSome_cutAt?_iff

theorem mem_wrongTraceId_iff {members : List (String × Json)} {field message : String} :
    (field, message) ∈ wrongTraceId (orderedMembers members) ↔
      ∃ s, IsLast members "trace_id" (.string s) ∧ ¬[':', ':'] <:+: s.toList ∧
        field = "trace_id" ∧
        message = "trace_id should follow <run_id>::<seq> format, got: '" ++ s ++ "'" := by
  simp only [← lookup_string_iff, ← hasSeparator_iff]
  rw [wrongTraceId]
  split
  · next s hs =>
    by_cases hcolons : hasSeparator s = true <;> simp [hs, hcolons]
  · next hother =>
    have hnone (s : String) : (orderedMembers members).lookup "trace_id" ≠ some (.string s) :=
      hother s
    simp [hnone]

/-- No rule that is broken is hidden by another. -/
theorem mem_violations_iff {members : List (String × Json)} {field message : String} :
    (field, message) ∈ violations (orderedMembers members) ↔ Violates members field message := by
  simp only [violations, List.mem_append, mem_missingFields_iff, mem_wrongName_iff,
    mem_wrongTraceId_iff]
  constructor
  · rintro ((((⟨hrequired, habsent, rfl⟩ | ⟨s, hs, hname, rfl, rfl⟩) | ⟨s, hs, hname, rfl, rfl⟩) |
      ⟨s, hs, hname, rfl, rfl⟩) | ⟨s, hs, hcolons, rfl, rfl⟩)
    · exact .missing hrequired habsent
    · exact .level hs hname
    · exact .outcome hs hname
    · exact .checker hs hname
    · exact .traceId hs hcolons
  · rintro (⟨hrequired, habsent⟩ | ⟨hs, hname⟩ | ⟨hs, hname⟩ | ⟨hs, hname⟩ | ⟨hs, hcolons⟩)
    · exact .inl (.inl (.inl (.inl ⟨hrequired, habsent, rfl⟩)))
    · exact .inl (.inl (.inl (.inr ⟨_, hs, hname, rfl, rfl⟩)))
    · exact .inl (.inl (.inr ⟨_, hs, hname, rfl, rfl⟩))
    · exact .inl (.inr ⟨_, hs, hname, rfl, rfl⟩)
    · exact .inr ⟨_, hs, hcolons, rfl, rfl⟩

theorem wrongName_eq_or (name : String) (allowed : List String) (members : List (String × Json)) :
    wrongName name allowed members = [] ∨
      ∃ message, wrongName name allowed members = [(name, message)] := by
  rw [wrongName]
  split
  · split
    · exact .inl rfl
    · exact .inr ⟨_, rfl⟩
  · exact .inl rfl

theorem wrongTraceId_eq_or (members : List (String × Json)) :
    wrongTraceId members = [] ∨ ∃ message, wrongTraceId members = [("trace_id", message)] := by
  rw [wrongTraceId]
  split
  · split
    · exact .inl rfl
    · exact .inr ⟨_, rfl⟩
  · exact .inl rfl

/-- The violations in a text that is there. -/
def wrongTexts (members : List (String × Json)) : List (String × String) :=
  wrongName "level" (LogLevel.all.map (·.name)) members ++
    (wrongName "outcome" (CheckOutcome.all.map (·.name)) members ++
      (wrongName "checker" (Checker.all.map (·.name)) members ++ wrongTraceId members))

theorem violations_eq (members : List (String × Json)) :
    violations members = missingFields members ++ wrongTexts members := by
  simp only [violations, wrongTexts, List.append_assoc]

theorem nodup_wrongTexts (members : List (String × Json)) : (wrongTexts members).Nodup := by
  rw [wrongTexts]
  -- each rule tells one violation at most, and each tells it of another field
  rcases wrongName_eq_or "level" (LogLevel.all.map (·.name)) members with hl | ⟨_, hl⟩ <;>
  rcases wrongName_eq_or "outcome" (CheckOutcome.all.map (·.name)) members with ho | ⟨_, ho⟩ <;>
  rcases wrongName_eq_or "checker" (Checker.all.map (·.name)) members with hc | ⟨_, hc⟩ <;>
  rcases wrongTraceId_eq_or members with ht | ⟨_, ht⟩ <;>
  simp [hl, ho, hc, ht]

theorem mem_names_of_mem_wrongTexts {members : List (String × Json)} {field message : String}
    (h : (field, message) ∈ wrongTexts (orderedMembers members)) :
    field ∈ members.map (·.1) := by
  simp only [wrongTexts, List.mem_append, mem_wrongName_iff, mem_wrongTraceId_iff] at h
  rcases h with
    ⟨s, hs, -, rfl, -⟩ | ⟨s, hs, -, rfl, -⟩ | ⟨s, hs, -, rfl, -⟩ | ⟨s, hs, -, rfl, -⟩ <;>
    exact hs.mem_names

/-- No violation is reported twice. -/
theorem nodup_violations (members : List (String × Json)) :
    (violations (orderedMembers members)).Nodup := by
  have hmissing : (missingFields (orderedMembers members)).Nodup :=
    ((show requiredFields.Nodup by decide).filter _).map fun _ _ h => (Prod.mk.inj h).1
  rw [violations_eq, List.nodup_append]
  -- a field that is missing has no text that could be wrong
  refine ⟨hmissing, nodup_wrongTexts _, fun v hv w hw heq => ?_⟩
  exact (mem_missingFields_iff.1 hv).2.1 (mem_names_of_mem_wrongTexts (heq ▸ hw))

/-! ### Objects on a line -/

/-- What is reported of an object on a line: the rules on single fields that it breaks, all of them
and each once; if it breaks none, why it is not read as an entry; if it is read as one, nothing. -/
inductive Reported (number : Nat) (members : List (String × Json)) : List SchemaError → Prop
  | violations {errors : List SchemaError} (hsome : errors ≠ []) (hnodup : errors.Nodup)
      (hmem : ∀ e, e ∈ errors ↔ e.lineNumber = number ∧ Violates members e.field e.message) :
      Reported number members errors
  | unreadable {error : ReadError} (hnone : ∀ field message, ¬Violates members field message)
      (hread : LogEntry.read (.object (orderedMembers members)) = .error error)
      (hunfit : ∀ e, ¬Fits members e) :
      Reported number members
        [{ lineNumber := number, field := "<deserialization>"
           message := "failed to deserialize: " ++ error.message }]
  | entry {e : LogEntry} (hnone : ∀ field message, ¬Violates members field message)
      (h : Conforms members e) : Reported number members []

theorem faultsOf_object {line : String} {members : List (String × Json)}
    (h : HasValue line (.object members)) :
    faultsOf line =
      match violations (orderedMembers members) with
      | [] =>
        match LogEntry.read (.object (orderedMembers members)) with
        | .ok _ => []
        | .error e => [("<deserialization>", "failed to deserialize: " ++ e.message)]
      | found => found := by
  rw [faultsOf, readLine, ofText_eq_ok_iff.2 ⟨_, h, rfl⟩]
  simp only [toOrdered, ordered]
  cases violations (orderedMembers members) with
  | nil => cases LogEntry.read (.object (orderedMembers members)) <;> rfl
  | cons => rfl

theorem reported_object {line : String} {members : List (String × Json)}
    (h : HasValue line (.object members)) (number : Nat) :
    Reported number members (numbered number (faultsOf line)) := by
  rw [faultsOf_object h]
  cases hviolations : violations (orderedMembers members) with
  | nil =>
      have hnone (field message : String) : ¬Violates members field message := by
        rw [← mem_violations_iff, hviolations]
        exact List.not_mem_nil
      cases hread : LogEntry.read (.object (orderedMembers members)) with
      | ok e =>
          have hfits := read_object_iff.1 hread
          exact .entry hnone ⟨hfits, (violations_eq_nil_iff hfits).1 hviolations⟩
      | error error =>
          refine .unreadable hnone hread fun e he => ?_
          rw [read_object_iff.2 he] at hread
          cases hread
  | cons v vs =>
      have hnodup := nodup_violations members
      rw [hviolations] at hnodup
      refine .violations (List.cons_ne_nil _ _) ?_ fun e => ?_
      · refine hnodup.map fun v w heq => ?_
        simpa [Prod.ext_iff] using heq
      · rw [← mem_violations_iff, hviolations, numbered, List.mem_map]
        constructor
        · rintro ⟨v, hv, rfl⟩
          exact ⟨rfl, hv⟩
        · rintro ⟨rfl, hmem⟩
          exact ⟨_, hmem, rfl⟩

theorem not_allBlank_of_hasValue {line : List Char} {v : Json}
    (h : HasValue (String.ofList (trim line)) v) : ¬AllBlank line := by
  intro hblank
  rw [trim_of_allBlank hblank] at h
  obtain ⟨t, htext, hfree⟩ := h
  have hempty : Tree.ofText (String.ofList []) = (.broken .valueCutOff, false) := by
    simp [Tree.ofText, tokens, Tree.build, Tree.abandon]
  rw [hempty] at htext
  cases htext
  cases hfree

theorem errors_validateOne_object {line : List Char} {members : List (String × Json)}
    (h : HasValue (String.ofList (trim line)) (.object members)) (number : Nat) :
    Reported number members (validateOne line number).errors := by
  rw [validateOne_eq, if_neg (not_allBlank_of_hasValue h)]
  exact reported_object h number

/-! ### Whole texts -/

/-- The lines of a text, blank ones included. -/
def lineTotal (text : String) : Nat := (lines text.toList).length

theorem validate_append {a : String} (h : EndsLine a.toList) (b : String) :
    validate (a ++ b) = (validate a).add ((validate b).after (lineTotal a)) := by
  rw [validate, String.toList_append, lines_append_of_endsLine h, validateFrom_append]
  rfl

theorem validate_of_allBlank {gap : String} (h : AllBlank gap.toList) : validate gap = {} :=
  validateFrom_of_allBlank h 1

/-- Blanks at the end of a text do not even move anything. -/
theorem validate_append_of_allBlank (a : String) {gap : String} (h : AllBlank gap.toList) :
    validate (a ++ gap) = validate a := by
  obtain ⟨count, hlines⟩ := exists_map_trim_lines_append h a.toList
  rw [validate, String.toList_append, ← validateFrom_map_trim, hlines, validateFrom_append,
    validateFrom_replicate, validateFrom_map_trim]
  exact Validation.add_nothing _

theorem validate_insert {a gap : String} (ha : EndsLine a.toList) (hgap : EndsLine gap.toList)
    (hblank : AllBlank gap.toList) (b : String) :
    validate (a ++ gap ++ b) =
      (validate a).add (((validate b).after (lineTotal a)).after (lineTotal gap)) := by
  rw [String.append_assoc, validate_append ha, validate_append hgap, validate_of_allBlank hblank,
    Validation.nothing_add, Validation.after_after, Validation.after_after, Nat.add_comm]

/-- What is reported of an object on a line stands under the number of the line, behind the errors
of the lines before and in front of those of the lines after it. -/
theorem exists_reported {text : String} {i : Nat} {line : List Char}
    {members : List (String × Json)} (hline : (lines text.toList)[i]? = some line)
    (h : HasValue (String.ofList (trim line)) (.object members)) :
    ∃ before reported after, (validate text).errors = before ++ (reported ++ after) ∧
      (∀ e ∈ before, e.lineNumber < i + 1) ∧ Reported (i + 1) members reported ∧
      ∀ e ∈ after, i + 1 < e.lineNumber := by
  obtain ⟨hi, rfl⟩ := List.getElem?_eq_some_iff.1 hline
  have hsplit := List.take_append_drop i (lines text.toList)
  rw [List.drop_eq_getElem_cons hi] at hsplit
  have hlength : ((lines text.toList).take i).length = i := by simp; omega
  refine ⟨(validateFrom 1 ((lines text.toList).take i)).errors,
    (validateOne (lines text.toList)[i] (i + 1)).errors,
    (validateFrom (i + 1 + 1) ((lines text.toList).drop (i + 1))).errors, ?_, fun e he => ?_,
    errors_validateOne_object h (i + 1), fun e he => ?_⟩
  · rw [validate]
    conv => lhs; rw [← hsplit]
    rw [validateFrom_append, ← validateFrom_after, hlength, validateFrom]
    rfl
  · have := lineNumber_of_mem_validateFrom he
    omega
  · have := lineNumber_of_mem_validateFrom he
    omega

/-- Parts of a text that end with a line are validated apart. Lines that are not blank count, and
blank lines between two parts only move what stands below them. Of the object on a line all broken
rules are reported together, once each, under the number of the line in the text; why it is not read
as an entry is reported only if it breaks none. -/
theorem validate_append_and_reported :
    (∀ a b : String, EndsLine a.toList →
      validate (a ++ b) = (validate a).add ((validate b).after (lineTotal a))) ∧
    (∀ text : String,
      (validate text).lineCount = (lines text.toList).countP fun line => ¬AllBlank line) ∧
    (∀ a gap : String, AllBlank gap.toList → validate (a ++ gap) = validate a) ∧
    (∀ a gap b : String, EndsLine a.toList → EndsLine gap.toList → AllBlank gap.toList →
      validate (a ++ gap ++ b) =
        (validate a).add (((validate b).after (lineTotal a)).after (lineTotal gap))) ∧
    ∀ (text : String) (i : Nat) (line : List Char) (members : List (String × Json)),
      (lines text.toList)[i]? = some line →
      HasValue (String.ofList (trim line)) (.object members) →
      ∃ before reported after, (validate text).errors = before ++ (reported ++ after) ∧
        (∀ e ∈ before, e.lineNumber < i + 1) ∧ Reported (i + 1) members reported ∧
        ∀ e ∈ after, i + 1 < e.lineNumber :=
  ⟨fun _ b ha => validate_append ha b, fun _ => lineCount_validateFrom _ 1,
    fun a _ hgap => validate_append_of_allBlank a hgap,
    fun _ _ b ha hgap hblank => validate_insert ha hgap hblank b,
    fun _ _ _ _ hline h => exists_reported hline h⟩

/-! A line with four faults, and a value that no entry has, below a blank one. -/

def faultyMembers : List (String × Json) :=
  [("level", .string "loud"), ("trace_id", .string "run-1"), ("event", .string "e"),
   ("exit_code", .string "one"), ("checker", .string "layout")]

def faultyLine : String :=
  "\x7b\"level\":\"loud\",\"trace_id\":\"run-1\",\"event\":\"e\"," ++
    "\"exit_code\":\"one\",\"checker\":\"layout\"\x7d"

theorem validate_append_and_reported_faulty :
    EndsLine "[]\n".toList ∧ EndsLine " \n".toList ∧ AllBlank " \n".toList ∧
      HasValue faultyLine (.object faultyMembers) ∧
      validate ("[]\n" ++ " \n" ++ faultyLine) =
        (validate "[]\n").add (((validate faultyLine).after 1).after 1) ∧
      ∀ fault ∈ [("timestamp", "required field missing"), ("level", "invalid level: 'loud'"),
          ("checker", "invalid checker: 'layout'"),
          ("trace_id", "trace_id should follow <run_id>::<seq> format, got: 'run-1'")],
        { lineNumber := 3, field := fault.1, message := fault.2 } ∈
          (validate ("[]\n" ++ " \n" ++ faultyLine)).errors := by
  have htext : faultyLine = (Json.object faultyMembers).compact := by decide +kernel
  have hvalue : HasValue faultyLine (.object faultyMembers) :=
    htext ▸ hasValue_compact (by decide) (by decide)
  have htrim : String.ofList (trim faultyLine.toList) = faultyLine := by decide +kernel
  obtain ⟨-, -, -, hinsert, hreported⟩ := validate_append_and_reported
  refine ⟨by decide, by decide, by decide, hvalue,
    hinsert _ _ _ (by decide) (by decide) (by decide), ?_⟩
  obtain ⟨before, reported, after, herrors, -, hline, -⟩ :=
    hreported ("[]\n" ++ " \n" ++ faultyLine) 2 faultyLine.toList faultyMembers
      (by decide +kernel) (htrim.symm ▸ hvalue)
  have hmem {field message : String} (h : Violates faultyMembers field message) :
      { lineNumber := 3, field, message } ∈
        (validate ("[]\n" ++ " \n" ++ faultyLine)).errors := by
    rw [herrors]
    refine List.mem_append_right _ (List.mem_append_left _ ?_)
    cases hline with
    | violations _ _ hmem => exact (hmem _).2 ⟨rfl, h⟩
    | unreadable hnone => exact absurd h (hnone _ _)
    | entry hnone => exact absurd h (hnone _ _)
  simp only [List.forall_mem_cons]
  exact ⟨hmem (.missing (by decide) (by decide)),
    hmem (@Violates.level _ "loud" ⟨[], _, rfl, by decide⟩ (by decide)),
    hmem (@Violates.checker _ "layout" ⟨faultyMembers.dropLast, [], rfl, nofun⟩ (by decide)),
    hmem (@Violates.traceId _ "run-1" ⟨faultyMembers.take 1, _, rfl, by decide⟩ (by decide)), nofun⟩

end HeaderAccord.Schema
