import HeaderAccord.Journal.Basic
import HeaderAccord.Proofs.Journal.Entry
import HeaderAccord.Proofs.Lines

/-!
Journals read back. Whatever entries a journal is given, it is one line for each, every line fits
the schema, and the trace ids that the journal gives out count up from one without a gap.
-/

namespace HeaderAccord.Journal

open Json

/-! ### Numbers with zeros in front -/

/-- The digits of a number with zeros in front, as many as it takes to make three. -/
def IsPadded (text : List Char) (n : Nat) : Prop :=
  text.length = max 3 (Nat.toDigits 10 n).length ∧
    ∃ zeros, text = List.replicate zeros '0' ++ Nat.toDigits 10 n

theorem isPadded_paddedNumber (n : Nat) : IsPadded (paddedNumber n).toList n := by
  have hdigits : (toString n).toList = Nat.toDigits 10 n := by simp
  have hlength : (toString n).length = (Nat.toDigits 10 n).length := by
    rw [← String.length_toList, hdigits]
  have htext : (paddedNumber n).toList =
      List.replicate (3 - (Nat.toDigits 10 n).length) '0' ++ Nat.toDigits 10 n := by
    rw [paddedNumber, String.toList_append, String.toList_ofList, hlength, hdigits]
  refine ⟨?_, _, htext⟩
  rw [htext, List.length_append, List.length_replicate]
  omega

/-- Zeros in front do not change a number. -/
theorem IsPadded.inj {text : List Char} {m n : Nat} (hm : IsPadded text m)
    (hn : IsPadded text n) : m = n := by
  have hvalue {k : Nat} (h : IsPadded text k) : Nat.ofDigitChars 10 text 0 = k := by
    obtain ⟨-, zeros, rfl⟩ := h
    rw [Nat.ofDigitChars_append, Nat.ofDigitChars_replicate_zero, Nat.mul_zero,
      Nat.ofDigitChars_ten_toDigits]
  exact (hvalue hm).symm.trans (hvalue hn)

theorem traceId_inj {runId : String} {m n : Nat} (h : traceId runId m = traceId runId n) :
    m = n := by
  have htext := congrArg String.toList h
  simp only [traceId, String.toList_append] at htext
  have hm := isPadded_paddedNumber m
  rw [List.append_cancel_left htext] at hm
  exact hm.inj (isPadded_paddedNumber n)

theorem hasSeparator_traceId (runId : String) (n : Nat) :
    Schema.hasSeparator (traceId runId n) = true := by
  refine Text.isSome_cutAt?_iff.2 ⟨runId.toList, (paddedNumber n).toList, ?_⟩
  simp [traceId]

/-! ### Entries that are written -/

/-- The entry as a journal writes it, with the trace id that it is given if it has none. -/
def stamped (j : Journal) (e : LogEntry) : LogEntry :=
  if e.traceId.isEmpty then { e with traceId := traceId j.runId (j.issued + 1) } else e

theorem lines_emit (j : Journal) (e : LogEntry) :
    (j.emit e).lines.toList = j.lines.toList ++ [(j.stamped e).line] := by
  rw [emit, stamped]
  split <;> simp

@[simp] theorem runId_emit (j : Journal) (e : LogEntry) : (j.emit e).runId = j.runId := by
  rw [emit]
  split <;> rfl

/-- Only an entry without a trace id advances the count. -/
theorem issued_emit (j : Journal) (e : LogEntry) :
    (j.emit e).issued = if e.traceId.isEmpty then j.issued + 1 else j.issued := by
  rw [emit]
  split <;> rfl

/-- The journal after a number of entries. -/
def emitAll (j : Journal) (es : List LogEntry) : Journal := es.foldl emit j

/-- The entries as they are written one after the other. -/
def written : Journal → List LogEntry → List LogEntry
  | _, [] => []
  | j, e :: es => j.stamped e :: written (j.emit e) es

theorem lines_emitAll (j : Journal) (es : List LogEntry) :
    (j.emitAll es).lines.toList = j.lines.toList ++ (j.written es).map (·.line) := by
  induction es generalizing j with
  | nil => exact (List.append_nil _).symm
  | cons e es ih =>
      rw [emitAll, List.foldl_cons, ← emitAll, ih, lines_emit, written, List.map_cons,
        List.append_assoc, List.singleton_append]

/-- A written entry differs from the one that was given at most in a trace id that was missing. -/
def IsStamped (e written : LogEntry) : Prop :=
  written = { e with traceId := written.traceId } ∧ (e.traceId ≠ "" → written.traceId = e.traceId)

theorem isStamped_stamped (j : Journal) (e : LogEntry) : IsStamped e (j.stamped e) := by
  rw [stamped]
  split
  · next hempty => exact ⟨rfl, fun hne => absurd (String.isEmpty_iff.1 hempty) hne⟩
  · exact ⟨rfl, fun _ => rfl⟩

theorem isStamped_written (j : Journal) (es : List LogEntry) :
    List.Forall₂ IsStamped es (j.written es) := by
  induction es generalizing j with
  | nil => exact .nil
  | cons e es ih => exact .cons (j.isStamped_stamped e) (ih _)

/-- The trace ids that entries without one have got. -/
def filledIds (given read : List LogEntry) : List String :=
  ((given.zip read).filter (·.1.traceId.isEmpty)).map (·.2.traceId)

/-- The trace ids that are given out count on from those given out before. -/
theorem filledIds_written (j : Journal) (es : List LogEntry) :
    filledIds es (j.written es) = (List.range' (j.issued + 1) (es.countP (·.traceId.isEmpty))).map
        (traceId j.runId) := by
  induction es generalizing j with
  | nil => rfl
  | cons e es ih =>
      have hmore := ih (j.emit e)
      rw [filledIds, runId_emit, issued_emit] at hmore
      rw [filledIds, written, List.zip_cons_cons, List.filter_cons, List.countP_cons]
      by_cases hempty : e.traceId.isEmpty = true
      · rw [if_pos hempty] at hmore
        have hid : (j.stamped e).traceId = traceId j.runId (j.issued + 1) := by
          rw [stamped, if_pos hempty]
        rw [if_pos hempty, if_pos hempty, List.map_cons, hmore, hid, List.range'_succ,
          List.map_cons]
      · rw [if_neg hempty] at hmore
        rw [if_neg hempty, if_neg hempty, hmore]
        rfl

theorem issued_emitAll (j : Journal) (es : List LogEntry) :
    (j.emitAll es).issued = j.issued + es.countP (·.traceId.isEmpty) := by
  induction es generalizing j with
  | nil => rfl
  | cons e es ih =>
      rw [emitAll, List.foldl_cons, ← emitAll, ih, issued_emit, List.countP_cons]
      split <;> omega

theorem filledIds_map_readBack (es ws : List LogEntry) :
    filledIds es (ws.map LogEntry.readBack) = filledIds es ws := by
  simp only [filledIds, List.zip_map_right, List.filter_map, List.map_map]
  rfl

/-! ### Lines -/

theorem exists_line_eq (e : LogEntry) :
    ∃ cs, e.line.toList = '\x7b' :: cs ++ ['\x7d'] := by
  rw [LogEntry.line, e.toJson_eq, compact, String.toList_ofList, compactChars]
  exact ⟨_, rfl⟩

/-- A line has no blanks at its ends. -/
theorem trim_line (e : LogEntry) : Text.trim e.line.toList = e.line.toList := by
  obtain ⟨cs, hline⟩ := exists_line_eq e
  have htrim := Text.trim_append_of_not_blank (c := '\x7b') (by decide) [] (cs ++ ['\x7d'])
  rw [Text.trimEnd_append_of_not_blank (by decide)] at htrim
  rw [hline]
  exact htrim

theorem isLine_line {e : LogEntry} (h : e.hasWholeDetails = true) : IsLine e.line.toList :=
  LogEntry.isLine_line (LogEntry.hasIntegralDetails_of_hasWholeDetails h)

/-- A line that is an entry counts and is without fault. -/
theorem validateOne_line {e r : LogEntry} (h : Schema.readLine e.line = .ok r) (number : Nat) :
    Schema.validateOne e.line.toList number = { lineCount := 1 } := by
  obtain ⟨cs, hline⟩ := exists_line_eq e
  rw [Schema.validateOne, trim_line, hline]
  have hvalid : Schema.validateLine (String.ofList ('\x7b' :: cs ++ ['\x7d'])) number = .ok r := by
    rw [← hline, String.ofList_toList, Schema.validateLine, h]
    rfl
  simp only [List.cons_append] at hvalid ⊢
  rw [hvalid]

theorem validateFrom_eq {lines : List (List Char)}
    (h : ∀ line ∈ lines, ∀ number, Schema.validateOne line number = { lineCount := 1 })
    (number : Nat) : Schema.validateFrom number lines = { lineCount := lines.length } := by
  induction lines generalizing number with
  | nil => rfl
  | cons line lines ih =>
      obtain ⟨hline, hlines⟩ := List.forall_mem_cons.1 h
      rw [Schema.validateFrom, hline, ih hlines, Schema.Validation.add, List.length_cons,
        Nat.add_comm]
      rfl

/-! ### Whole journals -/

/-- An entry that can be logged: its trace id is empty or of the right form, its numbers are
integers of 64 bits, and its details leave the reader a level for the entry itself. -/
structure Loggable (e : LogEntry) : Prop where
  traceId : e.traceId = "" ∨ "::".toList <:+: e.traceId.toList
  numbers : e.hasWholeDetails = true
  depth : e.detailsNesting < Tree.maxDepth

theorem Loggable.stamped {e : LogEntry} (h : Loggable e) (j : Journal) :
    (j.stamped e).hasWholeDetails = true ∧
      Schema.readLine (j.stamped e).line = .ok (j.stamped e).readBack := by
  have hdetails : (j.stamped e).details = e.details := by
    rw [Journal.stamped]
    split <;> rfl
  have hid : Schema.hasSeparator (j.stamped e).traceId = true := by
    rw [Journal.stamped]
    split
    · exact hasSeparator_traceId _ _
    · next hne =>
      have htraceId := h.traceId.resolve_left fun hempty => hne (String.isEmpty_iff.2 hempty)
      exact Text.isSome_cutAt?_iff.2 htraceId
  have hnumbers : (j.stamped e).hasWholeDetails = true := by
    rw [LogEntry.hasWholeDetails, hdetails]
    exact h.numbers
  have hdepth : (j.stamped e).detailsNesting < Tree.maxDepth := by
    rw [LogEntry.detailsNesting, hdetails]
    exact h.depth
  have hintegral := LogEntry.hasIntegralDetails_of_hasWholeDetails hnumbers
  exact ⟨hnumbers, by rw [LogEntry.readLine_line hintegral hid, if_pos hdepth]⟩

theorem forall_mem_written {P : LogEntry → Prop} {es : List LogEntry}
    (h : ∀ e ∈ es, ∀ j : Journal, P (j.stamped e)) (j : Journal) : ∀ w ∈ j.written es, P w := by
  induction es generalizing j with
  | nil => simp [written]
  | cons e es ih =>
      obtain ⟨he, hes⟩ := List.forall_mem_cons.1 h
      rw [written, List.forall_mem_cons]
      exact ⟨he j, ih hes (j.emit e)⟩

/-- A journal of entries that can be logged is read back entry by entry: it is one line for each,
none of them at fault, and each line is read as its entry with no more than a trace id filled in.
The ids filled in are numbered from one on, with no gap and none twice. -/
theorem validate_emitAll (runId : String) (es : List LogEntry) (hes : ∀ e ∈ es, Loggable e) :
    ∃ (j : Journal) (lines : List String) (read : List LogEntry),
      j = ({ runId } : Journal).emitAll es ∧
      -- the text is one line for each entry
      j.text = String.join (lines.map (· ++ "\n")) ∧
      (Text.lines j.text.toList).map String.ofList = lines ∧
      lines.length = es.length ∧
      Schema.validate j.text = { lineCount := es.length, errors := [] } ∧
      -- wherever a line stands, it is read as its entry
      List.Forall₂ (fun line r => ∀ number, Schema.validateLine line number = .ok r) lines read ∧
      List.Forall₂ IsStamped (es.map (·.readBack)) read ∧
      -- the trace ids filled in
      j.issued = es.countP (·.traceId.isEmpty) ∧
      List.Forall₂ (fun n id => ∃ number, id = runId ++ "::" ++ number ∧ IsPadded number.toList n)
        (List.range' 1 j.issued) (filledIds es read) ∧
      (filledIds es read).Nodup := by
  let start : Journal := { runId }
  have hgood : ∀ w ∈ start.written es,
      w.hasWholeDetails = true ∧ Schema.readLine w.line = .ok w.readBack :=
    forall_mem_written (fun e he j => (hes e he).stamped j) start
  have hlines : (start.emitAll es).lines.toList = (start.written es).map (·.line) := by
    rw [lines_emitAll]
    rfl
  have htext : (start.emitAll es).text =
      String.join (((start.written es).map (·.line)).map (· ++ "\n")) := by
    rw [text, hlines]
  have hsplit : (Text.lines (start.emitAll es).text.toList).map String.ofList =
      (start.written es).map (·.line) := by
    rw [htext]
    refine Text.lines_join fun line hline => ?_
    obtain ⟨w, hw, rfl⟩ := List.mem_map.1 hline
    exact isLine_line (hgood w hw).1
  have hlength : ((start.written es).map (·.line)).length = es.length := by
    rw [List.length_map, (start.isStamped_written es).length_eq]
  have hissued : (start.emitAll es).issued = es.countP (·.traceId.isEmpty) := by
    rw [issued_emitAll]
    exact Nat.zero_add _
  have hfilled : filledIds es ((start.written es).map (·.readBack)) =
      (List.range' 1 (start.emitAll es).issued).map (traceId runId) := by
    rw [filledIds_map_readBack, filledIds_written, hissued]
  refine ⟨start.emitAll es, (start.written es).map (·.line),
    (start.written es).map (·.readBack), rfl, htext, hsplit, hlength, ?_, ?_, ?_, hissued, ?_, ?_⟩
  · -- the characters of the lines are those of the text between its line breaks
    have hchars : Text.lines (start.emitAll es).text.toList =
        (start.written es).map (·.line.toList) := by
      have hback := congrArg (List.map String.toList) hsplit
      simpa [List.map_map, Function.comp_def] using hback
    rw [Schema.validate, hchars, validateFrom_eq]
    · simp [(start.isStamped_written es).length_eq]
    · intro line hline number
      obtain ⟨w, hw, rfl⟩ := List.mem_map.1 hline
      exact validateOne_line (hgood w hw).2 number
  · rw [List.forall₂_map_left_iff, List.forall₂_map_right_iff, List.forall₂_same]
    intro w hw number
    rw [Schema.validateLine, (hgood w hw).2]
    rfl
  · rw [List.forall₂_map_left_iff, List.forall₂_map_right_iff]
    refine (start.isStamped_written es).imp fun e w hw => ⟨?_, hw.2⟩
    rw [hw.1]
    rfl
  · rw [hfilled, List.forall₂_map_right_iff, List.forall₂_same]
    exact fun n _ => ⟨paddedNumber n, rfl, isPadded_paddedNumber n⟩
  · rw [hfilled]
    exact List.pairwise_map.2
      (List.Pairwise.imp (fun hne heq => hne (traceId_inj heq)) List.nodup_range')

/-- A session in which the entry in the middle has a trace id of its own. -/
def threeEntries : List LogEntry :=
  [{ timestamp := "0.000Z", traceId := "", level := .info, event := "run_started"
     details := some ⟨.object [("depth", .array [.integer (-1), .null])], rfl⟩ },
   { timestamp := "0.001Z", traceId := "other::7", level := .debug, event := "note"
     symbol := some "a \"b\"\n", exitCode := some (-1), details := some ⟨.null, rfl⟩ },
   { timestamp := "0.002Z", traceId := "", level := .error, event := "run_finished"
     outcome := some .fail
     artifacts := some [{ path := "a.h", kind := "header", sha256 := "00", sizeBytes := 3 }] }]

theorem validate_emitAll_threeEntries :
    (∀ e ∈ threeEntries, Loggable e) ∧
      ∃ j, j = ({ runId := "run" } : Journal).emitAll threeEntries ∧ j.issued = 2 ∧
        Schema.validate j.text = { lineCount := 3, errors := [] } := by
  have hes : ∀ e ∈ threeEntries, Loggable e := by
    simp only [threeEntries, List.forall_mem_cons]
    have hown : "::".toList <:+: "other::7".toList := ⟨"other".toList, "7".toList, by decide⟩
    exact ⟨⟨.inl rfl, rfl, by decide⟩, ⟨.inr hown, rfl, by decide⟩,
      ⟨.inl rfl, rfl, by decide⟩, List.forall_mem_nil _⟩
  obtain ⟨j, _, _, hj, -, -, -, hvalid, -, -, hissued, -⟩ := validate_emitAll "run" threeEntries hes
  exact ⟨hes, j, hj, hissued, hvalid⟩

end HeaderAccord.Journal
