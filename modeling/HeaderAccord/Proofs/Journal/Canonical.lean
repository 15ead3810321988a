import HeaderAccord.Proofs.Journal.Entry
import HeaderAccord.Proofs.Json.Ordering

/-!
The canonical line of an entry. A line may spell its entry in many ways: with other members, with
members that later ones replace, with nulls, with any blanks and escapes. The entry is written on one
line from which all of that is gone, and that line is read as the entry again.
-/

namespace HeaderAccord.Schema

open Json ValueReader

/-- What is read for details is a value on the line, put in order, and no null. -/
theorem Fits.exists_details {members : List (String × Json)} {e : LogEntry} (h : Fits members e)
    {d : OrderedJson} (hd : e.details = some d) :
    ∃ v, ("details", v) ∈ members ∧ v ≠ .null ∧ v.ordered = d.val := by
  rcases h.details with ⟨v, hlast, hoptional⟩ | ⟨-, hnone⟩
  · rw [hd] at hoptional
    exact ⟨v, hlast.mem, hoptional.1, congrArg Subtype.val hoptional.2⟩
  · rw [hd] at hnone
    cases hnone

theorem Fits.readBack_eq {members : List (String × Json)} {e : LogEntry} (h : Fits members e) :
    e.readBack = e := by
  have hdetails : e.details.filter (fun d => !d.val.isNull) = e.details := by
    cases hd : e.details with
    | none => rfl
    | some d =>
        obtain ⟨v, -, hv, hval⟩ := h.exists_details hd
        have hnull : d.val.isNull = false := by
          rw [← hval]
          cases v <;> first | rfl | exact absurd rfl hv
        simp [hnull]
  rw [LogEntry.readBack, hdetails]

theorem Fits.hasIntegralDetails {members : List (String × Json)} {e : LogEntry}
    (h : Fits members e) (hnumbers : (Json.object members).isIntegral = true) :
    e.hasIntegralDetails = true := by
  rw [isIntegral, areIntegralMembers_iff] at hnumbers
  refine (Option.all_eq_true _ _).2 fun d hd => ?_
  obtain ⟨v, hv, -, hval⟩ := h.exists_details hd
  rw [← hval]
  exact isIntegral_ordered (hnumbers _ v hv)

/-- The object of the line takes one level itself. -/
theorem Fits.detailsNesting_lt {members : List (String × Json)} {e : LogEntry}
    (h : Fits members e) {depth : Nat} (hdepth : (Json.object members).nesting ≤ depth) :
    e.detailsNesting < depth := by
  rw [nesting, Nat.add_one_le_iff] at hdepth
  rw [LogEntry.detailsNesting]
  cases hd : e.details with
  | none => exact Nat.zero_lt_of_lt hdepth
  | some d =>
      obtain ⟨v, hv, -, hval⟩ := h.exists_details hd
      have hmember := nestingMembers_le_iff.1 (Nat.le_refl (nestingMembers members)) _ v hv
      have hordered := nesting_ordered_le v
      rw [hval] at hordered
      show d.val.nesting < depth
      omega

/-- Accepted lines have a canonical form. However a line spells its entry, if all its numbers are
integers of 64 bits, the entry is written without a line break, and what is written is accepted as the
same entry, which is written the same again. -/
theorem validateLine_line {line : String} {number : Nat} {e : LogEntry} {v : Json}
    (h : validateLine line number = .ok e) (hvalue : HasValue line v)
    (hnumbers : v.isIntegral = true) :
    IsLine e.line.toList ∧
      ∀ n, validateLine e.line n = .ok e ∧ (validateLine e.line n).map LogEntry.line = .ok e.line := by
  rw [validateLine, mapError_eq_ok_iff] at h
  obtain ⟨members, hmembers, hconforms⟩ := exists_conforms_of_readLine h
  obtain rfl := hvalue.unique hmembers
  have hfits := hconforms.toFits
  have hdetails := hfits.hasIntegralDetails hnumbers
  have hread : readLine e.line = .ok e := by
    have hid : hasSeparator e.traceId = true := Text.isSome_cutAt?_iff.2 hconforms.separated
    rw [LogEntry.readLine_line hdetails hid, if_pos (hfits.detailsNesting_lt hvalue.nesting_le),
      hfits.readBack_eq]
  refine ⟨LogEntry.isLine_line hdetails, fun n => ?_⟩
  have hagain : validateLine e.line n = .ok e := by rw [validateLine, hread]; rfl
  exact ⟨hagain, by rw [hagain]; rfl⟩

/-- Members of which some are passed over and some are replaced by later ones. -/
def replacedMembers : List (String × Json) :=
  [("level", .object [("warn", .null)]), ("event", .string ""), ("x", .integer 1), ("file", .null),
   ("details", .object [("b", .integer 1), ("a", .integer (-1)), ("b", .integer 2)]),
   ("event", .string "e"), ("trace_id", .string "r::1"), ("timestamp", .string "t")]

theorem validateLine_line_replaced :
    let line := "\x7b\"level\":\x7b\"warn\":null\x7d,\"event\":\"\",\"x\":1,\"file\":null," ++
      "\"details\":\x7b\"b\":1,\"a\":-1,\"b\":2\x7d,\"event\":\"e\",\"trace_id\":\"r::1\"," ++
      "\"timestamp\":\"t\"\x7d"
    let written := "\x7b\"timestamp\":\"t\",\"trace_id\":\"r::1\",\"level\":\"warn\"," ++
      "\"event\":\"e\",\"details\":\x7b\"a\":-1,\"b\":2\x7d\x7d"
    ∃ e, validateLine line 1 = .ok e ∧ e.line = written ∧ validateLine written 2 = .ok e := by
  intro line written
  let e : LogEntry :=
    { timestamp := "t", traceId := "r::1", level := .warn, event := "e"
      details := some
        (toOrdered (.object [("b", .integer 1), ("a", .integer (-1)), ("b", .integer 2)])) }
  have htext : line = (Json.object replacedMembers).compact := by decide +kernel
  have hvalue : HasValue line (.object replacedMembers) := by
    rw [htext]
    exact hasValue_compact_of_isIntegral (by decide) (by decide)
  have hline : validateLine line 1 = .ok e := by
    rw [validateLine, readLine, ofText_eq_ok_iff.2 ⟨_, hvalue, rfl⟩]
    rfl
  have hwritten : e.line = written := by decide +kernel
  obtain ⟨-, hagain⟩ := validateLine_line hline hvalue (by decide)
  exact ⟨e, hline, hwritten, hwritten ▸ (hagain 2).1⟩

end HeaderAccord.Schema
