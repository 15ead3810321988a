import HeaderAccord.Proofs.Journal.Schema
import HeaderAccord.Proofs.Lines

/-!
Entries read back from their lines. An entry fits the schema whatever its optional fields are, and
what is read of its line is the entry itself, except that a null in place of details counts as none.
-/

namespace HeaderAccord

open Json ValueReader

def Json.isNull : Json → Bool
  | .null => true
  | _ => false

namespace LogEntry

/-! ### What an entry is written as -/

theorem isArtifact_toJson (a : Artifact) : Schema.IsArtifact a.toJson a := by
  have hlast {name : String} {v : Json}
      (hmem : (name, v) ∈ [("path", Json.string a.path), ("kind", .string a.kind),
        ("sha256", .string a.sha256), ("size_bytes", .integer a.sizeBytes.toNat)]) :
      IsLast _ name v := isLast_of_nodup (by simp) hmem
  exact .object ⟨_, hlast (by simp), rfl⟩ ⟨_, hlast (by simp), rfl⟩ ⟨_, hlast (by simp), rfl⟩
    ⟨_, hlast (by simp), rfl⟩

theorem areArtifacts_toJson (as : List Artifact) :
    Schema.AreArtifacts (.array (as.map (·.toJson))) as := by
  refine ⟨_, rfl, ?_⟩
  rw [List.forall₂_map_left_iff, List.forall₂_same]
  exact fun a _ => isArtifact_toJson a

/-- What is read of the line of an entry: a null in place of details counts as none. -/
def readBack (e : LogEntry) : LogEntry :=
  { e with details := e.details.filter fun d => !d.val.isNull }

/-- What stands under each name in the line of an entry. -/
def slots (e : LogEntry) : Slots :=
  [("timestamp", some (.string e.timestamp)), ("trace_id", some (.string e.traceId)),
   ("level", some (.string e.level.name)), ("event", some (.string e.event)),
   ("checker", e.checker.map fun c => .string c.name), ("file", e.file.map .string),
   ("symbol", e.symbol.map .string), ("outcome", e.outcome.map fun o => .string o.name),
   ("exit_code", e.exitCode.map fun n => .integer n.toInt),
   ("artifacts", e.artifacts.map fun as => .array (as.map (·.toJson))),
   ("details", e.details.map (·.val))]

theorem nodup_slots (e : LogEntry) : (e.slots.map (·.1)).Nodup := by simp [slots]

theorem toJson_eq (e : LogEntry) : e.toJson = .object e.slots.members := by
  rw [← Slots.objectOf_member, toJson]
  simp [slots, Slots.member, optionalMember, Function.comp_def]

theorem mayHave_details (e : LogEntry) :
    MayHave Schema.IsDetails e.slots.members "details" e.readBack.details := by
  have hslot : ("details", e.details.map (·.val)) ∈ e.slots := by simp [slots]
  rw [readBack]
  cases hdetails : e.details with
  | none =>
      rw [hdetails] at hslot
      exact .inr ⟨Slots.name_not_mem e.nodup_slots hslot, rfl⟩
  | some d =>
      rw [hdetails] at hslot
      refine .inl (has_of_slot e.nodup_slots hslot ?_)
      obtain ⟨v, hv⟩ := d
      cases v <;> first | rfl | exact ⟨nofun, toOrdered_val ⟨_, hv⟩⟩

/-- The line of an entry is written for what is read back of the entry. -/
theorem fits_slots (e : LogEntry) : Schema.Fits e.slots.members e.readBack where
  timestamp := has_of_slot e.nodup_slots (by simp [slots, readBack]) rfl
  traceId := has_of_slot e.nodup_slots (by simp [slots, readBack]) rfl
  level := has_of_slot e.nodup_slots (by simp [slots, readBack]) (.inl rfl)
  event := has_of_slot e.nodup_slots (by simp [slots, readBack]) rfl
  checker := mayHave_of_slot e.nodup_slots (fun c => .string c.name) (by simp [slots, readBack])
    fun _ => ⟨nofun, .inl rfl⟩
  file := mayHave_of_slot e.nodup_slots .string (by simp [slots, readBack]) fun _ => ⟨nofun, rfl⟩
  symbol := mayHave_of_slot e.nodup_slots .string (by simp [slots, readBack])
    fun _ => ⟨nofun, rfl⟩
  outcome := mayHave_of_slot e.nodup_slots (fun o => .string o.name) (by simp [slots, readBack])
    fun _ => ⟨nofun, .inl rfl⟩
  exitCode := mayHave_of_slot e.nodup_slots (fun n => .integer n.toInt) (by simp [slots, readBack])
    fun _ => ⟨nofun, rfl⟩
  artifacts := mayHave_of_slot e.nodup_slots (fun as => .array (as.map (·.toJson)))
    (by simp [slots, readBack]) fun as => ⟨nofun, areArtifacts_toJson as⟩
  details := e.mayHave_details

/-! ### The line of an entry -/

/-- Every number in the details is an integer of 64 bits. -/
def hasWholeDetails (e : LogEntry) : Bool := e.details.all fun d => d.val.isWhole

/-- Every number in the details is an integer of 64 bits, `-0` among them. -/
def hasIntegralDetails (e : LogEntry) : Bool := e.details.all fun d => d.val.isIntegral

theorem hasIntegralDetails_of_hasWholeDetails {e : LogEntry} (h : e.hasWholeDetails = true) :
    e.hasIntegralDetails = true :=
  (Option.all_eq_true _ _).2 fun d hd => isIntegral_of_isWhole _ ((Option.all_eq_true _ _).1 h d hd)

/-- How deep the details nest. -/
def detailsNesting (e : LogEntry) : Nat := e.details.elim 0 fun d => d.val.nesting

theorem isIntegral_artifact (a : Artifact) : a.toJson.isIntegral = true := by
  have hsize := a.sizeBytes.toNat_lt
  have hfits : Numeral.fits a.sizeBytes.toNat = true := by
    rw [Numeral.fits, Bool.and_eq_true, decide_eq_true_eq, decide_eq_true_eq]
    omega
  simp [Artifact.toJson, natural, isIntegral, areIntegralMembers, hfits]

theorem nesting_artifact (a : Artifact) : a.toJson.nesting = 1 := by
  simp [Artifact.toJson, natural, nesting, nestingMembers]

/-- What holds of texts, exit codes and artifacts holds of all values of an entry if it holds of its
details. -/
theorem forall_members_iff {P : Json → Prop} (hstring : ∀ s, P (.string s))
    (hcode : ∀ n : Int32, P (.integer n.toInt))
    (hartifacts : ∀ as : List Artifact, P (.array (as.map (·.toJson)))) (e : LogEntry) :
    (∀ name v, (name, v) ∈ e.slots.members → P v) ↔ ∀ d, e.details = some d → P d.val := by
  have hslots : (∀ name v, (name, v) ∈ e.slots.members → P v) ↔
      ∀ slot ∈ e.slots, ∀ v, slot.2 = some v → P v := by
    simp only [Slots.mem_members]
    exact ⟨fun h slot hslot v hv => h slot.1 v (hv ▸ hslot), fun h name v hv => h _ hv v rfl⟩
  rw [hslots]
  cases hdetails : e.details <;> simp [slots, hdetails, hstring, hcode, hartifacts]

theorem isIntegral_toJson {e : LogEntry} (h : e.hasIntegralDetails = true) :
    e.toJson.isIntegral = true := by
  have hcode (n : Int32) : Numeral.fits n.toInt = true := by
    have hlow := n.le_toInt
    have hhigh := n.toInt_lt
    rw [Numeral.fits, Bool.and_eq_true, decide_eq_true_eq, decide_eq_true_eq]
    omega
  have hartifacts (as : List Artifact) : areIntegral (as.map (·.toJson)) = true := by
    simp [areIntegral_iff, isIntegral_artifact]
  rw [e.toJson_eq, isIntegral, areIntegralMembers_iff,
    forall_members_iff (fun _ => rfl) hcode hartifacts]
  exact fun d hd => (Option.all_eq_true _ _).1 h d hd

/-- The object of an entry takes one level; the artifacts in it take two more. -/
theorem nesting_toJson_le_iff (e : LogEntry) :
    e.toJson.nesting ≤ Tree.maxDepth ↔ e.detailsNesting < Tree.maxDepth := by
  have hartifacts (as : List Artifact) : (Json.array (as.map (·.toJson))).nesting ≤ 126 := by
    have hitems : nestingItems (as.map (·.toJson)) ≤ 1 := by
      simp [nestingItems_le_iff, nesting_artifact]
    rw [nesting]
    omega
  have hmembers : nestingMembers e.slots.members ≤ 126 ↔ e.detailsNesting ≤ 126 := by
    rw [nestingMembers_le_iff, forall_members_iff (P := fun v => v.nesting ≤ 126)
      (fun _ => by simp [nesting]) (fun _ => by simp [nesting]) hartifacts, detailsNesting]
    cases e.details <;> simp
  rw [e.toJson_eq, nesting, Tree.maxDepth]
  omega

/-- The line of an entry has no line break in it. -/
theorem isLine_line {e : LogEntry} (h : e.hasIntegralDetails = true) : IsLine e.line.toList := by
  rw [line, compact, String.toList_ofList]
  intro c hc
  have hvisible := isVisible_compactChars _ (isIntegral_toJson h) c hc
  constructor <;> rintro rfl <;> exact absurd hvisible (by decide)

/-- What the schema makes of the line of an entry that has a trace id of the right form: its
details have to leave the reader a level for the entry itself. -/
theorem readLine_line {e : LogEntry} (hdetails : e.hasIntegralDetails = true)
    (hid : Schema.hasSeparator e.traceId = true) :
    Schema.readLine e.line =
      if e.detailsNesting < Tree.maxDepth then .ok e.readBack
      else .error [("<json>", "invalid JSON: recursion limit exceeded")] := by
  by_cases hdepth : e.detailsNesting < Tree.maxDepth
  · have hvalue : HasValue e.line (.object e.slots.members) := by
      rw [line, ← e.toJson_eq]
      exact hasValue_compact_of_isIntegral (isIntegral_toJson hdetails)
        (e.nesting_toJson_le_iff.2 hdepth)
    rw [if_pos hdepth]
    exact (Schema.readLine_object_iff hvalue).2 ⟨e.fits_slots, Text.isSome_cutAt?_iff.1 hid⟩
  · have hdeep : ¬e.toJson.nesting ≤ Tree.maxDepth := mt e.nesting_toJson_le_iff.1 hdepth
    rw [Schema.readLine, line, ofText_compact (isIntegral_toJson hdetails), within, if_neg hdeep,
      if_neg hdepth]
    rfl

end LogEntry

end HeaderAccord
