import HeaderAccord.Proofs.NameMap
import HeaderAccord.Proofs.Override.Passage
import HeaderAccord.Proofs.Trace
import Mathlib.Data.List.Forall2

/-!
The verdict on a build script. Each struct of the script is judged on its own: it is known to the
header or not, and if it is, what counts are the keys of its fields. A field that only one side
declares is named as that side spells it.
-/

namespace HeaderAccord.Override

open Header

/-! ### Fields of one side only -/

/-- Both lists of fields, each with its key, have the same keys. -/
def SameKeys (reference declared : List (String × String)) : Prop :=
  ∀ key, key ∈ reference.map (·.1) ↔ key ∈ declared.map (·.1)

/-- The fields of one of two lists only: each key once and in order, as its own list spells it
last. -/
structure IsDifference (reference declared differing : List (String × String)) : Prop where
  ordered : (differing.map (·.1)).Pairwise (· < ·)
  mem_iff : ∀ key name, (key, name) ∈ differing ↔
    (IsLast reference key name ∧ key ∉ declared.map (·.1)) ∨
      (IsLast declared key name ∧ key ∉ reference.map (·.1))

theorem IsDifference.eq_nil_iff {reference declared differing : List (String × String)}
    (h : IsDifference reference declared differing) :
    differing = [] ↔ SameKeys reference declared := by
  constructor
  · rintro rfl key
    constructor
    · intro hkey
      obtain ⟨name, hlast⟩ := exists_isLast hkey
      exact Decidable.byContradiction fun hnot =>
        nomatch (h.mem_iff key name).2 (.inl ⟨hlast, hnot⟩)
    · intro hkey
      obtain ⟨name, hlast⟩ := exists_isLast hkey
      exact Decidable.byContradiction fun hnot =>
        nomatch (h.mem_iff key name).2 (.inr ⟨hlast, hnot⟩)
  · intro hsame
    rw [List.eq_nil_iff_forall_not_mem]
    rintro ⟨key, name⟩ hmem
    rcases (h.mem_iff key name).1 hmem with ⟨hlast, hnot⟩ | ⟨hlast, hnot⟩
    · exact hnot ((hsame key).1 hlast.mem_names)
    · exact hnot ((hsame key).2 hlast.mem_names)

theorem find?_filterNames {m : NameMap String} {keep : String → Bool} {key name : String} :
    (m.filterNames keep).find? key = some name ↔ m.find? key = some name ∧ keep key = true := by
  rw [NameMap.find?_eq_some_iff, NameMap.find?_eq_some_iff, NameMap.filterNames, List.mem_filter]

theorem not_contains_iff {m : NameMap String} {key : String} :
    (!m.contains key) = true ↔ key ∉ m.names := by
  rw [← NameMap.find?_eq_none_iff, NameMap.contains]
  cases m.find? key <;> simp

theorem find?_mismatch {reference declared : NameMap String} {key name : String} :
    (mismatch reference declared).find? key = some name ↔
      (reference.find? key = some name ∧ key ∉ declared.names) ∨
        (declared.find? key = some name ∧ key ∉ reference.names) := by
  rw [mismatch, NameMap.find?_insertAll, NameMap.isLast_entries, ← NameMap.find?_eq_some_iff,
    find?_filterNames, find?_filterNames, not_contains_iff, not_contains_iff, or_comm]
  refine or_congr_left (and_iff_right_of_imp ?_)
  -- a field that the second list lacks is not put there a second time
  rintro ⟨-, hnot⟩ hmem
  obtain ⟨e, he, rfl⟩ := List.mem_map.1 hmem
  exact hnot (List.mem_map.2 ⟨e, (List.mem_filter.1 he).1, rfl⟩)

theorem isDifference_mismatch (reference declared : List (String × String)) :
    IsDifference reference declared
      (mismatch (.ofList reference) (.ofList declared)).entries where
  ordered := NameMap.pairwise_names _
  mem_iff key name := by
    rw [← NameMap.find?_eq_some_iff, find?_mismatch, NameMap.find?_ofList, NameMap.find?_ofList,
      NameMap.mem_names_ofList, NameMap.mem_names_ofList]

/-! ### Judging a struct -/

/-- The fields of a structure of the header in order, each with its key. -/
def fieldList (layout : StructureLayout) : List (String × String) :=
  layout.fields.map fun f => (f.name, f.declaredName)

/-- The event and the failures that a struct of a script must lead to. -/
structure Judged (index : HeaderIndex) (label : String) (p : Passage) (event : Event)
    (failures : List CheckFailure) : Prop where
  unknown : index.structure? p.name = none →
    event = .failureRecorded (unknownFailure label p.name).message ∧
      failures = [unknownFailure label p.name]
  passed : ∀ layout, index.structure? p.name = some layout →
    ((event = .structurePassed label p.name ∧ failures = []) ↔
      SameKeys (fieldList layout) p.declared)
  mismatched : ∀ layout, index.structure? p.name = some layout →
    ¬SameKeys (fieldList layout) p.declared →
      ∃ differing, IsDifference (fieldList layout) p.declared differing ∧
        event =
          .failureRecorded (mismatchFailure label p.name (differing.map (·.2))).message ∧
        failures = [mismatchFailure label p.name (differing.map (·.2))]

/-- What the check hands over and finds for one block. -/
def judgement (index : HeaderIndex) (label : String) (b : Block) : Event × List CheckFailure :=
  match verdict index label b with
  | none => (.structurePassed label b.name, [])
  | some failure => (.failureRecorded failure.message, [failure])

theorem checkBlock_emit (index : HeaderIndex) (label : String) (b : Block) :
    checkBlock Traced.emit index label b =
      { events := [(judgement index label b).1], result := (judgement index label b).2 } := by
  rw [checkBlock, judgement]
  cases verdict index label b <;> rfl

theorem judged_judgement (index : HeaderIndex) (label : String) (p : Passage) :
    Judged index label p (judgement index label p.block).1 (judgement index label p.block).2 := by
  have hname : p.block.name = p.name := rfl
  rw [judgement, verdict, hname]
  cases hlayout : index.structure? p.name with
  | none =>
      have hunknown : ∀ layout, index.structure? p.name ≠ some layout := fun _ h => by
        rw [hlayout] at h
        cases h
      exact ⟨fun _ => ⟨rfl, rfl⟩, fun _ h => absurd h (hunknown _),
        fun _ h => absurd h (hunknown _)⟩
  | some layout =>
      have hknown : index.structure? p.name ≠ none := fun h => by
        rw [hlayout] at h
        cases h
      have honly {other : StructureLayout} (h : index.structure? p.name = some other) :
          other = layout := Option.some.inj (h.symm.trans hlayout)
      have hdiff := isDifference_mismatch (fieldList layout) p.declared
      have hvalues : (mismatch layout.fieldKeys p.block.fields).values =
          (mismatch (.ofList (fieldList layout)) (.ofList p.declared)).entries.map (·.2) := rfl
      dsimp only
      rw [hvalues]
      cases hentries : (mismatch (.ofList (fieldList layout)) (.ofList p.declared)).entries with
      | nil =>
          have hsame := hdiff.eq_nil_iff.1 hentries
          refine ⟨fun h => absurd h hknown, fun other h => ?_, fun other h hnot => ?_⟩
          · rw [honly h]
            exact ⟨fun _ => hsame, fun _ => ⟨rfl, rfl⟩⟩
          · rw [honly h] at hnot
            exact absurd hsame hnot
      | cons e es =>
          rw [hentries] at hdiff
          have hnot : ¬SameKeys (fieldList layout) p.declared := fun hsame => by
            simpa using hdiff.eq_nil_iff.2 hsame
          refine ⟨fun h => absurd h hknown, fun other h => ?_, fun other h _ => ?_⟩
          · rw [honly h]
            exact ⟨fun h => by simp at h, fun hsame => absurd hsame hnot⟩
          · rw [honly h]
            exact ⟨_, hdiff, rfl, rfl⟩

/-! ### Judging a script -/

theorem checkScript_emit (index : HeaderIndex) (script label : String) :
    checkScript Traced.emit index script label =
      { events := (blocks script).map fun b => (judgement index label b).1
        result := (blocks script).flatMap fun b => (judgement index label b).2 } := by
  rw [checkScript]
  ext1
  · simp [Traced.events_mapM, checkBlock_emit, List.map_eq_flatMap]
  · simp [Traced.result_mapM, checkBlock_emit, List.flatMap_def]

/-- The message of an event that records a failure. -/
def recordedMessage? : Event → Option String
  | .failureRecorded message => some message
  | _ => none

theorem Judged.recorded {index : HeaderIndex} {label : String} {p : Passage} {event : Event}
    {failures : List CheckFailure} (h : Judged index label p event failures) :
    failures.map (·.message) = (recordedMessage? event).toList ∧
      ∀ f ∈ failures, f.checker = .structures := by
  cases hlayout : index.structure? p.name with
  | none =>
      obtain ⟨rfl, rfl⟩ := h.unknown hlayout
      exact ⟨rfl, by simp [unknownFailure]⟩
  | some layout =>
      by_cases hsame : SameKeys (fieldList layout) p.declared
      · obtain ⟨rfl, rfl⟩ := (h.passed layout hlayout).2 hsame
        exact ⟨rfl, nofun⟩
      · obtain ⟨differing, -, rfl, rfl⟩ := h.mismatched layout hlayout hsame
        exact ⟨rfl, by simp [mismatchFailure]⟩

/-- The verdict on a script, for anyone who watches: its structs are judged one after the other,
each with one event, and the failures are those that the events record. -/
theorem checkScript_verdict {m : Type → Type} [Monad m] [LawfulMonad m] (notify : Event → m Unit)
    (index : HeaderIndex) (script label : String) :
    ∃ judgements : List (Event × List CheckFailure),
      blocks script = (passages script).map (·.block) ∧
      List.Forall₂ (fun p j => Judged index label p j.1 j.2) (passages script) judgements ∧
      (∀ f ∈ judgements.flatMap (·.2), f.checker = .structures) ∧
      (judgements.flatMap (·.2)).map (·.message) =
        (judgements.map (·.1)).filterMap recordedMessage? ∧
      checkScript notify index script label = do
        (judgements.map (·.1)).forM notify
        return judgements.flatMap (·.2) := by
  have hjudged (p : Passage) := judged_judgement index label p
  refine ⟨(passages script).map fun p => judgement index label p.block,
    blocks_eq_map_passages script, ?_, ?_, ?_, ?_⟩
  · rw [List.forall₂_map_right_iff]
    exact List.forall₂_same.2 fun p _ => hjudged p
  · intro f hf
    obtain ⟨j, hj, hf⟩ := List.mem_flatMap.1 hf
    obtain ⟨p, -, rfl⟩ := List.mem_map.1 hj
    exact (hjudged p).recorded.2 f hf
  · induction passages script with
    | nil => rfl
    | cons p ps ih =>
        simp only [List.map_cons, List.flatMap_cons, List.map_append, List.filterMap_cons, ih,
          (hjudged p).recorded.1]
        cases recordedMessage? (judgement index label p.block).1 <;> rfl
  · rw [Traced.checkScript_eq_replay, Traced.replay, checkScript_emit, blocks_eq_map_passages,
      List.map_map, List.flatMap_map, List.map_map, List.flatMap_map]
    rfl

/-! A struct that spells one key in two ways and lacks another, and one that the header does not
know. -/

def extentIndex : HeaderIndex where
  functions := []
  structures := .ofList
    [("Extent", { name := "Extent", fields :=
      [{ name := "width", declaredName := "width", typeText := "uint32_t" },
       { name := "height", declaredName := "height", typeText := "uint32_t" }] })]

def extentScript : String :=
  "pub struct Extent \x7b\n    pub width: u32, pub d_epth: u8,\n    pub depth: u32,\n\x7d\n" ++
    "pub struct Color \x7b pub r: f64 \x7d\n"

theorem checkScript_verdict_extent :
    ∃ judgements : List (Event × List CheckFailure),
      List.Forall₂ (fun p j => Judged extentIndex "build.rs" p j.1 j.2)
        [{ name := "Extent"
           declared := [("width", "width"), ("depth", "d_epth"), ("depth", "depth")] },
         { name := "Color", declared := [("r", "r")] }] judgements ∧
      judgements.map (·.1) =
        [.failureRecorded "✖ Key mismatch in build.rs struct Extent: \x7bdepth, height\x7d",
         .failureRecorded "✖ Unknown build.rs struct Color"] := by
  obtain ⟨judgements, -, hjudged, -, -, hrun⟩ :=
    checkScript_verdict Traced.emit extentIndex extentScript "build.rs"
  have hpassages : passages extentScript =
      [{ name := "Extent"
         declared := [("width", "width"), ("depth", "d_epth"), ("depth", "depth")] },
       { name := "Color", declared := [("r", "r")] }] := by
    decide +kernel
  have hevents : (checkScript Traced.emit extentIndex extentScript "build.rs").events =
      [.failureRecorded "✖ Key mismatch in build.rs struct Extent: \x7bdepth, height\x7d",
       .failureRecorded "✖ Unknown build.rs struct Color"] := by
    decide +kernel
  have hhanded (events : List Event) : (events.forM Traced.emit).events = events := by
    induction events with
    | nil => rfl
    | cons e events ih => simpa [List.forM_eq_forM] using ih
  rw [hrun, Traced.events_bind, hhanded] at hevents
  refine ⟨judgements, hpassages ▸ hjudged, ?_⟩
  simpa using hevents

end HeaderAccord.Override
