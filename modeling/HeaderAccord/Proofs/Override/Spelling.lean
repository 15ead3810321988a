import HeaderAccord.Proofs.Header.Capture
import HeaderAccord.Proofs.Override.Verdict
import HeaderAccord.Proofs.Spelling

/-!
The verdict on a build script, told by spellings. A field of a struct is taken for the field of the
header whose name it respells. A struct passes if every field of either side respells one of the
other; if not, it fails with the fields that respell none. Keys do not come into it.
-/

namespace HeaderAccord.Override

open Header Name

/-! ### Fields and their keys -/

/-- Each name stands beside its key. -/
def Keyed (fields : List (String × String)) : Prop := ∀ e ∈ fields, e.1 = Name.key e.2

theorem keyed_publicFields (text : List Char) : Keyed (publicFields text) := by
  intro e he
  obtain ⟨declaration, -, hfield⟩ := List.mem_filterMap.1 he
  rw [publicField?] at hfield
  split at hfield
  · cases hfield
  · dsimp only at hfield
    split at hfield
    · cases hfield
    · cases hfield
      rw [Name.key, String.toList_ofList]

/-- The structs that a line ends and leaves open have their fields beside the keys. -/
def ReadsKeyed (read : Option Passage × Option Passage) : Prop :=
  (∀ p ∈ read.1, Keyed p.declared) ∧ ∀ p ∈ read.2, Keyed p.declared

theorem readsKeyed_readBody {p : Passage} (h : Keyed p.declared) (body : List Char) :
    ReadsKeyed (p.readBody body) := by
  have hextend (text : List Char) : Keyed (p.extend text).declared :=
    List.forall_mem_append.2 ⟨h, keyed_publicFields text⟩
  rw [Passage.readBody]
  cases Text.cutFirst? '\x7d' body with
  | none => simpa [ReadsKeyed] using hextend body
  | some parts => simpa [ReadsKeyed] using hextend parts.1

theorem readsKeyed_readHead (afterKeyword : List Char) :
    ReadsKeyed (Passage.readHead afterKeyword) := by
  have hfresh : Keyed [] := List.forall_mem_nil _
  rw [Passage.readHead]
  cases Text.cutFirst? '\x7b' afterKeyword with
  | none =>
      dsimp only
      split
      · simp [ReadsKeyed]
      · simpa [ReadsKeyed] using hfresh
  | some parts =>
      dsimp only
      split
      · simp [ReadsKeyed]
      · exact readsKeyed_readBody hfresh parts.2

theorem readsKeyed_readLine {open? : Option Passage} (h : ∀ p ∈ open?, Keyed p.declared)
    (code : List Char) : ReadsKeyed (Passage.readLine open? code) := by
  simp only [Passage.readLine]
  cases Text.afterPrefix? structKeyword code with
  | some afterKeyword => exact readsKeyed_readHead afterKeyword
  | none =>
      cases open? with
      | none => simp [ReadsKeyed]
      | some p => exact readsKeyed_readBody (h p rfl) code

/-- Line after line, with the struct that is open before the line. -/
theorem keyed_of_mem_passagesFrom {open? : Option Passage} (h : ∀ p ∈ open?, Keyed p.declared)
    {lines : List (List Char)} {p : Passage} (hp : p ∈ passagesFrom open? lines) :
    Keyed p.declared := by
  induction lines generalizing open? with
  | nil => cases hp
  | cons line lines ih =>
      obtain ⟨hended, hstill⟩ := readsKeyed_readLine h (codeOf line)
      rcases List.mem_append.1 hp with hp | hp
      · exact hended p (Option.mem_toList.1 hp)
      · exact ih hstill hp

theorem keyed_of_mem_passages {script : String} {p : Passage} (hp : p ∈ passages script) :
    Keyed p.declared :=
  keyed_of_mem_passagesFrom (by simp) hp

/-! ### Fields that match -/

/-- The name respells one of the others. -/
def RespellsOne (name : String) (others : List String) : Prop :=
  ∃ other ∈ others, Respells name.toList other.toList

instance (name : String) (others : List String) : Decidable (RespellsOne name others) :=
  inferInstanceAs (Decidable (∃ other ∈ others, _))

/-- Every name of either side respells one of the other. -/
structure Match (reference declared : List String) : Prop where
  of_reference : ∀ name ∈ reference, RespellsOne name declared
  of_declared : ∀ name ∈ declared, RespellsOne name reference

/-- The names of either side that respell none of the other, each in one spelling. -/
structure AreUnmatched (reference declared names : List String) : Prop where
  alone : ∀ name ∈ names, (name ∈ reference ∧ ¬RespellsOne name declared) ∨
    (name ∈ declared ∧ ¬RespellsOne name reference)
  of_reference : ∀ name ∈ reference, ¬RespellsOne name declared → RespellsOne name names
  of_declared : ∀ name ∈ declared, ¬RespellsOne name reference → RespellsOne name names
  distinct : names.Pairwise fun a b => ¬Respells a.toList b.toList

/-- Each name is ASCII and stands beside its key. -/
structure Spelled (fields : List (String × String)) : Prop where
  keyed : Keyed fields
  isAscii : ∀ e ∈ fields, IsAscii e.2.toList

theorem Spelled.key_mem_iff {fields : List (String × String)} (h : Spelled fields) {name : String}
    (hname : IsAscii name.toList) :
    Name.key name ∈ fields.map (·.1) ↔ RespellsOne name (fields.map (·.2)) := by
  simp only [RespellsOne, List.mem_map, exists_exists_and_eq_and]
  refine exists_congr fun e => and_congr_right fun he => ?_
  rw [h.keyed e he, eq_comm, key_eq_key_iff hname (h.isAscii e he)]

theorem spelled_fieldList {layout : StructureLayout} (hcaptured : ∀ f ∈ layout.fields, f.IsCaptured)
    (hfields : ∀ f ∈ layout.fields, IsAscii f.declaredName.toList) :
    Spelled (fieldList layout) where
  keyed := List.forall_mem_map.2 fun f hf => (hcaptured f hf).keyed
  isAscii := List.forall_mem_map.2 hfields

section

variable {reference declared differing : List (String × String)}

theorem keys_subset_iff (hreference : Spelled reference) (hdeclared : Spelled declared) :
    (∀ key ∈ reference.map (·.1), key ∈ declared.map (·.1)) ↔
      ∀ name ∈ reference.map (·.2), RespellsOne name (declared.map (·.2)) := by
  rw [List.forall_mem_map, List.forall_mem_map]
  refine forall₂_congr fun e he => ?_
  rw [hreference.keyed e he, hdeclared.key_mem_iff (hreference.isAscii e he)]

theorem sameKeys_iff_match (hreference : Spelled reference) (hdeclared : Spelled declared) :
    SameKeys reference declared ↔ Match (reference.map (·.2)) (declared.map (·.2)) := by
  constructor
  · intro hsame
    exact ⟨(keys_subset_iff hreference hdeclared).1 fun key => (hsame key).1,
      (keys_subset_iff hdeclared hreference).1 fun key => (hsame key).2⟩
  · intro hmatch key
    exact ⟨(keys_subset_iff hreference hdeclared).2 hmatch.of_reference key,
      (keys_subset_iff hdeclared hreference).2 hmatch.of_declared key⟩

theorem IsDifference.symm (h : IsDifference reference declared differing) :
    IsDifference declared reference differing where
  ordered := h.ordered
  mem_iff key name := by rw [h.mem_iff, or_comm]

/-- A field of the first side only is among the differing ones, in some spelling. -/
theorem IsDifference.respellsOne (h : IsDifference reference declared differing)
    (hreference : Spelled reference) (hdeclared : Spelled declared) :
    ∀ name ∈ reference.map (·.2), ¬RespellsOne name (declared.map (·.2)) →
      RespellsOne name (differing.map (·.2)) := by
  intro name hname halone
  obtain ⟨e, he, rfl⟩ := List.mem_map.1 hname
  have hkey : Name.key e.2 ∈ reference.map (·.1) := hreference.keyed e he ▸ List.mem_map_of_mem he
  obtain ⟨last, hlast⟩ := exists_isLast hkey
  have hnot := mt (hdeclared.key_mem_iff (hreference.isAscii e he)).1 halone
  have hmem := (h.mem_iff _ last).2 (.inl ⟨hlast, hnot⟩)
  refine ⟨last, List.mem_map_of_mem hmem, ?_⟩
  rw [← key_eq_key_iff (hreference.isAscii e he) (hreference.isAscii _ hlast.mem)]
  exact hreference.keyed _ hlast.mem

/-- The differing fields are spelled as on their side. -/
theorem IsDifference.spelled (h : IsDifference reference declared differing)
    (hreference : Spelled reference) (hdeclared : Spelled declared) : Spelled differing := by
  have hside : ∀ e ∈ differing, e ∈ reference ∨ e ∈ declared := by
    intro e he
    exact ((h.mem_iff e.1 e.2).1 he).imp (·.1.mem) (·.1.mem)
  exact ⟨fun e he => (hside e he).elim (hreference.keyed e) (hdeclared.keyed e),
    fun e he => (hside e he).elim (hreference.isAscii e) (hdeclared.isAscii e)⟩

theorem IsDifference.areUnmatched (h : IsDifference reference declared differing)
    (hreference : Spelled reference) (hdeclared : Spelled declared) :
    AreUnmatched (reference.map (·.2)) (declared.map (·.2)) (differing.map (·.2)) := by
  have hspelled := h.spelled hreference hdeclared
  refine ⟨?_, h.respellsOne hreference hdeclared, h.symm.respellsOne hdeclared hreference, ?_⟩
  · intro name hname
    obtain ⟨e, he, rfl⟩ := List.mem_map.1 hname
    have hname := hspelled.isAscii e he
    rcases (h.mem_iff e.1 e.2).1 he with ⟨hlast, hnot⟩ | ⟨hlast, hnot⟩
    · rw [hspelled.keyed e he, hdeclared.key_mem_iff hname] at hnot
      exact .inl ⟨List.mem_map_of_mem hlast.mem, hnot⟩
    · rw [hspelled.keyed e he, hreference.key_mem_iff hname] at hnot
      exact .inr ⟨List.mem_map_of_mem hlast.mem, hnot⟩
  · rw [List.pairwise_map]
    refine (List.pairwise_map.1 h.ordered).imp_of_mem fun {a b} ha hb hlt hrespells => ?_
    rw [hspelled.keyed a ha, hspelled.keyed b hb,
      (key_eq_key_iff (hspelled.isAscii a ha) (hspelled.isAscii b hb)).2 hrespells] at hlt
    exact String.lt_irrefl _ hlt

end

/-! ### The verdict -/

/-- The event and the failures of a struct that the header knows, told by the names of its fields
and of the header's. -/
structure JudgedBySpelling (label : String) (p : Passage) (layout : StructureLayout)
    (event : Event) (failures : List CheckFailure) : Prop where
  passed : (event = .structurePassed label p.name ∧ failures = []) ↔
    Match (layout.fields.map (·.declaredName)) (p.declared.map (·.2))
  mismatched : ¬Match (layout.fields.map (·.declaredName)) (p.declared.map (·.2)) →
    ∃ names, AreUnmatched (layout.fields.map (·.declaredName)) (p.declared.map (·.2)) names ∧
      event = .failureRecorded (mismatchFailure label p.name names).message ∧
      failures = [mismatchFailure label p.name names]

theorem Judged.bySpelling {index : HeaderIndex} {label : String} {p : Passage} {event : Event}
    {failures : List CheckFailure} (h : Judged index label p event failures)
    {layout : StructureLayout} (hlayout : index.structure? p.name = some layout)
    (hreference : Spelled (fieldList layout)) (hdeclared : Spelled p.declared) :
    JudgedBySpelling label p layout event failures := by
  have hnames : (fieldList layout).map (·.2) = layout.fields.map (·.declaredName) := by
    rw [fieldList, List.map_map]
    rfl
  have hmatch := sameKeys_iff_match hreference hdeclared
  rw [hnames] at hmatch
  constructor
  · rw [h.passed layout hlayout, hmatch]
  · intro hnot
    obtain ⟨differing, hdiff, hevent, hfailures⟩ := h.mismatched layout hlayout (mt hmatch.1 hnot)
    have hunmatched := hdiff.areUnmatched hreference hdeclared
    rw [hnames] at hunmatched
    exact ⟨_, hunmatched, hevent, hfailures⟩

end HeaderAccord.Override
