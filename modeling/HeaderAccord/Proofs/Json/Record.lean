import Mathlib.Data.List.Nodup
import HeaderAccord.Json.Value
import HeaderAccord.Proofs.NameMap

/-!
Objects in order. Ordering moves the members of an object about and leaves the last one of each
name. Of a record whose members have different names it leaves all of them.
-/

namespace HeaderAccord.Json

/-! ### Ordered values -/

theorem insertEntry_of_lt {α : Type} {name : String} {value : α} {entries : List (String × α)}
    (h : ∀ e ∈ entries, name < e.1) :
    insertEntry name value entries = (name, value) :: entries := by
  cases entries with
  | nil => rfl
  | cons e entries => exact if_pos (h e (by simp))

mutual

theorem ordered_eq_self : (v : Json) → v.isOrdered = true → v.ordered = v
  | .null, _ => rfl
  | .bool _, _ => rfl
  | .integer _, _ => rfl
  | .double _, _ => rfl
  | .string _, _ => rfl
  | .array items, h => congrArg Json.array (orderedItems_eq_self items h)
  | .object members, h => congrArg Json.object (orderedMembers_eq_self members h)

theorem orderedItems_eq_self :
    (items : List Json) → areOrdered items = true → orderedItems items = items
  | [], _ => rfl
  | v :: vs, h => by
      rw [areOrdered, Bool.and_eq_true] at h
      rw [orderedItems, ordered_eq_self v h.1, orderedItems_eq_self vs h.2]

theorem orderedMembers_eq_self : (members : List (String × Json)) →
    areOrderedMembers members = true → orderedMembers members = members
  | [], _ => rfl
  | (name, v) :: rest, h => by
      simp only [areOrderedMembers, Bool.and_eq_true, List.all_eq_true, decide_eq_true_eq] at h
      obtain ⟨⟨hv, hlt⟩, hrest⟩ := h
      have hnew : rest.any (·.1 = name) = false :=
        List.any_eq_false.2 fun e he => by simpa using (String.ne_of_lt (hlt e he)).symm
      rw [orderedMembers, orderedMembers_eq_self rest hrest, hnew, ordered_eq_self v hv]
      exact insertEntry_of_lt hlt

end

/-- An ordered value is put in order already. -/
@[simp] theorem toOrdered_val (v : OrderedJson) : Json.toOrdered v.val = v :=
  Subtype.ext (ordered_eq_self v.val v.property)

theorem orderedItems_eq_map (items : List Json) : orderedItems items = items.map ordered := by
  induction items with
  | nil => rfl
  | cons v items ih => rw [orderedItems, ih, List.map_cons]

theorem mem_names_orderedMembers {members : List (String × Json)} {name : String} :
    name ∈ (orderedMembers members).map (·.1) ↔ name ∈ members.map (·.1) := by
  induction members with
  | nil => rfl
  | cons e members ih =>
      obtain ⟨other, v⟩ := e
      rw [orderedMembers, List.map_cons, List.mem_cons, ← ih]
      split
      · next hlater =>
        have hmem : other ∈ (orderedMembers members).map (·.1) := by
          simpa [List.any_eq_true] using hlater
        constructor
        · exact .inr
        · rintro (rfl | h)
          · exact hmem
          · exact h
      · exact map_fst_insertEntry other v.ordered _

/-- Ordering keeps the last member of each name. -/
theorem lookup_orderedMembers_eq_some_iff {members : List (String × Json)} {name : String}
    {w : Json} :
    (orderedMembers members).lookup name = some w ↔ ∃ v, IsLast members name v ∧ v.ordered = w := by
  induction members with
  | nil =>
      have hnone (v : Json) : ¬IsLast [] name v := fun h => by simpa using h.mem_names
      simp [orderedMembers, hnone]
  | cons member members ih =>
      obtain ⟨other, v⟩ := member
      rw [orderedMembers]
      -- a later member of the name hides this one
      by_cases hlater : other ∈ members.map (·.1)
      · have hany : (orderedMembers members).any (·.1 = other) = true := by
          simpa [List.any_eq_true] using mem_names_orderedMembers.2 hlater
        rw [if_pos hany, ih]
        refine exists_congr fun w => and_congr_left fun _ => ?_
        rw [isLast_cons, or_iff_left]
        rintro ⟨hnot, heq⟩
        exact hnot ((Prod.mk.inj heq).1 ▸ hlater)
      · have hany : ¬(orderedMembers members).any (·.1 = other) = true := by
          simpa [List.any_eq_true] using mt mem_names_orderedMembers.1 hlater
        rw [if_neg hany, lookup_insertEntry]
        by_cases hname : name = other
        · subst hname
          have hnone (w : Json) : ¬IsLast members name w := fun h => hlater h.mem_names
          simp [isLast_cons, hnone, hlater, eq_comm]
        · rw [if_neg hname, ih]
          refine exists_congr fun w => and_congr_left fun _ => ?_
          rw [isLast_cons, or_iff_left]
          rintro ⟨-, heq⟩
          exact hname (Prod.mk.inj heq).1.symm

theorem lookup_orderedMembers_eq_none_iff {members : List (String × Json)} {name : String} :
    (orderedMembers members).lookup name = none ↔ name ∉ members.map (·.1) := by
  rw [← mem_names_orderedMembers, List.lookup_eq_none_iff, List.mem_map]
  constructor
  · rintro h ⟨e, he, rfl⟩
    exact bne_iff_ne.1 (h e he) rfl
  · exact fun h e he => bne_iff_ne.2 fun heq => h ⟨e, he, heq.symm⟩

theorem ordered_eq_null_iff {v : Json} : v.ordered = .null ↔ v = .null := by
  cases v <;> simp [ordered]

/-- An object comes down to one member if it has only one name. -/
theorem orderedMembers_eq_singleton_iff {members : List (String × Json)} {name : String}
    {w : Json} :
    orderedMembers members = [(name, w)] ↔
      (∀ m ∈ members, m.1 = name) ∧ ∃ v, IsLast members name v ∧ v.ordered = w := by
  constructor
  · intro h
    refine ⟨fun m hm => ?_, ?_⟩
    · have hmem := mem_names_orderedMembers.2 (List.mem_map_of_mem (f := (·.1)) hm)
      rw [h] at hmem
      exact List.mem_singleton.1 hmem
    · rw [← lookup_orderedMembers_eq_some_iff, h, lookup_cons_eq]
      exact if_pos rfl
  · rintro ⟨hall, hlast⟩
    have hlookup := lookup_orderedMembers_eq_some_iff.2 hlast
    have hordered := (areOrderedMembers_iff.1 (areOrderedMembers_orderedMembers members)).1
    have hnames : ∀ e ∈ orderedMembers members, e.1 = name := by
      intro e he
      obtain ⟨m, hm, heq⟩ := List.mem_map.1 (mem_names_orderedMembers.1 (List.mem_map_of_mem he))
      exact heq ▸ hall m hm
    generalize orderedMembers members = entries at hlookup hordered hnames
    match entries with
    | [] => cases hlookup
    | [(other, u)] =>
        obtain rfl : other = name := hnames _ List.mem_cons_self
        rw [lookup_cons_eq, if_pos rfl] at hlookup
        cases hlookup
        rfl
    | e :: f :: entries =>
        have hlt : e.1 < f.1 := List.rel_of_pairwise_cons hordered List.mem_cons_self
        rw [hnames e (by simp), hnames f (by simp)] at hlt
        exact absurd hlt (String.lt_irrefl name)

/-! ### Members that may be absent -/

/-- What stands under each name of a record, if anything does. -/
abbrev Slots := List (String × Option Json)

namespace Slots

def member (slot : String × Option Json) : Option (String × Json) :=
  slot.2.map fun v => (slot.1, v)

def members (slots : Slots) : List (String × Json) := slots.filterMap member

theorem objectOf_member (slots : Slots) : objectOf (slots.map member) = .object slots.members := by
  rw [objectOf, members, List.filterMap_map, Function.id_comp]

theorem mem_members {slots : Slots} {name : String} {v : Json} :
    (name, v) ∈ slots.members ↔ (name, some v) ∈ slots := by
  rw [members, List.mem_filterMap]
  constructor
  · rintro ⟨⟨other, value⟩, hslot, hmember⟩
    obtain ⟨w, rfl, heq⟩ := Option.map_eq_some_iff.1 hmember
    obtain ⟨rfl, rfl⟩ := Prod.mk.inj heq
    exact hslot
  · exact fun hslot => ⟨_, hslot, rfl⟩

theorem names_members_sublist (slots : Slots) :
    (slots.members.map (·.1)).Sublist (slots.map (·.1)) := by
  induction slots with
  | nil => exact .slnil
  | cons slot slots ih =>
      obtain ⟨name, _ | v⟩ := slot
      · exact ih.cons name
      · exact ih.cons_cons name

/-- What stands in a slot is the last of its name. -/
theorem isLast_of_mem {slots : Slots} (h : (slots.map (·.1)).Nodup) {name : String} {v : Json}
    (hslot : (name, some v) ∈ slots) : IsLast slots.members name v :=
  isLast_of_nodup (h.sublist slots.names_members_sublist) (mem_members.2 hslot)

/-- An empty slot leaves its name out. -/
theorem name_not_mem {slots : Slots} (h : (slots.map (·.1)).Nodup) {name : String}
    (hslot : (name, none) ∈ slots) : name ∉ slots.members.map (·.1) := by
  intro hmem
  obtain ⟨⟨_, v⟩, hv, rfl⟩ := List.mem_map.1 hmem
  have hsame := List.inj_on_of_nodup_map h (mem_members.1 hv) hslot rfl
  cases hsame

end Slots

end HeaderAccord.Json
