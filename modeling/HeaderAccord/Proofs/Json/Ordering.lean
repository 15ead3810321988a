import HeaderAccord.Proofs.Except
import HeaderAccord.Proofs.Json.Reading
import HeaderAccord.Proofs.Json.Record

/-!
What putting a value in order keeps. The members that are left are members of the value, put in order
themselves; so nothing comes to nest deeper, and no number comes in. A value that is read nests no
deeper than the reader goes.
-/

namespace HeaderAccord.Json

open HeaderAccord.Json.Tree

/-! ### The nesting of a value that is read -/

theorem nesting_of_isNumber {v : Json} (h : v.isNumber = true) : v.nesting = 0 := by
  cases v <;> first | rfl | cases h

mutual

theorem nesting_le_of_free : (t : Tree) → {depth : Nat} → {v : Json} → t.free depth = .ok v →
    v.nesting ≤ depth
  | .null, _, _, h => by cases h; exact Nat.zero_le _
  | .bool _, _, _, h => by cases h; exact Nat.zero_le _
  | .number n, _, _, h => by
      rw [nesting_of_isNumber (Numeral.isNumber_of_value h)]
      exact Nat.zero_le _
  | .string raw, _, _, h => by
      rw [free] at h
      obtain ⟨s, -, rfl⟩ := map_eq_ok_iff.1 h
      exact Nat.zero_le _
  | .array _ _, 0, _, h => by cases h
  | .array items _, _ + 1, _, h => by
      obtain ⟨values, rfl, -, hitems⟩ := free_array h
      exact Nat.succ_le_succ (nestingItems_le_of_freeItems items hitems)
  | .object _ _, 0, _, h => by cases h
  | .object members _, _ + 1, _, h => by
      obtain ⟨values, rfl, -, hmembers⟩ := free_object h
      exact Nat.succ_le_succ (nestingMembers_le_of_freeMembers members hmembers)
  | .broken _, _, _, h => nomatch h

theorem nestingItems_le_of_freeItems : (items : List Tree) → {depth : Nat} → {values : List Json} →
    freeItems depth items = .ok values → nestingItems values ≤ depth
  | [], _, _, h => by cases h; exact Nat.zero_le _
  | t :: items, _, _, h => by
      rw [freeItems] at h
      obtain ⟨v, hv, h⟩ := bind_eq_ok_iff.1 h
      obtain ⟨vs, hvs, h⟩ := bind_eq_ok_iff.1 h
      cases h
      exact Nat.max_le.2 ⟨nesting_le_of_free t hv, nestingItems_le_of_freeItems items hvs⟩

theorem nestingMembers_le_of_freeMembers : (members : List (RawString × Tree)) → {depth : Nat} →
    {values : List (String × Json)} → freeMembers depth members = .ok values →
    nestingMembers values ≤ depth
  | [], _, _, h => by cases h; exact Nat.zero_le _
  | (_, t) :: members, _, _, h => by
      rw [freeMembers] at h
      obtain ⟨name, -, h⟩ := bind_eq_ok_iff.1 h
      obtain ⟨v, hv, h⟩ := bind_eq_ok_iff.1 h
      obtain ⟨vs, hvs, h⟩ := bind_eq_ok_iff.1 h
      cases h
      exact Nat.max_le.2 ⟨nesting_le_of_free t hv, nestingMembers_le_of_freeMembers members hvs⟩

end

theorem HasValue.nesting_le {text : String} {v : Json} (h : HasValue text v) :
    v.nesting ≤ maxDepth := by
  obtain ⟨t, -, hfree⟩ := h
  exact nesting_le_of_free t hfree

/-! ### Values in order -/

/-- The members that are left are members of the object, put in order. -/
theorem exists_of_mem_orderedMembers {members : List (String × Json)} {name : String} {w : Json}
    (h : (name, w) ∈ orderedMembers members) : ∃ v, (name, v) ∈ members ∧ v.ordered = w := by
  induction members with
  | nil => cases h
  | cons member members ih =>
      obtain ⟨other, v⟩ := member
      have hlater (h : (name, w) ∈ orderedMembers members) :
          ∃ u, (name, u) ∈ (other, v) :: members ∧ u.ordered = w := by
        obtain ⟨u, hu, heq⟩ := ih h
        exact ⟨u, List.mem_cons_of_mem _ hu, heq⟩
      rw [orderedMembers] at h
      split at h
      · exact hlater h
      · rcases mem_insertEntry h with heq | h
        · obtain ⟨rfl, rfl⟩ := Prod.mk.inj heq
          exact ⟨v, by simp, rfl⟩
        · exact hlater h

/-- What an array takes over from its items and an object from its members, every value has if the
scalars do. -/
theorem induction_on_parts {P : Json → Prop} (scalar : ∀ v : Json, v.ordered = v → P v)
    (array : ∀ items : List Json, (∀ v ∈ items, P v) → P (.array items))
    (object : ∀ members : List (String × Json), (∀ name v, (name, v) ∈ members → P v) →
      P (.object members)) (v : Json) : P v := by
  cases v with
  | array items => exact array items fun v hv => induction_on_parts scalar array object v
  | object members =>
      exact object members fun name v hv => induction_on_parts scalar array object v
  | _ => exact scalar _ rfl
termination_by sizeOf v
decreasing_by
  · have hitem := List.sizeOf_lt_of_mem hv
    simp only [Json.array.sizeOf_spec]
    omega
  · have hmember := List.sizeOf_lt_of_mem hv
    simp only [Prod.mk.sizeOf_spec] at hmember
    simp only [Json.object.sizeOf_spec]
    omega

theorem nesting_ordered_le (v : Json) : v.ordered.nesting ≤ v.nesting := by
  induction v using induction_on_parts with
  | scalar v hv => exact Nat.le_of_eq (congrArg nesting hv)
  | array items ih =>
      rw [ordered, nesting, nesting, Nat.add_le_add_iff_right, nestingItems_le_iff,
        orderedItems_eq_map]
      intro w hw
      obtain ⟨v, hv, rfl⟩ := List.mem_map.1 hw
      exact Nat.le_trans (ih v hv) (nestingItems_le_iff.1 (Nat.le_refl _) v hv)
  | object members ih =>
      rw [ordered, nesting, nesting, Nat.add_le_add_iff_right, nestingMembers_le_iff]
      intro name w hw
      obtain ⟨v, hv, rfl⟩ := exists_of_mem_orderedMembers hw
      exact Nat.le_trans (ih name v hv) (nestingMembers_le_iff.1 (Nat.le_refl _) name v hv)

theorem isIntegral_ordered {v : Json} (h : v.isIntegral = true) : v.ordered.isIntegral = true := by
  induction v using induction_on_parts with
  | scalar v hv => rwa [hv]
  | array items ih =>
      rw [isIntegral, areIntegral_iff] at h
      rw [ordered, isIntegral, areIntegral_iff, orderedItems_eq_map]
      intro w hw
      obtain ⟨v, hv, rfl⟩ := List.mem_map.1 hw
      exact ih v hv (h v hv)
  | object members ih =>
      rw [isIntegral, areIntegralMembers_iff] at h
      rw [ordered, isIntegral, areIntegralMembers_iff]
      intro name w hw
      obtain ⟨v, hv, rfl⟩ := exists_of_mem_orderedMembers hw
      exact ih name v hv (h name v hv)

end HeaderAccord.Json
