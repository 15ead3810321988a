import HeaderAccord.Name

/-!
What maps keyed by name hold. The list of distinct names is fixed by two facts: it holds the names
that it was made from, and it stands in strict order. Of several values under one name, a map made
from a list holds the last one.
-/

namespace HeaderAccord

theorem map_fst_insertEntry {α : Type} (name : String) (value : α) (entries : List (String × α))
    {other : String} :
    other ∈ (insertEntry name value entries).map (·.1) ↔
      other = name ∨ other ∈ entries.map (·.1) := by
  induction entries with
  | nil => simp [insertEntry]
  | cons e es ih =>
      rw [insertEntry]
      split
      · simp
      · split
        · next heq => simp [heq]
        · simp only [List.map_cons, List.mem_cons, ih]
          exact or_left_comm

/-! ### Entries -/

/-- Of the entries with a name, the last one has this value. -/
def IsLast {α : Type} (entries : List (String × α)) (name : String) (value : α) : Prop :=
  ∃ before after, entries = before ++ (name, value) :: after ∧ ∀ e ∈ after, e.1 ≠ name

theorem isLast_cons {α : Type} {entries : List (String × α)} {e : String × α} {name : String}
    {value : α} :
    IsLast (e :: entries) name value ↔
      IsLast entries name value ∨ (name ∉ entries.map (·.1) ∧ e = (name, value)) := by
  constructor
  · rintro ⟨before, after, heq, hafter⟩
    cases before with
    | nil =>
        obtain ⟨rfl, rfl⟩ := List.cons.inj heq
        refine .inr ⟨fun hmem => ?_, rfl⟩
        obtain ⟨e, he, hname⟩ := List.mem_map.1 hmem
        exact hafter e he hname
    | cons b before => exact .inl ⟨before, after, (List.cons.inj heq).2, hafter⟩
  · rintro (⟨before, after, rfl, hafter⟩ | ⟨hname, rfl⟩)
    · exact ⟨e :: before, after, rfl, hafter⟩
    · exact ⟨[], entries, rfl, fun e he h => hname (List.mem_map.2 ⟨e, he, h⟩)⟩

/-- Every name that occurs has a last value. -/
theorem exists_isLast {α : Type} {entries : List (String × α)} {name : String}
    (h : name ∈ entries.map (·.1)) : ∃ value, IsLast entries name value := by
  induction entries with
  | nil => simp at h
  | cons e entries ih =>
      by_cases hmem : name ∈ entries.map (·.1)
      · obtain ⟨value, hvalue⟩ := ih hmem
        exact ⟨value, isLast_cons.2 (.inl hvalue)⟩
      · rcases List.mem_cons.1 h with rfl | h
        · exact ⟨e.2, isLast_cons.2 (.inr ⟨hmem, rfl⟩)⟩
        · exact absurd h hmem

theorem IsLast.mem {α : Type} {entries : List (String × α)} {name : String} {value : α}
    (h : IsLast entries name value) : (name, value) ∈ entries := by
  obtain ⟨before, after, rfl, -⟩ := h
  simp

theorem IsLast.mem_names {α : Type} {entries : List (String × α)} {name : String} {value : α}
    (h : IsLast entries name value) : name ∈ entries.map (·.1) :=
  List.mem_map.2 ⟨_, h.mem, rfl⟩

/-- Where each name occurs once, each value is the last of its name. -/
theorem isLast_of_nodup {α : Type} {entries : List (String × α)} {name : String} {value : α}
    (h : (entries.map (·.1)).Nodup) (hmem : (name, value) ∈ entries) :
    IsLast entries name value := by
  obtain ⟨before, after, rfl⟩ := List.append_of_mem hmem
  refine ⟨before, after, rfl, fun e he heq => ?_⟩
  rw [List.map_append, List.map_cons, List.nodup_append, List.nodup_cons] at h
  exact h.2.1.1 (List.mem_map.2 ⟨e, he, heq⟩)

/-- A run of steps that each put the entry of an element into a store leaves the last value of each
name, or what was there before the run. -/
theorem foldl_eq_some_iff {α β σ : Type} (entry : β → String × α) (put : σ → β → σ)
    (look : σ → String → Option α)
    (hput : ∀ store b name, look (put store b) name =
      if name = (entry b).1 then some (entry b).2 else look store name)
    (store : σ) (bs : List β) {name : String} {value : α} :
    look (bs.foldl put store) name = some value ↔
      IsLast (bs.map entry) name value ∨
        (name ∉ (bs.map entry).map (·.1) ∧ look store name = some value) := by
  induction bs generalizing store with
  | nil =>
      have hnone : ¬IsLast ([] : List (String × α)) name value := fun h => by
        simpa using h.mem_names
      simp [hnone]
  | cons b bs ih =>
      rw [List.foldl_cons, ih, List.map_cons, isLast_cons, or_assoc, hput, List.map_cons,
        List.mem_cons]
      refine or_congr_right ?_
      by_cases hname : name = (entry b).1
      · subst hname
        simp [Prod.ext_iff]
      · have hne : entry b ≠ (name, value) := fun heq => hname (congrArg Prod.fst heq.symm)
        simp [hname, hne]

theorem lookup_cons_eq {α : Type} (e : String × α) (entries : List (String × α)) (name : String) :
    (e :: entries).lookup name = if name = e.1 then some e.2 else entries.lookup name := by
  rw [List.lookup_cons]
  by_cases h : name = e.1
  · simp [h]
  · rw [if_neg h, beq_eq_false_iff_ne.2 h]

theorem lookup_insertEntry {α : Type} (name : String) (value : α) (entries : List (String × α))
    (other : String) :
    (insertEntry name value entries).lookup other =
      if other = name then some value else entries.lookup other := by
  induction entries with
  | nil => exact lookup_cons_eq (name, value) [] other
  | cons e es ih =>
      rw [insertEntry]
      split
      · rw [lookup_cons_eq]
      · split
        · next heq =>
          rw [lookup_cons_eq, lookup_cons_eq, ← heq]
          split <;> rfl
        · next hne =>
          rw [lookup_cons_eq, ih, lookup_cons_eq]
          by_cases h : other = name
          · rw [if_pos h, if_pos h, h, if_neg hne]
          · rw [if_neg h, if_neg h]

/-- Among entries in the order of their names, a name leads to its only value. -/
theorem lookup_eq_some_iff {α : Type} {entries : List (String × α)} (h : InNameOrder entries)
    {name : String} {value : α} : entries.lookup name = some value ↔ (name, value) ∈ entries := by
  induction entries with
  | nil => simp
  | cons e es ih =>
      obtain ⟨hhead, htail⟩ := List.pairwise_cons.1 h
      rw [lookup_cons_eq, List.mem_cons]
      by_cases hname : name = e.1
      · have hnot : (name, value) ∉ es := fun hmem =>
          String.lt_irrefl e.1 (hname ▸ hhead _ hmem)
        rw [if_pos hname, or_iff_left hnot, Prod.ext_iff, Option.some.injEq, and_iff_right hname,
          eq_comm]
      · have hne : (name, value) ≠ e := fun heq => hname (congrArg Prod.fst heq)
        rw [if_neg hname, or_iff_right hne, ih htail]

namespace NameMap

variable {α : Type}

theorem mem_names_insertAll (m : NameMap α) (entries : List (String × α)) {name : String} :
    name ∈ (m.insertAll entries).names ↔ name ∈ m.names ∨ name ∈ entries.map (·.1) := by
  induction entries generalizing m with
  | nil => simp [insertAll]
  | cons e es ih =>
      have hinsert : name ∈ (m.insert e.1 e.2).names ↔ name = e.1 ∨ name ∈ m.names :=
        map_fst_insertEntry e.1 e.2 m.entries
      have hstep : m.insertAll (e :: es) = (m.insert e.1 e.2).insertAll es := rfl
      rw [hstep, ih, hinsert, List.map_cons, List.mem_cons, or_assoc, or_left_comm]

theorem pairwise_names (m : NameMap α) : m.names.Pairwise (· < ·) :=
  List.pairwise_map.2 m.ordered

theorem nodup_names (m : NameMap α) : m.names.Nodup :=
  m.pairwise_names.imp String.ne_of_lt

/-! ### Look-ups -/

theorem find?_eq_some_iff {m : NameMap α} {name : String} {value : α} :
    m.find? name = some value ↔ (name, value) ∈ m.entries :=
  lookup_eq_some_iff m.ordered

theorem find?_eq_none_iff {m : NameMap α} {name : String} :
    m.find? name = none ↔ name ∉ m.names := by
  rw [Option.eq_none_iff_forall_ne_some, names, List.mem_map]
  constructor
  · rintro h ⟨e, he, rfl⟩
    exact h e.2 (find?_eq_some_iff.2 he)
  · rintro h value hvalue
    exact h ⟨_, find?_eq_some_iff.1 hvalue, rfl⟩

theorem find?_insert (m : NameMap α) (name : String) (value : α) (other : String) :
    (m.insert name value).find? other = if other = name then some value else m.find? other :=
  lookup_insertEntry name value m.entries other

/-- Of several values that are put under one name, the last one stays. -/
theorem find?_insertAll (m : NameMap α) (entries : List (String × α)) {name : String} {value : α} :
    (m.insertAll entries).find? name = some value ↔
      IsLast entries name value ∨ (name ∉ entries.map (·.1) ∧ m.find? name = some value) := by
  have hfold := @foldl_eq_some_iff _ _ _ id (fun m e => m.insert e.1 e.2) find?
    (fun m e => find?_insert m e.1 e.2) m entries name value
  rwa [List.map_id] at hfold

theorem find?_ofList {entries : List (String × α)} {name : String} {value : α} :
    (ofList entries).find? name = some value ↔ IsLast entries name value := by
  have hempty : (empty : NameMap α).find? name = none := rfl
  rw [ofList, find?_insertAll, hempty]
  simp

theorem mem_names_ofList {entries : List (String × α)} {name : String} :
    name ∈ (ofList entries).names ↔ name ∈ entries.map (·.1) := by
  rw [ofList, mem_names_insertAll]
  simp [empty, names]

/-- The entries of a map are their own last ones, since their names are distinct. -/
theorem isLast_entries {m : NameMap α} {name : String} {value : α} :
    IsLast m.entries name value ↔ (name, value) ∈ m.entries := by
  constructor
  · rintro ⟨before, after, heq, -⟩
    simp [heq]
  · exact isLast_of_nodup m.nodup_names

/-- Maps with the same look-ups are equal. -/
theorem eq_of_find? {m n : NameMap α} (h : ∀ name, m.find? name = n.find? name) : m = n := by
  have hmem (e : String × α) : e ∈ m.entries ↔ e ∈ n.entries := by
    rw [← find?_eq_some_iff, ← find?_eq_some_iff, h]
  have hnodup (m : NameMap α) : m.entries.Nodup :=
    List.Pairwise.imp (fun hlt heq => String.ne_of_lt hlt (congrArg Prod.fst heq)) m.ordered
  have hperm : m.entries.Perm n.entries :=
    (List.perm_ext_iff_of_nodup (hnodup m) (hnodup n)).2 hmem
  apply ext
  exact hperm.eq_of_pairwise (fun _ _ _ _ hab hba => absurd hba (String.lt_asymm hab))
    m.ordered n.ordered

/-- A map is made again from its entries. -/
theorem ofList_entries (m : NameMap α) : ofList m.entries = m := by
  refine eq_of_find? fun name => Option.ext fun value => ?_
  rw [find?_ofList, isLast_entries, find?_eq_some_iff]

end NameMap

/-- A name has one last value. -/
theorem IsLast.unique {α : Type} {entries : List (String × α)} {name : String} {v w : α}
    (hv : IsLast entries name v) (hw : IsLast entries name w) : v = w := by
  have hfound := (NameMap.find?_ofList.2 hv).symm.trans (NameMap.find?_ofList.2 hw)
  exact Option.some.inj hfound

theorem mem_distinctNames {name : String} {names : List String} :
    name ∈ distinctNames names ↔ name ∈ names := by
  rw [distinctNames, NameMap.ofList, NameMap.mem_names_insertAll, List.map_map]
  simp [NameMap.empty, NameMap.names, Function.comp_def]

theorem pairwise_distinctNames (names : List String) : (distinctNames names).Pairwise (· < ·) :=
  NameMap.pairwise_names _

end HeaderAccord
