import HeaderAccord.Json.ValueReader
import HeaderAccord.Proofs.Except
import HeaderAccord.Proofs.Json.Reading
import HeaderAccord.Proofs.Json.Record

/-!
What the readers of ordered values accept. Each reader is described by a relation between a value as
it is written and what is read of it; a record is described by the last members of its names.
-/

namespace HeaderAccord.Json

/-! ### Values of texts -/

/-- The value of a text is the one that it spells, put in order. -/
theorem ofText_eq_ok_iff {text : String} {w : OrderedJson} :
    ofText text = .ok w ↔ ∃ v, HasValue text v ∧ v.toOrdered = w := by
  rcases htext : Tree.ofText text with ⟨t, trailing⟩
  have hanything : TreeReader.anything t = .ok w ↔
      ∃ v, t.free Tree.maxDepth = .ok v ∧ v.toOrdered = w := by
    rw [TreeReader.anything, map_eq_ok_iff]
    simp only [TreeReader.ofFault, mapError_eq_ok_iff]
  have hrun : ofText text = .ok w ↔ trailing = false ∧ TreeReader.anything t = .ok w := by
    rw [ofText, TreeReader.run, htext]
    dsimp only
    rw [bind_eq_ok_iff]
    cases trailing <;> simp [pure, Except.pure, bind, Except.bind, throw, throwThe,
      MonadExceptOf.throw]
  rw [hrun, hanything]
  simp only [HasValue, htext]
  constructor
  · rintro ⟨rfl, v, hfree, hw⟩
    exact ⟨v, ⟨t, rfl, hfree⟩, hw⟩
  · rintro ⟨v, ⟨t', heq, hfree⟩, hw⟩
    cases heq
    exact ⟨rfl, v, hfree, hw⟩

namespace ValueReader

variable {α : Type}

/-- The reader accepts exactly the values that the relation ties to something, and reads that. -/
def ReadsIff (read : ValueReader α) (R : Json → α → Prop) : Prop :=
  ∀ v a, read v.ordered = .ok a ↔ R v a

theorem readsIff_text : ReadsIff text fun v s => v = .string s := by
  intro v s
  cases v <;> simp [text, ordered]

theorem integer_eq_ok_iff {low high : Int} {expected : String} {v : Json} {n : Int} :
    integer low high expected v.ordered = .ok n ↔ v = .integer n ∧ low ≤ n ∧ n ≤ high := by
  cases v with
  | integer m =>
      rw [ordered, integer]
      · split
        · next h =>
          simp only [Bool.and_eq_true, decide_eq_true_eq] at h
          simp only [Except.ok.injEq, Json.integer.injEq]
          constructor
          · rintro rfl
            exact ⟨rfl, h⟩
          · exact fun h => h.1
        · next h =>
          simp only [Bool.and_eq_true, decide_eq_true_eq] at h
          simp only [reduceCtorEq, Json.integer.injEq, false_iff]
          rintro ⟨rfl, hn⟩
          exact h hn
      all_goals nofun
  | _ => simp [integer, ordered]

theorem readsIff_int32 : ReadsIff int32 fun v n => v = .integer n.toInt := by
  intro v n
  rw [int32, map_eq_ok_iff]
  simp only [integer_eq_ok_iff]
  constructor
  · rintro ⟨m, ⟨rfl, hlow, hhigh⟩, rfl⟩
    have hlow' : -2 ^ 31 ≤ m := hlow
    have hhigh' : m ≤ 2 ^ 31 - 1 := hhigh
    rw [Int32.toInt_ofInt_of_le hlow' (by omega)]
  · rintro rfl
    exact ⟨n.toInt, ⟨rfl, n.minValue_le_toInt, n.toInt_le⟩, Int32.ofInt_toInt n⟩

theorem readsIff_uint64 : ReadsIff uint64 fun v n => v = .integer n.toNat := by
  intro v n
  rw [uint64, map_eq_ok_iff]
  simp only [integer_eq_ok_iff]
  constructor
  · rintro ⟨m, ⟨rfl, hlow, hhigh⟩, rfl⟩
    have hfits : m.toNat < UInt64.size := by omega
    rw [UInt64.toNat_ofNat_of_lt' hfits, Int.toNat_of_nonneg hlow]
  · rintro rfl
    have hhigh := n.toNat_lt_size
    exact ⟨n.toNat, ⟨rfl, Int.natCast_nonneg _, by omega⟩, UInt64.ofNat_toNat⟩

theorem readsIff_list {item : ValueReader α} {R : Json → α → Prop} (hitem : ReadsIff item R) :
    ReadsIff (list item) fun v as => ∃ items, v = .array items ∧ List.Forall₂ R items as := by
  have hread (v : Json) (a : α) : item v.ordered = .ok a ↔ R v a := hitem v a
  intro v as
  cases v with
  | array items =>
      show (orderedItems items).mapM item = .ok as ↔ _
      rw [mapM_eq_ok_iff, orderedItems_eq_map, List.forall₂_map_left_iff]
      simp [hread]
  | _ => simp [list, ordered]

/-- What may be absent: nothing is written as a null. -/
def Optional (R : Json → α → Prop) (v : Json) : Option α → Prop
  | none => v = .null
  | some a => v ≠ .null ∧ R v a

theorem readsIff_option {read : ValueReader α} {R : Json → α → Prop} (hread : ReadsIff read R) :
    ReadsIff (option read) (Optional R) := by
  intro v x
  by_cases hv : v = .null
  · subst hv
    cases x <;> simp [option, ordered, Optional]
  · have hordered : v.ordered ≠ .null := by
      cases v <;> simp_all [ordered]
    rw [option]
    · rw [map_eq_ok_iff]
      cases x with
      | none => simp [Optional, hv]
      | some a => simp [Optional, hv, hread v]
    · exact hordered

/-- How a value of an enumeration is written: by its name, or by an object with the name and a null
in it. -/
def IsNamed (name : String) (v : Json) : Prop :=
  v = .string name ∨
    ∃ members, v = .object members ∧ (∀ m ∈ members, m.1 = name) ∧ IsLast members name .null

theorem lookup_named {nameOf : α → String} (hnames : Function.Injective nameOf) {all : List α}
    {name : String} {a : α} :
    (all.map fun a => (nameOf a, a)).lookup name = some a ↔ a ∈ all ∧ name = nameOf a := by
  induction all with
  | nil => simp
  | cons b all ih =>
      rw [List.map_cons, lookup_cons_eq, List.mem_cons]
      by_cases hname : name = nameOf b
      · rw [if_pos hname, Option.some.injEq]
        constructor
        · rintro rfl
          exact ⟨.inl rfl, hname⟩
        · rintro ⟨-, heq⟩
          exact hnames (hname.symm.trans heq)
      · rw [if_neg hname, ih]
        constructor
        · exact fun ⟨hmem, heq⟩ => ⟨.inr hmem, heq⟩
        · rintro ⟨rfl | hmem, heq⟩
          · exact absurd heq hname
          · exact ⟨hmem, heq⟩

theorem variant_string_iff {known : List (String × α)} {name : String} {a : α} :
    variant known (.string name) = .ok a ↔ known.lookup name = some a := by
  simp only [variant]
  cases known.lookup name <;> simp

theorem variant_object_iff {known : List (String × α)} {entries : List (String × Json)} {a : α} :
    variant known (.object entries) = .ok a ↔
      ∃ name, entries = [(name, .null)] ∧ known.lookup name = some a := by
  have hunit (c : Json) (u : Unit) : unit c = .ok u ↔ c = .null := by
    cases c <;> simp [unit]
  rcases entries with _ | ⟨⟨name, c⟩, _ | ⟨e, entries⟩⟩
  · simp [variant]
  · have hone : variant known (.object [(name, c)]) =
        variant known (.string name) >>= fun b => unit c >>= fun _ => .ok b := rfl
    simp only [hone, bind_eq_ok_iff, variant_string_iff, hunit]
    simp [and_comm]
  · simp [variant]

theorem readsIff_variant {nameOf : α → String} (hnames : Function.Injective nameOf) {all : List α}
    (hall : ∀ a, a ∈ all) :
    ReadsIff (variant (all.map fun a => (nameOf a, a))) fun v a => IsNamed (nameOf a) v := by
  have hlookup (name : String) (a : α) :
      (all.map fun a => (nameOf a, a)).lookup name = some a ↔ name = nameOf a := by
    rw [lookup_named hnames, and_iff_right (hall a)]
  intro v a
  cases v with
  | string s =>
      show variant _ (.string s) = .ok a ↔ _
      rw [variant_string_iff, hlookup]
      simp [IsNamed]
  | object members =>
      show variant _ (.object (orderedMembers members)) = .ok a ↔ _
      simp only [variant_object_iff, hlookup, exists_eq_right, orderedMembers_eq_singleton_iff]
      simp [IsNamed, ordered_eq_null_iff]
  | _ => simp [variant, ordered, IsNamed]

/-! ### Members of records -/

section

variable {read : ValueReader α} {R : Json → α → Prop} {members : List (String × Json)}
  {values : FieldValues Json} {name : String}

/-- The last member of this name is written for this. -/
def Has (R : Json → α → Prop) (members : List (String × Json)) (name : String) (a : α) : Prop :=
  ∃ v, IsLast members name v ∧ R v a

/-- The last member of this name is written for this, or there is no member of the name. -/
def MayHave (R : Json → α → Prop) (members : List (String × Json)) (name : String)
    (x : Option α) : Prop :=
  Has (Optional R) members name x ∨ (name ∉ members.map (·.1) ∧ x = none)

theorem required_eq_ok_iff (hread : ReadsIff read R)
    (hlookup : values.lookup name = (orderedMembers members).lookup name) {a : α} :
    values.required name read = .ok a ↔ Has R members name a := by
  rw [FieldValues.required, hlookup]
  cases hfound : (orderedMembers members).lookup name with
  | none =>
      have hname := lookup_orderedMembers_eq_none_iff.1 hfound
      have hnone (v : Json) : ¬IsLast members name v := fun hlast => hname hlast.mem_names
      simp [Has, hnone]
  | some w =>
      obtain ⟨v, hlast, rfl⟩ := lookup_orderedMembers_eq_some_iff.1 hfound
      show read v.ordered = .ok a ↔ _
      rw [hread]
      constructor
      · exact fun h => ⟨v, hlast, h⟩
      · rintro ⟨v', hlast', h⟩
        exact hlast.unique hlast' ▸ h

theorem optional_eq_ok_iff (hread : ReadsIff read R)
    (hlookup : values.lookup name = (orderedMembers members).lookup name) {x : Option α} :
    values.optional name none (option read) = .ok x ↔ MayHave R members name x := by
  by_cases hname : name ∈ members.map (·.1)
  · have hsame : values.optional name none (option read) = values.required name (option read) := by
      obtain ⟨v, hlast⟩ := exists_isLast hname
      rw [FieldValues.optional, FieldValues.required, hlookup,
        lookup_orderedMembers_eq_some_iff.2 ⟨v, hlast, rfl⟩]
    rw [hsame, required_eq_ok_iff (readsIff_option hread) hlookup, MayHave, or_iff_left]
    exact fun h => h.1 hname
  · rw [FieldValues.optional, hlookup, lookup_orderedMembers_eq_none_iff.2 hname, MayHave,
      or_iff_right]
    · simp [hname, eq_comm]
    · rintro ⟨v, hlast, -⟩
      exact hname hlast.mem_names

@[simp] theorem field_name (name : String) (read : ValueReader α) :
    (field name read).name = name := rfl

/-- What stands under the name of the field passes its check. -/
def Passes (members : List (String × Json)) (f : Field Json) : Prop :=
  ∀ v, IsLast members f.name v → f.check v.ordered = .ok ()

theorem check_of_ok {v : Json} {a : α} (h : read v = .ok a) (name : String) :
    (field name read).check v = .ok () := by
  simp only [field, h, Except.map]

theorem passes_of_has (hread : ReadsIff read R) {a : α} (h : Has R members name a) :
    Passes members (field name read) := by
  intro w hw
  obtain ⟨v, hv, hR⟩ := h
  obtain rfl : v = w := hv.unique hw
  exact check_of_ok ((hread v a).2 hR) name

theorem passes_of_mayHave (hread : ReadsIff read R) {x : Option α} (h : MayHave R members name x) :
    Passes members (field name (option read)) := by
  rcases h with h | ⟨hname, -⟩
  · exact passes_of_has (readsIff_option hread) h
  · exact fun w hw => absurd hw.mem_names hname

end

/-! ### Slots -/

section

variable {R : Json → α → Prop} {slots : Slots} {name : String}

theorem has_of_slot (h : (slots.map (·.1)).Nodup) {v : Json} {a : α}
    (hslot : (name, some v) ∈ slots) (hR : R v a) : Has R slots.members name a :=
  ⟨v, Slots.isLast_of_mem h hslot, hR⟩

theorem mayHave_of_slot (h : (slots.map (·.1)).Nodup) (encode : α → Json) {x : Option α}
    (hslot : (name, x.map encode) ∈ slots)
    (hR : ∀ a, encode a ≠ .null ∧ R (encode a) a) : MayHave R slots.members name x := by
  cases x with
  | none => exact .inr ⟨Slots.name_not_mem h hslot, rfl⟩
  | some a => exact .inl (has_of_slot h hslot (hR a))

end

/-! ### Records -/

namespace RecordForm

variable {form : RecordForm}

/-- A field of a form is found by its name. -/
theorem isSome_find? {f : Field Json} (h : f ∈ form.fields) :
    (form.fields.find? (·.name == f.name)).isSome = true :=
  List.find?_isSome.2 ⟨f, h, beq_self_eq_true _⟩

/-- If every field passes its check, an object is read. -/
theorem exists_ofMembers_eq_ok {members : List (String × Json)}
    (h : ∀ member ∈ members, ∀ f ∈ form.fields, f.name = member.1 →
      f.check member.2 = .ok ()) : ∃ values, form.ofMembers members = .ok values := by
  induction members with
  | nil => exact ⟨[], rfl⟩
  | cons e members ih =>
      obtain ⟨name, v⟩ := e
      obtain ⟨hmember, hmembers⟩ := List.forall_mem_cons.1 h
      obtain ⟨values, hvalues⟩ := ih hmembers
      rw [ofMembers]
      split
      · next f hfind =>
        have hname : f.name = name := by simpa using List.find?_some hfind
        rw [hmember f (List.mem_of_find?_eq_some hfind) hname, hvalues]
        exact ⟨(name, v) :: values, rfl⟩
      · exact ⟨values, hvalues⟩

/-- An object is read as what it holds under the names of fields. -/
theorem lookup_of_ofMembers {members : List (String × Json)} {values : FieldValues Json}
    (h : form.ofMembers members = .ok values) :
    ∀ f ∈ form.fields, values.lookup f.name = members.lookup f.name := by
  induction members generalizing values with
  | nil =>
      cases h
      exact fun _ _ => rfl
  | cons member members ih =>
      obtain ⟨name, v⟩ := member
      intro g hg
      rw [ofMembers] at h
      split at h
      · obtain ⟨⟨⟩, -, h⟩ := bind_eq_ok_iff.1 h
        obtain ⟨rest, hrest, h⟩ := bind_eq_ok_iff.1 h
        cases h
        rw [lookup_cons_eq, lookup_cons_eq, ih hrest g hg]
      · next hfind =>
        have hother : g.name ≠ name := by
          rintro rfl
          simpa [hfind] using isSome_find? hg
        rw [lookup_cons_eq, if_neg hother, ih h g hg]

/-- What is made of an object is made of values that stand under the names of fields as they do in
the object. -/
theorem exists_of_read_object_bind {β : Type} {members : List (String × Json)}
    {next : FieldValues Json → Except ReadError β} {out : β}
    (h : (form.read (.object (orderedMembers members)) >>= next) = .ok out) :
    ∃ values : FieldValues Json, (∀ f ∈ form.fields,
      values.lookup f.name = (orderedMembers members).lookup f.name) ∧ next values = .ok out := by
  obtain ⟨values, hvalues, hnext⟩ := bind_eq_ok_iff.1 h
  exact ⟨values, lookup_of_ofMembers hvalues, hnext⟩

/-- An object whose last members pass the checks of the fields is read as what it holds. -/
theorem read_object_bind {β : Type} {members : List (String × Json)}
    (h : ∀ f ∈ form.fields, Passes members f) {next : FieldValues Json → Except ReadError β}
    {out : β} (hnext : ∀ values : FieldValues Json, (∀ f ∈ form.fields,
      values.lookup f.name = (orderedMembers members).lookup f.name) → next values = .ok out) :
    (form.read (.object (orderedMembers members)) >>= next) = .ok out := by
  have hcheck : ∀ member ∈ orderedMembers members, ∀ f ∈ form.fields, f.name = member.1 →
      f.check member.2 = .ok () := by
    rintro ⟨name, w⟩ hmember f hf rfl
    have horder := (areOrderedMembers_iff.1 (areOrderedMembers_orderedMembers members)).1
    obtain ⟨v, hlast, rfl⟩ :=
      lookup_orderedMembers_eq_some_iff.1 ((lookup_eq_some_iff horder).2 hmember)
    exact h f hf v hlast
  obtain ⟨values, hvalues⟩ := exists_ofMembers_eq_ok hcheck
  exact bind_eq_ok_iff.2 ⟨values, hvalues, hnext values (lookup_of_ofMembers hvalues)⟩

/-- An array of fields is read if it has an item for each field that passes its check. -/
theorem ofItems_eq_ok_iff {n : Nat} {seen values : FieldValues Json} {todo : List (Field Json)}
    {items : List Json} :
    form.ofItems n seen todo items = .ok values ↔
      List.Forall₂ (fun f v => f.check v = .ok ()) todo items ∧
        values = seen ++ List.zipWith (fun f v => (f.name, v)) todo items := by
  induction todo generalizing seen items with
  | nil =>
      cases items with
      | nil => simp [ofItems, eq_comm]
      | cons v items => simp [ofItems]
  | cons f todo ih =>
      cases items with
      | nil => simp [ofItems]
      | cons v items =>
          have hcheck : (∃ u : Unit, f.check v = .ok u) ↔ f.check v = .ok () :=
            ⟨fun ⟨_, h⟩ => h, fun h => ⟨(), h⟩⟩
          rw [ofItems, bind_eq_ok_iff]
          simp [ih, hcheck, and_assoc]

end RecordForm

end ValueReader

end HeaderAccord.Json
