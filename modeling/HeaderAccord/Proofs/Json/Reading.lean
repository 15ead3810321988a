import HeaderAccord.Json.TreeReader
import HeaderAccord.Proofs.Json.ReadBack
import HeaderAccord.Proofs.NameMap

/-!
Texts that are read by their values. However a value is spelled, a reader finds in it what the value
stands for.
-/

namespace HeaderAccord.Json

open HeaderAccord.Json.Tree

/-- The value that a text spells, the members of its objects as they stand. -/
def HasValue (text : String) (v : Json) : Prop :=
  ∃ t, Tree.ofText text = (t, false) ∧ t.free maxDepth = .ok v

/-- A text has one value at most. -/
theorem HasValue.unique {text : String} {v w : Json} (hv : HasValue text v)
    (hw : HasValue text w) : v = w := by
  obtain ⟨t, ht, hfree⟩ := hv
  obtain ⟨t', ht', hfree'⟩ := hw
  obtain ⟨rfl, -⟩ := Prod.mk.inj (ht.symm.trans ht')
  exact Except.ok.inj (hfree.symm.trans hfree')

theorem ReadsAs.hasValue {text : String} {v : Json} (h : ReadsAs text.toList v)
    (hdepth : v.nesting ≤ maxDepth) : HasValue text v := by
  obtain ⟨t, ht, hfree⟩ := h
  exact ⟨t, ht.ofText_eq, by rw [hfree, within, if_pos hdepth]⟩

theorem hasValue_compact_of_isIntegral {v : Json} (h : v.isIntegral = true)
    (hdepth : v.nesting ≤ maxDepth) : HasValue v.compact v := by
  have hreads : ReadsAs v.compact.toList v := by
    rw [compact, String.toList_ofList]
    exact readsAs_compactChars v h
  exact hreads.hasValue hdepth

theorem hasValue_compact {v : Json} (hwhole : v.isWhole = true) (hdepth : v.nesting ≤ maxDepth) :
    HasValue v.compact v :=
  hasValue_compact_of_isIntegral (isIntegral_of_isWhole v hwhole) hdepth

/-! ### Trees by their values -/

/-- A number is an integer or a double. -/
def isNumber : Json → Bool
  | .integer _ | .double _ => true
  | _ => false

theorem Numeral.isNumber_of_value {n : Numeral} {v : Json} (h : n.value = .ok v) :
    v.isNumber = true := by
  have hdouble {negative : Bool} {significand : Nat} {exponent : Int}
      (h : doubleOf negative significand exponent = .ok v) : v.isNumber = true := by
    rw [doubleOf] at h
    split at h <;> cases h
    rfl
  have hinteger {negative : Bool} {n : Nat} (h : integerOf negative n = .ok v) :
      v.isNumber = true := by
    rw [integerOf] at h
    split at h
    · cases h
      rfl
    · split at h
      · exact hdouble h
      · cases h
        rfl
  simp only [value] at h
  split at h
  · split at h
    · exact hinteger h
    · exact hdouble h
  · split at h
    · exact hdouble h
    · split at h <;> cases h
      rfl

/-- An array has a value if it closes, and its items have theirs one level deeper. -/
theorem free_array {items : List Tree} {fault : Option Fault} {depth : Nat} {v : Json}
    (h : (Tree.array items fault).free depth = .ok v) :
    ∃ values, v = .array values ∧ fault = none ∧ freeItems (depth - 1) items = .ok values := by
  rw [free] at h
  cases depth with
  | zero => cases h
  | succ depth =>
      cases hitems : freeItems depth items with
      | error f =>
          simp only [Nat.add_sub_cancel, hitems] at h
          cases h
      | ok values =>
          cases fault with
          | some f =>
              simp only [Nat.add_sub_cancel, hitems] at h
              cases h
          | none =>
              simp only [Nat.add_sub_cancel, hitems] at h
              cases h
              exact ⟨values, rfl, rfl, hitems⟩

theorem free_object {members : List (RawString × Tree)} {fault : Option Fault} {depth : Nat}
    {v : Json} (h : (Tree.object members fault).free depth = .ok v) :
    ∃ values, v = .object values ∧ fault = none ∧
      freeMembers (depth - 1) members = .ok values := by
  rw [free] at h
  cases depth with
  | zero => cases h
  | succ depth =>
      cases hmembers : freeMembers depth members with
      | error f =>
          simp only [Nat.add_sub_cancel, hmembers] at h
          cases h
      | ok values =>
          cases fault with
          | some f =>
              simp only [Nat.add_sub_cancel, hmembers] at h
              cases h
          | none =>
              simp only [Nat.add_sub_cancel, hmembers] at h
              cases h
              exact ⟨values, rfl, rfl, hmembers⟩

/-- The value of a tree, if its containers do not nest too deep to be read. -/
def Tree.Denotes (t : Tree) (v : Json) : Prop := ∃ depth, t.free depth = .ok v

theorem denotes_of_freeItems {items : List Tree} {depth : Nat} {values : List Json}
    (h : freeItems depth items = .ok values) : List.Forall₂ Tree.Denotes items values := by
  induction items generalizing values with
  | nil =>
      cases h
      exact .nil
  | cons t items ih =>
      rw [freeItems] at h
      cases ht : t.free depth with
      | error f =>
          rw [ht] at h
          cases h
      | ok v =>
          cases hitems : freeItems depth items with
          | error f =>
              rw [ht, hitems] at h
              cases h
          | ok vs =>
              rw [ht, hitems] at h
              cases h
              exact .cons ⟨depth, ht⟩ (ih hitems)

/-- The members of a tree with their names read. -/
def Named (member : RawString × Tree) (entry : String × Tree) : Prop :=
  member.1.text = .ok entry.1 ∧ member.2 = entry.2

/-- The member stands for this name and this value. -/
def DenotesMember (entry : String × Tree) (member : String × Json) : Prop :=
  entry.1 = member.1 ∧ entry.2.Denotes member.2

theorem exists_entries_of_freeMembers {members : List (RawString × Tree)} {depth : Nat}
    {values : List (String × Json)} (h : freeMembers depth members = .ok values) :
    ∃ entries, List.Forall₂ Named members entries ∧
      List.Forall₂ DenotesMember entries values := by
  induction members generalizing values with
  | nil =>
      cases h
      exact ⟨[], .nil, .nil⟩
  | cons member members ih =>
      obtain ⟨raw, t⟩ := member
      rw [freeMembers] at h
      cases hname : raw.text with
      | error f =>
          rw [hname] at h
          cases h
      | ok name =>
          cases ht : t.free depth with
          | error f =>
              rw [hname, ht] at h
              cases h
          | ok v =>
              cases hmembers : freeMembers depth members with
              | error f =>
                  rw [hname, ht, hmembers] at h
                  cases h
              | ok vs =>
                  rw [hname, ht, hmembers] at h
                  cases h
                  obtain ⟨entries, hnamed, hdenotes⟩ := ih hmembers
                  exact ⟨(name, t) :: entries, .cons ⟨hname, rfl⟩ hnamed,
                    .cons ⟨rfl, depth, ht⟩ hdenotes⟩

/-- How a tree with this value looks. -/
inductive Shape : Tree → Json → Prop
  | null : Shape .null .null
  | bool (b : Bool) : Shape (.bool b) (.bool b)
  | number {n : Numeral} {v : Json} (h : v.isNumber = true) : Shape (.number n) v
  | string {raw : RawString} {s : String} (h : raw.text = .ok s) : Shape (.string raw) (.string s)
  | array {items : List Tree} {values : List Json}
      (h : List.Forall₂ Tree.Denotes items values) : Shape (.array items none) (.array values)
  | object {members : List (RawString × Tree)} {entries : List (String × Tree)}
      {values : List (String × Json)} (hnamed : List.Forall₂ Named members entries)
      (hdenotes : List.Forall₂ DenotesMember entries values) :
      Shape (.object members none) (.object values)

theorem Tree.Denotes.shape {t : Tree} {v : Json} (h : t.Denotes v) : Shape t v := by
  obtain ⟨depth, h⟩ := h
  cases t with
  | null =>
      cases h
      exact .null
  | bool b =>
      cases h
      exact .bool b
  | number n => exact .number (Numeral.isNumber_of_value h)
  | string raw =>
      rw [free] at h
      cases htext : raw.text with
      | error f =>
          rw [htext] at h
          cases h
      | ok s =>
          rw [htext] at h
          cases h
          exact .string htext
  | array items fault =>
      obtain ⟨values, rfl, rfl, hitems⟩ := free_array h
      exact .array (denotes_of_freeItems hitems)
  | object members fault =>
      obtain ⟨values, rfl, rfl, hmembers⟩ := free_object h
      obtain ⟨entries, hnamed, hdenotes⟩ := exists_entries_of_freeMembers hmembers
      exact .object hnamed hdenotes
  | broken f => cases h

/-- The text opens an object; it may fail to close it, and more may follow. -/
def OpensObject (text : String) : Prop :=
  ∃ members fault trailing, Tree.ofText text = (.object members fault, trailing)

theorem HasValue.opensObject {text : String} {values : List (String × Json)}
    (h : HasValue text (.object values)) : OpensObject text := by
  obtain ⟨t, htext, hfree⟩ := h
  cases (show t.Denotes (.object values) from ⟨_, hfree⟩).shape with
  | number hnumber => cases hnumber
  | object => exact ⟨_, _, _, htext⟩

/-! ### Readers -/

namespace TreeReader

variable {α : Type}

/-- The reader finds in every tree of a value what the value was encoded from. -/
def Reads (read : TreeReader α) (encode : α → Json) : Prop :=
  ∀ (t : Tree) (a : α), t.Denotes (encode a) → read t = .ok a

theorem reads_textAs (expected : String) : Reads (textAs expected) Json.string := by
  intro t s h
  cases h.shape with
  | string htext =>
      rw [textAs, htext]
      rfl
  | number hnumber => cases hnumber

theorem reads_text : Reads text Json.string := reads_textAs "a string"

theorem reads_bool : Reads bool Json.bool := by
  intro t b h
  cases h.shape with
  | bool b => rfl
  | number hnumber => cases hnumber

theorem reads_list {item : TreeReader α} {encode : α → Json} (hitem : Reads item encode) :
    Reads (list item) fun as => .array (as.map encode) := by
  intro t as h
  cases h.shape with
  | number hnumber => cases hnumber
  | @array items _ hitems =>
      have hmap : items.mapM item = .ok as := by
        clear h
        induction as generalizing items with
        | nil =>
            cases hitems
            rfl
        | cons a as ih =>
            obtain _ | ⟨ha, has⟩ := hitems
            rw [List.mapM_cons, hitem _ a ha, ih has]
            rfl
      rw [list, hmap]
      rfl

/-- A map is read entry by entry; its names are in order already. -/
theorem reads_nameMap {value : TreeReader α} {encode : α → Json} (hvalue : Reads value encode) :
    Reads (nameMap value) (ofNameMap encode) := by
  intro t m h
  cases h.shape with
  | number hnumber => cases hnumber
  | @object members _ _ hnamed hdenotes =>
      have hmap : (members.mapM fun member => do
          let name ← ofFault member.1.text
          return (name, ← value member.2)) = .ok m.entries := by
        clear h
        generalize m.entries = wanted at hdenotes ⊢
        induction hnamed generalizing wanted with
        | nil =>
            obtain rfl : wanted = [] := List.map_eq_nil_iff.1 (List.forall₂_nil_left_iff.1 hdenotes)
            rfl
        | @cons member entry members entries hmember _ ih =>
            obtain ⟨raw, t⟩ := member
            obtain ⟨name, t'⟩ := entry
            obtain ⟨hname, rfl⟩ := hmember
            cases wanted with
            | nil => cases hdenotes
            | cons want wanted =>
                obtain _ | ⟨⟨rfl, ht⟩, hdenotes⟩ := hdenotes
                have htext : ofFault raw.text = .ok want.1 := by
                  rw [show raw.text = .ok want.1 from hname]
                  rfl
                rw [List.mapM_cons, ih wanted hdenotes]
                simp only [htext, hvalue t want.2 ht, bind, Except.bind]
                rfl
      have hread : nameMap value (.object members none) = (members.mapM fun member => do
          let name ← ofFault member.1.text
          return (name, ← value member.2)) >>= fun entries =>
            ending none (NameMap.ofList entries) := rfl
      rw [hread, hmap]
      exact congrArg Except.ok (NameMap.ofList_entries m)

/-! ### Records -/

theorem check_field {read : TreeReader α} {encode : α → Json} (hread : Reads read encode)
    (name : String) (a : α) {t : Tree} (h : t.Denotes (encode a)) :
    (field name read).check t = .ok () := by
  simp only [field, hread t a h, Except.map]

/-- Under the name of a member a required field finds what its value was encoded from. -/
theorem required_of_denotes {read : TreeReader α} {encode : α → Json} (hread : Reads read encode)
    {entries : List (String × Tree)} {values : List (String × Json)}
    (h : List.Forall₂ DenotesMember entries values) (name : String) {a : α}
    (hvalue : values.lookup name = some (encode a)) :
    FieldValues.required entries name read = .ok a := by
  have hlookup : ∃ t, entries.lookup name = some t ∧ t.Denotes (encode a) := by
    induction h with
    | nil => cases hvalue
    | @cons entry member entries values hmember _ ih =>
        obtain ⟨hname, ht⟩ := hmember
        rw [lookup_cons_eq, hname]
        rw [lookup_cons_eq] at hvalue
        split at hvalue
        · next heq =>
          obtain hsame := Option.some.inj hvalue
          exact ⟨entry.2, if_pos heq, hsame ▸ ht⟩
        · next hne =>
          rw [if_neg hne]
          exact ih hvalue
  obtain ⟨t, ht, hdenotes⟩ := hlookup
  rw [FieldValues.required, ht]
  exact hread t a hdenotes

namespace RecordForm

variable {form : RecordForm}

/-- A value under the name of a field, whatever its spelling, passes the check of the field. -/
def Accepts (form : RecordForm) (member : String × Json) : Prop :=
  ∃ f, form.fields.find? (·.name == member.1) = some f ∧
    ∀ t : Tree, t.Denotes member.2 → f.check t = .ok ()

/-- Members of different names that the form accepts are all taken. -/
theorem ofMembers_eq_append {members : List (RawString × Tree)} {entries : List (String × Tree)}
    {values : List (String × Json)} (hnamed : List.Forall₂ Named members entries)
    (hdenotes : List.Forall₂ DenotesMember entries values) (haccepts : ∀ m ∈ values, form.Accepts m)
    {seen : FieldValues Tree} (hdistinct : ((seen ++ entries).map (·.1)).Nodup) :
    form.ofMembers seen members = .ok (seen ++ entries) := by
  induction hnamed generalizing seen values with
  | nil => rw [ofMembers, List.append_nil]
  | @cons member entry members entries hmember _ ih =>
      obtain ⟨raw, t⟩ := member
      obtain ⟨name, t'⟩ := entry
      obtain ⟨hname, rfl⟩ := hmember
      obtain _ | @⟨_, ⟨_, v⟩, _, values, ⟨rfl, hvalue⟩, hvalues⟩ := hdenotes
      obtain ⟨⟨f, hfind, hcheck⟩, haccepts⟩ := List.forall_mem_cons.1 haccepts
      have hnew : seen.lookup name = none := by
        refine List.lookup_eq_none_iff.2 fun e he => bne_iff_ne.2 fun heq => ?_
        rw [List.map_append, List.map_cons, List.nodup_append] at hdistinct
        exact hdistinct.2.2 e.1 (List.mem_map_of_mem he) name (by simp) heq.symm
      have hrest : form.ofMembers (seen ++ [(name, t)]) members =
          .ok (seen ++ [(name, t)] ++ entries) :=
        ih hvalues haccepts (by simpa using hdistinct)
      have hread : ofFault raw.text = .ok name := by
        rw [show raw.text = .ok name from hname]
        rfl
      rw [ofMembers, hread]
      simp only [bind, Except.bind, hfind, hnew, hcheck t hvalue, Option.isSome_none]
      exact hrest.trans (by rw [List.append_assoc, List.singleton_append])

theorem read_of_denotes {t : Tree} {values : List (String × Json)}
    (h : t.Denotes (.object values)) (hdistinct : (values.map (·.1)).Nodup)
    (haccepts : ∀ m ∈ values, form.Accepts m) :
    ∃ entries, form.read t = .ok entries ∧ List.Forall₂ DenotesMember entries values := by
  cases h.shape with
  | number hnumber => cases hnumber
  | object hnamed hdenotes =>
      have hnames {entries : List (String × Tree)} {values : List (String × Json)}
          (h : List.Forall₂ DenotesMember entries values) :
          entries.map (·.1) = values.map (·.1) := by
        induction h with
        | nil => rfl
        | cons hmember _ ih => rw [List.map_cons, List.map_cons, hmember.1, ih]
      have hread := @ofMembers_eq_append form _ _ _ hnamed hdenotes haccepts []
        (by rwa [List.nil_append, hnames hdenotes])
      refine ⟨_, ?_, hdenotes⟩
      rw [read, hread]
      rfl

/-- A field whose reader reads an encoding accepts what is encoded. -/
theorem accepts_field {read : TreeReader α} {encode : α → Json} (hread : Reads read encode)
    {name : String} (a : α)
    (hfind : form.fields.find? (·.name == name) = some (field name read)) :
    form.Accepts (name, encode a) :=
  ⟨_, hfind, fun _ h => check_field hread name a h⟩

/-- A record is read as what is made of its fields. -/
theorem read_bind_of_denotes {β : Type} {t : Tree} {values : List (String × Json)}
    (h : t.Denotes (.object values)) (hdistinct : (values.map (·.1)).Nodup)
    (haccepts : ∀ m ∈ values, form.Accepts m) {next : FieldValues Tree → Except ReadError β}
    {out : β} (hnext : ∀ entries, List.Forall₂ DenotesMember entries values →
      next entries = .ok out) :
    (form.read t >>= next) = .ok out := by
  obtain ⟨entries, hread, hentries⟩ := read_of_denotes h hdistinct haccepts
  rw [hread]
  exact hnext entries hentries

end RecordForm

/-- A reader of an encoding reads every text that has the encoded value. -/
theorem run_of_hasValue {read : TreeReader α} {encode : α → Json} (hread : Reads read encode)
    {text : String} {a : α} (h : HasValue text (encode a)) : read.run text = .ok a := by
  obtain ⟨t, htext, hfree⟩ := h
  rw [run, htext]
  simp only [hread t a ⟨_, hfree⟩]
  rfl

end TreeReader

end HeaderAccord.Json
