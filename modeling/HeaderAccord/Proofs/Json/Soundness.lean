import Mathlib.Data.List.Nodup
import HeaderAccord.Proofs.Except
import HeaderAccord.Proofs.Json.Reading

/-!
Values behind readings. A reader that takes a tree for something has seen all of the tree, so the tree
has the value that this is encoded as. A record that knows its fields has seen every member: their
names are different, each is that of a field, and each value has passed the check of its field.
-/

namespace HeaderAccord.Json.TreeReader

open HeaderAccord.Json.Tree

variable {α : Type}

/-- What the reader takes a tree for is encoded as the value of the tree, which nests at most `levels`
deep. -/
def Sound (read : TreeReader α) (encode : α → Json) (levels : Nat) : Prop :=
  ∀ t a, read t = .ok a → ∀ depth, levels ≤ depth → t.free depth = .ok (encode a)

theorem sound_textAs (expected : String) : Sound (textAs expected) Json.string 0 := by
  intro t s h depth _
  cases t with
  | string raw =>
      have htext : raw.text = .ok s := mapError_eq_ok_iff.1 h
      rw [free, htext]
      rfl
  | _ => cases h

theorem sound_text : Sound text Json.string 0 := sound_textAs "a string"

theorem sound_bool : Sound bool Json.bool 0 := by
  intro t b h depth _
  cases t with
  | bool b' =>
      cases h
      rfl
  | _ => cases h

theorem sound_list {item : TreeReader α} {encode : α → Json} {levels : Nat}
    (hitem : Sound item encode levels) :
    Sound (list item) (fun as => .array (as.map encode)) (levels + 1) := by
  intro t as h depth hdepth
  cases t with
  | array items fault =>
      obtain ⟨as', hitems, hending⟩ := bind_eq_ok_iff.1 h
      cases fault with
      | some f => cases hending
      | none =>
          cases hending
          obtain ⟨depth, rfl⟩ := Nat.exists_eq_add_one_of_ne_zero (Nat.ne_zero_of_lt hdepth)
          have hfree : freeItems depth items = .ok (as.map encode) := by
            have hread := mapM_eq_ok_iff.1 hitems
            clear h hitems
            induction hread with
            | nil => rfl
            | @cons t a items as ht _ ih =>
                rw [freeItems, hitem t a ht depth (Nat.le_of_succ_le_succ hdepth), ih]
                rfl
          rw [free, if_neg (Nat.succ_ne_zero depth), Nat.add_sub_cancel, hfree]
          rfl
  | _ => cases h

/-- A value that passes the check of a field is read. -/
theorem exists_of_check_field {name : String} {read : TreeReader α} {t : Tree}
    (h : (field name read).check t = .ok ()) : ∃ a, read t = .ok a := by
  obtain ⟨a, ha, -⟩ := map_eq_ok_iff.1 h
  exact ⟨a, ha⟩

namespace RecordForm

variable {form : RecordForm}

/-- The member has the name of a field, and has passed its check. -/
def Fits (form : RecordForm) (entry : String × Tree) : Prop :=
  ∃ f, form.fields.find? (·.name == entry.1) = some f ∧ f.check entry.2 = .ok ()

/-- The members that a record takes have different names, and each fits one of its fields. -/
theorem exists_of_ofMembers (hstrict : form.ignoresUnknown = false)
    {members : List (RawString × Tree)} {seen values : FieldValues Tree}
    (h : form.ofMembers seen members = .ok values) (hseen : (seen.map (·.1)).Nodup) :
    ∃ entries, values = seen ++ entries ∧ List.Forall₂ Named members entries ∧
      (values.map (·.1)).Nodup ∧ ∀ e ∈ entries, form.Fits e := by
  induction members generalizing seen with
  | nil =>
      cases h
      exact ⟨[], (List.append_nil _).symm, .nil, hseen, nofun⟩
  | cons member members ih =>
      obtain ⟨raw, t⟩ := member
      rw [ofMembers] at h
      obtain ⟨name, hname, h⟩ := bind_eq_ok_iff.1 h
      split at h
      · next f hfind =>
        dsimp only at h
        by_cases hold : (seen.lookup name).isSome = true
        · rw [if_pos hold] at h
          cases h
        · rw [if_neg hold] at h
          obtain ⟨⟨⟩, hcheck, h⟩ := bind_eq_ok_iff.1 h
          have hnew : name ∉ seen.map (·.1) := by
            intro hmem
            obtain ⟨e, he, rfl⟩ := List.mem_map.1 hmem
            rw [Bool.not_eq_true, Option.isSome_eq_false_iff, Option.isNone_iff_eq_none] at hold
            exact absurd (List.lookup_eq_none_iff.1 hold e he) (by simp)
          have hdistinct : ((seen ++ [(name, t)]).map (·.1)).Nodup := by
            simpa using hseen.concat hnew
          obtain ⟨entries, rfl, hnamed, hvalues, hfits⟩ := ih h hdistinct
          refine ⟨(name, t) :: entries, by simp, .cons ⟨mapError_eq_ok_iff.1 hname, rfl⟩ hnamed,
            hvalues, List.forall_mem_cons.2 ⟨⟨f, hfind, hcheck⟩, hfits⟩⟩
      · rw [hstrict] at h
        cases h

end RecordForm

end HeaderAccord.Json.TreeReader
