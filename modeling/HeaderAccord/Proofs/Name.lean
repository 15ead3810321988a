import HeaderAccord.Name
import HeaderAccord.Proofs.Lowercase

/-!
Keys of names. The key of a text is put together from the keys of its parts, and a key is its own
key. It is empty only if there is nothing but underscores in the name.
-/

namespace HeaderAccord.Name

theorem key_append (a b : String) : key (a ++ b) = key a ++ key b := by
  rw [key, String.toList_append, keyChars_append, String.ofList_append, key, key]

theorem keyChars_eq_nil_iff {name : List Char} : keyChars name = [] ↔ ∀ c ∈ name, c = '_' := by
  simp [keyChars, List.flatMap_eq_nil_iff, Text.lowercase_ne_nil]

theorem ofList_keyChars_eq_empty_iff {name : List Char} :
    String.ofList (keyChars name) = "" ↔ ∀ c ∈ name, c = '_' := by
  rw [← keyChars_eq_nil_iff, ← String.toList_inj, String.toList_ofList]
  rfl

/-! ### Keys of keys -/

/-- The characters of a key, by the character of the name that each of them comes from. -/
theorem mem_keyChars_iff {name : List Char} {d : Char} :
    d ∈ keyChars name ↔ ∃ c ∈ name, c ≠ '_' ∧ d ∈ Text.lowercase c := by
  simp [keyChars, and_assoc]

theorem keyChars_cons_of_ne {c : Char} (h : c ≠ '_') (name : List Char) :
    keyChars (c :: name) = Text.lowercase c ++ keyChars name := by
  simp [keyChars, h]

/-- A name without underscores is a key if each of its characters is its own lower case. -/
theorem keyChars_eq_self {name : List Char} (h : ∀ c ∈ name, c ≠ '_' ∧ Text.lowercase c = [c]) :
    keyChars name = name := by
  induction name with
  | nil => rfl
  | cons c name ih =>
      obtain ⟨⟨hne, hself⟩, hname⟩ := List.forall_mem_cons.1 h
      rw [keyChars_cons_of_ne hne, hself, ih hname, List.singleton_append]

theorem keyChars_keyChars (name : List Char) : keyChars (keyChars name) = keyChars name := by
  apply keyChars_eq_self
  intro d hd
  obtain ⟨c, -, hc, hlower⟩ := mem_keyChars_iff.1 hd
  refine ⟨?_, Text.lowercase_of_mem_lowercase hlower⟩
  rintro rfl
  exact hc (Text.underscore_mem_lowercase_iff.1 hlower)

theorem key_key (name : String) : key (key name) = key name := by
  rw [key, toList_key, keyChars_keyChars, key]

end HeaderAccord.Name
