import HeaderAccord.Proofs.Name
import Mathlib.Data.List.Forall2

/-!
Spellings of a name. One name respells another if the two are the same without their underscores
and apart from the case of their letters. Two ASCII names have the same key just when one respells
the other, so a key stands for all spellings of its name and for nothing else; the spellings that
the naming conventions of different languages give to the same words are among them.
-/

namespace HeaderAccord.Name

/-! ### Letters -/

/-- `small` is the small letter of an ASCII capital. -/
def IsSmallOf (small capital : Char) : Prop :=
  capital.isUpper = true ∧ small.toNat = capital.toNat + 32

instance (small capital : Char) : Decidable (IsSmallOf small capital) :=
  inferInstanceAs (Decidable (_ ∧ _))

/-- The characters are the same, or one ASCII letter in two cases. -/
def SameLetter (c d : Char) : Prop := c = d ∨ IsSmallOf c d ∨ IsSmallOf d c

instance (c d : Char) : Decidable (SameLetter c d) :=
  inferInstanceAs (Decidable (_ ∨ _))

theorem isUpper_iff {c : Char} : c.isUpper = true ↔ 65 ≤ c.toNat ∧ c.toNat ≤ 90 :=
  decide_eq_true_iff.trans (and_congr UInt32.le_iff_toNat_le UInt32.le_iff_toNat_le)

theorem isLower_iff {c : Char} : c.isLower = true ↔ 97 ≤ c.toNat ∧ c.toNat ≤ 122 := by
  refine Bool.and_eq_true_iff.trans (and_congr ?_ ?_)
  · exact decide_eq_true_iff.trans UInt32.le_iff_toNat_le
  · exact decide_eq_true_iff.trans UInt32.le_iff_toNat_le

theorem toNat_toLower (c : Char) :
    c.toLower.toNat = if c.isUpper then c.toNat + 32 else c.toNat := by
  split
  · next h =>
    have hrange := isUpper_iff.1 h
    have hlower : c.toLower = _ := dif_pos (of_decide_eq_true h)
    have hadd : (c.val + ('a'.val - 'A'.val)).toNat = (c.toNat + 32) % 2 ^ 32 := UInt32.toNat_add ..
    rw [hlower]
    refine hadd.trans ?_
    omega
  · next h =>
    have hlower : c.toLower = c := dif_neg fun hrange => h (decide_eq_true hrange)
    rw [hlower]

theorem toNat_toUpper (c : Char) :
    c.toUpper.toNat = if c.isLower then c.toNat - 32 else c.toNat := by
  have hcases : c.isLower = true ↔ 'a'.val ≤ c.val ∧ c.val ≤ 'z'.val :=
    Bool.and_eq_true_iff.trans (and_congr decide_eq_true_iff decide_eq_true_iff)
  split
  · next h =>
    have hrange := isLower_iff.1 h
    have hupper : c.toUpper = _ := dif_pos (hcases.1 h)
    -- the capitals lie before the small letters, so their distance wraps
    have hadd : (c.val + ('A'.val - 'a'.val)).toNat = (c.toNat + (2 ^ 32 - 32)) % 2 ^ 32 :=
      UInt32.toNat_add ..
    rw [hupper]
    refine hadd.trans ?_
    omega
  · next h =>
    have hupper : c.toUpper = c := dif_neg fun hrange => h (hcases.2 hrange)
    rw [hupper]

theorem toLower_toLower (c : Char) : c.toLower.toLower = c.toLower := by
  have hc := @isUpper_iff c
  have hl := @isUpper_iff c.toLower
  rw [← Char.toNat_inj, toNat_toLower]
  rw [toNat_toLower] at hl ⊢
  grind

theorem toLower_toUpper (c : Char) : c.toUpper.toLower = c.toLower := by
  have hc := @isUpper_iff c
  have hl := @isLower_iff c
  have hu := @isUpper_iff c.toUpper
  rw [← Char.toNat_inj, toNat_toLower, toNat_toLower]
  rw [toNat_toUpper] at hu ⊢
  grind

theorem toLower_eq_toLower_iff {c d : Char} : c.toLower = d.toLower ↔ SameLetter c d := by
  have hc := @isUpper_iff c
  have hd := @isUpper_iff d
  rw [SameLetter, IsSmallOf, IsSmallOf, ← Char.toNat_inj, ← Char.toNat_inj, toNat_toLower,
    toNat_toLower]
  split <;> split <;> grind

theorem toLower_eq_underscore_iff {c : Char} : c.toLower = '_' ↔ c = '_' := by
  constructor
  · intro h
    have hunderscore : '_' = Char.toLower '_' := rfl
    rcases toLower_eq_toLower_iff.1 (h.trans hunderscore) with heq | ⟨hupper, -⟩ | ⟨hupper, hcode⟩
    · exact heq
    · cases hupper
    · -- the character 32 places before the underscore is the question mark
      have hrange := isUpper_iff.1 hupper
      have : Char.toNat '_' = 95 := rfl
      omega
  · rintro rfl
    rfl

/-! ### Spellings -/

/-- The names are the same without their underscores and apart from case. -/
def Respells (a b : List Char) : Prop :=
  List.Forall₂ SameLetter (a.filter (· ≠ '_')) (b.filter (· ≠ '_'))

instance (a b : List Char) : Decidable (Respells a b) :=
  inferInstanceAs (Decidable (List.Forall₂ _ _ _))

def IsAscii (name : List Char) : Prop := ∀ c ∈ name, c.toNat < 128

instance (name : List Char) : Decidable (IsAscii name) :=
  List.decidableBAll (fun c : Char => c.toNat < 128) name

/-- A name in small letters and without underscores. -/
def plain (name : List Char) : List Char := (name.filter (· ≠ '_')).map Char.toLower

theorem respells_iff {a b : List Char} : Respells a b ↔ plain a = plain b := by
  simp only [Respells, plain, ← List.forall₂_eq_eq_eq, List.forall₂_map_left_iff,
    List.forall₂_map_right_iff, toLower_eq_toLower_iff]

theorem keyChars_of_isAscii {name : List Char} (h : IsAscii name) : keyChars name = plain name := by
  rw [keyChars, plain, List.map_eq_flatMap]
  exact List.flatMap_congr fun c hc => Text.lowercase_of_ascii (h c (List.mem_of_mem_filter hc))

theorem keyChars_eq_keyChars_iff {a b : List Char} (ha : IsAscii a) (hb : IsAscii b) :
    keyChars a = keyChars b ↔ Respells a b := by
  rw [keyChars_of_isAscii ha, keyChars_of_isAscii hb, respells_iff]

theorem key_eq_key_iff {a b : String} (ha : IsAscii a.toList) (hb : IsAscii b.toList) :
    key a = key b ↔ Respells a.toList b.toList := by
  rw [key, key, String.ofList_inj, keyChars_eq_keyChars_iff ha hb]

/-! ### Conventions -/

/-- How a language joins the words of a name. -/
inductive Convention
  /-- `buffer_size` -/
  | snake
  /-- `BUFFER_SIZE` -/
  | upper
  /-- `bufferSize` -/
  | camel

def capitalized : List Char → List Char
  | [] => []
  | c :: cs => c.toUpper :: cs.map Char.toLower

def Convention.spell : Convention → List (List Char) → List Char
  | .snake, words => ['_'].intercalate (words.map (·.map Char.toLower))
  | .upper, words => ['_'].intercalate (words.map (·.map Char.toUpper))
  | .camel, [] => []
  | .camel, word :: words => word.map Char.toLower ++ words.flatMap capitalized

theorem plain_append (a b : List Char) : plain (a ++ b) = plain a ++ plain b := by
  simp [plain]

theorem plain_cons (c : Char) (name : List Char) : plain (c :: name) = plain [c] ++ plain name :=
  plain_append [c] name

/-- A change of characters that lower-casing undoes. -/
theorem plain_map {change : Char → Char} (h : ∀ c, (change c).toLower = c.toLower)
    (name : List Char) : plain (name.map change) = plain name := by
  have hunderscore (c : Char) : change c = '_' ↔ c = '_' := by
    rw [← toLower_eq_underscore_iff, h, toLower_eq_underscore_iff]
  induction name with
  | nil => rfl
  | cons c name ih =>
      rw [List.map_cons, plain_cons, ih, plain_cons c]
      by_cases hc : c = '_' <;> simp [plain, hunderscore, hc, h]

theorem plain_capitalized (word : List Char) : plain (capitalized word) = plain word := by
  cases word with
  | nil => rfl
  | cons c cs =>
      have hhead := plain_map toLower_toUpper [c]
      rw [capitalized, plain_cons, plain_map toLower_toLower, plain_cons c]
      exact congrArg (· ++ plain cs) hhead

theorem plain_intercalate (words : List (List Char)) :
    plain (['_'].intercalate words) = words.flatMap plain := by
  induction words with
  | nil => rfl
  | cons word words ih =>
      cases words with
      | nil => simp
      | cons next words =>
          have hunderscore : plain ['_'] = [] := rfl
          rw [List.intercalate_cons_cons, plain_append, plain_append, hunderscore, ih,
            List.append_nil]
          rfl

theorem plain_flatMap_capitalized (words : List (List Char)) :
    plain (words.flatMap capitalized) = words.flatMap plain := by
  induction words with
  | nil => rfl
  | cons word words ih =>
      rw [List.flatMap_cons, plain_append, plain_capitalized, ih, List.flatMap_cons]

/-- A convention keeps the letters of the words. -/
theorem plain_spell (convention : Convention) (words : List (List Char)) :
    plain (convention.spell words) = words.flatMap plain := by
  cases convention with
  | snake =>
      rw [Convention.spell, plain_intercalate, List.flatMap_map]
      exact List.flatMap_congr fun word _ => plain_map toLower_toLower word
  | upper =>
      rw [Convention.spell, plain_intercalate, List.flatMap_map]
      exact List.flatMap_congr fun word _ => plain_map toLower_toUpper word
  | camel =>
      cases words with
      | nil => rfl
      | cons word words =>
          rw [Convention.spell, plain_append, plain_map toLower_toLower,
            plain_flatMap_capitalized, List.flatMap_cons]

/-- All conventions spell the same name. -/
theorem respells_spell (k l : Convention) (words : List (List Char)) :
    Respells (k.spell words) (l.spell words) := by
  rw [respells_iff, plain_spell, plain_spell]

end HeaderAccord.Name
