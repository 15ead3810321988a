import HeaderAccord.Json.TreeReader
import HeaderAccord.Proofs.Json.Spelling

/-!
The text of a value read back. Its integers have to fit 64 bits, since a longer one is read as a
double, and its containers may nest only as deep as the reader goes.
-/

namespace HeaderAccord.Json

open HeaderAccord.Json.Tree

mutual

/-- Every number in the value is an integer of 64 bits. -/
def isWhole : Json → Bool
  | .integer n => Numeral.fits n
  | .double _ => false
  | .array items => areWhole items
  | .object members => areWholeMembers members
  | _ => true

def areWhole : List Json → Bool
  | [] => true
  | v :: vs => v.isWhole && areWhole vs

def areWholeMembers : List (String × Json) → Bool
  | [] => true
  | (_, v) :: rest => v.isWhole && areWholeMembers rest

end

mutual

/-- Every number in the value is an integer of 64 bits. The integer `-0` is one, though it is read as
a double. -/
def isIntegral : Json → Bool
  | .integer n => Numeral.fits n
  | .double d => d = { negative := true, units := 0 }
  | .array items => areIntegral items
  | .object members => areIntegralMembers members
  | _ => true

def areIntegral : List Json → Bool
  | [] => true
  | v :: vs => v.isIntegral && areIntegral vs

def areIntegralMembers : List (String × Json) → Bool
  | [] => true
  | (_, v) :: rest => v.isIntegral && areIntegralMembers rest

end

mutual

/-- How deep the containers of a value nest. -/
def nesting : Json → Nat
  | .array items => nestingItems items + 1
  | .object members => nestingMembers members + 1
  | _ => 0

def nestingItems : List Json → Nat
  | [] => 0
  | v :: vs => max v.nesting (nestingItems vs)

def nestingMembers : List (String × Json) → Nat
  | [] => 0
  | (_, v) :: rest => max v.nesting (nestingMembers rest)

end

theorem areWhole_iff {items : List Json} :
    areWhole items = true ↔ ∀ v ∈ items, v.isWhole = true := by
  induction items with
  | nil => simp [areWhole]
  | cons v items ih => rw [areWhole, Bool.and_eq_true, ih, List.forall_mem_cons]

theorem areWholeMembers_iff {members : List (String × Json)} :
    areWholeMembers members = true ↔ ∀ name v, (name, v) ∈ members → v.isWhole = true := by
  induction members with
  | nil => simp [areWholeMembers]
  | cons member members ih =>
      obtain ⟨name, v⟩ := member
      rw [areWholeMembers, Bool.and_eq_true, ih]
      simp [or_imp, forall_and]

theorem areIntegral_iff {items : List Json} :
    areIntegral items = true ↔ ∀ v ∈ items, v.isIntegral = true := by
  induction items with
  | nil => simp [areIntegral]
  | cons v items ih => rw [areIntegral, Bool.and_eq_true, ih, List.forall_mem_cons]

theorem areIntegralMembers_iff {members : List (String × Json)} :
    areIntegralMembers members = true ↔ ∀ name v, (name, v) ∈ members → v.isIntegral = true := by
  induction members with
  | nil => simp [areIntegralMembers]
  | cons member members ih =>
      obtain ⟨name, v⟩ := member
      rw [areIntegralMembers, Bool.and_eq_true, ih]
      simp [or_imp, forall_and]

mutual

theorem isIntegral_of_isWhole : (v : Json) → v.isWhole = true → v.isIntegral = true
  | .null, _ => rfl
  | .bool _, _ => rfl
  | .integer _, h => h
  | .double _, h => nomatch h
  | .string _, _ => rfl
  | .array items, h => areIntegral_of_areWhole items h
  | .object members, h => areIntegralMembers_of_areWholeMembers members h

theorem areIntegral_of_areWhole :
    (items : List Json) → areWhole items = true → areIntegral items = true
  | [], _ => rfl
  | v :: vs, h => by
      rw [areWhole, Bool.and_eq_true] at h
      rw [areIntegral, isIntegral_of_isWhole v h.1, areIntegral_of_areWhole vs h.2]
      rfl

theorem areIntegralMembers_of_areWholeMembers : (members : List (String × Json)) →
    areWholeMembers members = true → areIntegralMembers members = true
  | [], _ => rfl
  | (_, v) :: rest, h => by
      rw [areWholeMembers, Bool.and_eq_true] at h
      rw [areIntegralMembers, isIntegral_of_isWhole v h.1,
        areIntegralMembers_of_areWholeMembers rest h.2]
      rfl

end

theorem nestingItems_le_iff {items : List Json} {n : Nat} :
    nestingItems items ≤ n ↔ ∀ v ∈ items, v.nesting ≤ n := by
  induction items with
  | nil => simp [nestingItems]
  | cons v items ih => rw [nestingItems, Nat.max_le, ih, List.forall_mem_cons]

theorem nestingMembers_le_iff {members : List (String × Json)} {n : Nat} :
    nestingMembers members ≤ n ↔ ∀ name v, (name, v) ∈ members → v.nesting ≤ n := by
  induction members with
  | nil => simp [nestingMembers]
  | cons member members ih =>
      obtain ⟨name, v⟩ := member
      rw [nestingMembers, Nat.max_le, ih]
      simp [or_imp, forall_and]

theorem isWhole_ofNameMap {α : Type} {encode : α → Json} (h : ∀ a, (encode a).isWhole = true)
    (m : NameMap α) : (ofNameMap encode m).isWhole = true := by
  rw [ofNameMap, isWhole, areWholeMembers_iff]
  intro name v hmem
  obtain ⟨entry, -, heq⟩ := List.mem_map.1 hmem
  cases heq
  exact h entry.2

theorem nesting_ofNameMap_le {α : Type} {encode : α → Json} {n : Nat}
    (h : ∀ a, (encode a).nesting ≤ n) (m : NameMap α) : (ofNameMap encode m).nesting ≤ n + 1 := by
  rw [ofNameMap, nesting, Nat.add_le_add_iff_right, nestingMembers_le_iff]
  intro name v hmem
  obtain ⟨entry, -, heq⟩ := List.mem_map.1 hmem
  cases heq
  exact h entry.2

/-- What a reader that goes `depth` deep makes of something nested. -/
def within {α : Type} (depth nesting : Nat) (value : α) : Except Fault α :=
  if nesting ≤ depth then .ok value else .error .tooDeep

theorem within_zero {α : Type} (depth : Nat) (value : α) : within depth 0 value = .ok value :=
  if_pos (Nat.zero_le depth)

theorem within_pure {α β : Type} (depth n : Nat) (value : α) (f : α → β) :
    (within depth n value >>= fun x => pure (f x)) = within depth n (f value) := by
  rw [within, within]
  split <;> rfl

theorem within_bind {α β : Type} (depth m n : Nat) (value : α) {f : α → Except Fault β} {out : β}
    (hf : f value = within depth n out) :
    (within depth m value >>= f) = within depth (max m n) out := by
  by_cases hm : m ≤ depth
  · rw [within, if_pos hm]
    refine hf.trans ?_
    simp only [within, Nat.max_le, hm, true_and]
  · have hmax : ¬ max m n ≤ depth := by omega
    rw [within, if_neg hm, within, if_neg hmax]
    rfl

/-- A container takes one level. -/
theorem within_succ {α : Type} (depth n : Nat) (value : α) :
    (do
      if depth = 0 then throw .tooDeep
      within (depth - 1) n value) = within depth (n + 1) value := by
  cases depth with
  | zero => rfl
  | succ depth => simp [within]

/-- The text spells a tree whose value is `v`. -/
def ReadsAs (cs : List Char) (v : Json) : Prop :=
  ∃ t, Spells cs t ∧ ∀ depth, t.free depth = within depth v.nesting v

theorem ReadsAs.append_gap {gap cs : List Char} {v : Json} (hgap : IsGap gap)
    (h : ReadsAs cs v) : ReadsAs (cs ++ gap) v := by
  obtain ⟨t, ht, hfree⟩ := h
  exact ⟨t, ht.append_gap hgap, hfree⟩

/-! ### Scalars -/

/-- A literal, which is told by its first letter. -/
theorem readsAs_literal (c : Char) (cs : List Char) {token : Token} {t : Tree} {v : Json}
    (h : ∀ rest, Token.startingWith c (cs ++ rest) = (token, rest))
    (hblank : Token.isJsonBlank c = false) (hopening : Phase.opening token = .done t)
    (hne : token ≠ .closeBracket) (hfree : ∀ depth, t.free depth = .ok v)
    (hv : v.nesting = 0) : ReadsAs (c :: cs) v := by
  refine ⟨t, spells_token hblank (fun rest _ => h rest) hopening hne, fun depth => ?_⟩
  rw [hfree, hv, within_zero]

theorem readsAs_integer {n : Int} (h : Numeral.fits n = true) :
    ReadsAs (toString n).toList (.integer n) := by
  refine ⟨_, spells_integer n, fun depth => ?_⟩
  rw [nesting, within_zero, free, Numeral.value_ofInteger h]
  all_goals nofun

/-- A zero with a sign, which is written with a point. -/
def negativeZero : Numeral := { negative := true, whole := [0], fraction := [0], exponent := none }

theorem ofUnsigned_negativeZero {rest : List Char} (hrest : EndsNumber rest) :
    Numeral.ofUnsigned true ('0' :: '.' :: '0' :: rest) = .ok (negativeZero, rest) := by
  have hzeros : ∀ c ∈ ['0'], c.isDigit = true := List.forall_mem_singleton.2 rfl
  have hfraction : digits ('0' :: rest) = ([0], rest) := by
    simpa [digitValue] using digits_append hzeros hrest
  have hexponent : Numeral.exponentPart rest = .ok (none, rest) := by
    cases rest with
    | nil => rfl
    | cons c rest =>
        obtain ⟨-, -, he, hE⟩ := hrest c rfl
        simp [Numeral.exponentPart, he, hE]
  simp [negativeZero, Numeral.ofUnsigned, Numeral.wholePart, Numeral.startsWithDigit,
    Numeral.fractionPart, Numeral.someDigits, hfraction, hexponent, bind, Except.bind, pure,
    Except.pure]

theorem value_negativeZero :
    negativeZero.value = .ok (.double { negative := true, units := 0 }) := by
  have hzero : Double.ofDecimal? true 0 (-1) = some { negative := true, units := 0 } := by
    decide +kernel
  simp [negativeZero, Numeral.value, Numeral.absorb, Numeral.doubleOf, hzero]

theorem spells_negativeZero : Spells "-0.0".toList (.number negativeZero) := by
  have hread (rest : List Char) (hrest : EndsNumber rest) :
      Token.startingWith '-' ("0.0".toList ++ rest) = (.number negativeZero, rest) := by
    show Token.numeral true ('0' :: '.' :: '0' :: rest) = _
    rw [Token.numeral, ofUnsigned_negativeZero hrest]
  exact spells_token rfl hread rfl (by rintro ⟨⟩)

/-- It is read back as a double again. -/
theorem readsAs_negativeZero :
    ReadsAs "-0.0".toList (.double { negative := true, units := 0 }) := by
  refine ⟨_, spells_negativeZero, fun depth => ?_⟩
  rw [nesting, within_zero, free, value_negativeZero]
  all_goals nofun

theorem readsAs_string (s : String) : ReadsAs (stringText s) (.string s) := by
  refine ⟨_, spells_string s, fun depth => ?_⟩
  rw [nesting, within_zero, free, RawString.text_ofText]
  · rfl
  all_goals nofun

/-! ### Containers -/

theorem exists_trees_of_items {texts : List (List Char)} {items : List Json}
    (h : List.Forall₂ ReadsAs texts items) :
    ∃ trees, List.Forall₂ Spells texts trees ∧
      ∀ depth, freeItems depth trees = within depth (nestingItems items) items := by
  induction h with
  | nil => exact ⟨[], .nil, fun depth => (within_zero depth []).symm⟩
  | @cons cs v texts items hv _ ih =>
      obtain ⟨t, ht, hfree⟩ := hv
      obtain ⟨trees, htrees, hfreeItems⟩ := ih
      refine ⟨t :: trees, .cons ht htrees, fun depth => ?_⟩
      rw [freeItems, hfree, nestingItems]
      refine within_bind depth _ _ v ?_
      rw [hfreeItems, within_pure]

theorem readsAs_array {front gap back : List Char} (hfront : IsGap front) (hgap : IsGap gap)
    (hback : IsGap back) {texts : List (List Char)} {items : List Json}
    (h : List.Forall₂ ReadsAs texts items) :
    ReadsAs ('[' :: (front ++ ((',' :: gap).intercalate texts ++ (back ++ [']']))))
      (.array items) := by
  obtain ⟨trees, htrees, hfree⟩ := exists_trees_of_items h
  refine ⟨_, spells_array hgap hback hfront htrees, fun depth => ?_⟩
  rw [free, hfree, nesting, ← within_succ, ← within_pure]

/-- The text of a member: its name, a colon and its value. -/
def ReadsAsMember (cs : List Char) (member : String × Json) : Prop :=
  ∃ gap value, cs = stringText member.1 ++ ':' :: (gap ++ value) ∧ IsGap gap ∧
    ReadsAs value member.2

theorem exists_trees_of_members {texts : List (List Char)} {members : List (String × Json)}
    (h : List.Forall₂ ReadsAsMember texts members) :
    ∃ trees, List.Forall₂ SpellsMember texts trees ∧
      ∀ depth, freeMembers depth trees = within depth (nestingMembers members) members := by
  induction h with
  | nil => exact ⟨[], .nil, fun depth => (within_zero depth []).symm⟩
  | @cons cs member texts members hmember _ ih =>
      obtain ⟨name, v⟩ := member
      obtain ⟨gap, value, hcs, hgap, t, ht, hfree⟩ := hmember
      obtain ⟨trees, htrees, hfreeMembers⟩ := ih
      refine ⟨(.ofText name, t) :: trees,
        .cons ⟨name, gap, value, hcs, rfl, hgap, ht⟩ htrees, fun depth => ?_⟩
      rw [freeMembers, RawString.text_ofText, nestingMembers, hfree]
      refine within_bind depth _ _ v ?_
      rw [hfreeMembers, within_pure]

theorem readsAs_object {front gap back : List Char} (hfront : IsGap front) (hgap : IsGap gap)
    (hback : IsGap back) {texts : List (List Char)} {members : List (String × Json)}
    (h : List.Forall₂ ReadsAsMember texts members) :
    ReadsAs ('\x7b' :: (front ++ ((',' :: gap).intercalate texts ++ (back ++ ['\x7d']))))
      (.object members) := by
  obtain ⟨trees, htrees, hfree⟩ := exists_trees_of_members h
  refine ⟨_, spells_object hgap hback hfront htrees, fun depth => ?_⟩
  rw [free, hfree, nesting, ← within_succ, ← within_pure]

/-! ### Compact texts -/

mutual

theorem readsAs_compactChars : (v : Json) → v.isIntegral = true → ReadsAs (compactChars v) v
  | .null, _ => readsAs_literal 'n' _ (fun _ => rfl) rfl rfl nofun (fun _ => rfl) rfl
  | .bool true, _ => readsAs_literal 't' _ (fun _ => rfl) rfl rfl nofun (fun _ => rfl) rfl
  | .bool false, _ => readsAs_literal 'f' _ (fun _ => rfl) rfl rfl nofun (fun _ => rfl) rfl
  | .integer _, h => readsAs_integer h
  | .double d, h => by
      obtain rfl : d = { negative := true, units := 0 } := of_decide_eq_true h
      exact readsAs_negativeZero
  | .string s, _ => readsAs_string s
  | .array items, h => by
      have hitems := readsAs_array isGap_nil isGap_nil isGap_nil (readsAs_compactItems items h)
      simpa [compactChars] using hitems
  | .object members, h => by
      have hmembers :=
        readsAs_object isGap_nil isGap_nil isGap_nil (readsAs_compactMembers members h)
      simpa [compactChars] using hmembers

theorem readsAs_compactItems :
    (items : List Json) → areIntegral items = true → List.Forall₂ ReadsAs (compactItems items) items
  | [], _ => .nil
  | v :: vs, h => by
      rw [areIntegral, Bool.and_eq_true] at h
      exact .cons (readsAs_compactChars v h.1) (readsAs_compactItems vs h.2)

theorem readsAs_compactMembers : (members : List (String × Json)) →
    areIntegralMembers members = true →
    List.Forall₂ ReadsAsMember (compactMembers members) members
  | [], _ => .nil
  | (_, v) :: rest, h => by
      rw [areIntegralMembers, Bool.and_eq_true] at h
      exact .cons ⟨[], compactChars v, rfl, isGap_nil, readsAs_compactChars v h.1⟩
        (readsAs_compactMembers rest h.2)

end

/-- The text has no control character, so that it stays on its line. -/
def IsVisible (cs : List Char) : Prop := ∀ c ∈ cs, 32 ≤ c.toNat

instance (cs : List Char) : Decidable (IsVisible cs) := List.decidableBAll _ cs

theorem isVisible_append {cs ds : List Char} (hcs : IsVisible cs) (hds : IsVisible ds) :
    IsVisible (cs ++ ds) :=
  List.forall_mem_append.2 ⟨hcs, hds⟩

theorem isVisible_intercalate {sep : List Char} (hsep : IsVisible sep) {texts : List (List Char)}
    (h : ∀ text ∈ texts, IsVisible text) : IsVisible (sep.intercalate texts) := by
  induction texts with
  | nil => simp [IsVisible]
  | cons text texts ih =>
      obtain ⟨htext, htexts⟩ := List.forall_mem_cons.1 h
      cases texts with
      | nil => rwa [List.intercalate_singleton]
      | cons text' texts =>
          rw [List.intercalate_cons_cons]
          exact isVisible_append (isVisible_append htext hsep) (ih htexts)

theorem isVisible_stringText (s : String) : IsVisible (stringText s) := by
  refine isVisible_append (List.forall_mem_cons.2 ⟨by decide, fun c hc => ?_⟩) (by decide)
  obtain ⟨d, -, hc⟩ := List.mem_flatMap.1 hc
  exact le_toNat_of_mem_escapeChar d c hc

theorem isVisible_integer (n : Int) : IsVisible (toString n).toList := by
  have hdigits : IsVisible (Nat.toDigits 10 n.natAbs) := by
    intro c hc
    have hdigit := isDigit_toDigits _ c hc
    rw [Char.isDigit, Bool.and_eq_true, decide_eq_true_eq] at hdigit
    have hlow : 48 ≤ c.toNat := UInt32.le_iff_toNat_le.1 hdigit.1
    omega
  rw [toList_toString_integer]
  split
  · exact List.forall_mem_cons.2 ⟨by decide, hdigits⟩
  · exact hdigits

mutual

theorem isVisible_compactChars : (v : Json) → v.isIntegral = true → IsVisible (compactChars v)
  | .null, _ => by decide
  | .bool true, _ => by decide
  | .bool false, _ => by decide
  | .integer n, _ => isVisible_integer n
  | .double d, h => by
      obtain rfl : d = { negative := true, units := 0 } := of_decide_eq_true h
      decide
  | .string s, _ => isVisible_stringText s
  | .array items, h =>
      isVisible_append (List.forall_mem_cons.2
        ⟨by decide, isVisible_intercalate (by decide) (isVisible_compactItems items h)⟩) (by decide)
  | .object members, h =>
      isVisible_append (List.forall_mem_cons.2
        ⟨by decide, isVisible_intercalate (by decide) (isVisible_compactMembers members h)⟩)
        (by decide)

theorem isVisible_compactItems : (items : List Json) → areIntegral items = true →
    ∀ text ∈ compactItems items, IsVisible text
  | [], _ => nofun
  | v :: vs, h => by
      rw [areIntegral, Bool.and_eq_true] at h
      exact List.forall_mem_cons.2 ⟨isVisible_compactChars v h.1, isVisible_compactItems vs h.2⟩

theorem isVisible_compactMembers : (members : List (String × Json)) →
    areIntegralMembers members = true → ∀ text ∈ compactMembers members, IsVisible text
  | [], _ => nofun
  | (name, v) :: rest, h => by
      rw [areIntegralMembers, Bool.and_eq_true] at h
      exact List.forall_mem_cons.2 ⟨isVisible_append (isVisible_stringText name)
        (List.forall_mem_cons.2 ⟨by decide, isVisible_compactChars v h.1⟩),
        isVisible_compactMembers rest h.2⟩

end

/-- A text is read as the value that it spells, with its objects ordered. -/
theorem ReadsAs.ofText_eq {s : String} {v : Json} (h : ReadsAs s.toList v) :
    ofText s = (within Tree.maxDepth v.nesting v.toOrdered).mapError .fault := by
  obtain ⟨t, ht, hfree⟩ := h
  simp only [ofText, TreeReader.run, ht.ofText_eq, TreeReader.anything, hfree]
  by_cases hdepth : v.nesting ≤ Tree.maxDepth
  · simp only [within, if_pos hdepth]
    rfl
  · simp only [within, if_neg hdepth]
    rfl

/-- What is read of a compact text is the value that was written, unless it nests too deep. -/
theorem ofText_compact {v : Json} (h : v.isIntegral = true) :
    ofText v.compact = (within Tree.maxDepth v.nesting v.toOrdered).mapError .fault := by
  refine ReadsAs.ofText_eq ?_
  rw [compact, String.toList_ofList]
  exact readsAs_compactChars v h

end HeaderAccord.Json
