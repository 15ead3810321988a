import HeaderAccord.Json.Token

/-!
Integers as they are written and read. An integer is written as its digits, with a minus in front if
it is negative; it is read back as itself if it fits 64 bits and nothing behind it goes on the
number.
-/

namespace HeaderAccord.Json

/-- What follows a number does not go on it. -/
def EndsNumber (rest : List Char) : Prop :=
  ∀ c ∈ rest.head?, c.isDigit = false ∧ c ≠ '.' ∧ c ≠ 'e' ∧ c ≠ 'E'

theorem endsNumber_nil : EndsNumber [] := nofun

theorem endsNumber_cons {c : Char} (h : c.isDigit = false ∧ c ≠ '.' ∧ c ≠ 'e' ∧ c ≠ 'E')
    (rest : List Char) : EndsNumber (c :: rest) := by
  rintro _ ⟨⟩
  exact h

def digitValue (c : Char) : Nat := c.toNat - '0'.toNat

theorem digits_append {ds rest : List Char} (hds : ∀ c ∈ ds, c.isDigit = true)
    (hrest : EndsNumber rest) : digits (ds ++ rest) = (ds.map digitValue, rest) := by
  induction ds with
  | nil =>
      cases rest with
      | nil => rfl
      | cons c rest => simp [digits, digit?, (hrest c rfl).1]
  | cons c ds ih =>
      obtain ⟨hc, hds⟩ := List.forall_mem_cons.1 hds
      rw [List.cons_append, digits, ih hds]
      simp [digit?, hc, digitValue]

/-! ### The digits of a number -/

theorem isDigit_toDigits (n : Nat) : ∀ c ∈ Nat.toDigits 10 n, c.isDigit = true :=
  fun _ hc => Nat.isDigit_of_mem_toDigits (by decide) (by decide) hc

/-- Only zero is written with a zero in front. -/
theorem head?_toDigits {n : Nat} (hn : n ≠ 0) : (Nat.toDigits 10 n).head? ≠ some '0' := by
  induction n using Nat.strongRecOn with
  | ind n ih =>
    rw [Nat.toDigits_eq_if (by decide)]
    split
    · next hlt =>
      have hdigit : ∀ d < 10, d ≠ 0 → d.digitChar ≠ '0' := by decide
      simpa using hdigit n hlt hn
    · next hle =>
      have hhead := ih (n / 10) (by omega) (by omega)
      cases hcs : Nat.toDigits 10 (n / 10) with
      | nil => exact absurd hcs Nat.toDigits_ne_nil
      | cons c cs => rwa [hcs] at hhead

theorem absorb_of_le {max : Nat} (cs : List Char) {n : Nat}
    (h : Nat.ofDigitChars 10 cs n ≤ max) :
    Numeral.absorb max n (cs.map digitValue) = (Nat.ofDigitChars 10 cs n, 0) := by
  induction cs generalizing n with
  | nil => rfl
  | cons c cs ih =>
      rw [Nat.ofDigitChars_cons] at h ⊢
      have hle : 10 * n + digitValue c ≤ Nat.ofDigitChars 10 cs (10 * n + digitValue c) := by
        rw [Nat.ofDigitChars_eq_ofDigitChars_zero]
        exact Nat.le_add_right_of_le (Nat.le_mul_of_pos_left _ (Nat.pow_pos (by decide)))
      have hstep : n * 10 + digitValue c = 10 * n + digitValue c := by rw [Nat.mul_comm]
      rw [List.map_cons, Numeral.absorb, hstep, if_pos (Nat.le_trans hle h)]
      exact ih h

namespace Numeral

/-- The numeral that an integer is written as. -/
def ofInteger (n : Int) : Numeral where
  negative := n < 0
  whole := (Nat.toDigits 10 n.natAbs).map digitValue
  fraction := []
  exponent := none

theorem ofUnsigned_toDigits (negative : Bool) (n : Nat) {rest : List Char}
    (hrest : EndsNumber rest) :
    ofUnsigned negative (Nat.toDigits 10 n ++ rest) =
      .ok ({ negative, whole := (Nat.toDigits 10 n).map digitValue, fraction := []
             exponent := none }, rest) := by
  have hwhole : wholePart (Nat.toDigits 10 n ++ rest) =
      .ok ((Nat.toDigits 10 n).map digitValue, rest) := by
    by_cases hn : n = 0
    · subst hn
      have hstart : startsWithDigit rest = false := by
        cases rest with
        | nil => rfl
        | cons c rest => simpa [startsWithDigit] using (hrest c rfl).1
      simp [wholePart, hstart, digitValue]
    · have hhead := head?_toDigits hn
      have hdigits := digits_append (isDigit_toDigits n) hrest
      cases hcs : Nat.toDigits 10 n with
      | nil => exact absurd hcs Nat.toDigits_ne_nil
      | cons c cs =>
          rw [hcs] at hhead hdigits
          rw [List.cons_append, wholePart]
          · rw [someDigits, ← List.cons_append, hdigits]
            rfl
          · intro cs' hcs'
            exact hhead (congrArg List.head? hcs')
  have hfraction : fractionPart rest = .ok ([], rest) := by
    rw [fractionPart]
    rintro cs rfl
    exact (hrest '.' rfl).2.1 rfl
  have hexponent : exponentPart rest = .ok (none, rest) := by
    cases rest with
    | nil => rfl
    | cons c rest =>
        obtain ⟨-, -, he, hE⟩ := hrest c rfl
        simp [exponentPart, he, hE]
  rw [ofUnsigned, hwhole]
  simp only [bind, Except.bind, hfraction, hexponent]
  rfl

/-- The integers of 64 bits, with or without a sign. -/
def fits (n : Int) : Bool := -0x8000000000000000 ≤ n && n < 0x10000000000000000

theorem value_ofInteger {n : Int} (h : fits n = true) : (ofInteger n).value = .ok (.integer n) := by
  rw [fits, Bool.and_eq_true, decide_eq_true_eq, decide_eq_true_eq] at h
  have hmax : maxWord = 18446744073709551615 := rfl
  have hnat : Nat.ofDigitChars 10 (Nat.toDigits 10 n.natAbs) 0 = n.natAbs :=
    Nat.ofDigitChars_toDigits (by decide) (by decide)
  have hle : Nat.ofDigitChars 10 (Nat.toDigits 10 n.natAbs) 0 ≤ maxWord := by
    rw [hnat, hmax]
    omega
  have habsorb := absorb_of_le (Nat.toDigits 10 n.natAbs) hle
  rw [hnat] at habsorb
  have hinteger : (ofInteger n).value = integerOf (n < 0) n.natAbs := by
    simp [value, ofInteger, habsorb, absorb]
  have hpow : Nat.pow 2 63 = 9223372036854775808 := rfl
  rw [hinteger, integerOf]
  by_cases hneg : n < 0
  · have hrange : (n.natAbs = 0 || Nat.pow 2 63 < n.natAbs) = false := by
      rw [hpow, Bool.or_eq_false_iff, decide_eq_false_iff_not, decide_eq_false_iff_not]
      omega
    simp only [hneg, decide_true, Bool.not_true, Bool.false_eq_true, if_false, hrange]
    rw [Int.ofNat_natAbs_of_nonpos (by omega), Int.neg_neg]
  · have habs : (n.natAbs : Int) = n := Int.natAbs_of_nonneg (by omega)
    simp only [hneg, decide_false, Bool.not_false, if_true, habs]

end Numeral

/-! ### The token of an integer -/

theorem toList_toString_integer (n : Int) :
    (toString n).toList =
      if n < 0 then '-' :: Nat.toDigits 10 n.natAbs else Nat.toDigits 10 n.natAbs := by
  cases n with
  | ofNat m =>
      rw [if_neg (by simp)]
      simp [toString, Int.repr, Nat.repr_eq_ofList_toDigits]
  | negSucc m =>
      rw [if_pos (Int.negSucc_lt_zero m)]
      simp [toString, Int.repr, Nat.repr_eq_ofList_toDigits]

namespace Token

theorem startingWith_of_isDigit {c : Char} (h : c.isDigit = true) (cs : List Char) :
    startingWith c cs = numeral false (c :: cs) := by
  unfold startingWith
  split <;> first | exact absurd h (by decide) | exact if_pos h

/-- The token that a written integer starts with is all of it. -/
theorem startingWith_integer (n : Int) {rest : List Char} (hrest : EndsNumber rest) :
    ∃ c cs, (toString n).toList = c :: cs ∧ isJsonBlank c = false ∧
      startingWith c (cs ++ rest) = (.number (.ofInteger n), rest) := by
  have hread (negative : Bool) : numeral negative (Nat.toDigits 10 n.natAbs ++ rest) =
      (.number { negative, whole := (Nat.toDigits 10 n.natAbs).map digitValue, fraction := []
                 exponent := none }, rest) := by
    rw [numeral, Numeral.ofUnsigned_toDigits negative n.natAbs hrest]
  rw [toList_toString_integer]
  by_cases hneg : n < 0
  · refine ⟨'-', Nat.toDigits 10 n.natAbs, if_pos hneg, by decide, ?_⟩
    rw [startingWith, hread, Numeral.ofInteger, decide_eq_true hneg]
  · rw [if_neg hneg]
    cases hcs : Nat.toDigits 10 n.natAbs with
    | nil => exact absurd hcs Nat.toDigits_ne_nil
    | cons c cs =>
        have hc : c.isDigit = true := isDigit_toDigits n.natAbs c (by simp [hcs])
        refine ⟨c, cs, rfl, ?_, ?_⟩
        · cases hblank : isJsonBlank c with
          | false => rfl
          | true =>
              simp only [isJsonBlank, Bool.or_eq_true, decide_eq_true_eq] at hblank
              rcases hblank with ((rfl | rfl) | rfl) | rfl <;> exact absurd hc (by decide)
        · have hread' := hread false
          rw [hcs, List.cons_append] at hread'
          rw [startingWith_of_isDigit hc, hread', Numeral.ofInteger, hcs, decide_eq_false hneg]

end Token

end HeaderAccord.Json
