import HeaderAccord.Json.Fault
import HeaderAccord.Json.Value

/-!
Numbers as written in a JSON text, and their values. A number without fraction and exponent that
fits 64 bits is an integer; every other is a double, and so is `-0`.
-/

namespace HeaderAccord.Json

structure Numeral where
  negative : Bool
  whole : List Nat
  fraction : List Nat
  /-- the sign of the exponent (`true` for minus) and its digits -/
  exponent : Option (Bool × List Nat)
  deriving DecidableEq, Repr

def digit? (c : Char) : Option Nat := if c.isDigit then some (c.toNat - '0'.toNat) else none

/-- The digits at the front of a text, and what follows them. -/
def digits : List Char → List Nat × List Char
  | [] => ([], [])
  | c :: cs =>
    match digit? c with
    | some d =>
      let (ds, rest) := digits cs
      (d :: ds, rest)
    | none => ([], c :: cs)

theorem length_digits_add (cs : List Char) :
    (digits cs).1.length + (digits cs).2.length = cs.length := by
  induction cs with
  | nil => simp [digits]
  | cons c cs ih =>
    rw [digits]
    split
    · simp only [List.length_cons]; omega
    · simp

namespace Numeral

/-- Digits that have to follow. -/
def someDigits (cs : List Char) : Except Fault (List Nat × List Char) :=
  if (digits cs).1.isEmpty then .error (if cs.isEmpty then .numberCutOff else .badNumber)
  else .ok (digits cs)

def startsWithDigit (cs : List Char) : Bool := cs.head?.any (·.isDigit)

/-- The digits before the point: a zero stands alone. -/
def wholePart : List Char → Except Fault (List Nat × List Char)
  | '0' :: cs => if startsWithDigit cs then .error .badNumber else .ok ([0], cs)
  | cs => someDigits cs

def fractionPart : List Char → Except Fault (List Nat × List Char)
  | '.' :: cs => someDigits cs
  | cs => .ok ([], cs)

/-- Takes the sign off a text: whether it is a minus, and what follows. -/
def sign : List Char → Bool × List Char
  | '+' :: cs => (false, cs)
  | '-' :: cs => (true, cs)
  | cs => (false, cs)

def exponentPart : List Char → Except Fault (Option (Bool × List Nat) × List Char)
  | [] => .ok (none, [])
  | e :: cs =>
    if e = 'e' || e = 'E' then
      (someDigits (sign cs).2).map fun (ds, rest) => (some ((sign cs).1, ds), rest)
    else .ok (none, e :: cs)

/-- Reads a number after its sign. -/
def ofUnsigned (negative : Bool) (cs : List Char) : Except Fault (Numeral × List Char) := do
  let (whole, afterWhole) ← wholePart cs
  let (fraction, afterFraction) ← fractionPart afterWhole
  let (exponent, rest) ← exponentPart afterFraction
  return ({ negative, whole, fraction, exponent }, rest)

theorem length_lt_of_someDigits {cs rest : List Char} {ds : List Nat}
    (h : someDigits cs = .ok (ds, rest)) : rest.length < cs.length := by
  have hsum := length_digits_add cs
  rw [someDigits] at h
  split at h
  · simp at h
  · next hne =>
    simp only [Except.ok.injEq] at h
    simp only [h] at hsum hne
    cases ds with
    | nil => simp at hne
    | cons d ds => simp only [List.length_cons] at hsum; omega

theorem length_lt_of_wholePart {cs rest : List Char} {ds : List Nat}
    (h : wholePart cs = .ok (ds, rest)) : rest.length < cs.length := by
  unfold wholePart at h
  split at h
  · split at h
    · simp at h
    · simp_all
  · exact length_lt_of_someDigits h

theorem length_le_of_fractionPart {cs rest : List Char} {ds : List Nat}
    (h : fractionPart cs = .ok (ds, rest)) : rest.length ≤ cs.length := by
  unfold fractionPart at h
  split at h
  · have := length_lt_of_someDigits h
    simp only [List.length_cons]
    omega
  · simp_all

theorem length_sign_le (cs : List Char) : (sign cs).2.length ≤ cs.length := by
  unfold sign
  split <;> simp

theorem length_le_of_exponentPart {cs rest : List Char} {e : Option (Bool × List Nat)}
    (h : exponentPart cs = .ok (e, rest)) : rest.length ≤ cs.length := by
  unfold exponentPart at h
  split at h
  · simp_all
  · next c cs =>
    split at h
    · have hsign := length_sign_le cs
      match hd : someDigits (sign cs).2 with
      | .error f => simp [hd, Except.map] at h
      | .ok (ds, r) =>
        have := length_lt_of_someDigits hd
        simp only [hd, Except.map, Except.ok.injEq, Prod.mk.injEq] at h
        obtain ⟨-, rfl⟩ := h
        simp only [List.length_cons]
        omega
    · simp_all

theorem length_lt_of_ofUnsigned {negative : Bool} {cs rest : List Char} {n : Numeral}
    (h : ofUnsigned negative cs = .ok (n, rest)) : rest.length < cs.length := by
  simp only [ofUnsigned, bind, Except.bind, pure, Except.pure] at h
  split at h
  · simp at h
  · next hw =>
    split at h
    · simp at h
    · next hf =>
      split at h
      · simp at h
      · next he =>
        have h1 := length_lt_of_wholePart hw
        have h2 := length_le_of_fractionPart hf
        have h3 := length_le_of_exponentPart he
        simp only [Except.ok.injEq, Prod.mk.injEq] at h
        obtain ⟨-, rfl⟩ := h
        omega

/-- The largest integer of 64 bits. -/
def maxWord : Nat := Nat.pow 2 64 - 1

/-- The largest exponent that is counted; a longer one only has a sign. -/
def maxExponent : Nat := Nat.pow 2 31 - 1

/-- Appends digits to a number as long as it stays within `max`, and counts those left over. -/
def absorb (max : Nat) : (n : Nat) → List Nat → Nat × Nat
  | n, [] => (n, 0)
  | n, d :: ds => if n * 10 + d ≤ max then absorb max (n * 10 + d) ds else (n, ds.length + 1)

def doubleOf (negative : Bool) (significand : Nat) (exponent : Int) : Except Fault Json :=
  match Double.ofDecimal? negative significand exponent with
  | some d => .ok (.double d)
  | none => .error .numberTooLarge

def integerOf (negative : Bool) (n : Nat) : Except Fault Json :=
  if !negative then .ok (.integer n)
  else if n = 0 || Nat.pow 2 63 < n then doubleOf true n 0
  else .ok (.integer (-(n : Int)))

/--
The value of a number. Digits of the whole part beyond 64 bits only count as powers of ten, and
such digits of the fraction not at all.
-/
def value (n : Numeral) : Except Fault Json :=
  let (whole, overflow) := absorb maxWord 0 n.whole
  let (significand, unread) := absorb maxWord whole n.fraction
  let point : Int := (overflow : Int) - (n.fraction.length - unread : Nat)
  match n.exponent with
  | none =>
    if overflow = 0 && n.fraction.isEmpty then integerOf n.negative significand
    else doubleOf n.negative significand point
  | some (minus, ds) =>
    match absorb maxExponent 0 ds with
    | (e, 0) => doubleOf n.negative significand (if minus then point - e else point + e)
    | _ =>
      if significand ≠ 0 && !minus then .error .numberTooLarge
      else .ok (.double { negative := n.negative, units := 0 })

end Numeral

end HeaderAccord.Json
