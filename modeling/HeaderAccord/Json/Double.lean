/-!
Finite binary64 numbers, by exact arithmetic. A number is its sign and its distance from zero in
units of 2 ^ -1074, the smallest positive double. An operation is its exact result rounded to the
nearest double, a tie going to the even significand.
-/

namespace HeaderAccord

structure Double where
  negative : Bool
  units : Nat
  deriving DecidableEq, Repr

namespace Double

/-- The number of units in one. -/
def one : Nat := Nat.pow 2 1074

/-- The first number of units that is too large for a double. -/
def limit : Nat := Nat.pow 2 2098

/-- Doubles near `n` units lie `2 ^ spacing n` units apart: a significand has 53 bits. -/
def spacing (n : Nat) : Nat := n.log2 + 1 - 53

/-- The quotient rounded to the nearest integer, a tie to the even one. -/
def divRound (num den : Nat) : Nat :=
  let low := num / den
  let rest := num % den
  if 2 * rest < den || (2 * rest = den && low % 2 = 0) then low else low + 1

/-- The units of the double nearest to `num / den` units, without an upper limit. -/
def nearest (num den : Nat) : Nat :=
  let gap := Nat.pow 2 (spacing (num / den))
  divRound num (den * gap) * gap

def ofNat (n : Nat) : Nat := nearest (n * one) 1

/-- The double nearest to a power of ten. -/
def powerOfTen (k : Nat) : Nat := ofNat (Nat.pow 10 k)

def mulUnits (a b : Nat) : Nat := nearest (a * b) one

def divUnits (a b : Nat) : Nat := nearest (a * one) b

/-- The largest power of ten that is a double. -/
def maxPower : Nat := 308

/-- Divides by `10 ^ k`, in steps of the largest power. -/
def scaleDown (units k : Nat) : Nat :=
  if k ≤ maxPower then divUnits units (powerOfTen k)
  else if units = 0 then 0
  else scaleDown (divUnits units (powerOfTen maxPower)) (k - maxPower)
termination_by k
decreasing_by simp only [maxPower] at *; omega

/-- Multiplies by `10 ^ k`, if the result is a double. -/
def scaleUp? (units k : Nat) : Option Nat :=
  if k ≤ maxPower then
    let scaled := mulUnits units (powerOfTen k)
    if scaled < limit then some scaled else none
  else if units = 0 then some 0
  else none

/--
The double read from `significand * 10 ^ exponent`: the significand is rounded first, then the
result of scaling it.
-/
def ofDecimal? (negative : Bool) (significand : Nat) (exponent : Int) : Option Double :=
  let units := ofNat significand
  let scaled :=
    if 0 ≤ exponent then scaleUp? units exponent.toNat
    else some (scaleDown units (-exponent).toNat)
  scaled.map fun u => { negative, units := u }

end Double

end HeaderAccord
