import HeaderAccord.Json.Double

/-!
The text of a double: the fewest digits that read back as it and, of those, the nearest to it.
-/

namespace HeaderAccord.Double

/--
The point of the decimal grid `10 ^ k` that reads back as the double, if there is one; of two, the
nearer, and a tie goes to the even one. Distances are counted in quarters of a unit, so that the
ends of the interval that rounds to the double are whole numbers; they belong to it when the
significand is even.
-/
def gridPoint? (units : Nat) (k : Int) : Option Nat :=
  let gap := Nat.pow 2 (spacing units)
  let significand := units / gap
  let up := 2 * gap
  let down := if significand = Nat.pow 2 52 && 1 < gap then gap else 2 * gap
  let scale := Nat.pow 10 (-k).toNat
  let step := Nat.pow 10 k.toNat * (4 * one)
  let low := 4 * units * scale / step
  let toLow := 4 * units * scale % step
  let toHigh := step - toLow
  let reads (distance reach : Nat) : Bool :=
    distance < reach * scale || (distance = reach * scale && significand % 2 = 0)
  match reads toLow down, reads toHigh up with
  | true, true =>
    some (if toLow < toHigh || (toLow = toHigh && low % 2 = 0) then low else low + 1)
  | true, false => some low
  | false, true => some (low + 1)
  | false, false => none

/-- The exponents of the decimal grids, from the coarsest to one finer than any double needs. -/
def grids : List Int := (List.range 660).map fun i : Nat => 309 - (i : Int)

/-- The digits of a positive double and the exponent of its last digit. -/
def shortest (units : Nat) : Nat × Int :=
  (grids.findSome? fun k => (gridPoint? units k).map fun n => (n, k)).getD (units, -1074)

/-- No exponent is written when the leading digit stands for `10 ^ -5` up to `10 ^ 15`. -/
def isPositional (leading : Int) : Bool := -5 ≤ leading && leading ≤ 15

/-- An exponent always has a sign. -/
def exponentText (e : Int) : String := (if e < 0 then "e-" else "e+") ++ toString e.natAbs

def zeros (n : Nat) : String := String.ofList (List.replicate n '0')

def magnitudeText (units : Nat) : String :=
  if units = 0 then "0.0"
  else
    let (n, last) := shortest units
    let digits := (toString n).toList
    let leading := last + digits.length - 1
    if isPositional leading then
      if 0 ≤ last then String.ofList digits ++ zeros last.toNat ++ ".0"
      else if 0 ≤ leading then
        let whole := (leading + 1).toNat
        String.ofList (digits.take whole) ++ "." ++ String.ofList (digits.drop whole)
      else "0." ++ zeros (-leading - 1).toNat ++ String.ofList digits
    else
      let fraction := digits.drop 1
      String.ofList (digits.take 1) ++
        (if fraction.isEmpty then "" else "." ++ String.ofList fraction) ++ exponentText leading

/-- A whole number keeps `.0`, and a zero keeps its sign. -/
def text (d : Double) : String := (if d.negative then "-" else "") ++ magnitudeText d.units

end HeaderAccord.Double
