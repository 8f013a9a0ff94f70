import RestQuery.Json.Numeral
import RestQuery.Json.Binary64

/-!
# The shortest literal of a double

The decimals to which a double is the nearest one lie in an interval around it; the ends belong to
the interval exactly when the significand is even.  The literal has the fewest digits that a
decimal of the interval can have, and of those decimals it is the nearest one.

On the grid of decimals with a given number of digits only the two neighbours of the double have
to be looked at: if any point of the grid lies in the interval, so does one of the two.

* `Binary64.shortest`   digits and power of ten of that decimal;
* `Binary64.numeral`    the literal, positional or with a power of ten.
-/

namespace RestQuery.Json.Binary64

/-! ## the interval of a double, in quarters of its last place -/

/-- four times the significand, the double itself -/
def centre (x : Binary64) : Nat := 4 * x.significand

/-- below a power of two the doubles lie twice as dense -/
def lower (x : Binary64) : Nat :=
  if x.significand = leadingBit ∧ -1074 < x.exponent then x.centre - 1 else x.centre - 2

def upper (x : Binary64) : Nat := x.centre + 2

/-- numerator and denominator of `quarters` fourths of the last place, over `10 ^ k` -/
def overPower (x : Binary64) (quarters : Nat) (k : Int) : Nat × Nat :=
  (quarters * powUp 2 (x.exponent - 2) * powDown 10 k,
   powDown 2 (x.exponent - 2) * powUp 10 k)

/-- whether the double is the one nearest to `d · 10 ^ k` -/
def roundsBack (x : Binary64) (d : Nat) (k : Int) : Bool :=
  let (lo, den) := x.overPower x.lower k
  let (hi, _) := x.overPower x.upper k
  if x.significand % 2 = 0 then lo ≤ d * den && d * den ≤ hi
  else lo < d * den && d * den < hi

/-! ## digits -/

/-- how many decimal digits a natural number has -/
def digitCount (n : Nat) : Nat := (Nat.toDigits 10 n).length

/-- the power of ten of the first digit of a double other than zero -/
def leadingPower (x : Binary64) : Int :=
  let (num, den) := x.overPower x.centre (-400)
  (digitCount (num / den) : Int) - 401

/-- the neighbour on the grid of multiples of `10 ^ k` that rounds to the double, the nearer of two -/
def neighbour? (x : Binary64) (k : Int) : Option Nat :=
  let (num, den) := x.overPower x.centre k
  let d := num / den
  match x.roundsBack d k, x.roundsBack (d + 1) k with
  | false, false => none
  | true, false => some d
  | false, true => some (d + 1)
  | true, true =>
    let r := num % den
    if 2 * r < den ∨ (2 * r = den ∧ d % 2 = 0) then some d else some (d + 1)

/-- seventeen digits always suffice -/
def shortest (x : Binary64) : Nat × Int :=
  let p := x.leadingPower
  let found := (List.range 17).findSome? fun (i : Nat) =>
    (x.neighbour? (p - i)).map fun d => (d, p - i)
  found.getD (0, p)

def zeroDigit : Fin 10 := ⟨0, by decide⟩

/-- the digits of a natural number, without the zeros at its end -/
def significantDigits (n : Nat) : List (Fin 10) :=
  ((Numeral.digits n).reverse.dropWhile (· == zeroDigit)).reverse

/-! ## the literal -/

/-- the powers of ten of a first digit that are written without an exponent -/
def isPositional (p : Int) : Bool := -5 ≤ p && p ≤ 15

/-- digits whose first has the power `p`, with a digit on either side of the point -/
def positional (negative : Bool) (ds : List (Fin 10)) (p : Int) : Numeral :=
  if p < 0 then
    { negative, whole := 0, fraction := List.replicate ((-p).toNat - 1) zeroDigit ++ ds }
  else
    let n := p.toNat + 1
    let whole := ds.take n ++ List.replicate (n - ds.length) zeroDigit
    let fraction := if ds.length ≤ n then [zeroDigit] else ds.drop n
    { negative, whole := Numeral.appendDigits 0 whole, fraction }

/-- digits whose first has the power `p`, the first one in front of the point -/
def exponential (negative : Bool) (ds : List (Fin 10)) (p : Int) : Numeral :=
  { negative
    whole := Numeral.appendDigits 0 (ds.take 1)
    fraction := ds.drop 1
    exponent := some p }

/-- the literal of a double -/
def numeral (x : Binary64) : Numeral :=
  if x.isZero then { negative := x.negative, whole := 0, fraction := [zeroDigit] }
  else
    let (d, k) := x.shortest
    let p := k + (digitCount d : Int) - 1
    if isPositional p then positional x.negative (significantDigits d) p
    else exponential x.negative (significantDigits d) p

end RestQuery.Json.Binary64
