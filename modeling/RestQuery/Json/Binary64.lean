/-!
# Finite doubles

A finite double is a sign and an exact magnitude `significand · 2 ^ exponent`, in the one form in
which every double occurs once.  The two zeros differ in their sign.  Everything is computed in
exact integers.

* `Binary64`               the type, whose significands have 53 bits;
* `Binary64.ofRatio?`      the double nearest to a fraction, none beyond the largest double;
* `Binary64.ofDecimal?`    the double that a word and a power of ten come to, rounded at each step;
* `Binary64.toInt?`        the integer that a double is equal to.
-/

namespace RestQuery.Json

/-- the least number with 53 bits, 2 to the power of 52 -/
def leadingBit : Nat := 4503599627370496

/-- a finite double -/
structure Binary64 where
  negative : Bool
  significand : Nat
  exponent : Int
  significand_lt : significand < 2 * leadingBit
  exponent_ge : -1074 ≤ exponent
  exponent_le : exponent ≤ 971
  normal : exponent = -1074 ∨ leadingBit ≤ significand
deriving DecidableEq

namespace Binary64

/-- the double of these parts, when they are in normal form -/
def ofParts? (negative : Bool) (significand : Nat) (exponent : Int) : Option Binary64 :=
  if h : significand < 2 * leadingBit ∧ -1074 ≤ exponent ∧ exponent ≤ 971 ∧
      (exponent = -1074 ∨ leadingBit ≤ significand) then
    some ⟨negative, significand, exponent, h.1, h.2.1, h.2.2.1, h.2.2.2⟩
  else none

/-- the zero of a sign -/
def zero (negative : Bool) : Binary64 :=
  ⟨negative, 0, -1074, by decide, by decide, by decide, .inl rfl⟩

/-- equal to zero, whatever the sign -/
def isZero (x : Binary64) : Bool := x.significand == 0

/-! ## powers with an integer exponent -/

/-- what a power multiplies the numerator with -/
def powUp (base : Nat) (e : Int) : Nat := Nat.pow base e.toNat

/-- what a power multiplies the denominator with -/
def powDown (base : Nat) (e : Int) : Nat := Nat.pow base (-e).toNat

/-- the natural number nearest to a fraction, a tie to the even one -/
def roundTiesEven (num den : Nat) : Nat :=
  let q := num / den
  let r := num % den
  if 2 * r < den then q
  else if den < 2 * r then q + 1
  else if q % 2 = 0 then q
  else q + 1

/-- the exponent at which a positive fraction has a significand of 53 bits, or the least one -/
def fittingExponent (num den : Nat) : Int :=
  let e : Int := (num.log2 : Int) - (den.log2 : Int) - 53
  let e := if 2 * leadingBit * (den * powUp 2 e) ≤ num * powDown 2 e then e + 1 else e
  if e < -1074 then -1074 else e

/-- the double nearest to a fraction, a tie to the even significand -/
def ofRatio? (negative : Bool) (num den : Nat) : Option Binary64 :=
  if num = 0 then some (zero negative)
  else
    let e := fittingExponent num den
    let m := roundTiesEven (num * powDown 2 e) (den * powUp 2 e)
    if m = 2 * leadingBit then ofParts? negative leadingBit (e + 1) else ofParts? negative m e

/-! ## decimals -/

/-- numerator and denominator of the magnitude -/
def ratio (x : Binary64) : Nat × Nat := (x.significand * powUp 2 x.exponent, powDown 2 x.exponent)

/-- the product with a positive double, rounded -/
def times? (x y : Binary64) : Option Binary64 :=
  ofRatio? x.negative (x.ratio.1 * y.ratio.1) (x.ratio.2 * y.ratio.2)

/-- the quotient by a positive double, rounded -/
def over? (x y : Binary64) : Option Binary64 :=
  ofRatio? x.negative (x.ratio.1 * y.ratio.2) (x.ratio.2 * y.ratio.1)

/-- the greatest power of ten below the largest double -/
def greatestPower : Nat := 308

/-- the double nearest to a power of ten -/
def tenTo? (k : Nat) : Option Binary64 := ofRatio? false (Nat.pow 10 k) 1

/-- a double over the greatest power of ten, so many times, or until it is zero -/
def overGreatest? (x : Binary64) : Nat → Option Binary64
  | 0 => some x
  | n + 1 =>
    if x.isZero then some x
    else do
      let p ← tenTo? greatestPower
      let y ← x.over? p
      y.overGreatest? n

/-- a double over a power of ten, of which the greatest power is taken out as often as needed -/
def overTenTo? (x : Binary64) (k : Nat) : Option Binary64 := do
  let n := (k - 1) / greatestPower
  let y ← x.overGreatest? n
  let p ← tenTo? (k - n * greatestPower)
  y.over? p

/-- a double times a power of ten, none beyond the largest double -/
def timesTenTo? (x : Binary64) (k : Nat) : Option Binary64 :=
  if k ≤ greatestPower then (tenTo? k).bind x.times?
  else if x.isZero then some x
  else none

/--
the double that `word · 10 ^ power` comes to.  The word is rounded first and then what it comes to
with each power of ten, which is rounded itself; so the double need not be the nearest one.  From
`9007199254740991.0`, for one, comes `9007199254740990`.
-/
def ofDecimal? (negative : Bool) (word : Nat) (power : Int) : Option Binary64 := do
  let x ← ofRatio? negative word 1
  if 0 ≤ power then x.timesTenTo? power.natAbs else x.overTenTo? power.natAbs

/-! ## whole numbers -/

/-- the magnitude as a natural number, when it is one -/
def magnitude? (x : Binary64) : Option Nat :=
  let num := x.significand * powUp 2 x.exponent
  let den := powDown 2 x.exponent
  if num % den = 0 then some (num / den) else none

/-- the integer that a double is equal to; both zeros are equal to `0` -/
def toInt? (x : Binary64) : Option Int :=
  x.magnitude?.map fun n => if x.negative then -(n : Int) else n

end Binary64

end RestQuery.Json
