import RestQuery.Json.Shortest

/-!
# Numbers

What a number literal means: an integer that a signed or an unsigned word of 64 bits can hold, or
a finite double.

* `Number.ofNumeral?`   the number of a literal, none when it lies beyond every double;
* `Number.numeral`      the literal that a number is written as.
-/

namespace RestQuery.Json

/-- the integers of a signed or an unsigned 64-bit word -/
def FitsWord (i : Int) : Prop := -9223372036854775808 ≤ i ∧ i < 18446744073709551616

instance (i : Int) : Decidable (FitsWord i) := inferInstanceAs (Decidable (_ ∧ _))

/-- a number -/
inductive Number where
  | int (value : Int) (fits : FitsWord value)
  | float (value : Binary64)
deriving DecidableEq

namespace Number

/-- the integer of a literal without point and power; minus zero is no integer -/
def intOf? (n : Numeral) : Option Number :=
  if n.fraction = [] ∧ n.exponent = none ∧ ¬ (n.negative = true ∧ n.whole = 0) then
    if h : FitsWord n.signedWhole then some (.int n.signedWhole h) else none
  else none

/-- the double of a literal, from the digits that a word holds -/
def floatOf? (n : Numeral) : Option Number :=
  (Binary64.ofDecimal? n.negative n.leading.1 n.leading.2).map .float

/-- the number of a literal: an integer where it can be one, else a double -/
def ofNumeral? (n : Numeral) : Option Number := (intOf? n).or (floatOf? n)

/-- the literal of a number -/
def numeral : Number → Numeral
  | .int i _ => Numeral.ofInt i
  | .float x => x.numeral

theorem intOf?_ofInt (i : Int) (h : FitsWord i) : intOf? (Numeral.ofInt i) = some (.int i h) := by
  have hw : (Numeral.ofInt i).signedWhole = i := Numeral.signedWhole_ofInt i
  have hz : ¬ ((Numeral.ofInt i).negative = true ∧ (Numeral.ofInt i).whole = 0) := by
    simp only [Numeral.ofInt, decide_eq_true_eq]; omega
  have hf : FitsWord (Numeral.ofInt i).signedWhole := by rw [hw]; exact h
  rw [intOf?, if_pos ⟨rfl, rfl, hz⟩, dif_pos hf]
  simp only [hw]

theorem ofNumeral?_numeral_int (i : Int) (h : FitsWord i) :
    ofNumeral? (Number.int i h).numeral = some (.int i h) := by
  rw [numeral, ofNumeral?, intOf?_ofInt i h, Option.some_or]

/-- equal to zero: the integer or one of the two doubles -/
def isZero : Number → Bool
  | .int i _ => i == 0
  | .float x => x.isZero

/-- the natural number that an integer is, if it is not negative -/
def toNat? : Number → Option Nat
  | .int i _ => if 0 ≤ i then some i.toNat else none
  | .float _ => none

end Number

end RestQuery.Json
