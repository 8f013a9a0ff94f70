/-!
# Number literals

A number literal of a JSON text, kept as it is written: sign, whole part, digits after the point,
power of ten.  Leading zeros of an exponent and the spelling of its sign are the only things that
are not kept, since they never change what the literal says.

* `Numeral`         the type;
* `Numeral.chars`   the text of a literal;
* `Numeral.read`    the literal that a text starts with, and what follows it;
* `Numeral.leading`   the digits that a word holds, and the power of ten that they stand for.
-/

namespace RestQuery.Json

/-- a number literal -/
structure Numeral where
  negative : Bool
  whole : Nat
  fraction : List (Fin 10) := []
  exponent : Option Int := none
deriving DecidableEq, Inhabited

namespace Numeral

/-! ## integers -/

/-- an integer as a literal -/
def ofInt (i : Int) : Numeral := { negative := i < 0, whole := i.natAbs }

/-- the whole part with its sign -/
def signedWhole (n : Numeral) : Int := if n.negative then -(n.whole : Int) else n.whole

theorem signedWhole_ofInt (i : Int) : (ofInt i).signedWhole = i := by
  unfold signedWhole ofInt
  simp only [decide_eq_true_eq]
  split <;> omega

/-! ## digits -/

/-- the character of a digit -/
def digitChar (d : Fin 10) : Char := Nat.digitChar d.val

/-- the digit of a character that is one -/
def charDigit (c : Char) : Fin 10 := Fin.ofNat 10 (c.toNat - '0'.toNat)

theorem charDigit_digitChar (d : Fin 10) : charDigit (digitChar d) = d := by
  revert d; decide

theorem isDigit_digitChar (d : Fin 10) : (digitChar d).isDigit = true := by
  revert d; decide

/-- the digits of a natural number, the first one in front -/
def digits (n : Nat) : List (Fin 10) := (Nat.toDigits 10 n).map charDigit

/-- the number that a row of digits continues, ten times the old one plus each digit -/
def appendDigits (n : Nat) (ds : List (Fin 10)) : Nat := ds.foldl (fun m d => 10 * m + d.val) n

/-- the numbers below are the words of 64 bits -/
def wordLimit : Nat := 18446744073709551616

/-- the number that digits continue up to the first one with which it is no word, and how many
digits are left over -/
def fillWord (n : Nat) : List (Fin 10) → Nat × Nat
  | [] => (n, 0)
  | d :: ds =>
    if 10 * n + d.val < wordLimit then fillWord (10 * n + d.val) ds else (n, ds.length + 1)

/--
the digits of the literal that a word holds, and the power of ten that they stand for.  Digits
left over in the whole part count as zeros, those in the fraction do not count at all; and the
fraction goes on filling the word even when the whole part has digits left over.
-/
def leading (n : Numeral) : Nat × Int :=
  let (whole, zeros) := fillWord 0 (digits n.whole)
  let (word, ignored) := fillWord whole n.fraction
  (word, zeros - (n.fraction.length - ignored : Nat) + n.exponent.getD 0)

/-! ## text -/

/-- a power of ten always carries its sign -/
def exponentChars (e : Int) : List Char :=
  'e' :: (if e < 0 then '-' else '+') :: Nat.toDigits 10 e.natAbs

/-- the text of a literal -/
def chars (n : Numeral) : List Char :=
  (if n.negative then ['-'] else []) ++ Nat.toDigits 10 n.whole ++
    (if n.fraction.isEmpty then [] else '.' :: n.fraction.map digitChar) ++
    (match n.exponent with
     | none => []
     | some e => exponentChars e)

/-- the text of a literal as a string -/
def text (n : Numeral) : String := String.ofList n.chars

/-! ## reading -/

/-- the digits that a text starts with, and the rest -/
def digitRun (s : List Char) : List Char × List Char :=
  (s.takeWhile Char.isDigit, s.dropWhile Char.isDigit)

/-- at least one digit, and no zero in front of another digit -/
def readWhole (s : List Char) : Option (Nat × List Char) :=
  match digitRun s with
  | ([], _) => none
  | ('0' :: _ :: _, _) => none
  | (ds, r) => some (Nat.ofDigitChars 10 ds 0, r)

/-- a point needs a digit after it; without a point there are no digits -/
def readFraction : List Char → Option (List (Fin 10) × List Char)
  | '.' :: s =>
    match digitRun s with
    | ([], _) => none
    | (ds, r) => some (ds.map charDigit, r)
  | s => some ([], s)

/-- the digits of a power of ten, at least one -/
def readPower (negative : Bool) (s : List Char) : Option (Option Int × List Char) :=
  match digitRun s with
  | ([], _) => none
  | (ds, r) =>
    let n : Int := Nat.ofDigitChars 10 ds 0
    some (some (if negative then -n else n), r)

/-- the letter of a power of ten, an optional sign, digits -/
def readExponent : List Char → Option (Option Int × List Char)
  | c :: s =>
    if c = 'e' ∨ c = 'E' then
      match s with
      | '-' :: r => readPower true r
      | '+' :: r => readPower false r
      | r => readPower false r
    else some (none, c :: s)
  | [] => some (none, [])

/-- a literal without its sign -/
def readMagnitude (negative : Bool) (s : List Char) : Option (Numeral × List Char) := do
  let (whole, s) ← readWhole s
  let (fraction, s) ← readFraction s
  let (exponent, s) ← readExponent s
  return ({ negative, whole, fraction, exponent }, s)

/-- the literal that a text starts with, and what follows it -/
def read : List Char → Option (Numeral × List Char)
  | '-' :: s => readMagnitude true s
  | s => readMagnitude false s

end Numeral

end RestQuery.Json
