import RestQuery.Json.CodePoint
import RestQuery.Text.Hex

/-!
# String literals

Writing escapes the quote, the backslash and the control characters below U+0020; reading knows
every escape of the format.

* `Quoted.write`   the literal of a list of code points, with its quotes;
* `Quoted.read`    the code points of a literal whose opening quote has been read, and what follows
                   the closing quote.
-/

namespace RestQuery.Json.Quoted

/-! ## units in hexadecimal -/

/-- four digits, lower-case letters -/
def hexChars (u : Nat) : List Char :=
  [Hex.lower (u / 4096 % 16), Hex.lower (u / 256 % 16), Hex.lower (u / 16 % 16),
   Hex.lower (u % 16)]

/-- the unit of four digits -/
def hexUnit? (a b c d : Char) : Option Nat := do
  let a ← Hex.value? a
  let b ← Hex.value? b
  let c ← Hex.value? c
  let d ← Hex.value? d
  return 4096 * a + 256 * b + 16 * c + d

/-! ## writing -/

/-- the letter of a short escape -/
def shortEscape? (c : Char) : Option Char :=
  if c = '"' then some '"'
  else if c = '\\' then some '\\'
  else if c = '\x08' then some 'b'
  else if c = '\x0c' then some 'f'
  else if c = '\n' then some 'n'
  else if c = '\r' then some 'r'
  else if c = '\t' then some 't'
  else none

/-- the escape of a unit -/
def unitEscape (u : Nat) : List Char := '\\' :: 'u' :: hexChars u

/-- a code point as it stands between the quotes -/
def writePoint : CodePoint → List Char
  | .scalar c =>
    match shortEscape? c with
    | some e => ['\\', e]
    | none => if c.toNat < 0x20 then unitEscape c.toNat else [c]
  | .high h => unitEscape (0xD800 + h.val)
  | .low l => unitEscape (0xDC00 + l.val)

/-- a literal with its quotes -/
def write (cs : List CodePoint) : List Char := '"' :: cs.flatMap writePoint ++ ['"']

/-! ## reading -/

/-- the character of a short escape; the slash has one too, though it is written as it is -/
def ofShortEscape? (e : Char) : Option Char :=
  if e = '"' then some '"'
  else if e = '\\' then some '\\'
  else if e = '/' then some '/'
  else if e = 'b' then some '\x08'
  else if e = 'f' then some '\x0c'
  else if e = 'n' then some '\n'
  else if e = 'r' then some '\r'
  else if e = 't' then some '\t'
  else none

/-- put a code point in front of what was read after it -/
def consPoint (p : CodePoint) (r : List CodePoint × List Char) : List CodePoint × List Char :=
  (p :: r.1, r.2)

/-- the code points up to the closing quote, and what follows it -/
def read : List Char → Option (List CodePoint × List Char)
  | [] => none
  | '"' :: s => some ([], s)
  | '\\' :: 'u' :: a :: b :: c :: d :: s =>
    match hexUnit? a b c d with
    | some u => (read s).map (consPoint (.ofUnit u))
    | none => none
  | '\\' :: e :: s =>
    match ofShortEscape? e with
    | some c => (read s).map (consPoint (.scalar c))
    | none => none
  | c :: s =>
    if c = '\\' ∨ c.toNat < 0x20 then none
    else (read s).map (consPoint (.scalar c))

end RestQuery.Json.Quoted
