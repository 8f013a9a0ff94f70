import RestQuery.Text.Hex

/-!
# Percent-encoding

Every byte of the UTF-8 form of a text that is no unreserved character is written as `%` and two
upper-case hexadecimal digits.

* `Percent.encode`    the encoded text;
* `Percent.decode?`   the text of an encoded one.
-/

namespace RestQuery.Percent

/-- letters, digits, `-`, `_`, `.` and `~` -/
def isUnreserved (b : UInt8) : Bool :=
  (48 ≤ b && b ≤ 57) || (65 ≤ b && b ≤ 90) || (97 ≤ b && b ≤ 122) ||
    b == 45 || b == 95 || b == 46 || b == 126

/-- a byte as it is written -/
def encodeByte (b : UInt8) : List Char :=
  if isUnreserved b then [Char.ofNat b.toNat]
  else ['%', Hex.upper (b.toNat / 16), Hex.upper (b.toNat % 16)]

/-- the UTF-8 form of a text -/
def bytes (s : String) : List UInt8 := s.toUTF8.data.toList

/-- the characters of an encoded text -/
def encodeChars (s : String) : List Char := (bytes s).flatMap encodeByte

def encode (s : String) : String := String.ofList (encodeChars s)

/-- the bytes that an encoded text stands for -/
def decodeBytes? : List Char → Option (List UInt8)
  | [] => some []
  | '%' :: a :: b :: s =>
    match Hex.value? a, Hex.value? b with
    | some a, some b => (decodeBytes? s).map (UInt8.ofNat (16 * a + b) :: ·)
    | _, _ => none
  | c :: s =>
    if c ≠ '%' ∧ c.toNat < 128 then (decodeBytes? s).map (UInt8.ofNat c.toNat :: ·)
    else none

def decodeChars? (s : List Char) : Option String :=
  (decodeBytes? s).bind fun bs => String.fromUTF8? ⟨bs.toArray⟩

def decode? (s : String) : Option String := decodeChars? s.toList

end RestQuery.Percent
