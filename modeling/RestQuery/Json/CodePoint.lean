/-!
# Code points of a string literal

A string literal of a JSON text may hold halves of surrogate pairs, written as escapes.  A text
decodes when every half has its partner next to it.

* `CodePoint`            a Unicode scalar value or one half of a pair;
* `CodePoint.decode?`    the string of a list of code points, none at a half without partner;
* `CodePoint.ofString`   the code points of a string, all of them scalar values.
-/

namespace RestQuery.Json

/-- a Unicode scalar value or one half of a surrogate pair -/
inductive CodePoint where
  | scalar (c : Char)
  | high (h : Fin 1024)
  | low (l : Fin 1024)
deriving DecidableEq

namespace CodePoint

/-- the code point of a 16-bit unit -/
def ofUnit (u : Nat) : CodePoint :=
  if 0xD800 ≤ u ∧ u < 0xDC00 then .high (Fin.ofNat 1024 (u - 0xD800))
  else if 0xDC00 ≤ u ∧ u < 0xE000 then .low (Fin.ofNat 1024 (u - 0xDC00))
  else .scalar (Char.ofNat u)

/-- the character of a surrogate pair -/
def join (h l : Fin 1024) : Char := Char.ofNat (0x10000 + h.val * 1024 + l.val)

/-- the characters that code points stand for -/
def decodeChars? : List CodePoint → Option (List Char)
  | [] => some []
  | .scalar c :: r => (decodeChars? r).map (c :: ·)
  | .high h :: .low l :: r => (decodeChars? r).map (join h l :: ·)
  | .high _ :: _ => none
  | .low _ :: _ => none

/-- the string that code points stand for -/
def decode? (cs : List CodePoint) : Option String := (decodeChars? cs).map String.ofList

/-- the code points of a string -/
def ofString (s : String) : List CodePoint := s.toList.map .scalar

theorem decodeChars?_map_scalar (cs : List Char) : decodeChars? (cs.map .scalar) = some cs := by
  induction cs with
  | nil => rfl
  | cons c cs ih => simp only [List.map_cons, decodeChars?, ih, Option.map_some]

theorem decode?_ofString (s : String) : decode? (ofString s) = some s := by
  simp only [decode?, ofString, decodeChars?_map_scalar, Option.map_some, String.ofList_toList]

end CodePoint

end RestQuery.Json
