import RestQuery.Json.Numeral
import RestQuery.Json.Quoted

/-!
# Syntax trees

A JSON text as it is written, blanks apart: literals are kept as literals, members in their order
and with every repetition.

* `Tree`                            the type;
* `Layout`                          where a text is broken into lines;
* `Tree.compact`, `Tree.pretty`     the text of a tree on one line, and indented by two blanks.
-/

namespace RestQuery.Json

/-- a syntax tree -/
inductive Tree where
  | null
  | bool (b : Bool)
  | num (n : Numeral)
  | str (cs : List CodePoint)
  | arr (items : List Tree)
  | obj (members : List (List CodePoint × Tree))
deriving Inhabited

namespace Tree

/-- the literal of a string -/
def text (s : String) : Tree := .str (CodePoint.ofString s)

/-- the literal of a natural number -/
def nat (n : Nat) : Tree := .num { negative := false, whole := n }

/-- an object with these members in this order -/
def object (ms : List (String × Tree)) : Tree :=
  .obj (ms.map fun m => (CodePoint.ofString m.1, m.2))

end Tree

/-! ## text -/

/-- where lines break and what follows a colon -/
structure Layout where
  lineBreak : Nat → List Char
  gap : List Char

/-- everything on one line, without blanks -/
def Layout.compact : Layout := { lineBreak := fun _ => [], gap := [] }

/-- an item or member a line, two blanks a level -/
def Layout.pretty : Layout :=
  { lineBreak := fun depth => '\n' :: List.replicate (2 * depth) ' ', gap := [' '] }

mutual

/-- the text of a tree at a level of nesting; empty containers are never broken -/
def Tree.print (l : Layout) : Nat → Tree → List Char
  | _, .null => ['n', 'u', 'l', 'l']
  | _, .bool true => ['t', 'r', 'u', 'e']
  | _, .bool false => ['f', 'a', 'l', 's', 'e']
  | _, .num n => n.chars
  | _, .str cs => Quoted.write cs
  | _, .arr [] => ['[', ']']
  | depth, .arr (t :: ts) =>
    '[' :: l.lineBreak (depth + 1) ++ Tree.print l (depth + 1) t ++
      Tree.printItems l (depth + 1) ts ++ l.lineBreak depth ++ [']']
  | _, .obj [] => ['{', '}']
  | depth, .obj ((k, t) :: ms) =>
    '{' :: l.lineBreak (depth + 1) ++ Quoted.write k ++ ':' :: l.gap ++
      Tree.print l (depth + 1) t ++ Tree.printMembers l (depth + 1) ms ++
      l.lineBreak depth ++ ['}']

/-- the items after the first one, each behind a comma -/
def Tree.printItems (l : Layout) : Nat → List Tree → List Char
  | _, [] => []
  | depth, t :: ts =>
    ',' :: l.lineBreak depth ++ Tree.print l depth t ++ Tree.printItems l depth ts

/-- the members after the first one, each behind a comma -/
def Tree.printMembers (l : Layout) : Nat → List (List CodePoint × Tree) → List Char
  | _, [] => []
  | depth, (k, t) :: ms =>
    ',' :: l.lineBreak depth ++ Quoted.write k ++ ':' :: l.gap ++ Tree.print l depth t ++
      Tree.printMembers l depth ms

end

namespace Tree

/-- the text on one line -/
def compact (t : Tree) : String := String.ofList (t.print .compact 0)

/-- the text over several lines -/
def pretty (t : Tree) : String := String.ofList (t.print .pretty 0)

end Tree

end RestQuery.Json
