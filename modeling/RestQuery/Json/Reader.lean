import RestQuery.Json.Tree

/-!
# Reading syntax trees

The reader takes what remains of the text and gives the tree it starts with and what follows.  Its
fuel bounds the depth of its recursion; `Tree.parse?` provides enough of it for every text, since a
level of nesting and an item each take at least one character and at most two steps.

* `Reader.value`    the tree that a text starts with;
* `Tree.parse?`     the tree of a whole text.
-/

namespace RestQuery.Json

namespace Reader

/-- the four blanks of the format -/
def isBlank (c : Char) : Bool := c == ' ' || c == '\n' || c == '\t' || c == '\r'

/-- the text from its first character that is no blank -/
def skip (s : List Char) : List Char := s.dropWhile isBlank

/-- the name of a member and the colon behind it -/
def memberName (s : List Char) : Option (List CodePoint × List Char) :=
  match skip s with
  | '"' :: r =>
    match Quoted.read r with
    | none => none
    | some (k, r) =>
      match skip r with
      | ':' :: r => some (k, r)
      | _ => none
  | _ => none

mutual

/-- the tree that a text starts with -/
def value : Nat → List Char → Option (Tree × List Char)
  | 0, _ => none
  | fuel + 1, s =>
    match skip s with
    | 'n' :: 'u' :: 'l' :: 'l' :: r => some (.null, r)
    | 't' :: 'r' :: 'u' :: 'e' :: r => some (.bool true, r)
    | 'f' :: 'a' :: 'l' :: 's' :: 'e' :: r => some (.bool false, r)
    | '"' :: r => (Quoted.read r).map fun (cs, r) => (.str cs, r)
    | '[' :: r =>
      match skip r with
      | ']' :: r => some (.arr [], r)
      | r => (items fuel r).map fun (ts, r) => (.arr ts, r)
    | '{' :: r =>
      match skip r with
      | '}' :: r => some (.obj [], r)
      | r => (members fuel r).map fun (ms, r) => (.obj ms, r)
    | r => (Numeral.read r).map fun (n, r) => (.num n, r)

/-- one item or more, separated by commas, and the closing bracket -/
def items : Nat → List Char → Option (List Tree × List Char)
  | 0, _ => none
  | fuel + 1, s =>
    match value fuel s with
    | none => none
    | some (t, r) =>
      match skip r with
      | ',' :: r => (items fuel r).map fun (ts, r) => (t :: ts, r)
      | ']' :: r => some ([t], r)
      | _ => none

/-- one member or more, separated by commas, and the closing brace -/
def members : Nat → List Char → Option (List (List CodePoint × Tree) × List Char)
  | 0, _ => none
  | fuel + 1, s =>
    match memberName s with
    | none => none
    | some (k, r) =>
      match value fuel r with
      | none => none
      | some (t, r) =>
        match skip r with
        | ',' :: r => (members fuel r).map fun (ms, r) => ((k, t) :: ms, r)
        | '}' :: r => some ([(k, t)], r)
        | _ => none

end

end Reader

/-- the tree of a text, with nothing but blanks around it -/
def Tree.parseChars? (s : List Char) : Option Tree :=
  match Reader.value (2 * s.length + 2) s with
  | none => none
  | some (t, r) => if (Reader.skip r).isEmpty then some t else none

/-- the tree of a text -/
def Tree.parse? (s : String) : Option Tree := Tree.parseChars? s.toList

end RestQuery.Json
