import RestQuery.NameMap
import RestQuery.Json.Number
import RestQuery.Json.Reader

/-!
# Values

What a JSON text says once its literals are read: numbers are numbers, strings are strings, and an
object is a map, the last of several members of one name winning.

* `Value`            the type;
* `Value.ofTree?`    the value of a tree in which at most `room` containers are nested;
* `Value.toTree`     the tree that a value is written as.
-/

namespace RestQuery.Json

/-- a value; the members of an object are a `NameMap` -/
inductive Value where
  | null
  | bool (b : Bool)
  | num (n : Number)
  | str (s : String)
  | arr (items : List Value)
  | obj (members : List (String × Value))
deriving Inhabited

/-- the members of an object value -/
abbrev Object := NameMap Value

namespace Value

/-- an integer as a value -/
def int (i : Int) (h : FitsWord i) : Value := .num (.int i h)

/-! ## reading -/

mutual

/-- the value of a tree: literals have to decode, and no more than `room` containers to nest -/
def ofTree? : Nat → Tree → Option Value
  | _, .null => some .null
  | _, .bool b => some (.bool b)
  | _, .num n => (Number.ofNumeral? n).map .num
  | _, .str cs => (CodePoint.decode? cs).map .str
  | 0, .arr _ => none
  | room + 1, .arr ts => (ofTrees? room ts).map .arr
  | 0, .obj _ => none
  | room + 1, .obj ms => (ofMembers? room ms).map fun l => .obj (NameMap.ofList l)

/-- the values of a list of trees -/
def ofTrees? : Nat → List Tree → Option (List Value)
  | _, [] => some []
  | room, t :: ts =>
    match ofTree? room t, ofTrees? room ts with
    | some v, some vs => some (v :: vs)
    | _, _ => none

/-- the names and values of a list of members, in their order -/
def ofMembers? : Nat → List (List CodePoint × Tree) → Option (List (String × Value))
  | _, [] => some []
  | room, (k, t) :: ms =>
    match CodePoint.decode? k, ofTree? room t, ofMembers? room ms with
    | some k, some v, some vs => some ((k, v) :: vs)
    | _, _, _ => none

end

/-! ## writing -/

mutual

/-- the tree that a value is written as -/
def toTree : Value → Tree
  | .null => .null
  | .bool b => .bool b
  | .num n => .num n.numeral
  | .str s => .text s
  | .arr vs => .arr (toTrees vs)
  | .obj ms => .obj (toMembers ms)

/-- the trees of a list of values -/
def toTrees : List Value → List Tree
  | [] => []
  | v :: vs => v.toTree :: toTrees vs

/-- the members of an object -/
def toMembers : List (String × Value) → List (List CodePoint × Tree)
  | [] => []
  | (k, v) :: ms => (CodePoint.ofString k, v.toTree) :: toMembers ms

end

theorem toTrees_eq_map (vs : List Value) : toTrees vs = vs.map toTree := by
  induction vs with
  | nil => rfl
  | cons v vs ih => rw [toTrees, ih, List.map_cons]

theorem toMembers_eq_map (ms : List (String × Value)) :
    toMembers ms = ms.map fun m => (CodePoint.ofString m.1, m.2.toTree) := by
  induction ms with
  | nil => rfl
  | cons m ms ih => obtain ⟨k, v⟩ := m; rw [toMembers, ih, List.map_cons]

/-- the text of a value on one line -/
def compact (v : Value) : String := v.toTree.compact

/-! ## kinds -/

/-- what kind of value it is, in words -/
def kindWord : Value → String
  | .null => "null"
  | .bool _ => "boolean"
  | .num _ => "number"
  | .str _ => "string"
  | .arr _ => "list"
  | .obj _ => "object"

/-- a boolean, a number or a string -/
def isAtomic : Value → Bool
  | .bool _ | .num _ | .str _ => true
  | _ => false

end Value

end RestQuery.Json
