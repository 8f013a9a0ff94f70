import RestQuery.Json.Value

/-!
# Decoding

A decoder reads one type of the domain off a syntax tree, or refuses it.  A part of the text that
no decoder asks for has to be well-formed and nothing more.

A tree is *held* when it was read in full as a value before its decoder saw it: this happens where
the meaning of members depends on a tag that may stand anywhere among them.  A held tag may be the
number of its alternative, and the payload of a held alternative without content may be `{}`.

* `Scope`, `Decoder`                        the types;
* `Decoder.string`, `Decoder.word`, …       literals, lists, objects;
* `Fields`                                  the parts of a structure, by name or by position;
* `splitMember?`, `tagged?`, `tagOf?`       a tag and what stands beside it;
* `alternative?`, `Decoder.choice`          a named alternative, alone or with a payload.
-/

namespace RestQuery.Json

/-- what surrounds a tree: how many containers may still nest, and whether it is held -/
structure Scope where
  room : Nat
  held : Bool := false

namespace Scope

/-- a whole text: 127 containers may nest -/
def outermost : Scope := { room := 127 }

/-- the scope of the parts of a container -/
def inside? (s : Scope) : Option Scope :=
  match s.room with
  | 0 => none
  | room + 1 => some { s with room }

/-- the same place in a held tree -/
def hold (s : Scope) : Scope := { s with held := true }

end Scope

/-- reads a type off a tree -/
abbrev Decoder (α : Type) := Scope → Tree → Option α

namespace Decoder

variable {α : Type}

/-- the whole of a text -/
def run (d : Decoder α) (text : String) : Option α := (Tree.parse? text).bind (d .outermost)

/-! ## literals and containers -/

def value : Decoder Value := fun s t => Value.ofTree? s.room t

def string : Decoder String
  | _, .str cs => CodePoint.decode? cs
  | _, _ => none

def bool : Decoder Bool
  | _, .bool b => some b
  | _, _ => none

/-- an integer from 0 to 2 ^ 64 - 1 -/
def word : Decoder UInt64
  | _, .num n => (Number.ofNumeral? n).bind fun n => n.toNat?.map UInt64.ofNat
  | _, _ => none

def object : Decoder Object := fun s t =>
  match value s t with
  | some (.obj ms) => some ms
  | _ => none

/-- every item of an array -/
def list (d : Decoder α) : Decoder (List α)
  | s, .arr ts => s.inside?.bind fun s => ts.mapM (d s)
  | _, _ => none

/-- `null` or a value of the type -/
def nullable (d : Decoder α) : Decoder (Option α)
  | _, .null => some none
  | s, t => (d s t).map some

/-- the tree has to be a value as a whole, and is then decoded as a held one -/
def held (d : Decoder α) : Decoder α := fun s t => (value s t).bind fun _ => d s.hold t

end Decoder

/-! ## structures -/

/-- the parts of a structure that are there, each under its name -/
structure Fields where
  scope : Scope
  found : List (String × Tree)

namespace Fields

variable {α : Type}

/-- the members with these names, each at most once; members of other names are passed over -/
def select? (names : List String) : List (List CodePoint × Tree) → Option (List (String × Tree))
  | [] => some []
  | (k, t) :: ms =>
    match CodePoint.decode? k, select? names ms with
    | some k, some found =>
      if names.contains k then
        if (found.lookup k).isSome then none else some ((k, t) :: found)
      else some found
    | _, _ => none

/-- the parts of a structure with these names: an object, or an array in the order of the names -/
def of? (names : List String) (s : Scope) : Tree → Option Fields
  | .obj ms => do
    let scope ← s.inside?
    let found ← select? names ms
    return { scope, found }
  | .arr ts => do
    let scope ← s.inside?
    if names.length < ts.length then none
    else return { scope, found := names.zip ts }
  | _ => none

/-- a part that has to be there -/
def required (f : Fields) (name : String) (d : Decoder α) : Option α :=
  (f.found.lookup name).bind (d f.scope)

/-- a part that stands for `default` when it is not there -/
def optional (f : Fields) (name : String) (d : Decoder α) (default : α) : Option α :=
  match f.found.lookup name with
  | none => some default
  | some t => d f.scope t

end Fields

/-! ## tags -/

/--
take a member out of an object: the tree under the name, if there is one, and all other members.
The name may not occur twice, and the other members have to be values.
-/
def splitMember? (name : String) (room : Nat) :
    List (List CodePoint × Tree) → Option (Option Tree × List (List CodePoint × Tree))
  | [] => some (none, [])
  | (k, t) :: ms =>
    match CodePoint.decode? k, splitMember? name room ms with
    | some n, some (found, rest) =>
      if n = name then
        if found.isSome then none else some (some t, rest)
      else
        match Value.ofTree? room t with
        | some _ => some (found, (k, t) :: rest)
        | none => none
    | _, _ => none

/-- the tag of a tree and the rest of it: a member anywhere in an object, or the first item -/
def tagged? (name : String) (s : Scope) : Tree → Option (Tree × Tree)
  | .obj ms => do
    let inner ← s.inside?
    match ← splitMember? name inner.room ms with
    | (some tag, rest) => return (tag, .obj rest)
    | (none, _) => none
  | .arr (tag :: ts) => do
    let inner ← s.inside?
    let _ ← Value.ofTrees? inner.room ts
    return (tag, .arr ts)
  | _ => none

/-- what a tag stands for: its name, or in a held tree its place in the table -/
def tagOf? {α : Type} (table : List (String × α)) (s : Scope) : Tree → Option α
  | .str cs => (CodePoint.decode? cs).bind fun n => table.lookup n
  | .num n =>
    if s.held then do
      let n ← Number.ofNumeral? n
      let i ← n.toNat?
      let entry ← table[i]?
      return entry.2
    else none
  | _ => none

/-- an alternative without content: any object, or an array that ends after its tag -/
def bare? : Tree → Option Unit
  | .obj _ => some ()
  | .arr [] => some ()
  | _ => none

/-! ## alternatives -/

/-- the name of an alternative and its payload: a string, or an object with just one member -/
def alternative? (s : Scope) : Tree → Option (String × Option (Scope × Tree))
  | .str cs => (CodePoint.decode? cs).map fun n => (n, none)
  | .obj [(k, t)] => do
    let inner ← s.inside?
    let n ← CodePoint.decode? k
    return (n, some (inner, t))
  | _ => none

/-- a payload that says nothing -/
def emptyPayload : Option (Scope × Tree) → Bool
  | none => true
  | some (_, .null) => true
  | some (s, .obj []) => s.held
  | some _ => false

/-- one of several names -/
def Decoder.choice {α : Type} (table : List (String × α)) : Decoder α := fun s t => do
  let (name, payload) ← alternative? s t
  if emptyPayload payload then table.lookup name else none

end RestQuery.Json
