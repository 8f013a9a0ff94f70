import RestQuery.Json.Decode

/-!
# Relations

A relation leads from a record to at most one other record, which a foreign key of the record
names.

* `TargetForm`   whether the other record is kept as a raw row or as a record of some kind;
* `Relation`     name, foreign key, form of the target, and the bucket to look in, if it is given;
* `TargetForm.decode`, `Relation.decode`, and `toTree` of both   the JSON form.
-/

namespace RestQuery

open Json

/-- what the name of a foreign key ends in -/
def keyEnding : String := "Id"

/-- the form in which the other record is attached -/
inductive TargetForm where
  | raw
  | record (kind : String)
deriving DecidableEq, Inhabited

/-- a relation to one other record -/
structure Relation where
  name : String
  foreignKey : String
  target : TargetForm := .raw
  /-- the bucket to look in, whatever the rules say -/
  bucket : Option String := none
deriving DecidableEq, Inhabited

/-- the relation whose foreign key is its name followed by `Id` -/
def Relation.ofName (name : String) : Relation := { name, foreignKey := name ++ keyEnding }

/-! ## JSON form -/

namespace TargetForm

def toTree : TargetForm → Tree
  | raw => .text "raw"
  | record kind => .object [("record", .text kind)]

def decode : Decoder TargetForm := fun s t => do
  match ← alternative? s t with
  | ("raw", payload) => if emptyPayload payload then return raw else none
  | ("record", some (s, t)) => return record (← Decoder.string s t)
  | _ => none

end TargetForm

namespace Relation

/-- an absent bucket is written as `null` -/
def bucketTree : Option String → Tree
  | none => .null
  | some b => .text b

def toTree (r : Relation) : Tree :=
  .object
    [("name", .text r.name), ("foreignKey", .text r.foreignKey), ("target", r.target.toTree),
     ("bucket", bucketTree r.bucket)]

def decode : Decoder Relation := fun s t => do
  let f ← Fields.of? ["name", "foreignKey", "target", "bucket"] s t
  let name ← f.required "name" Decoder.string
  let foreignKey ← f.required "foreignKey" Decoder.string
  let target ← f.optional "target" TargetForm.decode .raw
  let bucket ← f.optional "bucket" (Decoder.nullable Decoder.string) none
  return { name, foreignKey, target, bucket }

end Relation

end RestQuery
