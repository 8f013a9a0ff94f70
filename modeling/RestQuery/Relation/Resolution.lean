import Std.Data.HashMap
import RestQuery.Record.ResponseBody
import RestQuery.Relation.BucketRules
import RestQuery.Relation.Matching

/-!
# Resolving relations

What relations lead to is attached from the rows that came along in buckets; nothing is fetched.
The value of a foreign key leads to the row whose id has the same text, or says by itself that it
leads nowhere.  Where no row is found, everything stays as it was.

Relations may share a bucket, so each bucket is indexed once.

* `idText?`, `leadsNowhere`        how ids and foreign keys are read;
* `RowIndex`                       the rows of a bucket by the text of their ids;
* `Resolver`, `Resolver.resolve`   the resolver.
-/

namespace RestQuery

open Json

/-! ## ids -/

/--
the largest magnitude up to which a whole double is compared as an integer; up to here every
integer is a double
-/
def exactBound : Nat := 2 * leadingBit

/-- the integer by which a double is compared, when it is whole and small enough -/
def exactInteger? (x : Binary64) : Option Int :=
  x.toInt?.filter fun i => i.natAbs ≤ exactBound

/-- the text by which a number is compared -/
def numberIdText : Number → String
  | .int i _ => (Numeral.ofInt i).text
  | .float x =>
    match exactInteger? x with
    | some i => (Numeral.ofInt i).text
    | none => x.numeral.text

/-- the text by which an id is compared, so that `7`, `7.0` and `"7"` are the same -/
def idText? : Value → Option String
  | .str s => some s
  | .num n => some (numberIdText n)
  | _ => none

/-- whether a foreign key says that there is no other record -/
def leadsNowhere : Option Value → Bool
  | none => true
  | some .null => true
  | some (.bool b) => !b
  | some (.num n) => n.isZero
  | some (.str s) => s.isEmpty
  | some (.arr _) => false
  | some (.obj _) => false

/-! ## indexes -/

/-- the rows of a bucket by the text of their ids -/
abbrev RowIndex := Std.HashMap String Row

namespace RowIndex

/-- the text of the id of a row -/
def rowId? (row : Row) : Option String := (NameMap.find? idColumn row).bind idText?

/-- enter a row: without a usable id it is left out, with a known one it replaces the other row -/
def add (index : RowIndex) (row : Row) : RowIndex :=
  match rowId? row with
  | some id => index.insert id row
  | none => index

/-- the index of the rows of a bucket -/
def ofRows (rows : List Row) : RowIndex := rows.foldl add ∅

/-- the row that a foreign key leads to -/
def find? (index : RowIndex) (key : Value) : Option Row :=
  (idText? key).bind fun id => index[id]?

end RowIndex

/-! ## resolver -/

/-- makes a record of a kind from a row -/
abbrev RecordMaker := String → Row → Record

/-- how relations are resolved -/
structure Resolver where
  rules : BucketRules := {}
  matching : Matching := .flexible
  makeRecord : RecordMaker := Record.ofRow

namespace Resolver

/-- the indexes of the buckets that relations look in; none where no such bucket is found -/
abbrev Indexes := Std.HashMap String (Option RowIndex)

/-- index the bucket of a relation unless that is done already -/
def addIndex (r : Resolver) (buckets : Buckets) (indexes : Indexes) (relation : Relation) :
    Indexes :=
  let bucket := r.rules.bucketOf relation
  if indexes.contains bucket then indexes
  else indexes.insert bucket ((r.matching.lookup buckets bucket).map RowIndex.ofRows)

def indexesFor (r : Resolver) (buckets : Buckets) (relations : List Relation) : Indexes :=
  relations.foldl (r.addIndex buckets) ∅

/-- a row in the form that a relation asks for -/
def formed (r : Resolver) (row : Row) : TargetForm → Attachment
  | .raw => .row row
  | .record kind => .record (r.makeRecord kind row)

/-- the row that a foreign key leads to under a relation -/
def findRow? (r : Resolver) (indexes : Indexes) (relation : Relation) (key : Option Value) :
    Option Row :=
  match key, indexes[r.rules.bucketOf relation]? with
  | some key, some (some index) => index.find? key
  | _, _ => none

/-- resolve one relation of one record -/
def resolveOne (r : Resolver) (indexes : Indexes) (record : Record) (relation : Relation) :
    Record :=
  let key := record.attribute? relation.foreignKey
  if leadsNowhere key then record.attach relation.name .null
  else
    match r.findRow? indexes relation key with
    | some row => record.attach relation.name (r.formed row relation.target)
    | none => record

/-- resolve relations of records, in the order in which the relations are given -/
def resolve (r : Resolver) (buckets : Buckets) (relations : List Relation)
    (records : List Record) : List Record :=
  if buckets.isEmpty || relations.isEmpty then records
  else
    let indexes := r.indexesFor buckets relations
    records.map fun record => relations.foldl (r.resolveOne indexes) record

end Resolver

end RestQuery
