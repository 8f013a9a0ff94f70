import RestQuery.Relation.Basic

/-!
# Which bucket a relation looks in

The rows that come along with a response lie in buckets.  The bucket of a relation is, in this
order, the one it names itself, the one that the rules give to its foreign key, the one of the
table of irregular keys, or the foreign key without `Id` at its end.

* `BucketRules`             the buckets given to foreign keys, and `BucketRules.give` for one more;
* `irregularBucket?`        the table;
* `keyStem`                 a foreign key without its ending;
* `BucketRules.bucketOf`    the bucket of a relation.
-/

namespace RestQuery

/-- the foreign keys whose buckets are not named after them -/
def irregularBuckets : List (String × String) :=
  [("customerId", "party"), ("supplierId", "party"), ("partnerId", "party"),
   ("createdById", "user"), ("modifiedById", "user")]

def irregularBucket? (foreignKey : String) : Option String := irregularBuckets.lookup foreignKey

/-- without `Id` at the end; a key that ends otherwise, or is nothing else, stays as it is -/
def keyStem (foreignKey : String) : String :=
  match foreignKey.toList.reverse with
  | 'd' :: 'I' :: c :: cs => String.ofList (c :: cs).reverse
  | _ => foreignKey

/-- the buckets given to foreign keys, which are matched exactly -/
structure BucketRules where
  given : NameMap String := []
deriving Inhabited

namespace BucketRules

/-- give a bucket to a foreign key, in place of the one given before -/
def give (r : BucketRules) (foreignKey bucket : String) : BucketRules :=
  { given := NameMap.insert foreignKey bucket r.given }

/-- the rules of a list of foreign keys and buckets, the last one counting for a key -/
def ofList (entries : List (String × String)) : BucketRules :=
  entries.foldl (fun r e => r.give e.1 e.2) {}

/-- the bucket of a relation -/
def bucketOf (r : BucketRules) (relation : Relation) : String :=
  match relation.bucket with
  | some bucket => bucket
  | none =>
    match NameMap.find? relation.foreignKey r.given with
    | some bucket => bucket
    | none => (irregularBucket? relation.foreignKey).getD (keyStem relation.foreignKey)

end BucketRules

end RestQuery
