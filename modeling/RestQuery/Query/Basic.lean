import RestQuery.Query.Condition

/-!
# Queries

A query is one logical operation on one resource: reading or counting its records, or inserting,
updating or deleting.  Conditions, expressions, sort keys and included keys keep their order.

* `SortKey`, `Projection`                    the parts of a read;
* `Query`, `Mutation`, `Insertion`, `RowSource`   the operation, which may nest a query.
-/

namespace RestQuery

open Json

/-- a column to sort by -/
structure SortKey where
  column : String
  direction : Direction := .asc
deriving DecidableEq, Inhabited

/-- which columns of a record are wanted -/
inductive Projection where
  | all
  | columns (names : List String)
deriving DecidableEq, Inhabited

mutual

/-- one operation on one resource -/
structure Query where
  resource : String
  conditions : List Condition := []
  /-- expressions in the language of the provider, handed over as they are -/
  expressions : List String := []
  sortKeys : List SortKey := []
  limit : Option UInt64 := none
  offset : UInt64 := 0
  projection : Projection := .all
  /-- foreign keys whose records the answer should bring along -/
  expandedKeys : List String := []
  countOnly : Bool := false
  ignoreMissing : Bool := false
  /-- resources to join, which no request can express -/
  joins : List String := []
  mutation : Mutation

/-- what the operation does -/
inductive Mutation where
  | read
  | insert (insertion : Insertion)
  | update (body : List (String × Value))
  | delete

/-- rows to insert -/
structure Insertion where
  source : RowSource
  orIgnore : Bool := false

/-- where inserted rows come from -/
inductive RowSource where
  | values (body : List (String × Value))
  | subquery (query : Query)

end

namespace Query

/-- the query that reads every record of a resource -/
def ofResource (resource : String) : Query := { resource, mutation := .read }

instance : Inhabited Query := ⟨ofResource ""⟩

end Query

end RestQuery
