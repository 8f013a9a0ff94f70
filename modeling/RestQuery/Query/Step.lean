import RestQuery.Query.Basic
import RestQuery.Relation.Basic

/-!
# Assembling queries

A query is assembled from `Query.ofResource` in steps.  Each step adds to one part of the query or
sets it; columns and included keys are kept once, at their first occurrence.

* `Query.when`, `Query.withColumns`, …   the steps as functions;
* `Query.Step`, `Query.apply`            the steps as data;
* `Query.build`                          a query from a list of steps.
-/

namespace RestQuery

open Json

/-- add a name that is not there yet at the end -/
def addOnce (names : List String) (name : String) : List String :=
  if names.contains name then names else names ++ [name]

namespace Query

/-! ## conditions -/

/-- add a condition -/
def when (q : Query) (c : Condition) : Query := { q with conditions := q.conditions ++ [c] }

def whenCompare (q : Query) (column : String) (operator : Operator) (value : Value) : Query :=
  q.when (.compare column operator value)

def orWhenCompare (q : Query) (column : String) (operator : Operator) (value : Value) : Query :=
  q.when (Condition.compare column operator value).joinedByOr

def whenEqual (q : Query) (column : String) (value : Value) : Query :=
  q.whenCompare column .eq value

def whenAmong (q : Query) (column : String) (values : List Value) : Query :=
  q.when (.among column values)

def whenNotAmong (q : Query) (column : String) (values : List Value) : Query :=
  q.when (.notAmong column values)

def whenNull (q : Query) (column : String) : Query := q.when (.null column)

def whenNotNull (q : Query) (column : String) : Query := q.when (.notNull column)

/-- address a dependent resource through its owner -/
def within (q : Query) (name id : Value) : Query :=
  (q.when (.entity entityNameColumn name)).when (.entity entityIdColumn id)

/-- add an expression in the language of the provider -/
def whenExpression (q : Query) (expression : String) : Query :=
  { q with expressions := q.expressions ++ [expression] }

/-! ## what a read brings -/

/-- sort by one more column -/
def sortBy (q : Query) (column : String) (direction : Direction) : Query :=
  { q with sortKeys := q.sortKeys ++ [{ column, direction }] }

def limitTo (q : Query) (n : UInt64) : Query := { q with limit := some n }

def startAt (q : Query) (n : UInt64) : Query := { q with offset := n }

/-- the columns wanted so far -/
def columns (q : Query) : List String :=
  match q.projection with
  | .all => []
  | .columns names => names

/-- want these columns and those that were wanted before -/
def withColumns (q : Query) (columns : List String) : Query :=
  { q with projection := .columns (columns.foldl addOnce q.columns) }

/-- bring along the records of one more foreign key -/
def includeKey (q : Query) (key : String) : Query :=
  { q with expandedKeys := addOnce q.expandedKeys key }

/-- bring along the records of every relation -/
def includeKeysOf (q : Query) (relations : List Relation) : Query :=
  relations.foldl (fun q relation => q.includeKey relation.foreignKey) q

/-- count the records in place of reading them -/
def counted (q : Query) : Query := { q with countOnly := true }

/-! ## changes -/

/-- insert this row -/
def insertRow (q : Query) (body : Object) : Query :=
  { q with mutation := .insert { source := .values body } }

/-- update the record to this row -/
def updateRow (q : Query) (body : Object) : Query := { q with mutation := .update body }

def deleteRow (q : Query) : Query := { q with mutation := .delete }

/-- let properties pass that the provider does not know -/
def tolerateMissing (q : Query) : Query := { q with ignoreMissing := true }

/-! ## steps as data -/

/-- one step of assembling a query -/
inductive Step where
  | when (c : Condition)
  | whenCompare (column : String) (operator : Operator) (value : Value)
  | orWhenCompare (column : String) (operator : Operator) (value : Value)
  | whenEqual (column : String) (value : Value)
  | whenAmong (column : String) (values : List Value)
  | whenNotAmong (column : String) (values : List Value)
  | whenNull (column : String)
  | whenNotNull (column : String)
  | within (name id : Value)
  | whenExpression (expression : String)
  | sortBy (column : String) (direction : Direction)
  | limitTo (n : UInt64)
  | startAt (n : UInt64)
  | withColumns (columns : List String)
  | includeKey (key : String)
  | includeKeysOf (relations : List Relation)
  | counted
  | insertRow (body : Object)
  | updateRow (body : Object)
  | deleteRow
  | tolerateMissing

/-- take a step -/
def apply (q : Query) : Step → Query
  | .when c => q.when c
  | .whenCompare c o v => q.whenCompare c o v
  | .orWhenCompare c o v => q.orWhenCompare c o v
  | .whenEqual c v => q.whenEqual c v
  | .whenAmong c vs => q.whenAmong c vs
  | .whenNotAmong c vs => q.whenNotAmong c vs
  | .whenNull c => q.whenNull c
  | .whenNotNull c => q.whenNotNull c
  | .within n i => q.within n i
  | .whenExpression e => q.whenExpression e
  | .sortBy c d => q.sortBy c d
  | .limitTo n => q.limitTo n
  | .startAt n => q.startAt n
  | .withColumns cs => q.withColumns cs
  | .includeKey k => q.includeKey k
  | .includeKeysOf rs => q.includeKeysOf rs
  | .counted => q.counted
  | .insertRow b => q.insertRow b
  | .updateRow b => q.updateRow b
  | .deleteRow => q.deleteRow
  | .tolerateMissing => q.tolerateMissing

/-- the query that a list of steps assembles -/
def build (resource : String) (steps : List Step) : Query :=
  steps.foldl apply (ofResource resource)

end Query

end RestQuery
