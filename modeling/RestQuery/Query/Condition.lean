import RestQuery.Json.Value
import RestQuery.Query.Operator

/-!
# Conditions

A condition constrains one column, or addresses the owner of a dependent resource.

* `Predicate`   what is asked of a column;
* `Condition`   a predicate and how it joins the ones before it.
-/

namespace RestQuery

open Json

/-- the column that holds the id of a record -/
def idColumn : String := "id"

/-- the two columns that address the owner of a dependent resource -/
def entityNameColumn : String := "entityName"
def entityIdColumn : String := "entityId"

/-- what is asked of a column -/
inductive Predicate where
  | compare (column : String) (operator : Operator) (value : Value)
  | among (column : String) (values : List Value)
  | notAmong (column : String) (values : List Value)
  | null (column : String)
  | notNull (column : String)
  /-- the column is no field of the record but one of the two that address its owner -/
  | entity (column : String) (value : Value)
deriving Inhabited

namespace Predicate

def column : Predicate → String
  | compare c _ _ | among c _ | notAmong c _ | null c | notNull c | entity c _ => c

/-- addresses an owner -/
def isEntity : Predicate → Bool
  | entity _ _ => true
  | _ => false

end Predicate

/-- a predicate and how it joins the ones before it; terms cannot be grouped -/
structure Condition where
  conjunction : Conjunction := .and
  predicate : Predicate
deriving Inhabited

namespace Condition

def compare (column : String) (operator : Operator) (value : Value) : Condition :=
  { predicate := .compare column operator value }

def among (column : String) (values : List Value) : Condition :=
  { predicate := .among column values }

def notAmong (column : String) (values : List Value) : Condition :=
  { predicate := .notAmong column values }

def null (column : String) : Condition := { predicate := .null column }

def notNull (column : String) : Condition := { predicate := .notNull column }

def entity (column : String) (value : Value) : Condition := { predicate := .entity column value }

/-- the same condition, joined by `or` -/
def joinedByOr (c : Condition) : Condition := { c with conjunction := .or }

def column (c : Condition) : String := c.predicate.column

def joinsByOr (c : Condition) : Bool := c.conjunction == .or

end Condition

end RestQuery
