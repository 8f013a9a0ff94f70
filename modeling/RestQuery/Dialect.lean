import RestQuery.Json.Value

/-!
# Dialects

A dialect chooses names: paths that count, keys of parameters.  How conditions, values and single
records are addressed is the same in every dialect that does not say otherwise.

* `Dialect`, `Dialect.standard`           the names;
* `parameterKey`, `pathOfRecord`          how a condition and a single record are addressed;
* `Value.plainText`, `Value.arrayText`    values as they stand in a request;
* `Addressing`                            these four, or others in their places.
-/

namespace RestQuery

open Json

/-- the names that a provider chooses -/
structure Dialect where
  /-- the path that counts the records of a resource -/
  pathOfCount : String → String
  /-- the key of an expression by its place, counted from 1 -/
  expressionKey : Nat → String
  columnsKey : String
  orderKey : String
  pageNumberKey : String
  rowsPerPageKey : String
  expansionKey : String
  toleranceKey : String

/-- the first expression is `filter`, and then come `filter2`, `filter3`, … -/
def standardExpressionKey (n : Nat) : String := if n ≤ 1 then "filter" else "filter" ++ Nat.repr n

/-- the names of the provider itself -/
def Dialect.standard : Dialect where
  pathOfCount resource := resource ++ "/count"
  expressionKey := standardExpressionKey
  columnsKey := "properties"
  orderKey := "sort"
  pageNumberKey := "page"
  rowsPerPageKey := "pageSize"
  expansionKey := "includeReferencedEntities"
  toleranceKey := "ignoreMissingProperties"

instance : Inhabited Dialect := ⟨Dialect.standard⟩

/-- the path of one record -/
def pathOfRecord (resource id : String) : String := resource ++ "/" ++ id

/-- the key of a condition; joining by `or` only puts `or-` in front -/
def parameterKey (column code : String) (byOr : Bool) : String :=
  let key := column ++ "-" ++ code
  if byOr then "or-" ++ key else key

namespace Json.Value

/-- a single value: strings stand raw, a missing value is empty, all else is JSON -/
def plainText : Value → String
  | .str s => s
  | .null => ""
  | v => v.compact

/-- a list of values, as a JSON array -/
def arrayText (vs : List Value) : String := (Value.arr vs).compact

end Json.Value

/-- how conditions, values and single records are addressed, in the usual way if nothing is said -/
structure Addressing where
  /-- the path of one record, from its resource and its id -/
  recordPath : String → String → String := pathOfRecord
  /-- the key of a condition, from its column, its word and whether it is joined by `or` -/
  conditionKey : String → String → Bool → String := parameterKey
  valueText : Value → String := Value.plainText
  listText : List Value → String := Value.arrayText

instance : Inhabited Addressing := ⟨{}⟩

end RestQuery
