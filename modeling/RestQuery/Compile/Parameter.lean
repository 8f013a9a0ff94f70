import RestQuery.Query.Basic
import RestQuery.Request.Basic
import RestQuery.Dialect
import RestQuery.Compile.Error

/-!
# Conditions as parameters

Each condition is one parameter.  What an operator is defined for is checked here: patterns match
strings only, order means nothing for booleans, and a list holds at least one value, each of them a
boolean, a number or a string.

* `Operator.accepts`, `checkOperands`, `Value.namesEntity`   the rules;
* `Condition.parameter`                                      key and value of a condition.
-/

namespace RestQuery

open Json

/-- whether an operator is defined for a value; being missing has operators of its own -/
def Operator.accepts (o : Operator) : Value → Bool
  | .str _ => true
  | .num _ => !o.matchesPattern
  | .bool _ => !o.matchesPattern && !o.comparesOrder
  | .null | .arr _ | .obj _ => false

/-- the words of the predicates that compare with no single value -/
def amongCode : String := "in"
def notAmongCode : String := "notin"
def nullCode : String := "null"
def notNullCode : String := "notnull"

/-- a list needs a value, and no value may itself hold values -/
def checkOperands (column code : String) (vs : List Value) : Except CompileError Unit :=
  if vs.isEmpty then .error (.emptyList column code)
  else
    match vs.find? fun v => !v.isAtomic with
    | some v => .error (.operandMismatch column code v.kindWord)
    | none => .ok ()

/-- an owner is addressed by the name of its resource or by its id -/
def Json.Value.namesEntity : Value → Bool
  | .str _ | .num _ => true
  | _ => false

/-- key and value of a condition -/
def Condition.parameter (c : Condition) (a : Addressing := {}) : Except CompileError Parameter :=
  match c.predicate with
  | .compare column operator value =>
    if operator.accepts value then
      .ok (a.conditionKey column operator.code c.joinsByOr, a.valueText value)
    else .error (.operandMismatch column operator.code value.kindWord)
  | .among column values =>
    match checkOperands column amongCode values with
    | .ok () => .ok (a.conditionKey column amongCode c.joinsByOr, a.listText values)
    | .error e => .error e
  | .notAmong column values =>
    match checkOperands column notAmongCode values with
    | .ok () => .ok (a.conditionKey column notAmongCode c.joinsByOr, a.listText values)
    | .error e => .error e
  | .null column => .ok (a.conditionKey column nullCode c.joinsByOr, "")
  | .notNull column => .ok (a.conditionKey column notNullCode c.joinsByOr, "")
  | .entity column value =>
    if column ≠ entityNameColumn ∧ column ≠ entityIdColumn then .error (.entityColumn column)
    else if c.joinsByOr then .error (.entityByOr column)
    else if value.namesEntity then .ok (column, a.valueText value)
    else .error (.entityValue column value.kindWord)

end RestQuery
