import RestQuery.Compile.Parameter

/-!
# Inserting, updating and deleting

A change touches one record.  An insertion posts one row; an update or a deletion names its record
by a single condition, the equality of the column `id` with a string or a number, and the id is one
segment of the path.

* `compileInsertion`, `compileUpdating`, `compileDeletion`   the requests;
* `Query.recordId`                                           the id of the one record.
-/

namespace RestQuery

open Json

/-- the parameter that lets unknown properties pass, where the query asks for it -/
def toleranceParameters (d : Dialect) (q : Query) : List Parameter :=
  if q.ignoreMissing then [(d.toleranceKey, "true")] else []

/-- one row from values -/
def compileInsertion (d : Dialect) (q : Query) (i : Insertion) : Except CompileError Request :=
  if i.orIgnore then .error .insertOrIgnore
  else
    match i.source with
    | .values body =>
      .ok {
        method := .post
        path := q.resource
        parameters := toleranceParameters d q
        body := some body }
    | .subquery _ => .error .subqueryRows

/-- a string that is not empty, or a number -/
def Json.Value.canBeId : Value → Bool
  | .str s => !s.isEmpty
  | .num _ => true
  | _ => false

/-- the value of the one condition on the id; nothing else may constrain a change -/
def Query.idValue (q : Query) (mode : String) : Except CompileError Value :=
  if q.expressions.isEmpty then
    match q.conditions with
    | [] => .error (.changeWithoutId mode)
    | [⟨.and, .compare column .eq value⟩] =>
      if column = idColumn ∧ value.canBeId then .ok value else .error (.changeNotById mode)
    | _ => .error (.changeNotById mode)
  else .error (.changeFiltered mode)

/-- the id of the one record, as one segment of a path -/
def Query.recordId (q : Query) (mode : String) (a : Addressing := {}) :
    Except CompileError String :=
  match q.idValue mode with
  | .error e => .error e
  | .ok value =>
    let id := a.valueText value
    if id.toList.contains '/' then .error (.idWithSeparator id) else .ok id

def compileUpdating (d : Dialect) (q : Query) (body : Object) (a : Addressing := {}) :
    Except CompileError Request :=
  match q.recordId "update" a with
  | .error e => .error e
  | .ok id =>
    .ok {
      method := .put
      path := a.recordPath q.resource id
      parameters := toleranceParameters d q
      body := some body }

def compileDeletion (q : Query) (a : Addressing := {}) : Except CompileError Request :=
  match q.recordId "delete" a with
  | .error e => .error e
  | .ok id => .ok { method := .delete, path := a.recordPath q.resource id }

end RestQuery
