import RestQuery.Query.Reader
import RestQuery.Compile.Change
import RestQuery.Compile.Page

/-!
# Compiling queries

A query becomes exactly one request, or an error that says why not; nothing is sent.

* `Provider`                     the dialect, and which resources have owners;
* `compileReading`               reading and counting; a count checks all that a read would carry;
* `compile`, `compileText`       any query, and the query of a text;
* `compileToJson`                from text to text.
-/

namespace RestQuery

open Json

/-- what is known of the provider -/
structure Provider where
  dialect : Dialect := .standard
  /-- the resources that can be addressed through an owner; none means that nobody knows -/
  ownedResources : Option (List String) := none
deriving Inhabited

/-- whether a resource may be addressed through an owner -/
def Provider.allowsEntity (p : Provider) (resource : String) : Bool :=
  match p.ownedResources with
  | none => true
  | some resources => resources.contains resource

/-! ## the parameters of a read -/

/-- the parameters of conditions, with the first error of any of them -/
def conditionParameters (cs : List Condition) (a : Addressing := {}) :
    Except CompileError (List Parameter) :=
  match cs with
  | [] => .ok []
  | c :: cs =>
    match c.parameter a with
    | .error e => .error e
    | .ok p =>
      match conditionParameters cs a with
      | .error e => .error e
      | .ok ps => .ok (p :: ps)

/-- the parameters that belong to conditions on an owner -/
def entityParameters (cs : List Condition) (ps : List Parameter) : List Parameter :=
  ((cs.zip ps).filter fun cp => cp.1.predicate.isEntity).map Prod.snd

/-- expressions, numbered from 1 -/
def expressionParameters (d : Dialect) (expressions : List String) : List Parameter :=
  (expressions.zipIdx 1).map fun e => (d.expressionKey e.2, e.1)

/-- the columns, when some are named -/
def projectionParameters (d : Dialect) : Projection → List Parameter
  | .all => []
  | .columns names => if names.isEmpty then [] else [(d.columnsKey, joinTexts ',' names)]

/-- a column to sort by, behind a minus sign when descending -/
def SortKey.text (k : SortKey) : String :=
  match k.direction with
  | .asc => k.column
  | .desc => "-" ++ k.column

def sortParameters (d : Dialect) (ks : List SortKey) : List Parameter :=
  if ks.isEmpty then [] else [(d.orderKey, joinTexts ',' (ks.map SortKey.text))]

/-- size and number of the page -/
def pageParameters (d : Dialect) : Option Page → List Parameter
  | none => []
  | some p =>
    [(d.rowsPerPageKey, Nat.repr p.size.toNat), (d.pageNumberKey, Nat.repr p.number.toNat)]

def includeParameters (d : Dialect) (keys : List String) : List Parameter :=
  if keys.isEmpty then [] else [(d.expansionKey, joinTexts ',' keys)]

/-! ## requests -/

/-- the request of a read whose conditions and page are known -/
def readRequest (d : Dialect) (q : Query) (ps : List Parameter) (page : Option Page) : Request :=
  if q.countOnly then
    { method := .get, path := d.pathOfCount q.resource
      parameters := entityParameters q.conditions ps }
  else
    { method := .get, path := q.resource
      parameters :=
        ps ++ expressionParameters d q.expressions ++ projectionParameters d q.projection ++
          sortParameters d q.sortKeys ++ pageParameters d page ++
          includeParameters d q.expandedKeys }

def compileReading (p : Provider) (q : Query) (a : Addressing := {}) :
    Except CompileError Request :=
  if (q.conditions.any fun c => c.predicate.isEntity) && !p.allowsEntity q.resource then
    .error (.entityUnsupported q.resource)
  else
    match conditionParameters q.conditions a with
    | .error e => .error e
    | .ok ps =>
      match Page.ofRows q.limit q.offset with
      | .error e => .error e
      | .ok page => .ok (readRequest p.dialect q ps page)

/-- the request of a query -/
def compile (p : Provider) (q : Query) (a : Addressing := {}) : Except CompileError Request :=
  if q.joins.isEmpty then
    match q.mutation with
    | .read => compileReading p q a
    | .insert i => compileInsertion p.dialect q i
    | .update body => compileUpdating p.dialect q body a
    | .delete => compileDeletion q a
  else .error (.joins q.joins)

/-- the request of the query of a text -/
def compileText (p : Provider) (text : String) (a : Addressing := {}) :
    Except CompileError Request :=
  match Query.parse? text with
  | none => .error .unreadable
  | some q => compile p q a

/-- from the text of a query to the text of its request, or to a line about the error -/
def compileToJson (text : String) : Except String String :=
  match compileText {} text with
  | .error e => .error e.line
  | .ok r => .ok r.toTree.compact

end RestQuery
