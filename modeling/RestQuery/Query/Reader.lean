import RestQuery.Json.Decode
import RestQuery.Query.Writer

/-!
# Reading queries

The decoders of the types of a query.  An insertion may nest a query; as every nesting opens a
container, the room of the scope bounds the depth of the recursion.

* `Operator.decode`, `Conjunction.decode`, `Direction.decode`   one word;
* `Predicate.decode`, `Condition.decode`                        told apart by `type`;
* `Mutation.decode`, `Insertion.decode`                         told apart by `mode`;
* `Query.decode`, `Query.parse?`                                a whole query.
-/

namespace RestQuery

open Json

def Operator.decode : Decoder Operator :=
  Decoder.choice (Operator.all.map fun o => (o.code, o))

def Conjunction.decode : Decoder Conjunction :=
  Decoder.choice (Conjunction.all.map fun c => (c.code, c))

def Direction.decode : Decoder Direction :=
  Decoder.choice (Direction.all.map fun d => (d.code, d))

def SortKey.decode : Decoder SortKey := fun s t => do
  let f ← Fields.of? ["column", "direction"] s t
  let column ← f.required "column" Decoder.string
  let direction ← f.optional "direction" Direction.decode .asc
  return { column, direction }

/-- the kinds of predicates -/
inductive PredicateTag where
  | compare | among | notAmong | null | notNull | entity
deriving DecidableEq

def PredicateTag.table : List (String × PredicateTag) :=
  [("basic", .compare), ("in", .among), ("notIn", .notAmong), ("null", .null),
   ("notNull", .notNull), ("entity", .entity)]

namespace Predicate

/-- a column and a list of values -/
def decodeList (make : String → List Value → Predicate) : Decoder Predicate := fun s t => do
  let f ← Fields.of? ["column", "values"] s t
  let column ← f.required "column" Decoder.string
  let values ← f.required "values" (Decoder.list Decoder.value)
  return make column values

/-- a column alone -/
def decodeColumn (make : String → Predicate) : Decoder Predicate := fun s t => do
  let f ← Fields.of? ["column"] s t
  let column ← f.required "column" Decoder.string
  return make column

/-- the parts of a predicate of a kind -/
def decodeParts : PredicateTag → Decoder Predicate
  | .compare => fun s t => do
    let f ← Fields.of? ["column", "operator", "value"] s t
    let column ← f.required "column" Decoder.string
    let operator ← f.required "operator" Operator.decode
    let value ← f.required "value" Decoder.value
    return .compare column operator value
  | .among => decodeList .among
  | .notAmong => decodeList .notAmong
  | .null => decodeColumn .null
  | .notNull => decodeColumn .notNull
  | .entity => fun s t => do
    let f ← Fields.of? ["column", "value"] s t
    let column ← f.required "column" Decoder.string
    let value ← f.required "value" Decoder.value
    return .entity column value

/-- a predicate by itself; its parts are held until its tag is known -/
def decode : Decoder Predicate := fun s t => do
  let (tag, rest) ← tagged? "type" s t
  let tag ← tagOf? PredicateTag.table s tag
  decodeParts tag s.hold rest

end Predicate

/-- an object whose members other than `conjunction` are a held predicate -/
def Condition.decode : Decoder Condition
  | s, .obj ms => do
    let inner ← s.inside?
    let (joined, rest) ← splitMember? "conjunction" inner.room ms
    let conjunction ←
      match joined with
      | none => some Conjunction.and
      | some t => Conjunction.decode inner t
    let predicate ← Predicate.decode s.hold (.obj rest)
    return { conjunction, predicate }
  | _, _ => none

/-- `null` or a list of columns, held until it is known which -/
def Projection.decode : Decoder Projection := Decoder.held fun s t =>
  match t with
  | .null => some .all
  | t => (Decoder.list Decoder.string s t).map .columns

/-- the kinds of mutations -/
inductive MutationTag where
  | read | insert | update | delete
deriving DecidableEq

def MutationTag.table : List (String × MutationTag) :=
  [("read", .read), ("insert", .insert), ("update", .update), ("delete", .delete)]

/-! ## decoders over the decoder of a nested query -/

section Nested

variable (nested : Decoder Query)

/-- exactly one member, named for the kind of source -/
def RowSource.decodeWith : Decoder RowSource := fun s t => do
  match ← alternative? s t with
  | ("values", some (s, t)) => return .values (← Decoder.object s t)
  | ("subquery", some (s, t)) => return .subquery (← nested s t)
  | _ => none

def Insertion.decodeWith : Decoder Insertion := fun s t => do
  let f ← Fields.of? ["source", "orIgnore"] s t
  let source ← f.required "source" (RowSource.decodeWith nested)
  let orIgnore ← f.optional "orIgnore" Decoder.bool false
  return { source, orIgnore }

/-- the parts of a mutation are held until its mode is known -/
def Mutation.decodeWith : Decoder Mutation := fun s t => do
  let (tag, rest) ← tagged? "mode" s t
  match ← tagOf? MutationTag.table s tag with
  | .read =>
    bare? rest
    return .read
  | .insert => return .insert (← Insertion.decodeWith nested s.hold rest)
  | .update =>
    let f ← Fields.of? ["body"] s.hold rest
    return .update (← f.optional "body" Decoder.object [])
  | .delete =>
    bare? rest
    return .delete

def Query.decodeWith : Decoder Query := fun s t => do
  let f ← Fields.of?
    ["resource", "conditions", "filterExpressions", "orderings", "limit", "offset", "projection",
     "includeReferencedKeys", "isAggregate", "ignoreMissingProperties", "mutation", "joins"] s t
  let resource ← f.required "resource" Decoder.string
  let conditions ← f.optional "conditions" (Decoder.list Condition.decode) []
  let expressions ← f.optional "filterExpressions" (Decoder.list Decoder.string) []
  let sortKeys ← f.optional "orderings" (Decoder.list SortKey.decode) []
  let limit ← f.optional "limit" (Decoder.nullable Decoder.word) none
  let offset ← f.optional "offset" Decoder.word 0
  let projection ← f.optional "projection" Projection.decode .all
  let expandedKeys ← f.optional "includeReferencedKeys" (Decoder.list Decoder.string) []
  let countOnly ← f.optional "isAggregate" Decoder.bool false
  let ignoreMissing ← f.optional "ignoreMissingProperties" Decoder.bool false
  let mutation ← f.optional "mutation" (Mutation.decodeWith nested) .read
  let joins ← f.optional "joins" (Decoder.list Decoder.string) []
  return {
    resource, conditions, expressions, sortKeys, limit, offset, projection, expandedKeys,
    countOnly, ignoreMissing, mutation, joins }

end Nested

/-! ## the decoders -/

/-- queries that nest at most so often -/
def Query.decodeNested : Nat → Decoder Query
  | 0 => fun _ _ => none
  | n + 1 => Query.decodeWith (Query.decodeNested n)

def Query.decode : Decoder Query := fun s t => Query.decodeNested s.room s t

def Insertion.decode : Decoder Insertion := Insertion.decodeWith Query.decode

def Mutation.decode : Decoder Mutation := Mutation.decodeWith Query.decode

/-- the query of a text -/
def Query.parse? (text : String) : Option Query := Query.decode.run text

end RestQuery
