import RestQuery.Query.Basic

/-!
# The written form of queries

Every part of a query is written, in one fixed order and whatever its value is.

* `Condition.toTree`, `Predicate.toTree`   conjunction and tag stand before the parts;
* `Mutation.toTree`, `Query.toTree`        mutually, since an insertion may nest a query;
* `Query.text`                             the text of a query.
-/

namespace RestQuery

open Json

namespace Predicate

/-- tag and parts -/
def members : Predicate → List (String × Tree)
  | compare c o v =>
    [("type", .text "basic"), ("column", .text c), ("operator", .text o.code),
     ("value", v.toTree)]
  | among c vs =>
    [("type", .text "in"), ("column", .text c), ("values", .arr (vs.map Value.toTree))]
  | notAmong c vs =>
    [("type", .text "notIn"), ("column", .text c), ("values", .arr (vs.map Value.toTree))]
  | null c => [("type", .text "null"), ("column", .text c)]
  | notNull c => [("type", .text "notNull"), ("column", .text c)]
  | entity c v => [("type", .text "entity"), ("column", .text c), ("value", v.toTree)]

def toTree (p : Predicate) : Tree := .object p.members

end Predicate

/-- the parts of the predicate follow the conjunction in the same object -/
def Condition.toTree (c : Condition) : Tree :=
  .object (("conjunction", .text c.conjunction.code) :: c.predicate.members)

def SortKey.toTree (k : SortKey) : Tree :=
  .object [("column", .text k.column), ("direction", .text k.direction.code)]

/-- all columns are written as `null` -/
def Projection.toTree : Projection → Tree
  | .all => .null
  | .columns names => .arr (names.map Tree.text)

/-- an absent limit is written as `null` -/
def limitTree : Option UInt64 → Tree
  | none => .null
  | some n => .nat n.toNat

mutual

def Query.toTree : Query → Tree
  | ⟨resource, conditions, expressions, sortKeys, limit, offset, projection, expandedKeys,
      countOnly, ignoreMissing, joins, mutation⟩ =>
    .object
      [("resource", .text resource),
       ("conditions", .arr (conditions.map Condition.toTree)),
       ("filterExpressions", .arr (expressions.map Tree.text)),
       ("orderings", .arr (sortKeys.map SortKey.toTree)),
       ("limit", limitTree limit),
       ("offset", .nat offset.toNat),
       ("projection", projection.toTree),
       ("includeReferencedKeys", .arr (expandedKeys.map Tree.text)),
       ("isAggregate", .bool countOnly),
       ("ignoreMissingProperties", .bool ignoreMissing),
       ("mutation", .object mutation.members),
       ("joins", .arr (joins.map Tree.text))]

/-- mode and parts of a mutation -/
def Mutation.members : Mutation → List (String × Tree)
  | .read => [("mode", .text "read")]
  | .insert i => ("mode", .text "insert") :: i.members
  | .update body => [("mode", .text "update"), ("body", .obj (Value.toMembers body))]
  | .delete => [("mode", .text "delete")]

/-- the parts of an insertion -/
def Insertion.members : Insertion → List (String × Tree)
  | ⟨source, orIgnore⟩ => [("source", source.toTree), ("orIgnore", .bool orIgnore)]

/-- one member, named for the kind of source -/
def RowSource.toTree : RowSource → Tree
  | .values body => .object [("values", .obj (Value.toMembers body))]
  | .subquery q => .object [("subquery", q.toTree)]

end

def Mutation.toTree (m : Mutation) : Tree := .object m.members

def Insertion.toTree (i : Insertion) : Tree := .object i.members

/-- the text of a query on one line -/
def Query.text (q : Query) : String := q.toTree.compact

end RestQuery
