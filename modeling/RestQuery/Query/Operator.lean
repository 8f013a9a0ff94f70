/-!
# Words of the query language

The fixed words that parameter keys and query texts are made of.

* `Operator`       the ten comparisons of a column with a value;
* `Conjunction`    how a condition joins the ones before it;
* `Direction`      which way records are sorted.

Each type has `all`, its members in their order, and `code`, the word of a member.
-/

namespace RestQuery

/-- a comparison of a column with a value -/
inductive Operator where
  | eq | ne | gt | ge | lt | le | like | notLike | iLike | notILike
deriving DecidableEq, Inhabited

namespace Operator

/-- the word of an operator -/
def code : Operator → String
  | eq => "eq"
  | ne => "ne"
  | gt => "gt"
  | ge => "ge"
  | lt => "lt"
  | le => "le"
  | like => "like"
  | notLike => "notlike"
  | iLike => "ilike"
  | notILike => "notilike"

/-- all operators, in their order -/
def all : List Operator := [eq, ne, gt, ge, lt, le, like, notLike, iLike, notILike]

/-- asks which of two values comes first -/
def comparesOrder : Operator → Bool
  | gt | ge | lt | le => true
  | _ => false

/-- matches a text against a pattern -/
def matchesPattern : Operator → Bool
  | like | notLike | iLike | notILike => true
  | _ => false

theorem mem_all (o : Operator) : o ∈ all := by cases o <;> decide

theorem code_injective {a b : Operator} (h : a.code = b.code) : a = b := by
  revert h; cases a <;> cases b <;> decide

end Operator

/-- how a condition joins the ones before it -/
inductive Conjunction where
  | and | or
deriving DecidableEq, Inhabited

namespace Conjunction

def code : Conjunction → String
  | and => "and"
  | or => "or"

def all : List Conjunction := [and, or]

end Conjunction

/-- ascending or descending -/
inductive Direction where
  | asc | desc
deriving DecidableEq, Inhabited

namespace Direction

def code : Direction → String
  | asc => "asc"
  | desc => "desc"

def all : List Direction := [asc, desc]

end Direction

end RestQuery
