import RestQuery.NameMap

/-!
# Matching names

A name is looked up exactly, or with some slack when nothing stands under it exactly: letters then
match in either case and only ASCII letters and digits count.  Two names that match the same way
match not at all.

* `skeleton`        what of a name counts;
* `Matching`          exact or with slack, and `Matching.lookup`.
-/

namespace RestQuery

/-- the ASCII letters and digits of a name, letters in lower case -/
def skeleton (name : String) : List Char :=
  (name.toList.filter Char.isAlphanum).map Char.toLower

/-- how a name is looked up -/
inductive Matching where
  | strict
  | flexible
deriving DecidableEq, Inhabited

namespace Matching

variable {α : Type}

/-- the only thing whose name counts the same, if there is just one -/
def onlySimilar? (m : NameMap α) (name : String) : Option α :=
  match m.filter fun p => skeleton p.1 == skeleton name with
  | [p] => some p.2
  | _ => none

/-- what stands under a name -/
def lookup (matching : Matching) (m : NameMap α) (name : String) : Option α :=
  match matching with
  | .strict => NameMap.find? name m
  | .flexible =>
    match NameMap.find? name m with
    | some a => some a
    | none => onlySimilar? m name

end Matching

end RestQuery
