import RestQuery.Relation.BucketRules
import RestQuery.Text.Parts

/-!
# Relations and buckets as arguments

* `relationArgument`   `name`, `name:foreignKey` or `name:foreignKey:bucket`, where an empty part
                       is as good as none;
* `bucketArgument`     `foreignKey=bucket`, cut at the first equals sign;
* `ruleArguments`      the rules of a list of such arguments.
-/

namespace RestQuery.CommandLine

/-- why an argument about relations is wrong -/
inductive RelationError where
  | noName (argument : String)
  | tooManyParts (argument : String)
  | noBucket (argument : String)
deriving DecidableEq, Inhabited

namespace RelationError

def message : RelationError → String
  | noName argument => "Relation `" ++ argument ++ "` has no name"
  | tooManyParts argument => "Relation `" ++ argument ++ "` has too many parts"
  | noBucket argument => "Bucket override `" ++ argument ++ "` is not `foreignKey=bucket`"

end RelationError

/-! ## relations -/

/-- a part that is there and not empty -/
def nonempty? (part : Option String) : Option String := part.filter fun p => !p.isEmpty

/-- the relation that an argument describes -/
def relationArgument (argument : String) : Except RelationError Relation :=
  let parts := splitText ':' argument
  match nonempty? parts[0]? with
  | none => .error (.noName argument)
  | some name =>
    if 3 < parts.length then .error (.tooManyParts argument)
    else
      .ok {
        name
        foreignKey := (nonempty? parts[1]?).getD (name ++ keyEnding)
        bucket := nonempty? parts[2]? }

/-- the relations that arguments describe, or the first error -/
def relationArguments : List String → Except RelationError (List Relation)
  | [] => .ok []
  | a :: as =>
    match relationArgument a with
    | .error e => .error e
    | .ok relation =>
      match relationArguments as with
      | .error e => .error e
      | .ok relations => .ok (relation :: relations)

/-! ## buckets -/

/-- foreign key and bucket of an argument -/
def bucketArgument (argument : String) : Except RelationError (String × String) :=
  let cs := argument.toList
  match cs.dropWhile (· != '=') with
  | [] => .error (.noBucket argument)
  | _ :: bucket => .ok (String.ofList (cs.takeWhile (· != '=')), String.ofList bucket)

/-- rules with the buckets of a list of arguments given in addition -/
def addRules (rules : BucketRules) : List String → Except RelationError BucketRules
  | [] => .ok rules
  | a :: as =>
    match bucketArgument a with
    | .error e => .error e
    | .ok (foreignKey, bucket) => addRules (rules.give foreignKey bucket) as

/-- the rules of a list of arguments, or the first error -/
def ruleArguments (arguments : List String) : Except RelationError BucketRules :=
  addRules {} arguments

end RestQuery.CommandLine
