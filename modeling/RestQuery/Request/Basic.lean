import RestQuery.Json.Value
import RestQuery.Text.Parts
import RestQuery.Text.Percent

/-!
# Requests

A request is a method, a path, parameters in their order and perhaps a body.  Path and parameters
are raw; they are encoded once, where a query string or a URL is written.

* `Request.queryString`, `Request.url`   the encoded forms;
* `Request.line`                         the raw form for reading;
* `Request.toTree`                       the JSON form.
-/

namespace RestQuery

open Json

inductive Method where
  | get | post | put | delete
deriving DecidableEq, Inhabited

def Method.code : Method → String
  | get => "GET"
  | post => "POST"
  | put => "PUT"
  | delete => "DELETE"

/-- key and value of a parameter -/
abbrev Parameter := String × String

structure Request where
  method : Method
  path : String
  parameters : List Parameter := []
  body : Option Object := none
deriving Inhabited

namespace Request

/-! ## looking up parameters -/

/-- the first value of a key -/
def value? (r : Request) (key : String) : Option String := r.parameters.lookup key

/-- all values of a key, in their order -/
def values (r : Request) (key : String) : List String :=
  (r.parameters.filter fun p => p.1 == key).map Prod.snd

def keys (r : Request) : List String := r.parameters.map Prod.fst

/-! ## encoded forms -/

/-- a parameter in a query string -/
def encodeParameter (p : Parameter) : String := Percent.encode p.1 ++ "=" ++ Percent.encode p.2

/-- the query string, without the question mark -/
def queryString (r : Request) : String := joinTexts '&' (r.parameters.map encodeParameter)

/-- each segment of a path encoded -/
def encodePath (path : String) : String := joinTexts '/' ((splitText '/' path).map Percent.encode)

/-- the whole URL; slashes at the end of the base do not count -/
def url (r : Request) (base : String) : String :=
  let address := trimEndText '/' base ++ "/" ++ encodePath r.path
  if r.parameters.isEmpty then address else address ++ "?" ++ r.queryString

/-! ## readable forms -/

/-- method, path, parameters and body, raw -/
def line (r : Request) : String :=
  let parameters :=
    if r.parameters.isEmpty then ""
    else "?" ++ joinTexts '&' (r.parameters.map fun p => p.1 ++ "=" ++ p.2)
  let body :=
    match r.body with
    | none => ""
    | some b => " " ++ (Value.obj b).compact
  r.method.code ++ " " ++ r.path ++ parameters ++ body

/-- the members of the JSON form; a request without body has no such member -/
def members (r : Request) : List (String × Tree) :=
  [("method", .text r.method.code), ("path", .text r.path),
   ("queryParameters", .arr (r.parameters.map fun p => .arr [.text p.1, .text p.2]))] ++
    match r.body with
    | none => []
    | some b => [("body", (Value.obj b).toTree)]

def toTree (r : Request) : Tree := .object r.members

end Request

end RestQuery
