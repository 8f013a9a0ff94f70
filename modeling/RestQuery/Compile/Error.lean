/-!
# Why a query is no request

* `CompileError`           the causes;
* `CompileError.Kind`      what they have in common;
* `CompileError.message`   a sentence about a cause, and `CompileError.line` with its kind.
-/

namespace RestQuery

/-- why a query cannot be compiled -/
inductive CompileError where
  | joins (resources : List String)
  | subqueryRows
  | insertOrIgnore
  | changeWithoutId (mode : String)
  | changeNotById (mode : String)
  | changeFiltered (mode : String)
  | entityUnsupported (resource : String)
  | offsetWithoutLimit (offset : UInt64)
  | pageOutOfRange (offset size : UInt64)
  | idWithSeparator (id : String)
  | operandMismatch (column code kind : String)
  | emptyList (column code : String)
  | entityColumn (column : String)
  | entityValue (column kind : String)
  | entityByOr (column : String)
  /-- the text is no query; what its reader finds wrong with it is left out -/
  | unreadable
deriving DecidableEq, Inhabited

namespace CompileError

/-- what kind of fault it is -/
inductive Kind where
  /-- no request can express the operation -/
  | unsupportedOperation
  /-- the rows asked for are no page -/
  | invalidPagination
  /-- an operator is not defined for a value -/
  | malformedCondition
  /-- the text is no query -/
  | invalidQuery
deriving DecidableEq, Inhabited

def Kind.text : Kind → String
  | unsupportedOperation => "Unsupported operation"
  | invalidPagination => "Invalid pagination"
  | malformedCondition => "Malformed condition"
  | invalidQuery => "Invalid query"

def kind : CompileError → Kind
  | joins _ | subqueryRows | insertOrIgnore | changeWithoutId _ | changeNotById _
  | changeFiltered _ | entityUnsupported _ => .unsupportedOperation
  | offsetWithoutLimit _ | pageOutOfRange _ _ => .invalidPagination
  | idWithSeparator _ | operandMismatch _ _ _ | emptyList _ _ | entityColumn _ | entityValue _ _
  | entityByOr _ => .malformedCondition
  | unreadable => .invalidQuery

/-- a name inside a sentence -/
def quoted (name : String) : String := "`" ++ name ++ "`"

/-- the decimal digits of a word -/
def decimal (n : UInt64) : String := Nat.repr n.toNat

/-- a sentence about the cause; the last one ends at its colon, without the reason that the reader
of the text would give -/
def message : CompileError → String
  | joins resources =>
    "The API cannot join resources (requested: " ++ ", ".intercalate resources ++ ")."
  | subqueryRows => "Records cannot be inserted from the results of another query."
  | insertOrIgnore => "Insert-or-ignore is not supported by the API."
  | changeWithoutId mode =>
    "Each " ++ mode ++ " must be constrained by an `id` equality condition."
  | changeNotById mode =>
    "Each " ++ mode ++ " may only be constrained by exactly one `id` equality condition."
  | changeFiltered mode => "Each " ++ mode ++ " cannot be constrained by filter expressions."
  | entityUnsupported resource =>
    "Resource " ++ quoted resource ++ " does not support sub-entity addressing."
  | offsetWithoutLimit offset =>
    "Offset " ++ decimal offset ++
      " requires a positive limit because the API addresses pages, not rows."
  | pageOutOfRange offset size =>
    "Offset " ++ decimal offset ++ " with page size " ++ decimal size ++
      " lies beyond the last addressable page."
  | idWithSeparator id => "Record id " ++ quoted id ++ " cannot contain a path separator."
  | operandMismatch column code kind =>
    "Operator " ++ quoted code ++ " on column " ++ quoted column ++
      " is not defined for a " ++ kind ++ " value."
  | emptyList column code =>
    "Operator " ++ quoted code ++ " on column " ++ quoted column ++
      " requires at least one value."
  | entityColumn column =>
    "Sub-entity addressing uses `entityName` or `entityId`, not " ++ quoted column ++ "."
  | entityValue column kind =>
    "Sub-entity parameter " ++ quoted column ++ " requires a string or number, not a " ++ kind ++
      "."
  | entityByOr column =>
    "Sub-entity parameter " ++ quoted column ++ " cannot be joined via `or`."
  | unreadable => "Query input is not valid: "

/-- kind and message -/
def line (e : CompileError) : String := e.kind.text ++ ": " ++ e.message

end CompileError

end RestQuery
