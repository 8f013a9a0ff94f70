import RestQuery.CommandLine.Command
import RestQuery.CommandLine.Relations
import RestQuery.Compile.Basic
import RestQuery.Relation.Resolution

/-!
# Running commands

A command reads one text and prints one answer, so running it needs the text and nothing else.

* `Command.source`   where the text of a command is;
* `Command.answer`   what a command prints for its text;
* `run`              both, for a list of arguments.
-/

namespace RestQuery.CommandLine

open Json

/-- where a text is -/
inductive Source where
  | given (text : String)
  | input
  | file (path : String)
deriving DecidableEq

/-- why a command has no answer -/
inductive CommandError where
  | compile (e : CompileError)
  | unreadableFile (path : String)
  | badResponse
  | relation (e : RelationError)
deriving DecidableEq, Inhabited

def CommandError.message : CommandError → String
  | compile e => e.line
  | unreadableFile path => "Failed to read response file `" ++ path ++ "`"
  | badResponse => "Response is not valid JSON"
  | relation e => e.message

/-- why arguments have no answer -/
inductive Failure where
  | usage (e : UsageError)
  | command (e : CommandError)
deriving DecidableEq, Inhabited

/-! ## answers -/

/-- a request as it is printed; a base asks for the URL whatever the format -/
def printRequest (o : CompileOptions) (r : Request) : String :=
  match o.baseUrl, o.format with
  | some base, _ => r.method.code ++ " " ++ r.url base
  | none, .line => r.line
  | none, .json => r.toTree.pretty

def answerCompile (o : CompileOptions) (text : String) : Except CommandError String :=
  match compileText {} text with
  | .error e => .error (.compile e)
  | .ok r => .ok (printRequest o r ++ "\n")

/-- the resolver that options ask for -/
def resolverOf (o : ResolveOptions) (rules : BucketRules) : Resolver :=
  { rules, matching := if o.strict then .strict else .flexible }

/-- the records of a response with what is attached to them, as they are printed -/
def printResolved (r : Resolver) (relations : List Relation) (kind : String) (b : ResponseBody) :
    String :=
  (Tree.arr ((r.resolve b.buckets relations (b.records kind)).map Record.toTree)).pretty

def answerResolve (o : ResolveOptions) (text : String) : Except CommandError String :=
  match ResponseBody.decode.run text with
  | none => .error .badResponse
  | some body =>
    match relationArguments o.relations with
    | .error e => .error (.relation e)
    | .ok relations =>
      match ruleArguments o.buckets with
      | .error e => .error (.relation e)
      | .ok rules => .ok (printResolved (resolverOf o rules) relations o.kind body ++ "\n")

namespace Command

/-- where the text of a command is -/
def source : Command → Source
  | compile o =>
    match o.query with
    | some text => .given text
    | none => .input
  | resolve o =>
    match o.response with
    | some path => .file path
    | none => .input

/-- what a command prints for its text -/
def answer : Command → String → Except CommandError String
  | compile o => answerCompile o
  | resolve o => answerResolve o

end Command

/-- the text at a source, given the input and the files -/
def Source.read (input : String) (file : String → Option String) :
    Source → Except CommandError String
  | given text => .ok text
  | Source.input => .ok input
  | Source.file path =>
    match file path with
    | some text => .ok text
    | none => .error (.unreadableFile path)

/-- what is printed for a list of arguments -/
def run (input : String) (file : String → Option String) (args : List String) :
    Except Failure String :=
  match Command.parse args with
  | .error e => .error (.usage e)
  | .ok command =>
    match command.source.read input file with
    | .error e => .error (.command e)
    | .ok text =>
      match command.answer text with
      | .error e => .error (.command e)
      | .ok output => .ok output

end RestQuery.CommandLine
