import RestQuery.CommandLine.Grammar

/-!
# Commands

There are two commands, `compile` and `resolve`, and `help` to ask about them.

* `Command`          a command and its options;
* `Command.parse`    the command of a list of arguments.
-/

namespace RestQuery.CommandLine

/-- how a request is printed -/
inductive OutputFormat where
  | line | json
deriving DecidableEq, Inhabited

structure CompileOptions where
  /-- the text of the query, to be read from the input if there is none -/
  query : Option String := none
  /-- print the URL below this base in place of the request -/
  baseUrl : Option String := none
  format : OutputFormat := .line
deriving DecidableEq, Inhabited

structure ResolveOptions where
  /-- the file of the answer, to be read from the input if there is none -/
  response : Option String := none
  kind : String := "record"
  relations : List String
  buckets : List String := []
  strict : Bool := false
deriving DecidableEq, Inhabited

inductive Command where
  | compile (options : CompileOptions)
  | resolve (options : ResolveOptions)
deriving DecidableEq, Inhabited

namespace Command

def helpOption : OptionSpec := { name := "help", letter := some 'h', kind := .help }

/-- accepted before and after the name of a command -/
def verboseOption : OptionSpec := { name := "verbose", letter := some 'v', kind := .flag }

/-- what may stand before the name of a command -/
def leadingGrammar : Grammar where
  options :=
    [helpOption, { name := "version", letter := some 'V', kind := .version }, verboseOption]

def compileGrammar : Grammar where
  options :=
    [helpOption, verboseOption,
     { name := "base-url", letter := some 'b', kind := .single none },
     { name := "format", letter := some 'f', kind := .single (some ["line", "json"]) }]
  positionals := 1

def resolveGrammar : Grammar where
  options :=
    [helpOption, verboseOption,
     { name := "response", letter := some 'r', kind := .single none },
     { name := "kind", letter := some 'k', kind := .single none },
     { name := "relation", kind := .repeated },
     { name := "bucket", kind := .repeated },
     { name := "strict", kind := .flag }]

def compileOf (f : Found) : Command :=
  .compile {
    query := f.positionals.head?
    baseUrl := f.value? "base-url"
    format := if f.value? "format" = some "json" then .json else .line }

/-- a resolution needs a relation -/
def resolveOf (f : Found) : Except UsageError Command :=
  let relations := f.all "relation"
  if relations.isEmpty then .error .missingOption
  else
    .ok (.resolve {
      response := f.value? "response"
      kind := (f.value? "kind").getD "record"
      relations
      buckets := f.all "bucket"
      strict := f.hasFlag "strict" })

/-- the names of the commands -/
def names : List String := ["compile", "resolve", "help"]

/-- help about the commands or about one of them; none has commands of its own -/
def parseHelp : List String → UsageError
  | [] => .helpRequested
  | [name] => if names.contains name then .helpRequested else .unknownCommand
  | _ => .unknownCommand

/-- the arguments behind the name of a command -/
def parseNamed (name : String) (args : List String) : Except UsageError Command :=
  if name = "compile" then do return compileOf (← compileGrammar.scan args)
  else if name = "resolve" then do resolveOf (← resolveGrammar.scan args)
  else .error (parseHelp args)

/-- nothing stands where the name of a command should -/
def missing (s : ScanState) : UsageError :=
  if s.found.flags.isEmpty then .noArguments else .missingCommand

/-- from the options before the name of a command on -/
def parseFrom (s : ScanState) : List String → Except UsageError Command
  | [] => .error (missing s)
  | "--" :: [] => .error (missing s)
  | "--" :: a :: _ => .error (if names.contains a then .unknownArgument else .unknownCommand)
  | a :: as =>
    if names.contains a then parseNamed a as
    else
      match a.toList with
      | '-' :: _ :: _ =>
        match leadingGrammar.takeArgument s a with
        | .error e => .error e
        | .ok s => parseFrom s as
      | _ => .error .unknownCommand

/-- the command of a list of arguments -/
def parse (args : List String) : Except UsageError Command := parseFrom {} args

end Command

end RestQuery.CommandLine
