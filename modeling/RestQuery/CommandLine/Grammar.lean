/-!
# Arguments of a command

An option has a long name behind `--` and perhaps a letter behind `-`; letters may be joined.  The
value of an option follows as the next argument, behind `=`, or right behind the letter.  After
`--` every argument is positional.

A value that follows as the next argument is checked when the argument after it is taken, unless
that one is unknown, which is the graver fault.

* `OptionSpec`, `Grammar`    which options and how many positional arguments there are;
* `UsageError`               what can be wrong, and requests for help;
* `Grammar.scan`             what is found in a list of arguments.
-/

namespace RestQuery.CommandLine

/-- what an option does -/
inductive OptionKind where
  /-- is there or not, and at most once -/
  | flag
  /-- takes one value, at most once; perhaps only some values are allowed -/
  | single (allowed : Option (List String))
  /-- takes one value each time -/
  | repeated
  | help
  | version
deriving DecidableEq

structure OptionSpec where
  name : String
  letter : Option Char := none
  kind : OptionKind
deriving DecidableEq

structure Grammar where
  options : List OptionSpec
  positionals : Nat := 0

/-- why arguments are no command -/
inductive UsageError where
  | missingOption
  | unknownArgument
  /-- a value that is not allowed, or none where one is needed -/
  | badValue
  /-- a value where none is possible -/
  | surplusValue
  | unknownCommand
  | missingCommand
  /-- given twice -/
  | repeatedOption
  | noArguments
  | helpRequested
  | versionRequested
deriving DecidableEq, Inhabited

/-- what was found so far -/
structure Found where
  flags : List String := []
  /-- values by the names of their options, in the order of the arguments -/
  values : List (String × String) := []
  positionals : List String := []
deriving Inhabited

namespace Found

def hasFlag (f : Found) (name : String) : Bool := f.flags.contains name

/-- the first value of an option -/
def value? (f : Found) (name : String) : Option String := f.values.lookup name

/-- all values of an option -/
def all (f : Found) (name : String) : List String :=
  (f.values.filter fun v => v.1 == name).map Prod.snd

def addValue (f : Found) (name value : String) : Found :=
  { f with values := f.values ++ [(name, value)] }

/-- an option with its value -/
def accept (f : Found) (o : OptionSpec) (value : Option String) : Except UsageError Found :=
  match value with
  | none => .error .badValue
  | some v =>
    match o.kind with
    | .single allowed =>
      if (f.value? o.name).isSome then .error .repeatedOption
      else if allowed.all fun vs => vs.contains v then .ok (f.addValue o.name v)
      else .error .badValue
    | .repeated => .ok (f.addValue o.name v)
    | .flag | .help | .version => .error .surplusValue

/-- an option without value -/
def acceptFlag (f : Found) (o : OptionSpec) : Except UsageError Found :=
  match o.kind with
  | .help => .error .helpRequested
  | .version => .error .versionRequested
  | .flag =>
    if f.hasFlag o.name then .error .repeatedOption
    else .ok { f with flags := f.flags ++ [o.name] }
  | .single _ | .repeated => .error .badValue

end Found

/-- what was found, and an option whose value is not checked yet or still has to come -/
structure ScanState where
  found : Found := {}
  pending : Option (OptionSpec × Option String) := none

namespace ScanState

/-- check the option that was left open -/
def settle (s : ScanState) : Except UsageError Found :=
  match s.pending with
  | none => .ok s.found
  | some (o, value) => s.found.accept o value

end ScanState

namespace OptionSpec

/-- whether an option takes a value -/
def takesValue (o : OptionSpec) : Bool :=
  match o.kind with
  | .single _ | .repeated => true
  | .flag | .help | .version => false

/-- an option with what is attached to it -/
def take (o : OptionSpec) (s : ScanState) (attached : Option String) :
    Except UsageError ScanState :=
  if o.takesValue then do
    let found ← s.settle
    match attached with
    | some v => return { found := ← found.accept o (some v) }
    | none => return { found, pending := some (o, none) }
  else
    match attached with
    | some _ => .error .surplusValue
    | none => do
      let found ← s.settle
      return { found := ← found.acceptFlag o }

end OptionSpec

/-- a long option at its first equals sign -/
def cutLong (s : List Char) : String × Option String :=
  let name := s.takeWhile (· != '=')
  match s.dropWhile (· != '=') with
  | [] => (String.ofList name, none)
  | _ :: v => (String.ofList name, some (String.ofList v))

/-- what stands behind a letter that takes a value -/
def attachedValue : List Char → Option String
  | [] => none
  | '=' :: v => some (String.ofList v)
  | v => some (String.ofList v)

namespace Grammar

def byName? (g : Grammar) (name : String) : Option OptionSpec :=
  g.options.find? fun o => o.name == name

def byLetter? (g : Grammar) (c : Char) : Option OptionSpec :=
  g.options.find? fun o => o.letter == some c

/-- an argument behind two dashes -/
def takeLong (g : Grammar) (s : ScanState) (cs : List Char) : Except UsageError ScanState :=
  let (name, attached) := cutLong cs
  match g.byName? name with
  | none => .error .unknownArgument
  | some o => o.take s attached

/-- letters behind one dash; one that takes a value takes all that is left -/
def takeLetters (g : Grammar) (s : ScanState) : List Char → Except UsageError ScanState
  | [] => .ok s
  | c :: cs =>
    match g.byLetter? c with
    | none => .error .unknownArgument
    | some o =>
      if o.takesValue then o.take s (attachedValue cs)
      else
        match o.take s none with
        | .error e => .error e
        | .ok s => takeLetters g s cs

/-- an argument that is no option -/
def takePositional (g : Grammar) (s : ScanState) (a : String) : Except UsageError ScanState :=
  if s.found.positionals.length < g.positionals then do
    let found ← s.settle
    return { found := { found with positionals := found.positionals ++ [a] } }
  else .error .unknownArgument

/-- arguments after the two dashes -/
def scanPositionals (g : Grammar) (s : ScanState) : List String → Except UsageError Found
  | [] => s.settle
  | a :: as =>
    match g.takePositional s a with
    | .error e => .error e
    | .ok s => scanPositionals g s as

/-- one argument before the two dashes -/
def takeArgument (g : Grammar) (s : ScanState) (a : String) : Except UsageError ScanState :=
  match a.toList with
  | '-' :: '-' :: cs => g.takeLong s cs
  | '-' :: c :: cs => g.takeLetters s (c :: cs)
  | _ =>
    match s.pending with
    | some (o, none) => .ok { s with pending := some (o, some a) }
    | _ => g.takePositional s a

/-- a list of arguments, from the state that the arguments before it left -/
def scanFrom (g : Grammar) (s : ScanState) : List String → Except UsageError Found
  | [] => s.settle
  | a :: as =>
    if a = "--" then g.scanPositionals s as
    else
      match g.takeArgument s a with
      | .error e => .error e
      | .ok s => scanFrom g s as

/-- what is found in a list of arguments -/
def scan (g : Grammar) (args : List String) : Except UsageError Found := g.scanFrom {} args

end Grammar

end RestQuery.CommandLine
