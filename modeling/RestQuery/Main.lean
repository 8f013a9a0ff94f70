import RestQuery.CommandLine.Run

/-!
# Program

Reads the text of the command from where it is, prints the answer, and reports failures.
-/

namespace RestQuery.CommandLine

/-- how the program is called -/
def usageText : String :=
  "Usage: [-v] compile [-b BASE] [-f line|json] [QUERY]\n" ++
  "       [-v] resolve [-r FILE] [-k KIND] [--strict] [--bucket KEY=BUCKET]...\n" ++
  "               --relation NAME[:KEY[:BUCKET]]..."

/-- which version the program is -/
def versionText : String := "0.0.1"

/-- all that is left of a stream -/
partial def readAll (stream : IO.FS.Stream) (text : String) : IO String := do
  let line ← stream.getLine
  if line.isEmpty then return text else readAll stream (text ++ line)

/-- the text at a source -/
def Source.load : Source → IO (Except CommandError String)
  | given text => return .ok text
  | input => do return .ok (← readAll (← IO.getStdin) "")
  | file path => do
    try return .ok (← IO.FS.readFile path)
    catch _ => return .error (.unreadableFile path)

/-- print an answer, or report an error with exit code 1 -/
def report : Except CommandError String → IO UInt32
  | .ok output => do IO.print output; return 0
  | .error e => do IO.eprintln ("Error: " ++ e.message); return 1

/-- run the command that the arguments give -/
def program (args : List String) : IO UInt32 := do
  match Command.parse args with
  | .error .helpRequested => IO.println usageText; return 0
  | .error .versionRequested => IO.println versionText; return 0
  | .error _ => IO.eprintln usageText; return 2
  | .ok command =>
    match ← command.source.load with
    | .error e => report (.error e)
    | .ok text => report (command.answer text)

end RestQuery.CommandLine

def main (args : List String) : IO UInt32 := RestQuery.CommandLine.program args
