import TagRules.CommandLine.Run

/-!
The program. It gathers what a command line can depend on, has the outcome computed,
and carries it out: results go to standard output, everything else to standard error.
-/

namespace TagRules.CommandLine

/-- Why the system would not hand over a file. -/
def FileError.ofSystem : IO.Error → FileError
  | .noFileOrDirectory _ _ _ => .notFound
  | .inappropriateType _ 21 _ => .isDirectory
  | .inappropriateType _ _ _ => .notDirectory
  | .invalidArgument _ 22 details => .other details
  | .invalidArgument _ _ _ => .nameTooLong
  | error => .other (toString error)

def fetch (path : String) : IO (Except FileError String) := do
  match ← (IO.FS.readBinFile path).toBaseIO with
  | .error error => return .error (.ofSystem error)
  | .ok bytes =>
    match String.fromUTF8? bytes with
    | some text => return .ok text
    | none => return .error .notText

/-- Reads the files that a command line names. -/
def fetchAll (words : List String) : IO Files := do
  let paths := match Invocation.read words with
    | .ok invocation => invocation.command.paths
    | .error _ => []
  let texts ← paths.mapM (fun path => return (path, ← fetch path))
  return fun path => (texts.lookup path).getD (.error .notFound)

/-- Reads the variables that hold settings. -/
def fetchVariables : IO (String → Option String) := do
  let names := [Settings.logLevelVariable, Settings.maxDepthVariable, Settings.maxLengthVariable]
  let values ← names.mapM (fun name => return (name, ← IO.getEnv name))
  return fun name => (values.lookup name).join

def Outcome.show (outcome : Outcome) : IO Unit := do
  outcome.notices.forM IO.eprintln
  IO.print outcome.stdout

end TagRules.CommandLine

open TagRules.CommandLine in
/-- Runs a command line and answers with the status of the program. -/
def main (words : List String) : IO UInt32 := do
  let outcome := Outcome.ofWords (← fetchVariables) (← fetchAll words) words
  outcome.show
  return outcome.status.toUInt32
