import TagRules.Json.Decode
import TagRules.Log
import TagRules.Rule.Error

/-!
The setting of a running command: what it has printed and logged so far, and how it
can fail. Output that precedes a failure is kept, as it is when a program prints and
then stops.
-/

namespace TagRules.CommandLine

/-- Why the text of a file cannot be had. -/
inductive FileError where
  | notFound
  | isDirectory
  | notDirectory
  /-- The path, or a name in it, has more bytes than a file system takes. -/
  | nameTooLong
  /-- The path has a NUL character in it, which ends a name. -/
  | nulInName
  | notText
  | other (reason : String)
  deriving DecidableEq, Repr

def FileError.message : FileError → String
  | .notFound => "No such file or directory (os error 2)"
  | .isDirectory => "Is a directory (os error 21)"
  | .notDirectory => "Not a directory (os error 20)"
  | .nameTooLong => "File name too long (os error 36)"
  | .nulInName => "file name contained an unexpected NUL byte"
  | .notText => "stream did not contain valid UTF-8"
  | .other reason => reason

/-- The text of each file that can be named. -/
abbrev Files := String → Except FileError String

inductive FileRole where
  | activities
  | catalog
  deriving DecidableEq, Repr

def FileRole.name : FileRole → String
  | .activities => "activities"
  | .catalog => "catalog"

inductive Failure where
  | invalidRule (expression : String) (error : RuleError)
  | unreadable (role : FileRole) (path : String) (error : FileError)
  | undecodable (role : FileRole) (path : String) (error : Json.DecodeError)
  /-- There is no column as wide as the report needs one, and the program breaks off. -/
  | tooWide (width : Nat)
  deriving DecidableEq, Repr

/-- The exit status of a run that fails. -/
def Failure.status : Failure → Nat
  | .invalidRule _ _ => 1
  | .unreadable _ _ _ => 1
  | .undecodable _ _ _ => 1
  | .tooWide _ => 101

/-- One link of the chain of causes behind a failure. -/
inductive Cause where
  | message (words : String)
  | decoding (error : Json.DecodeError)
  deriving DecidableEq, Repr

def Cause.text : Cause → String
  | .message words => words
  | .decoding error => error.message

/-- The causes of a failure, the outermost first. A program that breaks off names none. -/
def Failure.causes : Failure → List Cause
  | .invalidRule expression error =>
    [.message s!"invalid rule `{expression}`", .message error.message]
  | .unreadable role path error =>
    [.message s!"failed to read {role.name} file {path}", .message error.message]
  | .undecodable role path error =>
    [.message s!"failed to parse {role.name} file {path}", .decoding error]
  | .tooWide _ => []

/-- The lines that tell of a failure. -/
def Failure.notices : Failure → List String
  | .tooWide _ => ["Formatting argument out of range"]
  | failure => failure.causes.map (fun cause => s!"error: {cause.text}")

/-- What a command has printed and logged. -/
structure Console where
  stdout : String
  records : List Log.Record
  deriving DecidableEq, Repr

def Console.blank : Console :=
  ⟨"", []⟩

abbrev Session := ExceptT Failure (StateM Console)

namespace Session

def print (line : String) : Session Unit :=
  modify fun console => ⟨console.stdout ++ line ++ "\n", console.records⟩

def printAll (lines : List String) : Session Unit :=
  lines.forM print

def log (records : List Log.Record) : Session Unit :=
  modify fun console => ⟨console.stdout, console.records ++ records⟩

/-- The value of a result, or the failure that its error makes. -/
def orFail {ε α : Type} (failure : ε → Failure) : Except ε α → Session α
  | .ok value => pure value
  | .error error => throw (failure error)

end Session

end TagRules.CommandLine
