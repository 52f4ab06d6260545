import TagRules.Settings

/-!
The options of the command line and the values they take.
-/

namespace TagRules.CommandLine

/-- Why a command line is not run. Asking for help is one of the reasons. -/
inductive Usage where
  | help
  | version
  | nothingGiven
  | missingCommand
  | unknownCommand
  /-- An option that the command does not have, or an operand too many. -/
  | unknownArgument
  /-- An operand or an option that the command needs is not there. -/
  | missingArgument
  /-- An option has no value, or an empty one where that is no value. -/
  | missingValue
  | badValue
  | unwantedValue
  | repeated
  deriving DecidableEq, Repr

def Usage.message : Usage → String
  | .help => "help was asked for"
  | .version => "the version was asked for"
  | .nothingGiven => "nothing is given"
  | .missingCommand => "no command is given"
  | .unknownCommand => "there is no such command"
  | .unknownArgument => "an argument is not expected here"
  | .missingArgument => "an argument is missing"
  | .missingValue => "an option has no value"
  | .badValue => "an option has a value that it cannot have"
  | .unwantedValue => "an option has a value and takes none"
  | .repeated => "an option is given twice"

inductive Flag where
  | help
  | version
  | logLevel
  | maxDepth
  | maxLength
  | tag
  | strict
  | json
  | catalog
  | activities
  | all
  | any
  | exclude
  deriving DecidableEq, Repr

namespace Flag

/-- The name after the two dashes. -/
def name : Flag → String
  | help => "help"
  | version => "version"
  | logLevel => "log-level"
  | maxDepth => "max-depth"
  | maxLength => "max-length"
  | tag => "tag"
  | strict => "strict"
  | json => "json"
  | catalog => "catalog"
  | activities => "activities"
  | all => "all"
  | any => "any"
  | exclude => "exclude"

/-- The letter after a single dash, for those that have one. -/
def letter? : Flag → Option Char
  | help => some 'h'
  | version => some 'V'
  | _ => none

def takesValue : Flag → Bool
  | help => false
  | version => false
  | strict => false
  | json => false
  | _ => true

def mayRepeat : Flag → Bool
  | tag => true
  | all => true
  | any => true
  | exclude => true
  | _ => false

/-- What is wrong with a value of the option, if anything is. -/
def fault? (value : String) : Flag → Option Usage
  | logLevel => if (Log.Level.ofName? value).isSome then none else some .badValue
  | maxDepth => if (positive? value.toList).isSome then none else some .badValue
  | maxLength => if (positive? value.toList).isSome then none else some .badValue
  | catalog => if value.isEmpty then some .missingValue else none
  | activities => if value.isEmpty then some .missingValue else none
  | _ => none

/-- The options that every command has. -/
def shared : List Flag :=
  [help, logLevel, maxDepth, maxLength]

end Flag

end TagRules.CommandLine
