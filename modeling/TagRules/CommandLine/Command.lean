import TagRules.CommandLine.Arguments

/-!
The commands, each with the options and operands that it takes, and the reading of a
whole command line as one of them.
-/

namespace TagRules.CommandLine

inductive Command where
  | eval (expression : String) (tags : List String) (strict : Bool)
  | explain (expression : String) (tags : List String) (catalog : Option String) (json : Bool)
  | build (all any exclude : List String)
  | keys (expression : String)
  | check (expression : String)
  | filter (expression : String) (activities : String) (json : Bool)
  | stats (activities : String) (catalog : Option String)
  deriving DecidableEq, Repr

/-- The files that the command may read. -/
def Command.paths : Command → List String
  | .explain _ _ catalog _ => catalog.toList
  | .filter _ activities _ => [activities]
  | .stats activities catalog => activities :: catalog.toList
  | _ => []

inductive Verb where
  | eval
  | explain
  | build
  | keys
  | check
  | filter
  | stats
  deriving DecidableEq, Repr

namespace Verb

def all : List Verb :=
  [eval, explain, build, keys, check, filter, stats]

def name : Verb → String
  | eval => "eval"
  | explain => "explain"
  | build => "build"
  | keys => "keys"
  | check => "check"
  | filter => "filter"
  | stats => "stats"

def ofName? (name : String) : Option Verb :=
  all.find? (·.name = name)

/-- The options that the command has besides the shared ones. -/
def flags : Verb → List Flag
  | eval => [.tag, .strict]
  | explain => [.tag, .catalog, .json]
  | build => [.all, .any, .exclude]
  | keys => []
  | check => []
  | filter => [.activities, .json]
  | stats => [.activities, .catalog]

/-- How many operands the command takes. The operand is a rule. -/
def room : Verb → Nat
  | build => 0
  | stats => 0
  | _ => 1

/-- The command that the arguments after its verb make up. -/
def command (verb : Verb) (arguments : Arguments) : Except Usage Command := do
  let expression : Except Usage String := match arguments.operands with
    | word :: _ => .ok word
    | [] => .error .missingArgument
  let activities : Except Usage String := match arguments.value? .activities with
    | some path => .ok path
    | none => .error .missingArgument
  match verb with
  | eval => return .eval (← expression) (arguments.values .tag) (arguments.has .strict)
  | explain =>
    return .explain (← expression) (arguments.values .tag) (arguments.value? .catalog)
      (arguments.has .json)
  | build =>
    return .build (arguments.values .all) (arguments.values .any) (arguments.values .exclude)
  | keys => return .keys (← expression)
  | check => return .check (← expression)
  | filter => return .filter (← expression) (← activities) (arguments.has .json)
  | stats => return .stats (← activities) (arguments.value? .catalog)

end Verb

structure Invocation where
  command : Command
  overrides : Overrides
  deriving DecidableEq, Repr

namespace Invocation

/-- The options that may stand in front of a verb. -/
def leadingFlags : List Flag :=
  .version :: Flag.shared

/-- The shared settings among some options. -/
def overridesOf (before after : Arguments) : Overrides :=
  let value? := fun flag => after.value? flag <|> before.value? flag
  ⟨(value? .logLevel).bind Log.Level.ofName?,
    (value? .maxDepth).bind (fun value => positive? value.toList),
    (value? .maxLength).bind (fun value => positive? value.toList)⟩

/-- Reads what follows a verb. Options in front of it are settled last, and a setting
that is given both in front and behind is taken from behind. -/
def ofVerb (before : Arguments) (verb : Verb) (words : List String) : Except Usage Invocation := do
  let after ← Arguments.empty.takeAll (Flag.shared ++ verb.flags) verb.room words
  let command ← verb.command after
  let before ← before.settle
  return ⟨command, overridesOf before after⟩

/-- What is wrong with a command line that ends without a verb. -/
def withoutVerb (before : Arguments) : Usage :=
  match before.settle with
  | .error usage => usage
  | .ok settled => if settled.options.isEmpty then .nothingGiven else .missingCommand

/-- What comes of asking for help with a command, or without one. -/
def helpOn : List String → Usage
  | [] => .help
  | [word] => if word = "help" ∨ (Verb.ofName? word).isSome then .help else .unknownCommand
  | _ => .unknownCommand

/-- What is wrong with a verb behind `--`, where none is expected. -/
def behindDashes (before : Arguments) : List String → Usage
  | [] => withoutVerb before
  | word :: _ =>
    if word = "help" ∨ (Verb.ofName? word).isSome then .unknownArgument else .unknownCommand

/-- Reads the words of a command line, after those that `before` holds. -/
def readFrom (before : Arguments) : List String → Except Usage Invocation
  | [] => .error (withoutVerb before)
  | word :: rest =>
    match Word.ofString word with
    | .long text => do readFrom (← before.takeLong leadingFlags text) rest
    | .short letter => do readFrom (← before.takeShort leadingFlags letter) rest
    | .dashes => .error (behindDashes before rest)
    | .plain =>
      match before.pending with
      | some (flag, none) =>
        readFrom ⟨before.options, before.operands, some (flag, some word)⟩ rest
      | _ =>
        if word = "help" then .error (helpOn rest)
        else
          match Verb.ofName? word with
          | some verb => ofVerb before verb rest
          | none => .error .unknownCommand

def read (words : List String) : Except Usage Invocation :=
  readFrom .empty words

end Invocation

end TagRules.CommandLine
