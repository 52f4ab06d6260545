import TagRules.CommandLine.Flag

/-!
Sorting the words of a command line into options, their values and operands. The value
of an option is checked only when the next thing is sorted out, so of two mistakes
the one that is met first in this order is reported.
-/

namespace TagRules.CommandLine

/-- What a word looks like before it is looked up. -/
inductive Word where
  | dashes
  | long (text : List Char)
  | short (letter : Char)
  /-- Anything else, a lone dash included. -/
  | plain
  deriving DecidableEq, Repr

def Word.ofString (word : String) : Word :=
  match word.toList with
  | ['-', '-'] => .dashes
  | '-' :: '-' :: text => .long text
  | '-' :: letter :: _ => .short letter
  | _ => .plain

/-- What has been sorted out so far. -/
structure Arguments where
  /-- The options with their values, in order. Options without a value have an empty one. -/
  options : List (Flag × String)
  operands : List String
  /-- The option that was met last, and its value once that has been met. -/
  pending : Option (Flag × Option String)
  deriving DecidableEq, Repr

namespace Arguments

def empty : Arguments :=
  ⟨[], [], none⟩

def has (arguments : Arguments) (flag : Flag) : Bool :=
  arguments.options.any (·.1 = flag)

def values (arguments : Arguments) (flag : Flag) : List String :=
  (arguments.options.filter (·.1 = flag)).map Prod.snd

def value? (arguments : Arguments) (flag : Flag) : Option String :=
  (arguments.values flag).head?

/-- Adds an option, unless it may not be repeated. -/
def add (arguments : Arguments) (flag : Flag) (value : String) : Except Usage Arguments :=
  if arguments.has flag && !flag.mayRepeat then .error .repeated
  else
    match flag.fault? value with
    | some fault => .error fault
    | none => .ok ⟨arguments.options ++ [(flag, value)], arguments.operands, none⟩

/-- Adds the option that is pending. -/
def settle (arguments : Arguments) : Except Usage Arguments :=
  match arguments.pending with
  | none => .ok arguments
  | some (_, none) => .error .missingValue
  | some (flag, some value) => arguments.add flag value

/-- Takes in an option that has been met, with the value that is attached to it. A value
attached to an option that takes none is reported before anything that is pending. -/
def takeFlag (arguments : Arguments) (flag : Flag) (attached : Option String) :
    Except Usage Arguments :=
  match flag.takesValue, attached with
  | true, some value => do (← arguments.settle).add flag value
  | true, none => do
    let arguments ← arguments.settle
    return ⟨arguments.options, arguments.operands, some (flag, none)⟩
  | false, some _ => .error .unwantedValue
  | false, none => do
    let arguments ← arguments.settle
    match flag with
    | .help => throw .help
    | .version => throw .version
    | _ => arguments.add flag ""

/-- Takes in an option written in full. Its name runs to an equals sign. -/
def takeLong (arguments : Arguments) (allowed : List Flag) (text : List Char) :
    Except Usage Arguments :=
  let name := String.ofList (text.takeWhile (· != '='))
  let attached := match text.dropWhile (· != '=') with
    | [] => none
    | _ :: value => some (String.ofList value)
  match allowed.find? (·.name = name) with
  | some flag => arguments.takeFlag flag attached
  | none => .error .unknownArgument

/-- Takes in an option written as a letter. -/
def takeShort (arguments : Arguments) (allowed : List Flag) (letter : Char) :
    Except Usage Arguments :=
  match allowed.find? (·.letter? = some letter) with
  | some flag => arguments.takeFlag flag none
  | none => .error .unknownArgument

/-- Takes in a word as an operand, if there is still room for one. -/
def takeOperand (arguments : Arguments) (room : Nat) (word : String) : Except Usage Arguments :=
  if arguments.operands.length < room then do
    let arguments ← arguments.settle
    return ⟨arguments.options, arguments.operands ++ [word], none⟩
  else .error .unknownArgument

/-- Takes in a word that is no option: the value of the option in front of it, or an
operand. -/
def takePlain (arguments : Arguments) (room : Nat) (word : String) : Except Usage Arguments :=
  match arguments.pending with
  | some (flag, none) => .ok ⟨arguments.options, arguments.operands, some (flag, some word)⟩
  | _ => arguments.takeOperand room word

/-- Takes in all words of a command. After `--` every word is an operand. -/
def takeAll (arguments : Arguments) (allowed : List Flag) (room : Nat) :
    List String → Except Usage Arguments
  | [] => arguments.settle
  | word :: rest =>
    match Word.ofString word with
    | .long text => do (← arguments.takeLong allowed text).takeAll allowed room rest
    | .short letter => do (← arguments.takeShort allowed letter).takeAll allowed room rest
    | .plain => do (← arguments.takePlain room word).takeAll allowed room rest
    | .dashes => do (← rest.foldlM (·.takeOperand room ·) arguments).settle

end Arguments

end TagRules.CommandLine
