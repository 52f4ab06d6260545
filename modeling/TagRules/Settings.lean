import TagRules.Log
import TagRules.Rule.Limits
import TagRules.Text.Blank

/-!
The settings of a run. Each has a variable in the environment and a standard value
for when the variable is not set; what is given on the command line takes precedence
over both.
-/

namespace TagRules

/-- The level that a name denotes, if it denotes one. Blanks around the name and the case
of its letters do not matter. -/
def Log.Level.ofName? (name : String) : Option Log.Level :=
  match Text.folded name with
  | "trace" => some .trace
  | "debug" => some .debug
  | "info" => some .info
  | "warn" => some .warn
  | "warning" => some .warn
  | "error" => some .error
  | _ => none

/-- The value of a text that is a whole number above zero and within 64 bits: decimal
digits, with a plus sign in front or none. -/
def positive? (text : List Char) : Option Nat :=
  let digits := match text with
    | '+' :: rest => rest
    | _ => text
  if digits.isEmpty || !digits.all Char.isDigit then none
  else
    let value := digits.foldl (fun value c => 10 * value + (c.toNat - '0'.toNat)) 0
    if 0 < value ∧ value ≤ Limits.largest then some value else none

/-- What every command of a run shares. -/
structure Settings where
  /-- Less grave records are not shown. -/
  logLevel : Log.Level
  limits : Limits
  deriving DecidableEq, Repr

/-- A variable of the environment has a value that it cannot have. -/
inductive InvalidSetting where
  | logLevel (value : String)
  | limit (name value : String)
  deriving DecidableEq, Repr

def InvalidSetting.message : InvalidSetting → String
  | .logLevel value =>
    s!"invalid configuration: unknown log level '{value}', " ++
      "expected one of: trace, debug, info, warn, error"
  | .limit name value =>
    s!"invalid configuration: invalid {name} value '{value}', expected a positive integer"

/-- Settings given on the command line. -/
structure Overrides where
  logLevel : Option Log.Level
  maxDepth : Option Nat
  maxLength : Option Nat
  deriving DecidableEq, Repr

namespace Settings

def logLevelVariable : String :=
  "SCOPE_RULES_LOG_LEVEL"

def maxDepthVariable : String :=
  "SCOPE_RULES_MAX_DEPTH"

def maxLengthVariable : String :=
  "SCOPE_RULES_MAX_LENGTH"

def standard : Settings :=
  ⟨.warn, .standard⟩

/-- The level that the value of its variable asks for. -/
def levelOf : Option String → Except InvalidSetting Log.Level
  | none => .ok standard.logLevel
  | some value =>
    match Log.Level.ofName? value with
    | some level => .ok level
    | none => .error (.logLevel value)

/-- The limit that the value of a variable asks for. -/
def limitOf (name : String) (unset : Nat) : Option String → Except InvalidSetting Nat
  | none => .ok unset
  | some value =>
    match positive? (Text.trim value.toList) with
    | some limit => .ok limit
    | none => .error (.limit name value)

/-- The settings of an environment. The first variable that is invalid is reported, even
if the command line would override it. -/
def ofEnvironment (lookup : String → Option String) : Except InvalidSetting Settings := do
  let logLevel ← levelOf (lookup logLevelVariable)
  let maxDepth ← limitOf maxDepthVariable standard.limits.maxDepth (lookup maxDepthVariable)
  let maxLength ← limitOf maxLengthVariable standard.limits.maxLength (lookup maxLengthVariable)
  return ⟨logLevel, maxDepth, maxLength⟩

def override (settings : Settings) (given : Overrides) : Settings :=
  ⟨given.logLevel.getD settings.logLevel,
    given.maxDepth.getD settings.limits.maxDepth, given.maxLength.getD settings.limits.maxLength⟩

end Settings

end TagRules
