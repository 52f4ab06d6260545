/-!
Log records as values. A function that would log returns what it logged beside its
answer, so that the records are part of what can be said about it.
-/

namespace TagRules.Log

inductive Level where
  | trace
  | debug
  | info
  | warn
  | error
  deriving DecidableEq, Repr

/-- The place of a level among all, the gravest having the greatest. -/
def Level.severity : Level → Nat
  | .trace => 0
  | .debug => 1
  | .info => 2
  | .warn => 3
  | .error => 4

def Level.name : Level → String
  | .trace => "trace"
  | .debug => "debug"
  | .info => "info"
  | .warn => "warn"
  | .error => "error"

inductive Field where
  | flag (value : Bool)
  | count (value : Nat)
  | text (value : String)
  deriving DecidableEq, Repr

structure Record where
  level : Level
  message : String
  fields : List (String × Field)
  deriving DecidableEq, Repr

def Field.words : Field → String
  | .flag value => toString value
  | .count value => toString value
  | .text value => value

def Record.text (record : Record) : String :=
  let fields := record.fields.map (fun (name, field) => s!" {name}={field.words}")
  s!"{record.level.name.toUpper} {record.message}" ++ "".intercalate fields

def atLeast (level : Level) (records : List Record) : List Record :=
  records.filter (fun record => level.severity ≤ record.level.severity)

end TagRules.Log

namespace TagRules

/-- A value together with the records logged on the way to it. -/
structure Logged (α : Type) where
  value : α
  records : List Log.Record
  deriving DecidableEq, Repr

def Logged.silent {α : Type} (value : α) : Logged α :=
  ⟨value, []⟩

end TagRules
