import TagRules.Json.Reader
import TagRules.Text.Quoted

/-!
Decoding values into records. A decoder complains about the first thing, in reading
order, that does not fit: a place where the text is not JSON, or a value of the wrong
shape. Only what is missing from an object is noticed after all of it has been read.
-/

namespace TagRules.Json

/-- What has been found where something else was expected. -/
inductive Found where
  | null
  | bool (value : Bool)
  | number (quantity : Quantity)
  | string (text : String)
  | sequence
  | map
  deriving DecidableEq, Repr

/-- How well-formed JSON can fail to fit. -/
inductive Mismatch where
  | wrongType (found : Found) (expected : String)
  | missingField (name : String)
  | duplicateField (name : String)
  | unknownVariant (name : String) (known : List String)
  /-- An array that stands for a record has too few items. -/
  | wrongLength (length : Nat) (record : String) (size : Nat)
  /-- The values fit, but together they break a rule. -/
  | invalid (reason : String)
  deriving DecidableEq, Repr

/-- Why a text cannot be decoded. -/
inductive DecodeError where
  | malformed
  | mismatch (problem : Mismatch)
  deriving DecidableEq, Repr

def Found.phrase : Found → String
  | .null => "null"
  | .bool true => "boolean `true`"
  | .bool false => "boolean `false`"
  | .number (.integer value) => s!"integer `{value}`"
  | .number (.float negative size) => s!"floating point `{(Quantity.float negative size).text}`"
  | .string text => s!"string {Text.quoted text}"
  | .sequence => "sequence"
  | .map => "map"

def alternatives : List String → String
  | [first, second] => s!"`{first}` or `{second}`"
  | names => "one of " ++ ", ".intercalate (names.map (fun name => s!"`{name}`"))

def Mismatch.message : Mismatch → String
  | .wrongType found expected => s!"invalid type: {found.phrase}, expected {expected}"
  | .missingField name => s!"missing field `{name}`"
  | .duplicateField name => s!"duplicate field `{name}`"
  | .unknownVariant name known =>
    s!"unknown variant `{name}`, expected {alternatives known}"
  | .wrongLength length record size =>
    s!"invalid length {length}, expected struct {record} with {size} elements"
  | .invalid reason => reason

def DecodeError.message : DecodeError → String
  | .malformed => "the text is not JSON"
  | .mismatch problem => problem.message

/-- Reads a value as something of type `α`. -/
abbrev Decoder (α : Type) := Value → Except DecodeError α

/-- What a value is, in a complaint. A fault is nothing to complain about further, and
neither is a number that is too large or a string that is no text. -/
def Value.found? : Value → Option Found
  | .null => some .null
  | .bool value => some (.bool value)
  | .number numeral => numeral.quantity?.map .number
  | .string text => some (.string text)
  | .garbled => none
  | .array _ => some .sequence
  | .object _ => some .map
  | .fault => none

/-- The complaint about a value that is not what was expected. -/
def Value.unexpected (value : Value) (expected : String) : DecodeError :=
  match value.found? with
  | some found => .mismatch (.wrongType found expected)
  | none => .malformed

namespace Decoder

def text : Decoder String
  | .string text => .ok text
  | value => .error (value.unexpected "a string")

def bool : Decoder Bool
  | .bool value => .ok value
  | value => .error (value.unexpected "a boolean")

def list {α : Type} (item : Decoder α) : Decoder (List α)
  | .array items => items.mapM item
  | value => .error (value.unexpected "a sequence")

def option {α : Type} (item : Decoder α) : Decoder (Option α)
  | .null => .ok none
  | value => return some (← item value)

/-- The one of some named values that a name denotes. -/
def named {α : Type} (known : List (String × α)) (name : String) : Except DecodeError α :=
  match known.lookup name with
  | some value => .ok value
  | none => .error (.mismatch (.unknownVariant name (known.map Prod.fst)))

/-- One of some named values: its name, or an object with the name as its only member
and null as the value of that. Nothing but a string can be the name of a member. -/
def variant {α : Type} (known : List (String × α)) : Decoder α
  | .string name => named known name
  | .object ((.string name, value) :: rest) => do
    let chosen ← named known name
    match value, rest with
    | .null, [] => return chosen
    | .null, _ :: _ => throw .malformed
    | other, _ => throw (other.unexpected "unit")
  | _ => .error .malformed

end Decoder

/-- A field of a record: its name, a check of its value, and whether it may be left
out. -/
structure Field where
  name : String
  check : Value → Except DecodeError Unit
  optional : Bool

def Field.required {α : Type} (name : String) (decoder : Decoder α) : Field :=
  ⟨name, fun value => do let _ ← decoder value, false⟩

def Field.defaulted {α : Type} (name : String) (decoder : Decoder α) : Field :=
  ⟨name, fun value => do let _ ← decoder value, true⟩

namespace Fields

/-- The values of the fields that an object has. Members of other names are passed
over; `seen` holds the values found so far. -/
def ofMembers (fields : List Field) (seen : List (String × Value)) :
    List (Value × Value) → Except DecodeError (List (String × Value))
  | [] => .ok seen
  | (.string name, value) :: rest =>
    match fields.find? (·.name = name) with
    | some field =>
      if (seen.lookup name).isSome then .error (.mismatch (.duplicateField name))
      else do
        field.check value
        ofMembers fields ((name, value) :: seen) rest
    | none => if value.isSound then ofMembers fields seen rest else .error .malformed
  | _ :: _ => .error .malformed

/-- The values of the fields in the order of the items of an array. `index` counts the
items that have been taken. -/
def ofItems (record : String) (size index : Nat) :
    List Field → List Value → Except DecodeError (List (String × Value))
  | [], [] => .ok []
  | [], _ :: _ => .error .malformed
  | field :: fields, [] =>
    if field.optional then ofItems record size (index + 1) fields []
    else .error (.mismatch (.wrongLength index record size))
  | field :: fields, value :: rest => do
    field.check value
    return (field.name, value) :: (← ofItems record size (index + 1) fields rest)

/-- The values of the fields of a record, which is written as an object, or as the array
of its values in the order of the fields. -/
def ofValue (record : String) (fields : List Field) :
    Value → Except DecodeError (List (String × Value))
  | .object members => ofMembers fields [] members
  | .array items => ofItems record fields.length 0 fields items
  | value => .error (value.unexpected s!"struct {record}")

def get {α : Type} (values : List (String × Value)) (name : String) (decoder : Decoder α) :
    Except DecodeError α :=
  match values.lookup name with
  | some value => decoder value
  | none => .error (.mismatch (.missingField name))

def getD {α : Type} (values : List (String × Value)) (name : String) (decoder : Decoder α)
    (default : α) : Except DecodeError α :=
  match values.lookup name with
  | some value => decoder value
  | none => .ok default

end Fields

/-- Decodes a whole text. Nothing but blanks may follow the value. -/
def decode {α : Type} (decoder : Decoder α) (text : String) : Except DecodeError α := do
  let (value, rest) := read text.toList
  let result ← decoder value
  if (skipSpace rest).isEmpty then return result else throw .malformed

end TagRules.Json
