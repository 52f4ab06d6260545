import TagRules.Json.Value

/-!
Writing values as JSON, on one line or indented. Only what has to be escaped in a
string is.
-/

namespace TagRules.Json

def escapedChar (c : Char) : List Char :=
  if c = '"' then ['\\', '"']
  else if c = '\\' then ['\\', '\\']
  else if c = '\x08' then ['\\', 'b']
  else if c = '\x0c' then ['\\', 'f']
  else if c = '\n' then ['\\', 'n']
  else if c = '\r' then ['\\', 'r']
  else if c = '\t' then ['\\', 't']
  else if c.toNat < 0x20 then
    ['\\', 'u', '0', '0'] ++ [Nat.digitChar (c.toNat / 16), Nat.digitChar (c.toNat % 16)]
  else [c]

def stringText (text : String) : List Char :=
  '"' :: text.toList.flatMap escapedChar ++ ['"']

def Numeral.text (numeral : Numeral) : List Char :=
  (if numeral.negative then ['-'] else []) ++ numeral.whole ++
    (match numeral.fraction with
      | some digits => '.' :: digits
      | none => []) ++
    (match numeral.exponent with
      | some power => 'e' :: (toString power).toList
      | none => [])

/-- A value without parts. What is no JSON has no text. -/
def Value.leafText : Value → List Char
  | .null => "null".toList
  | .bool true => "true".toList
  | .bool false => "false".toList
  | .number numeral => numeral.text
  | .string text => stringText text
  | _ => []

mutual

/-- A value on one line, without blanks. -/
def Value.compact : Value → List Char
  | .array items => '[' :: compactItems items ++ [']']
  | .object members => '\x7b' :: compactMembers members ++ ['\x7d']
  | leaf => leaf.leafText

def compactItems : List Value → List Char
  | [] => []
  | [value] => value.compact
  | value :: rest => value.compact ++ ',' :: compactItems rest

def compactMembers : List (Value × Value) → List Char
  | [] => []
  | [(name, value)] => name.compact ++ ':' :: value.compact
  | (name, value) :: rest => name.compact ++ ':' :: value.compact ++ ',' :: compactMembers rest

end

/-- The start of a line that is indented by `depth` steps. -/
def lineStart (depth : Nat) : List Char :=
  '\n' :: List.replicate (2 * depth) ' '

mutual

/-- A value with each item and member on a line of its own. -/
def Value.indented (depth : Nat) : Value → List Char
  | .array [] => "[]".toList
  | .array items => '[' :: indentedItems (depth + 1) items ++ lineStart depth ++ [']']
  | .object [] => "\x7b\x7d".toList
  | .object members =>
    '\x7b' :: indentedMembers (depth + 1) members ++ lineStart depth ++ ['\x7d']
  | leaf => leaf.leafText

def indentedItems (depth : Nat) : List Value → List Char
  | [] => []
  | [value] => lineStart depth ++ value.indented depth
  | value :: rest => lineStart depth ++ value.indented depth ++ ',' :: indentedItems depth rest

def indentedMembers (depth : Nat) : List (Value × Value) → List Char
  | [] => []
  | [(name, value)] => lineStart depth ++ name.indented depth ++ ": ".toList ++ value.indented depth
  | (name, value) :: rest =>
    lineStart depth ++ name.indented depth ++ ": ".toList ++ value.indented depth ++
      ',' :: indentedMembers depth rest

end

def Value.toCompact (value : Value) : String :=
  String.ofList value.compact

def Value.toIndented (value : Value) : String :=
  String.ofList (value.indented 0)

end TagRules.Json
