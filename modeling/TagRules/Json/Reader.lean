import TagRules.Json.Value

/-!
Reading a text as JSON. Every function takes the text that is left and gives back a
value and what is left after it; after a fault nothing is left.
-/

namespace TagRules.Json

/-- The characters that may stand between the parts of a JSON text. -/
def isSpace (c : Char) : Bool :=
  c = ' ' || c = '\t' || c = '\n' || c = '\r'

def skipSpace (text : List Char) : List Char :=
  text.dropWhile isSpace

def hexValue? (c : Char) : Option Nat :=
  if '0' ≤ c ∧ c ≤ '9' then some (c.toNat - '0'.toNat)
  else if 'a' ≤ c ∧ c ≤ 'f' then some (c.toNat - 'a'.toNat + 10)
  else if 'A' ≤ c ∧ c ≤ 'F' then some (c.toNat - 'A'.toNat + 10)
  else none

def hexUnit? (a b c d : Char) : Option Nat := do
  return (← hexValue? a) * 4096 + (← hexValue? b) * 256 + (← hexValue? c) * 16 + (← hexValue? d)

def unescape? : Char → Option Char
  | '"' => some '"'
  | '\\' => some '\\'
  | '/' => some '/'
  | 'b' => some '\x08'
  | 'f' => some '\x0c'
  | 'n' => some '\n'
  | 'r' => some '\r'
  | 't' => some '\t'
  | _ => none

/-- A string of which a part has been read. -/
structure Draft where
  /-- The characters so far, the latest first. -/
  read : List Char
  /-- The first half of a surrogate pair, if it has just been read. -/
  half : Option Nat
  /-- Whether half of a pair has been met without the other half. -/
  garbled : Bool
  deriving DecidableEq, Repr

namespace Draft

def start : Draft :=
  ⟨[], none, false⟩

/-- Adds a character. A half pair in front of it stays a half. -/
def push (draft : Draft) (c : Char) : Draft :=
  ⟨c :: draft.read, none, draft.garbled || draft.half.isSome⟩

/-- Adds a 16-bit unit. Two halves in a row make one character. -/
def pushUnit (draft : Draft) (unit : Nat) : Draft :=
  match draft.half with
  | none =>
    if 0xd800 ≤ unit ∧ unit < 0xdc00 then ⟨draft.read, some unit, draft.garbled⟩
    else if 0xdc00 ≤ unit ∧ unit < 0xe000 then ⟨draft.read, none, true⟩
    else ⟨Char.ofNat unit :: draft.read, none, draft.garbled⟩
  | some high =>
    if 0xdc00 ≤ unit ∧ unit < 0xe000 then
      ⟨Char.ofNat (0x10000 + (high - 0xd800) * 0x400 + (unit - 0xdc00)) :: draft.read, none,
        draft.garbled⟩
    else ⟨draft.read, none, true⟩

def finish (draft : Draft) : Value :=
  if draft.garbled || draft.half.isSome then .garbled
  else .string (String.ofList draft.read.reverse)

end Draft

/-- Reads a string after its opening quote. Control characters have to be escaped. -/
def readString (draft : Draft) : List Char → Value × List Char
  | '"' :: rest => (draft.finish, rest)
  | '\\' :: 'u' :: a :: b :: c :: d :: rest =>
    match hexUnit? a b c d with
    | some unit => readString (draft.pushUnit unit) rest
    | none => (.fault, [])
  | '\\' :: e :: rest =>
    match unescape? e with
    | some c => readString (draft.push c) rest
    | none => (.fault, [])
  | '\\' :: [] => (.fault, [])
  | c :: rest => if c.toNat < 0x20 then (.fault, []) else readString (draft.push c) rest
  | [] => (.fault, [])

def readDigits (text : List Char) : List Char × List Char :=
  (text.takeWhile Char.isDigit, text.dropWhile Char.isDigit)

/-- Reads the power of ten after its mark. -/
def readExponent? (text : List Char) : Option (Int × List Char) :=
  let (negative, unsigned) := match text with
    | '-' :: rest => (true, rest)
    | '+' :: rest => (false, rest)
    | _ => (false, text)
  let (digits, rest) := readDigits unsigned
  if digits.isEmpty then none
  else
    let value : Int := Numeral.digitsValue digits
    some (if negative then -value else value, rest)

/-- Reads the exponent part of a number, if it has one. -/
def readScaled (negative : Bool) (whole : List Char) (fraction : Option (List Char))
    (text : List Char) : Value × List Char :=
  match text with
  | c :: rest =>
    if c = 'e' ∨ c = 'E' then
      match readExponent? rest with
      | some (exponent, rest) => (.number ⟨negative, whole, fraction, some exponent⟩, rest)
      | none => (.fault, [])
    else (.number ⟨negative, whole, fraction, none⟩, text)
  | [] => (.number ⟨negative, whole, fraction, none⟩, [])

/-- Reads a number after its sign. Only zero itself may begin with a zero, and a point
needs digits on both sides. -/
def readNumber (negative : Bool) (text : List Char) : Value × List Char :=
  let (whole, rest) := readDigits text
  if whole.isEmpty || (whole.head? == some '0' && whole.length != 1) then (.fault, [])
  else
    match rest with
    | '.' :: rest =>
      let (fraction, rest) := readDigits rest
      if fraction.isEmpty then (.fault, [])
      else readScaled negative whole (some fraction) rest
    | _ => readScaled negative whole none rest

/-- Reads a word that stands for a value. -/
def readWord (word : List Char) (value : Value) (text : List Char) : Value × List Char :=
  match word.isPrefixOf? text with
  | some rest => (value, rest)
  | none => (.fault, [])

mutual

/-- Reads a value. `fuel` bounds the steps; every second one takes a character. -/
def readValue : Nat → List Char → Value × List Char
  | 0, _ => (.fault, [])
  | fuel + 1, text =>
    match skipSpace text with
    | '"' :: rest => readString .start rest
    | '[' :: rest =>
      match skipSpace rest with
      | ']' :: rest => (.array [], rest)
      | rest =>
        let (items, rest) := readItems fuel rest
        (.array items, rest)
    | '\x7b' :: rest =>
      match skipSpace rest with
      | '\x7d' :: rest => (.object [], rest)
      | rest =>
        let (members, rest) := readMembers fuel rest
        (.object members, rest)
    | '-' :: rest => readNumber true rest
    | 'n' :: rest => readWord "ull".toList .null rest
    | 't' :: rest => readWord "rue".toList (.bool true) rest
    | 'f' :: rest => readWord "alse".toList (.bool false) rest
    | text => readNumber false text

/-- Reads the items of an array, at least one, and its closing bracket. -/
def readItems : Nat → List Char → List Value × List Char
  | 0, _ => ([.fault], [])
  | fuel + 1, text =>
    let (value, rest) := readValue fuel text
    match skipSpace rest with
    | ',' :: rest =>
      let (values, rest) := readItems fuel rest
      (value :: values, rest)
    | ']' :: rest => ([value], rest)
    | _ => ([value, .fault], [])

/-- Reads the members of an object, at least one, and its closing brace. -/
def readMembers : Nat → List Char → List (Value × Value) × List Char
  | 0, _ => ([(.fault, .fault)], [])
  | fuel + 1, text =>
    let (name, rest) := readValue fuel text
    match skipSpace rest with
    | ':' :: rest =>
      let (value, rest) := readValue fuel rest
      match skipSpace rest with
      | ',' :: rest =>
        let (members, rest) := readMembers fuel rest
        ((name, value) :: members, rest)
      | '\x7d' :: rest => ([(name, value)], rest)
      | _ => ([(name, value), (.fault, .fault)], [])
    | _ => ([(name, .fault)], [])

end

/-- The value that a text begins with, and what is left after it. -/
def read (text : List Char) : Value × List Char :=
  readValue (2 * text.length + 2) text

end TagRules.Json
