import TagRules.Json.Numeral

/-!
JSON values as they are found in a text. Reading never fails: where a text stops
being JSON, a fault takes the place of the value. A decoder that meets the fault
reports it, and one that has found something else to complain about before it never
gets there, so the complaint that is first in reading order wins.
-/

namespace TagRules.Json

/-- A value, or the lack of one. -/
inductive Value where
  | null
  | bool (value : Bool)
  | number (numeral : Numeral)
  | string (text : String)
  /-- A string with half of a surrogate pair, which is no text. -/
  | garbled
  | array (items : List Value)
  /-- The members in the order of the text. Their names should be strings. -/
  | object (members : List (Value × Value))
  /-- The text is not JSON here. -/
  | fault
  deriving Repr

namespace Value

/-- An object whose names are texts. -/
def record (members : List (String × Value)) : Value :=
  object (members.map (fun (name, value) => (string name, value)))

def list {α : Type} (encode : α → Value) (items : List α) : Value :=
  array (items.map encode)

def nat (n : Nat) : Value :=
  number (.ofNat n)

def isString : Value → Bool
  | string _ => true
  | garbled => true
  | _ => false

mutual

/-- Whether the value is JSON throughout, so that it can be passed over. -/
def isSound : Value → Bool
  | array items => areSound items
  | object members => areSoundMembers members
  | fault => false
  | _ => true

def areSound : List Value → Bool
  | [] => true
  | value :: rest => value.isSound && areSound rest

def areSoundMembers : List (Value × Value) → Bool
  | [] => true
  | (name, value) :: rest => name.isString && value.isSound && areSoundMembers rest

end

end Value

end TagRules.Json
