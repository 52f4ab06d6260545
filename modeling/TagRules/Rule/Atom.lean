import TagRules.Rule.Error
import TagRules.Rule.Literal
import TagRules.TagSet
import TagRules.Text.Span

/-!
Membership tests, the leaves of every rule. A test is written as a call on the
receiver `scope`, such as `scope.hasAny(["a","b"])`.
-/

namespace TagRules

/-- A test of which keys a tag set holds. -/
inductive Atom where
  | has (key : String)
  /-- At least one of the keys is in the set; false of no keys. -/
  | hasAny (keys : List String)
  /-- All of the keys are in the set; true of no keys. -/
  | hasAll (keys : List String)
  deriving DecidableEq, Repr

namespace Atom

def keys : Atom → List String
  | has key => [key]
  | hasAny keys => keys
  | hasAll keys => keys

def holds (tags : TagSet) : Atom → Bool
  | has key => tags.contains key
  | hasAny keys => keys.any tags.contains
  | hasAll keys => keys.all tags.contains

def quoted (key : String) : List Char :=
  '"' :: key.toList ++ ['"']

/-- The test as it is written in canonical form: double quotes, no blanks. -/
def text : Atom → List Char
  | has key => "scope.has(".toList ++ quoted key ++ [')']
  | hasAny keys => "scope.hasAny([".toList ++ [','].intercalate (keys.map quoted) ++ "])".toList
  | hasAll keys => "scope.hasAll([".toList ++ [','].intercalate (keys.map quoted) ++ "])".toList

instance : ToString Atom where
  toString atom := String.ofList atom.text

/-- The name and the argument text of a call on the receiver. The name runs to the
first parenthesis. -/
def call? (text : List Char) : Option (String × List Char) := do
  let call ← "scope.".toList.isPrefixOf? text
  match call.dropWhile (· != '(') with
  | '(' :: rest =>
    let args ← Text.beforeLast? ')' rest
    some (String.ofList (call.takeWhile (· != '(')), args)
  | _ => none

/-- The test that a span without blanks around it spells. -/
def ofTrimmed (span : Text.Span) : Except GrammarError Atom :=
  match call? span.text with
  | some ("has", args) =>
    match literal? (Text.trim args) with
    | some key => .ok (.has key)
    | none => .error (.expectedString span.text span.start)
  | some ("hasAny", args) =>
    match literals? args with
    | some keys => .ok (.hasAny keys)
    | none => .error (.expectedArray span.text span.start)
  | some ("hasAll", args) =>
    match literals? args with
    | some keys => .ok (.hasAll keys)
    | none => .error (.expectedArray span.text span.start)
  | _ => .error (.unknownAtom span.text span.start)

/-- The test that a text spells, blanks around it aside. -/
def parse (text : List Char) : Except GrammarError Atom :=
  ofTrimmed (Text.Span.whole text).trim

end Atom

end TagRules
