import TagRules.Rule.Delimiter
import TagRules.Text.Blank

/-!
String literals in the arguments of a membership test: a single one, or several in
square brackets.
-/

namespace TagRules

/-- The key of a text that is one string literal and nothing else. -/
def literal? : List Char → Option String
  | [] => none
  | c :: rest => do
    let quote ← Quote.ofChar? c
    let key ← Text.beforeLast? quote.char rest
    if quote.char ∈ key then none else some (String.ofList key)

/-- What a list of literals may go on with. -/
inductive LiteralList.State where
  | wanting
  /-- The characters of a literal, the latest first, are being read. -/
  | within (quote : Quote) (read : List Char)
  | complete
  deriving DecidableEq, Repr

/-- Reads the rest of a list of literals. Blanks may stand around the commas. -/
def LiteralList.read? : State → List Char → Option (List String)
  | .wanting, [] => none
  | .wanting, c :: rest =>
    match Quote.ofChar? c with
    | some quote => read? (.within quote []) rest
    | none => if Text.isBlank c then read? .wanting rest else none
  | .within _ _, [] => none
  | .within quote read, c :: rest =>
    if c = quote.char then
      (read? .complete rest).map (String.ofList read.reverse :: ·)
    else
      read? (.within quote (c :: read)) rest
  | .complete, [] => some []
  | .complete, c :: rest =>
    if c = ',' then read? .wanting rest
    else if Text.isBlank c then read? .complete rest
    else none

/-- The keys of an array of string literals such as `[ "a", 'b' ]`. The array may be
empty, and no comma may follow the last literal. -/
def literals? (text : List Char) : Option (List String) :=
  match Text.trim text with
  | '[' :: rest => do
    let inner ← Text.beforeLast? ']' rest
    if Text.isAllBlank inner then some [] else LiteralList.read? .wanting inner
  | _ => none

end TagRules
