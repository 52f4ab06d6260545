import TagRules.Rule.Nesting
import TagRules.Text.Span

/-!
A rule text cut at its top-level operators. An operator counts only where no
literal and no bracket is open, so a nested group stays in one piece and is cut
again when it is read. `Pieces` keeps every character of the text, and the
tokens are what is left of the pieces once blanks are trimmed away.
-/

namespace TagRules

/-- A text as the stretches between its top-level operators, blanks included. -/
inductive Pieces where
  | last (text : List Char)
  | before (text : List Char) (operator : Operator) (rest : Pieces)
  deriving DecidableEq, Repr

def Pieces.cons (c : Char) : Pieces → Pieces
  | .last text => .last (c :: text)
  | .before text operator rest => .before (c :: text) operator rest

/-- Cuts the text that stands at offset `position`, where `nesting` is open. -/
def Pieces.cut (nesting : Nesting) (position : Nat) : List Char → Except ScanError Pieces
  | [] => do
    nesting.finish
    return .last []
  | [c] => do
    (← nesting.step c position).finish
    return .last [c]
  | c :: d :: rest =>
    match if nesting.isTop then Operator.ofPair? c d else none with
    | some operator => do
      return .before [] operator (← cut nesting (position + 2) rest)
    | none => do
      return (← cut (← nesting.step c position) (position + c.utf8Size) (d :: rest)).cons c

def Pieces.ofText (text : List Char) : Except ScanError Pieces :=
  cut .top 0 text

/-- A token of a rule text: the trimmed text of an operand, or an operator. -/
inductive Token where
  | operand (span : Text.Span)
  | operator (operator : Operator) (start : Nat)
  deriving DecidableEq, Repr

/-- The operand token of a stretch of text. A blank stretch has none. -/
def Token.ofSpan (span : Text.Span) : List Token :=
  let trimmed := span.trim
  if trimmed.text.isEmpty then [] else [.operand trimmed]

/-- The tokens of a cut text that starts at offset `start`. -/
def Pieces.tokens (start : Nat) : Pieces → List Token
  | .last text => Token.ofSpan ⟨text, start⟩
  | .before text operator rest =>
    let position := start + Text.byteSize text
    Token.ofSpan ⟨text, start⟩ ++ .operator operator position :: rest.tokens (position + 2)

/-- Splits a text into operands and top-level operators. Blank operands are left out,
so that in `a && && b` two operators follow each other. -/
def tokenize (text : List Char) : Except ScanError (List Token) :=
  return (← Pieces.ofText text).tokens 0

end TagRules
