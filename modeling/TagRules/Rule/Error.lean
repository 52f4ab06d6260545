import TagRules.Rule.Delimiter
import TagRules.Rule.Operator

/-!
Everything that can be wrong with a rule text, and the sentence that says so.
Each error carries the place of the fault as a byte offset.
-/

namespace TagRules

/-- A fault in the structure of a text: its literals and brackets do not pair up. -/
inductive ScanError where
  | unterminatedQuote (start : Nat)
  | unclosed (bracket : Bracket) (start : Nat)
  | unexpectedCloser (bracket : Bracket) (position : Nat)
  /-- The bracket closed at `position` is not of the kind opened at `start`. -/
  | mismatched (opened : Bracket) (start : Nat) (found : Bracket) (position : Nat)
  deriving DecidableEq, Repr

/-- A fault in the grammar of a text whose literals and brackets do pair up. -/
inductive GrammarError where
  | unknownAtom (text : List Char) (position : Nat)
  | expectedString (text : List Char) (position : Nat)
  | expectedArray (text : List Char) (position : Nat)
  | missingOperand (operator : Operator) (position : Nat)
  | expectedExpression (position : Nat)
  deriving DecidableEq, Repr

/-- Why a rule text is refused. -/
inductive RuleError where
  | scan (error : ScanError)
  | grammar (error : GrammarError)
  | emptyExpression
  | tooLong (length limit : Nat)
  | tooDeep (limit : Nat)
  deriving DecidableEq, Repr

def ScanError.message : ScanError → String
  | .unterminatedQuote start => s!"unterminated string literal starting at byte {start}"
  | .unclosed bracket start => s!"unclosed '{bracket.opening}' opened at byte {start}"
  | .unexpectedCloser bracket position =>
    s!"unexpected '{bracket.closing}' at byte {position}"
  | .mismatched opened start found position =>
    s!"'{found.closing}' at byte {position} does not close '{opened.opening}' " ++
      s!"opened at byte {start}"

def GrammarError.message : GrammarError → String
  | .unknownAtom text position =>
    s!"unrecognised atom `{String.ofList text}` at byte {position}"
  | .expectedString text position =>
    s!"expected a single string literal in `{String.ofList text}` at byte {position}"
  | .expectedArray text position =>
    s!"expected an array of string literals in `{String.ofList text}` at byte {position}"
  | .missingOperand operator position =>
    s!"operator '{operator.symbol}' at byte {position} is missing an operand"
  | .expectedExpression position => s!"expected an expression at byte {position}"

def RuleError.message : RuleError → String
  | .scan error => error.message
  | .grammar error => error.message
  | .emptyExpression => "rule expression is empty"
  | .tooLong length limit =>
    s!"rule expression is {length} bytes long, exceeding the limit of {limit}"
  | .tooDeep limit => s!"rule expression nests deeper than {limit} levels"

/-- A blank text is no rule, but editors treat it as nothing to complain about. -/
def RuleError.isEmptyExpression : RuleError → Bool
  | .emptyExpression => true
  | _ => false

end TagRules
