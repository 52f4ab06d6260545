import TagRules.Rule.Expr
import TagRules.Rule.Limits
import TagRules.Rule.Token

/-!
Reading a rule text as a tree, by the grammar

    chain   := conjunct ("||" conjunct)*
    conjunct := operand ("&&" operand)*
    operand := "!" operand | "(" chain ")" | atom

A chain is cut at its top-level operators and each piece is read as an operand. An
operand that is wrapped in parentheses, or that follows a `!`, is read one level
deeper; the levels that are left bound the recursion.
-/

namespace TagRules

/-- Reads the text of a span, or says what is wrong with it. -/
abbrev Reader := Text.Span → Except RuleError Expr

def Reader.refuse (maxDepth : Nat) : Reader :=
  fun _ => .error (.tooDeep maxDepth)

/-- The operands between the operators of a chain: those up to the first `||`, then
those of each further alternative. `before` is the operator in front, if any, and
`start` the offset of the first piece. A blank piece leaves the operator after it
without an operand, or, at the end, the operator before it. -/
def Pieces.operands (operand : Reader) (before : Option (Operator × Nat)) (start : Nat) :
    Pieces → Except RuleError (List Expr × List (List Expr))
  | .last text =>
    if Text.isAllBlank text then
      match before with
      | some (operator, position) => .error (.grammar (.missingOperand operator position))
      | none => .error (.grammar (.expectedExpression (start + Text.byteSize text)))
    else do
      return ([← operand ⟨text, start⟩], [])
  | .before text operator rest =>
    let position := start + Text.byteSize text
    if Text.isAllBlank text then
      .error (.grammar (.missingOperand operator position))
    else do
      let first ← operand ⟨text, start⟩
      let (conjuncts, alternatives) ←
        rest.operands operand (some (operator, position)) (position + 2)
      match operator with
      | .and => return (first :: conjuncts, alternatives)
      | .or => return ([first], conjuncts :: alternatives)

def Expr.ofAlternatives (first : List Expr) (others : List (List Expr)) : Expr :=
  group or ((first :: others).map (group and))

/-- Reads a chain whose wrapped text is read by `inner` and whose operands are read by
`operand`. -/
def Reader.chain (inner operand : Reader) : Reader := fun span =>
  let span := span.trim
  match group? span.text with
  | some text => inner ⟨text, span.start + 1⟩
  | none => do
    let pieces ← (Pieces.ofText span.text).mapError .scan
    let (first, others) ← pieces.operands operand none span.start
    return Expr.ofAlternatives first others

def Reader.negated (operand : Reader) : Reader := fun span =>
  if Text.isAllBlank span.text then
    .error (.grammar (.expectedExpression span.start))
  else do
    return .not (← operand span)

/-- Reads an operand: what follows a `!` by `negated`, what is in parentheses by
`inner`, and anything else as a membership test. -/
def Reader.operand (negated inner : Reader) : Reader := fun span =>
  let span := span.trim
  match span.text with
  | '!' :: rest => negated ⟨rest, span.start + 1⟩
  | text =>
    match group? text with
    | some text => inner ⟨text, span.start + 1⟩
    | none => do
      return .atom (← (Atom.ofTrimmed span).mapError .grammar)

/-- The two forms of the grammar that are read from a span. -/
inductive Form where
  | chain
  | operand
  deriving DecidableEq, Repr

/-- Reads a span as `form` where so many levels are left. A chain takes up a level of
its own. -/
def Reader.atLevel (maxDepth : Nat) : Nat → Form → Reader
  | 0, .chain => refuse maxDepth
  | 0, .operand => operand (refuse maxDepth) (refuse maxDepth)
  | left + 1, .chain => chain (atLevel maxDepth left .chain) (atLevel maxDepth left .operand)
  | left + 1, .operand =>
    operand (negated (atLevel maxDepth left .operand))
      (chain (atLevel maxDepth left .chain) (atLevel maxDepth left .operand))

def Expr.parse (limits : Limits) (text : List Char) : Except RuleError Expr :=
  if limits.maxLength < Text.byteSize text then
    .error (.tooLong (Text.byteSize text) limits.maxLength)
  else if Text.isAllBlank text then
    .error .emptyExpression
  else
    Reader.atLevel limits.maxDepth (limits.maxDepth + 1) .chain (.whole text)

end TagRules
