import TagRules.Rule

/-!
Why a rule matches or does not. The rule is cut at its top-level operators and each
clause is evaluated on its own, so a reader sees which clause fails and which tags
it lacks. The verdict itself is that of the whole rule.
-/

namespace TagRules

/-- One top-level clause of a rule. -/
structure Clause where
  /-- The trimmed text of the clause. -/
  source : String
  holds : Bool
  /-- The keys the clause names that the tag set holds. -/
  matched : List String
  /-- The keys the clause names that the tag set lacks. -/
  missing : List String
  /-- The operator towards the next clause; the last clause has none. -/
  joiner : Option Operator
  deriving DecidableEq, Repr

structure Explanation where
  holds : Bool
  clauses : List Clause
  deriving DecidableEq, Repr

/-- What is said of a text that is no rule: no match, and no clauses. -/
def Explanation.blank : Explanation :=
  ⟨false, []⟩

def Explanation.matchedCount (explanation : Explanation) : Nat :=
  explanation.clauses.countP Clause.holds

/-- The distinct keys named by a clause that is a membership test or a negated one. A
clause of any other form, such as a group, names none. -/
def Clause.keys (source : List Char) : List String :=
  let bare := match Text.trim source with
    | '!' :: rest => rest
    | text => text
  match Atom.parse bare with
  | .ok atom => atom.keys.eraseDups
  | .error _ => []

/-- The clause of a text whose verdict on its own is known. -/
def Clause.describe (tags : TagSet) (source : List Char) (holds : Bool)
    (joiner : Option Operator) : Clause :=
  let keys := keys source
  ⟨String.ofList source, holds, keys.filter tags.contains,
    keys.filter (fun key => !tags.contains key), joiner⟩

def Token.leadingOperator? : List Token → Option Operator
  | .operator op _ :: _ => some op
  | _ => none

/-- The clauses of a rule's tokens. Each operand is read as a rule of its own. -/
def Clause.ofTokens (limits : Limits) (tags : TagSet) : List Token → Except RuleError (List Clause)
  | [] => return []
  | .operator _ _ :: rest => ofTokens limits tags rest
  | .operand span :: rest => do
    let tree ← Expr.parse limits span.text
    let clause := describe tags span.text (tree.holds tags) (Token.leadingOperator? rest)
    return clause :: (← ofTokens limits tags rest)

/-- Explains the verdict of a rule text on a tag set, or says what is wrong with the
text. -/
def explain? (limits : Limits) (source : String) (tags : TagSet) :
    Except RuleError Explanation := do
  let rule ← Rule.parse limits source
  let tokens ← (tokenize source.toList).mapError .scan
  return ⟨rule.holds tags, ← Clause.ofTokens limits tags tokens⟩

/-- Explains the verdict of a rule text within the standard limits. A text that is no
rule gets an empty explanation. -/
def explain (source : String) (tags : TagSet) : Logged Explanation :=
  match explain? .standard source tags with
  | .ok explanation => .silent explanation
  | .error error => ⟨.blank, [error.report "explain" source]⟩

end TagRules
