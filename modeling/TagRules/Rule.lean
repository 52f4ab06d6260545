import TagRules.Log
import TagRules.Rule.Parse

/-!
Rules and their verdicts. The strict functions say what is wrong with a rule text;
the lenient ones let a broken rule match nothing and log the reason, so that one
user's mistake cannot stop a whole run.
-/

namespace TagRules

/-- A rule that has been read, and the text it was read from. -/
structure Rule where
  source : String
  tree : Expr
  deriving DecidableEq, Repr

def Rule.parse (limits : Limits) (source : String) : Except RuleError Rule := do
  return ⟨source, ← Expr.parse limits source.toList⟩

def Rule.holds (rule : Rule) (tags : TagSet) : Bool :=
  rule.tree.holds tags

def Rule.canonical (rule : Rule) : String :=
  toString rule.tree

/-- What is logged when `operation` gives up on a rule text. A blank text is no more
than a remark. -/
def RuleError.report (operation : String) (source : String) (error : RuleError) : Log.Record :=
  if error.isEmptyExpression then
    ⟨.debug, s!"{operation}: empty rule expression treated as no match", []⟩
  else
    ⟨.warn, s!"{operation}: rule expression failed: {error.message} | expression: {source}", []⟩

/-- Whether a rule text matches a tag set, or what is wrong with the text. -/
def evaluate? (limits : Limits) (source : String) (tags : TagSet) : Except RuleError Bool := do
  return (← Rule.parse limits source).holds tags

/-- Whether a rule text matches a tag set. A text that is no rule matches nothing. -/
def evaluate (limits : Limits) (source : String) (tags : TagSet) : Logged Bool :=
  match evaluate? limits source tags with
  | .ok verdict => .silent verdict
  | .error error => ⟨false, [error.report "evaluate" source]⟩

def validate (source : String) : Except RuleError Unit := do
  let _ ← Rule.parse .standard source

end TagRules
