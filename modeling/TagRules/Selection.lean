import TagRules.Rule.Expr
import TagRules.Selection.Mode

/-!
Rules synthesised from selected tags. The selections of one mode keep their order,
and the modes come in a fixed order, so equal selections give equal texts.
-/

namespace TagRules

/-- A tag key and how it is to bear on a rule. -/
structure Selection where
  key : String
  mode : SelectionMode
  deriving DecidableEq, Repr

def Selection.keysOf (mode : SelectionMode) (selections : List Selection) : List String :=
  (selections.filter (·.mode = mode)).map key

/-- A test over keys, or nothing where there are no keys. -/
def Selection.testOver (test : List String → Atom) : List String → List Expr
  | [] => []
  | keys => [.atom (test keys)]

/-- The conditions that selections ask for: one for all required keys, one for all
keys of which one is enough, and one for each excluded key. -/
def Selection.conditions (selections : List Selection) : List Expr :=
  testOver .hasAll (keysOf .mustHaveAll selections) ++
    testOver .hasAny (keysOf .anyOf selections) ++
      (keysOf .exclude selections).map (fun key => .not (.atom (.has key)))

/-- The text of the rule that selections ask for. No selections ask for no rule, and
its text is empty. -/
def Selection.expression (selections : List Selection) : String :=
  match conditions selections with
  | [] => ""
  | conditions => toString (Expr.group .and conditions)

/-- The text of the rule that asks for all of some keys. -/
def allOfExpression : List String → String
  | [] => ""
  | keys => toString (Atom.hasAll keys)

end TagRules
