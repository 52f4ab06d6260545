import TagRules.Activity
import TagRules.Explanation

/-!
What commands print for people: lines of text, with tags shown by their labels where
a catalog is at hand.
-/

namespace TagRules.CommandLine

/-- What is printed when help is asked for. -/
def helpLines : List String := [
  "Evaluate, explain and synthesise tag rules.",
  "",
  "eval <RULE> [--tag <KEY>]... [--strict]",
  "explain <RULE> [--tag <KEY>]... [--catalog <FILE>] [--json]",
  "build [--all <KEY>]... [--any <KEY>]... [--exclude <KEY>]...",
  "keys <RULE>",
  "check <RULE>",
  "filter <RULE> --activities <FILE> [--json]",
  "stats --activities <FILE> [--catalog <FILE>]",
  "",
  "Every command takes --log-level <LEVEL>, --max-depth <N> and --max-length <N>."]

def labelIn (catalog : Option Catalog) (key : String) : String :=
  match catalog with
  | some catalog => catalog.labelOf key
  | none => key

/-- A text with spaces after it, up to so many characters. A width has 16 bits. -/
def padded (width : UInt16) (text : String) : String :=
  text ++ String.ofList (List.replicate (width.toNat - text.length) ' ')

/-- The width of a column, if there are columns as wide as that. -/
def columnWidth (width : Nat) : Except Nat UInt16 :=
  if width < UInt16.size then .ok (.ofNat width) else .error width

/-- A line of labels under a heading; none for no keys. -/
def keyLines (catalog : Option Catalog) (heading : String) : List String → List String
  | [] => []
  | keys => [s!"      {heading}: " ++ ", ".intercalate (keys.map (labelIn catalog))]

/-- The lines of a clause: its mark and text, its keys, and the operator after it. -/
def clauseLines (catalog : Option Catalog) (clause : Clause) : List String :=
  let mark := if clause.holds then "+" else "-"
  s!"  {mark} {clause.source}" :: keyLines catalog "matched" clause.matched ++
    keyLines catalog "missing" clause.missing ++
    (match clause.joiner with
      | some op => [s!"  {op.symbol}"]
      | none => [])

def explanationLines (catalog : Option Catalog) (explanation : Explanation) : List String :=
  let verdict := if explanation.holds then "match" else "no match"
  let total := explanation.clauses.length
  s!"{verdict} ({explanation.matchedCount} of {total} clauses matched)" ::
    explanation.clauses.flatMap (clauseLines catalog)

/-- The lines of the activities that a rule matches, out of `total`. -/
def matchLines (matched : List Activity) (total : Nat) : List String :=
  matched.map Activity.title ++ [s!"{matched.length} of {total} activities match"]

def frequencyHeading : String :=
  "tag frequency:"

/-- How many bytes the longest label of a ranking has. The column of labels has as many
characters. -/
def labelWidth (catalog : Option Catalog) (frequency : List (String × Nat)) : Nat :=
  (frequency.map fun (key, _) => Text.byteSize (labelIn catalog key).toList).foldr max 0

/-- The lines of a ranking under its heading. -/
def frequencyLines (catalog : Option Catalog) (width : UInt16) (frequency : List (String × Nat)) :
    List String :=
  frequency.map fun (key, count) => s!"  {padded width (labelIn catalog key)}  {count}"

def distributionLines (distribution : List (TagKind × Nat)) : List String :=
  "kind distribution:" :: distribution.map fun (kind, count) =>
    s!"  {padded 10 kind.name}  {count}"

end TagRules.CommandLine
