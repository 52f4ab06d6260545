import TagRules.Catalog
import TagRules.Rule

/-!
Activities and what can be counted about them: which ones a rule matches, how often
each tag occurs, and how many are concerned with each kind of tag.
-/

namespace TagRules

/-- A piece of work described by its tags. -/
structure Activity where
  title : String
  description : String
  tagKeys : List String
  deriving DecidableEq, Repr

namespace Activity

def plain (title : String) (tagKeys : List String) : Activity :=
  ⟨title, "", tagKeys⟩

def tags (activity : Activity) : TagSet :=
  .ofList activity.tagKeys

/-- The activities that a rule matches and those it does not, each in order. -/
def split (rule : Rule) (activities : List Activity) : List Activity × List Activity :=
  activities.partition (fun activity => rule.holds activity.tags)

def countMatching (rule : Rule) (activities : List Activity) : Nat :=
  activities.countP (fun activity => rule.holds activity.tags)

/-- Raises the count of a key by one. A key that has no count yet goes to the end. -/
def raise : List (String × Nat) → String → List (String × Nat)
  | [], key => [(key, 1)]
  | (other, count) :: rest, key =>
    if other = key then (other, count + 1) :: rest else (other, count) :: raise rest key

/-- Counts an activity under each of its keys. A key that it lists twice counts once. -/
def tally (counts : List (String × Nat)) (activity : Activity) : List (String × Nat) :=
  activity.tagKeys.eraseDups.foldl raise counts

/-- The keys in use and how many activities have each, the most frequent first. Keys
that are equally frequent stay in the order in which they first occur. -/
def frequency (activities : List Activity) : List (String × Nat) :=
  (activities.foldl tally []).mergeSort (fun first second => decide (second.2 ≤ first.2))

/-- Whether the activity has a tag of the kind. A key that the catalog lacks is of no
kind. -/
def concerns (catalog : Catalog) (kind : TagKind) (activity : Activity) : Bool :=
  activity.tagKeys.any fun key =>
    match catalog.get? key with
    | some entry => entry.kind = kind
    | none => false

/-- How many activities have a tag of each kind. -/
def distribution (catalog : Catalog) (activities : List Activity) : List (TagKind × Nat) :=
  TagKind.all.map (fun kind => (kind, activities.countP (concerns catalog kind)))

end Activity

end TagRules
