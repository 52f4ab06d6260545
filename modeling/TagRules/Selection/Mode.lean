import TagRules.Text.Blank

/-!
The three ways in which a selected tag can bear on a rule, and the cycle in which
repeated clicks step through them.
-/

namespace TagRules

/-- How a selected tag bears on a rule. -/
inductive SelectionMode where
  /-- The subject carries this tag and all others of the mode. -/
  | mustHaveAll
  /-- The subject carries at least one of the tags of the mode. -/
  | anyOf
  /-- The subject does not carry this tag. -/
  | exclude
  deriving DecidableEq, Repr

structure UnknownMode where
  name : String
  deriving DecidableEq, Repr

def UnknownMode.message (error : UnknownMode) : String :=
  s!"unknown selection mode '{error.name}', expected one of: must_have_all, any_of, exclude"

namespace SelectionMode

/-- The modes in the order of the cycle. -/
def all : List SelectionMode :=
  [mustHaveAll, anyOf, exclude]

def name : SelectionMode → String
  | mustHaveAll => "must_have_all"
  | anyOf => "any_of"
  | exclude => "exclude"

/-- The mode after this one in the cycle; the last is followed by no selection. -/
def next? : SelectionMode → Option SelectionMode
  | mustHaveAll => some anyOf
  | anyOf => some exclude
  | exclude => none

/-- The mode of a name or of its short form. Blanks around the name and the case of
its letters do not matter. -/
def ofName (name : String) : Except UnknownMode SelectionMode :=
  match Text.folded name with
  | "must_have_all" => .ok mustHaveAll
  | "all" => .ok mustHaveAll
  | "any_of" => .ok anyOf
  | "any" => .ok anyOf
  | "exclude" => .ok exclude
  | "none" => .ok exclude
  | _ => .error ⟨name⟩

end SelectionMode

end TagRules
