import TagRules.Text.Blank

/-!
What sorts of tags there are.
-/

namespace TagRules

/-- What a tag is about. -/
inductive TagKind where
  | ecosystem
  | method
  | data
  | governance
  | outcomes
  deriving DecidableEq, Repr

structure UnknownKind where
  name : String
  deriving DecidableEq, Repr

def UnknownKind.message (error : UnknownKind) : String :=
  s!"unknown tag kind '{error.name}', " ++
    "expected one of: ecosystem, method, data, governance, outcomes"

namespace TagKind

/-- The kinds in the order in which they are reported. -/
def all : List TagKind :=
  [ecosystem, method, data, governance, outcomes]

def name : TagKind → String
  | ecosystem => "ecosystem"
  | method => "method"
  | data => "data"
  | governance => "governance"
  | outcomes => "outcomes"

theorem mem_all (kind : TagKind) : kind ∈ all := by
  cases kind <;> decide

/-- The kind of a name. Blanks around the name and the case of its letters do not
matter. -/
def ofName (name : String) : Except UnknownKind TagKind :=
  match all.find? (fun kind => kind.name = Text.folded name) with
  | some kind => .ok kind
  | none => .error ⟨name⟩

end TagKind

end TagRules
