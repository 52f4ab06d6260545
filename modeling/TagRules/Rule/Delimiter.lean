/-!
The characters that give a rule text its structure: quotes around string
literals, and round and square brackets. Everything else is plain.
-/

namespace TagRules

/-- The two ways to quote a string literal. There are no escapes: a literal runs
to the next quote of its own kind. -/
inductive Quote where
  | double
  | single
  deriving DecidableEq, Repr

def Quote.char : Quote → Char
  | .double => '"'
  | .single => '\''

def Quote.ofChar? : Char → Option Quote
  | '"' => some .double
  | '\'' => some .single
  | _ => none

theorem Quote.ofChar?_eq_some {c : Char} {quote : Quote} :
    ofChar? c = some quote ↔ c = quote.char := by
  constructor
  · intro h
    unfold ofChar? at h
    split at h
    · cases h; rfl
    · cases h; rfl
    · cases h
  · rintro rfl
    cases quote <;> rfl

inductive Bracket where
  | round
  | square
  deriving DecidableEq, Repr

def Bracket.opening : Bracket → Char
  | .round => '('
  | .square => '['

def Bracket.closing : Bracket → Char
  | .round => ')'
  | .square => ']'

/-- What a character outside every literal does to the structure of a text. -/
inductive Mark where
  | plain
  | quote (quote : Quote)
  | opening (bracket : Bracket)
  | closing (bracket : Bracket)
  deriving DecidableEq, Repr

def Mark.ofChar : Char → Mark
  | '"' => .quote .double
  | '\'' => .quote .single
  | '(' => .opening .round
  | '[' => .opening .square
  | ')' => .closing .round
  | ']' => .closing .square
  | _ => .plain

@[simp] theorem Mark.ofChar_quote (quote : Quote) : ofChar quote.char = .quote quote := by
  cases quote <;> rfl

@[simp] theorem Mark.ofChar_opening (bracket : Bracket) :
    ofChar bracket.opening = .opening bracket := by
  cases bracket <;> rfl

@[simp] theorem Mark.ofChar_closing (bracket : Bracket) :
    ofChar bracket.closing = .closing bracket := by
  cases bracket <;> rfl

end TagRules
