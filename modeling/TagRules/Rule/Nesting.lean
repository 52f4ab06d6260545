import TagRules.Rule.Error

/-!
What is open at a place in a rule text. A scan carries one `Nesting` along and
steps it over each character; the text is well structured when no step fails
and nothing is open at the end.
-/

namespace TagRules

/-- The literal and the brackets that are open, each with the offset where it was
opened; the innermost bracket comes first. -/
structure Nesting where
  literal : Option (Quote × Nat)
  brackets : List (Bracket × Nat)
  deriving DecidableEq, Repr

def Nesting.top : Nesting :=
  ⟨none, []⟩

def Nesting.isTop (nesting : Nesting) : Bool :=
  nesting.literal.isNone && nesting.brackets.isEmpty

theorem Nesting.isTop_iff {nesting : Nesting} : nesting.isTop = true ↔ nesting = .top := by
  obtain ⟨literal, brackets⟩ := nesting
  simp [isTop, top, Option.isNone_iff_eq_none, List.isEmpty_iff]

def Nesting.close (brackets : List (Bracket × Nat)) (found : Bracket) (position : Nat) :
    Except ScanError Nesting :=
  match brackets with
  | [] => .error (.unexpectedCloser found position)
  | (opened, start) :: outer =>
    if opened = found then .ok ⟨none, outer⟩ else .error (.mismatched opened start found position)

/-- What is open after the character `c` at offset `position`. Inside a literal only
its own quote counts. -/
def Nesting.step (nesting : Nesting) (c : Char) (position : Nat) : Except ScanError Nesting :=
  match nesting.literal with
  | some (quote, _) => .ok (if c = quote.char then ⟨none, nesting.brackets⟩ else nesting)
  | none =>
    match Mark.ofChar c with
    | .plain => .ok nesting
    | .quote quote => .ok ⟨some (quote, position), nesting.brackets⟩
    | .opening bracket => .ok ⟨none, (bracket, position) :: nesting.brackets⟩
    | .closing bracket => close nesting.brackets bracket position

/-- Checks that nothing is left open at the end of a text. An open literal is
reported before an open bracket. -/
def Nesting.finish (nesting : Nesting) : Except ScanError Unit :=
  match nesting.literal, nesting.brackets with
  | some (_, start), _ => .error (.unterminatedQuote start)
  | none, (bracket, start) :: _ => .error (.unclosed bracket start)
  | none, [] => .ok ()

/-- The text up to the character that closes everything open, provided that this
character is the last one; it is not part of the answer. -/
def Nesting.inner? (nesting : Nesting) (position : Nat) : List Char → Option (List Char)
  | [] => none
  | c :: rest =>
    match nesting.step c position with
    | .error _ => none
    | .ok next =>
      if next.isTop then
        if rest.isEmpty then some [] else none
      else
        (next.inner? (position + c.utf8Size) rest).map (c :: ·)

/-- The text inside a single pair of parentheses that wraps all of `text`. The text
`(a) && (b)` begins and ends with a parenthesis and is not wrapped. -/
def group? : List Char → Option (List Char)
  | '(' :: rest => Nesting.inner? ⟨none, [(.round, 0)]⟩ 1 rest
  | _ => none

end TagRules
