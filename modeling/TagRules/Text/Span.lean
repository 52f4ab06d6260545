import TagRules.Text.Blank

/-!
A stretch of a larger text, together with the place where it stands. Complaints
about a rule name places as byte offsets into the text they were handed, and a
span keeps that offset right while the text is cut into ever smaller pieces.
-/

namespace TagRules.Text

/-- A stretch of text and the offset, in UTF-8 bytes, at which it starts. -/
structure Span where
  text : List Char
  start : Nat
  deriving DecidableEq, Repr

def Span.whole (text : List Char) : Span :=
  ⟨text, 0⟩

def Span.stop (span : Span) : Nat :=
  span.start + byteSize span.text

/-- The span without the blanks around its text. A span of blanks alone shrinks
to its own end. -/
def Span.trim (span : Span) : Span :=
  ⟨Text.trim span.text, span.start + byteSize (span.text.takeWhile isBlank)⟩

end TagRules.Text
