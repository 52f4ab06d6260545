import TagRules.Rule.Delimiter

/-!
The tag keys that a text mentions, found without reading the text as a rule. Every
string literal counts, from left to right, so a half-written rule still tells which
tags it is about.
-/

namespace TagRules

/-- The contents of the string literals of a text. `open?` is the literal being read,
with its characters so far, the latest first. A quote that is not met again opens
nothing and is passed over. -/
def Mention.literals (open? : Option (Quote × List Char)) : List Char → List String
  | [] => []
  | c :: rest =>
    match open? with
    | some (quote, read) =>
      if c = quote.char then String.ofList read.reverse :: literals none rest
      else literals (some (quote, c :: read)) rest
    | none =>
      match Quote.ofChar? c with
      | some quote =>
        if quote.char ∈ rest then literals (some (quote, [])) rest else literals none rest
      | none => literals none rest

/-- The distinct keys that a text mentions, in the order of their first mention. The
empty literal mentions no key. -/
def mentionedKeys (text : String) : List String :=
  ((Mention.literals none text.toList).filter (fun key => !key.isEmpty)).eraseDups

end TagRules
