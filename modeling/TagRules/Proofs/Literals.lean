import TagRules.Mention
import TagRules.Proofs.Grammar

/-!
The literals of a text. A rule text is plain text with literals in it, each between two
quotes of a kind that it does not contain, so a scan that knows nothing of the grammar
finds exactly the keys of the rule's tests.
-/

namespace TagRules

open Text (isAllBlank isBlank)

/-- A text with keys between quotes in it. `legal` says which keys may stand between
which quotes. -/
inductive Quoting (legal : Quote → List Char → Prop) : List Char → List String → Prop where
  | nil : Quoting legal [] []
  | plain {c : Char} {rest : List Char} {keys : List String} :
      Quote.ofChar? c = none → Quoting legal rest keys → Quoting legal (c :: rest) keys
  | literal (quote : Quote) {key rest : List Char} {keys : List String} :
      legal quote key → Quoting legal rest keys →
        Quoting legal (quote.char :: key ++ quote.char :: rest) (String.ofList key :: keys)

/-- No key contains the quote that ends it. -/
def Delimited : List Char → List String → Prop :=
  Quoting (fun quote key => quote.char ∉ key)

namespace Quoting

variable {legal : Quote → List Char → Prop} {front back text : List Char}
  {keys others : List String}

theorem append (hfront : Quoting legal front keys) (hback : Quoting legal back others) :
    Quoting legal (front ++ back) (keys ++ others) := by
  induction hfront with
  | nil => exact hback
  | plain hc _ ih => exact .plain hc ih
  | literal quote hkey _ ih =>
    rw [List.append_assoc, List.cons_append]
    exact .literal quote hkey ih

theorem of_plain (h : text.all (fun c => (Quote.ofChar? c).isNone) = true) :
    Quoting legal text [] := by
  induction text with
  | nil => exact .nil
  | cons c rest ih =>
    rw [List.all_cons, Bool.and_eq_true] at h
    exact .plain (Option.isNone_iff_eq_none.1 h.1) (ih h.2)

theorem of_isAllBlank (h : isAllBlank text = true) : Quoting legal text [] := by
  apply of_plain
  rw [List.all_eq_true]
  intro c hc
  cases hquote : Quote.ofChar? c with
  | none => rfl
  | some quote =>
    have hblank := Text.isAllBlank_iff.1 h c hc
    rw [Quote.ofChar?_eq_some.1 hquote, quote.isBlank_char] at hblank
    cases hblank

theorem between (hfront : Quoting legal front []) (h : Quoting legal text keys)
    (hback : Quoting legal back []) : Quoting legal (front ++ text ++ back) keys := by
  have hwhole := (hfront.append h).append hback
  rwa [List.nil_append, List.append_nil] at hwhole

theorem of_trim (h : Quoting legal (Text.trim text) keys) : Quoting legal text keys := by
  obtain ⟨before, after, hbefore, hafter, htext⟩ := Text.exists_trim text
  rw [htext]
  exact between (of_isAllBlank hbefore) h (of_isAllBlank hafter)

theorem intercalate {α : Type} {separator : List Char} {items : List α}
    {texts : α → List Char} {mentioned : α → List String}
    (hseparator : Quoting legal separator [])
    (h : ∀ item ∈ items, Quoting legal (texts item) (mentioned item)) :
    Quoting legal (separator.intercalate (items.map texts)) (items.flatMap mentioned) := by
  induction items with
  | nil => exact .nil
  | cons item rest ih =>
    have hitem := h item (by simp)
    have hothers := ih (fun other hother => h other (by simp [hother]))
    by_cases hrest : rest = []
    · subst hrest
      rw [List.map_singleton, List.intercalate_singleton, List.flatMap_singleton]
      exact hitem
    · have hmap : rest.map texts ≠ [] := by simpa using hrest
      have hwhole := (hitem.append hseparator).append hothers
      rw [List.append_nil] at hwhole
      rw [List.map_cons, List.intercalate_cons_of_ne_nil hmap, List.flatMap_cons]
      exact hwhole

end Quoting

namespace Mention

theorem literals_plain {c : Char} (hc : Quote.ofChar? c = none) (rest : List Char) :
    literals none (c :: rest) = literals none rest := by
  rw [literals]
  simp only [hc]

theorem literals_within {quote : Quote} {key : List Char} (hkey : quote.char ∉ key)
    (read rest : List Char) :
    literals (some (quote, read)) (key ++ quote.char :: rest) =
      String.ofList (read.reverse ++ key) :: literals none rest := by
  induction key generalizing read with
  | nil =>
    rw [List.nil_append, List.append_nil, literals]
    simp
  | cons c key ih =>
    rw [List.mem_cons, not_or] at hkey
    have hc : c ≠ quote.char := fun h => hkey.1 h.symm
    rw [List.cons_append, literals]
    simp only [hc, if_false]
    rw [ih hkey.2, List.reverse_cons, List.append_assoc]
    rfl

theorem literals_quoted {quote : Quote} {key : List Char} (hkey : quote.char ∉ key)
    (rest : List Char) :
    literals none (quote.char :: key ++ quote.char :: rest) =
      String.ofList key :: literals none rest := by
  have hmem : quote.char ∈ key ++ quote.char :: rest := by simp
  have hquote : Quote.ofChar? quote.char = some quote := Quote.ofChar?_eq_some.2 rfl
  rw [List.cons_append, literals]
  simp only [hquote, hmem, if_true]
  exact literals_within hkey [] rest

/-- A scan finds the keys of a delimited text. -/
theorem literals_of_delimited {text : List Char} {keys : List String}
    (h : Delimited text keys) : literals none text = keys := by
  induction h with
  | nil => rfl
  | plain hc _ ih => rw [literals_plain hc, ih]
  | literal quote hkey _ ih => rw [literals_quoted hkey, ih]

end Mention

theorem LiteralText.delimited {text : List Char} {key : String} (h : LiteralText text key) :
    Delimited text [key] := by
  obtain ⟨quote, hfree⟩ := h
  exact .literal quote hfree .nil

theorem LiteralsText.delimited {text : List Char} {keys : List String}
    (h : LiteralsText text keys) : Delimited text keys := by
  induction h with
  | last hbefore htext hafter =>
    exact .between (.of_isAllBlank hbefore) htext.delimited (.of_isAllBlank hafter)
  | more hbefore htext hafter _ ih =>
    have hfirst := Quoting.between (.of_isAllBlank hbefore) htext.delimited (.of_isAllBlank hafter)
    exact hfirst.append (.plain rfl ih)

theorem ArrayText.delimited {text : List Char} {keys : List String} (h : ArrayText text keys) :
    Delimited text keys := by
  have hopening : Delimited ['['] [] := .plain rfl .nil
  have hclosing : Delimited [']'] [] := .plain rfl .nil
  cases h with
  | empty hblank => exact .between hopening (.of_isAllBlank hblank) hclosing
  | filled hinner => exact .between hopening hinner.delimited hclosing

theorem Atom.Spelling.delimited {text : List Char} {test : Atom} (h : Spelling text test) :
    Delimited text test.keys := by
  have hclosing : Delimited [')'] [] := .plain rfl .nil
  cases h with
  | has hkey => exact .between (.of_plain (by decide)) (.of_trim hkey.delimited) hclosing
  | hasAny hkeys => exact .between (.of_plain (by decide)) (.of_trim hkeys.delimited) hclosing
  | hasAll hkeys => exact .between (.of_plain (by decide)) (.of_trim hkeys.delimited) hclosing

theorem Operator.quoting_symbol {legal : Quote → List Char → Prop} (op : Operator) :
    Quoting legal op.symbol.toList [] := by
  apply Quoting.of_plain
  cases op <;> decide

theorem Phrase.delimited_joined (op : Operator) {parts : List Phrase}
    (h : ∀ part ∈ parts, Delimited part.text (part.tests.flatMap Atom.keys)) :
    Delimited (joined op parts).text ((joined op parts).tests.flatMap Atom.keys) := by
  have hjoined := Quoting.intercalate op.quoting_symbol h
  rw [joined, List.flatMap_assoc]
  exact hjoined

/-- The literals of a text that the grammar derives are the keys of its tests. -/
theorem Derives.delimited {nonterminal : Nonterminal} {phrase : Phrase}
    (h : Derives nonterminal phrase) :
    Delimited phrase.text (phrase.tests.flatMap Atom.keys) := by
  induction h with
  | test htest =>
    have hspell := Atom.parse_eq_ok_iff.1 htest
    rw [List.flatMap_singleton]
    exact .of_trim hspell.delimited
  | negated _ ih => exact .plain rfl ih
  | enclosed _ ih =>
    have hopening : Delimited ['('] [] := .plain rfl .nil
    have hclosing : Delimited [')'] [] := .plain rfl .nil
    exact .between hopening ih hclosing
  | operand _ ih => exact ih
  | conjunction _ _ ih => exact Phrase.delimited_joined .and ih
  | conjunct _ ih => exact ih
  | alternatives _ _ ih => exact Phrase.delimited_joined .or ih
  | padded hbefore hafter _ ih =>
    exact .between (.of_isAllBlank hbefore) ih (.of_isAllBlank hafter)

end TagRules
