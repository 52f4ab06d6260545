import TagRules.Proofs.Requoting
import TagRules.Proofs.Synthesis

/-!
The keys of a synthesised text found again. The text puts each key between double quotes and has
no other quotes, so where no key contains one, a scan for literals gives back the selected keys.
It cannot tell the modes apart: the keys come in the order in which the text has them.
-/

namespace TagRules

/-- The literals of a delimited text are its keys, and it mentions those that are not empty. -/
theorem mentionedKeys_of_delimited {source : String} {keys : List String}
    (h : Delimited source.toList keys) :
    (∀ found, Mention.Leftmost source.toList found ↔ found = keys) ∧
      mentionedKeys source = (keys.filter (fun key => key ≠ "")).eraseDups := by
  have hscan := Mention.literals_of_delimited h
  refine ⟨fun found => by rw [Mention.leftmost_iff, hscan], ?_⟩
  rw [mentionedKeys, hscan]
  apply congrArg
  apply List.filter_congr
  intro key _
  rw [Bool.eq_iff_iff]
  simp

/-- No selections make an empty text, which has no keys in it. -/
theorem Selection.delimited_expression {selections : List Selection}
    (h : Quotable (selections.map Selection.key)) :
    Delimited (expression selections).toList (selectedKeys selections) := by
  by_cases hne : selections = []
  · subst hne
    exact .nil
  · have htext : (toString (tree selections)).toList = (tree selections).text :=
      String.toList_ofList
    rw [expression_of_ne_nil hne, htext, ← keys_tree]
    apply (Expr.doubleQuoted_text _).delimited
    exact fun key hkey => h key (keys_tree_subset hkey)

theorem delimited_allOfExpression {keys : List String} (h : Quotable keys) :
    Delimited (allOfExpression keys).toList keys := by
  cases keys with
  | nil => exact .nil
  | cons key rest =>
    have htext : (allOfExpression (key :: rest)).toList = (Atom.hasAll (key :: rest)).text :=
      String.toList_ofList
    rw [htext]
    exact (Atom.hasAll (key :: rest)).doubleQuoted_text.delimited h

/-- The keys that a synthesised text mentions are the selected ones: those of which all are
required, then those of which one is, then the excluded ones. A search for literals finds them
one by one, the empty key and repeats with them. -/
theorem Selection.mentionedKeys_expression {selections : List Selection} {keys : List String}
    (hselections : Quotable (selections.map Selection.key)) (hkeys : Quotable keys) :
    let selected := keysOf .mustHaveAll selections ++ keysOf .anyOf selections ++
      keysOf .exclude selections
    ((∀ found, Mention.Leftmost (expression selections).toList found ↔ found = selected) ∧
      mentionedKeys (expression selections) =
        (selected.filter (fun key => key ≠ "")).eraseDups) ∧
    (∀ found, Mention.Leftmost (allOfExpression keys).toList found ↔ found = keys) ∧
      mentionedKeys (allOfExpression keys) = (keys.filter (fun key => key ≠ "")).eraseDups :=
  ⟨mentionedKeys_of_delimited (delimited_expression hselections),
    mentionedKeys_of_delimited (delimited_allOfExpression hkeys)⟩

/-- Single quotes, commas, brackets and operators in a key do not matter. A key of two modes stays
where the first mode has it. -/
theorem Selection.mentionedKeys_expression_of_odd_keys :
    let selections : List Selection := [⟨"it's", .anyOf⟩, ⟨"a', 'b]", .exclude⟩,
      ⟨"", .mustHaveAll⟩, ⟨"&& !(", .mustHaveAll⟩, ⟨"it's", .exclude⟩, ⟨"'", .anyOf⟩,
      ⟨"&& !(", .anyOf⟩]
    let keys := ["x", "", "'y'", "x"]
    Quotable (selections.map Selection.key) ∧ Quotable keys ∧
      Mention.Leftmost (expression selections).toList
        ["", "&& !(", "it's", "'", "&& !(", "a', 'b]", "it's"] ∧
      mentionedKeys (expression selections) = ["&& !(", "it's", "'", "a', 'b]"] ∧
      mentionedKeys (allOfExpression keys) = ["x", "'y'"] := by
  intro selections keys
  have hselections : Quotable (selections.map Selection.key) := by decide +kernel
  have hkeys : Quotable keys := by decide +kernel
  obtain ⟨⟨hfound, hmentioned⟩, -, hall⟩ := mentionedKeys_expression hselections hkeys
  exact ⟨hselections, hkeys, (hfound _).2 (by decide), hmentioned.trans (by decide +kernel),
    hall.trans (by decide +kernel)⟩

end TagRules
