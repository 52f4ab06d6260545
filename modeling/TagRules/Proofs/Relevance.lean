import TagRules.Proofs.Clauses
import TagRules.Proofs.Mentions

/-!
What a verdict depends on. Two tag sets that agree on the keys that a text mentions cannot be
told apart by its rule, nor by what is said of its clauses. A test of the empty key is the one
test that the mentioned keys do not show.
-/

namespace TagRules

theorem mem_mentionedKeys {source key : String} :
    key ∈ mentionedKeys source ↔ key ≠ "" ∧ key ∈ Mention.literals none source.toList := by
  rw [mentionedKeys, List.mem_eraseDups, List.mem_filter, and_comm]
  simp

/-- A rule tests no key that its text does not mention, the empty key aside. -/
theorem Rule.mentioned_of_mem_keys {limits : Limits} {source key : String} {rule : Rule}
    (h : parse limits source = .ok rule) (hkey : key ∈ rule.tree.keys) :
    key = "" ∨ key ∈ mentionedKeys source := by
  rw [mem_mentionedKeys, Mention.literals_of_delimited (delimited_of_parse h)]
  by_cases hempty : key = ""
  · exact .inl hempty
  · exact .inr ⟨hempty, hkey⟩

theorem Atom.delimited_of_parse {text : List Char} {test : Atom} (h : parse text = .ok test) :
    Delimited text test.keys :=
  .of_trim (parse_eq_ok_iff.1 h).delimited

/-- The keys named by a clause are keys of its tree, though they are read off its text. -/
theorem Clause.keys_subset {limits : Limits} {text : List Char} {tree : Expr}
    (h : Expr.parse limits text = .ok tree) : keys text ⊆ tree.keys := by
  rw [← Mention.literals_of_delimited (Expr.delimited_of_parse h)]
  have hnamed {test : Atom} (htrim : Delimited (Text.trim text) test.keys) :
      test.keys.eraseDups ⊆ Mention.literals none text := by
    rw [Mention.literals_of_delimited (.of_trim htrim)]
    intro key hkey
    exact List.mem_eraseDups.1 hkey
  unfold keys
  simp only []
  split
  · next test htest =>
    apply hnamed
    split at htest
    · next rest hrest =>
      rw [hrest]
      exact .plain rfl (Atom.delimited_of_parse htest)
    · exact Atom.delimited_of_parse htest
  · exact List.nil_subset _

theorem Clause.describe_congr {tags others : TagSet} {text : List Char}
    (h : ∀ key ∈ keys text, tags.contains key = others.contains key) (holds : Bool)
    (joiner : Option Operator) :
    describe tags text holds joiner = describe others text holds joiner := by
  have hmatched : (keys text).filter tags.contains = (keys text).filter others.contains :=
    List.filter_congr h
  have hmissing : (keys text).filter (fun key => !tags.contains key) =
      (keys text).filter (fun key => !others.contains key) :=
    List.filter_congr (fun key hkey => congrArg not (h key hkey))
  rw [describe, describe, hmatched, hmissing]

theorem Expr.keys_ofAlternatives (first : List Expr) (rows : List (List Expr)) :
    (ofAlternatives first rows).keys = (first ++ rows.flatten).flatMap keys := by
  have hgroup := keys_group .or ((first :: rows).map (group Operator.and.node))
  rw [List.flatMap_map, funext (keys_group .and), ← List.flatMap_assoc, List.flatMap_id',
    List.flatten_cons] at hgroup
  exact hgroup

variable {tags others : TagSet}

theorem Pieces.Reads.clauses_congr {limits : Limits} {pieces : Pieces} {first : List Expr}
    {rows : List (List Expr)}
    (hreads : pieces.Reads (fun text tree => Expr.parse limits (Text.trim text) = .ok tree)
      first rows)
    (h : ∀ tree ∈ first ++ rows.flatten, ∀ key ∈ tree.keys,
      tags.contains key = others.contains key) :
    pieces.clauses tags (first ++ rows.flatten) =
      pieces.clauses others (first ++ rows.flatten) := by
  -- A clause names keys of its own tree only, and its verdict is that of this tree.
  have hclause {text : List Char} {tree : Expr} (joiner : Option Operator)
      (htext : Expr.parse limits (Text.trim text) = .ok tree)
      (hkeys : ∀ key ∈ tree.keys, tags.contains key = others.contains key) :
      Clause.describe tags (Text.trim text) (tree.holds tags) joiner =
        Clause.describe others (Text.trim text) (tree.holds others) joiner := by
    rw [Expr.holds_congr hkeys]
    exact Clause.describe_congr (fun key hkey => hkeys key (Clause.keys_subset htext hkey)) _ _
  induction hreads with
  | last htext =>
    rw [List.flatten_nil, List.append_nil, List.forall_mem_singleton] at h
    exact congrArg (fun clause => [clause]) (hclause none htext h)
  | and htext _ ih =>
    rw [List.cons_append, List.forall_mem_cons] at h
    rw [List.cons_append, clauses, clauses, hclause _ htext h.1, ih h.2]
  | or htext _ ih =>
    rw [List.flatten_cons, List.singleton_append, List.forall_mem_cons] at h
    rw [List.flatten_cons, List.singleton_append, clauses, clauses, hclause _ htext h.1, ih h.2]

/-- The strict functions answer alike for tag sets that agree on the mentioned keys. -/
theorem strict_congr (limits : Limits) {source : String}
    (h : ∀ key, key = "" ∨ key ∈ mentionedKeys source → (key ∈ tags ↔ key ∈ others)) :
    evaluate? limits source tags = evaluate? limits source others ∧
      explain? limits source tags = explain? limits source others := by
  cases hparse : Rule.parse limits source with
  | error error =>
    rw [evaluate?, evaluate?, explain?, explain?, hparse]
    exact ⟨rfl, rfl⟩
  | ok rule =>
    have hagree : ∀ key ∈ rule.tree.keys, tags.contains key = others.contains key := by
      intro key hkey
      rw [Bool.eq_iff_iff, TagSet.contains_iff, TagSet.contains_iff]
      exact h key (Rule.mentioned_of_mem_keys hparse hkey)
    have hholds : rule.holds tags = rule.holds others := Expr.holds_congr hagree
    constructor
    · rw [evaluate?, evaluate?, hparse]
      exact congrArg Except.ok hholds
    · obtain ⟨pieces, first, rows, -, hreads, htree, hexplain⟩ := exists_explain?_eq_ok hparse
      have htrees := hreads.mono (fun _ _ htext => htext.1.parse (Nat.le_refl _) htext.2)
      have hrows : ∀ tree ∈ first ++ rows.flatten, ∀ key ∈ tree.keys,
          tags.contains key = others.contains key := by
        intro tree hmem key hkey
        apply hagree
        rw [htree, Expr.keys_ofAlternatives]
        exact List.mem_flatMap.2 ⟨tree, hmem, hkey⟩
      rw [hexplain, hexplain, hholds, htrees.clauses_congr hrows]

/-- A verdict and its explanation depend only on which of the mentioned keys, and of the empty
one, are among the tags. Their order, repeats and all other keys make no difference. -/
theorem relevant_keys_suffice (limits : Limits) (source : String) (keys others : List String)
    (h : ∀ key, key = "" ∨ key ∈ mentionedKeys source → (key ∈ keys ↔ key ∈ others)) :
    evaluate? limits source (.ofList keys) = evaluate? limits source (.ofList others) ∧
      evaluate limits source (.ofList keys) = evaluate limits source (.ofList others) ∧
      explain? limits source (.ofList keys) = explain? limits source (.ofList others) ∧
      explain source (.ofList keys) = explain source (.ofList others) := by
  have hagree : ∀ key, key = "" ∨ key ∈ mentionedKeys source →
      (key ∈ TagSet.ofList keys ↔ key ∈ TagSet.ofList others) := by
    intro key hkey
    rw [TagSet.mem_ofList, TagSet.mem_ofList]
    exact h key hkey
  obtain ⟨hevaluate, hexplain⟩ := strict_congr limits hagree
  refine ⟨hevaluate, ?_, hexplain, ?_⟩
  · rw [evaluate, evaluate, hevaluate]
  · rw [explain, explain, (strict_congr .standard hagree).2]

/-- Of all these tags, the text mentions `a` only, though it tests the empty key too. -/
theorem relevant_keys_suffice_in_group :
    let source := "scope.has('a') && !(scope.hasAny([\"b\", \"\"]) || scope.hasAll(['d', 'a']))"
    let keys := ["a", "c", "x"]
    let others := ["y", "a", "a", "z"]
    (∀ key, key = "" ∨ key ∈ mentionedKeys source → (key ∈ keys ↔ key ∈ others)) ∧
      evaluate? .standard source (.ofList keys) = .ok true ∧
      evaluate? .standard source (.ofList others) = .ok true ∧
      explain? .standard source (.ofList keys) = explain? .standard source (.ofList others) := by
  intro source keys others
  have hmentioned : mentionedKeys source = ["a", "b", "d"] := by decide +kernel
  have h : ∀ key, key = "" ∨ key ∈ mentionedKeys source → (key ∈ keys ↔ key ∈ others) := by
    rw [hmentioned]
    rintro key (rfl | hkey)
    · decide
    · simp only [List.mem_cons, List.not_mem_nil, or_false] at hkey
      rcases hkey with rfl | rfl | rfl
      · decide
      · decide
      · decide
  have hverdict : evaluate? .standard source (.ofList keys) = .ok true := by decide +kernel
  obtain ⟨hevaluate, -, hexplain, -⟩ := relevant_keys_suffice .standard source keys others h
  exact ⟨h, hverdict, hevaluate ▸ hverdict, hexplain⟩

end TagRules
