import TagRules.Proofs.Clauses
import TagRules.Proofs.DistinctKeys
import TagRules.Proofs.Levels

/-!
The keys of a clause as evidence for its verdict. They are read off the text of the clause,
while the verdict comes from reading the clause as a rule. Both meet the same test where the
text is one, or one behind a `!`, and then the keys that the tags hold and those that they lack
tell the verdict. A clause of any other form names no keys.
-/

namespace TagRules

open Text (isAllBlank)

namespace Clause

/-- The text of a clause that is a test, or a `!` and a test with blanks between the two. The
flag says whether there is a `!`. -/
inductive Tests : List Char → Bool → Atom → Prop where
  | plain {text : List Char} {test : Atom} : Atom.Spelling text test → Tests text false test
  | negated {blanks text : List Char} {test : Atom} :
      isAllBlank blanks = true → Atom.Spelling text test →
        Tests ('!' :: blanks ++ text) true test

/-- The lists of a clause tell the keys that the tags hold from those that they lack. -/
structure Sound (tags : TagSet) (clause : Clause) : Prop where
  nodup_matched : clause.matched.Nodup
  nodup_missing : clause.missing.Nodup
  disjoint : clause.matched.Disjoint clause.missing
  matched_mem : ∀ key ∈ clause.matched, key ∈ tags
  missing_not_mem : ∀ key ∈ clause.missing, key ∉ tags

/-- The lists of a clause hold these keys between them, and each list has its keys in the order
in which they are first mentioned. -/
structure Accounts (clause : Clause) (keys : List String) : Prop where
  mem_iff : ∀ key, key ∈ clause.matched ∨ key ∈ clause.missing ↔ key ∈ keys
  matched_order : clause.matched.Pairwise
    (fun first second => keys.idxOf first < keys.idxOf second)
  missing_order : clause.missing.Pairwise
    (fun first second => keys.idxOf first < keys.idxOf second)

/-- The verdict of a test, told from the lists of a clause. -/
def verdictOf (clause : Clause) : Atom → Bool
  | .has _ => clause.missing.isEmpty
  | .hasAny _ => !clause.matched.isEmpty
  | .hasAll _ => clause.missing.isEmpty

variable {tags : TagSet} {source : List Char} {negated : Bool} {test : Atom}

theorem Tests.head (h : Tests source negated test) :
    source.head? = if negated then some '!' else some 's' := by
  cases h with
  | plain hspell => exact hspell.head
  | negated _ _ => rfl

theorem Tests.derives (h : Tests source negated test) :
    ∃ phrase, Derives .chain phrase ∧ phrase.text = source ∧
      phrase.tree = if negated then .not (.atom test) else .atom test := by
  cases h with
  | plain hspell =>
    exact ⟨_, .conjunct (.operand (.test (Atom.parse_of_spelling hspell))), rfl, rfl⟩
  | negated hblanks hspell =>
    have hpadded :=
      Derives.padded hblanks Text.isAllBlank_nil (.test (Atom.parse_of_spelling hspell))
    refine ⟨_, .conjunct (.operand hpadded.negated), ?_, rfl⟩
    simp [Phrase.negated, Phrase.padded]

/-- The verdict of a clause is that of its test, the other way round behind a `!`. -/
theorem Tests.holds {limits : Limits} {tree : Expr} (h : Tests source negated test)
    (hparse : Expr.parse limits source = .ok tree) :
    tree.holds tags = (negated ^^ test.holds tags) := by
  obtain ⟨phrase, hderives, rfl, htree⟩ := h.derives
  rw [hderives.eq_tree_of_parse hparse, htree]
  cases negated with
  | false => simp
  | true => simp

theorem Tests.keys_eq (h : Tests source negated test) : keys source = test.keys.eraseDups := by
  unfold keys
  cases h with
  | plain hspell =>
    obtain ⟨rest, htext⟩ := List.head?_eq_some_iff.1 hspell.head
    have htrim := Text.trim_of_trimmed hspell.trimmed
    have hread := Atom.parse_of_spelling hspell
    rw [htext] at htrim hread
    simp [htext, htrim, hread]
  | @negated blanks text test hblanks hspell =>
    have hcore : Text.trim ('!' :: blanks ++ text) = '!' :: Text.trimEnd (blanks ++ text) :=
      Text.trim_cons rfl (blanks ++ text)
    have hread : Atom.parse (Text.trimEnd (blanks ++ text)) = .ok test := by
      rw [Atom.parse_eq_ok_iff, Text.trim_trimEnd, Text.trim_blank_append hblanks,
        Text.trim_of_trimmed hspell.trimmed]
      exact hspell
    simp only [hcore, hread]

/-- What is read behind a `!` may begin with blanks, and these are then the blanks between the
`!` and the test. -/
theorem Tests.of_parse {rest : List Char} (htrim : Text.trimEnd rest = rest)
    (h : Atom.parse rest = .ok test) : Tests ('!' :: rest) true test := by
  obtain ⟨blanks, hblanks, hrest⟩ := Text.trimStart_eq_append rest
  have hcore : Text.trim rest = Text.trimStart rest := by
    apply Text.trimEnd_of_last
    intro c hc
    apply Text.last_trimEnd rest c
    rw [htrim, hrest, List.getLast?_append, hc]
    rfl
  have hspell := Atom.parse_eq_ok_iff.1 h
  rw [hcore] at hspell
  have htests := Tests.negated hblanks hspell
  rwa [List.cons_append, ← hrest] at htests

/-- A trimmed text that names keys is a test or a `!` and a test. -/
theorem keys_eq_nil (htrim : Text.trim source = source)
    (h : ∀ negated test, ¬Tests source negated test) : keys source = [] := by
  unfold keys
  simp only [htrim]
  split
  · next test htest =>
    split at htest
    · next rest =>
      rw [Text.trim_cons rfl, List.cons.injEq] at htrim
      exact absurd (.of_parse htrim.2 htest) (h true test)
    · have hspell := Atom.parse_eq_ok_iff.1 htest
      rw [htrim] at hspell
      exact absurd (.plain hspell) (h false test)
  · rfl

theorem nodup_keys (source : List Char) : (keys source).Nodup := by
  unfold keys
  simp only []
  split
  · exact nodup_eraseDups _
  · exact List.nodup_nil

theorem sound_describe (tags : TagSet) (source : List Char) (holds : Bool)
    (joiner : Option Operator) : Sound tags (describe tags source holds joiner) := by
  have hmatched : ∀ key ∈ (keys source).filter tags.contains, key ∈ tags := by
    intro key hkey
    exact TagSet.contains_iff.1 (List.mem_filter.1 hkey).2
  have hmissing : ∀ key ∈ (keys source).filter (fun key => !tags.contains key), key ∉ tags := by
    intro key hkey hheld
    have hlacked := (List.mem_filter.1 hkey).2
    rw [TagSet.contains_iff.2 hheld] at hlacked
    cases hlacked
  exact ⟨(nodup_keys source).filter _, (nodup_keys source).filter _,
    fun key hheld hlacked => hmissing key hlacked (hmatched key hheld), hmatched, hmissing⟩

theorem Tests.accounts (h : Tests source negated test) (tags : TagSet) (holds : Bool)
    (joiner : Option Operator) : (describe tags source holds joiner).Accounts test.keys := by
  have horder := pairwise_idxOf_eraseDups test.keys
  rw [← h.keys_eq] at horder
  refine ⟨fun key => ?_, horder.filter _, horder.filter _⟩
  rw [describe, List.mem_filter, List.mem_filter, ← and_or_left, h.keys_eq, List.mem_eraseDups]
  exact and_iff_left (by cases tags.contains key <;> simp)

/-- The lists tell the verdict: nothing is missing of what all is asked for, or something is
there of what any is asked for. -/
theorem Tests.verdictOf_describe (h : Tests source negated test) (tags : TagSet) (holds : Bool)
    (joiner : Option Operator) :
    (describe tags source holds joiner).verdictOf test = test.holds tags := by
  have hempty : ∀ p : String → Bool, ((keys source).filter p).isEmpty = true ↔
      ∀ key ∈ test.keys, ¬p key = true := by
    intro p
    rw [List.isEmpty_iff, List.filter_eq_nil_iff, h.keys_eq]
    simp only [List.mem_eraseDups]
  have hmissing : (describe tags source holds joiner).missing.isEmpty =
      test.keys.all tags.contains := by
    rw [Bool.eq_iff_iff, describe, hempty, List.all_eq_true]
    simp
  have hmatched : (!(describe tags source holds joiner).matched.isEmpty) =
      test.keys.any tags.contains := by
    rw [Bool.not_eq_eq_eq_not, Bool.eq_iff_iff, describe, hempty]
    simp
  cases test with
  | has key => exact hmissing.trans (Bool.and_true _)
  | hasAny keys => exact hmatched
  | hasAll keys => exact hmissing

end Clause

/-- What a clause says of its keys bears out its verdict. -/
theorem explain?_evidence {limits : Limits} {source : String} {tags : TagSet}
    {explanation : Explanation} (h : explain? limits source tags = .ok explanation) :
    ∀ clause ∈ explanation.clauses, clause.Sound tags ∧
      (∀ negated test, Clause.Tests clause.source.toList negated test →
        clause.Accounts test.keys ∧ clause.holds = (negated ^^ clause.verdictOf test)) ∧
      ((∀ negated test, ¬Clause.Tests clause.source.toList negated test) →
        clause.matched = [] ∧ clause.missing = []) := by
  intro clause hclause
  obtain ⟨text, tree, joiner, htrim, hparse, rfl⟩ := exists_parse_of_mem_clauses h hclause
  have hsource : (Clause.describe tags text (tree.holds tags) joiner).source.toList = text :=
    String.toList_ofList
  rw [hsource]
  refine ⟨Clause.sound_describe _ _ _ _, fun negated test htests => ?_, fun hnone => ?_⟩
  · refine ⟨htests.accounts _ _ _, ?_⟩
    rw [htests.verdictOf_describe]
    exact htests.holds hparse
  · have hkeys := Clause.keys_eq_nil htrim hnone
    rw [Clause.describe, hkeys]
    exact ⟨rfl, rfl⟩

/-- Blanks behind a `!` do not hide its keys, while a group and a second `!` do. -/
theorem explain?_evidence_of_negation_and_group :
    let source := "!\tscope.hasAny(['b','a','b','c'])&&(scope.has('c'))|| !!scope.hasAll([])"
    let tags := TagSet.ofList ["a", "d"]
    let test : Atom := .hasAny ["b", "a", "b", "c"]
    let negation : Clause :=
      ⟨"!\tscope.hasAny(['b','a','b','c'])", false, ["a"], ["b", "c"], some .and⟩
    let group : Clause := ⟨"(scope.has('c'))", false, [], [], some .or⟩
    let last : Clause := ⟨"!!scope.hasAll([])", true, [], [], none⟩
    explain? .standard source tags = .ok ⟨true, [negation, group, last]⟩ ∧
      Clause.Tests negation.source.toList true test ∧ negation.Sound tags ∧
      negation.Accounts test.keys ∧ negation.holds = (true ^^ negation.verdictOf test) ∧
      (∀ negated test, ¬Clause.Tests group.source.toList negated test) ∧
      group.matched = [] ∧ group.missing = [] := by
  intro source tags test negation group last
  have hexplain : explain? .standard source tags = .ok ⟨true, [negation, group, last]⟩ :=
    Outcomes.eq_ok_of_toOption (by decide +kernel)
  have htests : Clause.Tests negation.source.toList true test := by
    let call := "scope.hasAny(['b','a','b','c'])".toList
    have hparse : Atom.parse call = .ok test := Outcomes.eq_ok_of_toOption (by decide +kernel)
    have htext : negation.source.toList = '!' :: ['\t'] ++ Text.trim call := by decide +kernel
    rw [htext]
    exact .negated rfl (Atom.parse_eq_ok_iff.1 hparse)
  have hgroup : ∀ negated test, ¬Clause.Tests group.source.toList negated test := by
    intro negated test h
    have hhead := h.head
    revert hhead
    cases negated <;> decide
  have hnegated := explain?_evidence hexplain negation (by simp)
  have hgrouped := explain?_evidence hexplain group (by simp)
  obtain ⟨haccounts, hholds⟩ := hnegated.2.1 true test htests
  exact ⟨hexplain, htests, hnegated.1, haccounts, hholds, hgroup, hgrouped.2.2 hgroup⟩

end TagRules
