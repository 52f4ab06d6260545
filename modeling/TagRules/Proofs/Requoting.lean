import TagRules.Proofs.Canonical
import TagRules.Proofs.Mentions

/-!
What becomes of keys that the canonical text cannot quote. There are no escapes, and the
canonical text has only double quotes, so a key with a double quote in it is not found
again. A key without one always is.
-/

namespace TagRules

open Text (byteSize)

/-- Every key stands between double quotes, whatever it contains. -/
def DoubleQuoted : List Char → List String → Prop :=
  Quoting (fun quote _ => quote = .double)

theorem Atom.doubleQuoted_quoted (key : String) : DoubleQuoted (quoted key) [key] := by
  have htext : DoubleQuoted _ [String.ofList key.toList] := .literal .double rfl .nil
  rw [String.ofList_toList] at htext
  exact htext

theorem Atom.doubleQuoted_text (test : Atom) : DoubleQuoted test.text test.keys := by
  have hcomma : DoubleQuoted [','] [] := .plain rfl .nil
  have hkeys : ∀ keys : List String,
      DoubleQuoted ([','].intercalate (keys.map quoted)) keys := by
    intro keys
    have hjoined := Quoting.intercalate hcomma (fun key (_ : key ∈ keys) => doubleQuoted_quoted key)
    rwa [List.flatMap_singleton'] at hjoined
  have hclosing : DoubleQuoted [')'] [] := .plain rfl .nil
  cases test with
  | has key => exact .between (.of_plain (by decide)) (doubleQuoted_quoted key) hclosing
  | hasAny keys => exact .between (.of_plain (by decide)) (hkeys keys) (.of_plain (by decide))
  | hasAll keys => exact .between (.of_plain (by decide)) (hkeys keys) (.of_plain (by decide))

theorem Expr.doubleQuoted_parenthesised {text : List Char} {keys : List String}
    (h : DoubleQuoted text keys) (needed : Bool) :
    DoubleQuoted (parenthesised needed text) keys := by
  have hopening : DoubleQuoted ['('] [] := .plain rfl .nil
  have hclosing : DoubleQuoted [')'] [] := .plain rfl .nil
  cases needed with
  | false => exact h
  | true => exact .between hopening h hclosing

/-- The canonical text names the keys of the tree in order. -/
theorem Expr.doubleQuoted_text (tree : Expr) : DoubleQuoted tree.text tree.keys := by
  induction tree using Expr.induction with
  | node op operands ih =>
    have hspace : DoubleQuoted [' '] [] := .plain rfl .nil
    have hspaced : DoubleQuoted op.spaced [] := .between hspace op.quoting_symbol hspace
    rw [text_node, keys_node]
    apply Quoting.intercalate hspaced
    intro operand hoperand
    exact doubleQuoted_parenthesised (ih operand hoperand) _
  | not operand ih => exact .plain rfl (doubleQuoted_parenthesised ih _)
  | atom test =>
    rw [keys_atom]
    exact test.doubleQuoted_text

theorem DoubleQuoted.delimited {text : List Char} {keys : List String}
    (h : DoubleQuoted text keys) (hkeys : Quotable keys) : Delimited text keys := by
  induction h with
  | nil => exact .nil
  | plain hc _ ih => exact .plain hc (ih hkeys)
  | @literal quote key rest keys hdouble _ ih =>
    subst hdouble
    have hkey := hkeys (String.ofList key) (by simp)
    rw [String.toList_ofList] at hkey
    exact .literal .double hkey (ih (fun other hother => hkeys other (by simp [hother])))

/-- A scan that finds the keys as they are has met no quote inside one. At the first such
quote it would end the literal too early. -/
theorem DoubleQuoted.quotable {text : List Char} {keys : List String}
    (h : DoubleQuoted text keys) (hscan : Mention.literals none text = keys) : Quotable keys := by
  induction h with
  | nil => exact fun key hkey => absurd hkey List.not_mem_nil
  | plain hc _ ih =>
    rw [Mention.literals_plain hc] at hscan
    exact ih hscan
  | @literal quote key rest keys hdouble _ ih =>
    subst hdouble
    -- The scan agrees with the keys here only if it does not stop inside this one.
    by_cases hmem : '"' ∈ key
    · obtain ⟨front, back, hkey, hfront⟩ := List.eq_append_cons_of_mem hmem
      have htext : Quote.double.char :: key ++ Quote.double.char :: rest =
          Quote.double.char :: front ++ Quote.double.char :: (back ++ '"' :: rest) := by
        rw [hkey]
        simp [Quote.char]
      rw [htext, Mention.literals_quoted hfront] at hscan
      have hcut : front = key := String.ofList_injective (List.cons.inj hscan).1
      have hlength := congrArg List.length (hcut.trans hkey)
      rw [List.length_append, List.length_cons] at hlength
      omega
    · rw [Mention.literals_quoted hmem] at hscan
      have hothers := ih (List.cons.inj hscan).2
      intro other hother
      rcases List.mem_cons.1 hother with rfl | hother
      · rwa [String.toList_ofList]
      · exact hothers other hother

theorem DoubleQuoted.not_mem_single {text : List Char} {keys : List String}
    (h : DoubleQuoted text keys) (hkeys : ∀ key ∈ keys, '\'' ∉ key.toList) : '\'' ∉ text := by
  induction h with
  | nil => exact List.not_mem_nil
  | plain hc _ ih =>
    rw [List.mem_cons, not_or]
    refine ⟨?_, ih hkeys⟩
    rintro rfl
    cases hc
  | @literal quote key rest keys hdouble _ ih =>
    subst hdouble
    have hkey := hkeys (String.ofList key) (by simp)
    have hrest := ih (fun other hother => hkeys other (by simp [hother]))
    rw [String.toList_ofList] at hkey
    simp [Quote.char, hkey, hrest]

theorem Delimited.quotable {text : List Char} {keys : List String} (h : Delimited text keys)
    (hsingle : '\'' ∉ text) : Quotable keys := by
  induction h with
  | nil => exact fun key hkey => absurd hkey List.not_mem_nil
  | plain _ _ ih => exact ih (fun hmem => hsingle (List.mem_cons_of_mem _ hmem))
  | @literal quote key rest keys hfree _ ih =>
    have hothers := ih (fun hmem => hsingle (by simp [hmem]))
    intro other hother
    rcases List.mem_cons.1 hother with rfl | hother
    · cases quote with
      | double => rwa [String.toList_ofList]
      | single => exact absurd (by simp [Quote.char]) hsingle
    · exact hothers other hother

/-- The canonical text of a rule is read as the same rule, flattened, exactly where no key
has a double quote in it. Such a key is lost: the text may be refused, and if it is not,
then the verdicts agree only where they do not depend on that key. The second hypothesis
says that the canonical text can be stored at all. -/
theorem Rule.parse_canonical_iff {source : String} {rule : Rule}
    (hparse : parse .unbounded source = .ok rule)
    (hfits : byteSize rule.tree.text ≤ Limits.largest) :
    (Quotable rule.tree.keys → ∃ again, parse .unbounded rule.canonical = .ok again ∧
      ∀ tags, again.holds tags = rule.holds tags) ∧
    (parse .unbounded rule.canonical = .ok ⟨rule.canonical, rule.tree.flatten⟩ ↔
      Quotable rule.tree.keys) ∧
    ((∀ key ∈ rule.tree.keys, '\'' ∉ key.toList) →
      ∀ again, parse .unbounded rule.canonical = .ok again →
        (∀ tags, again.holds tags = rule.holds tags) →
          ∀ key, '"' ∈ key.toList → ∀ tags, rule.holds (tags.insert key) = rule.holds tags) := by
  have hcanonical : rule.canonical.toList = rule.tree.text := String.toList_ofList
  have hbranching := branching_of_parse hparse
  have hread : Quotable rule.tree.keys →
      parse .unbounded rule.canonical = .ok ⟨rule.canonical, rule.tree.flatten⟩ := by
    intro hkeys
    have hdepth := Expr.depth_le_byteSize hbranching hkeys
    exact parse_toString hbranching hkeys hfits (Nat.le_trans hdepth hfits)
  refine ⟨?_, ⟨?_, hread⟩, ?_⟩
  · intro hkeys
    exact ⟨_, hread hkeys, fun tags => Expr.holds_flatten tags rule.tree⟩
  · intro hagain
    have hscan := Mention.literals_of_delimited (delimited_of_parse hagain)
    rw [hcanonical, Expr.keys_flatten] at hscan
    exact (Expr.doubleQuoted_text rule.tree).quotable hscan
  · -- The text has only double quotes, so no key that is read from it contains one.
    intro hsingle again hagain hverdict key hkey tags
    have htext := (Expr.doubleQuoted_text rule.tree).not_mem_single hsingle
    have hdelimited := delimited_of_parse hagain
    rw [hcanonical] at hdelimited
    have hquotable := hdelimited.quotable htext
    rw [← hverdict, ← hverdict]
    apply Expr.holds_congr
    intro other hother
    have hne : other ≠ key := by
      rintro rfl
      exact hquotable other hother hkey
    rw [Bool.eq_iff_iff, TagSet.contains_iff, TagSet.contains_iff, TagSet.mem_insert]
    simp [hne]

/-- One key with quotes and a comma in it becomes two, and a set with only that key no longer
matches. Single quotes around a key without double quotes do no harm. -/
theorem Rule.canonical_splits_key :
    let source := "scope.hasAny(['a\",\"b'])"
    let rule : Rule := ⟨source, .atom (.hasAny ["a\",\"b"])⟩
    let harmless : Rule := ⟨"scope.has('a b')", .atom (.has "a b")⟩
    (parse .unbounded source = .ok rule ∧ byteSize rule.tree.text ≤ Limits.largest ∧
      parse .unbounded rule.canonical = .ok ⟨rule.canonical, .atom (.hasAny ["a", "b"])⟩ ∧
      ¬∃ again, parse .unbounded rule.canonical = .ok again ∧
        ∀ tags, again.holds tags = rule.holds tags) ∧
    (parse .unbounded harmless.source = .ok harmless ∧
      byteSize harmless.tree.text ≤ Limits.largest ∧
      ∃ again, parse .unbounded harmless.canonical = .ok again ∧
        ∀ tags, again.holds tags = harmless.holds tags) := by
  intro source rule harmless
  have hparse : parse .unbounded source = .ok rule :=
    Outcomes.eq_ok_of_toOption (by decide +kernel)
  have hfits : byteSize rule.tree.text ≤ Limits.largest := by decide +kernel
  have hagain : parse .unbounded rule.canonical =
      .ok ⟨rule.canonical, .atom (.hasAny ["a", "b"])⟩ :=
    Outcomes.eq_ok_of_toOption (by decide +kernel)
  have hsafe : parse .unbounded harmless.source = .ok harmless :=
    Outcomes.eq_ok_of_toOption (by decide +kernel)
  have hshort : byteSize harmless.tree.text ≤ Limits.largest := by decide +kernel
  refine ⟨⟨hparse, hfits, hagain, ?_⟩, hsafe, hshort, ?_⟩
  · rintro ⟨again, hread, hverdict⟩
    have hsingle : ∀ key ∈ rule.tree.keys, '\'' ∉ key.toList := by decide +kernel
    have hsame := (parse_canonical_iff hparse hfits).2.2 hsingle again hread hverdict
      "a\",\"b" (by decide +kernel) .empty
    have hmatch : rule.holds (TagSet.empty.insert "a\",\"b") = true := by decide +kernel
    have hempty : rule.holds .empty = false := by decide +kernel
    rw [hmatch, hempty] at hsame
    cases hsame
  · exact (parse_canonical_iff hsafe hshort).1 (by decide +kernel)

end TagRules
