import TagRules.Proofs.Literals
import TagRules.Proofs.Reading

/-!
The keys that a text mentions against the keys that its rule tests. The scan finds the
leftmost literals that do not overlap, whatever the text is. In the text of a rule these
are the keys of its tests, one by one and in order.
-/

namespace TagRules

namespace Mention

/-- No literal begins at any of the first `count` characters of a text. -/
def Barren (count : Nat) (text : List Char) : Prop :=
  ∀ front back, text = front ++ back → front.length < count →
    ∀ (quote : Quote) (key rest : List Char), quote.char ∉ key →
      back ≠ quote.char :: key ++ quote.char :: rest

/-- The literals of a text as a search finds them: each begins as far to the left as any
does, and the search goes on behind it. -/
inductive Leftmost : List Char → List String → Prop where
  | none {text : List Char} : Barren text.length text → Leftmost text []
  | next (quote : Quote) {skipped key rest : List Char} {keys : List String} :
      Barren skipped.length (skipped ++ (quote.char :: key ++ quote.char :: rest)) →
        quote.char ∉ key → Leftmost rest keys →
          Leftmost (skipped ++ (quote.char :: key ++ quote.char :: rest))
            (String.ofList key :: keys)

theorem Barren.tail {count : Nat} {c : Char} {rest : List Char}
    (h : Barren (count + 1) (c :: rest)) : Barren count rest := by
  intro front back htext hlength
  apply h (c :: front) back
  · rw [htext, List.cons_append]
  · rw [List.length_cons]
    omega

theorem Barren.cons {count : Nat} {c : Char} {rest : List Char} (hhead : Barren 1 (c :: rest))
    (htail : Barren count rest) : Barren (count + 1) (c :: rest) := by
  intro front back htext hlength
  cases front with
  | nil => exact hhead [] back htext Nat.one_pos
  | cons d front =>
    obtain ⟨-, hrest⟩ := List.cons.inj htext
    apply htail front back hrest
    rw [List.length_cons] at hlength
    omega

/-- A quote that is not met again begins no literal. -/
theorem barren_one_iff {c : Char} {rest : List Char} :
    Barren 1 (c :: rest) ↔ ∀ quote : Quote, c = quote.char → quote.char ∉ rest := by
  constructor
  · rintro h quote rfl hmem
    obtain ⟨key, after, hrest, hfree⟩ := List.eq_append_cons_of_mem hmem
    apply h [] (quote.char :: rest) rfl Nat.one_pos quote key after hfree
    rw [hrest, List.cons_append]
  · rintro h front back htext hlength quote key after hfree rfl
    obtain rfl : front = [] := List.length_eq_zero_iff.1 (by omega)
    obtain ⟨hc, hrest⟩ := List.cons.inj htext
    apply h quote hc
    rw [hrest]
    simp

theorem literals_cons_of_barren {c : Char} {rest : List Char} (h : Barren 1 (c :: rest)) :
    literals none (c :: rest) = literals none rest := by
  cases hquote : Quote.ofChar? c with
  | none => exact literals_plain hquote rest
  | some quote =>
    have hmissing := barren_one_iff.1 h quote (Quote.ofChar?_eq_some.1 hquote)
    rw [literals]
    simp only [hquote, hmissing, if_false]

theorem literals_append_of_barren {front back : List Char}
    (h : Barren front.length (front ++ back)) :
    literals none (front ++ back) = literals none back := by
  induction front with
  | nil => rfl
  | cons c front ih =>
    have hhead : Barren 1 (c :: (front ++ back)) := by
      intro before after htext hlength
      apply h before after htext
      rw [List.length_cons]
      omega
    rw [List.cons_append, literals_cons_of_barren hhead, ih h.tail]

theorem Leftmost.cons {c : Char} {rest : List Char} {keys : List String}
    (hhead : Barren 1 (c :: rest)) (h : Leftmost rest keys) : Leftmost (c :: rest) keys := by
  cases h with
  | none hbarren => exact .none (hhead.cons hbarren)
  | @next quote skipped key rest keys hbarren hfree hrest =>
    have hskipped : Barren (c :: skipped).length
        ((c :: skipped) ++ (quote.char :: key ++ quote.char :: rest)) := hhead.cons hbarren
    exact .next quote hskipped hfree hrest

/-- Every text has a search, and its literals are those that the scan gives. -/
theorem leftmost_literals (text : List Char) : Leftmost text (literals none text) := by
  -- The induction is on the length: behind a literal the search goes on with what is left.
  induction hlength : text.length using Nat.strongRecOn generalizing text with
  | _ length ih =>
    cases text with
    | nil => exact .none (fun front back _ h => absurd h (Nat.not_lt_zero _))
    | cons c rest =>
      rw [List.length_cons] at hlength
      by_cases hbarren : Barren 1 (c :: rest)
      · rw [literals_cons_of_barren hbarren]
        exact .cons hbarren (ih rest.length (by omega) rest rfl)
      · rw [barren_one_iff] at hbarren
        push Not at hbarren
        obtain ⟨quote, rfl, hmem⟩ := hbarren
        obtain ⟨key, after, rfl, hfree⟩ := List.eq_append_cons_of_mem hmem
        have hafter : after.length < length := by
          rw [List.length_append, List.length_cons] at hlength
          omega
        have hstart : Barren ([] : List Char).length
            ([] ++ (quote.char :: key ++ quote.char :: after)) :=
          fun _ _ _ h => absurd h (Nat.not_lt_zero _)
        rw [← List.cons_append, literals_quoted hfree]
        exact .next quote hstart hfree (ih after.length hafter after rfl)

theorem leftmost_iff {text : List Char} {found : List String} :
    Leftmost text found ↔ found = literals none text := by
  constructor
  · intro h
    induction h with
    | @none text hbarren =>
      have hskip : literals none (text ++ []) = literals none [] :=
        literals_append_of_barren (by rwa [List.append_nil])
      rw [List.append_nil] at hskip
      exact hskip.symm
    | next quote hbarren hfree _ ih =>
      rw [literals_append_of_barren hbarren, literals_quoted hfree, ih]
  · rintro rfl
    exact leftmost_literals text

end Mention

theorem Expr.delimited_of_parse {limits : Limits} {text : List Char} {tree : Expr}
    (h : parse limits text = .ok tree) : Delimited text tree.keys := by
  obtain ⟨-, tests, depth, -, hderives⟩ := parse_eq_ok_iff.1 h
  rw [keys, show tree.atoms = tests from hderives.atoms_eq]
  exact hderives.delimited

theorem Rule.delimited_of_parse {limits : Limits} {source : String} {rule : Rule}
    (h : parse limits source = .ok rule) : Delimited source.toList rule.tree.keys :=
  Expr.delimited_of_parse (parse_eq_ok_iff.1 h).2

/-- The literals of a rule text are the keys of its tests, in order, so the keys that it
mentions are those of the tests without the empty one and without repeats. -/
theorem Rule.mentionedKeys_of_parse {limits : Limits} {source : String} {rule : Rule}
    (h : parse limits source = .ok rule) :
    (∀ found, Mention.Leftmost source.toList found ↔
      found = rule.tree.atoms.flatMap Atom.keys) ∧
    mentionedKeys source =
      ((rule.tree.atoms.flatMap Atom.keys).filter (fun key => key ≠ "")).eraseDups := by
  have hscan : Mention.literals none source.toList = rule.tree.atoms.flatMap Atom.keys :=
    Mention.literals_of_delimited (delimited_of_parse h)
  refine ⟨fun found => by rw [Mention.leftmost_iff, hscan], ?_⟩
  have hempty : ∀ key : String, (!key.isEmpty) = decide (key ≠ "") := by
    intro key
    rw [Bool.eq_iff_iff]
    simp
  rw [mentionedKeys, hscan]
  simp only [hempty]

/-- A key may hold the quotes of the other kind, and the empty key and repeats are found but
not mentioned. -/
theorem Rule.mentionedKeys_of_mixed_quotes :
    let source :=
      "!(scope.hasAny([\"it's\", 'a \"b\"', \"\"])||scope.has('x'))" ++
        " && scope.hasAll([\"x\",\"it's\"])"
    let rule : Rule := ⟨source, .and [.not (.or [.atom (.hasAny ["it's", "a \"b\"", ""]),
      .atom (.has "x")]), .atom (.hasAll ["x", "it's"])]⟩
    parse .unbounded source = .ok rule ∧
      Mention.Leftmost source.toList ["it's", "a \"b\"", "", "x", "x", "it's"] ∧
      mentionedKeys source = ["it's", "a \"b\"", "x"] := by
  intro source rule
  have hparse : parse .unbounded source = .ok rule :=
    Outcomes.eq_ok_of_toOption (by decide +kernel)
  obtain ⟨hfound, hkeys⟩ := mentionedKeys_of_parse hparse
  exact ⟨hparse, (hfound _).2 rfl, hkeys.trans (by decide +kernel)⟩

end TagRules
