import TagRules.Proofs.Spelling
import TagRules.Proofs.Trees

/-!
The grammar of rule texts

    chain    := conjunct ("||" conjunct)*
    conjunct := operand ("&&" operand)*
    operand  := "!" operand | "(" chain ")" | test

where blanks may surround every nonterminal. A derivation fixes the tree of its text,
the tests in the order in which they are written, and how deep they are nested. The
grammar is stated over whole texts: nothing in it scans or looks ahead.
-/

namespace TagRules

open Text (isAllBlank byteSize)

inductive Nonterminal where
  | chain
  | conjunct
  | operand
  deriving DecidableEq, Repr

/-- A text with what a derivation says about it: its tree, its tests from left to right,
and the greatest number of `!` and of pairs of parentheses around a test. -/
structure Phrase where
  text : List Char
  tree : Expr
  tests : List Atom
  depth : Nat

namespace Phrase

def padded (before : List Char) (phrase : Phrase) (after : List Char) : Phrase :=
  { phrase with text := before ++ phrase.text ++ after }

def negated (phrase : Phrase) : Phrase :=
  { phrase with text := '!' :: phrase.text, tree := .not phrase.tree, depth := phrase.depth + 1 }

def enclosed (phrase : Phrase) : Phrase :=
  { phrase with text := '(' :: phrase.text ++ [')'], depth := phrase.depth + 1 }

def joined (op : Operator) (parts : List Phrase) : Phrase where
  text := op.symbol.toList.intercalate (parts.map text)
  tree := op.node (parts.map tree)
  tests := parts.flatMap tests
  depth := (parts.map depth).foldr max 0

end Phrase

/-- What the grammar derives. A lone operand or alternative adds no node, and neither
does a pair of parentheses. -/
inductive Derives : Nonterminal → Phrase → Prop where
  | test {text : List Char} {test : Atom} :
      Atom.parse text = .ok test → Derives .operand ⟨text, .atom test, [test], 0⟩
  | negated {phrase : Phrase} : Derives .operand phrase → Derives .operand phrase.negated
  | enclosed {phrase : Phrase} : Derives .chain phrase → Derives .operand phrase.enclosed
  | operand {phrase : Phrase} : Derives .operand phrase → Derives .conjunct phrase
  | conjunction {parts : List Phrase} : 2 ≤ parts.length →
      (∀ part ∈ parts, Derives .operand part) → Derives .conjunct (.joined .and parts)
  | conjunct {phrase : Phrase} : Derives .conjunct phrase → Derives .chain phrase
  | alternatives {parts : List Phrase} : 2 ≤ parts.length →
      (∀ part ∈ parts, Derives .conjunct part) → Derives .chain (.joined .or parts)
  | padded {nonterminal : Nonterminal} {before after : List Char} {phrase : Phrase} :
      isAllBlank before = true → isAllBlank after = true → Derives nonterminal phrase →
        Derives nonterminal (phrase.padded before after)

/-- What an operator joins. -/
def Operator.part : Operator → Nonterminal
  | .and => .operand
  | .or => .conjunct

/-- What comes of joining it. -/
def Operator.whole : Operator → Nonterminal
  | .and => .conjunct
  | .or => .chain

theorem Derives.joined {op : Operator} {parts : List Phrase} (hlength : 2 ≤ parts.length)
    (h : ∀ part ∈ parts, Derives op.part part) : Derives op.whole (.joined op parts) := by
  cases op with
  | and => exact .conjunction hlength h
  | or => exact .alternatives hlength h

theorem Derives.lift {op : Operator} {phrase : Phrase} (h : Derives op.part phrase) :
    Derives op.whole phrase := by
  cases op with
  | and => exact .operand h
  | or => exact .conjunct h

/-- A text that other texts may be joined to by an operator: it is balanced, it is not
blank, and it does not end in half an operator. -/
structure Seamless (text : List Char) : Prop where
  balanced : Balanced text
  nonblank : isAllBlank text = false
  last : ∃ c, text.getLast? = some c ∧ ∀ op : Operator, c ≠ op.char

theorem Seamless.last_of_getLast? {text : List Char} (h : Seamless text) {c : Char}
    (hc : text.getLast? = some c) (op : Operator) : c ≠ op.char := by
  obtain ⟨d, hd, hsafe⟩ := h.last
  rw [hc] at hd
  cases hd
  exact hsafe op

theorem Seamless.append {front back : List Char} (hfront : Balanced front)
    (hback : Seamless back) : Seamless (front ++ back) := by
  refine ⟨hfront.append hback.balanced, ?_, ?_⟩
  · rw [Text.isAllBlank_append, hback.nonblank, Bool.and_false]
  · obtain ⟨c, hc, hsafe⟩ := hback.last
    refine ⟨c, ?_, hsafe⟩
    rw [List.getLast?_append, hc]
    rfl

theorem Seamless.padded {before text after : List Char} (hbefore : isAllBlank before = true)
    (h : Seamless text) (hafter : isAllBlank after = true) :
    Seamless (before ++ text ++ after) := by
  refine ⟨?_, ?_, ?_⟩
  · exact ((Balanced.of_isAllBlank hbefore).append h.balanced).append (.of_isAllBlank hafter)
  · simp [h.nonblank]
  · cases hlast : after.getLast? with
    | none =>
      obtain ⟨c, hc, hsafe⟩ := h.last
      exact ⟨c, by simp [List.getLast?_append, hlast, hc], hsafe⟩
    | some c =>
      have hmem := List.mem_of_getLast? hlast
      exact ⟨c, by simp [List.getLast?_append, hlast], (inert_of_isAllBlank hafter c hmem).2⟩

theorem Seamless.enclosed {text : List Char} (h : Balanced text) :
    Seamless ('(' :: text ++ [')']) := by
  refine ⟨h.enclosed .round, rfl, ')', List.getLast?_concat, ?_⟩
  intro op
  cases op <;> decide

theorem Seamless.join {front back : List Char} (hfront : Seamless front) (op : Operator)
    (hback : Seamless back) : Seamless (front ++ op.symbol.toList ++ back) :=
  .append (hfront.balanced.append op.balanced_symbol) hback

/-- What a join of two texts inherits from them holds of a join of any number. -/
theorem intercalate_induction {P : List Char → Prop} {separator : List Char}
    (hjoin : ∀ front back, P front → P back → P (front ++ separator ++ back))
    {texts : List (List Char)} (hne : texts ≠ []) (h : ∀ text ∈ texts, P text) :
    P (separator.intercalate texts) := by
  induction texts with
  | nil => exact absurd rfl hne
  | cons text rest ih =>
    by_cases hrest : rest = []
    · subst hrest
      rw [List.intercalate_singleton]
      exact h text (by simp)
    · rw [List.intercalate_cons_of_ne_nil hrest]
      exact hjoin _ _ (h text (by simp)) (ih hrest (fun t ht => h t (by simp [ht])))

theorem Phrase.seamless_joined (op : Operator) {parts : List Phrase} (hlength : 2 ≤ parts.length)
    (h : ∀ part ∈ parts, Seamless part.text) : Seamless (Phrase.joined op parts).text := by
  apply intercalate_induction (fun front back hfront hback => hfront.join op hback)
  · simpa using ne_nil_of_two_le hlength
  · intro text htext
    obtain ⟨part, hpart, rfl⟩ := List.mem_map.1 htext
    exact h part hpart

/-- Every text that the grammar derives may be joined to others. -/
theorem Derives.seamless {nonterminal : Nonterminal} {phrase : Phrase}
    (h : Derives nonterminal phrase) : Seamless phrase.text := by
  induction h with
  | @test text test htest =>
    have hspell := Atom.parse_eq_ok_iff.1 htest
    obtain ⟨before, after, hbefore, hafter, htext⟩ := Text.exists_trim text
    have hcore : Seamless (Text.trim text) := by
      refine ⟨hspell.balanced, hspell.not_isAllBlank, ')', hspell.last, ?_⟩
      intro op
      cases op <;> decide
    have hwhole := hcore.padded hbefore hafter
    rwa [← htext] at hwhole
  | negated _ ih => exact .append (.plain rfl .nil) ih
  | enclosed _ ih => exact .enclosed ih.balanced
  | operand _ ih => exact ih
  | conjunction hlength _ ih => exact Phrase.seamless_joined .and hlength ih
  | conjunct _ ih => exact ih
  | alternatives hlength _ ih => exact Phrase.seamless_joined .or hlength ih
  | padded hbefore hafter _ ih => exact ih.padded hbefore hafter

theorem Phrase.atoms_joined (op : Operator) {parts : List Phrase}
    (h : ∀ part ∈ parts, part.tree.atoms = part.tests) :
    (Phrase.joined op parts).tree.atoms = (Phrase.joined op parts).tests := by
  rw [joined, Expr.atoms_node, List.flatMap_map]
  induction parts with
  | nil => rfl
  | cons part rest ih =>
    rw [List.flatMap_cons, List.flatMap_cons, h part (by simp),
      ih (fun p hp => h p (by simp [hp]))]

/-- The tests of a tree are those that were written, in the order of the text. -/
theorem Derives.atoms_eq {nonterminal : Nonterminal} {phrase : Phrase}
    (h : Derives nonterminal phrase) : phrase.tree.atoms = phrase.tests := by
  induction h with
  | test _ => rfl
  | negated _ ih => exact ih
  | enclosed _ ih => exact ih
  | operand _ ih => exact ih
  | conjunction _ _ ih => exact Phrase.atoms_joined .and ih
  | conjunct _ ih => exact ih
  | alternatives _ _ ih => exact Phrase.atoms_joined .or ih
  | padded _ _ _ ih => exact ih

/-- Only chains of two or more operands make a node that joins. -/
theorem Derives.branching {nonterminal : Nonterminal} {phrase : Phrase}
    (h : Derives nonterminal phrase) : phrase.tree.Branching := by
  have hall : ∀ {parts : List Phrase}, (∀ part ∈ parts, part.tree.Branching) →
      ∀ tree ∈ parts.map Phrase.tree, tree.Branching := by
    intro parts hparts tree htree
    obtain ⟨part, hpart, rfl⟩ := List.mem_map.1 htree
    exact hparts part hpart
  induction h with
  | test _ => exact .atom _
  | negated _ ih => exact .not ih
  | enclosed _ ih => exact ih
  | operand _ ih => exact ih
  | conjunction hlength _ ih => exact .and (by simpa using hlength) (hall ih)
  | conjunct _ ih => exact ih
  | alternatives hlength _ ih => exact .or (by simpa using hlength) (hall ih)
  | padded _ _ _ ih => exact ih

theorem foldr_max_le_iff {bounds : List Nat} {limit : Nat} :
    bounds.foldr max 0 ≤ limit ↔ ∀ bound ∈ bounds, bound ≤ limit := by
  induction bounds with
  | nil => simp
  | cons bound rest ih => rw [List.foldr_cons, Nat.max_le, ih, List.forall_mem_cons]

theorem Phrase.depth_joined_le_iff {op : Operator} {parts : List Phrase} {limit : Nat} :
    (Phrase.joined op parts).depth ≤ limit ↔ ∀ part ∈ parts, part.depth ≤ limit := by
  rw [joined, foldr_max_le_iff]
  simp

theorem length_le_intercalate {separator text : List Char} {texts : List (List Char)}
    (h : text ∈ texts) : text.length ≤ (separator.intercalate texts).length := by
  induction texts with
  | nil => cases h
  | cons first rest ih =>
    by_cases hrest : rest = []
    · subst hrest
      rw [List.mem_singleton] at h
      have hsame : separator.intercalate [first] = text := by
        rw [h]
        exact List.intercalate_singleton
      exact Nat.le_of_eq (congrArg List.length hsame.symm)
    · rw [List.intercalate_cons_of_ne_nil hrest, List.length_append, List.length_append]
      rcases List.mem_cons.1 h with rfl | h
      · omega
      · have hle := ih h
        omega

theorem Phrase.depth_joined_le_length (op : Operator) {parts : List Phrase}
    (h : ∀ part ∈ parts, part.depth ≤ part.text.length) :
    (Phrase.joined op parts).depth ≤ (Phrase.joined op parts).text.length := by
  rw [depth_joined_le_iff]
  intro part hpart
  apply Nat.le_trans (h part hpart)
  exact length_le_intercalate (List.mem_map_of_mem hpart)

theorem Derives.depth_le_length {nonterminal : Nonterminal} {phrase : Phrase}
    (h : Derives nonterminal phrase) : phrase.depth ≤ phrase.text.length := by
  induction h with
  | test _ => exact Nat.zero_le _
  | @negated phrase _ ih =>
    change phrase.depth + 1 ≤ (_ :: phrase.text).length
    rw [List.length_cons]
    omega
  | @enclosed phrase _ ih =>
    change phrase.depth + 1 ≤ (_ :: phrase.text ++ _).length
    rw [List.length_append, List.length_cons]
    omega
  | operand _ ih => exact ih
  | conjunction _ _ ih => exact Phrase.depth_joined_le_length .and ih
  | conjunct _ ih => exact ih
  | alternatives _ _ ih => exact Phrase.depth_joined_le_length .or ih
  | @padded _ before after phrase _ _ _ ih =>
    change phrase.depth ≤ (before ++ phrase.text ++ after).length
    rw [List.length_append, List.length_append]
    omega

theorem Derives.of_trim {nonterminal : Nonterminal} {text : List Char} {tree : Expr}
    {tests : List Atom} {depth : Nat}
    (h : Derives nonterminal ⟨Text.trim text, tree, tests, depth⟩) :
    Derives nonterminal ⟨text, tree, tests, depth⟩ := by
  obtain ⟨before, after, hbefore, hafter, htext⟩ := Text.exists_trim text
  have hpadded := Derives.padded hbefore hafter h
  rwa [Phrase.padded, ← htext] at hpadded

end TagRules
