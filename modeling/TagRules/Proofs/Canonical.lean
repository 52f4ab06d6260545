import TagRules.Proofs.Flattening
import TagRules.Proofs.Reading

/-!
Canonical texts. The canonical text of a tree puts every key between double quotes, so it
can be read again only where no key has one in it. Then the grammar derives it with the
flattened tree, and with no more depth than any other text of that tree.
-/

namespace TagRules

open Text (isAllBlank byteSize)

/-- Keys that can stand between double quotes. -/
def Quotable (keys : List String) : Prop :=
  ∀ key ∈ keys, '"' ∉ key.toList

instance (keys : List String) : Decidable (Quotable keys) :=
  inferInstanceAs (Decidable (∀ key ∈ keys, '"' ∉ key.toList))

theorem LiteralText.quoted {key : String} (h : '"' ∉ key.toList) :
    LiteralText (Atom.quoted key) key := by
  have htext := LiteralText.intro .double h
  rw [String.ofList_toList] at htext
  exact htext

theorem LiteralsText.quoted {keys : List String} (hne : keys ≠ []) (h : Quotable keys) :
    LiteralsText ([','].intercalate (keys.map Atom.quoted)) keys := by
  induction keys with
  | nil => exact absurd rfl hne
  | cons key rest ih =>
    have hkey := LiteralText.quoted (h key (by simp))
    by_cases hrest : rest = []
    · subst hrest
      have hlast := LiteralsText.last Text.isAllBlank_nil hkey Text.isAllBlank_nil
      simpa using hlast
    · have hmap : rest.map Atom.quoted ≠ [] := by simpa using hrest
      have hothers := ih hrest (fun other hother => h other (by simp [hother]))
      have hmore := LiteralsText.more Text.isAllBlank_nil hkey Text.isAllBlank_nil hothers
      rw [List.map_cons, List.intercalate_cons_of_ne_nil hmap]
      simpa using hmore

theorem ArrayText.quoted {keys : List String} (h : Quotable keys) :
    ArrayText ('[' :: [','].intercalate (keys.map Atom.quoted) ++ [']']) keys := by
  by_cases hkeys : keys = []
  · subst hkeys
    exact .empty Text.isAllBlank_nil
  · exact .filled (LiteralsText.quoted hkeys h)

/-- The canonical text of a test is one of its spellings. -/
theorem Atom.spelling_text {test : Atom} (h : Quotable test.keys) : Spelling test.text test := by
  have hwrap : ∀ {opening call inner closing : List Char}, opening = call ++ ['['] →
      closing = [']', ')'] →
      opening ++ inner ++ closing = call ++ ('[' :: inner ++ [']']) ++ [')'] := by
    rintro _ call inner _ rfl rfl
    simp
  have hclosing : "])".toList = [']', ')'] := by simp
  have harray : ∀ {keys : List String}, Quotable keys → ArrayText (Text.trim
      ('[' :: [','].intercalate (keys.map quoted) ++ [']'])) keys := by
    intro keys hkeys
    have htext := ArrayText.quoted hkeys
    rwa [Text.trim_of_trimmed htext.trimmed]
  cases test with
  | has key =>
    have hkey := LiteralText.quoted (h key (by simp [keys]))
    have htrim := Text.trim_of_trimmed hkey.trimmed
    rw [← htrim] at hkey
    exact .has hkey
  | hasAny keys =>
    have hopening : "scope.hasAny([".toList = "scope.hasAny(".toList ++ ['['] := by simp
    have hspell := Spelling.hasAny (harray h)
    rw [← hwrap hopening hclosing] at hspell
    exact hspell
  | hasAll keys =>
    have hopening : "scope.hasAll([".toList = "scope.hasAll(".toList ++ ['['] := by simp
    have hspell := Spelling.hasAll (harray h)
    rw [← hwrap hopening hclosing] at hspell
    exact hspell

theorem Atom.parse_text {test : Atom} (h : Quotable test.keys) : parse test.text = .ok test :=
  parse_of_spelling (spelling_text h)

theorem Derives.chain {nonterminal : Nonterminal} {phrase : Phrase}
    (h : Derives nonterminal phrase) : Derives .chain phrase := by
  cases nonterminal with
  | chain => exact h
  | conjunct => exact .conjunct h
  | operand => exact .conjunct (.operand h)

namespace Phrase

def spaced (op : Operator) (parts : List Phrase) : Phrase :=
  { joined op parts with text := op.spaced.intercalate (parts.map text) }

/-- The spaces around an operator may be counted among the blanks around its operands. -/
theorem exists_spread {nonterminal : Nonterminal} (op : Operator) (first : Phrase)
    (rest : List Phrase) (h : ∀ part ∈ first :: rest, Derives nonterminal part) :
    ∃ spread : List Phrase, (∀ part ∈ spread, Derives nonterminal part) ∧
      op.symbol.toList.intercalate (spread.map text) =
        op.spaced.intercalate ((first :: rest).map text) ∧
      spread.map tree = (first :: rest).map tree ∧
      spread.flatMap tests = (first :: rest).flatMap tests ∧
      spread.map depth = (first :: rest).map depth := by
  have hspace : isAllBlank [' '] = true := rfl
  induction rest generalizing first with
  | nil => exact ⟨[first], h, by simp, rfl, rfl, rfl⟩
  | cons second rest ih =>
    -- The space behind the operator goes to the second part before the rest is spread.
    have hfirst := h first (by simp)
    have hsecond := h second (by simp)
    have hothers : ∀ part ∈ second.padded [' '] [] :: rest, Derives nonterminal part := by
      intro part hpart
      rcases List.mem_cons.1 hpart with rfl | hpart
      · exact .padded hspace Text.isAllBlank_nil hsecond
      · exact h part (by simp [hpart])
    obtain ⟨spread, hspread, htext, htree, htests, hdepth⟩ := ih (second.padded [' '] []) hothers
    have hne : spread.map text ≠ [] := by
      have hlength := congrArg List.length htree
      rintro hnil
      rw [List.map_eq_nil_iff] at hnil
      simp [hnil] at hlength
    refine ⟨first.padded [] [' '] :: spread, ?_, ?_, ?_, ?_, ?_⟩
    · intro part hpart
      rcases List.mem_cons.1 hpart with rfl | hpart
      · exact .padded Text.isAllBlank_nil hspace hfirst
      · exact hspread part hpart
    · rw [List.map_cons, List.intercalate_cons_of_ne_nil hne, htext]
      simp [padded, Operator.spaced]
    · rw [List.map_cons, htree]
      rfl
    · rw [List.flatMap_cons, htests]
      rfl
    · rw [List.map_cons, hdepth]
      rfl

end Phrase

theorem Derives.spaced {op : Operator} {parts : List Phrase} (hlength : 2 ≤ parts.length)
    (h : ∀ part ∈ parts, Derives op.part part) : Derives op.whole (.spaced op parts) := by
  cases parts with
  | nil => simp at hlength
  | cons first rest =>
    obtain ⟨spread, hspread, htext, htree, htests, hdepth⟩ := Phrase.exists_spread op first rest h
    have hsame : spread.length = (first :: rest).length := by
      simpa using congrArg List.length htree
    have hjoined := Derives.joined (hsame ▸ hlength) hspread
    rw [Phrase.joined, htext, htree, htests, hdepth] at hjoined
    exact hjoined

namespace Expr

/-- The canonical text of a tree, as a phrase. -/
def phrase (tree : Expr) : Phrase :=
  ⟨tree.text, tree, tree.atoms, tree.depth⟩

def operandPhrase (op : Operator) (operand : Expr) : Phrase :=
  ⟨operand.operandText op, operand, operand.atoms, operand.operandDepth op⟩

/-- What the canonical text of a tree is without parentheses around it. -/
def nonterminal : Expr → Nonterminal
  | or _ => .chain
  | and _ => .conjunct
  | not _ => .operand
  | atom _ => .operand

theorem phrase_node (op : Operator) (operands : List Expr) :
    (op.node operands).phrase = .spaced op (operands.map (operandPhrase op)) := by
  rw [phrase, text_node, atoms_node, depth_node, Phrase.spaced, Phrase.joined, List.map_map,
    List.map_map, List.map_map, List.flatMap_map]
  simp [operandPhrase, Function.comp_def]

theorem nonterminal_node (op : Operator) (operands : List Expr) :
    (op.node operands).nonterminal = op.whole := by
  cases op <;> rfl

variable {tree : Expr} {op : Operator}

/-- An operand has parentheses exactly where the grammar asks for them. -/
theorem derives_operandPhrase (h : Derives tree.nonterminal tree.phrase)
    (hne : ∀ inner, tree ≠ op.node inner) : Derives op.part (tree.operandPhrase op) := by
  cases op with
  | and =>
    cases tree with
    | or inner => exact .enclosed h
    | and inner => exact absurd rfl (hne inner)
    | not operand => exact h
    | atom test => exact h
  | or =>
    cases tree with
    | or inner => exact absurd rfl (hne inner)
    | and inner => exact h
    | not operand => exact .operand h
    | atom test => exact .operand h

/-- The canonical text of a flat tree is derived with that tree. -/
theorem Flat.derives (hflat : tree.Flat) (hbranching : tree.Branching)
    (hkeys : Quotable tree.keys) : Derives tree.nonterminal tree.phrase := by
  induction tree using Expr.induction with
  | node op operands ih =>
    obtain ⟨hlength, hoperands⟩ := branching_node.1 hbranching
    obtain ⟨hflats, hne⟩ := flat_node.1 hflat
    rw [phrase_node, nonterminal_node]
    apply Derives.spaced
    · simpa using hlength
    · intro part hpart
      obtain ⟨operand, hoperand, rfl⟩ := List.mem_map.1 hpart
      have hquotable : Quotable operand.keys := by
        intro key hkey
        apply hkeys key
        rw [keys_node]
        exact List.mem_flatMap.2 ⟨operand, hoperand, hkey⟩
      have hderives := ih operand hoperand (hflats operand hoperand)
        (hoperands operand hoperand) hquotable
      exact derives_operandPhrase hderives (hne operand hoperand)
  | not operand ih =>
    cases hflat with
    | not hflat =>
      cases hbranching with
      | not hbranching =>
        have hderives := ih hflat hbranching hkeys
        cases operand with
        | or inner => exact .negated (.enclosed hderives)
        | and inner => exact .negated (.enclosed hderives.chain)
        | not inner => exact .negated hderives
        | atom test => exact .negated hderives
  | atom test =>
    rw [keys_atom] at hkeys
    exact .test (Atom.parse_text hkeys)

end Expr

/-- Whether a tree needs parentheses where a nonterminal is to derive its text. -/
def Nonterminal.encloses : Nonterminal → Expr → Bool
  | .chain, _ => false
  | .conjunct, tree => tree.isOr
  | .operand, tree => tree.isChain

theorem Expr.isOr_le_isChain (tree : Expr) : tree.isOr.toNat ≤ tree.isChain.toNat := by
  cases tree <;> simp [isOr, isChain]

theorem Phrase.depth_node_le {nonterminal : Nonterminal} (op : Operator) {parts : List Phrase}
    (hencloses : ∀ tree, (op.encloses tree).toNat ≤ (nonterminal.encloses tree).toNat)
    (h : ∀ part ∈ parts,
      part.tree.depth + (nonterminal.encloses part.tree).toNat ≤ part.depth) :
    (Phrase.joined op parts).tree.depth ≤ (Phrase.joined op parts).depth := by
  have hbound := Phrase.depth_joined_le_iff.1 (Nat.le_refl (Phrase.joined op parts).depth)
  rw [joined, Expr.depth_node, foldr_max_le_iff]
  intro bound hmem
  obtain ⟨tree, htree, rfl⟩ := List.mem_map.1 hmem
  obtain ⟨part, hpart, rfl⟩ := List.mem_map.1 htree
  have hdepth := h part hpart
  have hparens := hencloses part.tree
  have hlimit := hbound part hpart
  rw [Expr.operandDepth]
  change _ ≤ (Phrase.joined op parts).depth
  omega

/-- No text of a tree nests less deeply than its canonical text. -/
theorem Derives.depth_tree_le {nonterminal : Nonterminal} {phrase : Phrase}
    (h : Derives nonterminal phrase) :
    phrase.tree.depth + (nonterminal.encloses phrase.tree).toNat ≤ phrase.depth := by
  induction h with
  | test _ => exact Nat.le_refl 0
  | negated _ ih => exact Nat.succ_le_succ ih
  | @enclosed phrase _ ih =>
    have hparens := Bool.toNat_le (Nonterminal.operand.encloses phrase.tree)
    exact Nat.add_le_add ih hparens
  | @operand phrase _ ih =>
    have hparens := Expr.isOr_le_isChain phrase.tree
    exact Nat.le_trans (Nat.add_le_add_left hparens _) ih
  | conjunction _ _ ih =>
    have hparens : ∀ tree, (Operator.and.encloses tree).toNat ≤
        (Nonterminal.operand.encloses tree).toNat := Expr.isOr_le_isChain
    exact Phrase.depth_node_le .and hparens ih
  | @conjunct phrase _ ih => exact Nat.le_trans (Nat.le_add_right _ _) ih
  | alternatives _ _ ih => exact Phrase.depth_node_le .or (fun _ => Nat.zero_le _) ih
  | padded _ _ _ ih => exact ih

theorem Expr.parse_text {limits : Limits} {tree : Expr} (hbranching : tree.Branching)
    (hkeys : Quotable tree.keys) (hlength : byteSize tree.text ≤ limits.maxLength)
    (hdepth : tree.depth ≤ limits.maxDepth) : parse limits tree.text = .ok tree.flatten := by
  have hquotable : Quotable tree.flatten.keys := by rwa [keys_flatten]
  have hderives := ((flat_flatten tree).derives hbranching.flatten hquotable).chain
  rw [phrase, hbranching.text_flatten, depth_flatten] at hderives
  exact parse_eq_ok_iff.2 ⟨hlength, _, _, hdepth, hderives⟩

theorem Expr.depth_le_byteSize {tree : Expr} (hbranching : tree.Branching)
    (hkeys : Quotable tree.keys) : tree.depth ≤ byteSize tree.text := by
  have hquotable : Quotable tree.flatten.keys := by rwa [keys_flatten]
  have hderives := (flat_flatten tree).derives hbranching.flatten hquotable
  have hdepth := hderives.depth_le_length
  rw [phrase, hbranching.text_flatten, depth_flatten] at hdepth
  exact Nat.le_trans hdepth (Text.length_le_byteSize _)

theorem Rule.parse_toString {limits : Limits} {tree : Expr} (hbranching : tree.Branching)
    (hkeys : Quotable tree.keys) (hlength : byteSize tree.text ≤ limits.maxLength)
    (hdepth : tree.depth ≤ limits.maxDepth) :
    parse limits (toString tree) = .ok ⟨toString tree, tree.flatten⟩ := by
  have hlist : (toString tree).toList = tree.text := String.toList_ofList
  rw [parse_eq_ok_iff, hlist]
  exact ⟨rfl, Expr.parse_text hbranching hkeys hlength hdepth⟩

/-- Writing a tree and reading the text undoes nothing but nested chains of one operator,
and neither verdicts nor further texts show that. A tree that was read within a depth is
read again within it. -/
theorem Rule.parse_toString_flatten (tree : Expr) (hbranching : tree.Branching)
    (hkeys : Quotable tree.keys) (hfits : byteSize tree.text ≤ Limits.largest) :
    parse .unbounded (toString tree) = .ok ⟨toString tree, tree.flatten⟩ ∧
    (∀ tags, tree.flatten.holds tags = tree.holds tags) ∧
    toString tree.flatten = toString tree ∧
    ∀ limits source, parse limits source = .ok ⟨source, tree⟩ →
      parse { limits with maxLength := Limits.largest } (toString tree) =
        .ok ⟨toString tree, tree.flatten⟩ := by
  refine ⟨?_, fun tags => Expr.holds_flatten tags tree, ?_, ?_⟩
  · have hdepth := Expr.depth_le_byteSize hbranching hkeys
    exact parse_toString hbranching hkeys hfits (Nat.le_trans hdepth hfits)
  · exact congrArg String.ofList hbranching.text_flatten
  · intro limits source hparse
    obtain ⟨-, htree⟩ := parse_eq_ok_iff.1 hparse
    obtain ⟨-, tests, depth, hdepth, hderives⟩ := Expr.parse_eq_ok_iff.1 htree
    have hleast : tree.depth ≤ depth := hderives.depth_tree_le
    exact parse_toString hbranching hkeys hfits (Nat.le_trans hleast hdepth)

/-- Where parentheses made a chain of their own, the text that is written has none. -/
theorem Rule.reads_nested_conjunction_flat :
    let limits : Limits := ⟨3, 100⟩
    let source :=
      "(scope.has(\"'\")&&!(scope.hasAny(['&&',\"\"])||scope.hasAll([])))&&scope.has('(]')"
    let negation : Expr := .not (.or [.atom (.hasAny ["&&", ""]), .atom (.hasAll [])])
    let tree : Expr := .and [.and [.atom (.has "'"), negation], .atom (.has "(]")]
    let flat : Expr := .and [.atom (.has "'"), negation, .atom (.has "(]")]
    tree.Branching ∧ Quotable tree.keys ∧ byteSize tree.text ≤ Limits.largest ∧
      parse limits source = .ok ⟨source, tree⟩ ∧
      parse .unbounded (toString tree) = .ok ⟨toString tree, flat⟩ ∧
      parse { limits with maxLength := Limits.largest } (toString tree) =
        .ok ⟨toString tree, flat⟩ := by
  intro limits source negation tree flat
  have hparse : parse limits source = .ok ⟨source, tree⟩ :=
    Outcomes.eq_ok_of_toOption (by decide +kernel)
  have hbranching := branching_of_parse hparse
  have hkeys : Quotable tree.keys := by decide +kernel
  have hfits : byteSize tree.text ≤ Limits.largest := by decide +kernel
  obtain ⟨hread, -, -, hwithin⟩ := parse_toString_flatten tree hbranching hkeys hfits
  exact ⟨hbranching, hkeys, hfits, hparse, hread, hwithin limits source hparse⟩

end TagRules
