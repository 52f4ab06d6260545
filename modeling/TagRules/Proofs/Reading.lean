import TagRules.Proofs.Grammar
import TagRules.Rule

/-!
The reader against the grammar. Whatever is read is derived, by induction on the levels
that are left; whatever is derived is read, by induction on the derivation. Between the
two stand the pieces of a chain: `Pieces.Reads` groups what the pieces are read as in
the way the precedence of the operators asks for.
-/

namespace TagRules

open Text (isAllBlank isBlank byteSize)
open Outcomes (bind_eq_ok_iff mapError_eq_ok_iff)

namespace Pieces

/-- The pieces are read one by one, and `&&` binds tighter than `||`: the trees of the
pieces up to the first `||`, and those of each further alternative. -/
inductive Reads (reads : List Char → Expr → Prop) : Pieces → List Expr → List (List Expr) → Prop
    where
  | last {text : List Char} {tree : Expr} : reads text tree → Reads reads (.last text) [tree] []
  | and {text : List Char} {tree : Expr} {rest : Pieces} {first : List Expr}
      {others : List (List Expr)} : reads text tree → Reads reads rest first others →
        Reads reads (.before text .and rest) (tree :: first) others
  | or {text : List Char} {tree : Expr} {rest : Pieces} {first : List Expr}
      {others : List (List Expr)} : reads text tree → Reads reads rest first others →
        Reads reads (.before text .or rest) [tree] (first :: others)

variable {reads other : List Char → Expr → Prop} {pieces rest : Pieces}
  {first first' : List Expr} {others others' : List (List Expr)}

theorem Reads.mono (himp : ∀ text tree, reads text tree → other text tree)
    (h : Reads reads pieces first others) : Reads other pieces first others := by
  induction h with
  | last htext => exact .last (himp _ _ htext)
  | and htext _ ih => exact .and (himp _ _ htext) ih
  | or htext _ ih => exact .or (himp _ _ htext) ih

theorem Reads.join_or (h : Reads reads pieces first others)
    (hrest : Reads reads rest first' others') :
    Reads reads (pieces.join .or rest) first (others ++ first' :: others') := by
  induction h with
  | last htext => exact .or htext hrest
  | and htext _ ih => exact .and htext ih
  | or htext _ ih => exact .or htext ih

/-- A reading of texts that is blind to blanks around them. -/
def Blind (reads : List Char → Expr → Prop) : Prop :=
  ∀ text text' tree, Text.trim text = Text.trim text' → reads text tree → reads text' tree

theorem Reads.extend_iff (hblind : Blind reads) {back : List Char}
    (hback : isAllBlank back = true) :
    Reads reads (pieces.extend back) first others ↔ Reads reads pieces first others := by
  have htrim := Text.trim_append_blank hback
  induction pieces generalizing first others with
  | last text =>
    constructor
    · rintro ⟨htext⟩
      exact .last (hblind _ _ _ (htrim text) htext)
    · rintro ⟨htext⟩
      exact .last (hblind _ _ _ (htrim text).symm htext)
  | before text operator rest ih =>
    constructor
    · intro h
      cases h with
      | and htext hrest => exact .and htext (ih.1 hrest)
      | or htext hrest => exact .or htext (ih.1 hrest)
    · intro h
      cases h with
      | and htext hrest => exact .and htext (ih.2 hrest)
      | or htext hrest => exact .or htext (ih.2 hrest)

theorem Reads.prepend_iff (hblind : Blind reads) {front : List Char}
    (hfront : isAllBlank front = true) :
    Reads reads (pieces.prepend front) first others ↔ Reads reads pieces first others := by
  have htrim := Text.trim_blank_append hfront
  cases pieces with
  | last text =>
    constructor
    · rintro ⟨htext⟩
      exact .last (hblind _ _ _ (htrim text) htext)
    · rintro ⟨htext⟩
      exact .last (hblind _ _ _ (htrim text).symm htext)
  | before text operator rest =>
    constructor
    · intro h
      cases h with
      | and htext hrest => exact .and (hblind _ _ _ (htrim text) htext) hrest
      | or htext hrest => exact .or (hblind _ _ _ (htrim text) htext) hrest
    · intro h
      cases h with
      | and htext hrest => exact .and (hblind _ _ _ (htrim text).symm htext) hrest
      | or htext hrest => exact .or (hblind _ _ _ (htrim text).symm htext) hrest

theorem Reads.padded_iff (hblind : Blind reads) {front back : List Char}
    (hfront : isAllBlank front = true) (hback : isAllBlank back = true) :
    Reads reads ((pieces.extend back).prepend front) first others ↔
      Reads reads pieces first others :=
  (prepend_iff hblind hfront).trans (extend_iff hblind hback)

/-- Where the operands of a chain are read, none is blank and each is read by itself. -/
theorem reads_of_operands {operand : Reader} {before : Option (Operator × Nat)} {start : Nat}
    (h : pieces.operands operand before start = .ok (first, others)) :
    Reads (fun text tree => isAllBlank text = false ∧ ∃ start, operand ⟨text, start⟩ = .ok tree)
      pieces first others := by
  induction pieces generalizing before start first others with
  | last text =>
    unfold operands at h
    split at h
    · split at h <;> cases h
    · next hblank =>
      obtain ⟨tree, htree, hresult⟩ := bind_eq_ok_iff.1 h
      cases hresult
      exact .last ⟨by simpa using hblank, start, htree⟩
  | before text operator rest ih =>
    unfold operands at h
    simp only [] at h
    split at h
    · cases h
    · next hblank =>
      obtain ⟨tree, htree, hafter⟩ := bind_eq_ok_iff.1 h
      obtain ⟨⟨conjuncts, alternatives⟩, hrest, hresult⟩ := bind_eq_ok_iff.1 hafter
      have htail := ih hrest
      have hhead : isAllBlank text = false ∧ ∃ start, operand ⟨text, start⟩ = .ok tree :=
        ⟨by simpa using hblank, start, htree⟩
      cases operator with
      | and =>
        cases hresult
        exact .and hhead htail
      | or =>
        cases hresult
        exact .or hhead htail

theorem Reads.operands {operand : Reader}
    (h : Reads
      (fun text tree => isAllBlank text = false ∧ ∀ start, operand ⟨text, start⟩ = .ok tree)
      pieces first others) (before : Option (Operator × Nat)) (start : Nat) :
    pieces.operands operand before start = .ok (first, others) := by
  induction h generalizing before start with
  | last htext =>
    unfold Pieces.operands
    rw [htext.1, htext.2 start]
    rfl
  | and htext _ ih =>
    unfold Pieces.operands
    rw [htext.1, htext.2 start]
    simp only [Bool.false_eq_true, if_false]
    exact bind_eq_ok_iff.2 ⟨_, rfl, bind_eq_ok_iff.2 ⟨_, ih _ _, rfl⟩⟩
  | or htext _ ih =>
    unfold Pieces.operands
    rw [htext.1, htext.2 start]
    simp only [Bool.false_eq_true, if_false]
    exact bind_eq_ok_iff.2 ⟨_, rfl, bind_eq_ok_iff.2 ⟨_, ih _ _, rfl⟩⟩

end Pieces

namespace Phrase

/-- The parts of a chain of one operator; a single part is the whole chain. -/
def gather (op : Operator) : List Phrase → Phrase
  | [part] => part
  | parts => joined op parts

theorem text_gather (op : Operator) (parts : List Phrase) :
    (gather op parts).text = op.symbol.toList.intercalate (parts.map text) := by
  rcases parts with _ | ⟨part, _ | ⟨next, rest⟩⟩
  · rfl
  · simp [gather, List.intercalate_singleton]
  · rfl

theorem tree_gather (op : Operator) (parts : List Phrase) :
    (gather op parts).tree = Expr.group op.node (parts.map tree) := by
  rcases parts with _ | ⟨part, _ | ⟨next, rest⟩⟩
  · rfl
  · rfl
  · rfl

theorem derives_gather (op : Operator) {parts : List Phrase} {bound : Nat} (hne : parts ≠ [])
    (h : ∀ part ∈ parts, Derives op.part part ∧ part.depth ≤ bound) :
    Derives op.whole (gather op parts) ∧ (gather op parts).depth ≤ bound := by
  -- A single part takes up no node, as the grammar has it.
  rcases parts with _ | ⟨part, _ | ⟨next, rest⟩⟩
  · exact absurd rfl hne
  · obtain ⟨hderives, hdepth⟩ := h part (by simp)
    exact ⟨hderives.lift, hdepth⟩
  · have hderives := Derives.joined (by simp) (fun part hpart => (h part hpart).1)
    exact ⟨hderives, depth_joined_le_iff.2 (fun part hpart => (h part hpart).2)⟩

end Phrase

/-- An operand with a derivation that nests no deeper than `bound`. -/
def DerivedOperand (bound : Nat) (text : List Char) (tree : Expr) : Prop :=
  ∃ tests depth, depth ≤ bound ∧ Derives .operand ⟨text, tree, tests, depth⟩

/-- The phrases of the first conjunction and those of the further alternatives, collected
along the pieces. -/
theorem Pieces.Reads.exists_phrases {bound : Nat} {pieces : Pieces} {first : List Expr}
    {others : List (List Expr)} (h : pieces.Reads (DerivedOperand bound) first others) :
    ∃ row rows : List Phrase,
      row ≠ [] ∧ (∀ part ∈ row, Derives .operand part ∧ part.depth ≤ bound) ∧
      (∀ part ∈ rows, Derives .conjunct part ∧ part.depth ≤ bound) ∧
      row.map Phrase.tree = first ∧ rows.map Phrase.tree = others.map (Expr.group .and) ∧
      Operator.or.symbol.toList.intercalate
        ((Phrase.gather .and row :: rows).map Phrase.text) = pieces.text := by
  induction h with
  | @last text tree htext =>
    obtain ⟨tests, depth, hdepth, hderives⟩ := htext
    refine ⟨[⟨text, tree, tests, depth⟩], [], by simp, ?_, by simp, rfl, rfl, ?_⟩
    · intro part hpart
      rw [List.mem_singleton] at hpart
      subst hpart
      exact ⟨hderives, hdepth⟩
    · exact List.intercalate_singleton
  | @and text tree rest first others htext _ ih =>
    obtain ⟨tests, depth, hdepth, hderives⟩ := htext
    obtain ⟨row, rows, hne, hrow, hrows, hfirst, hothers, hrest⟩ := ih
    refine ⟨⟨text, tree, tests, depth⟩ :: row, rows, by simp, ?_, hrows, ?_, hothers, ?_⟩
    · intro part hpart
      rcases List.mem_cons.1 hpart with rfl | hpart
      · exact ⟨hderives, hdepth⟩
      · exact hrow part hpart
    · rw [List.map_cons, hfirst]
    · have hmap : row.map Phrase.text ≠ [] := by simpa using hne
      rw [Pieces.text, ← hrest, List.map_cons, List.map_cons, Phrase.text_gather,
        Phrase.text_gather, List.map_cons, List.intercalate_cons_of_ne_nil hmap]
      by_cases hempty : rows.map Phrase.text = []
      · rw [hempty, List.intercalate_singleton, List.intercalate_singleton]
      · rw [List.intercalate_cons_of_ne_nil hempty, List.intercalate_cons_of_ne_nil hempty]
        simp only [List.append_assoc]
  | @or text tree rest first others htext _ ih =>
    obtain ⟨tests, depth, hdepth, hderives⟩ := htext
    obtain ⟨row, rows, hne, hrow, hrows, hfirst, hothers, hrest⟩ := ih
    refine ⟨[⟨text, tree, tests, depth⟩], Phrase.gather .and row :: rows, by simp, ?_, ?_, rfl,
      ?_, ?_⟩
    · intro part hpart
      rw [List.mem_singleton] at hpart
      subst hpart
      exact ⟨hderives, hdepth⟩
    · intro part hpart
      rcases List.mem_cons.1 hpart with rfl | hpart
      · exact Phrase.derives_gather .and hne hrow
      · exact hrows part hpart
    · rw [List.map_cons, List.map_cons, hothers, Phrase.tree_gather, hfirst]
      rfl
    · rw [Pieces.text, ← hrest, List.map_cons, List.map_cons, List.intercalate_cons_cons]
      rfl

theorem Pieces.Reads.derives {bound : Nat} {pieces : Pieces} {first : List Expr}
    {others : List (List Expr)} (h : pieces.Reads (DerivedOperand bound) first others) :
    ∃ tests depth, depth ≤ bound ∧
      Derives .chain ⟨pieces.text, Expr.ofAlternatives first others, tests, depth⟩ := by
  obtain ⟨row, rows, hne, hrow, hrows, hfirst, hothers, htext⟩ := h.exists_phrases
  have hparts : ∀ part ∈ Phrase.gather .and row :: rows,
      Derives .conjunct part ∧ part.depth ≤ bound := by
    intro part hpart
    rcases List.mem_cons.1 hpart with rfl | hpart
    · exact Phrase.derives_gather .and hne hrow
    · exact hrows part hpart
  have hwhole : Derives .chain (Phrase.gather .or (Phrase.gather .and row :: rows)) ∧
      (Phrase.gather .or (Phrase.gather .and row :: rows)).depth ≤ bound :=
    Phrase.derives_gather .or (List.cons_ne_nil _ _) hparts
  have htree : (Phrase.gather .or (Phrase.gather .and row :: rows)).tree =
      Expr.ofAlternatives first others := by
    rw [Phrase.tree_gather, List.map_cons, hothers, Phrase.tree_gather, hfirst]
    rfl
  refine ⟨(Phrase.gather .or (Phrase.gather .and row :: rows)).tests, _, hwhole.2, ?_⟩
  rw [← htext, ← htree, ← Phrase.text_gather]
  exact hwhole.1

namespace Reader

theorem atLevel_operand (maxDepth left : Nat) :
    atLevel maxDepth left .operand =
      operand
        (match left with
          | 0 => refuse maxDepth
          | less + 1 => negated (atLevel maxDepth less .operand))
        (atLevel maxDepth left .chain) := by
  cases left <;> rfl

theorem atLevel_chain (maxDepth left : Nat) :
    atLevel maxDepth (left + 1) .chain =
      chain (atLevel maxDepth left .chain) (atLevel maxDepth left .operand) := rfl

end Reader

theorem Reader.chain_eq_ok {inner operand : Reader} {span : Text.Span} {tree : Expr}
    (h : chain inner operand span = .ok tree) :
    (∃ text, group? (Text.trim span.text) = some text ∧
      inner ⟨text, span.trim.start + 1⟩ = .ok tree) ∨
    (group? (Text.trim span.text) = none ∧ ∃ pieces first others,
      Pieces.Cut .top 0 (Text.trim span.text) pieces ∧
      pieces.operands operand none span.trim.start = .ok (first, others) ∧
      tree = Expr.ofAlternatives first others) := by
  unfold chain at h
  simp only [] at h
  split at h
  · next text hgroup => exact Or.inl ⟨text, hgroup, h⟩
  · next hgroup =>
    right
    obtain ⟨pieces, hpieces, hafter⟩ := bind_eq_ok_iff.1 h
    obtain ⟨⟨first, others⟩, hoperands, hresult⟩ := bind_eq_ok_iff.1 hafter
    cases hresult
    rw [mapError_eq_ok_iff, Pieces.ofText_eq_ok_iff 0] at hpieces
    exact ⟨hgroup, pieces, first, others, hpieces, hoperands, rfl⟩

/-- What a reading of an operand shows: it is negated, wrapped, or a test. -/
theorem Reader.operand_eq_ok {negated inner : Reader} {span : Text.Span} {tree : Expr}
    (h : operand negated inner span = .ok tree) :
    (∃ rest, Text.trim span.text = '!' :: rest ∧
      negated ⟨rest, span.trim.start + 1⟩ = .ok tree) ∨
    (∃ text, group? (Text.trim span.text) = some text ∧
      inner ⟨text, span.trim.start + 1⟩ = .ok tree) ∨
    (∃ test, Atom.parse span.text = .ok test ∧ tree = .atom test) := by
  unfold operand at h
  simp only [] at h
  split at h
  · next rest hrest => exact Or.inl ⟨rest, hrest, h⟩
  · next hrest =>
    right
    split at h
    · next text hgroup => exact Or.inl ⟨text, hgroup, h⟩
    · right
      obtain ⟨test, htest, hresult⟩ := bind_eq_ok_iff.1 h
      cases hresult
      rw [mapError_eq_ok_iff, Atom.ofTrimmed_eq_ok_iff] at htest
      exact ⟨test, Atom.parse_eq_ok_iff.2 htest, rfl⟩

/-- A wrapped operand is read as what it wraps. -/
theorem Reader.operand_of_group? {negated inner : Reader} {span : Text.Span} {text : List Char}
    (h : group? (Text.trim span.text) = some text) :
    operand negated inner span = inner ⟨text, span.trim.start + 1⟩ := by
  have htext : span.trim.text = Text.trim span.text := rfl
  rw [operand]
  simp only [htext]
  split
  · next rest hrest =>
    rw [hrest] at h
    cases eq_of_group? h
  · rw [h]

theorem derivedOperand_of_group? {text inner : List Char} {tree : Expr} {bound : Nat}
    (hgroup : group? (Text.trim text) = some inner)
    (hinner : ∃ tests depth, depth < bound ∧ Derives .chain ⟨inner, tree, tests, depth⟩) :
    DerivedOperand bound text tree := by
  obtain ⟨tests, depth, hdepth, hderives⟩ := hinner
  refine ⟨tests, depth + 1, hdepth, Derives.of_trim ?_⟩
  rw [eq_of_group? hgroup]
  exact .enclosed hderives

/-- Whatever is read is derived. The induction is on the levels that are left: a chain is
read by the operands of the level below, and an operand by chains of its own level. -/
theorem Reader.sound (maxDepth left : Nat) :
    (∀ span tree, atLevel maxDepth left .chain span = .ok tree →
      ∃ tests depth, depth < left ∧ Derives .chain ⟨span.text, tree, tests, depth⟩) ∧
    (∀ span tree, atLevel maxDepth left .operand span = .ok tree →
      DerivedOperand left span.text tree) := by
  -- An operand is read by chains of its own level and by operands of the level below.
  have hoperand : ∀ left,
      (∀ span tree, atLevel maxDepth left .chain span = .ok tree →
        ∃ tests depth, depth < left ∧ Derives .chain ⟨span.text, tree, tests, depth⟩) →
      (∀ less, left = less + 1 → ∀ span tree, atLevel maxDepth less .operand span = .ok tree →
        DerivedOperand less span.text tree) →
      ∀ span tree, atLevel maxDepth left .operand span = .ok tree →
        DerivedOperand left span.text tree := by
    intro left hchain hless span tree h
    rw [atLevel_operand] at h
    rcases operand_eq_ok h with ⟨rest, htext, hrest⟩ | ⟨text, hgroup, hinner⟩ | ⟨test, htest, rfl⟩
    · cases left with
      | zero => cases hrest
      | succ less =>
        simp only [negated] at hrest
        split at hrest
        · cases hrest
        · obtain ⟨operand, hread, hresult⟩ := bind_eq_ok_iff.1 hrest
          cases hresult
          obtain ⟨tests, depth, hdepth, hderives⟩ := hless less rfl _ _ hread
          refine ⟨tests, depth + 1, by omega, Derives.of_trim ?_⟩
          rw [htext]
          exact .negated hderives
    · exact derivedOperand_of_group? hgroup (hchain _ _ hinner)
    · exact ⟨[test], 0, Nat.zero_le left, .test htest⟩
  induction left with
  | zero =>
    have hrefused : ∀ span tree, atLevel maxDepth 0 .chain span = .ok tree →
        ∃ tests depth, depth < 0 ∧ Derives .chain ⟨span.text, tree, tests, depth⟩ := by
      intro span tree h
      cases h
    exact ⟨hrefused, hoperand 0 hrefused (fun less h => by cases h)⟩
  | succ left ih =>
    have hchain : ∀ span tree, atLevel maxDepth (left + 1) .chain span = .ok tree →
        ∃ tests depth, depth < left + 1 ∧ Derives .chain ⟨span.text, tree, tests, depth⟩ := by
      intro span tree h
      rw [atLevel_chain] at h
      rcases chain_eq_ok h with
        ⟨text, hgroup, hinner⟩ | ⟨-, pieces, first, others, hcut, hread, rfl⟩
      · obtain ⟨tests, depth, hdepth, hderives⟩ :=
          derivedOperand_of_group? hgroup (ih.1 _ _ hinner)
        exact ⟨tests, depth, by omega, .conjunct (.operand hderives)⟩
      · have hreads := (Pieces.reads_of_operands hread).mono
          (fun text tree htext => ih.2 ⟨text, htext.2.choose⟩ tree htext.2.choose_spec)
        obtain ⟨tests, depth, hdepth, hderives⟩ := hreads.derives
        rw [hcut.text_eq] at hderives
        exact ⟨tests, depth, by omega, .of_trim hderives⟩
    refine ⟨hchain, hoperand (left + 1) hchain ?_⟩
    intro less hless
    cases hless
    exact ih.2

/-- A text that is read as an operand from `depth` levels on, whatever blanks are around
it. -/
def Readable (maxDepth depth : Nat) (text : List Char) (tree : Expr) : Prop :=
  isAllBlank text = false ∧ ∀ left span, depth ≤ left → Text.trim span.text = Text.trim text →
    Reader.atLevel maxDepth left .operand span = .ok tree

theorem Readable.mono {maxDepth depth bound : Nat} (hdepth : depth ≤ bound) {text : List Char}
    {tree : Expr} (h : Readable maxDepth depth text tree) : Readable maxDepth bound text tree :=
  ⟨h.1, fun left span hleft => h.2 left span (Nat.le_trans hdepth hleft)⟩

theorem Readable.blind (maxDepth depth : Nat) : Pieces.Blind (Readable maxDepth depth) := by
  intro text text' tree htrim h
  refine ⟨?_, ?_⟩
  · rw [← Text.isAllBlank_of_trim_eq htrim]
    exact h.1
  · intro left span hleft hspan
    exact h.2 left span hleft (hspan.trans htrim.symm)

theorem Reader.chain_of_reads {maxDepth depth left : Nat} {text : List Char} {pieces : Pieces}
    {first : List Expr} {others : List (List Expr)} (hcut : Pieces.Cut .top 0 text pieces)
    (hreads : pieces.Reads (Readable maxDepth depth) first others) (hleft : depth ≤ left)
    {span : Text.Span} (hspan : Text.trim span.text = Text.trim text) :
    atLevel maxDepth (left + 1) .chain span = .ok (Expr.ofAlternatives first others) := by
  obtain ⟨front, back, inner, hfront, hback, hinner, rfl⟩ := hcut.trim
  rw [Pieces.Reads.padded_iff (Readable.blind maxDepth depth) hfront hback] at hreads
  rw [atLevel_chain, chain]
  have htext : span.trim.text = Text.trim text := hspan
  simp only [htext]
  split
  · next wrapped hgroup =>
    -- A wrapped text is one piece, and what reads the piece reads the inner text.
    rw [hinner.unique (Pieces.cut_of_group? hgroup)] at hreads
    cases hreads with
    | last hread =>
      have hwhole := hread.2 left span hleft (hspan.trans (Text.trim_trim text).symm)
      rw [atLevel_operand, operand_of_group? (hspan ▸ hgroup)] at hwhole
      exact hwhole
  · have hpieces := (Pieces.ofText_eq_ok_iff 0).2 hinner
    have hoperands := (hreads.mono (fun text tree htext =>
      (⟨htext.1, fun start => htext.2 left ⟨text, start⟩ hleft rfl⟩ :
        isAllBlank text = false ∧ ∀ start,
          atLevel maxDepth left .operand ⟨text, start⟩ = .ok tree))).operands none span.trim.start
    rw [bind_eq_ok_iff]
    refine ⟨inner, mapError_eq_ok_iff.2 hpieces, ?_⟩
    exact bind_eq_ok_iff.2 ⟨_, hoperands, rfl⟩

/-- What completeness says of the phrases of each nonterminal. Operands are single pieces,
and the operands of a conjunct belong to one alternative. -/
def Read (maxDepth : Nat) : Nonterminal → Phrase → Prop
  | .operand, phrase => Pieces.Cut .top 0 phrase.text (.last phrase.text) ∧
      Readable maxDepth phrase.depth phrase.text phrase.tree
  | .conjunct, phrase => ∃ pieces first, Pieces.Cut .top 0 phrase.text pieces ∧
      pieces.Reads (Readable maxDepth phrase.depth) first [] ∧
      phrase.tree = Expr.group .and first
  | .chain, phrase => ∃ pieces first others, Pieces.Cut .top 0 phrase.text pieces ∧
      pieces.Reads (Readable maxDepth phrase.depth) first others ∧
      phrase.tree = Expr.ofAlternatives first others

theorem Read.chain {maxDepth : Nat} {phrase : Phrase} (h : Read maxDepth .chain phrase)
    {left : Nat} (hleft : phrase.depth ≤ left) {span : Text.Span}
    (hspan : Text.trim span.text = Text.trim phrase.text) :
    Reader.atLevel maxDepth (left + 1) .chain span = .ok phrase.tree := by
  obtain ⟨pieces, first, others, hcut, hreads, htree⟩ := h
  rw [htree]
  exact Reader.chain_of_reads hcut hreads hleft hspan

theorem Read.test {maxDepth : Nat} {text : List Char} {test : Atom}
    (h : Atom.parse text = .ok test) : Read maxDepth .operand ⟨text, .atom test, [test], 0⟩ := by
  have hspell := Atom.parse_eq_ok_iff.1 h
  refine ⟨Atom.cut_of_parse h, (Derives.test h).seamless.nonblank, ?_⟩
  intro left span _ hspan
  have hhead := hspell.head
  rw [← hspan] at hspell hhead
  have htest : Atom.ofTrimmed span.trim = .ok test := Atom.ofTrimmed_eq_ok_iff.2 hspell
  have htext : span.trim.text = Text.trim span.text := rfl
  rw [Reader.atLevel_operand, Reader.operand]
  simp only [htext]
  split
  · next rest hrest =>
    rw [hrest] at hhead
    cases hhead
  · split
    · next inner hgroup =>
      rw [eq_of_group? hgroup] at hhead
      cases hhead
    · rw [htest]
      rfl

theorem Read.negated {maxDepth : Nat} {phrase : Phrase} (hderives : Derives .operand phrase)
    (h : Read maxDepth .operand phrase) : Read maxDepth .operand phrase.negated := by
  refine ⟨?_, hderives.negated.seamless.nonblank, ?_⟩
  · have hinert : ∀ c ∈ ['!'], Inert c := by
      intro c hc
      rw [List.mem_singleton] at hc
      rw [hc]
      decide
    exact Pieces.Cut.prepend_inert hinert h.1
  · intro left span hleft hspan
    have htext : span.trim.text = '!' :: Text.trimEnd phrase.text := by
      rw [← Text.trim_cons (rfl : isBlank '!' = false)]
      exact hspan
    obtain ⟨less, rfl⟩ : ∃ less, left = less + 1 := by
      change phrase.depth + 1 ≤ left at hleft
      exact ⟨left - 1, by omega⟩
    have hdepth : phrase.depth ≤ less := Nat.le_of_succ_le_succ hleft
    have hblank : isAllBlank (Text.trimEnd phrase.text) = false := by
      rw [Text.isAllBlank_of_trim_eq (Text.trim_trimEnd phrase.text)]
      exact hderives.seamless.nonblank
    have hread := h.2.2 less ⟨Text.trimEnd phrase.text, span.trim.start + 1⟩ hdepth
      (Text.trim_trimEnd phrase.text)
    rw [Reader.atLevel_operand, Reader.operand]
    simp only [htext, Reader.negated, hblank, hread]
    rfl

theorem Read.enclosed {maxDepth : Nat} {phrase : Phrase} (hderives : Derives .chain phrase)
    (h : Read maxDepth .chain phrase) : Read maxDepth .operand phrase.enclosed := by
  have hbalanced := hderives.seamless.balanced
  refine ⟨?_, hderives.enclosed.seamless.nonblank, ?_⟩
  · have hcut := Pieces.Cut.prepend_enclosed hbalanced .round (.done 0)
    simpa [Pieces.prepend, Bracket.opening, Bracket.closing, Phrase.enclosed] using hcut
  · intro left span hleft hspan
    have htext : Text.trim span.text = '(' :: phrase.text ++ [')'] :=
      hspan.trans (Text.trim_of_trimmed (Bracket.trimmed_enclosed .round phrase.text))
    obtain ⟨less, rfl⟩ : ∃ less, left = less + 1 := by
      change phrase.depth + 1 ≤ left at hleft
      exact ⟨left - 1, by omega⟩
    have hread : Reader.atLevel maxDepth (less + 1) .chain ⟨phrase.text, span.trim.start + 1⟩ =
        .ok phrase.tree := h.chain (Nat.le_of_succ_le_succ hleft) rfl
    have hgroup : group? (Text.trim span.text) = some phrase.text := by
      rw [htext]
      exact group?_of_balanced hbalanced
    rw [Reader.atLevel_operand, Reader.operand_of_group? hgroup]
    exact hread

theorem Read.conjunction {maxDepth bound : Nat} {parts : List Phrase} (hne : parts ≠ [])
    (hseamless : ∀ part ∈ parts, Seamless part.text)
    (hread : ∀ part ∈ parts, Read maxDepth .operand part)
    (hdepth : ∀ part ∈ parts, part.depth ≤ bound) :
    ∃ pieces,
      Pieces.Cut .top 0 (Operator.and.symbol.toList.intercalate (parts.map Phrase.text)) pieces ∧
      pieces.Reads (Readable maxDepth bound) (parts.map Phrase.tree) [] := by
  induction parts with
  | nil => exact absurd rfl hne
  | cons part rest ih =>
    have hpart := hread part (by simp)
    have hfirst := hpart.2.mono (hdepth part (by simp))
    by_cases hrest : rest = []
    · subst hrest
      refine ⟨.last part.text, ?_, .last hfirst⟩
      rw [List.map_cons, List.map_nil, List.intercalate_singleton]
      exact hpart.1
    · obtain ⟨pieces, hcut, hreads⟩ := ih hrest (fun p hp => hseamless p (by simp [hp]))
        (fun p hp => hread p (by simp [hp])) (fun p hp => hdepth p (by simp [hp]))
      have hmap : rest.map Phrase.text ≠ [] := by simpa using hrest
      refine ⟨.before part.text .and pieces, ?_, .and hfirst hreads⟩
      rw [List.map_cons, List.intercalate_cons_of_ne_nil hmap]
      exact hpart.1.join (fun c => (hseamless part (by simp)).last_of_getLast?) .and hcut

theorem Read.alternatives {maxDepth bound : Nat} {parts : List Phrase} (hne : parts ≠ [])
    (hseamless : ∀ part ∈ parts, Seamless part.text)
    (hread : ∀ part ∈ parts, Read maxDepth .conjunct part)
    (hdepth : ∀ part ∈ parts, part.depth ≤ bound) :
    ∃ pieces first others,
      Pieces.Cut .top 0 (Operator.or.symbol.toList.intercalate (parts.map Phrase.text)) pieces ∧
      pieces.Reads (Readable maxDepth bound) first others ∧
      (first :: others).map (Expr.group .and) = parts.map Phrase.tree := by
  induction parts with
  | nil => exact absurd rfl hne
  | cons part rest ih =>
    obtain ⟨pieces, first, hcut, hreads, htree⟩ := hread part (by simp)
    have hfirst := hreads.mono (fun _ _ h => h.mono (hdepth part (by simp)))
    by_cases hrest : rest = []
    · subst hrest
      refine ⟨pieces, first, [], ?_, hfirst, ?_⟩
      · rw [List.map_cons, List.map_nil, List.intercalate_singleton]
        exact hcut
      · simp [htree]
    · obtain ⟨pieces', first', others', hcut', hreads', htrees'⟩ :=
        ih hrest (fun p hp => hseamless p (by simp [hp])) (fun p hp => hread p (by simp [hp]))
          (fun p hp => hdepth p (by simp [hp]))
      have hmap : rest.map Phrase.text ≠ [] := by simpa using hrest
      refine ⟨pieces.join .or pieces', first, first' :: others', ?_, hfirst.join_or hreads', ?_⟩
      · rw [List.map_cons, List.intercalate_cons_of_ne_nil hmap]
        exact hcut.join (fun c => (hseamless part (by simp)).last_of_getLast?) .or hcut'
      · rw [List.map_cons, htrees', List.map_cons, htree]

theorem Expr.group_of_two_le {join : List Expr → Expr} {operands : List Expr}
    (h : 2 ≤ operands.length) : group join operands = join operands := by
  rcases operands with _ | ⟨operand, _ | ⟨next, rest⟩⟩
  · rfl
  · simp at h
  · rfl

/-- Whatever is derived is read, with as many levels as its derivation nests. -/
theorem Derives.read (maxDepth : Nat) {nonterminal : Nonterminal} {phrase : Phrase}
    (h : Derives nonterminal phrase) : Read maxDepth nonterminal phrase := by
  induction h with
  | test htest => exact .test htest
  | negated hderives ih => exact .negated hderives ih
  | enclosed hderives ih => exact .enclosed hderives ih
  | operand _ ih => exact ⟨_, _, ih.1, .last ih.2, rfl⟩
  | @conjunction parts hlength hderives ih =>
    obtain ⟨pieces, hcut, hreads⟩ := Read.conjunction (ne_nil_of_two_le hlength)
      (fun part hpart => (hderives part hpart).seamless) ih
      (Phrase.depth_joined_le_iff.1 (Nat.le_refl _))
    refine ⟨pieces, _, hcut, hreads, ?_⟩
    rw [Expr.group_of_two_le (by simpa using hlength)]
    rfl
  | conjunct _ ih =>
    obtain ⟨pieces, first, hcut, hreads, htree⟩ := ih
    exact ⟨pieces, first, [], hcut, hreads, htree⟩
  | @alternatives parts hlength hderives ih =>
    obtain ⟨pieces, first, others, hcut, hreads, htrees⟩ :=
      Read.alternatives (ne_nil_of_two_le hlength)
        (fun part hpart => (hderives part hpart).seamless) ih
        (Phrase.depth_joined_le_iff.1 (Nat.le_refl _))
    refine ⟨pieces, first, others, hcut, hreads, ?_⟩
    rw [Expr.ofAlternatives, htrees, Expr.group_of_two_le (by simpa using hlength)]
    rfl
  | @padded nonterminal before after phrase hbefore hafter _ ih =>
    -- The blanks go into the first and the last piece, and readings are blind to them.
    cases nonterminal with
    | operand =>
      have htrim := Text.trim_padded hbefore hafter phrase.text
      exact ⟨ih.1.padded_last hbefore hafter, Readable.blind _ _ _ _ _ htrim.symm ih.2⟩
    | conjunct =>
      obtain ⟨pieces, first, hcut, hreads, htree⟩ := ih
      exact ⟨_, first, hcut.padded hbefore hafter,
        (Pieces.Reads.padded_iff (Readable.blind _ _) hbefore hafter).2 hreads, htree⟩
    | chain =>
      obtain ⟨pieces, first, others, hcut, hreads, htree⟩ := ih
      exact ⟨_, first, others, hcut.padded hbefore hafter,
        (Pieces.Reads.padded_iff (Readable.blind _ _) hbefore hafter).2 hreads, htree⟩

/-- A text is read exactly when the grammar derives it, it is not too long, and it does not
nest too deeply. -/
theorem Expr.parse_eq_ok_iff {limits : Limits} {text : List Char} {tree : Expr} :
    parse limits text = .ok tree ↔ byteSize text ≤ limits.maxLength ∧
      ∃ tests depth, depth ≤ limits.maxDepth ∧ Derives .chain ⟨text, tree, tests, depth⟩ := by
  constructor
  · intro h
    unfold parse at h
    split at h
    · cases h
    · next hlength =>
      split at h
      · cases h
      · obtain ⟨tests, depth, hdepth, hderives⟩ := (Reader.sound _ _).1 _ _ h
        exact ⟨Nat.le_of_not_lt hlength, tests, depth, Nat.le_of_lt_succ hdepth, hderives⟩
  · rintro ⟨hlength, tests, depth, hdepth, hderives⟩
    have hblank : isAllBlank text = false := hderives.seamless.nonblank
    have hread : Reader.atLevel limits.maxDepth (limits.maxDepth + 1) .chain (.whole text) =
        .ok tree := (hderives.read limits.maxDepth).chain hdepth rfl
    rw [parse, if_neg (Nat.not_lt.2 hlength), hblank]
    exact hread

theorem Rule.parse_eq_ok_iff {limits : Limits} {source : String} {rule : Rule} :
    parse limits source = .ok rule ↔
      rule.source = source ∧ Expr.parse limits source.toList = .ok rule.tree := by
  rw [parse, bind_eq_ok_iff]
  constructor
  · rintro ⟨tree, htree, hresult⟩
    cases hresult
    exact ⟨rfl, htree⟩
  · rintro ⟨rfl, htree⟩
    exact ⟨rule.tree, htree, rfl⟩

theorem Rule.branching_of_parse {limits : Limits} {source : String} {rule : Rule}
    (h : parse limits source = .ok rule) : rule.tree.Branching := by
  obtain ⟨-, htree⟩ := parse_eq_ok_iff.1 h
  obtain ⟨-, tests, depth, -, hderives⟩ := Expr.parse_eq_ok_iff.1 htree
  exact hderives.branching

/-- Without bounds the accepted texts are exactly those of the grammar, and the tree of a
rule is that of every derivation of its text: each chain of one operator is one node with
two operands or more, and the tests stand in the order of the text. The hypothesis says
that the text can be stored at all. -/
theorem Rule.parse_unbounded_iff_derives (source : String)
    (hfits : byteSize source.toList ≤ Limits.largest) :
    ((∃ rule, parse .unbounded source = .ok rule) ↔
      ∃ phrase, Derives .chain phrase ∧ phrase.text = source.toList) ∧
    ∀ phrase, Derives .chain phrase → phrase.text = source.toList →
      parse .unbounded source = .ok ⟨source, phrase.tree⟩ ∧ phrase.tree.Branching ∧
        phrase.tree.atoms = phrase.tests := by
  have hread : ∀ phrase, Derives .chain phrase → phrase.text = source.toList →
      parse .unbounded source = .ok ⟨source, phrase.tree⟩ := by
    intro phrase hderives htext
    have hlength := hderives.depth_le_length
    have hsize := Text.length_le_byteSize phrase.text
    rw [htext] at hlength hsize
    have hdepth : phrase.depth ≤ Limits.unbounded.maxDepth :=
      Nat.le_trans (Nat.le_trans hlength hsize) hfits
    have htree : Expr.parse .unbounded source.toList = .ok phrase.tree := by
      rw [← htext] at hfits ⊢
      exact Expr.parse_eq_ok_iff.2 ⟨hfits, phrase.tests, phrase.depth, hdepth, hderives⟩
    exact parse_eq_ok_iff.2 ⟨rfl, htree⟩
  refine ⟨⟨?_, ?_⟩, ?_⟩
  · rintro ⟨rule, hrule⟩
    obtain ⟨-, htree⟩ := parse_eq_ok_iff.1 hrule
    obtain ⟨-, tests, depth, -, hderives⟩ := Expr.parse_eq_ok_iff.1 htree
    exact ⟨_, hderives, rfl⟩
  · rintro ⟨phrase, hderives, htext⟩
    exact ⟨_, hread phrase hderives htext⟩
  · intro phrase hderives htext
    exact ⟨hread phrase hderives htext, hderives.branching, hderives.atoms_eq⟩

/-- Operators inside literals, a bracket inside an array and a needless pair of parentheses,
derived because the text is read. -/
theorem Rule.derives_mixed_text :
    let source :=
      " ! ( scope.has('a&&b') ||scope.hasAny([ \"(\" , '||' ]) ) && ((scope.hasAll([])))"
    byteSize source.toList ≤ Limits.largest ∧
      ∃ phrase, Derives .chain phrase ∧ phrase.text = source.toList ∧
        phrase.tree = .and [.not (.or [.atom (.has "a&&b"), .atom (.hasAny ["(", "||"])]),
          .atom (.hasAll [])] ∧
        phrase.tests = [.has "a&&b", .hasAny ["(", "||"], .hasAll []] := by
  intro source
  have hfits : byteSize source.toList ≤ Limits.largest := by decide +kernel
  have hparse : parse .unbounded source =
      .ok ⟨source, .and [.not (.or [.atom (.has "a&&b"), .atom (.hasAny ["(", "||"])]),
        .atom (.hasAll [])]⟩ :=
    Outcomes.eq_ok_of_toOption (by decide +kernel)
  have hexact := parse_unbounded_iff_derives source hfits
  obtain ⟨phrase, hderives, htext⟩ := hexact.1.1 ⟨_, hparse⟩
  obtain ⟨hread, -, htests⟩ := hexact.2 phrase hderives htext
  rw [hparse] at hread
  have htree : _ = phrase.tree := congrArg Rule.tree (Except.ok.inj hread)
  refine ⟨hfits, phrase, hderives, htext, htree.symm, ?_⟩
  rw [← htests, ← htree]
  rfl

end TagRules
