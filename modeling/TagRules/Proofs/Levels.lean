import TagRules.Proofs.Reading

/-!
How many levels a text needs. A reader with fewer levels either gives up at its limit or
answers as one with more levels does, whatever the text is. Where the grammar derives the
text, the levels that are needed are those of the derivation, no more and no fewer.
-/

namespace TagRules

open Text (isAllBlank byteSize)
open Outcomes (bind_eq_ok_iff)

/-- An answer that gave up at the limit, unless it is the other answer. -/
def Defers {α : Type} (limit : Nat) (answer other : Except RuleError α) : Prop :=
  answer = .error (.tooDeep limit) ∨ answer = other

namespace Defers

variable {α β : Type} {limit : Nat} {answer other : Except RuleError α}

theorem refl (limit : Nat) (answer : Except RuleError α) : Defers limit answer answer :=
  Or.inr rfl

theorem bind {next next' : α → Except RuleError β} (h : Defers limit answer other)
    (hnext : ∀ value, Defers limit (next value) (next' value)) :
    Defers limit (answer >>= next) (other >>= next') := by
  rcases h with rfl | rfl
  · exact Or.inl rfl
  · cases answer with
    | error error => exact Or.inr rfl
    | ok value => exact hnext value

end Defers

/-- A reader that gives up wherever it does not answer as the other one. -/
def Reader.Defers (limit : Nat) (reader other : Reader) : Prop :=
  ∀ span, TagRules.Defers limit (reader span) (other span)

theorem Pieces.operands_defers {limit : Nat} {operand operand' : Reader}
    (h : operand.Defers limit operand') (pieces : Pieces) (before : Option (Operator × Nat))
    (start : Nat) :
    Defers limit (pieces.operands operand before start)
      (pieces.operands operand' before start) := by
  induction pieces generalizing before start with
  | last text =>
    unfold operands
    split
    · exact .refl limit _
    · exact (h _).bind (fun _ => .refl limit _)
  | before text operator rest ih =>
    unfold operands
    simp only []
    split
    · exact .refl limit _
    · exact (h _).bind (fun _ => (ih _ _).bind (fun _ => .refl limit _))

namespace Reader

variable {limit : Nat} {inner inner' operand operand' negated negated' : Reader}

theorem refuse_defers (limit : Nat) (other : Reader) : (refuse limit).Defers limit other :=
  fun _ => Or.inl rfl

theorem chain_defers (hinner : inner.Defers limit inner')
    (hoperand : operand.Defers limit operand') :
    (chain inner operand).Defers limit (chain inner' operand') := by
  intro span
  unfold chain
  simp only []
  split
  · exact hinner _
  · exact (TagRules.Defers.refl limit _).bind (fun pieces =>
      (pieces.operands_defers hoperand _ _).bind (fun _ => .refl limit _))

theorem negated_defers (hoperand : operand.Defers limit operand') :
    (Reader.negated operand).Defers limit (Reader.negated operand') := by
  intro span
  unfold Reader.negated
  split
  · exact .refl limit _
  · exact (hoperand span).bind (fun _ => .refl limit _)

theorem operand_defers (hnegated : negated.Defers limit negated')
    (hinner : inner.Defers limit inner') :
    (Reader.operand negated inner).Defers limit (Reader.operand negated' inner') := by
  intro span
  unfold Reader.operand
  simp only []
  split
  · exact hnegated _
  · split
    · exact hinner _
    · exact .refl limit _

/-- More levels change no answer but that there were too few. The induction is on the levels
of the first reader, and an operand is read by chains of its own level. -/
theorem atLevel_defers {shallow deep left more : Nat} (h : left ≤ more) (form : Form) :
    (atLevel shallow left form).Defers shallow (atLevel deep more form) := by
  induction left generalizing more form with
  | zero =>
    cases form with
    | chain => exact refuse_defers shallow _
    | operand =>
      rw [atLevel_operand deep more]
      exact operand_defers (refuse_defers shallow _) (refuse_defers shallow _)
  | succ left ih =>
    obtain ⟨more, rfl⟩ : ∃ less, more = less + 1 := ⟨more - 1, by omega⟩
    have hle : left ≤ more := Nat.le_of_succ_le_succ h
    have hchain :
        (atLevel shallow (left + 1) .chain).Defers shallow (atLevel deep (more + 1) .chain) :=
      chain_defers (ih hle .chain) (ih hle .operand)
    cases form with
    | chain => exact hchain
    | operand =>
      rw [atLevel_operand, atLevel_operand]
      exact operand_defers (negated_defers (ih hle .operand)) hchain

end Reader

theorem Expr.parse_defers {shallow deep : Nat} (h : shallow ≤ deep) (maxLength : Nat)
    (text : List Char) :
    Defers shallow (parse ⟨shallow, maxLength⟩ text) (parse ⟨deep, maxLength⟩ text) := by
  unfold parse
  simp only []
  split
  · exact .refl shallow _
  · split
    · exact .refl shallow _
    · exact Reader.atLevel_defers (Nat.succ_le_succ h) .chain _

theorem Rule.parse_defers {shallow deep : Nat} (h : shallow ≤ deep) (maxLength : Nat)
    (source : String) :
    Defers shallow (parse ⟨shallow, maxLength⟩ source) (parse ⟨deep, maxLength⟩ source) :=
  (Expr.parse_defers h maxLength source.toList).bind (fun _ => .refl shallow _)

namespace Pieces

/-- The texts of the pieces, without the blanks around them. -/
def cores : Pieces → List (List Char)
  | last text => [Text.trim text]
  | before text _ rest => Text.trim text :: rest.cores

theorem cores_join (pieces : Pieces) (op : Operator) (others : Pieces) :
    (pieces.join op others).cores = pieces.cores ++ others.cores := by
  induction pieces with
  | last text => rfl
  | before text operator rest ih => rw [join, cores, cores, ih, List.cons_append]

theorem cores_prepend {front : List Char} (hfront : isAllBlank front = true) (pieces : Pieces) :
    (pieces.prepend front).cores = pieces.cores := by
  cases pieces with
  | last text => rw [prepend, cores, cores, Text.trim_blank_append hfront]
  | before text operator rest => rw [prepend, cores, cores, Text.trim_blank_append hfront]

theorem cores_extend {back : List Char} (hback : isAllBlank back = true) (pieces : Pieces) :
    (pieces.extend back).cores = pieces.cores := by
  induction pieces with
  | last text => rw [Pieces.extend, cores, cores, Text.trim_append_blank hback]
  | before text operator rest ih => rw [Pieces.extend, cores, cores, ih]

theorem Reads.exists_of_mem_cores {reads : List Char → Expr → Prop} {pieces : Pieces}
    {first : List Expr} {others : List (List Expr)} (h : Reads reads pieces first others)
    {core : List Char} (hcore : core ∈ pieces.cores) :
    ∃ text tree, Text.trim text = core ∧ reads text tree := by
  induction h with
  | last htext =>
    rw [cores, List.mem_singleton] at hcore
    exact ⟨_, _, hcore.symm, htext⟩
  | and htext _ ih =>
    rw [cores, List.mem_cons] at hcore
    rcases hcore with rfl | hcore
    · exact ⟨_, _, rfl, htext⟩
    · exact ih hcore
  | or htext _ ih =>
    rw [cores, List.mem_cons] at hcore
    rcases hcore with rfl | hcore
    · exact ⟨_, _, rfl, htext⟩
    · exact ih hcore

end Pieces

namespace Reader

/-- With so many levels left, the text is read as an operand, blanks around it aside. -/
def Accepts (maxDepth left : Nat) (core : List Char) : Prop :=
  ∃ span tree, Text.trim span.text = core ∧ atLevel maxDepth left .operand span = .ok tree

/-- Where a chain is read, so is each of its pieces, with one level less. -/
theorem accepts_of_chain {maxDepth left : Nat} {span : Text.Span} {tree : Expr} {pieces : Pieces}
    (h : atLevel maxDepth (left + 1) .chain span = .ok tree)
    (hcut : Pieces.Cut .top 0 span.text pieces) :
    ∀ core ∈ pieces.cores, Accepts maxDepth left core := by
  obtain ⟨front, back, inner, hfront, hback, hinner, rfl⟩ := hcut.trim
  rw [Pieces.cores_prepend hfront, Pieces.cores_extend hback]
  rw [atLevel_chain] at h
  intro core hcore
  rcases chain_eq_ok h with ⟨text, hgroup, hread⟩ | ⟨-, cutPieces, first, others, hpieces, hread, -⟩
  · -- A wrapped text is a piece of its own, and reading the piece unwraps it likewise.
    rw [hinner.unique (Pieces.cut_of_group? hgroup), Pieces.cores, List.mem_singleton,
      Text.trim_trim] at hcore
    refine ⟨span, tree, hcore.symm, ?_⟩
    rw [atLevel_operand, operand_of_group? hgroup]
    exact hread
  · rw [hinner.unique hpieces] at hcore
    obtain ⟨text, operand, htrim, -, start, hoperand⟩ :=
      (Pieces.reads_of_operands hread).exists_of_mem_cores hcore
    exact ⟨⟨text, start⟩, operand, htrim, hoperand⟩

end Reader

/-- Reading all pieces of a phrase takes as many levels as the phrase nests. -/
def Phrase.Tight (maxDepth : Nat) (phrase : Phrase) : Prop :=
  ∃ pieces, Pieces.Cut .top 0 phrase.text pieces ∧
    ∀ left, (∀ core ∈ pieces.cores, Reader.Accepts maxDepth left core) → phrase.depth ≤ left

theorem Phrase.Tight.negated {maxDepth : Nat} {phrase : Phrase} (hderives : Derives .operand phrase)
    (h : phrase.Tight maxDepth) : phrase.negated.Tight maxDepth := by
  refine ⟨.last phrase.negated.text, (hderives.negated.read maxDepth).1, ?_⟩
  intro left hcores
  obtain ⟨span, tree, htrim, hread⟩ := hcores _ (List.mem_singleton_self _)
  have htext : Text.trim span.text = '!' :: Text.trimEnd phrase.text :=
    htrim.trans (Text.trim_cons rfl phrase.text)
  rw [Reader.atLevel_operand] at hread
  rcases Reader.operand_eq_ok hread with
    ⟨rest, hrest, hoperand⟩ | ⟨inner, hgroup, -⟩ | ⟨test, htest, -⟩
  · rw [htext] at hrest
    cases hrest
    cases left with
    | zero => cases hoperand
    | succ less =>
      simp only [Reader.negated] at hoperand
      split at hoperand
      · cases hoperand
      · obtain ⟨operand, hinner, -⟩ := bind_eq_ok_iff.1 hoperand
        obtain ⟨pieces, hcut, hpieces⟩ := h
        rw [hcut.unique (hderives.read maxDepth).1] at hpieces
        apply Nat.succ_le_succ
        apply hpieces less
        intro core hcore
        rw [Pieces.cores, List.mem_singleton] at hcore
        exact ⟨_, operand, hcore ▸ Text.trim_trimEnd phrase.text, hinner⟩
  · rw [htext] at hgroup
    cases eq_of_group? hgroup
  · have hhead := (Atom.parse_eq_ok_iff.1 htest).head
    rw [htext] at hhead
    cases hhead

theorem Phrase.Tight.enclosed {maxDepth : Nat} {phrase : Phrase} (hderives : Derives .chain phrase)
    (h : phrase.Tight maxDepth) : phrase.enclosed.Tight maxDepth := by
  refine ⟨.last phrase.enclosed.text, (hderives.enclosed.read maxDepth).1, ?_⟩
  intro left hcores
  obtain ⟨span, tree, htrim, hread⟩ := hcores _ (List.mem_singleton_self _)
  have htext : Text.trim span.text = '(' :: phrase.text ++ [')'] :=
    htrim.trans (Text.trim_of_trimmed (Bracket.trimmed_enclosed .round phrase.text))
  have hgroup : group? (Text.trim span.text) = some phrase.text := by
    rw [htext]
    exact group?_of_balanced hderives.seamless.balanced
  rw [Reader.atLevel_operand, Reader.operand_of_group? hgroup] at hread
  cases left with
  | zero => cases hread
  | succ less =>
    obtain ⟨pieces, hcut, hpieces⟩ := h
    exact Nat.succ_le_succ (hpieces less (Reader.accepts_of_chain hread hcut))

theorem Phrase.Tight.joined {maxDepth : Nat} (op : Operator) {parts : List Phrase}
    (hne : parts ≠ []) (hseamless : ∀ part ∈ parts, Seamless part.text)
    (h : ∀ part ∈ parts, part.Tight maxDepth) :
    ∃ pieces, Pieces.Cut .top 0 (op.symbol.toList.intercalate (parts.map text)) pieces ∧
      ∀ left, (∀ core ∈ pieces.cores, Reader.Accepts maxDepth left core) →
        ∀ part ∈ parts, part.depth ≤ left := by
  induction parts with
  | nil => exact absurd rfl hne
  | cons part rest ih =>
    obtain ⟨pieces, hcut, hpieces⟩ := h part (by simp)
    by_cases hrest : rest = []
    · subst hrest
      refine ⟨pieces, ?_, ?_⟩
      · rw [List.map_cons, List.map_nil, List.intercalate_singleton]
        exact hcut
      · intro left hcores other hother
        rw [List.mem_singleton] at hother
        rw [hother]
        exact hpieces left hcores
    · obtain ⟨others, hothers, hdepth⟩ := ih hrest (fun p hp => hseamless p (by simp [hp]))
        (fun p hp => h p (by simp [hp]))
      have hmap : rest.map text ≠ [] := by simpa using hrest
      refine ⟨pieces.join op others, ?_, ?_⟩
      · rw [List.map_cons, List.intercalate_cons_of_ne_nil hmap]
        exact hcut.join (fun c => (hseamless part (by simp)).last_of_getLast?) op hothers
      · intro left hcores
        rw [Pieces.cores_join, List.forall_mem_append] at hcores
        rw [List.forall_mem_cons]
        exact ⟨hpieces left hcores.1, hdepth left hcores.2⟩

theorem Derives.tight (maxDepth : Nat) {nonterminal : Nonterminal} {phrase : Phrase}
    (h : Derives nonterminal phrase) : phrase.Tight maxDepth := by
  have hjoined : ∀ (op : Operator) {parts : List Phrase}, 2 ≤ parts.length →
      (∀ part ∈ parts, Seamless part.text) → (∀ part ∈ parts, part.Tight maxDepth) →
        (Phrase.joined op parts).Tight maxDepth := by
    intro op parts hlength hseamless htight
    obtain ⟨pieces, hcut, hdepth⟩ :=
      Phrase.Tight.joined op (ne_nil_of_two_le hlength) hseamless htight
    exact ⟨pieces, hcut, fun left hcores => Phrase.depth_joined_le_iff.2 (hdepth left hcores)⟩
  induction h with
  | test htest => exact ⟨_, (Read.test htest : Read maxDepth _ _).1, fun _ _ => Nat.zero_le _⟩
  | negated hderives ih => exact ih.negated hderives
  | enclosed hderives ih => exact ih.enclosed hderives
  | operand _ ih => exact ih
  | conjunction hlength hderives ih =>
    exact hjoined .and hlength (fun part hpart => (hderives part hpart).seamless) ih
  | conjunct _ ih => exact ih
  | alternatives hlength hderives ih =>
    exact hjoined .or hlength (fun part hpart => (hderives part hpart).seamless) ih
  | @padded nonterminal before after phrase hbefore hafter _ ih =>
    obtain ⟨pieces, hcut, hdepth⟩ := ih
    refine ⟨(pieces.extend after).prepend before, hcut.padded hbefore hafter, ?_⟩
    rwa [Pieces.cores_prepend hbefore, Pieces.cores_extend hafter]

/-- A text that is read within a depth has no derivation that nests more deeply. -/
theorem Derives.depth_le_of_parse {limits : Limits} {phrase : Phrase} {tree : Expr}
    (h : Derives .chain phrase) (hparse : Expr.parse limits phrase.text = .ok tree) :
    phrase.depth ≤ limits.maxDepth := by
  unfold Expr.parse at hparse
  split at hparse
  · cases hparse
  · split at hparse
    · cases hparse
    · obtain ⟨pieces, hcut, hdepth⟩ := h.tight limits.maxDepth
      exact hdepth limits.maxDepth (Reader.accepts_of_chain hparse hcut)

/-- All derivations of a text nest equally deeply. -/
theorem Derives.depth_unique {phrase other : Phrase} (h : Derives .chain phrase)
    (hother : Derives .chain other) (htext : phrase.text = other.text) :
    phrase.depth = other.depth := by
  have hle : ∀ {phrase other : Phrase}, Derives .chain phrase → Derives .chain other →
      phrase.text = other.text → phrase.depth ≤ other.depth := by
    intro phrase other h hother htext
    have hparse : Expr.parse ⟨other.depth, byteSize other.text⟩ other.text = .ok other.tree :=
      Expr.parse_eq_ok_iff.2 ⟨Nat.le_refl _, other.tests, other.depth, Nat.le_refl _, hother⟩
    rw [← htext] at hparse
    exact h.depth_le_of_parse hparse
  exact Nat.le_antisymm (hle h hother htext) (hle hother h htext.symm)

/-- The outcome of reading a text that the grammar derives, if it is not too long. -/
theorem Derives.parse_eq {limits : Limits} {phrase : Phrase} (h : Derives .chain phrase)
    (hlength : byteSize phrase.text ≤ limits.maxLength) :
    Expr.parse limits phrase.text =
      if phrase.depth ≤ limits.maxDepth then .ok phrase.tree
      else .error (.tooDeep limits.maxDepth) := by
  have hread : ∀ {maxDepth}, phrase.depth ≤ maxDepth →
      Expr.parse ⟨maxDepth, limits.maxLength⟩ phrase.text = .ok phrase.tree :=
    fun hdepth => Expr.parse_eq_ok_iff.2 ⟨hlength, phrase.tests, phrase.depth, hdepth, h⟩
  split
  · next hdepth => exact hread hdepth
  · next hdepth =>
    have hshallow : limits.maxDepth ≤ phrase.depth := Nat.le_of_not_le hdepth
    rcases Expr.parse_defers hshallow limits.maxLength phrase.text with hrefused | hsame
    · exact hrefused
    · exact absurd (h.depth_le_of_parse (hsame.trans (hread (Nat.le_refl _)))) hdepth

/-- What is read of a text is what any derivation says of it. -/
theorem Derives.eq_tree_of_parse {limits : Limits} {phrase : Phrase} {tree : Expr}
    (h : Derives .chain phrase) (hparse : Expr.parse limits phrase.text = .ok tree) :
    tree = phrase.tree := by
  have hlength := (Expr.parse_eq_ok_iff.1 hparse).1
  have hdepth := h.depth_le_of_parse hparse
  rw [h.parse_eq hlength, if_pos hdepth] at hparse
  exact (Except.ok.inj hparse).symm

/-- A depth limit does nothing but refuse, and it refuses exactly the texts that nest more
deeply. The depth of an accepted text is that of its derivations, which agree on it; of any
text at all, a smaller limit gives the answer of a larger one or refuses. -/
theorem Rule.parse_within_depth (source : String) :
    (∀ rule, parse .unbounded source = .ok rule →
      ∃ depth, (∃ tests, Derives .chain ⟨source.toList, rule.tree, tests, depth⟩) ∧
        (∀ phrase, Derives .chain phrase → phrase.text = source.toList → phrase.depth = depth) ∧
        ∀ limits : Limits, byteSize source.toList ≤ limits.maxLength →
          parse limits source =
            if depth ≤ limits.maxDepth then .ok rule else .error (.tooDeep limits.maxDepth)) ∧
    ∀ shallow deep maxLength, shallow ≤ deep →
      parse ⟨shallow, maxLength⟩ source = .error (.tooDeep shallow) ∨
        parse ⟨shallow, maxLength⟩ source = parse ⟨deep, maxLength⟩ source := by
  refine ⟨?_, fun shallow deep maxLength h => parse_defers h maxLength source⟩
  intro rule hparse
  obtain ⟨hsource, htree⟩ := parse_eq_ok_iff.1 hparse
  obtain ⟨-, tests, depth, -, hderives⟩ := Expr.parse_eq_ok_iff.1 htree
  refine ⟨depth, ⟨tests, hderives⟩, ?_, ?_⟩
  · intro phrase hphrase htext
    exact hphrase.depth_unique hderives htext
  · intro limits hlength
    have houtcome : Expr.parse limits source.toList =
        if depth ≤ limits.maxDepth then .ok rule.tree else .error (.tooDeep limits.maxDepth) :=
      hderives.parse_eq hlength
    rw [parse, houtcome]
    split
    · rw [← hsource]
      rfl
    · rfl

/-- Redundant parentheses and `!` count one by one, and the parentheses of a test or in a key
do not. Of a broken text a limit may hide what is wrong with it. -/
theorem Rule.parse_within_depth_of_nested_text :
    let source := "!((scope.has('(')))||!scope.has(\"a\")"
    let rule : Rule := ⟨source, .or [.not (.atom (.has "(")), .not (.atom (.has "a"))]⟩
    let broken := "((scope.has('a')) && scope.wat('b'))"
    parse .unbounded source = .ok rule ∧
      (∃ tests, Derives .chain ⟨source.toList, rule.tree, tests, 3⟩) ∧
      (∀ maxDepth, parse ⟨maxDepth, 36⟩ source =
        if 3 ≤ maxDepth then .ok rule else .error (.tooDeep maxDepth)) ∧
      1 ≤ 2 ∧ (parse ⟨1, 36⟩ broken = .error (.tooDeep 1) ∨
        parse ⟨1, 36⟩ broken = parse ⟨2, 36⟩ broken) := by
  intro source rule broken
  have hparse : parse .unbounded source = .ok rule :=
    Outcomes.eq_ok_of_toOption (by decide +kernel)
  have hlength : byteSize source.toList ≤ 36 := by decide +kernel
  have hthree : (parse ⟨3, 36⟩ source).toOption = some rule := by decide +kernel
  have htwo : (parse ⟨2, 36⟩ source).toOption = none := by decide +kernel
  obtain ⟨depth, ⟨tests, hderives⟩, -, hlimits⟩ := (parse_within_depth source).1 rule hparse
  have hdepth : depth = 3 := by
    rw [hlimits ⟨3, 36⟩ hlength] at hthree
    rw [hlimits ⟨2, 36⟩ hlength] at htwo
    split at hthree
    · next hle =>
      split at htwo
      · cases htwo
      · next hnot => exact Nat.le_antisymm hle (Nat.lt_of_not_le hnot)
    · cases hthree
  subst hdepth
  exact ⟨hparse, ⟨tests, hderives⟩, fun maxDepth => hlimits ⟨maxDepth, 36⟩ hlength, by decide,
    (parse_within_depth broken).2 1 2 36 (by decide)⟩

end TagRules
