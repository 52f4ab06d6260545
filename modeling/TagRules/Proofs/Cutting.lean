import TagRules.Proofs.Balance
import TagRules.Proofs.Outcomes
import TagRules.Proofs.Trimming
import TagRules.Rule.Token

/-!
Texts cut at their top-level operators. Cutting succeeds exactly along the
derivations of `Pieces.Cut`, and these compose: an operator joins two cut texts,
blanks go into the first and the last piece, and offsets have no influence on the
pieces.
-/

namespace TagRules

open Text (byteSize isAllBlank isBlank)
open Outcomes (bind_eq_ok_iff)

/-- The character that an operator is written with, twice. -/
def Operator.char : Operator → Char
  | .and => '&'
  | .or => '|'

theorem Operator.toList_symbol (op : Operator) : op.symbol.toList = [op.char, op.char] := by
  cases op <;> rfl

theorem Operator.char_injective {op other : Operator} (h : op.char = other.char) : op = other := by
  revert h
  cases op <;> cases other <;> decide

theorem Operator.byteSize_symbol (op : Operator) : byteSize op.symbol.toList = 2 := by
  cases op <;> rfl

theorem Operator.byteSize_append_symbol (op : Operator) (text : List Char) :
    byteSize (text ++ op.symbol.toList) = byteSize text + 2 := by
  rw [Text.byteSize_append, op.byteSize_symbol]

theorem Operator.ofPair?_eq_some_iff {c d : Char} {op : Operator} :
    ofPair? c d = some op ↔ c = op.char ∧ d = op.char := by
  rw [ofPair?_eq_some, toList_symbol, List.cons.injEq, List.cons.injEq]
  constructor
  · rintro ⟨hc, hd, -⟩
    exact ⟨hc.symm, hd.symm⟩
  · rintro ⟨hc, hd⟩
    exact ⟨hc.symm, hd.symm, rfl⟩

theorem Operator.ofPair?_eq_none_of_left {c : Char} (hc : ∀ op : Operator, c ≠ op.char)
    (d : Char) : ofPair? c d = none := by
  cases h : ofPair? c d with
  | none => rfl
  | some op => exact absurd (ofPair?_eq_some_iff.1 h).1 (hc op)

theorem Operator.ofPair?_eq_none_of_right {d : Char} (hd : ∀ op : Operator, d ≠ op.char)
    (c : Char) : ofPair? c d = none := by
  cases h : ofPair? c d with
  | none => rfl
  | some op => exact absurd (ofPair?_eq_some_iff.1 h).2 (hd op)

/-- A character that opens or closes nothing and has no part in an operator. -/
def Inert (c : Char) : Prop :=
  Mark.ofChar c = .plain ∧ ∀ op : Operator, c ≠ op.char

theorem inert_iff {c : Char} : Inert c ↔ Mark.ofChar c = .plain ∧ c ≠ '&' ∧ c ≠ '|' := by
  constructor
  · rintro ⟨hplain, hop⟩
    exact ⟨hplain, hop .and, hop .or⟩
  · rintro ⟨hplain, hand, hor⟩
    refine ⟨hplain, fun op => ?_⟩
    cases op with
    | and => exact hand
    | or => exact hor

instance (c : Char) : Decidable (Inert c) :=
  decidable_of_iff _ inert_iff.symm

theorem inert_of_all {text : List Char} (h : text.all (fun c => decide (Inert c)) = true) :
    ∀ c ∈ text, Inert c := by
  intro c hc
  exact of_decide_eq_true (List.all_eq_true.1 h c hc)

theorem inert_of_isBlank {c : Char} (h : isBlank c = true) : Inert c := by
  have hne : ∀ d : Char, isBlank d = false → c ≠ d := by
    rintro d hd rfl
    rw [h] at hd
    cases hd
  constructor
  · unfold Mark.ofChar
    split
    · exact absurd rfl (hne '"' rfl)
    · exact absurd rfl (hne '\'' rfl)
    · exact absurd rfl (hne '(' rfl)
    · exact absurd rfl (hne '[' rfl)
    · exact absurd rfl (hne ')' rfl)
    · exact absurd rfl (hne ']' rfl)
    · rfl
  · intro op
    cases op with
    | and => exact hne '&' rfl
    | or => exact hne '|' rfl

theorem inert_of_isAllBlank {text : List Char} (h : isAllBlank text = true) :
    ∀ c ∈ text, Inert c :=
  fun c hc => inert_of_isBlank (Text.isAllBlank_iff.1 h c hc)

theorem Balanced.of_isAllBlank {text : List Char} (h : isAllBlank text = true) :
    Balanced text :=
  .of_plain (fun c hc => (inert_of_isAllBlank h c hc).1)

theorem Balanced.of_trim {text : List Char} (h : Balanced (Text.trim text)) : Balanced text := by
  obtain ⟨before, after, hbefore, hafter, htext⟩ := Text.exists_trim text
  rw [htext]
  exact ((Balanced.of_isAllBlank hbefore).append h).append (.of_isAllBlank hafter)

theorem Bracket.trimmed_enclosed (bracket : Bracket) (inner : List Char) :
    Text.Trimmed (bracket.opening :: inner ++ [bracket.closing]) := by
  constructor
  · intro c hc
    cases hc
    cases bracket <;> rfl
  · intro c hc
    rw [List.getLast?_concat] at hc
    cases hc
    cases bracket <;> rfl

theorem Operator.balanced_symbol (op : Operator) : Balanced op.symbol.toList := by
  apply Balanced.of_plain
  intro c hc
  rw [toList_symbol] at hc
  cases op <;> simp_all [char, Mark.ofChar]

namespace Pieces

def text : Pieces → List Char
  | last piece => piece
  | before piece operator rest => piece ++ operator.symbol.toList ++ rest.text

def prepend (front : List Char) : Pieces → Pieces
  | last piece => last (front ++ piece)
  | before piece operator rest => before (front ++ piece) operator rest

def extend (back : List Char) : Pieces → Pieces
  | last piece => last (piece ++ back)
  | before piece operator rest => before piece operator (rest.extend back)

/-- The pieces of two texts with an operator between them. -/
def join : Pieces → Operator → Pieces → Pieces
  | last piece, op, others => before piece op others
  | before piece operator rest, op, others => before piece operator (rest.join op others)

@[simp] theorem prepend_nil (pieces : Pieces) : pieces.prepend [] = pieces := by
  cases pieces <;> rfl

@[simp] theorem cons_prepend (c : Char) (front : List Char) (pieces : Pieces) :
    (pieces.prepend front).cons c = pieces.prepend (c :: front) := by
  cases pieces <;> rfl

@[simp] theorem text_cons (c : Char) (pieces : Pieces) :
    (pieces.cons c).text = c :: pieces.text := by
  cases pieces <;> simp [cons, text]

@[simp] theorem join_cons (c : Char) (op : Operator) (pieces others : Pieces) :
    (pieces.cons c).join op others = (pieces.join op others).cons c := by
  cases pieces <;> rfl

@[simp] theorem extend_cons (c : Char) (back : List Char) (pieces : Pieces) :
    (pieces.cons c).extend back = (pieces.extend back).cons c := by
  cases pieces <;> rfl

/-- How a text is cut, from offset `position` and `nesting` on. Characters join the
first piece of the rest, except for an operator that is met with nothing open. -/
inductive Cut : Nesting → Nat → List Char → Pieces → Prop where
  | done (position : Nat) : Cut .top position [] (.last [])
  | operator {position : Nat} {c d : Char} {rest : List Char} {op : Operator} {pieces : Pieces} :
      Operator.ofPair? c d = some op → Cut .top (position + 2) rest pieces →
        Cut .top position (c :: d :: rest) (.before [] op pieces)
  | char {nesting next : Nesting} {position : Nat} {c : Char} {rest : List Char}
      {pieces : Pieces} :
      (nesting.isTop = true → ∀ d, rest.head? = some d → Operator.ofPair? c d = none) →
        Nesting.Move position nesting c next → Cut next (position + c.utf8Size) rest pieces →
          Cut nesting position (c :: rest) (pieces.cons c)

theorem cut_eq_ok_iff {nesting : Nesting} {position : Nat} {text : List Char} {pieces : Pieces} :
    cut nesting position text = .ok pieces ↔ Cut nesting position text pieces := by
  constructor
  · intro h
    induction nesting, position, text using cut.induct generalizing pieces with
    | case1 nesting position =>
      rw [cut, bind_eq_ok_iff] at h
      obtain ⟨_, hfinish, hlast⟩ := h
      cases hlast
      rw [Nesting.finish_eq_ok_iff.1 hfinish]
      exact .done position
    | case2 nesting position c =>
      rw [cut, bind_eq_ok_iff] at h
      obtain ⟨next, hstep, h⟩ := h
      obtain ⟨_, hfinish, hlast⟩ := bind_eq_ok_iff.1 h
      cases hlast
      rw [Nesting.finish_eq_ok_iff.1 hfinish] at hstep
      exact .char (fun _ d hd => by simp at hd) (Nesting.step_eq_ok_iff.1 hstep) (.done _)
    | case3 nesting position c d rest operator hpair ih =>
      rw [cut, hpair] at h
      obtain ⟨tail, htail, hbefore⟩ := bind_eq_ok_iff.1 h
      cases hbefore
      split at hpair
      · next htop =>
        have hnesting := Nesting.isTop_iff.1 htop
        subst hnesting
        exact .operator hpair (ih htail)
      · cases hpair
    | case4 nesting position c d rest hpair ih =>
      rw [cut, hpair] at h
      obtain ⟨next, hstep, h⟩ := bind_eq_ok_iff.1 h
      obtain ⟨tail, htail, hcons⟩ := bind_eq_ok_iff.1 h
      cases hcons
      refine .char ?_ (Nesting.step_eq_ok_iff.1 hstep) (ih next htail)
      intro htop e he
      cases he
      rwa [if_pos htop] at hpair
  · intro h
    induction h with
    | done position => rfl
    | operator hpair _ ih =>
      rw [cut, if_pos (Nesting.isTop_iff.2 rfl), hpair]
      exact bind_eq_ok_iff.2 ⟨_, ih, rfl⟩
    | @char nesting next position c rest pieces hpair hmove htail ih =>
      have hstep := Nesting.step_eq_ok_iff.2 hmove
      cases rest with
      | nil =>
        cases htail
        rw [cut]
        exact bind_eq_ok_iff.2 ⟨_, hstep, rfl⟩
      | cons d rest =>
        have hnone : (if nesting.isTop = true then Operator.ofPair? c d else none) = none := by
          split
          · next htop => exact hpair htop d rfl
          · rfl
        rw [cut, hnone]
        exact bind_eq_ok_iff.2 ⟨next, hstep, bind_eq_ok_iff.2 ⟨pieces, ih, rfl⟩⟩

theorem Cut.unique {nesting : Nesting} {position : Nat} {text : List Char}
    {pieces others : Pieces} (h : Cut nesting position text pieces)
    (hothers : Cut nesting position text others) : pieces = others := by
  have hsame := (cut_eq_ok_iff.2 h).symm.trans (cut_eq_ok_iff.2 hothers)
  exact Except.ok.inj hsame

/-- No character is lost in cutting. -/
theorem Cut.text_eq {nesting : Nesting} {position : Nat} {text : List Char} {pieces : Pieces}
    (h : Cut nesting position text pieces) : pieces.text = text := by
  induction h with
  | done => rfl
  | @operator position c d rest op pieces hpair _ ih =>
    rw [Pieces.text, ih, Operator.ofPair?_eq_some.1 hpair]
    rfl
  | char _ _ _ ih => rw [text_cons, ih]

end Pieces

/-- What is open, without the offsets at which it was opened. -/
def Nesting.shape (nesting : Nesting) : Option Quote × List Bracket :=
  (nesting.literal.map Prod.fst, nesting.brackets.map Prod.fst)

theorem Nesting.eq_top_of_shape {nesting : Nesting} (h : nesting.shape = Nesting.top.shape) :
    nesting = .top := by
  obtain ⟨literal, brackets⟩ := nesting
  simp only [shape, top, Option.map_none, List.map_nil, Prod.mk.injEq, Option.map_eq_none_iff,
    List.map_eq_nil_iff] at h
  rw [h.1, h.2]
  rfl

theorem Nesting.isTop_eq_of_shape {nesting other : Nesting} (h : nesting.shape = other.shape) :
    nesting.isTop = other.isTop := by
  obtain ⟨hliteral, hbrackets⟩ := Prod.mk.inj h
  have hnone := congrArg Option.isNone hliteral
  have hempty := congrArg List.isEmpty hbrackets
  rw [Option.isNone_map, Option.isNone_map] at hnone
  rw [List.isEmpty_map, List.isEmpty_map] at hempty
  rw [isTop, isTop, hnone, hempty]

theorem Nesting.Move.shift {nesting next other : Nesting} {position : Nat} {c : Char}
    (h : Move position nesting c next) (hshape : other.shape = nesting.shape) (position' : Nat) :
    ∃ next', Move position' other c next' ∧ next'.shape = next.shape := by
  obtain ⟨literal, brackets⟩ := other
  obtain ⟨hliteral, hbrackets⟩ := Prod.mk.inj hshape
  simp only [] at hliteral hbrackets
  cases h with
  | inLiteral hc =>
    obtain ⟨⟨quote, start⟩, rfl, rfl⟩ := Option.map_eq_some_iff.1 hliteral
    exact ⟨_, .inLiteral hc, by simp [shape, hbrackets]⟩
  | closeLiteral quote =>
    obtain ⟨⟨quote, start⟩, rfl, rfl⟩ := Option.map_eq_some_iff.1 hliteral
    exact ⟨_, .closeLiteral quote, by simp [shape, hbrackets]⟩
  | plain hc =>
    cases Option.map_eq_none_iff.1 hliteral
    exact ⟨_, .plain hc, by simp [shape, hbrackets]⟩
  | openLiteral quote =>
    cases Option.map_eq_none_iff.1 hliteral
    exact ⟨_, .openLiteral quote, by simp [shape, hbrackets]⟩
  | openBracket bracket =>
    cases Option.map_eq_none_iff.1 hliteral
    exact ⟨_, .openBracket bracket, by simp [shape, hbrackets]⟩
  | closeBracket bracket =>
    cases Option.map_eq_none_iff.1 hliteral
    obtain ⟨⟨opened, start⟩, outer, rfl, hopened, houter⟩ := List.map_eq_cons_iff.1 hbrackets
    cases hopened
    exact ⟨_, .closeBracket bracket, by simp [shape, houter]⟩

namespace Pieces

/-- The pieces do not depend on the offsets. -/
theorem Cut.shift {nesting other : Nesting} {position : Nat} {text : List Char} {pieces : Pieces}
    (h : Cut nesting position text pieces) (hshape : other.shape = nesting.shape)
    (position' : Nat) : Cut other position' text pieces := by
  induction h generalizing other position' with
  | done =>
    rw [Nesting.eq_top_of_shape hshape]
    exact .done position'
  | operator hpair _ ih =>
    rw [Nesting.eq_top_of_shape hshape]
    exact .operator hpair (ih rfl _)
  | char hpair hmove _ ih =>
    obtain ⟨next', hmove', hnext⟩ := hmove.shift hshape position'
    rw [← Nesting.isTop_eq_of_shape hshape] at hpair
    exact .char hpair hmove' (ih hnext _)

theorem ofText_eq_ok_iff {text : List Char} {pieces : Pieces} (position : Nat) :
    ofText text = .ok pieces ↔ Cut .top position text pieces := by
  rw [ofText, cut_eq_ok_iff]
  exact ⟨fun h => h.shift rfl position, fun h => h.shift rfl 0⟩

/-- A stretch over which something stays open goes into the first piece. -/
theorem Cut.prepend_inside {before after : Nesting} {position : Nat} {front back : List Char}
    {pieces : Pieces} (hinside : Nesting.Inside before position front after)
    (hback : Cut after (position + byteSize front) back pieces) :
    Cut before position (front ++ back) (pieces.prepend front) := by
  induction hinside with
  | nil => simpa using hback
  | cons hopen hmove _ ih =>
    rw [Text.byteSize_cons, ← Nat.add_assoc] at hback
    have htail := ih hback
    rw [← cons_prepend]
    refine .char ?_ hmove htail
    intro htop
    rw [hopen] at htop
    cases htop

theorem Cut.prepend_inert {front : List Char} (hfront : ∀ c ∈ front, Inert c) {position : Nat}
    {back : List Char} {pieces : Pieces} (hback : Cut .top position back pieces) :
    Cut .top position (front ++ back) (pieces.prepend front) := by
  induction front generalizing position with
  | nil => simpa using hback
  | cons c rest ih =>
    have hc := hfront c (by simp)
    have htail := ih (fun d hd => hfront d (by simp [hd])) (hback.shift rfl (position + c.utf8Size))
    rw [← cons_prepend]
    exact .char (fun _ d _ => Operator.ofPair?_eq_none_of_left hc.2 d) (.plain hc.1) htail

theorem Cut.prepend_enclosed {inner : List Char} (hinner : Balanced inner) (bracket : Bracket)
    {position : Nat} {back : List Char} {pieces : Pieces} (hback : Cut .top position back pieces) :
    Cut .top position (bracket.opening :: inner ++ bracket.closing :: back)
      (pieces.prepend (bracket.opening :: inner ++ [bracket.closing])) := by
  have hopening : ∀ op : Operator, bracket.opening ≠ op.char := by
    intro op
    cases bracket <;> cases op <;> decide
  have hinside : Nesting.Inside ⟨none, [(bracket, position)]⟩
      (position + bracket.opening.utf8Size) (inner ++ [bracket.closing]) .top :=
    (hinner.inside (List.cons_ne_nil _ _) _).append
      (.cons rfl (.closeBracket bracket) (.nil _ _))
  have htail := Cut.prepend_inside hinside (hback.shift rfl _)
  rw [List.append_assoc] at htail
  rw [List.cons_append, List.cons_append, ← cons_prepend]
  exact .char (fun _ d _ => Operator.ofPair?_eq_none_of_left hopening d) (.openBracket bracket)
    htail

/-- An operator joins two cut texts, provided that the first one does not end in half an
operator. -/
theorem Cut.join {nesting : Nesting} {position : Nat} {front back : List Char}
    {pieces others : Pieces} (hfront : Cut nesting position front pieces)
    (hlast : ∀ c, front.getLast? = some c → ∀ op : Operator, c ≠ op.char) (op : Operator)
    (hback : Cut .top 0 back others) :
    Cut nesting position (front ++ op.symbol.toList ++ back) (pieces.join op others) := by
  induction hfront with
  | done position =>
    rw [List.nil_append, Operator.toList_symbol]
    exact .operator (Operator.ofPair?_eq_some_iff.2 ⟨rfl, rfl⟩) (hback.shift rfl _)
  | @operator position c d rest op' pieces hpair _ ih =>
    refine .operator hpair (ih ?_)
    intro e he
    apply hlast e
    rw [List.getLast?_cons_cons, List.getLast?_cons, he]
    rfl
  | @char nesting next position c rest pieces hpair hmove htail ih =>
    rw [join_cons]
    refine .char ?_ hmove (ih ?_)
    · intro htop d hd
      cases rest with
      | nil => exact Operator.ofPair?_eq_none_of_left (hlast c rfl) d
      | cons e rest => exact hpair htop d hd
    · intro e he
      apply hlast e
      rw [List.getLast?_cons, he]
      rfl

theorem Cut.extend {nesting : Nesting} {position : Nat} {front back : List Char} {pieces : Pieces}
    (h : Cut nesting position front pieces) (hback : isAllBlank back = true) :
    Cut nesting position (front ++ back) (pieces.extend back) := by
  induction h with
  | done position =>
    have hblank := Cut.prepend_inert (inert_of_isAllBlank hback) (.done position)
    simpa [prepend, Pieces.extend] using hblank
  | operator hpair _ ih => exact .operator hpair ih
  | @char nesting next position c rest pieces hpair hmove _ ih =>
    rw [extend_cons]
    refine .char ?_ hmove ih
    intro htop d hd
    cases rest with
    | nil =>
      have hinert := inert_of_isAllBlank hback d (List.mem_of_mem_head? hd)
      exact Operator.ofPair?_eq_none_of_right hinert.2 c
    | cons e rest => exact hpair htop d hd

theorem Cut.padded {before text after : List Char} {position : Nat} {pieces : Pieces}
    (hbefore : isAllBlank before = true) (h : Cut .top position text pieces)
    (hafter : isAllBlank after = true) :
    Cut .top position (before ++ text ++ after) ((pieces.extend after).prepend before) := by
  rw [List.append_assoc]
  exact (h.extend hafter).prepend_inert (inert_of_isAllBlank hbefore)

theorem Cut.padded_last {before text after : List Char} {position : Nat}
    (hbefore : isAllBlank before = true) (h : Cut .top position text (.last text))
    (hafter : isAllBlank after = true) :
    Cut .top position (before ++ text ++ after) (.last (before ++ text ++ after)) := by
  have hcut := h.padded hbefore hafter
  rwa [Pieces.extend, Pieces.prepend, ← List.append_assoc] at hcut

theorem Cut.eq_of_isAllBlank {nesting : Nesting} {position : Nat} {text : List Char}
    {pieces : Pieces} (h : Cut nesting position text pieces) (hblank : isAllBlank text = true) :
    nesting = .top ∧ pieces = .last text := by
  induction h with
  | done => exact ⟨rfl, rfl⟩
  | @operator position c d rest op pieces hpair _ _ =>
    have hinert := inert_of_isAllBlank hblank c (by simp)
    exact absurd (Operator.ofPair?_eq_some_iff.1 hpair).1 (hinert.2 op)
  | @char nesting next position c rest pieces _ hmove _ ih =>
    rw [Text.isAllBlank_cons, Bool.and_eq_true] at hblank
    obtain ⟨htop, hpieces⟩ := ih hblank.2
    have hplain := (inert_of_isBlank hblank.1).1
    subst hpieces
    cases hmove with
    | inLiteral => cases htop
    | closeLiteral quote => simp at hplain
    | plain => exact ⟨htop, rfl⟩
    | openLiteral quote => cases htop
    | openBracket bracket => cases htop
    | closeBracket bracket => simp at hplain

theorem Cut.of_append_blank {nesting : Nesting} {position : Nat} {front back : List Char}
    {pieces : Pieces} (h : Cut nesting position (front ++ back) pieces)
    (hback : isAllBlank back = true) :
    ∃ inner, Cut nesting position front inner ∧ pieces = inner.extend back := by
  generalize htext : front ++ back = text at h
  induction h generalizing front with
  | done position =>
    obtain ⟨rfl, rfl⟩ := List.append_eq_nil_iff.1 htext
    exact ⟨.last [], .done position, rfl⟩
  | @operator position c d rest op pieces hpair htail ih =>
    rcases front with _ | ⟨c', _ | ⟨d', front⟩⟩
    · have hboth := Cut.operator hpair htail
      rw [← htext] at hboth
      obtain ⟨-, hlast⟩ := hboth.eq_of_isAllBlank hback
      cases hlast
    · cases htext
      have hinert := inert_of_isAllBlank hback d (by simp)
      exact absurd (Operator.ofPair?_eq_some_iff.1 hpair).2 (hinert.2 op)
    · cases htext
      obtain ⟨inner, hinner, rfl⟩ := ih rfl
      exact ⟨_, .operator hpair hinner, rfl⟩
  | @char nesting next position c rest pieces hpair hmove htail ih =>
    cases front with
    | nil =>
      have hall := Cut.char hpair hmove htail
      rw [← htext] at hall
      obtain ⟨rfl, hlast⟩ := hall.eq_of_isAllBlank hback
      exact ⟨.last [], .done position, hlast⟩
    | cons c' front =>
      cases htext
      obtain ⟨inner, hinner, rfl⟩ := ih rfl
      refine ⟨inner.cons c, .char ?_ hmove hinner, (extend_cons _ _ _).symm⟩
      intro htop d hd
      apply hpair htop d
      change (front ++ back).head? = some d
      rw [List.head?_append, hd]
      rfl

theorem Cut.of_blank_append {position : Nat} {front back : List Char} {pieces : Pieces}
    (h : Cut .top position (front ++ back) pieces) (hfront : isAllBlank front = true) :
    ∃ inner, Cut .top 0 back inner ∧ pieces = inner.prepend front := by
  induction front generalizing position pieces with
  | nil => exact ⟨pieces, h.shift rfl 0, by simp⟩
  | cons c rest ih =>
    rw [Text.isAllBlank_cons, Bool.and_eq_true] at hfront
    have hc := inert_of_isBlank hfront.1
    generalize htext : rest ++ back = tail at h
    rw [List.cons_append, htext] at h
    cases h with
    | operator hpair =>
      rw [Operator.ofPair?_eq_none_of_left hc.2] at hpair
      cases hpair
    | char _ hmove htail =>
      have hnext : Nesting.Move position .top c .top := .plain hc.1
      have hsame := (Nesting.step_eq_ok_iff.2 hmove).symm.trans (Nesting.step_eq_ok_iff.2 hnext)
      cases hsame
      rw [← htext] at htail
      obtain ⟨inner, hinner, rfl⟩ := ih htail hfront.2
      exact ⟨inner, hinner, by simp⟩

/-- A text and its trimmed core are cut alike, up to blanks in the first and the last
piece. -/
theorem Cut.trim {position : Nat} {text : List Char} {pieces : Pieces}
    (h : Cut .top position text pieces) :
    ∃ front back inner, isAllBlank front = true ∧ isAllBlank back = true ∧
      Cut .top 0 (Text.trim text) inner ∧ pieces = (inner.extend back).prepend front := by
  obtain ⟨front, back, hfront, hback, htext⟩ := Text.exists_trim text
  rw [htext, List.append_assoc] at h
  obtain ⟨middle, hmiddle, rfl⟩ := h.of_blank_append hfront
  obtain ⟨inner, hinner, rfl⟩ := hmiddle.of_append_blank hback
  exact ⟨front, back, inner, hfront, hback, hinner, rfl⟩

/-- A wrapped text is a single piece. -/
theorem cut_of_group? {text inner : List Char} (h : group? text = some inner) :
    Cut .top 0 text (.last text) := by
  obtain ⟨next, htext, hinside, hopen, hclose⟩ := inside_of_group? h
  have hall : Nesting.Inside ⟨none, [(.round, 0)]⟩ 1 (inner ++ [')']) .top :=
    hinside.append (.cons hopen hclose (.nil _ _))
  have hrest := Cut.prepend_inside hall (.done _)
  rw [List.append_nil] at hrest
  have hcut : Cut .top 0 ('(' :: (inner ++ [')']))
      ((prepend (inner ++ [')']) (.last [])).cons '(') :=
    .char (fun _ d _ => rfl) (.openBracket .round) hrest
  rw [htext]
  simpa [prepend, cons] using hcut

end Pieces

theorem Token.ofSpan_of_nonblank {text : List Char} (h : isAllBlank text = false) (start : Nat) :
    ofSpan ⟨text, start⟩ = [.operand (Text.Span.mk text start).trim] := by
  have hne : Text.trim text ≠ [] := by
    intro hnil
    rw [← Text.isAllBlank_iff_trim, h] at hnil
    cases hnil
  have hempty : (Text.Span.mk text start).trim.text.isEmpty = false := by
    rw [List.isEmpty_eq_false_iff]
    exact hne
  rw [ofSpan]
  simp only [hempty, Bool.false_eq_true, if_false]

end TagRules
