import TagRules.Rule.Nesting
import TagRules.Text.Blank

/-!
Balanced texts, and what a scan does over them. A balanced text is given by a
grammar that knows nothing of the scan. The scan is described by one relation for a
single character and one for a stretch over which something stays open, and a
balanced text between brackets is such a stretch.
-/

namespace TagRules

open Text (byteSize)

/-- A text in which every literal runs to the next quote of its kind and every bracket
is closed by one of its kind. -/
inductive Balanced : List Char → Prop where
  | nil : Balanced []
  | plain {c : Char} {rest : List Char} :
      Mark.ofChar c = .plain → Balanced rest → Balanced (c :: rest)
  | literal (quote : Quote) {key rest : List Char} :
      quote.char ∉ key → Balanced rest → Balanced (quote.char :: key ++ quote.char :: rest)
  | bracketed (bracket : Bracket) {inner rest : List Char} :
      Balanced inner → Balanced rest →
        Balanced (bracket.opening :: inner ++ bracket.closing :: rest)

theorem Balanced.append {front back : List Char} (hfront : Balanced front)
    (hback : Balanced back) : Balanced (front ++ back) := by
  induction hfront with
  | nil => exact hback
  | plain hc _ ih => exact .plain hc ih
  | literal quote hkey _ ih =>
    rw [List.append_assoc, List.cons_append]
    exact .literal quote hkey ih
  | bracketed bracket hinner _ _ ih =>
    rw [List.append_assoc, List.cons_append]
    exact .bracketed bracket hinner ih

theorem Balanced.of_plain {text : List Char} (h : ∀ c ∈ text, Mark.ofChar c = .plain) :
    Balanced text := by
  induction text with
  | nil => exact .nil
  | cons c rest ih =>
    exact .plain (h c (by simp)) (ih (fun d hd => h d (by simp [hd])))

theorem Balanced.enclosed {inner : List Char} (bracket : Bracket) (h : Balanced inner) :
    Balanced (bracket.opening :: inner ++ [bracket.closing]) :=
  .bracketed bracket h .nil

/-- What one character does to what is open. `position` is the offset at which the
character stands. -/
inductive Nesting.Move (position : Nat) : Nesting → Char → Nesting → Prop where
  | inLiteral {quote : Quote} {start : Nat} {brackets : List (Bracket × Nat)} {c : Char} :
      c ≠ quote.char →
        Move position ⟨some (quote, start), brackets⟩ c ⟨some (quote, start), brackets⟩
  | closeLiteral (quote : Quote) {start : Nat} {brackets : List (Bracket × Nat)} :
      Move position ⟨some (quote, start), brackets⟩ quote.char ⟨none, brackets⟩
  | plain {brackets : List (Bracket × Nat)} {c : Char} :
      Mark.ofChar c = .plain → Move position ⟨none, brackets⟩ c ⟨none, brackets⟩
  | openLiteral (quote : Quote) {brackets : List (Bracket × Nat)} :
      Move position ⟨none, brackets⟩ quote.char ⟨some (quote, position), brackets⟩
  | openBracket (bracket : Bracket) {brackets : List (Bracket × Nat)} :
      Move position ⟨none, brackets⟩ bracket.opening ⟨none, (bracket, position) :: brackets⟩
  | closeBracket (bracket : Bracket) {start : Nat} {outer : List (Bracket × Nat)} :
      Move position ⟨none, (bracket, start) :: outer⟩ bracket.closing ⟨none, outer⟩

theorem Mark.eq_of_ofChar_quote {c : Char} {quote : Quote} (h : ofChar c = .quote quote) :
    c = quote.char := by
  unfold ofChar at h
  split at h <;> cases h <;> rfl

theorem Mark.eq_of_ofChar_opening {c : Char} {bracket : Bracket} (h : ofChar c = .opening bracket) :
    c = bracket.opening := by
  unfold ofChar at h
  split at h <;> cases h <;> rfl

theorem Mark.eq_of_ofChar_closing {c : Char} {bracket : Bracket} (h : ofChar c = .closing bracket) :
    c = bracket.closing := by
  unfold ofChar at h
  split at h <;> cases h <;> rfl

theorem Nesting.step_eq_ok_iff {nesting next : Nesting} {c : Char} {position : Nat} :
    nesting.step c position = .ok next ↔ Move position nesting c next := by
  constructor
  · intro h
    obtain ⟨literal, brackets⟩ := nesting
    cases literal with
    | some opened =>
      obtain ⟨quote, start⟩ := opened
      by_cases hc : c = quote.char
      · simp only [step, hc, if_true, Except.ok.injEq] at h
        subst h hc
        exact .closeLiteral quote
      · simp only [step, hc, if_false, Except.ok.injEq] at h
        subst h
        exact .inLiteral hc
    | none =>
      simp only [step] at h
      split at h
      · next hmark =>
        cases h
        exact .plain hmark
      · next quote hmark =>
        cases h
        rw [Mark.eq_of_ofChar_quote hmark]
        exact .openLiteral quote
      · next bracket hmark =>
        cases h
        rw [Mark.eq_of_ofChar_opening hmark]
        exact .openBracket bracket
      · next bracket hmark =>
        rw [Mark.eq_of_ofChar_closing hmark]
        unfold close at h
        split at h
        · cases h
        · split at h
          · next hopened =>
            cases h
            rw [hopened]
            exact .closeBracket bracket
          · cases h
  · intro h
    cases h with
    | inLiteral hc => simp [step, hc]
    | closeLiteral quote => simp [step]
    | plain hmark => simp [step, hmark]
    | openLiteral quote => simp [step]
    | openBracket bracket => simp [step]
    | closeBracket bracket => simp [step, close]

theorem Nesting.finish_eq_ok_iff {nesting : Nesting} :
    nesting.finish = .ok () ↔ nesting = .top := by
  obtain ⟨literal, brackets⟩ := nesting
  cases literal with
  | some opened => simp [finish, top]
  | none => cases brackets <;> simp [finish, top]

theorem Nesting.isTop_of_brackets {literal : Option (Quote × Nat)} {brackets : List (Bracket × Nat)}
    (h : brackets ≠ []) : (⟨literal, brackets⟩ : Nesting).isTop = false := by
  simp [isTop, h]

theorem Nesting.isTop_of_literal (opened : Quote × Nat) (brackets : List (Bracket × Nat)) :
    (⟨some opened, brackets⟩ : Nesting).isTop = false := rfl

/-- Scanning a text that stands at offset `position` leads from one nesting to another,
and something is open before each of its characters. -/
inductive Nesting.Inside : Nesting → Nat → List Char → Nesting → Prop where
  | nil (nesting : Nesting) (position : Nat) : Inside nesting position [] nesting
  | cons {nesting next last : Nesting} {position : Nat} {c : Char} {rest : List Char} :
      nesting.isTop = false → Move position nesting c next →
        Inside next (position + c.utf8Size) rest last → Inside nesting position (c :: rest) last

theorem Nesting.Inside.append {before middle last : Nesting} {position : Nat}
    {front back : List Char} (hfront : Inside before position front middle)
    (hback : Inside middle (position + byteSize front) back last) :
    Inside before position (front ++ back) last := by
  induction hfront with
  | nil => exact hback
  | cons hopen hmove _ ih =>
    refine .cons hopen hmove (ih ?_)
    rwa [Text.byteSize_cons, ← Nat.add_assoc] at hback

theorem Nesting.Inside.key {quote : Quote} {key : List Char} (hkey : quote.char ∉ key)
    (start position : Nat) (brackets : List (Bracket × Nat)) :
    Inside ⟨some (quote, start), brackets⟩ position key ⟨some (quote, start), brackets⟩ := by
  induction key generalizing position with
  | nil => exact .nil _ _
  | cons c rest ih =>
    rw [List.mem_cons, not_or] at hkey
    exact .cons (isTop_of_literal _ _) (.inLiteral (fun h => hkey.1 h.symm)) (ih hkey.2 _)

/-- A scan inside brackets passes over a balanced text, with the same brackets open
before and after it. -/
theorem Balanced.inside {text : List Char} (h : Balanced text) {brackets : List (Bracket × Nat)}
    (hbrackets : brackets ≠ []) (position : Nat) :
    Nesting.Inside ⟨none, brackets⟩ position text ⟨none, brackets⟩ := by
  induction h generalizing brackets position with
  | nil => exact .nil _ _
  | plain hc _ ih =>
    exact .cons (Nesting.isTop_of_brackets hbrackets) (.plain hc) (ih hbrackets _)
  | literal quote hkey _ ih =>
    refine .cons (Nesting.isTop_of_brackets hbrackets) (.openLiteral quote) ?_
    refine (Nesting.Inside.key hkey _ _ _).append ?_
    exact .cons (Nesting.isTop_of_literal _ _) (.closeLiteral quote) (ih hbrackets _)
  | bracketed bracket _ _ ihinner ihrest =>
    refine .cons (Nesting.isTop_of_brackets hbrackets) (.openBracket bracket) ?_
    refine (ihinner (List.cons_ne_nil _ _) _).append ?_
    exact .cons (Nesting.isTop_of_brackets (List.cons_ne_nil _ _)) (.closeBracket bracket)
      (ihrest hbrackets _)

theorem Nesting.inner?_append {before after : Nesting} {position : Nat} {front : List Char}
    (hinside : Inside before position front after) (hopen : after.isTop = false)
    (back : List Char) :
    before.inner? position (front ++ back) =
      (after.inner? (position + byteSize front) back).map (front ++ ·) := by
  induction hinside with
  | nil nesting position => simp
  | @cons nesting next last position c rest _ hmove htail ih =>
    have hnext : next.isTop = false := by
      cases htail with
      | nil => exact hopen
      | cons h _ _ => exact h
    have hstep := step_eq_ok_iff.2 hmove
    rw [List.cons_append, inner?, hstep]
    simp only [hnext, Bool.false_eq_true, if_false]
    rw [ih hopen, Text.byteSize_cons, Nat.add_assoc, Option.map_map]
    rfl

/-- A balanced text in parentheses is recognised as wrapped. -/
theorem group?_of_balanced {inner : List Char} (h : Balanced inner) :
    group? ('(' :: inner ++ [')']) = some inner := by
  have hinside := h.inside (List.cons_ne_nil (Bracket.round, 0) []) 1
  rw [List.cons_append, group?, Nesting.inner?_append hinside rfl]
  simp [Nesting.inner?, Nesting.step, Mark.ofChar, Nesting.close, Nesting.isTop]

/-- The bracket that was opened first stays at the bottom while anything is open. -/
theorem Nesting.Move.bottom {nesting next : Nesting} {position : Nat} {c : Char}
    {bottom : Bracket × Nat} (h : Move position nesting c next)
    (hbottom : nesting.brackets.getLast? = some bottom) :
    next.brackets.getLast? = some bottom ∨ next = .top ∧ c = bottom.1.closing := by
  cases h with
  | inLiteral _ => exact Or.inl hbottom
  | closeLiteral _ => exact Or.inl hbottom
  | plain _ => exact Or.inl hbottom
  | openLiteral _ => exact Or.inl hbottom
  | openBracket bracket =>
    left
    simp only [] at hbottom ⊢
    rw [List.getLast?_cons, hbottom]
    rfl
  | @closeBracket bracket start outer =>
    simp only [] at hbottom ⊢
    cases outer with
    | nil =>
      right
      cases hbottom
      exact ⟨rfl, rfl⟩
    | cons opened rest =>
      left
      rwa [List.getLast?_cons_cons] at hbottom

theorem Nesting.inside_of_inner? {nesting : Nesting} {position : Nat} {text inner : List Char}
    {bottom : Bracket × Nat} (hopen : nesting.isTop = false)
    (hbottom : nesting.brackets.getLast? = some bottom)
    (h : nesting.inner? position text = some inner) :
    ∃ next, text = inner ++ [bottom.1.closing] ∧ Inside nesting position inner next ∧
      next.isTop = false ∧ Move (position + byteSize inner) next bottom.1.closing .top := by
  induction text generalizing nesting position inner with
  | nil => simp [inner?] at h
  | cons c rest ih =>
    rw [inner?] at h
    split at h
    · cases h
    · next next hstep =>
      have hmove := step_eq_ok_iff.1 hstep
      split at h
      · next htop =>
        have hnext := isTop_iff.1 htop
        subst hnext
        split at h
        · next hempty =>
          cases h
          have hrest : rest = [] := by simpa using hempty
          rcases hmove.bottom hbottom with hsame | ⟨-, hc⟩
          · simp [top] at hsame
          · subst hc hrest
            exact ⟨nesting, rfl, .nil _ _, hopen, hmove⟩
        · cases h
      · next htop =>
        have hnext : next.isTop = false := by simpa using htop
        obtain ⟨tail, htail, rfl⟩ := Option.map_eq_some_iff.1 h
        rcases hmove.bottom hbottom with hsame | ⟨heq, -⟩
        · obtain ⟨last, htext, hinside, hlast, hclose⟩ := ih hnext hsame htail
          refine ⟨last, by rw [htext]; rfl, .cons hopen hmove hinside, hlast, ?_⟩
          rwa [Text.byteSize_cons, ← Nat.add_assoc]
        · rw [heq] at htop
          exact absurd rfl htop

/-- What is taken for wrapped is the inner text between parentheses, and something is
open at each of its characters. -/
theorem inside_of_group? {text inner : List Char} (h : group? text = some inner) :
    ∃ next, text = '(' :: inner ++ [')'] ∧
      Nesting.Inside ⟨none, [(.round, 0)]⟩ 1 inner next ∧ next.isTop = false ∧
        Nesting.Move (1 + byteSize inner) next ')' .top := by
  unfold group? at h
  split at h
  · obtain ⟨next, htext, hinside, hopen, hclose⟩ :=
      Nesting.inside_of_inner? rfl rfl h
    exact ⟨next, by rw [htext]; rfl, hinside, hopen, hclose⟩
  · cases h

theorem eq_of_group? {text inner : List Char} (h : group? text = some inner) :
    text = '(' :: inner ++ [')'] := by
  obtain ⟨_, htext, _⟩ := inside_of_group? h
  exact htext

end TagRules
