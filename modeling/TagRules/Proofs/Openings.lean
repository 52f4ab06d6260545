import TagRules.Proofs.Scanning

/-!
What is open in the middle of a text. The front of a text is a sequence of balanced texts and
of brackets that are not closed yet, and at most a last literal is open behind them. A scan
keeps the offsets at which all this was opened, so the fault that ends it says how the whole
text before it is made up, and not only where the scan stopped.
-/

namespace TagRules

open Text (byteSize)
open Outcomes (bind_eq_ok_iff bind_eq_error_iff)

/-- A sequence of balanced texts and of brackets that are not closed. -/
inductive Pending : List Char → Prop where
  | balanced {text : List Char} : Balanced text → Pending text
  | opened {before inner : List Char} (bracket : Bracket) :
      Pending before → Balanced inner → Pending (before ++ bracket.opening :: inner)

/-- The text ends within a literal. -/
def EndsInLiteral (text : List Char) : Prop :=
  ∃ before quote key, text = before ++ Quote.char quote :: key ∧ Pending before ∧ quote.char ∉ key

/-- Some text may follow so that the whole is balanced. -/
def Completable (text : List Char) : Prop :=
  ∃ continuation, Balanced (text ++ continuation)

/-- What a fault says about the text in which it is met: how the text is made up around its
offsets, and that nothing was wrong before. -/
def ScanError.Describes (text : List Char) : ScanError → Prop
  | .unexpectedCloser bracket position =>
    ∃ front back, text = front ++ bracket.closing :: back ∧ byteSize front = position ∧
      Balanced front ∧ Completable front
  | .mismatched opened start found position =>
    opened ≠ found ∧ ∃ front inner back,
      text = front ++ opened.opening :: inner ++ found.closing :: back ∧
      byteSize front = start ∧ byteSize (front ++ opened.opening :: inner) = position ∧
      Balanced inner ∧ Pending front ∧ ¬EndsInLiteral front ∧
      Completable (front ++ opened.opening :: inner)
  | .unterminatedQuote start =>
    ∃ quote front back, text = front ++ Quote.char quote :: back ∧ byteSize front = start ∧
      quote.char ∉ back ∧ Pending front ∧ ¬EndsInLiteral front
  | .unclosed bracket start =>
    ∃ front back, text = front ++ bracket.opening :: back ∧ byteSize front = start ∧
      Balanced back ∧ Pending front ∧ ¬EndsInLiteral front

theorem Balanced.completable {text : List Char} (h : Balanced text) : Completable text := by
  refine ⟨[], ?_⟩
  rwa [List.append_nil]

/-- Brackets that are not closed can be closed, and any balanced text may stand before the
brackets that do so. -/
theorem Pending.exists_closers {text : List Char} (h : Pending text) :
    ∃ closers, ∀ inner, Balanced inner → Balanced (text ++ inner ++ closers) := by
  induction h with
  | balanced htext =>
    refine ⟨[], fun inner hinner => ?_⟩
    rw [List.append_nil]
    exact htext.append hinner
  | @opened before behind bracket _ hbehind ih =>
    obtain ⟨closers, hclosers⟩ := ih
    refine ⟨bracket.closing :: closers, fun inner hinner => ?_⟩
    have hwhole := hclosers _ ((hbehind.append hinner).enclosed bracket)
    simpa using hwhole

theorem Pending.completable {text : List Char} (h : Pending text) : Completable text := by
  obtain ⟨closers, hclosers⟩ := h.exists_closers
  refine ⟨closers, ?_⟩
  simpa using hclosers [] .nil

namespace Nesting

/-- A scan over such a sequence leaves brackets open, and no literal. -/
theorem exists_scan_of_pending {text : List Char} (h : Pending text) (position : Nat) :
    ∃ brackets, top.scan position text = .ok ⟨none, brackets⟩ := by
  induction h with
  | balanced htext => exact ⟨[], scan_balanced htext [] position⟩
  | @opened before inner bracket _ hinner ih =>
    obtain ⟨brackets, hbrackets⟩ := ih
    refine ⟨(bracket, position + byteSize before) :: brackets, ?_⟩
    rw [scan_append hbrackets, scan_cons (.openBracket bracket)]
    exact scan_balanced hinner _ _

theorem exists_scan_of_endsInLiteral {text : List Char} (h : EndsInLiteral text) (position : Nat) :
    ∃ opened brackets, top.scan position text = .ok ⟨some opened, brackets⟩ := by
  obtain ⟨before, quote, key, rfl, hbefore, hkey⟩ := h
  obtain ⟨brackets, hbrackets⟩ := exists_scan_of_pending hbefore position
  refine ⟨(quote, position + byteSize before), brackets, ?_⟩
  rw [scan_append hbrackets, scan_cons (.openLiteral quote)]
  exact scan_key hkey _ _ _

end Nesting

/-- The end of such a sequence lies outside every literal. -/
theorem Pending.not_endsInLiteral {text : List Char} (h : Pending text) : ¬EndsInLiteral text := by
  intro hends
  obtain ⟨brackets, hopen⟩ := Nesting.exists_scan_of_pending h 0
  obtain ⟨opened, others, hliteral⟩ := Nesting.exists_scan_of_endsInLiteral hends 0
  rw [hopen] at hliteral
  cases hliteral

namespace Nesting

/-- The brackets that the text leaves open, the innermost first, each where its offset says. -/
def OpensBrackets : List (Bracket × Nat) → List Char → Prop
  | [], text => Balanced text
  | (bracket, start) :: outer, text =>
    ∃ before inner, text = before ++ bracket.opening :: inner ∧ byteSize before = start ∧
      OpensBrackets outer before ∧ Balanced inner

/-- What the text leaves open, each where its offset says. -/
def Opens (nesting : Nesting) (text : List Char) : Prop :=
  match nesting.literal with
  | none => OpensBrackets nesting.brackets text
  | some (quote, start) =>
    ∃ before key, text = before ++ quote.char :: key ∧ byteSize before = start ∧
      quote.char ∉ key ∧ OpensBrackets nesting.brackets before

theorem OpensBrackets.append {brackets : List (Bracket × Nat)} {front back : List Char}
    (h : OpensBrackets brackets front) (hback : Balanced back) :
    OpensBrackets brackets (front ++ back) := by
  cases brackets with
  | nil => exact Balanced.append h hback
  | cons opened outer =>
    obtain ⟨before, inner, rfl, hstart, houter, hinner⟩ := h
    exact ⟨before, inner ++ back, by simp, hstart, houter, hinner.append hback⟩

theorem OpensBrackets.pending {brackets : List (Bracket × Nat)} {text : List Char}
    (h : OpensBrackets brackets text) : Pending text := by
  induction brackets generalizing text with
  | nil => exact .balanced h
  | cons opened outer ih =>
    obtain ⟨before, inner, rfl, -, houter, hinner⟩ := h
    exact .opened opened.1 (ih houter) hinner

/-- One step forward along a scan. -/
theorem Opens.snoc {nesting next : Nesting} {front : List Char} {c : Char}
    (hmove : Move (byteSize front) nesting c next) (h : nesting.Opens front) :
    next.Opens (front ++ [c]) := by
  cases hmove with
  | @inLiteral quote start brackets c hc =>
    obtain ⟨before, key, rfl, hstart, hkey, hbefore⟩ := h
    refine ⟨before, key ++ [c], by simp, hstart, ?_, hbefore⟩
    rw [List.mem_append, List.mem_singleton, not_or]
    exact ⟨hkey, fun heq => hc heq.symm⟩
  | closeLiteral quote =>
    obtain ⟨before, key, rfl, -, hkey, hbefore⟩ := h
    have hliteral : Balanced (quote.char :: key ++ [quote.char]) := .literal quote hkey .nil
    have hwhole := OpensBrackets.append hbefore hliteral
    simpa [Opens] using hwhole
  | plain hc => exact OpensBrackets.append h (.plain hc .nil)
  | openLiteral quote => exact ⟨front, [], rfl, rfl, List.not_mem_nil, h⟩
  | openBracket bracket => exact ⟨front, [], rfl, rfl, h, .nil⟩
  | closeBracket bracket =>
    obtain ⟨before, inner, rfl, -, houter, hinner⟩ := h
    have hwhole := OpensBrackets.append houter (hinner.enclosed bracket)
    simpa [Opens] using hwhole

theorem Opens.scan {nesting next : Nesting} {front rest : List Char} (h : nesting.Opens front)
    (hscan : nesting.scan (byteSize front) rest = .ok next) : next.Opens (front ++ rest) := by
  induction rest generalizing nesting front with
  | nil =>
    cases hscan
    rwa [List.append_nil]
  | cons c rest ih =>
    obtain ⟨after, hstep, hrest⟩ := bind_eq_ok_iff.1 hscan
    have hsnoc := h.snoc (step_eq_ok_iff.1 hstep)
    have hsize : byteSize (front ++ [c]) = byteSize front + c.utf8Size := by simp
    rw [← hsize] at hrest
    have hwhole := ih hsnoc hrest
    rwa [List.append_assoc] at hwhole

theorem opens_of_scan {nesting : Nesting} {text : List Char} (h : top.scan 0 text = .ok nesting) :
    nesting.Opens text := by
  have htop : top.Opens [] := Balanced.nil
  exact htop.scan h

/-- The closing brackets that a scan does not pass over, and what it says of them. -/
inductive Refuses (position : Nat) : Nesting → Char → ScanError → Prop where
  | unexpected (found : Bracket) :
      Refuses position ⟨none, []⟩ found.closing (.unexpectedCloser found position)
  | mismatched {opened found : Bracket} {start : Nat} {outer : List (Bracket × Nat)} :
      opened ≠ found → Refuses position ⟨none, (opened, start) :: outer⟩ found.closing
        (.mismatched opened start found position)

theorem step_eq_error_iff {nesting : Nesting} {c : Char} {position : Nat} {error : ScanError} :
    nesting.step c position = .error error ↔ Refuses position nesting c error := by
  constructor
  · intro h
    obtain ⟨literal, brackets⟩ := nesting
    cases literal with
    | some opened => cases h
    | none =>
      simp only [step] at h
      split at h
      · cases h
      · cases h
      · cases h
      · next found hmark =>
        rw [Mark.eq_of_ofChar_closing hmark]
        unfold close at h
        split at h
        · cases h
          exact .unexpected found
        · split at h
          · cases h
          · next hopened =>
            cases h
            exact .mismatched hopened
  · intro h
    cases h with
    | unexpected found => simp [step, close]
    | mismatched hopened => simp [step, close, hopened]

/-- A scan fails at the first character that it does not pass over. -/
theorem scan_eq_error_iff {nesting : Nesting} {position : Nat} {text : List Char}
    {error : ScanError} :
    nesting.scan position text = .error error ↔
      ∃ front c back next, text = front ++ c :: back ∧ nesting.scan position front = .ok next ∧
        Refuses (position + byteSize front) next c error := by
  constructor
  · intro h
    induction text generalizing nesting position with
    | nil => cases h
    | cons c rest ih =>
      rcases bind_eq_error_iff.1 h with hstep | ⟨next, hstep, hrest⟩
      · exact ⟨[], c, rest, nesting, rfl, rfl, step_eq_error_iff.1 hstep⟩
      · obtain ⟨front, d, back, last, rfl, hfront, hrefuses⟩ := ih hrest
        refine ⟨c :: front, d, back, last, rfl, ?_, ?_⟩
        · rw [scan_cons (step_eq_ok_iff.1 hstep)]
          exact hfront
        · rwa [Text.byteSize_cons, ← Nat.add_assoc]
  · rintro ⟨front, c, back, next, rfl, hfront, hrefuses⟩
    rw [scan_append hfront, scan, step_eq_error_iff.2 hrefuses]
    rfl

end Nesting

theorem tokenize_eq_error_iff_scan {text : List Char} {error : ScanError} :
    tokenize text = .error error ↔
      Nesting.top.scan 0 text = .error error ∨
        ∃ nesting, Nesting.top.scan 0 text = .ok nesting ∧ nesting.finish = .error error := by
  rw [tokenize_eq_error_iff, Pieces.ofText_eq_error_iff, bind_eq_error_iff]

namespace ScanError

variable {text : List Char} {error : ScanError}

theorem describes_of_refuses {front back : List Char} {c : Char} {nesting : Nesting}
    (hopens : nesting.Opens front) (h : nesting.Refuses (byteSize front) c error) :
    error.Describes (front ++ c :: back) := by
  cases h with
  | unexpected found =>
    have hbalanced : Balanced front := hopens
    exact ⟨front, back, rfl, rfl, hbalanced, hbalanced.completable⟩
  | mismatched hopened =>
    obtain ⟨before, inner, rfl, rfl, houter, hinner⟩ := hopens
    have hbefore := houter.pending
    exact ⟨hopened, before, inner, back, rfl, rfl, rfl, hinner, hbefore, hbefore.not_endsInLiteral,
      (hbefore.opened _ hinner).completable⟩

theorem describes_of_finish {nesting : Nesting} (hopens : nesting.Opens text)
    (h : nesting.finish = .error error) : error.Describes text := by
  obtain ⟨literal, brackets⟩ := nesting
  cases literal with
  | some opened =>
    cases h
    obtain ⟨before, key, rfl, hstart, hkey, hbefore⟩ := hopens
    exact ⟨opened.1, before, key, rfl, hstart, hkey, hbefore.pending,
      hbefore.pending.not_endsInLiteral⟩
  | none =>
    cases brackets with
    | nil => cases h
    | cons opened outer =>
      cases h
      obtain ⟨before, inner, rfl, hstart, houter, hinner⟩ := hopens
      exact ⟨before, inner, rfl, hstart, hinner, houter.pending, houter.pending.not_endsInLiteral⟩

theorem describes_of_tokenize (h : tokenize text = .error error) : error.Describes text := by
  rcases tokenize_eq_error_iff_scan.1 h with hscan | ⟨nesting, hscan, hfinish⟩
  · obtain ⟨front, c, back, next, rfl, hfront, hrefuses⟩ := Nesting.scan_eq_error_iff.1 hscan
    rw [Nat.zero_add] at hrefuses
    exact describes_of_refuses (Nesting.opens_of_scan hfront) hrefuses
  · exact describes_of_finish (Nesting.opens_of_scan hscan) hfinish

/-- Conversely a text that is made up in this way is scanned up to the fault and no further. -/
theorem Describes.tokenize (h : error.Describes text) : tokenize text = .error error := by
  rw [tokenize_eq_error_iff_scan]
  cases error with
  | unexpectedCloser bracket position =>
    obtain ⟨front, back, rfl, rfl, hfront, -⟩ := h
    left
    rw [Nesting.scan_eq_error_iff]
    refine ⟨front, _, back, .top, rfl, Nesting.scan_balanced hfront [] 0, ?_⟩
    rw [Nat.zero_add]
    exact .unexpected bracket
  | mismatched opened start found position =>
    obtain ⟨hopened, front, inner, back, rfl, rfl, rfl, hinner, hfront, -, -⟩ := h
    obtain ⟨brackets, hbrackets⟩ := Nesting.exists_scan_of_pending hfront 0
    left
    rw [Nesting.scan_eq_error_iff]
    refine ⟨front ++ opened.opening :: inner, _, back,
      ⟨none, (opened, byteSize front) :: brackets⟩, rfl, ?_, ?_⟩
    · rw [Nesting.scan_append hbrackets, Nesting.scan_cons (.openBracket opened), Nat.zero_add]
      exact Nesting.scan_balanced hinner _ _
    · rw [Nat.zero_add]
      exact .mismatched hopened
  | unterminatedQuote start =>
    obtain ⟨quote, front, back, rfl, rfl, hback, hfront, -⟩ := h
    obtain ⟨brackets, hbrackets⟩ := Nesting.exists_scan_of_pending hfront 0
    right
    refine ⟨⟨some (quote, byteSize front), brackets⟩, ?_, rfl⟩
    rw [Nesting.scan_append hbrackets, Nesting.scan_cons (.openLiteral quote), Nat.zero_add]
    exact Nesting.scan_key hback _ _ _
  | unclosed bracket start =>
    obtain ⟨front, back, rfl, rfl, hback, hfront, -⟩ := h
    obtain ⟨brackets, hbrackets⟩ := Nesting.exists_scan_of_pending hfront 0
    right
    refine ⟨⟨none, (bracket, byteSize front) :: brackets⟩, ?_, rfl⟩
    rw [Nesting.scan_append hbrackets, Nesting.scan_cons (.openBracket bracket), Nat.zero_add]
    exact Nesting.scan_balanced hback _ _

/-- A text is faulted exactly as it is made up. Before a closing bracket with nothing to close
the text is balanced; a mismatched pair has a balanced text between its brackets; a literal
that is not closed runs to the end of the text, and a bracket that is not closed is followed by
a balanced text. What stands in front of all this are balanced texts and open brackets, so that
the fault is outside every literal, and up to the closing bracket that is refused the text
could still have been completed. -/
theorem tokenize_eq_error_iff_describes :
    TagRules.tokenize text = .error error ↔ error.Describes text :=
  ⟨describes_of_tokenize, Describes.tokenize⟩

end ScanError

end TagRules
