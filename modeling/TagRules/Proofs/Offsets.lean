import TagRules.Proofs.Openings
import TagRules.Proofs.Refusals

/-!
The offsets in the complaints of a scan. In the text that is scanned the character at an
offset is the one that the complaint is about. A rule text is scanned without the blanks
around it, so its complaints fall short by the blanks in front.
-/

namespace TagRules

open Text (isAllBlank isBlank byteSize)
open Outcomes (bind_eq_ok_iff bind_eq_error_iff mapError_ok mapError_error)

/-- The character that begins at a byte of a text, if one begins there. -/
def Text.charAt? : List Char → Nat → Option Char
  | [], _ => none
  | c :: rest, offset =>
    if offset = 0 then some c
    else if offset < c.utf8Size then none
    else charAt? rest (offset - c.utf8Size)

theorem Text.charAt?_eq_some_iff {text : List Char} {offset : Nat} {c : Char} :
    charAt? text offset = some c ↔
      ∃ front back, text = front ++ c :: back ∧ byteSize front = offset := by
  induction text generalizing offset with
  | nil => simp [charAt?]
  | cons d rest ih =>
    have hsize := Char.utf8Size_pos d
    constructor
    · intro h
      unfold charAt? at h
      split at h
      · next hzero =>
        cases h
        exact ⟨[], rest, rfl, hzero.symm⟩
      · split at h
        · cases h
        · next hle =>
          obtain ⟨front, back, rfl, hfront⟩ := ih.1 h
          refine ⟨d :: front, back, rfl, ?_⟩
          rw [byteSize_cons]
          omega
    · rintro ⟨front, back, htext, hfront⟩
      unfold charAt?
      cases front with
      | nil =>
        cases htext
        exact if_pos hfront.symm
      | cons e front =>
        cases htext
        rw [byteSize_cons] at hfront
        rw [if_neg (by omega), if_neg (by omega)]
        exact ih.2 ⟨front, back, rfl, by omega⟩

/-- The character at each offset of the complaint is the one that the complaint names. -/
def ScanError.Marks (text : List Char) : ScanError → Prop
  | .unterminatedQuote start => ∃ quote : Quote, Text.charAt? text start = some quote.char
  | .unclosed bracket start => Text.charAt? text start = some bracket.opening
  | .unexpectedCloser bracket position => Text.charAt? text position = some bracket.closing
  | .mismatched opened start found position =>
    Text.charAt? text start = some opened.opening ∧
      Text.charAt? text position = some found.closing

/-- The complaint as it reads where `bytes` more stand in front of the text. -/
def ScanError.shift (bytes : Nat) : ScanError → ScanError
  | .unterminatedQuote start => .unterminatedQuote (start + bytes)
  | .unclosed bracket start => .unclosed bracket (start + bytes)
  | .unexpectedCloser bracket position => .unexpectedCloser bracket (position + bytes)
  | .mismatched opened start found position =>
    .mismatched opened (start + bytes) found (position + bytes)

theorem ScanError.shift_eq_self_iff {bytes : Nat} {error : ScanError} :
    error.shift bytes = error ↔ bytes = 0 := by
  cases error <;> simp [shift]

/-- How the text is made up around the offsets says which characters stand there. -/
theorem ScanError.Describes.marks {text : List Char} {error : ScanError}
    (h : error.Describes text) : error.Marks text := by
  cases error with
  | unexpectedCloser bracket position =>
    obtain ⟨front, back, htext, hposition, -⟩ := h
    exact Text.charAt?_eq_some_iff.2 ⟨front, back, htext, hposition⟩
  | mismatched opened start found position =>
    obtain ⟨-, front, inner, back, htext, hstart, hposition, -⟩ := h
    have hopened : text = front ++ opened.opening :: (inner ++ found.closing :: back) := by
      rw [htext, List.append_assoc, List.cons_append]
    exact ⟨Text.charAt?_eq_some_iff.2 ⟨front, _, hopened, hstart⟩,
      Text.charAt?_eq_some_iff.2 ⟨_, back, htext, hposition⟩⟩
  | unterminatedQuote start =>
    obtain ⟨quote, front, back, htext, hstart, -⟩ := h
    exact ⟨quote, Text.charAt?_eq_some_iff.2 ⟨front, back, htext, hstart⟩⟩
  | unclosed bracket start =>
    obtain ⟨front, back, htext, hstart, -⟩ := h
    exact Text.charAt?_eq_some_iff.2 ⟨front, back, htext, hstart⟩

/-- What a scan complains about stands where it says. -/
theorem ScanError.marks_of_tokenize {text : List Char} {error : ScanError}
    (h : tokenize text = .error error) : error.Marks text :=
  (describes_of_tokenize h).marks

namespace Nesting

/-- What is open, where `bytes` more stand in front of the text. -/
def shift (bytes : Nat) (nesting : Nesting) : Nesting where
  literal := nesting.literal.map (fun opened => (opened.1, opened.2 + bytes))
  brackets := nesting.brackets.map (fun opened => (opened.1, opened.2 + bytes))

theorem step_shift (nesting : Nesting) (c : Char) (position bytes : Nat) :
    (nesting.shift bytes).step c (position + bytes) =
      ((nesting.step c position).map (shift bytes)).mapError (ScanError.shift bytes) := by
  obtain ⟨literal, brackets⟩ := nesting
  cases literal with
  | some opened =>
    by_cases hc : c = opened.1.char
    · simp [step, shift, hc, Except.map, mapError_ok]
    · simp [step, shift, hc, Except.map, mapError_ok]
  | none =>
    cases hmark : Mark.ofChar c with
    | plain => simp [step, shift, hmark, Except.map, mapError_ok]
    | quote quote => simp [step, shift, hmark, Except.map, mapError_ok]
    | opening bracket => simp [step, shift, hmark, Except.map, mapError_ok]
    | closing bracket =>
      cases brackets with
      | nil => simp [step, shift, hmark, close, Except.map, mapError_error, ScanError.shift]
      | cons opened outer =>
        by_cases hopened : opened.1 = bracket
        · simp [step, shift, hmark, close, hopened, Except.map, mapError_ok]
        · simp [step, shift, hmark, close, hopened, Except.map, mapError_error, ScanError.shift]

theorem finish_shift (nesting : Nesting) (bytes : Nat) :
    (nesting.shift bytes).finish = nesting.finish.mapError (ScanError.shift bytes) := by
  obtain ⟨literal, brackets⟩ := nesting
  cases literal with
  | some opened => rfl
  | none => cases brackets <;> rfl

theorem scan_shift (nesting : Nesting) (position bytes : Nat) (text : List Char) :
    (nesting.shift bytes).scan (position + bytes) text =
      ((nesting.scan position text).map (shift bytes)).mapError (ScanError.shift bytes) := by
  induction text generalizing nesting position with
  | nil => rfl
  | cons c rest ih =>
    rw [scan, scan, step_shift]
    cases nesting.step c position with
    | error error => rfl
    | ok next =>
      have hrest := ih next (position + c.utf8Size)
      rw [Nat.add_right_comm] at hrest
      exact hrest

/-- Blanks change nothing that is open. -/
theorem scan_blank {text : List Char} (h : isAllBlank text = true) (nesting : Nesting)
    (position : Nat) : nesting.scan position text = .ok nesting := by
  induction text generalizing position with
  | nil => rfl
  | cons c rest ih =>
    rw [Text.isAllBlank_cons, Bool.and_eq_true] at h
    have hmove : Move position nesting c nesting := by
      obtain ⟨literal, brackets⟩ := nesting
      cases literal with
      | none => exact .plain (inert_of_isBlank h.1).1
      | some opened =>
        refine .inLiteral ?_
        intro hquote
        have hplain := (inert_of_isBlank h.1).1
        rw [hquote, Mark.ofChar_quote] at hplain
        cases hplain
    rw [scan_cons hmove]
    exact ih h.2 _

end Nesting

theorem Nesting.scan_append_error {nesting : Nesting} {position : Nat} {front : List Char}
    {error : ScanError} (h : nesting.scan position front = .error error) (back : List Char) :
    nesting.scan position (front ++ back) = .error error := by
  obtain ⟨before, c, after, next, rfl, hbefore, hrefuses⟩ := scan_eq_error_iff.1 h
  rw [List.append_assoc]
  exact scan_eq_error_iff.2 ⟨before, c, after ++ back, next, rfl, hbefore, hrefuses⟩

/-- Blanks in front put off every offset, and blanks behind have no part in the scan. -/
theorem scan_padded {before after : List Char} (hbefore : isAllBlank before = true)
    (hafter : isAllBlank after = true) (core : List Char) :
    Nesting.top.scan 0 (before ++ core ++ after) >>= Nesting.finish =
      (Nesting.top.scan 0 core >>= Nesting.finish).mapError
        (ScanError.shift (byteSize before)) := by
  have hshift := Nesting.scan_shift .top 0 (byteSize before) core
  change Nesting.top.scan (0 + byteSize before) core = _ at hshift
  rw [List.append_assoc, Nesting.scan_append (Nesting.scan_blank hbefore .top 0)]
  cases hcore : Nesting.top.scan 0 core with
  | error error =>
    rw [hcore] at hshift
    rw [Nesting.scan_append_error hshift]
    rfl
  | ok nesting =>
    rw [hcore] at hshift
    rw [Nesting.scan_append hshift, Nesting.scan_blank hafter]
    exact nesting.finish_shift (byteSize before)

/-- The text with its blanks is faulted as its trimmed core is, with every offset later by
the blanks in front. -/
theorem tokenize_of_trim_error {text : List Char} {error : ScanError}
    (h : tokenize (Text.trim text) = .error error) :
    tokenize text = .error (error.shift (byteSize (text.takeWhile isBlank))) := by
  obtain ⟨before, after, hbefore, hafter, htext, hstart⟩ := (Text.Span.whole text).exists_trim
  have hindent : byteSize (text.takeWhile isBlank) = byteSize before := Nat.add_left_cancel hstart
  have hscan := scan_padded hbefore hafter (Text.trim text)
  rw [hindent]
  change text = before ++ Text.trim text ++ after at htext
  rw [← htext, Pieces.ofText_eq_error_iff.1 (tokenize_eq_error_iff.1 h)] at hscan
  exact tokenize_eq_error_iff.2 (Pieces.ofText_eq_error_iff.2 hscan)

/-- The offsets of a complaint about the structure of a rule text are those of its trimmed
core. Added to the length of the blanks in front they are the offsets in the text as it was
handed in, where each finds the quote or bracket that is meant; by themselves they are so
exactly where no blanks stand in front. -/
theorem Rule.scan_error_offsets {limits : Limits} {source : String} {fault : ScanError}
    (h : parse limits source = .error (.scan fault)) :
    let text := source.toList
    let indent := byteSize (text.takeWhile isBlank)
    tokenize text = .error (fault.shift indent) ∧ (fault.shift indent).Marks text ∧
      (indent = 0 → fault.Marks text) ∧ (tokenize text = .error fault ↔ indent = 0) := by
  intro text indent
  obtain ⟨-, -, hcore⟩ := parse_eq_scan_iff.1 h
  have hwhole : tokenize text = .error (fault.shift indent) := tokenize_of_trim_error hcore
  have hmarks := ScanError.marks_of_tokenize hwhole
  refine ⟨hwhole, hmarks, ?_, ?_⟩
  · intro hindent
    rwa [ScanError.shift_eq_self_iff.2 hindent] at hmarks
  · rw [hwhole, Except.error.injEq, ScanError.shift_eq_self_iff]

/-- The quote that is not met again stands at byte 12, behind two blanks, and is reported at
byte 10, where no quote stands. -/
theorem Rule.scan_error_offsets_of_indented_text :
    let source := "  scope.has(\"a"
    parse .unbounded source = .error (.scan (.unterminatedQuote 10)) ∧
      tokenize source.toList = .error (.unterminatedQuote 12) ∧
      Text.charAt? source.toList 12 = some '"' ∧
      ¬(ScanError.unterminatedQuote 10).Marks source.toList := by
  intro source
  have hparse : parse .unbounded source = .error (.scan (.unterminatedQuote 10)) := by
    decide +kernel
  obtain ⟨htokenize, -, -, -⟩ := scan_error_offsets hparse
  have hindent : byteSize (source.toList.takeWhile isBlank) = 2 := by decide +kernel
  rw [hindent] at htokenize
  refine ⟨hparse, htokenize, by decide +kernel, ?_⟩
  rintro ⟨quote, hquote⟩
  revert hquote
  cases quote <;> decide +kernel

end TagRules
