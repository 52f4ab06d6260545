import TagRules.Proofs.Scanning
import TagRules.Proofs.Spelling

/-!
Membership tests as calls. A test is a call of one of three methods, with an argument of the
form that the method takes. A text that is no test is refused by what it calls: where none of
the methods is called, the text is unknown, and where one is, its argument is at fault.
-/

namespace TagRules

open Text (isAllBlank)

namespace Atom

/-- The methods that test membership. -/
def methods : List String :=
  ["has", "hasAny", "hasAll"]

/-- The text is a call of the method on the receiver, with `args` between its parentheses. -/
def Calls (method : String) (args text : List Char) : Prop :=
  text = "scope.".toList ++ method.toList ++ '(' :: args ++ [')']

/-- The argument that a method takes, and the test that it makes of it. -/
inductive Argument : String → List Char → Atom → Prop where
  | has {text : List Char} {key : String} :
      LiteralText text key → Argument "has" text (.has key)
  | hasAny {text : List Char} {keys : List String} :
      ArrayText text keys → Argument "hasAny" text (.hasAny keys)
  | hasAll {text : List Char} {keys : List String} :
      ArrayText text keys → Argument "hasAll" text (.hasAll keys)

/-- A call that makes a test. Blanks may stand around the argument, and nowhere else outside
of it. -/
def Written (text : List Char) (test : Atom) : Prop :=
  ∃ method before argument after, isAllBlank before = true ∧ isAllBlank after = true ∧
    Argument method argument test ∧ Calls method (before ++ argument ++ after) text

/-- What is said of a text that makes no test, by the method that it calls. -/
inductive Refuses (span : Text.Span) : GrammarError → Prop where
  | unknownAtom : (∀ method ∈ methods, ∀ args, ¬Calls method args span.text) →
      Refuses span (.unknownAtom span.text span.start)
  | expectedString {args : List Char} : Calls "has" args span.text →
      Refuses span (.expectedString span.text span.start)
  | expectedArray {method : String} {args : List Char} : method = "hasAny" ∨ method = "hasAll" →
      Calls method args span.text → Refuses span (.expectedArray span.text span.start)

theorem Argument.trimmed {method : String} {text : List Char} {test : Atom}
    (h : Argument method text test) : Text.Trimmed text := by
  cases h with
  | has hkey => exact hkey.trimmed
  | hasAny hkeys => exact hkeys.trimmed
  | hasAll hkeys => exact hkeys.trimmed

theorem spelling_iff_calls {text : List Char} {test : Atom} :
    Spelling text test ↔
      ∃ method args, Argument method (Text.trim args) test ∧ Calls method args text := by
  constructor
  · intro h
    cases h with
    | @has args key hkey => exact ⟨"has", args, .has hkey, rfl⟩
    | @hasAny args keys hkeys => exact ⟨"hasAny", args, .hasAny hkeys, rfl⟩
    | @hasAll args keys hkeys => exact ⟨"hasAll", args, .hasAll hkeys, rfl⟩
  · rintro ⟨method, args, hargument, rfl⟩
    generalize hcore : Text.trim args = core at hargument
    cases hargument with
    | has hkey => exact .has (hcore ▸ hkey)
    | hasAny hkeys => exact .hasAny (hcore ▸ hkeys)
    | hasAll hkeys => exact .hasAll (hcore ▸ hkeys)

theorem spelling_iff_written {text : List Char} {test : Atom} :
    Spelling text test ↔ Written text test := by
  rw [spelling_iff_calls]
  constructor
  · rintro ⟨method, args, hargument, hcall⟩
    obtain ⟨before, after, hbefore, hafter, hargs⟩ := Text.exists_trim args
    rw [hargs] at hcall
    exact ⟨method, before, Text.trim args, after, hbefore, hafter, hargument, hcall⟩
  · rintro ⟨method, before, argument, after, hbefore, hafter, hargument, hcall⟩
    refine ⟨method, before ++ argument ++ after, ?_, hcall⟩
    rwa [Text.trim_padded_of_trimmed hbefore hafter hargument.trimmed]

variable {method other : String} {args : List Char} {span : Text.Span}
  {fault fault' : GrammarError}

/-- No method has a parenthesis in its name, so a text calls one method at most. -/
theorem call?_eq_some_iff_calls {text : List Char} (hmethod : method ∈ methods) :
    call? text = some (method, args) ↔ Calls method args text := by
  have hname : ∀ method ∈ methods, '(' ∉ method.toList := by decide
  rw [call?_eq_some_iff, Calls]
  exact and_iff_right (hname method hmethod)

theorem Calls.unique {text others : List Char} (hmethod : method ∈ methods)
    (hother : other ∈ methods) (h : Calls method args text) (h' : Calls other others text) :
    method = other := by
  rw [← call?_eq_some_iff_calls hmethod] at h
  rw [← call?_eq_some_iff_calls hother, h] at h'
  exact congrArg Prod.fst (Option.some.inj h')

theorem Refuses.unique (h : Refuses span fault) (h' : Refuses span fault') : fault = fault' := by
  have hmethod : ∀ {method}, method = "hasAny" ∨ method = "hasAll" →
      method ∈ methods ∧ method ≠ "has" := by
    rintro method (rfl | rfl) <;> decide
  cases h with
  | unknownAtom hnone =>
    cases h' with
    | unknownAtom _ => rfl
    | expectedString hcall => exact absurd hcall (hnone "has" (by decide) _)
    | expectedArray harray hcall => exact absurd hcall (hnone _ (hmethod harray).1 _)
  | expectedString hcall =>
    cases h' with
    | unknownAtom hnone => exact absurd hcall (hnone "has" (by decide) _)
    | expectedString _ => rfl
    | expectedArray harray hcall' =>
      exact absurd (hcall'.unique (hmethod harray).1 (by decide) hcall) (hmethod harray).2
  | expectedArray harray hcall =>
    cases h' with
    | unknownAtom hnone => exact absurd hcall (hnone _ (hmethod harray).1 _)
    | expectedString hcall' =>
      exact absurd (hcall.unique (hmethod harray).1 (by decide) hcall') (hmethod harray).2
    | expectedArray _ _ => rfl

theorem refuses_of_ofTrimmed (h : ofTrimmed span = .error fault) : Refuses span fault := by
  unfold ofTrimmed at h
  split at h
  · next args hcall =>
    split at h <;> cases h
    exact .expectedString ((call?_eq_some_iff_calls (by decide)).1 hcall)
  · next args hcall =>
    split at h <;> cases h
    exact .expectedArray (.inl rfl) ((call?_eq_some_iff_calls (by decide)).1 hcall)
  · next args hcall =>
    split at h <;> cases h
    exact .expectedArray (.inr rfl) ((call?_eq_some_iff_calls (by decide)).1 hcall)
  · next hhas hany hall =>
    cases h
    refine .unknownAtom fun method hmethod args hcall => ?_
    rw [← call?_eq_some_iff_calls hmethod] at hcall
    simp only [methods, List.mem_cons, List.not_mem_nil, or_false] at hmethod
    rcases hmethod with rfl | rfl | rfl
    · exact hhas args hcall
    · exact hany args hcall
    · exact hall args hcall

theorem ofTrimmed_eq_error_iff : ofTrimmed span = .error fault ↔
    (∀ test, ¬Spelling span.text test) ∧ Refuses span fault := by
  constructor
  · intro h
    refine ⟨fun test hspell => ?_, refuses_of_ofTrimmed h⟩
    rw [ofTrimmed_eq_ok_iff.2 hspell] at h
    cases h
  · rintro ⟨hnone, hrefuses⟩
    cases hread : ofTrimmed span with
    | ok test => exact absurd (ofTrimmed_eq_ok_iff.1 hread) (hnone test)
    | error found => rw [(refuses_of_ofTrimmed hread).unique hrefuses]

/-- A text that spells a test is a single token: no operator of it stands outside all
brackets. -/
theorem tokenize_of_parse {text : List Char} {test : Atom} (h : parse text = .ok test) :
    tokenize text = .ok [.operand (Text.Span.whole text).trim] := by
  have hblank : isAllBlank text = false := by
    rw [← Text.isAllBlank_of_trim_eq (Text.trim_trim text)]
    exact (parse_eq_ok_iff.1 h).not_isAllBlank
  exact tokenize_of_cut_last (cut_of_parse h) hblank

/-- A text is read as a test exactly where its trimmed core is written as a call with an
argument of the method's form. Any other text is refused, in one way only: by the method that
its core calls, and as unknown where it calls none. What is read is a single token. -/
theorem parse_written_or_refused (text : List Char) :
    let span := (Text.Span.whole text).trim
    (∀ test, parse text = .ok test ↔ Written span.text test) ∧
    (∀ fault, parse text = .error fault ↔
      (∀ test, ¬Written span.text test) ∧ Refuses span fault) ∧
    ∀ test, parse text = .ok test → tokenize text = .ok [.operand span] := by
  intro span
  refine ⟨fun test => ?_, fun fault => ?_, fun test => tokenize_of_parse⟩
  · exact parse_eq_ok_iff.trans spelling_iff_written
  · have hwritten : (∀ test, ¬Spelling span.text test) ↔ ∀ test, ¬Written span.text test :=
      forall_congr' fun _ => not_congr spelling_iff_written
    rw [← hwritten]
    exact ofTrimmed_eq_error_iff

/-- A literal may hold brackets, commas and the other quote. Two literals are no argument of
`has`, and neither is one with a blank before the parenthesis a call. -/
theorem parse_written_or_refused_of_odd_calls :
    let call := " scope.hasAny( ['],\"' ,\"\",'],\"'] )".toList
    let test : Atom := .hasAny ["],\"", "", "],\""]
    let pair := "scope.has('a','a')".toList
    let apart := "scope.has ('a')".toList
    parse call = .ok test ∧ Written (Text.trim call) test ∧
      tokenize call = .ok [.operand (Text.Span.whole call).trim] ∧
      parse pair = .error (.expectedString pair 0) ∧ (∀ test, ¬Written pair test) ∧
      parse apart = .error (.unknownAtom apart 0) ∧ ∀ method ∈ methods, ∀ args,
        ¬Calls method args apart := by
  intro call test pair apart
  have hcall : parse call = .ok test := Outcomes.eq_ok_of_toOption (by decide +kernel)
  have hpair : parse pair = .error (.expectedString pair 0) := by decide +kernel
  have hapart : parse apart = .error (.unknownAtom apart 0) := by decide +kernel
  obtain ⟨hread, -, htoken⟩ := parse_written_or_refused call
  have hnone := ((parse_written_or_refused pair).2.1 _).1 hpair
  have hunknown := ((parse_written_or_refused apart).2.1 _).1 hapart
  refine ⟨hcall, (hread test).1 hcall, htoken test hcall, hpair, hnone.1, hapart, ?_⟩
  cases hunknown.2 with
  | unknownAtom hcalls => exact hcalls

end Atom

end TagRules
