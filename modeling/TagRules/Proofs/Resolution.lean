import Mathlib.Data.List.Induction
import Mathlib.Data.Nat.Digits.Defs
import TagRules.CommandLine.Command
import TagRules.Proofs.Outcomes

/-!
Where the settings of a run come from. The variables of the environment are checked in a fixed
order, and the first that is invalid is reported, whatever the command line gives. Otherwise each
setting is the one that is given, or else that of its variable, or else the standard one, and a
limit is never zero.
-/

namespace TagRules

open Outcomes (bind_eq_ok_iff bind_eq_error_iff exists_eq_ok_iff map_eq_ok_iff map_eq_error_iff)

/-- What decimal digits come to, the last one counting for ones. -/
def decimal (digits : List Char) : Nat :=
  Nat.ofDigits 10 (digits.reverse.map (fun c => c.toNat - '0'.toNat))

theorem decimal_concat (front : List Char) (c : Char) :
    decimal (front ++ [c]) = 10 * decimal front + (c.toNat - '0'.toNat) := by
  rw [decimal, List.reverse_append, List.reverse_singleton, List.singleton_append, List.map_cons,
    Nat.ofDigits_cons, Nat.add_comm]
  rfl

theorem foldl_eq_decimal (digits : List Char) :
    digits.foldl (fun value c => 10 * value + (c.toNat - '0'.toNat)) 0 = decimal digits := by
  induction digits using List.reverseRecOn with
  | nil => rfl
  | append_singleton front c ih => rw [List.foldl_append, ih, decimal_concat]; rfl

/-- The text is a whole number: ASCII digits, with a plus sign in front or none. -/
def WholeNumber (text : List Char) (value : Nat) : Prop :=
  ∃ digits, (text = digits ∨ text = '+' :: digits) ∧ digits ≠ [] ∧
    (∀ c ∈ digits, c.isDigit = true) ∧ decimal digits = value

/-- The value of a variable asks for the limit. -/
def AsksLimit (value : String) (limit : Nat) : Prop :=
  WholeNumber (Text.trim value.toList) limit ∧ 0 < limit ∧ limit < 2 ^ 64

/-- The names of a level. -/
def Log.Level.names : Log.Level → List String
  | .warn => ["warn", "warning"]
  | level => [level.name]

/-- The value of a variable asks for the level. -/
def AsksLevel (value : String) (level : Log.Level) : Prop :=
  Text.folded value ∈ level.names

/-- The text without a plus sign in front. -/
def unsigned : List Char → List Char
  | '+' :: rest => rest
  | text => text

theorem eq_unsigned_or_plus (text : List Char) :
    text = unsigned text ∨ text = '+' :: unsigned text := by
  unfold unsigned
  split
  · exact Or.inr rfl
  · exact Or.inl rfl

theorem unsigned_of_plain {text : List Char} (h : ∀ rest, text ≠ '+' :: rest) :
    unsigned text = text := by
  unfold unsigned
  split
  · next rest => exact absurd rfl (h rest)
  · rfl

theorem unsigned_of_digits {digits : List Char} (h : ∀ c ∈ digits, c.isDigit = true) :
    unsigned digits = digits := by
  apply unsigned_of_plain
  rintro rest rfl
  exact absurd (h '+' List.mem_cons_self) (by decide)

theorem wholeNumber_iff {text : List Char} {value : Nat} :
    WholeNumber text value ↔ unsigned text ≠ [] ∧ (∀ c ∈ unsigned text, c.isDigit = true) ∧
      decimal (unsigned text) = value := by
  constructor
  · rintro ⟨digits, rfl | rfl, hne, hdigits, hvalue⟩
    · rw [unsigned_of_digits hdigits]
      exact ⟨hne, hdigits, hvalue⟩
    · exact ⟨hne, hdigits, hvalue⟩
  · intro h
    exact ⟨unsigned text, eq_unsigned_or_plus text, h⟩

theorem le_largest_iff {value : Nat} : value ≤ Limits.largest ↔ value < 2 ^ 64 :=
  Nat.le_sub_one_iff_lt (by decide)

theorem positive?_eq (text : List Char) :
    positive? text = if (unsigned text).isEmpty || !(unsigned text).all Char.isDigit then none
      else if 0 < decimal (unsigned text) ∧ decimal (unsigned text) ≤ Limits.largest then
        some (decimal (unsigned text)) else none := by
  rw [← foldl_eq_decimal]
  unfold positive?
  split
  · rfl
  · next hplain =>
    rw [unsigned_of_plain hplain]

theorem positive?_eq_some_iff {text : List Char} {limit : Nat} :
    positive? text = some limit ↔ WholeNumber text limit ∧ 0 < limit ∧ limit < 2 ^ 64 := by
  rw [positive?_eq, wholeNumber_iff, ← le_largest_iff]
  split
  · next hnone =>
    rw [Bool.or_eq_true, List.isEmpty_iff, Bool.not_eq_true', List.all_eq_false] at hnone
    constructor
    · intro h
      cases h
    · rintro ⟨⟨hne, hdigits, -⟩, -⟩
      rcases hnone with hempty | ⟨c, hc, hnot⟩
      · exact absurd hempty hne
      · exact absurd (hdigits c hc) hnot
  · next hsome =>
    rw [Bool.or_eq_true, not_or, List.isEmpty_iff, Bool.not_eq_true', Bool.not_eq_false,
      List.all_eq_true] at hsome
    split
    · next hrange =>
      rw [Option.some.injEq]
      constructor
      · rintro rfl
        exact ⟨⟨hsome.1, hsome.2, rfl⟩, hrange⟩
      · rintro ⟨⟨-, -, hvalue⟩, -⟩
        exact hvalue
    · next hrange =>
      constructor
      · intro h
        cases h
      · rintro ⟨⟨-, -, rfl⟩, hbounds⟩
        exact absurd hbounds hrange

theorem Log.Level.ofName?_eq_some_iff {name : String} {level : Log.Level} :
    ofName? name = some level ↔ AsksLevel name level := by
  rw [AsksLevel, ofName?]
  split
  all_goals cases level <;> simp_all [names, Log.Level.name]

/-- What a run can be set to do. Each setting has a variable in the environment. -/
inductive Setting where
  | logLevel
  | maxDepth
  | maxLength
  deriving DecidableEq, Repr

namespace Setting

/-- The name of the variable. -/
def name : Setting → String
  | logLevel => Settings.logLevelVariable
  | maxDepth => Settings.maxDepthVariable
  | maxLength => Settings.maxLengthVariable

/-- The variable may have the value. -/
def Accepts (value : String) : Setting → Prop
  | logLevel => ∃ level, AsksLevel value level
  | _ => ∃ limit, AsksLimit value limit

/-- What is reported of a value that the variable may not have. -/
def complaint (value : String) : Setting → InvalidSetting
  | logLevel => .logLevel value
  | setting => .limit setting.name value

/-- The settings that are checked before this one. -/
def earlier : Setting → List Setting
  | logLevel => []
  | maxDepth => [logLevel]
  | maxLength => [logLevel, maxDepth]

/-- The variable of the setting has a value that it may not have, and this is the complaint. -/
def Refuses (environment : String → Option String) (setting : Setting) (error : InvalidSetting) :
    Prop :=
  ∃ value, environment setting.name = some value ∧ ¬setting.Accepts value ∧
    setting.complaint value = error

def Invalid (environment : String → Option String) (setting : Setting) : Prop :=
  ∃ error, setting.Refuses environment error

/-- The complaint about the first setting that is invalid. -/
def FirstRefusal (environment : String → Option String) (error : InvalidSetting) : Prop :=
  ∃ setting : Setting, setting.Refuses environment error ∧
    ∀ other ∈ setting.earlier, ¬other.Invalid environment

end Setting

/-- What a setting comes to: what is given, or what its variable asks for, or what is standard. -/
def Chosen {α : Type} (asks : String → α → Prop) (standard : α) (given : Option α)
    (value : Option String) (result : α) : Prop :=
  match given, value with
  | some given, _ => result = given
  | none, some value => asks value result
  | none, none => result = standard

/-- Each setting is chosen for itself. -/
structure Resolved (environment : String → Option String) (given : Overrides)
    (settings : Settings) : Prop where
  logLevel : Chosen AsksLevel Settings.standard.logLevel given.logLevel
    (environment Setting.logLevel.name) settings.logLevel
  maxDepth : Chosen AsksLimit Settings.standard.limits.maxDepth given.maxDepth
    (environment Setting.maxDepth.name) settings.limits.maxDepth
  maxLength : Chosen AsksLimit Settings.standard.limits.maxLength given.maxLength
    (environment Setting.maxLength.name) settings.limits.maxLength

section Choosing

variable {α : Type} {asks : String → α → Prop} {standard result other : α} {given : Option α}
  {value : Option String}

/-- What is given takes the place of what would be chosen without it. -/
theorem Chosen.getD (h : Chosen asks standard none value result) (given : Option α) :
    Chosen asks standard given value (given.getD result) := by
  cases given with
  | none => exact h
  | some given => rfl

theorem Chosen.unique (hasks : ∀ value result other, asks value result → asks value other →
    result = other) (h : Chosen asks standard given value result)
    (hother : Chosen asks standard given value other) : result = other := by
  unfold Chosen at h hother
  split at h
  · exact h.trans hother.symm
  · exact hasks _ _ _ h hother
  · exact h.trans hother.symm

theorem Chosen.positive {standard limit : Nat} {given : Option Nat}
    (h : Chosen AsksLimit standard given value limit) (hstandard : 0 < standard)
    (hgiven : ∀ limit ∈ given, 0 < limit) : 0 < limit := by
  unfold Chosen at h
  split at h
  · exact h ▸ hgiven _ rfl
  · exact h.2.1
  · exact h ▸ hstandard

end Choosing

theorem AsksLevel.unique (value : String) (level other : Log.Level) (h : AsksLevel value level)
    (hother : AsksLevel value other) : level = other := by
  rw [← Log.Level.ofName?_eq_some_iff] at h hother
  exact Option.some.inj (h.symm.trans hother)

theorem AsksLimit.unique (value : String) (limit other : Nat) (h : AsksLimit value limit)
    (hother : AsksLimit value other) : limit = other := by
  rw [AsksLimit, ← positive?_eq_some_iff] at h hother
  exact Option.some.inj (h.symm.trans hother)

namespace Settings

variable {environment : String → Option String} {error : InvalidSetting} {value : Option String}

theorem levelOf_eq_ok_iff {level : Log.Level} :
    levelOf value = .ok level ↔ Chosen AsksLevel standard.logLevel none value level := by
  cases value with
  | none => simp [levelOf, Chosen, eq_comm]
  | some value =>
    rw [Chosen, ← Log.Level.ofName?_eq_some_iff, levelOf]
    cases Log.Level.ofName? value <;> simp

theorem limitOf_eq_ok_iff {name : String} {unset limit : Nat} :
    limitOf name unset value = .ok limit ↔ Chosen AsksLimit unset none value limit := by
  cases value with
  | none => simp [limitOf, Chosen, eq_comm]
  | some value =>
    rw [Chosen, AsksLimit, ← positive?_eq_some_iff, limitOf]
    cases positive? (Text.trim value.toList) <;> simp

theorem levelOf_eq_error_iff :
    levelOf (environment Setting.logLevel.name) = .error error ↔
      Setting.logLevel.Refuses environment error := by
  simp only [Setting.Refuses, Setting.Accepts, Setting.complaint, ← Log.Level.ofName?_eq_some_iff]
  cases environment Setting.logLevel.name with
  | none => simp [levelOf]
  | some value =>
    rw [levelOf]
    cases hlevel : Log.Level.ofName? value <;> simp [hlevel]

theorem limitOf_eq_error_iff {setting : Setting} (hsetting : setting ≠ .logLevel) {unset : Nat} :
    limitOf setting.name unset (environment setting.name) = .error error ↔
      setting.Refuses environment error := by
  have hrefuses : setting.Refuses environment error ↔
      ∃ value, environment setting.name = some value ∧
      (¬∃ limit, AsksLimit value limit) ∧ .limit setting.name value = error := by
    cases setting with
    | logLevel => exact absurd rfl hsetting
    | maxDepth => exact Iff.rfl
    | maxLength => exact Iff.rfl
  simp only [hrefuses, AsksLimit, ← positive?_eq_some_iff]
  cases environment setting.name with
  | none => simp [limitOf]
  | some value =>
    rw [limitOf]
    cases hlimit : positive? (Text.trim value.toList) <;> simp [hlimit]

theorem exists_levelOf_iff :
    (∃ level, levelOf (environment Setting.logLevel.name) = .ok level) ↔
      ¬Setting.logLevel.Invalid environment := by
  rw [exists_eq_ok_iff]
  simp only [levelOf_eq_error_iff, Setting.Invalid]

theorem exists_limitOf_iff {setting : Setting} (hsetting : setting ≠ .logLevel) (unset : Nat) :
    (∃ limit, limitOf setting.name unset (environment setting.name) = .ok limit) ↔
      ¬setting.Invalid environment := by
  rw [exists_eq_ok_iff]
  simp only [limitOf_eq_error_iff hsetting, Setting.Invalid]

theorem ofEnvironment_eq_ok_iff {settings : Settings} :
    ofEnvironment environment = .ok settings ↔
      Resolved environment ⟨none, none, none⟩ settings := by
  simp only [ofEnvironment, bind_eq_ok_iff, levelOf_eq_ok_iff, limitOf_eq_ok_iff]
  constructor
  · rintro ⟨logLevel, hlevel, maxDepth, hdepth, maxLength, hlength, hsettings⟩
    cases hsettings
    exact ⟨hlevel, hdepth, hlength⟩
  · rintro ⟨hlevel, hdepth, hlength⟩
    exact ⟨_, hlevel, _, hdepth, _, hlength, rfl⟩

/-- The settings are checked one after the other, and the first complaint ends it. -/
theorem ofEnvironment_eq_error_iff :
    ofEnvironment environment = .error error ↔ Setting.FirstRefusal environment error := by
  have hdepth : Setting.maxDepth ≠ .logLevel := by decide
  have hlength : Setting.maxLength ≠ .logLevel := by decide
  rw [ofEnvironment]
  simp only [bind_eq_error_iff]
  constructor
  · rintro (hlevel | ⟨level, hlevel, hlimit | ⟨limit, hlimit, hlast | ⟨_, _, hnone⟩⟩⟩)
    · exact ⟨.logLevel, levelOf_eq_error_iff.1 hlevel, by simp [Setting.earlier]⟩
    · refine ⟨.maxDepth, (limitOf_eq_error_iff hdepth).1 hlimit, ?_⟩
      simpa [Setting.earlier] using exists_levelOf_iff.1 ⟨level, hlevel⟩
    · refine ⟨.maxLength, (limitOf_eq_error_iff hlength).1 hlast, ?_⟩
      simpa [Setting.earlier] using
        ⟨exists_levelOf_iff.1 ⟨level, hlevel⟩, (exists_limitOf_iff hdepth _).1 ⟨limit, hlimit⟩⟩
    · cases hnone
  · rintro ⟨setting, hrefuses, hearlier⟩
    cases setting with
    | logLevel => exact Or.inl (levelOf_eq_error_iff.2 hrefuses)
    | maxDepth =>
      obtain ⟨level, hlevel⟩ := exists_levelOf_iff.2 (hearlier .logLevel (by decide))
      exact Or.inr ⟨level, hlevel, Or.inl ((limitOf_eq_error_iff hdepth).2 hrefuses)⟩
    | maxLength =>
      obtain ⟨level, hlevel⟩ := exists_levelOf_iff.2 (hearlier .logLevel (by decide))
      obtain ⟨limit, hlimit⟩ := (exists_limitOf_iff hdepth Settings.standard.limits.maxDepth).2
        (hearlier .maxDepth (by decide))
      exact Or.inr ⟨level, hlevel, Or.inr ⟨limit, hlimit,
        Or.inl ((limitOf_eq_error_iff hlength).2 hrefuses)⟩⟩

theorem exists_ofEnvironment_error_iff :
    (∃ error, ofEnvironment environment = .error error) ↔
      ∃ setting : Setting, setting.Invalid environment := by
  simp only [ofEnvironment_eq_error_iff]
  constructor
  · rintro ⟨error, setting, hrefuses, -⟩
    exact ⟨setting, error, hrefuses⟩
  · -- The first one in the order of the checks.
    rintro ⟨setting, hinvalid⟩
    by_cases hlevel : Setting.logLevel.Invalid environment
    · obtain ⟨error, hrefuses⟩ := hlevel
      exact ⟨error, .logLevel, hrefuses, by simp [Setting.earlier]⟩
    by_cases hdepth : Setting.maxDepth.Invalid environment
    · obtain ⟨error, hrefuses⟩ := hdepth
      exact ⟨error, .maxDepth, hrefuses, by simpa [Setting.earlier] using hlevel⟩
    cases setting with
    | logLevel => exact absurd hinvalid hlevel
    | maxDepth => exact absurd hinvalid hdepth
    | maxLength =>
      obtain ⟨error, hrefuses⟩ := hinvalid
      exact ⟨error, .maxLength, hrefuses, by simpa [Setting.earlier] using ⟨hlevel, hdepth⟩⟩

end Settings

/-- No limit that is given is zero. -/
def Overrides.Positive (given : Overrides) : Prop :=
  (∀ limit ∈ given.maxDepth, 0 < limit) ∧ ∀ limit ∈ given.maxLength, 0 < limit

section Overriding

variable {environment : String → Option String} {given : Overrides} {settings others : Settings}

theorem Resolved.override (h : Resolved environment ⟨none, none, none⟩ settings)
    (given : Overrides) : Resolved environment given (settings.override given) :=
  ⟨h.logLevel.getD _, h.maxDepth.getD _, h.maxLength.getD _⟩

theorem Resolved.unique (h : Resolved environment given settings)
    (hothers : Resolved environment given others) : settings = others := by
  have hlevel := Chosen.unique AsksLevel.unique h.logLevel hothers.logLevel
  have hdepth := Chosen.unique AsksLimit.unique h.maxDepth hothers.maxDepth
  have hlength := Chosen.unique AsksLimit.unique h.maxLength hothers.maxLength
  obtain ⟨logLevel, maxDepth, maxLength⟩ := settings
  obtain ⟨_, _, _⟩ := others
  rw [Settings.mk.injEq, Limits.mk.injEq]
  exact ⟨hlevel, hdepth, hlength⟩

theorem Resolved.positive (h : Resolved environment given settings) (hgiven : given.Positive) :
    0 < settings.limits.maxDepth ∧ 0 < settings.limits.maxLength :=
  ⟨h.maxDepth.positive (by decide) hgiven.1, h.maxLength.positive (by decide) hgiven.2⟩

theorem Settings.map_override_eq_ok_iff :
    (ofEnvironment environment).map (·.override given) = .ok settings ↔
      (∀ setting : Setting, ¬setting.Invalid environment) ∧
        Resolved environment given settings := by
  rw [← not_exists, ← exists_ofEnvironment_error_iff, ← exists_eq_ok_iff]
  constructor
  · intro houtcome
    obtain ⟨base, hbase, rfl⟩ := map_eq_ok_iff.1 houtcome
    exact ⟨⟨base, hbase⟩, (ofEnvironment_eq_ok_iff.1 hbase).override given⟩
  · rintro ⟨⟨base, hbase⟩, hsettings⟩
    have hoverride := (ofEnvironment_eq_ok_iff.1 hbase).override given
    exact map_eq_ok_iff.2 ⟨base, hbase, hoverride.unique hsettings⟩

end Overriding

namespace CommandLine.Invocation

variable {before : Arguments} {words : List String} {invocation : Invocation}

theorem positive_overridesOf (before after : Arguments) : (overridesOf before after).Positive := by
  have hpositive : ∀ value? : Option String,
      ∀ limit ∈ value?.bind (fun value => positive? value.toList), 0 < limit := by
    intro value? limit hlimit
    obtain ⟨value, -, hread⟩ := Option.bind_eq_some_iff.1 hlimit
    exact (positive?_eq_some_iff.1 hread).2.1
  exact ⟨hpositive _, hpositive _⟩

theorem positive_of_ofVerb {verb : Verb} (h : ofVerb before verb words = .ok invocation) :
    invocation.overrides.Positive := by
  obtain ⟨after, -, h⟩ := bind_eq_ok_iff.1 h
  obtain ⟨command, -, h⟩ := bind_eq_ok_iff.1 h
  obtain ⟨settled, -, h⟩ := bind_eq_ok_iff.1 h
  cases h
  exact positive_overridesOf settled after

theorem positive_of_readFrom (h : readFrom before words = .ok invocation) :
    invocation.overrides.Positive := by
  induction words generalizing before with
  | nil => cases h
  | cons word rest ih =>
    rw [readFrom] at h
    split at h
    · obtain ⟨next, -, hrest⟩ := bind_eq_ok_iff.1 h
      exact ih hrest
    · obtain ⟨next, -, hrest⟩ := bind_eq_ok_iff.1 h
      exact ih hrest
    · cases h
    · split at h
      · exact ih h
      · split at h
        · cases h
        · split at h
          · exact positive_of_ofVerb h
          · cases h

end CommandLine.Invocation

open CommandLine (Invocation)

/-- The environment is refused exactly where some variable has a value that it may not have, with
the complaint about the first such variable, whatever the command line gives. Otherwise each
setting is the one that is given, or that of its variable, or the standard one, and no limit is
zero, since the command line gives none that is. -/
theorem Settings.resolved_or_refused (environment : String → Option String) (given : Overrides) :
    let outcome := (ofEnvironment environment).map (·.override given)
    ((∃ error, ofEnvironment environment = .error error) ↔
      ∃ setting : Setting, setting.Invalid environment) ∧
    (∀ error, ofEnvironment environment = .error error ↔
      Setting.FirstRefusal environment error) ∧
    (∀ error, outcome = .error error ↔ ofEnvironment environment = .error error) ∧
    (∀ settings, outcome = .ok settings ↔
      (∀ setting : Setting, ¬setting.Invalid environment) ∧
        Resolved environment given settings) ∧
    (given.Positive → ∀ settings, outcome = .ok settings →
      0 < settings.limits.maxDepth ∧ 0 < settings.limits.maxLength) ∧
    ∀ words invocation, Invocation.read words = .ok invocation →
      invocation.overrides.Positive := by
  intro outcome
  refine ⟨exists_ofEnvironment_error_iff, fun _ => ofEnvironment_eq_error_iff, ?_,
    fun _ => map_override_eq_ok_iff, ?_, fun _ _ => Invocation.positive_of_readFrom⟩
  · intro error
    exact map_eq_error_iff
  · intro hgiven settings houtcome
    exact (map_override_eq_ok_iff.1 houtcome).2.positive hgiven

theorem Settings.resolved_or_refused_with_flags :
    let environment := fun name =>
      if name = logLevelVariable then some " Warning\t"
      else if name = maxDepthVariable then some "\u00a0+007 " else none
    let wrong := fun name =>
      if name = logLevelVariable then some "loud"
      else if name = maxDepthVariable then some "0x8" else none
    let given : Overrides := ⟨none, none, some 12⟩
    let invocation : Invocation := ⟨.check "kelp", given⟩
    Invocation.read ["check", "kelp", "--max-length", "12"] = .ok invocation ∧
      given.Positive ∧
      (ofEnvironment environment).map (·.override given) = .ok ⟨.warn, ⟨7, 12⟩⟩ ∧
      Resolved environment given ⟨.warn, ⟨7, 12⟩⟩ ∧ 0 < 7 ∧ 0 < 12 ∧
      (ofEnvironment wrong).map (·.override ⟨some .info, some 8, none⟩) =
        .error (.logLevel "loud") ∧
      Setting.FirstRefusal wrong (.logLevel "loud") := by
  intro environment wrong given invocation
  have hread : Invocation.read ["check", "kelp", "--max-length", "12"] = .ok invocation :=
    Outcomes.eq_ok_of_toOption (by decide +kernel)
  have houtcome : (ofEnvironment environment).map (·.override given) = .ok ⟨.warn, ⟨7, 12⟩⟩ :=
    Outcomes.eq_ok_of_toOption (by decide +kernel)
  have hloud : ofEnvironment wrong = .error (.logLevel "loud") := by rfl
  obtain ⟨-, -, -, hresolved, hpositive, hcommandLine⟩ := resolved_or_refused environment given
  have hgiven : given.Positive := hcommandLine _ _ hread
  obtain ⟨hdepth, hlength⟩ := hpositive hgiven _ houtcome
  obtain ⟨-, hfirst, hoverridden, -⟩ := resolved_or_refused wrong ⟨some .info, some 8, none⟩
  exact ⟨hread, hgiven, houtcome, ((hresolved _).1 houtcome).2, hdepth, hlength,
    (hoverridden _).2 hloud, (hfirst _).1 hloud⟩

end TagRules
