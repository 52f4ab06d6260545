import TagRules.Rule.Error

/-!
When a computation that may fail gives an answer, and when it fails. These are the laws by which a
sequence of steps is taken apart in a proof.
-/

namespace TagRules.Outcomes

variable {α β ε ε' : Type}

theorem bind_eq_ok_iff {action : Except ε α} {next : α → Except ε β} {result : β} :
    (action >>= next) = .ok result ↔ ∃ value, action = .ok value ∧ next value = .ok result := by
  cases action with
  | error e => simp [bind, Except.bind]
  | ok value => simp [bind, Except.bind]

theorem bind_eq_error_iff {action : Except ε α} {next : α → Except ε β} {error : ε} :
    (action >>= next) = .error error ↔
      action = .error error ∨ ∃ value, action = .ok value ∧ next value = .error error := by
  cases action with
  | error e => simp [bind, Except.bind]
  | ok value => simp [bind, Except.bind]

theorem exists_eq_ok_iff {action : Except ε α} :
    (∃ value, action = .ok value) ↔ ¬∃ error, action = .error error := by
  cases action with
  | error e => simp
  | ok value => simp

theorem map_eq_ok_iff {convert : α → β} {action : Except ε α} {result : β} :
    action.map convert = .ok result ↔ ∃ value, action = .ok value ∧ convert value = result := by
  cases action with
  | error e => simp [Except.map]
  | ok value => simp [Except.map]

theorem map_eq_error_iff {convert : α → β} {action : Except ε α} {error : ε} :
    action.map convert = .error error ↔ action = .error error := by
  cases action with
  | error e => simp [Except.map]
  | ok value => simp [Except.map]

theorem mapError_ok (convert : ε → ε') (value : α) :
    (.ok value : Except ε α).mapError convert = .ok value :=
  rfl

theorem mapError_error (convert : ε → ε') (error : ε) :
    (.error error : Except ε α).mapError convert = .error (convert error) :=
  rfl

theorem mapError_eq_ok_iff {convert : ε → ε'} {action : Except ε α} {result : α} :
    action.mapError convert = .ok result ↔ action = .ok result := by
  cases action with
  | error e =>
    constructor
    · intro h
      cases h
    · intro h
      cases h
  | ok value =>
    constructor
    · intro h
      cases h
      rfl
    · intro h
      cases h
      rfl

theorem mapError_eq_error_iff {convert : ε → ε'} {action : Except ε α} {error : ε'} :
    action.mapError convert = .error error ↔
      ∃ fault, action = .error fault ∧ convert fault = error := by
  cases action with
  | error e => simp [mapError_error]
  | ok value => simp [mapError_ok]

theorem eq_ok_of_toOption {action : Except ε α} {result : α}
    (h : action.toOption = some result) : action = .ok result := by
  cases action with
  | error e => cases h
  | ok value => exact congrArg Except.ok (Option.some.inj h)

end TagRules.Outcomes
