import Mathlib.Data.List.Induction
import Mathlib.Data.List.Nodup
import Mathlib.Logic.Function.Iterate
import TagRules.Proofs.DistinctKeys
import TagRules.Selection.Set

/-!
Selection sets along their history. A change is described by what it does to the mode of each
key and to the entries of all other keys, and what a history does follows by induction on its
changes. The map from keys to modes that the set stands for is computed from the history
alone, and so is the moment since which each key has been selected. Only the first entry of a
key is looked at, and nothing but distinctness of the keys keeps later ones from showing.
-/

namespace TagRules.SelectionSet

section Entries

variable {key : String} {mode : SelectionMode} {entries front back : List Selection}

/-- The entries with the mode given to the first entry of the key, or to a new one at the
end. No further entry of the key is looked at. -/
def putFirst (key : String) (mode : SelectionMode) : List Selection → List Selection
  | [] => [⟨key, mode⟩]
  | entry :: rest =>
    if entry.key = key then ⟨key, mode⟩ :: rest else entry :: putFirst key mode rest

/-- The entries without the first entry of the key. -/
def dropFirst (key : String) (entries : List Selection) : List Selection :=
  entries.eraseP (·.key = key)

theorem putFirst_append (h : key ∉ front.map Selection.key) (back : List Selection) :
    putFirst key mode (front ++ back) = front ++ putFirst key mode back := by
  induction front with
  | nil => rfl
  | cons entry rest ih =>
    rw [List.map_cons, List.mem_cons, not_or] at h
    rw [List.cons_append, putFirst, if_neg (fun heq => h.1 heq.symm), ih h.2, List.cons_append]

theorem putFirst_of_not_mem (h : key ∉ entries.map Selection.key) :
    putFirst key mode entries = entries ++ [⟨key, mode⟩] := by
  rw [← List.append_nil entries, putFirst_append h, putFirst, List.append_nil]

theorem filter_putFirst (key : String) (mode : SelectionMode) (entries : List Selection) :
    (putFirst key mode entries).filter (·.key ≠ key) = entries.filter (·.key ≠ key) := by
  induction entries with
  | nil => simp [putFirst]
  | cons entry rest ih =>
    unfold putFirst
    split
    · next heq => simp [heq]
    · rw [List.filter_cons, List.filter_cons, ih]

theorem find?_putFirst (key other : String) (mode : SelectionMode) (entries : List Selection) :
    (putFirst key mode entries).find? (·.key = other) =
      if key = other then some ⟨key, mode⟩ else entries.find? (·.key = other) := by
  induction entries with
  | nil =>
    by_cases heq : key = other
    · simp [putFirst, heq]
    · simp [putFirst, heq]
  | cons entry rest ih =>
    by_cases hentry : entry.key = key
    · by_cases heq : key = other
      · simp [putFirst, hentry, heq]
      · simp [putFirst, hentry, heq]
    · rw [putFirst, if_neg hentry, List.find?_cons, List.find?_cons, ih]
      by_cases heq : key = other
      · simp [← heq, hentry]
      · simp [heq]

theorem map_assign_of_not_mem (h : key ∉ entries.map Selection.key) :
    entries.map (assign key mode) = entries := by
  induction entries with
  | nil => rfl
  | cons entry rest ih =>
    rw [List.map_cons, List.mem_cons, not_or] at h
    rw [List.map_cons, ih h.2, assign, if_neg (fun heq => h.1 heq.symm)]

/-- Where keys are distinct, there is no other entry of a key than its first. -/
theorem map_assign_eq_putFirst (hnodup : (entries.map Selection.key).Nodup)
    (hmem : key ∈ entries.map Selection.key) :
    entries.map (assign key mode) = putFirst key mode entries := by
  induction entries with
  | nil => cases hmem
  | cons entry rest ih =>
    rw [List.map_cons, List.nodup_cons] at hnodup
    rw [List.map_cons, putFirst, assign]
    split
    · next heq => rw [map_assign_of_not_mem (heq ▸ hnodup.1)]
    · next hne =>
      rw [List.map_cons, List.mem_cons] at hmem
      rw [ih hnodup.2 (hmem.resolve_left (fun heq => hne heq.symm))]

theorem filter_of_not_mem (h : key ∉ entries.map Selection.key) :
    entries.filter (·.key ≠ key) = entries := by
  rw [List.filter_eq_self]
  intro entry hentry
  rw [decide_eq_true_eq]
  rintro rfl
  exact h (List.mem_map_of_mem hentry)

theorem filter_eq_dropFirst (hnodup : (entries.map Selection.key).Nodup) :
    entries.filter (·.key ≠ key) = dropFirst key entries := by
  rw [dropFirst]
  induction entries with
  | nil => rfl
  | cons entry rest ih =>
    rw [List.map_cons, List.nodup_cons] at hnodup
    rw [List.eraseP_cons]
    by_cases heq : entry.key = key
    · simpa [heq] using filter_of_not_mem (heq ▸ hnodup.1)
    · simpa [heq] using ih hnodup.2

end Entries

variable {set : SelectionSet} {key other : String} {mode : SelectionMode}
  {mode? : Option SelectionMode} {front : List Selection}

theorem entries_insert (set : SelectionSet) (key : String) (mode : SelectionMode) :
    (set.insert key mode).entries = putFirst key mode set.entries := by
  unfold insert
  split
  · next hmem => exact map_assign_eq_putFirst set.nodup hmem
  · next hnot => exact (putFirst_of_not_mem hnot).symm

theorem entries_erase (set : SelectionSet) (key : String) :
    (set.erase key).entries = dropFirst key set.entries :=
  filter_eq_dropFirst set.nodup

theorem mem_entries_iff {entry : Selection} :
    entry ∈ set.entries ↔ set.modeOf? entry.key = some entry.mode := by
  rw [modeOf?, Option.map_eq_some_iff]
  constructor
  · intro hmem
    exact ⟨entry, find?_key_eq_some set.nodup hmem, rfl⟩
  · rintro ⟨found, hfound, hmode⟩
    have hkey : found.key = entry.key := by simpa using List.find?_some hfound
    obtain rfl : found = entry := by
      rw [show found = ⟨found.key, found.mode⟩ from rfl, hkey, hmode]
    exact List.mem_of_find?_eq_some hfound

theorem modeOf?_eq_none_iff : set.modeOf? key = none ↔ key ∉ set.entries.map Selection.key := by
  simp [modeOf?]

/-- The set in which a key has a mode, or none. -/
def put (set : SelectionSet) (key : String) : Option SelectionMode → SelectionSet
  | some mode => set.insert key mode
  | none => set.erase key

theorem modeOf?_erase (set : SelectionSet) (key other : String) :
    (set.erase key).modeOf? other = if key = other then none else set.modeOf? other := by
  rw [modeOf?, erase, List.find?_filter]
  split
  · next heq => simp [heq]
  · next hne =>
    rw [modeOf?]
    congr 2
    funext entry
    by_cases hentry : entry.key = other
    · simp [hentry, Ne.symm hne]
    · simp [hentry]

theorem modeOf?_put (set : SelectionSet) (key other : String) (mode? : Option SelectionMode) :
    (set.put key mode?).modeOf? other = if key = other then mode? else set.modeOf? other := by
  cases mode? with
  | none => exact modeOf?_erase set key other
  | some mode =>
    rw [put, modeOf?, entries_insert, find?_putFirst]
    split <;> rfl

theorem filter_put (set : SelectionSet) (key : String) (mode? : Option SelectionMode) :
    (set.put key mode?).entries.filter (·.key ≠ key) = set.entries.filter (·.key ≠ key) := by
  cases mode? with
  | none => simp [put, erase]
  | some mode => rw [put, entries_insert, filter_putFirst]

theorem keys_put_none (set : SelectionSet) (key : String) :
    ((set.put key none).entries.map Selection.key).Sublist (set.entries.map Selection.key) :=
  List.filter_sublist.map _

theorem keys_put_some (set : SelectionSet) (key : String) (mode : SelectionMode) :
    (set.put key (some mode)).entries.map Selection.key =
      if key ∈ set.entries.map Selection.key then set.entries.map Selection.key
      else set.entries.map Selection.key ++ [key] := by
  rw [put, insert]
  split
  · exact keys_assign key mode set.entries
  · rw [List.map_append, List.map_singleton]

/-- One change of a selection set. -/
inductive Change where
  | select (key : String) (mode : SelectionMode)
  | remove (key : String)
  | toggle (key : String)
  | clear
  deriving DecidableEq, Repr

/-- The set after a change, and the mode that the change answers. -/
def change (set : SelectionSet) : Change → Option SelectionMode × SelectionSet
  | .select key mode => set.select key mode
  | .remove key => set.remove key
  | .toggle key => set.toggle key
  | .clear => (none, set.clear)

def after (set : SelectionSet) (changes : List Change) : SelectionSet :=
  changes.foldl (fun set step => (set.change step).2) set

theorem after_cons (set : SelectionSet) (step : Change) (rest : List Change) :
    set.after (step :: rest) = (set.change step).2.after rest :=
  rfl

theorem after_append (set : SelectionSet) (earlier later : List Change) :
    set.after (earlier ++ later) = (set.after earlier).after later :=
  List.foldl_append

namespace Change

def ofSelection (selection : Selection) : Change :=
  .select selection.key selection.mode

/-- The key whose entry a change writes, if it is a single one. -/
def key? : Change → Option String
  | .select key _ | .remove key | .toggle key => some key
  | .clear => none

theorem key?_eq_none_iff {step : Change} : step.key? = none ↔ step = .clear := by
  cases step <;> simp [key?]

/-- Whether a change is about a key. -/
def Concerns (key : String) (step : Change) : Prop :=
  step.key? = some key ∨ step = .clear

theorem not_concerns {written key : String} {step : Change} (hkey : step.key? = some written)
    (hne : written ≠ key) : ¬step.Concerns key := by
  rintro (h | rfl)
  · exact hne (Option.some.inj (hkey.symm.trans h))
  · cases hkey

instance (key : String) (step : Change) : Decidable (step.Concerns key) :=
  inferInstanceAs (Decidable (_ ∨ _))

/-- The cycle from no selection through all modes and back. -/
def cycled : Option SelectionMode → Option SelectionMode
  | none => some .mustHaveAll
  | some .mustHaveAll => some .anyOf
  | some .anyOf => some .exclude
  | some .exclude => none

/-- The mode that a change gives to a key it is about, from the mode before it. -/
def given (mode? : Option SelectionMode) : Change → Option SelectionMode
  | .select _ mode => some mode
  | .toggle _ => cycled mode?
  | .remove _ | .clear => none

/-- The mode of any key after a change, from the mode before it. -/
def effect (key : String) (mode? : Option SelectionMode) (step : Change) :
    Option SelectionMode :=
  if step.Concerns key then step.given mode? else mode?

/-- What a change answers: the mode it replaces or removes, or the one it steps to. -/
def answer (modes : String → Option SelectionMode) : Change → Option SelectionMode
  | .select key _ | .remove key => modes key
  | .toggle key => cycled (modes key)
  | .clear => none

/-- A change on a list of entries that looks at the first entry of its key only. -/
def onEntries (entries : List Selection) : Change → List Selection
  | .select key mode => putFirst key mode entries
  | .remove key => dropFirst key entries
  | .toggle key =>
    match cycled ((entries.find? (·.key = key)).map Selection.mode) with
    | some mode => putFirst key mode entries
    | none => dropFirst key entries
  | .clear => []

end Change

theorem nextMode?_eq_cycled (mode? : Option SelectionMode) :
    nextMode? mode? = Change.cycled mode? := by
  rcases mode? with _ | _ | _ | _ <;> rfl

theorem toggle_eq (set : SelectionSet) (key : String) :
    set.toggle key =
      (Change.cycled (set.modeOf? key), set.put key (Change.cycled (set.modeOf? key))) := by
  rw [toggle, nextMode?_eq_cycled]
  cases Change.cycled (set.modeOf? key) with
  | none => rfl
  | some mode => rfl

theorem change_of_key {step : Change} (h : step.key? = some key) :
    (set.change step).2 = set.put key (step.given (set.modeOf? key)) := by
  cases step with
  | clear => cases h
  | select written mode =>
    obtain rfl := Option.some.inj h
    rfl
  | remove written =>
    obtain rfl := Option.some.inj h
    rfl
  | toggle written =>
    obtain rfl := Option.some.inj h
    exact congrArg Prod.snd (toggle_eq set written)

theorem change_answer (set : SelectionSet) (step : Change) :
    (set.change step).1 = step.answer set.modeOf? := by
  cases step with
  | clear => rfl
  | select key mode => rfl
  | remove key => rfl
  | toggle key => exact congrArg Prod.fst (toggle_eq set key)

theorem entries_change (set : SelectionSet) (step : Change) :
    (set.change step).2.entries = step.onEntries set.entries := by
  cases step with
  | clear => rfl
  | select key mode => exact entries_insert set key mode
  | remove key => exact entries_erase set key
  | toggle key =>
    rw [change_of_key rfl, Change.given, Change.onEntries, ← modeOf?]
    cases Change.cycled (set.modeOf? key) with
    | none => exact entries_erase set key
    | some mode => exact entries_insert set key mode

theorem modeOf?_change (set : SelectionSet) (step : Change) (key : String) :
    (set.change step).2.modeOf? key = step.effect key (set.modeOf? key) := by
  rw [Change.effect]
  cases hkey : step.key? with
  | none =>
    obtain rfl := Change.key?_eq_none_iff.1 hkey
    rfl
  | some written =>
    rw [change_of_key hkey, modeOf?_put]
    by_cases heq : written = key
    · rw [if_pos heq, heq, if_pos (.inl (heq ▸ hkey))]
    · rw [if_neg heq, if_neg (Change.not_concerns hkey heq)]

/-- A change of one key leaves the entries of all others as they are. -/
theorem filter_change {step : Change} (h : step.key? = some key) :
    (set.change step).2.entries.filter (·.key ≠ key) = set.entries.filter (·.key ≠ key) := by
  rw [change_of_key h, filter_put]

/-- A change removes a key, adds one to the end, or leaves the keys as they are. -/
theorem keys_change (set : SelectionSet) (step : Change) :
    ((set.change step).2.entries.map Selection.key).Sublist (set.entries.map Selection.key) ∨
      ∃ key, key ∉ set.entries.map Selection.key ∧
        (set.change step).2.entries.map Selection.key = set.entries.map Selection.key ++ [key] := by
  cases hkey : step.key? with
  | none =>
    obtain rfl := Change.key?_eq_none_iff.1 hkey
    exact .inl (List.nil_sublist _)
  | some key =>
    rw [change_of_key hkey]
    cases step.given (set.modeOf? key) with
    | none => exact .inl (keys_put_none set key)
    | some mode =>
      rw [keys_put_some]
      split
      · exact .inl (List.Sublist.refl _)
      · next hnot => exact .inr ⟨key, hnot, rfl⟩

/-- The mode a key has after a history, computed from the changes alone. -/
def modeAfter (history : List Change) (key : String) : Option SelectionMode :=
  history.foldl (Change.effect key) none

/-- The last change about a key gives it the mode. -/
def LastGiven (history : List Change) (key : String) (mode : SelectionMode) : Prop :=
  ∃ earlier step later, history = earlier ++ step :: later ∧ step.Concerns key ∧
    step.given (modeAfter earlier key) = some mode ∧
      ∀ other ∈ later, ¬other.Concerns key

/-- The change at an index selects a key, which then stays selected to the end. -/
def SelectedAt (history : List Change) (key : String) (index : Nat) : Prop :=
  index < history.length ∧ modeAfter (history.take index) key = none ∧
    ∀ later, index < later → later ≤ history.length →
      modeAfter (history.take later) key ≠ none

def SelectedBefore (history : List Change) (first second : String) : Prop :=
  ∃ earlier later, earlier < later ∧ SelectedAt history first earlier ∧
    SelectedAt history second later

/-- The keys come in the order in which the history selected them. -/
structure Ordered (history : List Change) (keys : List String) : Prop where
  since : ∀ key ∈ keys, ∃ index, SelectedAt history key index
  pairwise : keys.Pairwise (SelectedBefore history)

/-- What holds of a set to which a history of changes has led from the empty one. -/
structure Follows (history : List Change) (set : SelectionSet) : Prop where
  modes : ∀ key, set.modeOf? key = modeAfter history key
  entries : set.entries = history.foldl Change.onEntries []
  ordered : Ordered history (set.entries.map Selection.key)

variable {history : List Change} {step : Change} {index : Nat}

theorem modeAfter_snoc (history : List Change) (step : Change) (key : String) :
    modeAfter (history ++ [step]) key = step.effect key (modeAfter history key) := by
  rw [modeAfter, List.foldl_append]
  rfl

theorem foldl_effect_of_not_concerns {changes : List Change}
    (h : ∀ step ∈ changes, ¬step.Concerns key) (mode? : Option SelectionMode) :
    changes.foldl (Change.effect key) mode? = mode? := by
  induction changes with
  | nil => rfl
  | cons step rest ih =>
    rw [List.forall_mem_cons] at h
    rw [List.foldl_cons, Change.effect, if_neg h.1, ih h.2]

theorem modeAfter_eq_some_iff : modeAfter history key = some mode ↔ LastGiven history key mode := by
  constructor
  · intro h
    induction history using List.reverseRecOn with
    | nil => cases h
    | append_singleton earlier step ih =>
      rw [modeAfter_snoc, Change.effect] at h
      split at h
      · next hconcerns => exact ⟨earlier, step, [], rfl, hconcerns, h, List.forall_mem_nil _⟩
      · next hspares =>
        obtain ⟨before, last, later, rfl, hconcerns, hgiven, hlater⟩ := ih h
        refine ⟨before, last, later ++ [step], by simp, hconcerns, hgiven, ?_⟩
        rw [List.forall_mem_append, List.forall_mem_singleton]
        exact ⟨hlater, hspares⟩
  · rintro ⟨earlier, step, later, rfl, hconcerns, hgiven, hlater⟩
    rw [modeAfter, List.foldl_append, List.foldl_cons, ← modeAfter,
      foldl_effect_of_not_concerns hlater, Change.effect, if_pos hconcerns, hgiven]

theorem SelectedAt.snoc (h : SelectedAt history key index)
    (hkept : modeAfter (history ++ [step]) key ≠ none) :
    SelectedAt (history ++ [step]) key index := by
  obtain ⟨hlt, hbefore, hafter⟩ := h
  refine ⟨by rw [List.length_append]; omega, ?_, ?_⟩
  · rwa [List.take_append_of_le_length (Nat.le_of_lt hlt)]
  · intro later hindex hlater
    by_cases hle : later ≤ history.length
    · rw [List.take_append_of_le_length hle]
      exact hafter later hindex hle
    · rwa [List.take_of_length_le (by simp; omega)]

theorem SelectedAt.new (hbefore : modeAfter history key = none)
    (hafter : modeAfter (history ++ [step]) key ≠ none) :
    SelectedAt (history ++ [step]) key history.length := by
  refine ⟨by simp, by simpa using hbefore, ?_⟩
  intro later hlt hle
  rwa [List.take_of_length_le (by simp; omega)]

theorem SelectedBefore.snoc {first second : String} (h : SelectedBefore history first second)
    (hfirst : modeAfter (history ++ [step]) first ≠ none)
    (hsecond : modeAfter (history ++ [step]) second ≠ none) :
    SelectedBefore (history ++ [step]) first second := by
  obtain ⟨earlier, later, hlt, hearlier, hlater⟩ := h
  exact ⟨earlier, later, hlt, hearlier.snoc hfirst, hlater.snoc hsecond⟩

/-- Keys that stay selected keep their moments. -/
theorem Ordered.kept {keys kept : List String} (h : Ordered history keys)
    (hsub : kept.Sublist keys)
    (hselected : ∀ key ∈ kept, modeAfter (history ++ [step]) key ≠ none) :
    Ordered (history ++ [step]) kept := by
  constructor
  · intro key hkey
    obtain ⟨index, hindex⟩ := h.since key (hsub.subset hkey)
    exact ⟨index, hindex.snoc (hselected key hkey)⟩
  · refine (h.pairwise.sublist hsub).imp_of_mem ?_
    intro first second hfirst hsecond hbefore
    exact hbefore.snoc (hselected first hfirst) (hselected second hsecond)

/-- A key that is selected now comes after all that were selected before. -/
theorem Ordered.added {keys : List String} (h : Ordered history keys)
    (hbefore : modeAfter history key = none)
    (hselected : ∀ other ∈ keys ++ [key], modeAfter (history ++ [step]) other ≠ none) :
    Ordered (history ++ [step]) (keys ++ [key]) := by
  rw [List.forall_mem_append, List.forall_mem_singleton] at hselected
  have hkept : Ordered (history ++ [step]) keys := h.kept (.refl keys) hselected.1
  have hnew : SelectedAt (history ++ [step]) key history.length := .new hbefore hselected.2
  constructor
  · rw [List.forall_mem_append, List.forall_mem_singleton]
    exact ⟨hkept.since, _, hnew⟩
  · rw [List.pairwise_append]
    refine ⟨hkept.pairwise, List.pairwise_singleton _ _, ?_⟩
    intro first hfirst second hsecond
    obtain rfl := List.mem_singleton.1 hsecond
    obtain ⟨index, hindex⟩ := h.since first hfirst
    exact ⟨index, history.length, hindex.1, hindex.snoc (hselected.1 first hfirst), hnew⟩

namespace Follows

theorem empty : Follows [] SelectionSet.empty :=
  ⟨fun _ => rfl, rfl, nofun, .nil⟩

/-- Every change keeps the invariant. -/
theorem change (h : Follows history set) (step : Change) :
    Follows (history ++ [step]) (set.change step).2 := by
  have hmodes (key) : (set.change step).2.modeOf? key = modeAfter (history ++ [step]) key := by
    rw [modeOf?_change, h.modes, modeAfter_snoc]
  have hentries : (set.change step).2.entries = (history ++ [step]).foldl Change.onEntries [] := by
    rw [entries_change, h.entries, List.foldl_append]
    rfl
  have hselected : ∀ key ∈ (set.change step).2.entries.map Selection.key,
      modeAfter (history ++ [step]) key ≠ none := by
    intro key hmem
    rwa [← hmodes, Ne, modeOf?_eq_none_iff, not_not]
  refine ⟨hmodes, hentries, ?_⟩
  obtain hsub | ⟨added, hnot, hkeys⟩ := keys_change set step
  · exact h.ordered.kept hsub hselected
  · rw [hkeys] at hselected ⊢
    apply h.ordered.added ?_ hselected
    rw [← h.modes, modeOf?_eq_none_iff]
    exact hnot

theorem after (h : Follows history set) (changes : List Change) :
    Follows (history ++ changes) (set.after changes) := by
  induction changes generalizing history set with
  | nil =>
    rw [List.append_nil]
    exact h
  | cons step rest ih =>
    rw [after_cons, ← List.singleton_append, ← List.append_assoc]
    exact ih (h.change step)

end Follows

theorem ofList_eq_after (selections : List Selection) :
    ofList selections = empty.after (selections.map Change.ofSelection) := by
  rw [ofList, after, List.foldl_map]
  rfl

theorem follows_of_list (initial : List Selection) (changes : List Change) :
    Follows (initial.map Change.ofSelection ++ changes) ((ofList initial).after changes) := by
  rw [ofList_eq_after]
  exact (Follows.empty.after _).after changes

theorem modeOf?_after (set : SelectionSet) (changes : List Change) (key : String) :
    (set.after changes).modeOf? key = changes.foldl (Change.effect key) (set.modeOf? key) := by
  induction changes generalizing set with
  | nil => rfl
  | cons step rest ih => rw [after_cons, ih, modeOf?_change, List.foldl_cons]

/-- The entry of a key that has a mode, and no entry otherwise. -/
def cell (key : String) (mode? : Option SelectionMode) : List Selection :=
  (mode?.map (Selection.mk key)).toList

theorem entries_put_last (hnot : key ∉ front.map Selection.key)
    (h : set.entries = front ++ cell key mode?) (next? : Option SelectionMode) :
    (set.put key next?).entries = front ++ cell key next? := by
  cases next? with
  | none =>
    have hfilter : (set.put key none).entries = set.entries.filter (·.key ≠ key) := rfl
    rw [hfilter, h, List.filter_append, filter_of_not_mem hnot]
    cases mode? <;> simp [cell]
  | some next =>
    rw [put, entries_insert, h, putFirst_append hnot]
    cases mode? <;> simp [cell, putFirst]

theorem entries_toggles_last (hnot : key ∉ front.map Selection.key)
    (h : set.entries = front ++ cell key (set.modeOf? key)) (count : Nat) :
    (set.after (List.replicate count (.toggle key))).entries =
      front ++ cell key (Change.cycled^[count] (set.modeOf? key)) := by
  induction count generalizing set with
  | zero => exact h
  | succ count ih =>
    have hmode : (set.change (.toggle key)).2.modeOf? key = Change.cycled (set.modeOf? key) := by
      rw [modeOf?_change, Change.effect, if_pos (.inl rfl), Change.given]
    rw [List.replicate_succ, after_cons, Function.iterate_succ_apply, ← hmode]
    apply ih
    rw [hmode, change_of_key rfl]
    exact entries_put_last hnot h _

theorem filter_after {changes : List Change} (h : ∀ step ∈ changes, step.key? = some key)
    (set : SelectionSet) :
    (set.after changes).entries.filter (·.key ≠ key) = set.entries.filter (·.key ≠ key) := by
  induction changes generalizing set with
  | nil => rfl
  | cons step rest ih =>
    rw [List.forall_mem_cons] at h
    rw [after_cons, ih h.2, filter_change h.1]

theorem foldl_effect_toggles (key : String) (count : Nat) (mode? : Option SelectionMode) :
    (List.replicate count (Change.toggle key)).foldl (Change.effect key) mode? =
      Change.cycled^[count] mode? := by
  induction count generalizing mode? with
  | zero => rfl
  | succ count ih =>
    rw [List.replicate_succ, List.foldl_cons, Change.effect, if_pos (.inl rfl), ih,
      Function.iterate_succ_apply, Change.given]

/-- The four steps of the cycle from any mode lead through no selection. -/
theorem exists_cycled_none (mode? : Option SelectionMode) :
    ∃ before back, before + back = 4 ∧ Change.cycled^[before] mode? = none ∧
      Change.cycled^[back] none = mode? := by
  rcases mode? with _ | _ | _ | _
  · exact ⟨0, 4, rfl, rfl, rfl⟩
  · exact ⟨3, 1, rfl, rfl, rfl⟩
  · exact ⟨2, 2, rfl, rfl, rfl⟩
  · exact ⟨1, 3, rfl, rfl, rfl⟩

theorem modeOf?_four_toggles (set : SelectionSet) (key other : String) :
    (set.after (List.replicate 4 (.toggle key))).modeOf? other = set.modeOf? other := by
  rw [modeOf?_after]
  by_cases heq : key = other
  · obtain ⟨before, back, hsum, hbefore, hback⟩ := exists_cycled_none (set.modeOf? key)
    rw [heq, foldl_effect_toggles, ← hsum, Nat.add_comm, Function.iterate_add_apply, ← heq,
      hbefore, hback]
  · apply foldl_effect_of_not_concerns
    intro step hstep
    obtain rfl := List.eq_of_mem_replicate hstep
    exact Change.not_concerns rfl heq

/-- Once around the cycle, the entry of the key has been removed and added again. -/
theorem entries_four_toggles (set : SelectionSet) (key : String) :
    (set.after (List.replicate 4 (.toggle key))).entries =
      set.entries.filter (·.key ≠ key) ++ cell key (set.modeOf? key) := by
  obtain ⟨before, back, hsum, hbefore, hback⟩ := exists_cycled_none (set.modeOf? key)
  have hmode : (set.after (List.replicate before (.toggle key))).modeOf? key = none := by
    rw [modeOf?_after, foldl_effect_toggles, hbefore]
  have hnot := modeOf?_eq_none_iff.1 hmode
  have hfilter : (set.after (List.replicate before (.toggle key))).entries.filter (·.key ≠ key) =
      set.entries.filter (·.key ≠ key) := by
    apply filter_after
    intro step hstep
    rw [List.eq_of_mem_replicate hstep, Change.key?]
  rw [filter_of_not_mem hnot] at hfilter
  rw [← hsum, ← List.replicate_append_replicate, after_append, entries_toggles_last hnot
    (by rw [hmode]; exact (List.append_nil _).symm), hmode, hback, hfilter]

/-- A selection set is a map in the order in which its keys were selected, whatever changes
it has gone through. -/
theorem insertion_ordered (initial : List Selection) (changes : List Change) :
    let set := (ofList initial).after changes
    let history := initial.map Change.ofSelection ++ changes
    set.entries = history.foldl Change.onEntries [] ∧
      (set.entries.map Selection.key).Nodup ∧
      (∀ key, set.modeOf? key = modeAfter history key) ∧
      (∀ key mode, set.modeOf? key = some mode ↔ LastGiven history key mode) ∧
      (∀ entry, entry ∈ set.entries ↔ set.modeOf? entry.key = some entry.mode) ∧
      (∀ key ∈ set.entries.map Selection.key, ∃ index, SelectedAt history key index) ∧
      (set.entries.map Selection.key).Pairwise (SelectedBefore history) ∧
      (∀ step, (set.change step).1 = step.answer (modeAfter history)) ∧
      (∀ step key, step.key? = some key →
        (set.change step).2.entries.filter (·.key ≠ key) =
            set.entries.filter (·.key ≠ key) ∧
          ∀ other, key ≠ other → (set.change step).2.modeOf? other = set.modeOf? other) ∧
      ∀ key,
        (∀ other, (set.after (List.replicate 4 (.toggle key))).modeOf? other =
          set.modeOf? other) ∧
        (set.modeOf? key = none →
          (set.after (List.replicate 4 (.toggle key))).entries = set.entries) ∧
        ∀ mode, set.modeOf? key = some mode →
          (set.after (List.replicate 4 (.toggle key))).entries =
            set.entries.filter (·.key ≠ key) ++ [⟨key, mode⟩] := by
  intro set history
  have hfollows : Follows history set := follows_of_list initial changes
  refine ⟨hfollows.entries, set.nodup, hfollows.modes, ?_, fun _ => mem_entries_iff,
    hfollows.ordered.since, hfollows.ordered.pairwise, ?_, ?_, ?_⟩
  · intro key mode
    rw [hfollows.modes, modeAfter_eq_some_iff]
  · intro step
    rw [change_answer, funext hfollows.modes]
  · intro step key hkey
    refine ⟨filter_change hkey, ?_⟩
    intro other hne
    rw [modeOf?_change, Change.effect, if_neg (Change.not_concerns hkey hne)]
  · intro key
    refine ⟨modeOf?_four_toggles set key, ?_, ?_⟩
    · intro hmode
      rw [entries_four_toggles, hmode, filter_of_not_mem (modeOf?_eq_none_iff.1 hmode)]
      exact List.append_nil _
    · intro mode hmode
      rw [entries_four_toggles, hmode]
      rfl

example :
    ((ofList [⟨"a", .anyOf⟩, ⟨"b", .exclude⟩, ⟨"a", .mustHaveAll⟩]).after
      [.toggle "b", .toggle "a", .toggle "b"]).entries =
        [⟨"a", .anyOf⟩, ⟨"b", .mustHaveAll⟩] := by decide

end TagRules.SelectionSet
